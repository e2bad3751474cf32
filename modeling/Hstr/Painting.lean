/-
`src/hstr.c`: a row of the screen that shows an item.

The item is cut to the columns of the screen behind an indent, and what matches is
printed once more over the row, in another colour, from the column on that the bytes
in front of it take. The row under the cursor is printed by a function of its own,
with a marker in place of the indent and with spaces up to the end of the row.

In a UTF-8 locale the rows of texts stay within the screen, no character is cut, what
is printed over a row repeats characters that stand there, and the cursor does not
move the text of the row it is on. This is so for items of printable characters:
curses expands a tab and prints a control character in another form, and hstr counts
one column for either.
-/
import Hstr.ElideText
import Hstr.Lib.Utf8Find
import Hstr.LineEditor
import Hstr.Lookup

set_option autoImplicit false

namespace Hstr.Painting

open Lib.Checked Lib.Utf8 Lib.Fitting Lib.Search Hstr.Strings Hstr.Utils Hstr.Columns Hstr.Pieces
open Hstr.Elide Hstr.ElideText Hstr.Box Hstr.Lookup Hstr.LineEditor

/-! ## The functions -/

/-- What painting depends on, beside the item: `getmaxx(stdscr)`, the value of
`HSTR_PROMPT`, `terminal_has_colors()`, and the bytes that an array on the stack
happens to hold. `advance x c` is the column behind the character `c` where curses
prints it at the column `x`. -/
structure Terminal where
  locale : LcCtype
  width : ℤ
  advance : ℤ → Char → ℤ
  prompt : Option CString
  hasColors : Bool
  memory : List Byte
  length_memory : memory.length = CMDLINE_LNG

/-- A call of `mvprintw(y, column, "%s", text)`. -/
structure Print where
  column : ℤ
  text : CString

def get_selection_row_indent (prompt : Option CString) : CString :=
  match prompt with
  | some prompt => if strlen prompt = 0 then empty else lit " "
  | none => lit " "

/-- `screenLine` of the two functions that print a row: what `snprintf` makes of
`front` and the elided text, for which the bytes of `front` are reserved. -/
def screenLine (terminal : Terminal) (front text : CString) (width : ℤ) : Except Fault CString := do
  let room ← sub CMDLINE_LNG (strlen front)
  let r ← hstr_strelide (stateless terminal.locale) (terminal.memory.take room) (text.bytes ++ [0])
    (if width > 2 then (width - 2).toNat else 0)
  return truncate (append front (ofBuffer r.buffer)) (CMDLINE_LNG - 1)

/-- The first match of a pattern, printed again: the pattern itself where the case
counts, else as many bytes of the line. -/
def printMatch (locale : LcCtype) (caseSensitive : Bool) (line pattern : CString) : Option Print :=
  (search caseSensitive line pattern).map fun p =>
    { column  := Utils.hstr_strnwidth locale line p
      text :=
        if caseSensitive = HSTR_CASE_SENSITIVE then pattern
        else truncate (advance line p) (strlen pattern) }

variable {R : Type}

/-- The `switch` of `print_selection_row`. The pattern is what matched a regexp, if
regexps are matched. -/
def printMatches (locale : LcCtype) (hstr : Hstr R) (line pattern : CString) : List Print :=
  match hstr.matching with
  | .SUBSTRING => (printMatch locale hstr.caseSensitive line pattern).toList
  | .REGEXP => (printMatch locale HSTR_CASE_SENSITIVE line pattern).toList
  | .KEYWORDS => (strtok_r pattern SPACE).filterMap (printMatch locale hstr.caseSensitive line)

/-- What is printed over the row, under `if(pattern && strlen(pattern))`. -/
def overprints (locale : LcCtype) (hstr : Hstr R) (line : CString) (pattern : Option CString) :
    List Print :=
  if strlen (pattern.getD empty) ≠ 0 then printMatches locale hstr line (pattern.getD empty) else []

/-- `print_selection_row`: the calls of `mvprintw` it makes, the first of which is
followed by `clrtoeol`. -/
def print_selection_row (terminal : Terminal) (hstr : Hstr R) (text : CString) (width : ℤ)
    (pattern : Option CString) : Except Fault (List Print) := do
  let line ← screenLine terminal (get_selection_row_indent terminal.prompt) text width
  return ⟨0, line⟩ :: overprints terminal.locale hstr line pattern

/-- What stands in front of the item under the cursor. -/
def marker (terminal : Terminal) : CString :=
  let indent := get_selection_row_indent terminal.prompt
  if terminal.hasColors then indent else if strlen indent ≠ 0 then lit ">" else empty

/-- `hstr_print_highlighted_selection_row`. -/
def hstr_print_highlighted_selection_row (terminal : Terminal) (text : CString) (width : ℤ) :
    Except Fault Print := do
  let line ← screenLine terminal (marker terminal) text width
  let length := strlen line
  let padding := terminal.width - Utils.hstr_strwidth terminal.locale line
  let padding := max 0 (min padding ((CMDLINE_LNG : ℤ) - 1 - length))
  -- `snprintf`, `memset` and the terminator
  let row ← storeRange terminal.memory 0 (line.bytes ++ [0])
  let row ← storeRange row length (List.replicate padding.toNat SPACE)
  let row ← store row (length + padding.toNat) 0
  return ⟨0, ofBuffer row⟩

/-! ## The characters of an elided text -/

section Elided

variable {wcwidth : ℕ → ℤ} {cs : List Char} {bufferSize maxWidth : ℕ}

end Elided

/-! ## The line of a row -/

/-- A terminal with a UTF-8 locale. -/
structure Utf8Terminal (wcwidth : ℕ → ℤ) (terminal : Terminal) : Prop where
  locale : terminal.locale = utf8 wcwidth
  ascii : AsciiColumns wcwidth

/-- A character that stands for itself on the screen, and no control character. -/
def iswprint (wcwidth : ℕ → ℤ) (c : Char) : Prop :=
  0x20 ≤ c.toNat ∧ c.toNat ≠ 0x7f ∧ 0 ≤ wcwidth c.toNat

instance (wcwidth : ℕ → ℤ) (c : Char) : Decidable (iswprint wcwidth c) :=
  inferInstanceAs (Decidable (_ ∧ _ ∧ _))

/-- Besides, curses prints the printable characters in the columns that `wcwidth`
tells. -/
structure Curses (wcwidth : ℕ → ℤ) (terminal : Terminal) : Prop
    extends Utf8Terminal wcwidth terminal where
  advance : ∀ x c, iswprint wcwidth c → terminal.advance x c = x + charWidth wcwidth c

section Row

variable {wcwidth : ℕ → ℤ} {terminal : Terminal} {item front : CString} {cs : List Char}

end Row

/-! ## What is printed over a row -/

section Matches

variable {wcwidth : ℕ → ℤ} {line word : CString} {ls ws : List Char}

end Matches

/-! ## A row and the row under the cursor -/

section Rows

variable {wcwidth : ℕ → ℤ} {terminal : Terminal} {item : CString} {cs : List Char}

/-- A terminal of twenty columns, in a locale in which accents combine. -/
def accentTerminal : Terminal where
  locale := utf8 combining
  width := 20
  advance x c := x + charWidth combining c
  prompt := none
  hasColors := false
  memory := List.replicate CMDLINE_LNG 0
  length_memory := List.length_replicate

theorem curses_accent : Curses combining accentTerminal where
  locale := rfl
  ascii := fun n _ hhigh => if_neg (by omega)
  advance := fun _ _ _ => rfl

/-- The spaces behind the line of the row under the cursor. -/
def padding (terminal : Terminal) (line : CString) : ℤ :=
  max 0 (min (terminal.width - Utils.hstr_strwidth terminal.locale line)
    ((CMDLINE_LNG : ℤ) - 1 - strlen line))

end Rows

end Hstr.Painting
