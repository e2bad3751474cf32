/-
readline's history library, as far as the program uses it.

`read_history` and `write_history` belong to readline and not to the program:
what they make of the lines of a file and of the lines of a list is a parameter
of the model, and what is relied on are named hypotheses. `gnuReadline` meets
those that are documented.

A history file is a list of lines, each ended by a newline in the file. readline
allows for files with Windows line ends and leaves out empty lines; in a file
that starts with `#` and a digit, every line that does is the timestamp of the
line behind it and no entry.
-/
import Hstr.Utils

set_option autoImplicit false

namespace Hstr.Readline

open Hstr.Strings Hstr.Utils

/-- The lines that `read_history` adds to the empty list for the lines of a file,
and the lines of the file that `write_history` makes of those of the list. -/
structure HistoryLibrary where
  read_history : List CString → List CString
  write_history : List CString → List CString

def CARRIAGE_RETURN : Byte := 13

/-- A line as Windows ends it loses the carriage return. -/
def cutReturn (line : CString) : CString :=
  if line.bytes.getLast? = some CARRIAGE_RETURN then truncate line (strlen line - 1) else line

/-- `HIST_TIMESTAMP_START`: a `#` and a digit. -/
def startsStamp (line : CString) : Bool :=
  match line.bytes with
  | c :: d :: _ => c == 35 && isdigit d
  | _ => false

/-- Does the file start like that? -/
def isStamped (lines : List CString) : Bool := lines.head?.any startsStamp

/-- Is the line an entry, in a file with or without timestamps? -/
def isEntryLine (stamped : Bool) (line : CString) : Bool :=
  decide (strlen line ≠ 0) && !(stamped && startsStamp line)

/-- What `read_history` is documented to read. -/
def ReadsHistory (readline : HistoryLibrary) : Prop :=
  ∀ lines, readline.read_history lines
    = (lines.map cutReturn).filter (isEntryLine (isStamped lines))

/-- What a list gets where every line of a file is an entry. -/
def ReadsLines (readline : HistoryLibrary) : Prop := ∀ lines, readline.read_history lines = lines

/-- `write_history` overwrites the file with the list. -/
def Overwrites (readline : HistoryLibrary) : Prop :=
  ∀ lines, readline.write_history lines = lines

/-- The GNU library. -/
def gnuReadline : HistoryLibrary where
  read_history lines := (lines.map cutReturn).filter (isEntryLine (isStamped lines))
  write_history lines := lines

/-- A library for which every line is an entry. -/
def plainReadline : HistoryLibrary where
  read_history lines := lines
  write_history lines := lines

theorem gnuReadline_readsHistory : ReadsHistory gnuReadline := fun _ => rfl

theorem gnuReadline_overwrites : Overwrites gnuReadline := fun _ => rfl

theorem plainReadline_readsLines : ReadsLines plainReadline := fun _ => rfl

theorem plainReadline_overwrites : Overwrites plainReadline := fun _ => rfl

/-- A file whose lines are all entries: none is empty or ends in a carriage
return, and the first one does not start like a timestamp. -/
structure Plain (lines : List CString) : Prop where
  not_empty : ∀ line ∈ lines, strlen line ≠ 0
  not_return : ∀ line ∈ lines, line.bytes.getLast? ≠ some CARRIAGE_RETURN
  not_stamped : isStamped lines = false

theorem cutReturn_eq_self {line : CString} (h : line.bytes.getLast? ≠ some CARRIAGE_RETURN) :
    cutReturn line = line := if_neg h

theorem map_cutReturn {lines : List CString}
    (h : ∀ line ∈ lines, line.bytes.getLast? ≠ some CARRIAGE_RETURN) :
    lines.map cutReturn = lines := by
  conv_rhs => rw [← List.map_id lines]
  exact List.map_congr_left fun line hline => cutReturn_eq_self (h line hline)

/-- A plain file is read line by line. -/
theorem read_history_of_plain {readline : HistoryLibrary} (hread : ReadsHistory readline)
    {lines : List CString} (h : Plain lines) : readline.read_history lines = lines := by
  rw [hread, map_cutReturn h.not_return, h.not_stamped, List.filter_eq_self]
  intro line hline
  simp [isEntryLine, h.not_empty line hline]

/-- Where no line ends in a carriage return, the entries are some of the lines. -/
theorem read_history_sublist {readline : HistoryLibrary} (hread : ReadsHistory readline)
    {lines : List CString} (h : ∀ line ∈ lines, line.bytes.getLast? ≠ some CARRIAGE_RETURN) :
    (readline.read_history lines).Sublist lines := by
  rw [hread, map_cutReturn h]
  exact List.filter_sublist

/-- No entry is an empty line. -/
theorem strlen_of_mem_read_history {readline : HistoryLibrary} (hread : ReadsHistory readline)
    {lines : List CString} {line : CString} (h : line ∈ readline.read_history lines) :
    strlen line ≠ 0 := by
  rw [hread, List.mem_filter, isEntryLine, Bool.and_eq_true, decide_eq_true_eq] at h
  exact h.2.1

end Hstr.Readline
