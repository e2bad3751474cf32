/-
C strings and what the source uses of `<string.h>` and `<ctype.h>`.

A `char*` that the source reads as text is a `CString`: the bytes before the
terminating NUL. That no byte of them is NUL is a field, so `strcmp(a, b) == 0`
is equality, `strlen` is the length of the list, and a line cut out of a buffer
cannot smuggle a terminator in.

The source runs with `setlocale(LC_ALL, "")` and treats bytes, not characters,
in all functions here. The case mapping is the one of the C and UTF-8 locales:
only ASCII letters have two cases as single bytes.
-/
import Hstr.Lib.Lines
import Mathlib.Data.List.Infix
import Mathlib.Data.List.TakeWhile

set_option autoImplicit false

namespace Hstr.Strings

open Lib.Lines

/-- A `char`, as the unsigned byte it is stored as. -/
abbrev Byte := UInt8

/-- The newline `'\n'`. -/
def NEWLINE : Byte := 10

/-- The separator of keywords, `' '`. -/
def SPACE : Byte := 32

/-- A NUL terminated string: the bytes before its terminator. -/
@[ext] structure CString where
  /-- The bytes `s[0]`, ..., `s[strlen(s)-1]`. -/
  bytes : List Byte
  /-- None of them is the terminator. -/
  nonul : (0 : Byte) ∉ bytes
  deriving DecidableEq

/-- The string that starts at an address, given the memory from there on. -/
def ofBuffer (mem : List Byte) : CString where
  bytes := mem.takeWhile (fun c => c != 0)
  nonul := by
    intro h
    have h0 : ((0 : Byte) != 0) = true :=
      List.mem_takeWhile_imp (p := fun c : Byte => c != 0) h
    simp at h0

/-- A string literal of the source. -/
def lit (s : String) : CString where
  bytes := (s.toList.map fun c => c.toNat.toUInt8).filter (fun c => c != 0)
  nonul := by simp

/-- The empty string `""`. -/
def empty : CString := ⟨[], List.not_mem_nil⟩

/-- `strlen`. -/
def strlen (s : CString) : ℕ := s.bytes.length

/-- `strcpy(s + strlen(s), t)`. -/
def append (s t : CString) : CString where
  bytes := s.bytes ++ t.bytes
  nonul := fun h => (List.mem_append.mp h).elim s.nonul t.nonul

/-- Bytes without a NUL are read whole. -/
theorem ofBuffer_bytes {mem : List Byte} (h : (0 : Byte) ∉ mem) : (ofBuffer mem).bytes = mem := by
  change mem.takeWhile (fun c => c != 0) = mem
  rw [List.takeWhile_eq_self_iff]
  intro c hc
  have hne : c ≠ 0 := fun h0 => h (h0 ▸ hc)
  simpa using hne

/-- A string ends at its first terminator. -/
theorem ofBuffer_append_nul (mem beyond : List Byte) : ofBuffer (mem ++ 0 :: beyond) = ofBuffer mem := by
  apply CString.ext
  change (mem ++ 0 :: beyond).takeWhile (fun c => c != 0) = mem.takeWhile (fun c => c != 0)
  induction mem with
  | nil => rfl
  | cons c mem ih => rw [List.cons_append, List.takeWhile_cons, List.takeWhile_cons, ih]

theorem ofBuffer_cons_congr (c : Byte) {mem mem' : List Byte} (h : ofBuffer mem = ofBuffer mem') :
    ofBuffer (c :: mem) = ofBuffer (c :: mem') := by
  apply CString.ext
  have hbytes := congrArg CString.bytes h
  simp only [ofBuffer] at hbytes
  simp only [ofBuffer, List.takeWhile_cons, hbytes]

/-- What is behind bytes without a NUL does not shorten the string. -/
theorem prefix_ofBuffer_append {mem : List Byte} (h : (0 : Byte) ∉ mem) (beyond : List Byte) :
    mem <+: (ofBuffer (mem ++ beyond)).bytes := by
  have hmem : mem.takeWhile (fun c => c != 0) = mem := congrArg id (ofBuffer_bytes h)
  simp only [ofBuffer, List.takeWhile_append, hmem, if_true]
  exact List.prefix_append _ _

theorem strlen_eq_zero_iff {s : CString} : strlen s = 0 ↔ s = empty := by
  rw [strlen, List.length_eq_zero_iff, CString.ext_iff, empty]

/-! ## `<ctype.h>` -/

/-- `isdigit`: the bytes `'0'` to `'9'`. -/
def isdigit (c : Byte) : Bool := decide (48 ≤ c) && decide (c ≤ 57)

/-- `tolower`. -/
def tolower (c : Byte) : Byte := if 65 ≤ c ∧ c ≤ 90 then c + 32 else c

/-- `toupper`. -/
def toupper (c : Byte) : Byte := if 97 ≤ c ∧ c ≤ 122 then c - 32 else c

/-- A decidable fact about bytes is settled by looking at all of them. -/
theorem byte_cases {P : Byte → Prop} (h : ∀ n : Fin 256, P (UInt8.ofFin n)) (c : Byte) : P c :=
  h c.toFin

/-- Every byte has the lower case of its upper case. -/
theorem tolower_toupper (c : Byte) : tolower (toupper c) = tolower c := by
  apply byte_cases (P := fun c => tolower (toupper c) = tolower c)
  decide +kernel

theorem tolower_tolower (c : Byte) : tolower (tolower c) = tolower c := by
  apply byte_cases (P := fun c => tolower (tolower c) = tolower c)
  decide +kernel

theorem tolower_eq_zero_iff (c : Byte) : tolower c = 0 ↔ c = 0 := by
  apply byte_cases (P := fun c => tolower c = 0 ↔ c = 0)
  decide +kernel

theorem toupper_eq_zero_iff (c : Byte) : toupper c = 0 ↔ c = 0 := by
  apply byte_cases (P := fun c => toupper c = 0 ↔ c = 0)
  decide +kernel

/-! ## `<string.h>` -/

/-- `strchr(s, c)`: the offset of the first byte `c`, `none` for `NULL`. -/
def strchr (s : CString) (c : Byte) : Option ℕ := s.bytes.findIdx? (fun b => b == c)

/-- `strstr(haystack, needle)`: the offset of the first occurrence, `none` for
`NULL`. -/
def strstr (haystack needle : CString) : Option ℕ :=
  haystack.bytes.tails.findIdx? (fun t => needle.bytes.isPrefixOf t)

/-- `strcasestr(haystack, needle)`: `strstr` up to case. -/
def strcasestr (haystack needle : CString) : Option ℕ :=
  (haystack.bytes.map tolower).tails.findIdx?
    (fun t => (needle.bytes.map tolower).isPrefixOf t)

/-- The tokens that a loop over `strtok_r(line, " ", &save)` sees: the maximal
pieces of the line without the separator, empty ones skipped. -/
def strtok_r (line : CString) (sep : Byte) : List CString :=
  ((line.bytes.splitOn sep).attach.map fun p =>
      (⟨p.1, fun h0 => line.nonul (subset_of_mem_splitOn sep p.2 h0)⟩ : CString)).filter
    (fun t => decide (strlen t ≠ 0))

/-- The empty needle is found at the start of every haystack. -/
@[simp] theorem strstr_empty (haystack : CString) : strstr haystack empty = some 0 := by
  unfold strstr
  cases haystack.bytes <;> simp [empty, List.findIdx?_cons]

@[simp] theorem strcasestr_empty (haystack : CString) : strcasestr haystack empty = some 0 := by
  unfold strcasestr
  cases haystack.bytes <;> simp [empty, List.findIdx?_cons]

/-- Two strings that differ in the case of their letters only. -/
def SameLetters (s t : CString) : Prop := t.bytes.map tolower = s.bytes.map tolower

theorem SameLetters.strlen {s t : CString} (h : SameLetters s t) : strlen t = strlen s := by
  have hlen := congrArg List.length h
  rwa [List.length_map, List.length_map] at hlen

theorem SameLetters.strcasestr {s t : CString} (h : SameLetters s t) (haystack : CString) :
    strcasestr haystack t = strcasestr haystack s := by
  rw [Strings.strcasestr, Strings.strcasestr, h]

/-- The tokens, letters in lower case: those of the line in lower case. -/
theorem map_tolower_strtok_r (line : CString) :
    (strtok_r line SPACE).map (fun t => t.bytes.map tolower)
      = ((line.bytes.map tolower).splitOn SPACE).filter (fun t => decide (t.length ≠ 0)) := by
  -- the separator is no letter
  have hspace : ∀ c, tolower c = tolower SPACE ↔ c = SPACE := by
    apply byte_cases (P := fun c => tolower c = tolower SPACE ↔ c = SPACE)
    decide +kernel
  have hsplit : (line.bytes.map tolower).splitOn SPACE
      = (line.bytes.splitOn SPACE).map (List.map tolower) :=
    splitOn_map SPACE tolower hspace line.bytes
  rw [hsplit, List.filter_map, strtok_r, List.filter_map, List.map_map]
  conv_rhs => rw [← List.attach_map_subtype_val (line.bytes.splitOn SPACE), List.filter_map]
  rw [List.map_map]
  congr 1
  refine List.filter_congr fun l _ => ?_
  simp [strlen]

/-- The loop over `strchr(pb, '\n')` that the loaders of text files share: each
newline is overwritten with NUL, which makes the line before it a string. What
follows the last newline is not seen. -/
def fileLines (content : CString) : List CString :=
  (completeLines NEWLINE content.bytes).attach.map fun l =>
    ⟨l.1, fun h0 => content.nonul
      (subset_of_mem_splitOn NEWLINE (List.mem_of_mem_dropLast l.2) h0)⟩

theorem map_bytes_fileLines (content : CString) :
    (fileLines content).map CString.bytes = completeLines NEWLINE content.bytes := by
  rw [fileLines, List.map_map]
  exact List.attach_map_subtype_val _

/-- A line holds no newline. -/
theorem newline_notMem_of_mem_fileLines {content l : CString} (h : l ∈ fileLines content) :
    NEWLINE ∉ l.bytes := by
  have hl : l.bytes ∈ completeLines NEWLINE content.bytes :=
    map_bytes_fileLines content ▸ List.mem_map_of_mem h
  exact not_mem_of_mem_completeLines NEWLINE hl

/-- Writing strings to a file, each with a newline. -/
def printLines (ls : List CString) : List Byte := unlines NEWLINE (ls.map CString.bytes)

theorem bytes_injective : Function.Injective CString.bytes := fun _ _ => CString.ext

/-- A printed file holds no NUL, so it is read whole. -/
theorem bytes_ofBuffer_printLines (ls : List CString) :
    (ofBuffer (printLines ls)).bytes = printLines ls := by
  refine ofBuffer_bytes fun h0 => ?_
  obtain ⟨l, hl, hmem⟩ := List.mem_flatMap.mp h0
  obtain ⟨s, -, rfl⟩ := List.mem_map.mp hl
  rw [List.mem_append, List.mem_singleton] at hmem
  rcases hmem with hmem | hmem
  · exact s.nonul hmem
  · exact absurd hmem (by decide)

/-- **The round trip of a text file**: lines without newlines are read back as
they were written. -/
theorem fileLines_printLines {ls : List CString} (h : ∀ l ∈ ls, NEWLINE ∉ l.bytes) :
    fileLines (ofBuffer (printLines ls)) = ls := by
  apply List.map_injective_iff.mpr bytes_injective
  rw [map_bytes_fileLines, bytes_ofBuffer_printLines]
  refine completeLines_unlines NEWLINE ?_
  intro l hl
  obtain ⟨s, hs, rfl⟩ := List.mem_map.mp hl
  exact h s hs

end Hstr.Strings
