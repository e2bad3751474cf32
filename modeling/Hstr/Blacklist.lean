/-
`src/hstr_blacklist.c`: the commands that the ranking view leaves out.

The blacklist is a hash set that `blacklist_load` fills from a file or with
defaults. No operation of the program edits it, but `blacklist_destroy` writes
the file again from the set, whatever the set holds at that time.
-/
import Hstr.Hashset

set_option autoImplicit false
set_option linter.dupNamespace false

namespace Hstr.Blacklist

open Lib.Lines Hstr.Strings Hstr.Hashset

structure Blacklist where
  useFile : Bool
  isLoaded : Bool
  isDefault : Bool
  set : HashSet CString

def defaultCommandBlacklist : List CString :=
  [lit "ls", lit "pwd", lit "cd", lit "cd ..", lit "hstr", lit "hh", lit "mc",
    lit "ls ", lit "pwd ", lit "cd ", lit "cd .. ", lit "hstr ", lit "hh ", lit "mc "]

def blacklist_init : Blacklist where
  useFile := false
  isLoaded := false
  isDefault := false
  set := hashset_init

def blacklist_load_default (blacklist : Blacklist) : Blacklist :=
  { blacklist with
    isLoaded := true
    isDefault := true
    set := defaultCommandBlacklist.foldl (fun set cmd => (hashset_add set cmd).1) blacklist.set }

/-- The body of the loop of `blacklist_load`. -/
def blacklist_load_line (set : HashSet CString) (pb : CString) : HashSet CString :=
  if !hashset_contains set pb then (hashset_add set pb).1 else set

def blacklist_load (blacklist : Blacklist) (file : Option (List Byte)) : Blacklist :=
  if blacklist.isLoaded then blacklist
  else if blacklist.useFile then
    match file with
    | some content =>
        let fileContent := ofBuffer content
        if strlen fileContent ≠ 0 then
          { blacklist with set := (fileLines fileContent).foldl blacklist_load_line blacklist.set }
        else blacklist
    | none => blacklist_load_default blacklist
  else blacklist_load_default blacklist

def blacklist_in (blacklist : Blacklist) (cmd : CString) : Bool := hashset_contains blacklist.set cmd

/-- The file after `blacklist_destroy`. -/
def blacklist_destroy (blacklist : Blacklist) (file : Option (List Byte)) : Option (List Byte) :=
  if blacklist.useFile then
    let size := hashset_size blacklist.set
    if size ≠ 0 then some (printLines ((hashset_keys blacklist.set).take size))
    else if file.isSome then some [] else none
  else file

/-! ## Loading and saving -/

theorem hashset_contains_foldl_load (ls : List CString) (set : HashSet CString) (k : CString) :
    hashset_contains (ls.foldl blacklist_load_line set) k
      = (decide (k ∈ ls) || hashset_contains set k) := by
  induction ls generalizing set with
  | nil => simp
  | cons l ls ih =>
      rw [List.foldl_cons, ih]
      have hline : hashset_contains (blacklist_load_line set l) k
          = (decide (k = l) || hashset_contains set k) := by
        unfold blacklist_load_line
        cases hl : hashset_contains set l with
        | false => simp
        | true =>
            -- the line is there already
            by_cases hk : k = l
            · simp [hk, hl]
            · simp [hk]
      rw [hline]
      by_cases hk : k = l <;> simp [hk]

/-- A fresh blacklist loads the lines of its file. -/
theorem hashset_contains_load {blacklist : Blacklist} (huse : blacklist.useFile = true)
    (hloaded : blacklist.isLoaded = false) (hset : ∀ k, hashset_contains blacklist.set k = false)
    (content : List Byte) (k : CString) :
    hashset_contains (blacklist_load blacklist (some content)).set k
      = decide (k ∈ fileLines (ofBuffer content)) := by
  simp only [blacklist_load, hloaded, huse, Bool.false_eq_true, if_false, if_true]
  by_cases hlen : strlen (ofBuffer content) = 0
  · -- an empty file has no lines
    rw [if_neg (not_not_intro hlen), hset, strlen_eq_zero_iff.mp hlen]
    rfl
  · rw [if_pos hlen, hashset_contains_foldl_load, hset, Bool.or_false]

/-- The lines of the file that `blacklist_destroy` leaves are the members, where
these hold no newline. -/
theorem mem_lines_blacklist_destroy {blacklist : Blacklist} (huse : blacklist.useFile = true)
    (hnl : ∀ k, hashset_contains blacklist.set k = true → NEWLINE ∉ k.bytes) (content l : List Byte) :
    ∃ content', blacklist_destroy blacklist (some content) = some content'
      ∧ (l ∈ lines NEWLINE content' ↔
        ∃ k, hashset_contains blacklist.set k = true ∧ k.bytes = l) := by
  unfold blacklist_destroy
  rw [if_pos huse]
  by_cases hsize : hashset_size blacklist.set = 0
  -- an empty set leaves an empty file
  · refine ⟨[], by simp [hsize], ?_⟩
    have hnone := hashset_size_eq_zero_iff.mp hsize
    constructor
    · intro hl
      simp [lines, completeLines, openLine] at hl
    · rintro ⟨k, hk, -⟩
      rw [hnone k] at hk
      cases hk
  · refine ⟨printLines (hashset_keys blacklist.set), ?_, ?_⟩
    -- the array of the keys has as many entries as the set has members
    · simp only [hsize, ne_eq, not_false_eq_true, if_true]
      rw [← hashset_keys_length, List.take_length]
    · rw [printLines, lines_unlines]
      · simp only [List.mem_map, mem_hashset_keys]
      · intro m hm
        obtain ⟨k, hk, rfl⟩ := List.mem_map.mp hm
        exact hnl k (mem_hashset_keys.mp hk)

/-- **The round trip of the blacklist file**: for a file that ends in a newline,
loading it and saving it again keeps the set of its lines exactly where it
holds no NUL. -/
theorem lines_blacklist_destroy_load {blacklist : Blacklist} (huse : blacklist.useFile = true)
    (hloaded : blacklist.isLoaded = false) (hset : ∀ k, hashset_contains blacklist.set k = false)
    {content : List Byte} (hopen : openLine NEWLINE content = []) :
    ∃ content', blacklist_destroy (blacklist_load blacklist (some content)) (some content)
        = some content'
      ∧ ((∀ l, l ∈ lines NEWLINE content' ↔ l ∈ lines NEWLINE content) ↔ (0 : Byte) ∉ content) := by
  have huse' : (blacklist_load blacklist (some content)).useFile = true := by
    simp only [blacklist_load, hloaded, huse, Bool.false_eq_true, if_false, if_true]
    split
    · rfl
    · exact huse
  have hmem := fun k => hashset_contains_load huse hloaded hset content k
  have hnl : ∀ k, hashset_contains (blacklist_load blacklist (some content)).set k = true →
      NEWLINE ∉ k.bytes := by
    intro k hk
    rw [hmem, decide_eq_true_eq] at hk
    exact newline_notMem_of_mem_fileLines hk
  obtain ⟨content', hsave, -⟩ := mem_lines_blacklist_destroy huse' hnl content []
  refine ⟨content', hsave, ?_⟩
  -- the lines of the new file are the lines read from the old one
  have hlines : ∀ l, l ∈ lines NEWLINE content' ↔ l ∈ completeLines NEWLINE (ofBuffer content).bytes := by
    intro l
    obtain ⟨content'', hsave', hl⟩ := mem_lines_blacklist_destroy huse' hnl content l
    rw [hsave] at hsave'
    rw [Option.some.inj hsave', hl, ← map_bytes_fileLines, List.mem_map]
    simp only [hmem, decide_eq_true_eq]
  have hold : lines NEWLINE content = completeLines NEWLINE content := by
    rw [lines, if_pos hopen, List.append_nil]
  constructor
  · intro h h0
    -- a NUL is on a line of the old file, and on no line of the new one
    obtain ⟨l, hl, hl0⟩ := mem_lines_of_mem NEWLINE h0 (by decide)
    have hnew := (hlines l).mp ((h l).mpr hl)
    have hsub := subset_of_mem_splitOn NEWLINE (List.dropLast_subset _ hnew) hl0
    exact (ofBuffer content).nonul hsub
  · intro h0 l
    rw [hlines, ofBuffer_bytes h0, hold]

end Hstr.Blacklist
