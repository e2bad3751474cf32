/-
`src/hstr_blacklist.c`: the blacklist from one session to the next.

A session that uses the file loads the blacklist from it, or takes the defaults
where there is no file, and writes it again when it ends. The keys come out in the
order of the table, and those of one chain in the reverse of the order they were
read in, so the file may change with every session. What a session knows of the
blacklist is which commands are on it, and that is what the file keeps.
-/
import Hstr.Blacklist
import Hstr.History

set_option autoImplicit false

namespace Hstr.BlacklistRounds

open Lib.Lines Hstr.Strings Hstr.Hashset Hstr.Radixsort Hstr.Blacklist Hstr.History

/-- The blacklist before it is loaded, with `useFile` from the configuration. -/
def fresh : Blacklist := { blacklist_init with useFile := true }

/-- The file after a session: `blacklist_load` when it starts, `blacklist_destroy`
when it ends. -/
def session (file : Option (List Byte)) : Option (List Byte) :=
  blacklist_destroy (blacklist_load fresh file) file

/-! ## What is loaded -/

/-- The commands that a session finds on the blacklist. -/
def listed : Option (List Byte) → List CString
  | some content => fileLines (ofBuffer content)
  | none => defaultCommandBlacklist

theorem hashset_contains_foldl_add (cmds : List CString) (set : HashSet CString) (k : CString) :
    hashset_contains (cmds.foldl (fun set cmd => (hashset_add set cmd).1) set) k
      = (decide (k ∈ cmds) || hashset_contains set k) := by
  induction cmds generalizing set with
  | nil => simp
  | cons cmd cmds ih =>
      rw [List.foldl_cons, ih, hashset_contains_add]
      by_cases hk : k = cmd <;> simp [hk]

theorem hashset_contains_fresh (file : Option (List Byte)) (k : CString) :
    hashset_contains (blacklist_load fresh file).set k = decide (k ∈ listed file) := by
  cases file with
  | some content => exact hashset_contains_load rfl rfl (fun _ => rfl) content k
  | none =>
      have hload : (blacklist_load fresh none).set
          = defaultCommandBlacklist.foldl (fun set cmd => (hashset_add set cmd).1) hashset_init := rfl
      rw [hload, hashset_contains_foldl_add, hashset_contains_init, Bool.or_false]
      rfl

theorem useFile_load (file : Option (List Byte)) : (blacklist_load fresh file).useFile = true := by
  cases file with
  | none => rfl
  | some content =>
      unfold blacklist_load
      simp only [fresh, blacklist_init, Bool.false_eq_true, if_false, if_true]
      split <;> rfl

/-- Commands are lines: none of them holds a newline. -/
theorem newline_notMem_listed (file : Option (List Byte)) {cmd : CString} (h : cmd ∈ listed file) :
    NEWLINE ∉ cmd.bytes := by
  cases file with
  | some content => exact newline_notMem_of_mem_fileLines h
  | none =>
      have hdefault : ∀ cmd ∈ defaultCommandBlacklist, NEWLINE ∉ cmd.bytes := by decide
      exact hdefault cmd h

/-! ## What is saved -/

/-- The file after a session is the keys, each on a line. -/
theorem session_eq (file : Option (List Byte)) :
    session file = some (printLines (hashset_keys (blacklist_load fresh file).set)) := by
  unfold session blacklist_destroy
  rw [if_pos (useFile_load file)]
  by_cases hsize : hashset_size (blacklist_load fresh file).set = 0
  · have hkeys : hashset_keys (blacklist_load fresh file).set = [] := by
      rw [← List.length_eq_zero_iff, hashset_keys_length, hsize]
    cases file with
    -- the defaults are not empty, so there is a file to be emptied
    | none =>
        have hdefault := hashset_contains_fresh none (lit "ls")
        rw [hashset_size_eq_zero_iff.mp hsize] at hdefault
        exact absurd hdefault (by decide)
    | some content => simp only [hsize, hkeys, ne_eq, not_true_eq_false, if_false, Option.isSome_some,
        if_true, printLines, List.map_nil, unlines_nil]
  · simp only [hsize, ne_eq, not_false_eq_true, if_true]
    rw [← hashset_keys_length, List.take_length]

/-- A session leaves the commands that it found. -/
theorem mem_listed_session (file : Option (List Byte)) (cmd : CString) :
    cmd ∈ listed (session file) ↔ cmd ∈ listed file := by
  have hkey : ∀ k, k ∈ hashset_keys (blacklist_load fresh file).set ↔ k ∈ listed file := by
    intro k
    rw [mem_hashset_keys, hashset_contains_fresh, decide_eq_true_eq]
  have hlines : listed (session file) = hashset_keys (blacklist_load fresh file).set := by
    rw [session_eq]
    apply fileLines_printLines
    intro k hk
    exact newline_notMem_listed file ((hkey k).mp hk)
  rw [hlines, hkey]

/-- So do any number of sessions, one after another. -/
theorem mem_listed_sessions (n : ℕ) (file : Option (List Byte)) (cmd : CString) :
    cmd ∈ listed (session^[n] file) ↔ cmd ∈ listed file := by
  induction n with
  | zero => rfl
  | succ n ih => rw [Function.iterate_succ_apply', mem_listed_session, ih]

/-! ## Blacklists with the same members -/

/-- Two sets that no lookup tells apart. -/
def SameMembers (set set' : HashSet CString) : Prop :=
  ∀ k, hashset_contains set' k = hashset_contains set k

theorem SameMembers.keys_perm {set set' : HashSet CString} (h : SameMembers set set') :
    (hashset_keys set').Perm (hashset_keys set) := by
  apply (List.perm_ext_iff_of_nodup (hashset_keys_nodup set') (hashset_keys_nodup set)).mpr
  intro k
  rw [mem_hashset_keys, mem_hashset_keys, h k]

theorem SameMembers.size_eq {set set' : HashSet CString} (h : SameMembers set set') :
    hashset_size set' = hashset_size set := by
  rw [← hashset_keys_length, ← hashset_keys_length]
  exact h.keys_perm.length_eq

theorem SameMembers.indexEntry_eq {set set' : HashSet CString} (h : SameMembers set set') (sh : Shell)
    (f : RankingFunction) (st : CreateState) (i : ℕ) (entry : HistEntry) :
    indexEntry sh f set' st i entry = indexEntry sh f set st i entry := by
  unfold indexEntry
  simp only [h _]

theorem SameMembers.indexEntries_eq {set set' : HashSet CString} (h : SameMembers set set')
    (sh : Shell) (f : RankingFunction) (i : ℕ) (entries : List HistEntry) (st : CreateState) :
    indexEntries sh f set' i entries st = indexEntries sh f set i entries st := by
  induction entries generalizing i st with
  | nil => rfl
  | cons entry entries ih =>
      rw [indexEntries, indexEntries, h.indexEntry_eq]
      apply bind_congr
      intro st'
      exact ih (i + 1) st'

/-- The ranking view depends on the members alone. -/
theorem SameMembers.create_eq {set set' : HashSet CString} (h : SameMembers set set') (sh : Shell)
    (f : RankingFunction) (optionBigKeys : BigKeys) (historyState : Option HistoryState) :
    prioritized_history_create sh f optionBigKeys set' historyState
      = prioritized_history_create sh f optionBigKeys set historyState := by
  cases historyState with
  | none => rfl
  | some historyState => simp only [prioritized_history_create, h.indexEntries_eq]

/-- **The blacklist survives its file.** After any number of sessions the set that
is loaded has the members and the size it had at first, and leaves the same
commands out of the ranking view; and the file is its keys, each on one line. -/
theorem blacklist_rounds (file : Option (List Byte)) (n : ℕ) :
    let loaded := (blacklist_load fresh file).set
    let reloaded := (blacklist_load fresh (session^[n] file)).set
    (∀ k, hashset_contains reloaded k = hashset_contains loaded k)
      ∧ hashset_size reloaded = hashset_size loaded
      ∧ (∀ (sh : Shell) (f : RankingFunction) (optionBigKeys : BigKeys)
          (historyState : Option HistoryState),
          prioritized_history_create sh f optionBigKeys reloaded historyState
            = prioritized_history_create sh f optionBigKeys loaded historyState)
      ∧ ∃ content, session^[n + 1] file = some content
        ∧ (lines NEWLINE content).Perm ((hashset_keys loaded).map CString.bytes) := by
  intro loaded reloaded
  have hsame : SameMembers loaded reloaded := by
    intro k
    rw [hashset_contains_fresh, hashset_contains_fresh]
    apply decide_eq_decide.mpr
    exact mem_listed_sessions n file k
  refine ⟨hsame, hsame.size_eq, hsame.create_eq, printLines (hashset_keys reloaded), ?_, ?_⟩
  · rw [Function.iterate_succ_apply', session_eq]
  · rw [printLines, lines_unlines]
    · exact hsame.keys_perm.map CString.bytes
    · intro l hl
      obtain ⟨k, hk, rfl⟩ := List.mem_map.mp hl
      rw [mem_hashset_keys, hashset_contains_fresh, decide_eq_true_eq] at hk
      exact newline_notMem_listed _ hk

end Hstr.BlacklistRounds
