/-
The selection with and without the cache of compiled regexps.

A regexp is compiled once, with the flags of the case mode at that time, and the
compiled object is kept for the rest of the session. What the user sees depends on
this only through Ctrl-t, which changes the flags and not the cache. In every other
session the list is a function of the query alone: the regexps typed before, the
views and matchings tried before and the deletions between them leave no trace in
it but through the lines of the view.
-/
import Hstr.Query

set_option autoImplicit false

namespace Hstr.Uncached

open Lib.Runs Lib.Buckets Hstr.Strings Hstr.Hashset Hstr.Utils Hstr.History Hstr.Favorites
open Hstr.Regexp Hstr.Selection Hstr.Box Hstr.Loop Hstr.Query

variable {R : Type}

/-! ## The cache -/

/-- The cache holds what the current case mode would compile. -/
def Current (lib : RegexLib R) (re : HstrRegexp R) : Prop :=
  ∀ regexp compiled, hashset_get re.cache regexp = some compiled →
    lib.regcomp regexp (compilationFlags re.caseSensitive) = .ok compiled

/-- No regexp was compiled so far. -/
def NothingCompiled (re : HstrRegexp R) : Prop := re.cache.currentSize = 0

theorem hashset_get_of_nothingCompiled {re : HstrRegexp R} (h : NothingCompiled re)
    (regexp : CString) : hashset_get re.cache regexp = none := by
  rw [hashset_get_eq_none_iff]
  intro p hp
  have hlisted : p ∈ listing (List.finRange HASH_MAP_SIZE) re.cache.lists :=
    List.mem_flatMap.mpr ⟨hashmap_hash regexp, List.mem_finRange _, hp⟩
  have hcount := re.cache.counted
  rw [h, eq_comm, List.length_eq_zero_iff] at hcount
  rw [hcount] at hlisted
  cases hlisted

/-- An empty cache suits every case mode. -/
theorem current_of_nothingCompiled {lib : RegexLib R} {re : HstrRegexp R}
    (h : NothingCompiled re) (caseSensitive : Bool) : Current lib { re with caseSensitive } := by
  intro regexp compiled hget
  have hnone := hashset_get_of_nothingCompiled h regexp
  rw [hnone] at hget
  cases hget

/-- A call compiles for the current case mode. -/
theorem Current.hstr_regexp_match {lib : RegexLib R} {re : HstrRegexp R} (h : Current lib re)
    (regexp text : CString) (n : ℕ) : Current lib (hstr_regexp_match lib re regexp text n).2 := by
  intro r compiled hget
  have hcase := regexpStep_caseSensitive lib re regexp text n
  rw [show (Regexp.hstr_regexp_match lib re regexp text n).2.caseSensitive = re.caseSensitive from hcase]
  rcases (hashset_get_regexpStep lib re regexp text n r compiled).mp hget with hold | ⟨rfl, -, hnew⟩
  · exact h r compiled hold
  · exact hnew

theorem current_make_selection {lib : RegexLib R} {hstr : Hstr R} (h : Current lib hstr.regexp)
    (pattern : Option CString) (history : HistoryItems) (n : ℕ) :
    Current lib (hstr_make_selection lib hstr pattern history n).regexp := by
  apply selecting_induction lib (hstr_realloc_selection hstr n) pattern history n
    (I := fun acc => Current lib acc.regexp) h
  · intro acc line hacc
    rcases regexp_selectFirst lib (hstr_realloc_selection hstr n) pattern n acc line with hre | hre
    · rw [hre]
      exact hacc
    · rw [hre]
      exact hacc.hstr_regexp_match _ _ _
  · intro acc line p hacc
    rw [regexp_selectSecond]
    exact hacc

/-- The box with an empty cache. -/
def uncached (hstr : Hstr R) : Hstr R :=
  { hstr with regexp := { hstr.regexp with cache := hashset_init } }

/-- A current cache selects what an empty one selects. -/
theorem selectionOf_uncached {lib : RegexLib R} {hstr : Hstr R} (h : Current lib hstr.regexp)
    (pattern : CString) (history : HistoryItems) (n : ℕ) :
    selectionOf lib hstr pattern history n = selectionOf lib (uncached hstr) pattern history n := by
  have hquery : SameQuery (uncached hstr) hstr := ⟨rfl, rfl, rfl, rfl, rfl⟩
  apply selectionOf_congr lib hquery
  have hfresh : compiledFor lib (uncached hstr).regexp pattern
      = lib.regcomp pattern (compilationFlags hstr.regexp.caseSensitive) := rfl
  rw [hfresh, compiledFor]
  cases hget : hashset_get hstr.regexp.cache pattern with
  | none => rfl
  | some compiled => exact (h pattern compiled hget).symm

/-! ## A round -/

theorem current_print_selection (env : Env R) {s : LoopState R} (h : Current env.lib s.hstr.regexp)
    (pattern : Option CString) :
    Current env.lib (hstr_print_selection env s pattern).1.hstr.regexp := by
  rw [hstr_print_selection_hstr, recalculate_regexp]
  exact current_make_selection h _ _ _

theorem current_reprint (env : Env R) {s : LoopState R} (h : Current env.lib s.hstr.regexp) :
    Current env.lib (reprint env s).hstr.regexp := current_print_selection env h (some s.pattern)

theorem current_deleteItem (env : Env R) {s : LoopState R} (h : Current env.lib s.hstr.regexp)
    (e : Event) : Current env.lib (deleteItem env s e).hstr.regexp := by
  unfold deleteItem
  cases getResultFromSelection s.hstr s.selectionCursorPosition with
  | none => exact h
  | some msg =>
      have hasked : Current env.lib (confirmDelete s e msg).hstr.regexp := by
        rw [confirmDelete_eq]
        exact h
      simp only [keepOnSelectionRow, highlight_selection, deleteConfirmed]
      split
      · apply current_reprint
        -- the deletion from a model does not touch the regexps
        unfold remove_from_history_model
        split <;> exact hasked
      · exact hasked

theorem current_addFavorite (env : Env R) {s : LoopState R} (h : Current env.lib s.hstr.regexp) :
    Current env.lib (addFavorite env s).hstr.regexp := by
  unfold addFavorite
  split
  · exact h
  · exact current_reprint env h

theorem current_choose_result {lib : RegexLib R} {s : LoopState R} (h : Current lib s.hstr.regexp)
    (cursor : ℤ) (fallback : Option CString) :
    Current lib (choose_result s cursor fallback).1.hstr.regexp := by
  unfold choose_result
  split
  · exact h
  · split <;> exact h

theorem current_typeCharacter (env : Env R) {s : LoopState R} (h : Current env.lib s.hstr.regexp)
    (c : ℤ) : Current env.lib (typeCharacter env s c).hstr.regexp := by
  unfold typeCharacter
  split
  · exact current_reprint env h
  · exact h

/-- The case mode changes only while no regexp is compiled. -/
def KeepsCase (s : LoopState R) (e : Event) : Prop :=
  e.c = K_CTRL_T → NothingCompiled s.hstr.regexp

instance (s : LoopState R) (e : Event) : Decidable (KeepsCase s e) := by
  unfold KeepsCase NothingCompiled
  infer_instance

theorem eq_of_keyCase_CTRL_T {s : LoopState R} {e : Event}
    (h : keyCase (keyOf s e) = .K_CTRL_T) : e.c = K_CTRL_T := by
  rw [keyOf_eq_of_keyCase_ne (by simp [h])] at h
  simp only [keyCase, ite_eq_iff, reduceCtorEq, and_false, and_true, false_or, or_false] at h
  tauto

/-- **A round that meets the guard leaves the cache current.** -/
theorem current_step (env : Env R) {s : LoopState R} {e : Event}
    (h : Current env.lib s.hstr.regexp) (hkeep : KeepsCase s e) :
    Current env.lib (step env s e).hstr.regexp := by
  by_cases hdone : s.done = true
  · rw [step_of_done hdone]
    exact h
  · rw [step_of_not_done (by simpa using hdone)]
    have hready : Current env.lib (ready s e).hstr.regexp := by
      rw [ready_hstr, recalculate_regexp]
      exact h
    unfold handle
    cases hkey : keyCase (keyOf s e) with
    | KEY_END => exact hready
    | KEY_DC => exact current_deleteItem env hready e
    | K_CTRL_E => exact current_reprint env hready
    | K_CTRL_T =>
        -- there is nothing in the cache that the new mode could not use
        apply current_reprint
        apply current_of_nothingCompiled
        rw [ready_hstr, recalculate_regexp]
        exact hkeep (eq_of_keyCase_CTRL_T hkey)
    | K_CTRL_SLASH => exact current_reprint env hready
    | K_CTRL_F => exact current_addFavorite env hready
    | KEY_RESIZE =>
        apply current_reprint
        rw [recalculate_regexp]
        exact hready
    | K_CTRL_U => exact hready
    | K_CTRL_L => exact hready
    | KEY_BACKSPACE =>
        apply current_reprint
        exact current_make_selection hready _ _ _
    | KEY_NPAGE => exact hready
    | KEY_ENTER => exact current_choose_result hready _ _
    | KEY_LEFT => exact current_choose_result hready _ _
    | KEY_RIGHT => exact current_choose_result hready _ _
    | K_ESC => exact hready
    | K_CTRL_X => exact hready
    | default => exact current_typeCharacter env hready _

theorem current_start (env : Env R) {hstr : Hstr R} (h : Current env.lib hstr.regexp)
    (history : HistoryItems) (historyState : HistoryState) (favoritesFile : Option (List Byte))
    (maxy : ℤ) :
    Current env.lib (start env hstr history historyState favoritesFile maxy).hstr.regexp := by
  have hfirst : Current env.lib
      (firstScreen env (declared hstr history historyState favoritesFile maxy env.width)).hstr.regexp := by
    rw [firstScreen_hstr, recalculate_regexp, recalculate_regexp]
    apply current_make_selection
    rw [recalculate_hstr, recalculate_regexp]
    exact h
  unfold start
  simp only
  split
  · exact current_reprint env hfirst
  · exact hfirst

/-! ## Sessions -/

/-- While the loop runs, the list is what the query selects without a cache. -/
def SelectsFresh (env : Env R) (s : LoopState R) : Prop :=
  s.done = false → s.hstr.selection
    = selectionOf env.lib (uncached s.hstr) s.pattern s.history s.hstr.selectionCapacity

/-- **The cache of regexps cannot be seen in the list**, in any state of a loop that
starts with an empty one, as long as Ctrl-t is pressed before the first regexp is
compiled or not at all, and Ctrl-u, Ctrl-w and Ctrl-l keep the query. -/
theorem selection_without_cache (env : Env R) (hstr : Hstr R) (history : HistoryItems)
    (historyState : HistoryState) (favoritesFile : Option (List Byte)) (maxy : ℤ)
    (hcache : NothingCompiled hstr.regexp) (events : List Event)
    (hkeys : Guarded (step env) (fun s e => KeepsQuery s e ∧ KeepsCase s e)
      (start env hstr history historyState favoritesFile maxy) events) :
    Always (step env) (SelectsFresh env) (start env hstr history historyState favoritesFile maxy)
      events := by
  have hcurrent : Current env.lib hstr.regexp :=
    current_of_nothingCompiled hcache hstr.regexp.caseSensitive
  have hboth : Always (step env) (fun s => Answering env s ∧ Current env.lib s.hstr.regexp)
      (start env hstr history historyState favoritesFile maxy) events :=
    always_of_guarded
      (fun s e h hkeep => ⟨answering_step env e h.1 hkeep.1, current_step env h.2 hkeep.2⟩)
      ⟨answering_start env hstr history historyState favoritesFile maxy,
        current_start env hcurrent history historyState favoritesFile maxy⟩ hkeys
  refine hboth.mono fun s h hrun => ?_
  rw [← selectionOf_uncached h.2]
  exact h.1 hrun

/-- Ctrl-t, then regexps are typed, deleted and typed again in two views. -/
theorem selection_without_cache_typed :
    Always (step plainEnv) (SelectsFresh plainEnv)
      (start plainEnv (hstr_init zeroed) ⟨[lit "ls", lit "pwd"], [], []⟩
        ⟨[], 0, List.nodup_nil⟩ none 24)
      [press K_CTRL_E 0 24, press K_CTRL_E 0 24, press K_CTRL_T 0 24, press 112 0 24,
        press K_BACKSPACE 0 24, press K_CTRL_SLASH 0 24, press 112 0 24] :=
  selection_without_cache plainEnv (hstr_init zeroed) _ _ _ _ rfl _
    ⟨by decide, by decide, by decide, by decide, by decide, by decide, by decide, trivial⟩

end Hstr.Uncached
