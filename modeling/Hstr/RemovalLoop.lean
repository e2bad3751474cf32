/-
`src/hstr_history.c`: the loop of `history_mgmt_remove_from_system_history`.

The loop walks over the history list from its end, removes what reads as the
command and a timestamp in front of it, and closes each gap at once. It prunes the
list in the sense of `Lib.Prune`, and all that is said of deletions later comes
from this one fact.
-/
import Hstr.History
import Hstr.Lib.Prune

set_option autoImplicit false

namespace Hstr.Removal

open Lib.Prune Hstr.Strings Hstr.History

/-! ## Matches and timestamps -/

/-- The test `is_hist_timestamp(entry->line)`, with the one for `NULL`. -/
def isTimestamp (entry : HistEntry) : Bool := (entry.line.map is_hist_timestamp).getD false

/-- The test `history_line_equals(entry->line, cmd, isZsh)`, with the one for
`NULL`. -/
def equalsCommand (sh : Shell) (cmd : CString) (entry : HistEntry) : Bool :=
  (entry.line.map fun line =>
    history_line_equals sh.isZsh (sh.beyond entry.id) line cmd).getD false

theorem equalsCommand_eq_true_iff {sh : Shell} {cmd : CString} {entry : HistEntry} :
    equalsCommand sh cmd entry = true ↔ entry.line.isSome ∧ decodeEntry sh entry = cmd := by
  unfold equalsCommand decodeEntry
  cases entry.line with
  | none => simp
  | some line => simp [history_line_equals_eq]

/-- A command has a line that is no timestamp. -/
theorem isTimestamp_of_isCommand {entry : HistEntry} (h : isCommand entry = true) :
    isTimestamp entry = false := by
  unfold isCommand at h
  unfold isTimestamp
  cases hline : entry.line with
  | none => rfl
  | some line =>
      rw [hline, Bool.and_eq_true, Bool.not_eq_true'] at h
      rw [Option.map_some, Option.getD_some]
      exact h.2

theorem equalsCommand_of_isCommand {sh : Shell} {cmd : CString} {entry : HistEntry}
    (h : isCommand entry = true) :
    equalsCommand sh cmd entry = decide (decodeEntry sh entry = cmd) := by
  unfold isCommand at h
  unfold equalsCommand decodeEntry
  cases hline : entry.line with
  | none =>
      rw [hline] at h
      exact absurd h Bool.noConfusion
  | some line => simp [history_line_equals_eq]

/-! ## The backward loop -/

/-- Closing the gap at the end of a part of the list. -/
theorem eraseIdx_append_cons (pre : List HistEntry) (entry : HistEntry) (post : List HistEntry) :
    (pre ++ entry :: post).eraseIdx pre.length = pre ++ post := by
  rw [List.eraseIdx_append_of_length_le (Nat.le_refl _), Nat.sub_self, List.eraseIdx_cons_zero]

/-- **The loop prunes the list**: matches are the hits, timestamps the stamps.
It has looked at `post`. -/
theorem removeLoop_eq_prune (sh : Shell) (cmd : CString) (pre post : List HistEntry) :
    removeLoop sh cmd pre.length (pre ++ post)
      = let result := prune (equalsCommand sh cmd) isTimestamp false pre.reverse
        (result.1.reverse ++ post, result.2) := by
  -- one round takes up to two entries off the end of `pre`
  induction hn : pre.length using Nat.strong_induction_on generalizing pre post with
  | _ n ih =>
      rcases List.eq_nil_or_concat' pre with rfl | ⟨pre, entry, rfl⟩
      · subst hn
        rfl
      · rw [List.length_append, List.length_singleton] at hn
        subst hn
        obtain ⟨id, line⟩ := entry
        have hget : (pre ++ ⟨id, line⟩ :: post)[pre.length]? = some ⟨id, line⟩ := by simp
        have hgoOn := ih pre.length (Nat.lt_succ_self _) pre (⟨id, line⟩ :: post) rfl
        rw [List.append_assoc, List.singleton_append, removeLoop, hget, List.reverse_append,
          List.reverse_singleton, List.singleton_append, prune]
        cases line with
        | none =>
            have hhit : equalsCommand sh cmd ⟨id, none⟩ = false := rfl
            simp [hgoOn, hhit]
        | some line =>
            have hhit : equalsCommand sh cmd ⟨id, some line⟩
                = history_line_equals sh.isZsh (sh.beyond id) line cmd := rfl
            cases hline_eq : history_line_equals sh.isZsh (sh.beyond id) line cmd with
            | false => simp [hgoOn, hhit, hline_eq]
            | true =>
                simp only [hhit, hline_eq, Bool.false_and, Bool.false_eq_true, if_false, if_true]
                rw [eraseIdx_append_cons]
                rcases List.eq_nil_or_concat' pre with rfl | ⟨pre, stamp, rfl⟩
                · rfl
                · have hts : timestampAt (pre ++ stamp :: post) pre.length = isTimestamp stamp := by
                    simp [timestampAt, isTimestamp]
                  simp only [List.length_append, List.length_singleton, List.append_assoc,
                    List.singleton_append, List.reverse_append, List.reverse_singleton]
                  rw [hts, prune, Bool.true_and]
                  split
                  · -- its timestamp goes with it
                    rw [eraseIdx_append_cons, ih pre.length (by rw [List.length_append]; omega) pre post rfl]
                  · have hrest := ih (pre.length + 1) (by simp) (pre ++ [stamp]) post (by simp)
                    rw [List.append_assoc, List.singleton_append] at hrest
                    rw [hrest, List.reverse_append, List.reverse_singleton, List.singleton_append,
                      prune, Bool.false_and, if_neg Bool.false_ne_true]

/-- Neither of the deletion's two results depends on how the loop runs. -/
theorem history_mgmt_remove_from_system_history_eq (sh : Shell) (cmd : CString)
    (historyState : HistoryState) :
    let result := prune (equalsCommand sh cmd) isTimestamp false historyState.entries.reverse
    (history_mgmt_remove_from_system_history sh cmd historyState).1.entries = result.1.reverse
      ∧ (history_mgmt_remove_from_system_history sh cmd historyState).2 = result.2 := by
  have hloop := removeLoop_eq_prune sh cmd historyState.entries []
  simp only [List.append_nil] at hloop
  exact ⟨congrArg Prod.fst hloop, congrArg Prod.snd hloop⟩

end Hstr.Removal
