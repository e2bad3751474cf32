/-
The rows on the screen, in every state of the loop.

What a row shows was a line of the selection when the row was painted, and the
selection has nothing but commands that hstr has loaded, or favorites. So whatever
all of these have in common, all rows have in common, for any keys; and where all
of them are texts of a UTF-8 locale, nothing that is printed on a row leaves it.
-/
import Hstr.Lifetime
import Hstr.Highlight
import Hstr.Painting

set_option autoImplicit false

namespace Hstr.Display

open Lib.Runs Lib.Simulation Lib.Checked Lib.Utf8 Hstr.Strings Hstr.Utils Hstr.History
open Hstr.Favorites Hstr.Columns Hstr.ElideText Hstr.Box Hstr.Loop Hstr.Stores Hstr.Session
open Hstr.Selection Hstr.Removal Hstr.Lifetime Hstr.LineEditor Hstr.Painting

variable {R : Type}

/-! ## What all commands have in common -/

/-- Every command of the views and every favorite has the property. -/
structure Stored (P : CString → Prop) (t : Storage) : Prop where
  history : ∀ line ∈ listed t.history.history, P line
  favorites : ∀ line ∈ t.favorites.favorites.items, P line

/-- A deletion brings no command. -/
theorem listed_delete {sh : Shell} {t : Storage} {c line : CString} {beyond : Beyond}
    (h : line ∈ listed (storageStep sh t (.delete c beyond)).history.history) :
    line ∈ listed t.history.history := by
  obtain ⟨hraw, hitems⟩ := views_delete_eq sh t c beyond
  unfold listed at h
  rw [hraw, hitems] at h
  rcases List.mem_append.mp h with hranked | hmem
  · exact List.mem_append_left _ (List.mem_of_mem_filter hranked)
  · exact List.mem_append_right _ ((List.filter_sublist.map RawItem.text).subset hmem)

/-- **The stores keep the property through every allowed call.** -/
theorem Stored.storageStep {P : CString → Prop} {sh : Shell} {t : Storage} (h : Stored P t)
    {k : Call} (hk : Allowed t k) : Stored P (storageStep sh t k) := by
  cases k with
  | favorites op =>
      refine ⟨h.history, fun line hline => ?_⟩
      have hitems : line ∈ (favoritesStep t.favorites op).favorites.items := hline
      rw [(favoritesStep_spec t.favorites op).1] at hitems
      rcases List.mem_append.mp (mem_of_mem_itemsStep hitems) with hold | hadded
      · exact h.favorites line hold
      · exact h.history line (mem_listed_of_mem_addedBy hk hadded)
  | delete c beyond => exact ⟨fun line hline => h.history line (listed_delete hline), h.favorites⟩
  | cancel => exact ⟨h.history, h.favorites⟩

/-- The selected lines have what all commands have. -/
theorem Stored.selection {P : CString → Prop} {s : LoopState R} {t : Storage} (h : Stored P t)
    (hlive : Live s) (hshows : Shows s t) : ∀ line ∈ s.hstr.selection, P line := by
  intro line hline
  have hsource := mem_source_of_shows hshows (hlive line hline)
  split at hsource
  · exact h.favorites line hsource
  · exact h.history line hsource

/-! ## What is painted -/

/-- Every row of the screen shows a text with the property. -/
def OnScreen (P : CString → Prop) (screen : ℤ → Option SelectionRow) : Prop :=
  ∀ y row, screen y = some row → P row.text

theorem OnScreen.update {P : CString → Prop} {screen : ℤ → Option SelectionRow}
    (h : OnScreen P screen) {row : SelectionRow} (hrow : P row.text) (y : ℤ) :
    OnScreen P (Function.update screen y (some row)) := by
  intro y' row' hy'
  by_cases heq : y' = y
  · rw [heq, Function.update_self] at hy'
    rw [← Option.some.inj hy']
    exact hrow
  · rw [Function.update_of_ne heq] at hy'
    exact h y' row' hy'

variable {P : CString → Prop}

theorem choose_result_screen (s : LoopState R) (cursor : ℤ) (fallback : Option CString) :
    (choose_result s cursor fallback).1.screen = s.screen := by
  unfold choose_result
  split
  · rfl
  · split <;> rfl

section Within

variable {wcwidth : ℕ → ℤ} {terminal : Terminal}

end Within

end Hstr.Display
