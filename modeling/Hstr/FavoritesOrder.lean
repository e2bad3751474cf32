/-
`src/hstr_favorites.c`: in which order the favorites stand.

`favorites_move_to_head` shifts a part of the array, `favorites_add` appends, and
adding what is there already is choosing it. What the user sees is a list by
use, or by arrival where the configuration asks for static favorites: one of
the two lists of `Lib.Recency`, told from the operations of the whole session.
-/
import Hstr.Favorites
import Hstr.Lib.Recency

set_option autoImplicit false

namespace Hstr.FavoritesOrder

open Lib.Runs Lib.Recency Hstr.Strings Hstr.Favorites

/-- The operation on the list; a `NULL` pointer is none. -/
def listOp : FavoritesOp → Option (Op CString)
  | .add newFavorite => newFavorite.map Op.insert
  | .choose choice => choice.map Op.use
  | .remove almostDead => almostDead.map Op.remove

/-- The past of the list behind a session, the last operation first. -/
def past (ops : List FavoritesOp) : List (Op CString) := (ops.filterMap listOp).reverse

/-- Adding, choosing and removing are operations of a list by use. -/
theorem itemsStep_eq_step (reorderOnChoice : Bool) (items : List CString) (op : FavoritesOp) :
    itemsStep reorderOnChoice items op
      = match listOp op with
        | some op => step reorderOnChoice items op
        | none => items := by
  rcases op with (_ | c) | (_ | c) | (_ | c)
  · rfl
  · simp only [itemsStep, listOp, Option.map_some, step, moved]
    by_cases hc : c ∈ items
    · simp only [hc, if_true, and_true]
    · simp only [hc, if_false]
  · rfl
  · rfl
  · rfl
  · rfl

/-- A session does to the list what its past says. -/
theorem items_run (s : Session) (ops : List FavoritesOp) :
    (run favoritesStep s ops).favorites.items
      = after s.favorites.reorderOnChoice s.favorites.items (past ops) := by
  induction ops generalizing s with
  | nil => rfl
  | cons op ops ih =>
      obtain ⟨hitems, hreorder, -⟩ := favoritesStep_spec s op
      rw [run_cons, ih, hitems, hreorder, itemsStep_eq_step]
      unfold past
      cases hop : listOp op with
      | none => rw [List.filterMap_cons_none hop]
      | some listOp =>
          rw [List.filterMap_cons_some hop, List.reverse_cons, after_append]
          rfl

/-- **The order of the favorites over a whole session.** With `reorderOnChoice`
they are those that were added, or chosen while they were there, the last used
first, then those never used in the order in which they were loaded. Without it
they are the loaded ones that were never removed, in their order, then those
that were added, by the addition that brought them into the list. In both modes
the favorites are those whose last addition or removal is an addition, or that
were loaded and never removed, and each is there once. -/
theorem favorites_order (s : Session) (hnodup : s.favorites.items.Nodup)
    (ops : List FavoritesOp) :
    (s.favorites.reorderOnChoice = true →
        (run favoritesStep s ops).favorites.items
          = mostRecentFirst s.favorites.items (past ops))
      ∧ (s.favorites.reorderOnChoice = false →
        (run favoritesStep s ops).favorites.items
          = inArrivalOrder s.favorites.items (past ops))
      ∧ (run favoritesStep s ops).favorites.items.Nodup
      ∧ ∀ c, c ∈ (run favoritesStep s ops).favorites.items
        ↔ present s.favorites.items (past ops) c = true := by
  rw [items_run]
  refine ⟨fun hreorder => ?_, fun hreorder => ?_, nodup_after hnodup _, mem_after hnodup _⟩
  · rw [hreorder]
    exact after_moving hnodup _
  · rw [hreorder]
    exact after_fixed hnodup _

/-- The session of `favorites_order` with a choice, a removal and an addition. -/
theorem favorites_order_session :
    (run favoritesStep (startSession true false (some (printLines [lit "a", lit "b", lit "c"])))
        [.choose (some (lit "c")), .remove (some (lit "a")), .add (some (lit "a"))]).favorites.items
      = mostRecentFirst [lit "a", lit "b", lit "c"]
        (past [.choose (some (lit "c")), .remove (some (lit "a")), .add (some (lit "a"))]) :=
  (favorites_order (startSession true false (some (printLines [lit "a", lit "b", lit "c"])))
    (by decide) [.choose (some (lit "c")), .remove (some (lit "a")), .add (some (lit "a"))]).1 rfl

end Hstr.FavoritesOrder
