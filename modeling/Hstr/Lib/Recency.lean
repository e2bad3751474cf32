/-
Lists that keep their elements by use.

A list of distinct elements is changed by three operations: an element is
inserted, used or removed. In one kind of list every insertion and use puts the
element at the head, in the other kind an element that is inserted goes to the
end and nothing else moves. Both kinds are told here from the past of the list
alone: `mostRecentFirst` and `inArrivalOrder` say what the list is without
saying how it came to be, and `after_moving` and `after_fixed` say that the two
kinds of list are these.

The past is a list of operations, the last one first.
-/
import Hstr.Lib.Dedup

set_option autoImplicit false

namespace Lib.Recency

open Lib.Dedup

variable {α : Type*} [DecidableEq α]

inductive Op (α : Type*)
  | insert (a : α)
  | use (a : α)
  | remove (a : α)
  deriving DecidableEq

/-- One operation on a list, of the kind where elements move if `moving`. -/
def step (moving : Bool) (xs : List α) : Op α → List α
  | .insert a =>
      if a ∈ xs then if moving then a :: xs.erase a else xs
      else if moving then a :: xs
      else xs ++ [a]
  | .use a => if moving ∧ a ∈ xs then a :: xs.erase a else xs
  | .remove a => xs.erase a

/-- The list that `xs` is after the past. -/
def after (moving : Bool) (xs : List α) : List (Op α) → List α
  | [] => xs
  | op :: past => step moving (after moving xs past) op

/-- What was done first is done first. -/
theorem after_append (moving : Bool) (xs : List α) (past past' : List (Op α)) :
    after moving xs (past ++ past') = after moving (after moving xs past') past := by
  induction past with
  | nil => rfl
  | cons op past ih => rw [List.cons_append, after, after, ih]

/-! ## What the past says -/

/-- The element is there: it was inserted behind the last time it was removed, or
was there from the start and never removed. -/
def present (xs : List α) : List (Op α) → α → Bool
  | [], a => decide (a ∈ xs)
  | .insert b :: past, a => decide (a = b) || present xs past a
  | .use _ :: past, a => present xs past a
  | .remove b :: past, a => !decide (a = b) && present xs past a

/-- The elements that were inserted, or used while they were there, the last one
first. -/
def uses (xs : List α) : List (Op α) → List α
  | [] => []
  | .insert a :: past => a :: uses xs past
  | .use a :: past => if present xs past a then a :: uses xs past else uses xs past
  | .remove _ :: past => uses xs past

/-- The elements that were inserted while they were not there, the last one
first. -/
def arrivals (xs : List α) : List (Op α) → List α
  | [] => []
  | .insert a :: past => if present xs past a then arrivals xs past else a :: arrivals xs past
  | .use _ :: past => arrivals xs past
  | .remove _ :: past => arrivals xs past

/-- The elements that were used, by their last use, then those that never were,
in their old order. -/
def mostRecentFirst (xs : List α) (past : List (Op α)) : List α :=
  (uses xs past).eraseDups.filter (present xs past)
    ++ xs.filter fun a => present xs past a && !decide (a ∈ uses xs past)

/-- The elements that were never removed, in their old order, then those that
arrived, by their last arrival. -/
def inArrivalOrder (xs : List α) (past : List (Op α)) : List α :=
  (xs.filter fun a => !decide (.remove a ∈ past))
    ++ ((arrivals xs past).eraseDups.filter (present xs past)).reverse

/-! ## The list is what the past says -/

/-- Moving an element of a list to its head, or putting a new one there. -/
theorem cons_erase_eq_cons_filter {xs : List α} (h : xs.Nodup) (a : α) :
    a :: xs.erase a = a :: xs.filter (· ≠ a) := by
  rw [h.erase_eq_filter]
  congr 1
  apply List.filter_congr
  intro b _
  by_cases hb : b = a <;> simp [hb]

/-- One operation, where the elements are distinct. -/
theorem step_moving {xs : List α} (h : xs.Nodup) (op : Op α) :
    step true xs op = match op with
      | .insert a => a :: xs.filter (· ≠ a)
      | .use a => if a ∈ xs then a :: xs.filter (· ≠ a) else xs
      | .remove a => xs.filter (· ≠ a) := by
  cases op with
  | insert a =>
      simp only [step, if_true]
      split
      · exact cons_erase_eq_cons_filter h a
      · next ha =>
          congr 1
          rw [eq_comm, List.filter_eq_self]
          intro b hb
          simpa using ne_of_mem_of_not_mem hb ha
  | use a =>
      simp only [step, true_and]
      rw [cons_erase_eq_cons_filter h a]
  | remove a => exact (List.cons.inj (cons_erase_eq_cons_filter h a)).2

theorem nodup_step {moving : Bool} {xs : List α} (h : xs.Nodup) (op : Op α) :
    (step moving xs op).Nodup := by
  have hhead : ∀ a, (a :: xs.erase a).Nodup := fun a =>
    List.nodup_cons.mpr ⟨h.not_mem_erase, h.erase a⟩
  cases op with
  | insert a =>
      simp only [step]
      split
      · split
        · exact hhead a
        · exact h
      · next ha =>
          split
          · exact List.nodup_cons.mpr ⟨ha, h⟩
          · rw [(List.perm_append_singleton a xs).nodup_iff]
            exact List.nodup_cons.mpr ⟨ha, h⟩
  | use a =>
      simp only [step]
      split
      · exact hhead a
      · exact h
  | remove a => exact h.erase a

/-- The elements stay distinct. -/
theorem nodup_after {moving : Bool} {xs : List α} (h : xs.Nodup) (past : List (Op α)) :
    (after moving xs past).Nodup := by
  induction past with
  | nil => exact h
  | cons op past ih => exact nodup_step ih op

theorem mem_step {moving : Bool} {xs : List α} (h : xs.Nodup) (op : Op α) (a : α) :
    a ∈ step moving xs op ↔ match op with
      | .insert b => a = b ∨ a ∈ xs
      | .use _ => a ∈ xs
      | .remove b => a ≠ b ∧ a ∈ xs := by
  have hhead : ∀ b, b ∈ xs → (a ∈ b :: xs.erase b ↔ a ∈ xs) := fun b hb =>
    (List.perm_cons_erase hb).mem_iff.symm
  cases op with
  | insert b =>
      simp only [step]
      split
      · next hb =>
          have hsame : a ∈ xs ↔ a = b ∨ a ∈ xs := by
            constructor
            · exact Or.inr
            · rintro (rfl | ha)
              · exact hb
              · exact ha
          split
          · rw [hhead b hb]
            exact hsame
          · exact hsame
      · split
        · exact List.mem_cons
        · rw [List.mem_append, List.mem_singleton, or_comm]
  | use b =>
      simp only [step]
      split
      · next hb => exact hhead b hb.2
      · rfl
  | remove b => exact h.mem_erase_iff

/-- **An element is in the list where its past says so.** -/
theorem mem_after {moving : Bool} {xs : List α} (h : xs.Nodup) (past : List (Op α)) (a : α) :
    a ∈ after moving xs past ↔ present xs past a = true := by
  induction past with
  | nil => exact decide_eq_true_iff.symm
  | cons op past ih =>
      rw [after, mem_step (nodup_after h past) op a]
      cases op with
      | insert b => simp [present, ih]
      | use b => simpa [present] using ih
      | remove b => simp [present, ih]

/-- Using an element puts it in front of the others, wherever it was. -/
theorem mostRecentFirst_use {xs : List α} (past : List (Op α)) {past' : List (Op α)} {a : α}
    (huses : uses xs past' = a :: uses xs past)
    (hpresent : ∀ b, present xs past' b = (decide (b = a) || present xs past b)) :
    mostRecentFirst xs past' = a :: (mostRecentFirst xs past).filter (· ≠ a) := by
  have hused : (uses xs past').eraseDups.filter (present xs past')
      = a :: ((uses xs past).eraseDups.filter (present xs past)).filter (· ≠ a) := by
    have ha : present xs past' a = true := by
      rw [hpresent, decide_eq_true rfl, Bool.true_or]
    rw [huses, List.eraseDups_cons, List.filter_cons_of_pos ha, eraseDups_filter,
      List.filter_filter, List.filter_filter]
    congr 1
    apply List.filter_congr
    intro b _
    by_cases hb : b = a <;> simp [hpresent, hb]
  have hunused : (xs.filter fun b => present xs past' b && !decide (b ∈ uses xs past'))
      = (xs.filter fun b => present xs past b && !decide (b ∈ uses xs past)).filter (· ≠ a) := by
    rw [List.filter_filter]
    apply List.filter_congr
    intro b _
    by_cases hb : b = a <;> simp [hpresent, huses, hb]
  rw [mostRecentFirst, hused, hunused, mostRecentFirst, List.filter_append, List.cons_append]

/-- **Elements that move are by their last use.** -/
theorem after_moving {xs : List α} (h : xs.Nodup) (past : List (Op α)) :
    after true xs past = mostRecentFirst xs past := by
  induction past with
  | nil =>
      have hall : (xs.filter fun a => decide (a ∈ xs) && !decide (a ∈ ([] : List α))) = xs := by
        rw [List.filter_eq_self]
        intro a ha
        simp [ha]
      rw [mostRecentFirst, uses, List.eraseDups_nil, List.filter_nil, List.nil_append]
      exact hall.symm
  | cons op past ih =>
      rw [after, step_moving (nodup_after h past) op]
      cases op with
      | insert a =>
          rw [mostRecentFirst_use past rfl fun b => rfl, ← ih]
      | use a =>
          dsimp only
          split
          · next ha =>
              have hpresent := (mem_after h past a).mp ha
              rw [mostRecentFirst_use past, ← ih]
              · rw [uses, if_pos hpresent]
              · intro b
                by_cases hb : b = a
                · simp [present, hb, hpresent]
                · simp [present, hb]
          · next ha =>
              have hpresent : ¬ present xs past a = true := fun hp => ha ((mem_after h past a).mpr hp)
              have huses : uses xs (.use a :: past) = uses xs past := by rw [uses, if_neg hpresent]
              rw [ih, mostRecentFirst, mostRecentFirst, huses]
              rfl
      | remove a =>
          dsimp only
          rw [ih, mostRecentFirst, mostRecentFirst, List.filter_append, List.filter_filter,
            List.filter_filter]
          congr 1
          · apply List.filter_congr
            intro b _
            simp [present]
          · apply List.filter_congr
            intro b _
            rw [present, uses, Bool.and_assoc, decide_not]

/-- **Elements that do not move are by their arrival.** -/
theorem after_fixed {xs : List α} (h : xs.Nodup) (past : List (Op α)) :
    after false xs past = inArrivalOrder xs past := by
  induction past with
  | nil =>
      simp only [after, inArrivalOrder, arrivals, List.not_mem_nil, decide_false, Bool.not_false,
        List.filter_true, List.eraseDups_nil, List.filter_nil, List.reverse_nil, List.append_nil]
  | cons op past ih =>
      have hold : ∀ op', (∀ a, op' ≠ Op.remove a) →
          (xs.filter fun a => !decide (Op.remove a ∈ op' :: past))
            = xs.filter fun a => !decide (Op.remove a ∈ past) := by
        intro op' hop'
        apply List.filter_congr
        intro a _
        simp [(hop' a).symm]
      rw [after]
      cases op with
      | insert a =>
          simp only [step, Bool.false_eq_true, if_false, mem_after h past a]
          rw [inArrivalOrder, hold _ (fun b hb => by cases hb), arrivals]
          split
          · next ha =>
              -- it is there, so nothing arrives
              rw [ih, inArrivalOrder]
              congr 2
              apply List.filter_congr
              intro b _
              by_cases hb : b = a
              · simp [present, hb, ha]
              · simp [present, hb]
          · next ha =>
              have harrives : (a :: arrivals xs past).eraseDups.filter (present xs (.insert a :: past))
                  = a :: (arrivals xs past).eraseDups.filter (present xs past) := by
                rw [List.eraseDups_cons, List.filter_cons_of_pos (by simp [present]),
                  eraseDups_filter, List.filter_filter]
                congr 1
                apply List.filter_congr
                intro b _
                by_cases hb : b = a
                · simp [present, hb, ha]
                · simp [present, hb]
              rw [harrives, List.reverse_cons, ← List.append_assoc, ih, inArrivalOrder]
      | use a =>
          have hsame : step false (after false xs past) (.use a) = after false xs past := by
            simp [step]
          rw [hsame, ih, inArrivalOrder, inArrivalOrder, hold _ (fun b hb => by cases hb)]
          rfl
      | remove a =>
          rw [step, (nodup_after h past).erase_eq_filter, ih, inArrivalOrder, inArrivalOrder,
            List.filter_append, List.filter_filter, List.filter_reverse, List.filter_filter]
          congr 1
          apply List.filter_congr
          intro b _
          by_cases hb : b = a <;> simp [hb]

end Lib.Recency
