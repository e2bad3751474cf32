/-
Dropping repetitions while a list is read.

`List.eraseDups` keeps the first occurrence of every element. A program does
the same online: it keeps a list of what it has seen and appends an element
only if it is not there yet. `addNew` is that step, and `foldl_addNew` says
that the two agree. `addUpTo` is the step of a program that reads into an array
of limited size, with repetitions or without; what it reads is a beginning of
what it would read into an unlimited one.
-/
import Mathlib.Data.List.Induction
import Mathlib.Data.List.Nodup

set_option autoImplicit false

namespace Lib.Dedup

variable {α : Type*} [DecidableEq α]

/-- Append an element unless it is there. -/
def addNew (xs : List α) (x : α) : List α := if x ∈ xs then xs else xs ++ [x]

theorem nodup_addNew {xs : List α} (h : xs.Nodup) (x : α) : (addNew xs x).Nodup := by
  unfold addNew
  split
  · exact h
  · next hx =>
      rw [List.nodup_append]
      refine ⟨h, List.nodup_singleton x, ?_⟩
      intro y hy z hz hyz
      rw [List.mem_singleton.mp hz] at hyz
      exact hx (hyz ▸ hy)

theorem eraseDups_concat (xs : List α) (x : α) :
    (xs ++ [x]).eraseDups = addNew xs.eraseDups x := by
  rw [List.eraseDups_append, addNew]
  by_cases hx : x ∈ xs <;> simp [List.removeAll, hx, List.mem_eraseDups, List.eraseDups_cons]

/-- Reading a list with `addNew` drops its repetitions. -/
theorem foldl_addNew (xs : List α) : xs.foldl addNew [] = xs.eraseDups := by
  induction xs using List.reverseRecOn with
  | nil => rfl
  | append_singleton xs x ih =>
      rw [List.foldl_append, ih, eraseDups_concat]
      rfl

theorem nodup_eraseDups (xs : List α) : xs.eraseDups.Nodup := by
  induction xs using List.reverseRecOn with
  | nil => exact List.nodup_nil
  | append_singleton xs x ih =>
      rw [eraseDups_concat]
      exact nodup_addNew ih x

/-- A list without repetitions is left alone. -/
theorem eraseDups_eq_self {xs : List α} (h : xs.Nodup) : xs.eraseDups = xs := by
  induction xs using List.reverseRecOn with
  | nil => rfl
  | append_singleton xs x ih =>
      obtain ⟨hxs, -, hx⟩ := List.nodup_append.mp h
      rw [eraseDups_concat, ih hxs, addNew, if_neg]
      exact fun hmem => hx x hmem x (List.mem_singleton_self x) rfl

/-- Repetitions may be dropped before or after other elements. -/
theorem eraseDups_filter (p : α → Bool) (xs : List α) :
    (xs.filter p).eraseDups = xs.eraseDups.filter p := by
  induction xs using List.reverseRecOn with
  | nil => rfl
  | append_singleton xs x ih =>
      rw [List.filter_append, eraseDups_concat, addNew]
      cases hp : p x with
      | false =>
          rw [List.filter_cons_of_neg (by simp [hp]), List.filter_nil, List.append_nil, ih]
          split
          · rfl
          · rw [List.filter_append, List.filter_cons_of_neg (by simp [hp]), List.filter_nil,
              List.append_nil]
      | true =>
          rw [List.filter_cons_of_pos hp, List.filter_nil, eraseDups_concat, ih, addNew]
          have hmem : x ∈ xs.eraseDups.filter p ↔ x ∈ xs.eraseDups := by simp [hp]
          by_cases hx : x ∈ xs.eraseDups
          · rw [if_pos (hmem.mpr hx), if_pos hx]
          · rw [if_neg fun h => hx (hmem.mp h), if_neg hx, List.filter_append,
              List.filter_cons_of_pos hp, List.filter_nil]

/-! ## Reading into an array of limited size -/

/-- Append an element if there is room, and unless it is there where repetitions
are dropped. -/
def addUpTo (capacity : ℕ) (noDuplicates : Bool) (xs : List α) (x : α) : List α :=
  if xs.length ≥ capacity then xs
  else if noDuplicates && xs.contains x then xs
  else xs ++ [x]

/-- A list, without its repetitions where they are dropped. -/
def distinct (noDuplicates : Bool) (xs : List α) : List α :=
  if noDuplicates then xs.eraseDups else xs

/-- A step on the part that fits: what does not fit is cut off before or after
it. -/
theorem addUpTo_take (capacity : ℕ) (noDuplicates : Bool) (xs : List α) (x : α) :
    addUpTo capacity noDuplicates (xs.take capacity) x
      = (if noDuplicates then addNew xs x else xs ++ [x]).take capacity := by
  unfold addUpTo
  by_cases hfull : xs.length ≥ capacity
  · have hlen : (xs.take capacity).length ≥ capacity := by
      rw [List.length_take]
      omega
    rw [if_pos hlen]
    -- the new element is behind the cut
    have hcut : (xs ++ [x]).take capacity = xs.take capacity := List.take_append_of_le_length hfull
    unfold addNew
    split
    · split
      · rfl
      · exact hcut.symm
    · exact hcut.symm
  · have htake : xs.take capacity = xs := List.take_of_length_le (by omega)
    have hlen : ∀ ys : List α, ys.length ≤ xs.length + 1 → ys.take capacity = ys :=
      fun ys hys => List.take_of_length_le (by omega)
    rw [htake, if_neg hfull]
    unfold addNew
    cases noDuplicates with
    | false =>
        simp only [Bool.false_and, Bool.false_eq_true, if_false]
        exact (hlen _ (by simp)).symm
    | true =>
        by_cases hx : x ∈ xs
        · simp [hx, htake]
        · simp only [List.contains_eq_mem, hx, decide_false, Bool.and_false, Bool.false_eq_true,
            if_false, if_true]
          exact (hlen _ (by simp)).symm

/-- **Reading into an array** gives the elements that come first, repetitions
dropped or not. -/
theorem foldl_addUpTo (capacity : ℕ) (noDuplicates : Bool) (xs : List α) :
    xs.foldl (addUpTo capacity noDuplicates) [] = (distinct noDuplicates xs).take capacity := by
  induction xs using List.reverseRecOn with
  | nil => cases noDuplicates <;> simp [distinct]
  | append_singleton xs x ih =>
      rw [List.foldl_append, ih, List.foldl_cons, List.foldl_nil, addUpTo_take]
      cases noDuplicates with
      | false => rfl
      | true => simp only [distinct, if_true, eraseDups_concat]

theorem nodup_distinct (xs : List α) : (distinct true xs).Nodup := nodup_eraseDups xs

theorem mem_distinct {noDuplicates : Bool} {xs : List α} {x : α} :
    x ∈ distinct noDuplicates xs ↔ x ∈ xs := by
  unfold distinct
  split
  · exact List.mem_eraseDups
  · rfl

theorem length_distinct_le (noDuplicates : Bool) (xs : List α) :
    (distinct noDuplicates xs).length ≤ xs.length := by
  unfold distinct
  split
  · apply (nodup_eraseDups xs).length_le_of_subset
    intro x hx
    exact List.mem_eraseDups.mp hx
  · exact Nat.le_refl _

theorem distinct_filter (noDuplicates : Bool) (p : α → Bool) (xs : List α) :
    distinct noDuplicates (xs.filter p) = (distinct noDuplicates xs).filter p := by
  unfold distinct
  split
  · exact eraseDups_filter p xs
  · rfl

/-- What is left of a list does not depend on its order, but for the order. -/
theorem distinct_perm {xs ys : List α} (h : xs.Perm ys) (noDuplicates : Bool) :
    (distinct noDuplicates xs).Perm (distinct noDuplicates ys) := by
  unfold distinct
  split
  · apply (List.perm_ext_iff_of_nodup (nodup_eraseDups xs) (nodup_eraseDups ys)).mpr
    intro x
    rw [List.mem_eraseDups, List.mem_eraseDups, h.mem_iff]
  · exact h

omit [DecidableEq α] in
/-- Two searches that find different elements find, one after the other, what one
search for both finds. -/
theorem filter_append_filter_perm {p q r : α → Bool} {xs : List α}
    (hor : ∀ x ∈ xs, r x = (p x || q x)) (hapart : ∀ x ∈ xs, p x = true → q x = false) :
    (xs.filter p ++ xs.filter q).Perm (xs.filter r) := by
  have hsplit := List.filter_append_perm p (xs.filter r)
  rw [List.filter_filter, List.filter_filter] at hsplit
  have hp : xs.filter (fun x => p x && r x) = xs.filter p := by
    apply List.filter_congr
    intro x hx
    rw [hor x hx]
    cases p x <;> simp
  have hq : xs.filter (fun x => !p x && r x) = xs.filter q := by
    apply List.filter_congr
    intro x hx
    rw [hor x hx]
    cases hpx : p x with
    | false => simp
    | true => simp [hapart x hx hpx]
  rwa [hp, hq] at hsplit

/-! ## Repetitions among the first elements that are looked for -/

/-- An element that is looked for and stood in the list before stands behind the
first `n` elements that are looked for. -/
def RepeatsBehind (p : α → Bool) (n : ℕ) (xs : List α) : Prop :=
  ∀ before x after, xs = before ++ x :: after → p x = true → x ∈ before → n ≤ before.countP p

omit [DecidableEq α] in
theorem repeatsBehind_concat {p : α → Bool} {n : ℕ} {xs : List α} {x : α} :
    RepeatsBehind p n (xs ++ [x])
      ↔ RepeatsBehind p n xs ∧ (p x = true → x ∈ xs → n ≤ xs.countP p) := by
  constructor
  · intro h
    refine ⟨fun before y after heq => ?_, h xs x [] rfl⟩
    refine h before y (after ++ [x]) ?_
    rw [heq, List.append_assoc, List.cons_append]
  · rintro ⟨hxs, hx⟩ before y after heq
    -- the element is the last one, or it is among the others
    rcases List.eq_nil_or_concat' after with rfl | ⟨after, z, rfl⟩
    · obtain ⟨rfl, hlast⟩ := List.append_inj' heq rfl
      obtain rfl := List.singleton_inj.mp hlast
      exact hx
    · rw [← List.cons_append, ← List.append_assoc] at heq
      obtain ⟨hfront, -⟩ := List.append_inj' heq rfl
      exact hxs before y after hfront

omit [DecidableEq α] in
/-- **When the first elements that are looked for are different.** -/
theorem nodup_take_filter_iff {p : α → Bool} {n : ℕ} {xs : List α} :
    ((xs.filter p).take n).Nodup ↔ RepeatsBehind p n xs := by
  induction xs using List.reverseRecOn with
  | nil =>
      refine ⟨fun _ before x after heq => ?_, fun _ => by simp⟩
      exact absurd heq.symm (List.append_ne_nil_of_right_ne_nil before (List.cons_ne_nil x after))
  | append_singleton xs x ih =>
      rw [repeatsBehind_concat, ← ih, List.filter_append]
      have hcount : xs.countP p = (xs.filter p).length := List.countP_eq_length_filter
      by_cases hp : p x = true
      · rw [List.filter_cons_of_pos hp, List.filter_nil, hcount]
        have hmem : x ∈ xs.filter p ↔ x ∈ xs := by simp [hp]
        by_cases hfull : n ≤ (xs.filter p).length
        · rw [List.take_append_of_le_length hfull]
          exact ⟨fun h => ⟨h, fun _ _ => hfull⟩, fun h => h.1⟩
        · have htake : (xs.filter p).take n = xs.filter p := List.take_of_length_le (by omega)
          have hall : (xs.filter p ++ [x]).take n = xs.filter p ++ [x] :=
            List.take_of_length_le (by simp only [List.length_append, List.length_singleton]; omega)
          rw [hall, htake, (List.perm_append_singleton x (xs.filter p)).nodup_iff,
            List.nodup_cons, hmem]
          constructor
          · rintro ⟨hx, hnd⟩
            exact ⟨hnd, fun _ hin => absurd hin hx⟩
          · rintro ⟨hnd, hx⟩
            exact ⟨fun hin => hfull (hx hp hin), hnd⟩
      · rw [List.filter_cons_of_neg hp, List.filter_nil, List.append_nil]
        exact ⟨fun h => ⟨h, fun hyes => absurd hyes hp⟩, fun h => h.1⟩

end Lib.Dedup
