/-
The longest beginning of a list that fits two budgets.

Every element has a cost and a size, and there is a budget for each. `fitting`
takes elements as long as both budgets allow, in one pass. Where no cost is
negative the result is the longest beginning that fits; taken from the end of a
list it is the longest end.
-/
import Mathlib.Algebra.BigOperators.Group.List.Basic
import Mathlib.Data.List.Infix
import Mathlib.Tactic.Linarith

set_option autoImplicit false

namespace Lib.Fitting

variable {α β : Type*} (cost : α → ℤ) (size : α → ℕ)

/-- The elements in front, as long as there is room. -/
def fitting : ℤ → ℕ → List α → List α
  | _, _, [] => []
  | maxCost, maxSize, x :: xs =>
      if cost x ≤ maxCost ∧ size x ≤ maxSize then
        x :: fitting (maxCost - cost x) (maxSize - size x) xs
      else []

/-- A list within the budgets. -/
def Fits (maxCost : ℤ) (maxSize : ℕ) (xs : List α) : Prop :=
  (xs.map cost).sum ≤ maxCost ∧ (xs.map size).sum ≤ maxSize

/-- The longest beginning with a property. -/
def LongestPrefix (P : List α → Prop) (xs p : List α) : Prop :=
  p <+: xs ∧ P p ∧ ∀ p', p' <+: xs → P p' → p'.length ≤ p.length

/-- The longest end with a property. -/
def LongestSuffix (P : List α → Prop) (xs q : List α) : Prop :=
  q <:+ xs ∧ P q ∧ ∀ q', q' <:+ xs → P q' → q'.length ≤ q.length

variable {cost size} {maxCost : ℤ} {maxSize : ℕ}

theorem fitting_cons_of_fits {x : α} (h : cost x ≤ maxCost ∧ size x ≤ maxSize) (xs : List α) :
    fitting cost size maxCost maxSize (x :: xs)
      = x :: fitting cost size (maxCost - cost x) (maxSize - size x) xs := if_pos h

theorem fitting_cons_of_not {x : α} (h : ¬ (cost x ≤ maxCost ∧ size x ≤ maxSize)) (xs : List α) :
    fitting cost size maxCost maxSize (x :: xs) = [] := if_neg h

variable (cost size maxCost maxSize) in
theorem fitting_isPrefix (xs : List α) : fitting cost size maxCost maxSize xs <+: xs := by
  induction xs generalizing maxCost maxSize with
  | nil => exact List.prefix_rfl
  | cons x xs ih =>
      rw [fitting]
      split
      · exact List.cons_prefix_cons.mpr ⟨rfl, ih _ _⟩
      · exact List.nil_prefix

variable (cost size maxCost maxSize) in
/-- What is taken is within the size, whatever the costs are. -/
theorem sum_size_fitting (xs : List α) :
    ((fitting cost size maxCost maxSize xs).map size).sum ≤ maxSize := by
  induction xs generalizing maxCost maxSize with
  | nil => exact Nat.zero_le _
  | cons x xs ih =>
      rw [fitting]
      split
      · next h =>
          have hrest := ih (maxCost - cost x) (maxSize - size x)
          rw [List.map_cons, List.sum_cons]
          omega
      · exact Nat.zero_le _

variable (cost size maxSize) in
/-- What is taken is within the cost, if nothing is. -/
theorem sum_cost_fitting {maxCost : ℤ} (hmax : 0 ≤ maxCost) (xs : List α) :
    ((fitting cost size maxCost maxSize xs).map cost).sum ≤ maxCost := by
  induction xs generalizing maxCost maxSize with
  | nil => exact hmax
  | cons x xs ih =>
      rw [fitting]
      split
      · next h =>
          have hrest := ih (maxSize - size x) (show 0 ≤ maxCost - cost x by omega)
          rw [List.map_cons, List.sum_cons]
          omega
      · exact hmax

/-- A list of which nothing has a negative cost. -/
theorem sum_cost_nonneg (hcost : ∀ x, 0 ≤ cost x) (xs : List α) : 0 ≤ (xs.map cost).sum := by
  induction xs with
  | nil => exact le_refl 0
  | cons x xs ih =>
      have hx := hcost x
      rw [List.map_cons, List.sum_cons]
      omega

/-- **Nothing longer fits.** -/
theorem prefix_fitting_of_fits (hcost : ∀ x, 0 ≤ cost x) {p xs : List α} (hp : p <+: xs)
    (hfits : Fits cost size maxCost maxSize p) : p <+: fitting cost size maxCost maxSize xs := by
  induction xs generalizing maxCost maxSize p with
  | nil =>
      rw [List.prefix_nil.mp hp]
      exact List.nil_prefix
  | cons x xs ih =>
      cases p with
      | nil => exact List.nil_prefix
      | cons x' p =>
          obtain ⟨rfl, hpxs⟩ := List.cons_prefix_cons.mp hp
          obtain ⟨hc, hs⟩ := hfits
          rw [List.map_cons, List.sum_cons] at hc hs
          have hrest := sum_cost_nonneg hcost p
          rw [fitting_cons_of_fits ⟨by omega, by omega⟩]
          refine List.cons_prefix_cons.mpr ⟨rfl, ih hpxs ⟨by omega, by omega⟩⟩

theorem longestPrefix_fitting (hcost : ∀ x, 0 ≤ cost x) (hmax : 0 ≤ maxCost) (xs : List α) :
    LongestPrefix (Fits cost size maxCost maxSize) xs (fitting cost size maxCost maxSize xs) :=
  ⟨fitting_isPrefix cost size maxCost maxSize xs,
    ⟨sum_cost_fitting cost size maxSize hmax xs, sum_size_fitting cost size maxCost maxSize xs⟩,
    fun _ hp hfits => (prefix_fitting_of_fits hcost hp hfits).length_le⟩

/-- The elements at the end, as long as there is room. -/
theorem longestSuffix_fitting (hcost : ∀ x, 0 ≤ cost x) (hmax : 0 ≤ maxCost) (xs : List α) :
    LongestSuffix (Fits cost size maxCost maxSize) xs
      (fitting cost size maxCost maxSize xs.reverse).reverse := by
  have hrev : ∀ ys : List α, Fits cost size maxCost maxSize ys.reverse
      ↔ Fits cost size maxCost maxSize ys := by
    intro ys
    rw [Fits, Fits, List.map_reverse, List.map_reverse, List.sum_reverse, List.sum_reverse]
  obtain ⟨hpre, hfits, hlongest⟩ :
      LongestPrefix (Fits cost size maxCost maxSize) xs.reverse
        (fitting cost size maxCost maxSize xs.reverse) := longestPrefix_fitting hcost hmax _
  refine ⟨?_, (hrev _).mpr hfits, fun q hq hqfits => ?_⟩
  · rw [← List.reverse_prefix, List.reverse_reverse]
    exact hpre
  · have hle := hlongest _ (List.reverse_prefix.mpr hq) ((hrev q).mpr hqfits)
    rwa [List.length_reverse] at hle ⊢

/-- Only the costs of the elements count. -/
theorem fitting_congr {cost' : α → ℤ} {xs : List α} (h : ∀ x ∈ xs, cost x = cost' x) :
    fitting cost size maxCost maxSize xs = fitting cost' size maxCost maxSize xs := by
  induction xs generalizing maxCost maxSize with
  | nil => rfl
  | cons x xs ih =>
      rw [fitting, fitting, h x List.mem_cons_self,
        ih fun y hy => h y (List.mem_cons_of_mem x hy)]

theorem LongestPrefix.congr {P Q : List α → Prop} {xs p : List α} (h : LongestPrefix P xs p)
    (hPQ : ∀ p', p' <+: xs → (P p' ↔ Q p')) : LongestPrefix Q xs p := by
  obtain ⟨hpre, hp, hlongest⟩ := h
  exact ⟨hpre, (hPQ p hpre).mp hp, fun p' hp' hQ => hlongest p' hp' ((hPQ p' hp').mpr hQ)⟩

theorem LongestSuffix.congr {P Q : List α → Prop} {xs q : List α} (h : LongestSuffix P xs q)
    (hPQ : ∀ q', q' <:+ xs → (P q' ↔ Q q')) : LongestSuffix Q xs q := by
  obtain ⟨hsuf, hq, hlongest⟩ := h
  exact ⟨hsuf, (hPQ q hsuf).mp hq, fun q' hq' hQ => hlongest q' hq' ((hPQ q' hq').mpr hQ)⟩

/-- Where nothing that begins with the first element has the property, the longest
beginning is empty. -/
theorem longestPrefix_nil {P : List α → Prop} {x : α} (xs : List α) (h0 : P [])
    (hx : ∀ p, ¬ P (x :: p)) : LongestPrefix P (x :: xs) [] := by
  refine ⟨List.nil_prefix, h0, fun p hp hP => ?_⟩
  cases p with
  | nil => exact Nat.le_refl 0
  | cons y p =>
      obtain ⟨rfl, -⟩ := List.cons_prefix_cons.mp hp
      exact absurd hP (hx p)

/-- The longest beginning goes on behind a first element that leaves room for it. -/
theorem LongestPrefix.cons {P Q : List α → Prop} {x : α} {xs p : List α}
    (h : LongestPrefix P xs p) (hPQ : ∀ p', P p' ↔ Q (x :: p')) :
    LongestPrefix Q (x :: xs) (x :: p) := by
  obtain ⟨hpre, hp, hlongest⟩ := h
  refine ⟨List.cons_prefix_cons.mpr ⟨rfl, hpre⟩, (hPQ p).mp hp, fun p' hp' hQ => ?_⟩
  cases p' with
  | nil => exact Nat.zero_le _
  | cons y p' =>
      obtain ⟨rfl, hp'xs⟩ := List.cons_prefix_cons.mp hp'
      exact Nat.succ_le_succ (hlongest p' hp'xs ((hPQ p').mpr hQ))

/-- A beginning and an end that cost less than the whole do not overlap. -/
theorem exists_between_of_cost_lt (hcost : ∀ x, 0 ≤ cost x) {xs p q : List α} (hp : p <+: xs)
    (hq : q <:+ xs) (hlt : (p.map cost).sum + (q.map cost).sum < (xs.map cost).sum) :
    ∃ m, xs = p ++ m ++ q := by
  obtain ⟨r, rfl⟩ := hp
  rcases List.suffix_or_suffix_of_suffix hq (List.suffix_append p r) with hqr | hrq
  · obtain ⟨m, rfl⟩ := hqr
    exact ⟨m, (List.append_assoc p m q).symm⟩
  · obtain ⟨x, rfl⟩ := hrq
    have hx := sum_cost_nonneg hcost x
    simp only [List.map_append, List.sum_append] at hlt
    omega

/-- Elements may be renamed before or after. -/
theorem fitting_map (f : β → α) (xs : List β) :
    fitting cost size maxCost maxSize (xs.map f)
      = (fitting (fun x => cost (f x)) (fun x => size (f x)) maxCost maxSize xs).map f := by
  induction xs generalizing maxCost maxSize with
  | nil => rfl
  | cons x xs ih =>
      rw [List.map_cons, fitting, fitting]
      split
      · rw [ih, List.map_cons]
      · rfl

end Lib.Fitting
