/-
Buckets: items filed under an index, and the list read off bucket by bucket.

Two data structures are families of chains `ι → List α`: a chained hash table,
where the index is the hash of an item's key, and a distribution sort, where it
is the key itself. `listing` reads the chains off in the order of a list of
indices. The first half of the file is about any family whose items are filed
under their own index; the second is about the family of **fibers** of one
list, and says that reading its fibers off in a strict order sorts the list,
stably: the listing is a permutation, it is ordered, and under each index the
items keep the order of the list.
-/
import Mathlib.Data.List.Perm.Basic
import Mathlib.Data.List.Nodup
import Mathlib.Logic.Function.Basic

set_option autoImplicit false

namespace Lib.Buckets

variable {ι α β : Type*}

/-- The items of a family of chains, in the order of the given indices. -/
def listing (is : List ι) (b : ι → List α) : List α := is.flatMap b

@[simp] theorem listing_nil (b : ι → List α) : listing [] b = [] := rfl

@[simp] theorem listing_cons (i : ι) (is : List ι) (b : ι → List α) :
    listing (i :: is) b = b i ++ listing is b := rfl

theorem mem_listing {is : List ι} {b : ι → List α} {x : α} :
    x ∈ listing is b ↔ ∃ i ∈ is, x ∈ b i := List.mem_flatMap

theorem listing_congr {is : List ι} {b c : ι → List α} (h : ∀ i ∈ is, b i = c i) :
    listing is b = listing is c := List.flatMap_congr h

/-! ## Families filed by their own index -/

/-- Chains without repetition whose items know their index give a listing
without repetition. -/
theorem nodup_listing {is : List ι} {b : ι → List α} {k : α → ι} (his : is.Nodup)
    (hk : ∀ i ∈ is, ∀ x ∈ b i, k x = i) (hb : ∀ i ∈ is, (b i).Nodup) :
    (listing is b).Nodup := by
  induction is with
  | nil => exact List.nodup_nil
  | cons i is ih =>
      obtain ⟨hi, his⟩ := List.nodup_cons.mp his
      have hrest := ih his (fun j hj => hk j (List.mem_cons_of_mem i hj))
        (fun j hj => hb j (List.mem_cons_of_mem i hj))
      rw [listing_cons, List.nodup_append]
      refine ⟨hb i List.mem_cons_self, hrest, ?_⟩
      intro x hx y hy hxy
      obtain ⟨j, hj, hyj⟩ := mem_listing.mp hy
      have hxi : k x = i := hk i List.mem_cons_self x hx
      have hxj : k y = j := hk j (List.mem_cons_of_mem i hj) y hyj
      rw [← hxy, hxi] at hxj
      exact hi (hxj ▸ hj)

/-- Putting an item at the head of one chain adds just that item to the
listing. -/
theorem listing_push_perm [DecidableEq ι] {is : List ι} {b : ι → List α} {i : ι} {x : α}
    (his : is.Nodup) (hi : i ∈ is) :
    (listing is (Function.update b i (x :: b i))).Perm (x :: listing is b) := by
  induction is with
  | nil => exact absurd hi List.not_mem_nil
  | cons j is ih =>
      obtain ⟨hj, his⟩ := List.nodup_cons.mp his
      rw [listing_cons, listing_cons]
      rcases List.mem_cons.mp hi with rfl | hi
      · have hrest : listing is (Function.update b i (x :: b i)) = listing is b := by
          refine listing_congr fun m hm => ?_
          have hne : m ≠ i := fun h => hj (h ▸ hm)
          rw [Function.update_of_ne hne]
        rw [Function.update_self, hrest, List.cons_append]
      · have hne : j ≠ i := fun h => hj (h ▸ hi)
        rw [Function.update_of_ne hne]
        exact ((ih his hi).append_left (b j)).trans List.perm_middle

/-! ## Fibers of a list -/

section Fibers

variable [DecidableEq ι] (k : α → ι)

/-- The items of a list filed under the index `i`, in the order of the list. -/
def fiber (xs : List α) (i : ι) : List α := xs.filter (fun x => k x = i)

@[simp] theorem fiber_nil (i : ι) : fiber k [] i = [] := rfl

theorem fiber_cons_self (x : α) (xs : List α) :
    fiber k (x :: xs) (k x) = x :: fiber k xs (k x) := by
  simp [fiber]

theorem fiber_cons_of_ne {x : α} {i : ι} (xs : List α) (h : k x ≠ i) :
    fiber k (x :: xs) i = fiber k xs i := by
  simp [fiber, h]

variable {k}

theorem mem_fiber {xs : List α} {i : ι} {x : α} : x ∈ fiber k xs i ↔ x ∈ xs ∧ k x = i := by
  simp [fiber]

/-- Filtering a list filters its fibers. -/
theorem fiber_filter (p : α → Bool) (xs : List α) (i : ι) :
    fiber k (xs.filter p) i = (fiber k xs i).filter p := by
  rw [fiber, fiber, List.filter_comm]

/-- Under each index a listing of fibers holds the fiber, in its order. -/
theorem filter_listing_fiber {is : List ι} (his : is.Nodup) (xs : List α) {j : ι} (hj : j ∈ is) :
    (listing is (fiber k xs)).filter (fun x => k x = j) = fiber k xs j := by
  have hother : ∀ i, i ≠ j → (fiber k xs i).filter (fun x => k x = j) = [] := by
    intro i hij
    rw [List.filter_eq_nil_iff]
    intro x hx
    have hxi : k x = i := (mem_fiber.mp hx).2
    simpa [hxi] using hij
  have hself : (fiber k xs j).filter (fun x => k x = j) = fiber k xs j := by
    rw [List.filter_eq_self]
    intro x hx
    simpa using (mem_fiber.mp hx).2
  induction is with
  | nil => exact absurd hj List.not_mem_nil
  | cons i is ih =>
      obtain ⟨hi, his⟩ := List.nodup_cons.mp his
      rw [listing_cons, List.filter_append]
      rcases List.mem_cons.mp hj with rfl | hj
      · have hnil : (listing is (fiber k xs)).filter (fun x => k x = j) = [] := by
          rw [List.filter_eq_nil_iff]
          intro x hx
          obtain ⟨i', hi', hxi'⟩ := mem_listing.mp hx
          have hxk : k x = i' := (mem_fiber.mp hxi').2
          have hne : i' ≠ j := fun h => hi (h ▸ hi')
          simpa [hxk] using hne
        rw [hself, hnil, List.append_nil]
      · have hij : i ≠ j := fun h => hi (h ▸ hj)
        rw [hother i hij, ih his hj, List.nil_append]

/-- A listing of fibers holds every item of the list exactly once. -/
theorem listing_fiber_perm {is : List ι} {xs : List α} (his : is.Nodup)
    (hcover : ∀ x ∈ xs, k x ∈ is) : (listing is (fiber k xs)).Perm xs := by
  induction is generalizing xs with
  | nil =>
      have hnil : xs = [] := List.eq_nil_iff_forall_not_mem.mpr
        fun x hx => List.not_mem_nil (hcover x hx)
      rw [hnil]
      exact List.Perm.refl _
  | cons i is ih =>
      obtain ⟨hi, his⟩ := List.nodup_cons.mp his
      -- the items under `i`, then the rest, which the other indices cover
      have hrest : listing is (fiber k xs)
          = listing is (fiber k (xs.filter fun x => !decide (k x = i))) := by
        refine listing_congr fun j hj => ?_
        have hji : j ≠ i := fun h => hi (h ▸ hj)
        rw [fiber_filter, eq_comm, List.filter_eq_self]
        intro x hx
        simpa [(mem_fiber.mp hx).2] using hji
      have hcover' : ∀ x ∈ xs.filter fun x => !decide (k x = i), k x ∈ is := by
        intro x hx
        obtain ⟨hx, hne⟩ := List.mem_filter.mp hx
        have hne' : k x ≠ i := by simpa using hne
        exact (List.mem_cons.mp (hcover x hx)).resolve_left hne'
      have hperm := ih his hcover'
      rw [listing_cons, hrest]
      exact (hperm.append_left (fiber k xs i)).trans (List.filter_append_perm _ xs)

/-- A listing of fibers in a strict order of the indices is ordered by index. -/
theorem listing_fiber_pairwise {r : ι → ι → Prop} {is : List ι} (his : is.Pairwise r)
    (xs : List α) :
    (listing is (fiber k xs)).Pairwise (fun x y => k x = k y ∨ r (k x) (k y)) := by
  induction is with
  | nil => exact List.Pairwise.nil
  | cons i is ih =>
      obtain ⟨hi, his⟩ := List.pairwise_cons.mp his
      rw [listing_cons, List.pairwise_append]
      refine ⟨?_, ih his, ?_⟩
      · have hall : ∀ x ∈ fiber k xs i, ∀ y ∈ fiber k xs i, k x = k y ∨ r (k x) (k y) :=
          fun x hx y hy => Or.inl ((mem_fiber.mp hx).2.trans (mem_fiber.mp hy).2.symm)
        exact List.pairwise_of_forall_mem_list hall
      · intro x hx y hy
        obtain ⟨j, hj, hyj⟩ := mem_listing.mp hy
        rw [(mem_fiber.mp hx).2, (mem_fiber.mp hyj).2]
        exact Or.inr (hi j hj)

/-- What holds between the items of each index, in their order, holds between
any two items of the same index. -/
theorem pairwise_of_fibers {R : α → α → Prop} {xs : List α}
    (h : ∀ i, (fiber k xs i).Pairwise R) : xs.Pairwise fun x y => k y = k x → R x y := by
  induction xs with
  | nil => exact List.Pairwise.nil
  | cons x xs ih =>
      refine List.pairwise_cons.mpr ⟨fun y hy hkey => ?_, ih fun i => ?_⟩
      · have hx := h (k x)
        rw [fiber_cons_self] at hx
        exact (List.pairwise_cons.mp hx).1 y (mem_fiber.mpr ⟨hy, hkey⟩)
      · exact (h i).sublist ((List.sublist_cons_self x xs).filter _)

end Fibers

/-! ## Taking one item out of a list -/

/-- Where a label names an item, the list is that item and the items with other
labels. -/
theorem perm_cons_filter_ne [DecidableEq β] {f : α → β} {xs : List α} {x : α}
    (hnd : (xs.map f).Nodup) (hx : x ∈ xs) :
    xs.Perm (x :: xs.filter fun y => f y ≠ f x) := by
  induction xs with
  | nil => exact absurd hx List.not_mem_nil
  | cons y ys ih =>
      rw [List.map_cons, List.nodup_cons] at hnd
      obtain ⟨hy, hnd⟩ := hnd
      rcases List.mem_cons.mp hx with rfl | hx
      · have hself : ys.filter (fun z => f z ≠ f x) = ys := by
          rw [List.filter_eq_self]
          intro z hz
          have hne : f z ≠ f x := fun h => hy (h ▸ List.mem_map_of_mem hz)
          simpa using hne
        rw [List.filter_cons_of_neg (by simp), hself]
      · have hne : f y ≠ f x := fun h => hy (h ▸ List.mem_map_of_mem hx)
        have hfilter : (y :: ys).filter (fun z => f z ≠ f x)
            = y :: ys.filter (fun z => f z ≠ f x) := by simp [hne]
        rw [hfilter]
        exact ((ih hnd hx).cons y).trans (List.Perm.swap x y _)

end Lib.Buckets
