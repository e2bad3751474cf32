/-
Computations that succeed or fail: reading off what a success went through.

A function written in the `Except` monad returns `.ok` only where each of its
parts did. `bind_eq_ok` says so for one part, and the lemmas about `mapM` for a
part that is repeated over a list.
-/
import Mathlib.Data.List.Forall2

set_option autoImplicit false

namespace Lib.Results

universe u v

variable {ε : Type v} {α β : Type u}

/-- A sequence succeeds exactly where its first part does, and the rest on what
the first part gave. -/
theorem bind_eq_ok {x : Except ε α} {f : α → Except ε β} {b : β} :
    x >>= f = .ok b ↔ ∃ a, x = .ok a ∧ f a = .ok b := by
  cases x with
  | error e =>
      constructor
      · intro h
        cases h
      · rintro ⟨a, ha, -⟩
        cases ha
  | ok a =>
      constructor
      · exact fun h => ⟨a, rfl, h⟩
      · rintro ⟨a', ha, h⟩
        cases ha
        exact h

theorem ok_bind (a : α) (f : α → Except ε β) : (Except.ok a : Except ε α) >>= f = f a := rfl

theorem pure_eq_ok {a b : α} : (pure a : Except ε α) = .ok b ↔ a = b :=
  ⟨fun h => Except.ok.inj h, fun h => congrArg Except.ok h⟩

/-- A sequence does not fail in a way that neither of its parts fails in. -/
theorem bind_ne_error {x : Except ε α} {f : α → Except ε β} {e : ε} (hx : x ≠ .error e)
    (hf : ∀ a, x = .ok a → f a ≠ .error e) : x >>= f ≠ .error e := by
  cases x with
  | error e' =>
      intro h
      apply hx
      rw [Except.error.inj h]
  | ok a => exact hf a rfl

/-- A repeated part succeeds exactly where it succeeds on each element. -/
theorem mapM_eq_ok_iff {f : α → Except ε β} {xs : List α} {ys : List β} :
    xs.mapM f = .ok ys ↔ List.Forall₂ (fun x y => f x = .ok y) xs ys := by
  induction xs generalizing ys with
  | nil =>
      rw [List.mapM_nil, pure_eq_ok, List.forall₂_nil_left_iff]
      exact eq_comm
  | cons x xs ih =>
      simp only [List.mapM_cons, bind_eq_ok, pure_eq_ok, ih]
      constructor
      · rintro ⟨y, hy, ys', hys, rfl⟩
        exact List.Forall₂.cons hy hys
      · intro h
        cases h with
        | cons hy hys => exact ⟨_, hy, _, hys, rfl⟩

/-- Each element of a list has a partner in a list in step with it. -/
theorem exists_mem_left_of_forall₂ {α' β' : Type*} {R : α' → β' → Prop} {xs : List α'}
    {ys : List β'} (h : List.Forall₂ R xs ys) {y : β'} (hy : y ∈ ys) : ∃ x ∈ xs, R x y := by
  induction h with
  | nil => exact absurd hy List.not_mem_nil
  | cons hx _ ih =>
      rcases List.mem_cons.mp hy with rfl | hy
      · exact ⟨_, List.mem_cons_self, hx⟩
      · obtain ⟨x, hmem, hx⟩ := ih hy
        exact ⟨x, List.mem_cons_of_mem _ hmem, hx⟩

/-- Each result of a repeated part comes from an element. -/
theorem exists_of_mem_mapM {f : α → Except ε β} {xs : List α} {ys : List β}
    (h : xs.mapM f = .ok ys) {y : β} (hy : y ∈ ys) : ∃ x ∈ xs, f x = .ok y :=
  exists_mem_left_of_forall₂ (mapM_eq_ok_iff.mp h) hy

end Lib.Results
