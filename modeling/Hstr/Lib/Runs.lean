/-
Runs of a deterministic machine, and what holds along them.

A machine is a step function `σ → ι → σ`: a state, an input, the next state.
Two statements about a run are needed again and again by a development that
verifies one: that something holds of **every state** the run visits
(`Always`), and that something holds of **every step** the run takes, with the
state the step starts in (`Guarded`). Both are defined by recursion over the
inputs, so that a proof about them is an induction with one case a step, and
the invariant rule is proved once.
-/
import Mathlib.Data.List.Infix

set_option autoImplicit false

namespace Lib.Runs

variable {σ ι : Type*} (step : σ → ι → σ)

/-- The state a run ends in. -/
def run (s : σ) (is : List ι) : σ := is.foldl step s

@[simp] theorem run_nil (s : σ) : run step s [] = s := rfl

@[simp] theorem run_cons (s : σ) (i : ι) (is : List ι) :
    run step s (i :: is) = run step (step s i) is := rfl

/-- `P` holds of every state the run visits, the first and the last included. -/
def Always (P : σ → Prop) : σ → List ι → Prop
  | s, [] => P s
  | s, i :: is => P s ∧ Always P (step s i) is

/-- `G` holds of every step the run takes, in the state the step starts in. -/
def Guarded (G : σ → ι → Prop) : σ → List ι → Prop
  | _, [] => True
  | s, i :: is => G s i ∧ Guarded G (step s i) is

variable {step}

/-- `Always` without the recursion: the states a run visits are the ends of the
runs over the prefixes of its inputs. -/
theorem always_iff_run {P : σ → Prop} {s : σ} {is : List ι} :
    Always step P s is ↔ ∀ pre, pre <+: is → P (run step s pre) := by
  induction is generalizing s with
  | nil =>
      simp only [Always, List.prefix_nil, forall_eq, run_nil]
  | cons i is ih =>
      rw [Always, ih]
      constructor
      · rintro ⟨h0, h⟩ pre hpre
        rcases pre with _ | ⟨j, pre⟩
        · exact h0
        · obtain ⟨rfl, hrest⟩ := List.cons_prefix_cons.mp hpre
          exact h pre hrest
      · intro h
        refine ⟨h [] List.nil_prefix, fun pre hpre => ?_⟩
        exact h (i :: pre) (List.cons_prefix_cons.mpr ⟨rfl, hpre⟩)

/-- The last state of a run is one of the states it visits. -/
theorem Always.last {P : σ → Prop} {s : σ} {is : List ι} (h : Always step P s is) :
    P (run step s is) :=
  always_iff_run.mp h is List.prefix_rfl

/-- The first state of a run is one of the states it visits. -/
theorem Always.first {P : σ → Prop} {s : σ} {is : List ι} (h : Always step P s is) : P s :=
  always_iff_run.mp h [] List.nil_prefix

theorem Always.mono {P Q : σ → Prop} (hPQ : ∀ s, P s → Q s) {s : σ} {is : List ι}
    (h : Always step P s is) : Always step Q s is :=
  always_iff_run.mpr fun pre hpre => hPQ _ (always_iff_run.mp h pre hpre)

theorem Always.and {P Q : σ → Prop} {s : σ} {is : List ι} (hP : Always step P s is)
    (hQ : Always step Q s is) : Always step (fun s => P s ∧ Q s) s is :=
  always_iff_run.mpr fun pre hpre => ⟨always_iff_run.mp hP pre hpre, always_iff_run.mp hQ pre hpre⟩

/-- **The invariant rule.** What holds at the start and is kept by every step
that meets the guard holds of every state of a run whose steps all meet it. -/
theorem always_of_guarded {I : σ → Prop} {G : σ → ι → Prop}
    (hstep : ∀ s i, I s → G s i → I (step s i)) {s : σ} {is : List ι}
    (h0 : I s) (hg : Guarded step G s is) : Always step I s is := by
  induction is generalizing s with
  | nil => exact h0
  | cons i is ih => exact ⟨h0, ih (hstep s i h0 hg.1) hg.2⟩

/-- The invariant rule for a machine whose every step keeps the invariant. -/
theorem always_of_step {I : σ → Prop} (hstep : ∀ s i, I s → I (step s i)) {s : σ}
    (h0 : I s) (is : List ι) : Always step I s is := by
  induction is generalizing s with
  | nil => exact h0
  | cons i is ih => exact ⟨h0, ih (hstep s i h0)⟩

/-- A guard that does not look at the state is checked on the inputs. -/
theorem guarded_of_forall_mem {G : σ → ι → Prop} {s : σ} {is : List ι}
    (h : ∀ i ∈ is, ∀ s, G s i) : Guarded step G s is := by
  induction is generalizing s with
  | nil => trivial
  | cons i is ih =>
      exact ⟨h i List.mem_cons_self s, ih fun j hj => h j (List.mem_cons_of_mem i hj)⟩

/-- Two guards are one. -/
theorem Guarded.and {G H : σ → ι → Prop} {s : σ} {is : List ι} (hG : Guarded step G s is)
    (hH : Guarded step H s is) : Guarded step (fun s i => G s i ∧ H s i) s is := by
  induction is generalizing s with
  | nil => trivial
  | cons i is ih => exact ⟨⟨hG.1, hH.1⟩, ih hG.2 hH.2⟩

/-- The invariant rule for steps: a fact that the invariant and the guard give
of one step holds of every step of a guarded run. -/
theorem guarded_of_guarded {I : σ → Prop} {G H : σ → ι → Prop}
    (hstep : ∀ s i, I s → G s i → I (step s i)) (hH : ∀ s i, I s → G s i → H s i)
    {s : σ} {is : List ι} (h0 : I s) (hg : Guarded step G s is) : Guarded step H s is := by
  induction is generalizing s with
  | nil => trivial
  | cons i is ih => exact ⟨hH s i h0 hg.1, ih (hstep s i h0 hg.1) hg.2⟩

/-- Two guards that say the same where the invariant holds hold of the same
runs, if one of them keeps the invariant. -/
theorem guarded_iff_guarded {I : σ → Prop} {G H : σ → ι → Prop}
    (hstep : ∀ s i, I s → G s i → I (step s i)) (hiff : ∀ s i, I s → (H s i ↔ G s i))
    {s : σ} {is : List ι} (h0 : I s) : Guarded step H s is ↔ Guarded step G s is := by
  induction is generalizing s with
  | nil => exact Iff.rfl
  | cons i is ih =>
      constructor
      · rintro ⟨hH, hrest⟩
        have hG := (hiff s i h0).mp hH
        exact ⟨hG, (ih (hstep s i h0 hG)).mp hrest⟩
      · rintro ⟨hG, hrest⟩
        exact ⟨(hiff s i h0).mpr hG, (ih (hstep s i h0 hG)).mpr hrest⟩

/-- A step between two states that the run visits. -/
theorem Always.guarded {I : σ → Prop} {s : σ} {is : List ι} (h : Always step I s is) :
    Guarded step (fun s i => I s ∧ I (step s i)) s is := by
  induction is generalizing s with
  | nil => trivial
  | cons i is ih => exact ⟨⟨h.1, h.2.first⟩, ih h.2⟩

/-- **Where a flag comes from.** If a step sets the flag exactly where `E` holds and
never clears it, the flag is set after a run if it was set before, or `E` held of
one of the steps. -/
theorem run_iff_exists {P : σ → Prop} {E G : σ → ι → Prop}
    (hstep : ∀ s i, G s i → (P (step s i) ↔ P s ∨ E s i)) {s : σ} {is : List ι}
    (hG : Guarded step G s is) :
    P (run step s is) ↔ P s ∨ ∃ pre i post, is = pre ++ i :: post ∧ E (run step s pre) i := by
  induction is generalizing s with
  | nil =>
      constructor
      · exact Or.inl
      · rintro (h | ⟨pre, i, post, hsplit, -⟩)
        · exact h
        · exact absurd hsplit.symm (by simp)
  | cons i is ih =>
      rw [run_cons, ih hG.2, hstep s i hG.1, or_assoc]
      apply or_congr_right
      constructor
      · rintro (h | ⟨pre, j, post, rfl, h⟩)
        · exact ⟨[], i, is, rfl, h⟩
        · exact ⟨i :: pre, j, post, rfl, h⟩
      · rintro ⟨pre, j, post, hsplit, h⟩
        cases pre with
        | nil =>
            obtain ⟨rfl, rfl⟩ := List.cons.inj hsplit
            exact Or.inl h
        | cons k pre =>
            obtain ⟨rfl, rfl⟩ := List.cons.inj hsplit
            exact Or.inr ⟨pre, j, post, rfl, h⟩

end Lib.Runs
