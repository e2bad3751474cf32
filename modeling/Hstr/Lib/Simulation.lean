/-
A machine that works through another one.

A step of the client may ask the store for any number of steps: a loop that calls
into its model, a cache that calls into the memory behind it. `through` is the
machine of both, and `Follows` relates their states in a way that every step of
the client keeps. What the store promises of its own steps then holds along every
run of the client, if the client asks for nothing that the store does not allow.
-/
import Hstr.Lib.Runs

set_option autoImplicit false

namespace Lib.Simulation

open Lib.Runs

variable {σ ι τ κ : Type*}

/-- What a run of the client asks for. -/
def trace (step : σ → ι → σ) (asks : σ → ι → List κ) : σ → List ι → List κ
  | _, [] => []
  | s, i :: is => asks s i ++ trace step asks (step s i) is

/-- The client and the store that it works through, in lock step. -/
def through (step : σ → ι → σ) (asks : σ → ι → List κ) (storeStep : τ → κ → τ)
    (p : σ × τ) (i : ι) : σ × τ :=
  (step p.1 i, run storeStep p.2 (asks p.1 i))

/-- A relation of the two states that every step of the client keeps. -/
def Follows (step : σ → ι → σ) (asks : σ → ι → List κ) (storeStep : τ → κ → τ)
    (R : σ → τ → Prop) : Prop :=
  ∀ s t i, R s t → R (step s i) (run storeStep t (asks s i))

/-- In a state of both, the client asks only for what the store allows. -/
def Obeys (asks : σ → ι → List κ) (storeStep : τ → κ → τ) (allowed : τ → κ → Prop) (p : σ × τ)
    (i : ι) : Prop :=
  Guarded storeStep allowed p.2 (asks p.1 i)

variable {step : σ → ι → σ} {asks : σ → ι → List κ} {storeStep : τ → κ → τ}

theorem run_append (s : σ) (is js : List ι) :
    run step s (is ++ js) = run step (run step s is) js := List.foldl_append

/-- A run of both is a run of each: the store takes the steps it is asked for. -/
theorem run_through (p : σ × τ) (is : List ι) :
    run (through step asks storeStep) p is
      = (run step p.1 is, run storeStep p.2 (trace step asks p.1 is)) := by
  induction is generalizing p with
  | nil => rfl
  | cons i is ih => rw [run_cons, ih, trace, run_append, run_cons, through]

/-- **Related states stay related**, along every run of the client. -/
theorem Follows.always {R : σ → τ → Prop} (h : Follows step asks storeStep R) {s : σ} {t : τ}
    (h0 : R s t) (is : List ι) :
    Always (through step asks storeStep) (fun p => R p.1 p.2) (s, t) is :=
  always_of_step (I := fun p : σ × τ => R p.1 p.2) (fun p i hp => h p.1 p.2 i hp) h0 is

theorem Follows.run {R : σ → τ → Prop} (h : Follows step asks storeStep R) {s : σ} {t : τ}
    (h0 : R s t) (is : List ι) :
    R (run step s is) (run storeStep t (trace step asks s is)) := by
  have hlast := (h.always h0 is).last
  rw [run_through] at hlast
  exact hlast

/-- What the store keeps through every step it allows, it keeps through all that
an obedient client asks for at once. -/
theorem keeps_of_obeys {J : τ → Prop} {allowed : τ → κ → Prop}
    (hstore : ∀ t k, J t → allowed t k → J (storeStep t k)) {p : σ × τ} {i : ι} (hJ : J p.2)
    (hobeys : Obeys asks storeStep allowed p i) : J (through step asks storeStep p i).2 :=
  (always_of_guarded hstore hJ hobeys).last

/-- What a client and its store owe each other: the client keeps its invariant `I`
through the inputs that meet `G` and asks only for what is `allowed`, the store
keeps its invariant `J` through what is allowed, and the states stay related. -/
structure Contract (step : σ → ι → σ) (asks : σ → ι → List κ) (storeStep : τ → κ → τ)
    (I : σ → Prop) (R : σ → τ → Prop) (J : τ → Prop) (G : σ → ι → Prop)
    (allowed : τ → κ → Prop) : Prop where
  client : ∀ s i, I s → G s i → I (step s i)
  follows : Follows step asks storeStep R
  store : ∀ t k, J t → allowed t k → J (storeStep t k)
  obeys : ∀ s t i, I s → R s t → J t → G s i → Obeys asks storeStep allowed (s, t) i

variable {I : σ → Prop} {R : σ → τ → Prop} {J : τ → Prop} {G : σ → ι → Prop}
  {allowed : τ → κ → Prop}

/-- One step of both. -/
theorem Contract.keeps (h : Contract step asks storeStep I R J G allowed) {p : σ × τ} {i : ι}
    (hp : I p.1 ∧ R p.1 p.2 ∧ J p.2) (hi : G p.1 i) :
    I (through step asks storeStep p i).1
      ∧ R (through step asks storeStep p i).1 (through step asks storeStep p i).2
      ∧ J (through step asks storeStep p i).2 := by
  obtain ⟨hI, hR, hJ⟩ := hp
  exact ⟨h.client p.1 i hI hi, h.follows p.1 p.2 i hR,
    keeps_of_obeys h.store hJ (h.obeys p.1 p.2 i hI hR hJ hi)⟩

/-- **The invariant rule for both machines.** -/
theorem Contract.always (h : Contract step asks storeStep I R J G allowed) {s : σ} {t : τ}
    {is : List ι} (hI : I s) (hR : R s t) (hJ : J t)
    (hG : Guarded (through step asks storeStep) (fun p i => G p.1 i) (s, t) is) :
    Always (through step asks storeStep) (fun p => I p.1 ∧ R p.1 p.2 ∧ J p.2) (s, t) is :=
  always_of_guarded (I := fun p : σ × τ => I p.1 ∧ R p.1 p.2 ∧ J p.2)
    (fun _ _ hp hi => h.keeps hp hi) ⟨hI, hR, hJ⟩ hG

/-- The same for what a step does. -/
theorem Contract.guarded (h : Contract step asks storeStep I R J G allowed)
    {H : σ × τ → ι → Prop}
    (hH : ∀ p i, I p.1 → R p.1 p.2 → J p.2 → G p.1 i → H p i) {s : σ} {t : τ} {is : List ι}
    (hI : I s) (hR : R s t) (hJ : J t)
    (hG : Guarded (through step asks storeStep) (fun p i => G p.1 i) (s, t) is) :
    Guarded (through step asks storeStep) H (s, t) is :=
  guarded_of_guarded (I := fun p : σ × τ => I p.1 ∧ R p.1 p.2 ∧ J p.2) (fun _ _ hp hi => h.keeps hp hi)
    (fun p i hp hi => hH p i hp.1 hp.2.1 hp.2.2 hi) ⟨hI, hR, hJ⟩ hG

/-- What holds of the client's states in every run of both holds in every run of
the client. -/
theorem always_of_through {P : σ → Prop} {s : σ} {t : τ} {is : List ι}
    (h : Always (through step asks storeStep) (fun p => P p.1) (s, t) is) :
    Always step P s is := by
  induction is generalizing s t with
  | nil => exact h
  | cons i is ih => exact ⟨h.1, ih h.2⟩

end Lib.Simulation
