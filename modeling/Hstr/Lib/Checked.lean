/-
Programs over memory that may fail, and their total correctness.

A program of C reads and writes arrays, subtracts unsigned numbers, adds signed
ones and loops. Each of these can go wrong without an error message: the access
is outside the array, the difference wraps around, the sum overflows, the loop
does not end. Here they are computations that end in a `Fault`, so that a
program without a `Fault` is one that does none of it. `Returns x P` says so of
a computation `x`, and of its result that it satisfies `P`; `Yields x a P` says
that it ends in `a`, unless a sum overflows, which happens only if `P`.

A loop is the repetition of its body, which either leaves with a result or
goes again with a new state; `loop_leave` and `loop_again` run it turn by turn,
and `loop_invariant` and `Visits.invariant` carry an invariant through it.
-/
import Hstr.Lib.Results
import Mathlib.Data.Int.Notation

set_option autoImplicit false

namespace Lib.Checked

/-- What goes wrong. -/
inductive Fault
  | outOfBounds
  | wrapped
  | overflow
  | unfinished
  deriving DecidableEq

variable {α β σ : Type}

/-- The computation ends without a fault, in a value that satisfies `P`. -/
def Returns (x : Except Fault α) (P : α → Prop) : Prop := ∃ a, x = .ok a ∧ P a

theorem Returns.ok {a : α} {P : α → Prop} (h : P a) : Returns (.ok a) P := ⟨a, rfl, h⟩

theorem Returns.mono {x : Except Fault α} {P Q : α → Prop} (h : Returns x P) (hPQ : ∀ a, P a → Q a) :
    Returns x Q := by
  obtain ⟨a, ha, hP⟩ := h
  exact ⟨a, ha, hPQ a hP⟩

/-- A sequence of which each part returns. -/
theorem Returns.bind {x : Except Fault α} {f : α → Except Fault β} {P : α → Prop} {Q : β → Prop}
    (hx : Returns x P) (hf : ∀ a, P a → Returns (f a) Q) : Returns (x >>= f) Q := by
  obtain ⟨a, rfl, hP⟩ := hx
  exact hf a hP

/-- **The refinement rule of a loop over a list**: where every round returns and
keeps in step with a round of another loop, the loops stay in step. -/
theorem Returns.foldlM {τ : Type} {r : σ → τ → Prop} {f : σ → α → Except Fault σ}
    {g : τ → α → τ} (hround : ∀ s t a, r s t → Returns (f s a) fun s' => r s' (g t a))
    (as : List α) {s : σ} {t : τ} (h : r s t) :
    Returns (as.foldlM f s) fun s' => r s' (as.foldl g t) := by
  induction as generalizing s t with
  | nil => exact Returns.ok h
  | cons a as ih =>
      rw [List.foldlM_cons]
      apply (hround s t a h).bind
      intro s' hs'
      exact ih hs'

/-- The computation ends in the value, or a sum overflows and `large` holds. -/
def Yields (x : Except Fault α) (a : α) (large : Prop) : Prop :=
  x = .ok a ∨ (x = .error .overflow ∧ large)

theorem Yields.mono {x : Except Fault α} {a : α} {P Q : Prop} (h : Yields x a P) (hPQ : P → Q) :
    Yields x a Q := h.imp_right fun hover => ⟨hover.1, hPQ hover.2⟩

/-- A sequence of which each part ends in its value. -/
theorem Yields.bind {x : Except Fault α} {f : α → Except Fault β} {a : α} {b : β} {P : Prop}
    (hx : Yields x a P) (hf : Yields (f a) b P) : Yields (x >>= f) b P := by
  rcases hx with rfl | ⟨rfl, hP⟩
  · exact hf
  · exact Or.inr ⟨rfl, hP⟩

theorem Yields.eq_ok {x : Except Fault α} {a : α} {P : Prop} (h : Yields x a P) (hP : ¬ P) :
    x = .ok a := h.resolve_right fun hover => hP hover.2

/-! ## Memory and numbers -/

/-- Read the element at an index. -/
def load (mem : List α) (i : ℕ) : Except Fault α :=
  match mem[i]? with
  | some a => .ok a
  | none => .error .outOfBounds

/-- Write the element at an index. -/
def store (mem : List α) (i : ℕ) (a : α) : Except Fault (List α) :=
  if i < mem.length then .ok (mem.set i a) else .error .outOfBounds

/-- `memcpy` from an array: the `n` elements from index `i` on. -/
def loadRange (mem : List α) (i n : ℕ) : Except Fault (List α) :=
  if i + n ≤ mem.length then .ok ((mem.drop i).take n) else .error .outOfBounds

/-- `memcpy` into an array, from index `i` on. -/
def storeRange (mem : List α) (i : ℕ) (as : List α) : Except Fault (List α) :=
  if i + as.length ≤ mem.length then .ok (mem.take i ++ as ++ mem.drop (i + as.length))
  else .error .outOfBounds

/-- The difference of two unsigned numbers. -/
def sub (a b : ℕ) : Except Fault ℕ := if b ≤ a then .ok (a - b) else .error .wrapped

/-- The sum of two signed numbers, of which neither is negative, in a type up to
`max`. -/
def add (max a b : ℤ) : Except Fault ℤ := if a + b ≤ max then .ok (a + b) else .error .overflow

theorem load_eq_error {mem : List α} {i : ℕ} (hi : mem.length ≤ i) :
    load mem i = .error .outOfBounds := by
  rw [load, List.getElem?_eq_none hi]

/-- The element between two parts of the memory. -/
theorem load_append_cons (w r : List α) (a : α) : load (w ++ a :: r) w.length = .ok a := by
  rw [load, List.getElem?_append_right (Nat.le_refl _), Nat.sub_self, List.getElem?_cons_zero]

theorem store_eq_set {mem : List α} {i : ℕ} (hi : i < mem.length) (a : α) :
    store mem i a = .ok (mem.set i a) := if_pos hi

theorem store_append_cons (w r : List α) (a b : α) :
    store (w ++ a :: r) w.length b = .ok (w ++ b :: r) := by
  rw [store_eq_set (by simp), List.set_append_right _ _ (Nat.le_refl _), Nat.sub_self,
    List.set_cons_zero]

/-- Writing one element behind what is written already. -/
theorem store_append {r : List α} (h : 0 < r.length) (w : List α) (a : α) :
    store (w ++ r) w.length a = .ok (w ++ a :: r.drop 1) := by
  obtain ⟨b, r, rfl⟩ := List.exists_cons_of_length_pos h
  exact store_append_cons w r b a

theorem loadRange_eq {mem : List α} {i n : ℕ} (h : i + n ≤ mem.length) :
    loadRange mem i n = .ok ((mem.drop i).take n) := if_pos h

theorem storeRange_eq {mem : List α} {i : ℕ} {as : List α} (h : i + as.length ≤ mem.length) :
    storeRange mem i as = .ok (mem.take i ++ as ++ mem.drop (i + as.length)) := if_pos h

/-- The elements between two parts of the memory. -/
theorem loadRange_append (w as r : List α) :
    loadRange (w ++ as ++ r) w.length as.length = .ok as := by
  rw [loadRange_eq (by simp only [List.length_append]; omega), List.append_assoc, List.drop_left,
    List.take_left]

/-- Writing behind what is written already. -/
theorem storeRange_append {r as : List α} (h : as.length ≤ r.length) (w : List α) :
    storeRange (w ++ r) w.length as = .ok (w ++ as ++ r.drop as.length) := by
  rw [storeRange_eq (by rw [List.length_append]; omega), List.take_left, List.drop_append,
    Nat.add_sub_cancel_left, List.drop_eq_nil_of_le (Nat.le_add_right _ _), List.nil_append]

theorem sub_eq {a b : ℕ} (h : b ≤ a) : sub a b = .ok (a - b) := if_pos h

theorem add_yields (max a b : ℤ) : Yields (add max a b) (a + b) (max < a + b) := by
  rw [add]
  split
  · exact Or.inl rfl
  · exact Or.inr ⟨rfl, by omega⟩

theorem add_le {max a b c : ℤ} (h : add max a b = .ok c) : c ≤ max := by
  rw [add] at h
  split at h
  · next hle =>
      cases h
      exact hle
  · cases h

/-! ## Loops -/

/-- How a turn of a loop ends. -/
inductive Turn (β σ : Type)
  | leave (result : β)
  | again (state : σ)

/-- A loop of at most `fuel` turns. -/
def loop (body : σ → Except Fault (Turn β σ)) : ℕ → σ → Except Fault β
  | 0, _ => .error .unfinished
  | fuel + 1, s =>
      match body s with
      | .error e => .error e
      | .ok (.leave b) => .ok b
      | .ok (.again s') => loop body fuel s'

variable {body : σ → Except Fault (Turn β σ)}

theorem loop_leave {s : σ} {b : β} (h : body s = .ok (.leave b)) (fuel : ℕ) :
    loop body (fuel + 1) s = .ok b := by
  rw [loop, h]

theorem loop_again {s s' : σ} (h : body s = .ok (.again s')) (fuel : ℕ) :
    loop body (fuel + 1) s = loop body fuel s' := by
  rw [loop, h]

/-- What the loop leaves with comes from a state that satisfies the invariant. -/
theorem loop_invariant {I : σ → Prop} {Q : β → Prop}
    (hagain : ∀ s s', I s → body s = .ok (.again s') → I s')
    (hleave : ∀ s b, I s → body s = .ok (.leave b) → Q b)
    {fuel : ℕ} {s : σ} {b : β} (h0 : I s) (h : loop body fuel s = .ok b) : Q b := by
  induction fuel generalizing s with
  | zero => cases h
  | succ fuel ih =>
      rw [loop] at h
      cases hturn : body s with
      | error e =>
          rw [hturn] at h
          cases h
      | ok turn =>
          rw [hturn] at h
          cases turn with
          | leave c =>
              cases h
              exact hleave s _ h0 hturn
          | again s' => exact ih (hagain s s' h0 hturn) h

theorem Yields.loop_leave {s : σ} {b : β} {P : Prop} (h : Yields (body s) (.leave b) P)
    (fuel : ℕ) : Yields (loop body (fuel + 1) s) b P := by
  rcases h with h | ⟨h, hP⟩
  · exact Or.inl (Checked.loop_leave h fuel)
  · exact Or.inr ⟨by rw [loop, h], hP⟩

theorem Yields.loop_again {s s' : σ} {b : β} {fuel : ℕ} {P : Prop}
    (h : Yields (body s) (.again s') P) (hrest : Yields (loop body fuel s') b P) :
    Yields (loop body (fuel + 1) s) b P := by
  rcases h with h | ⟨h, hP⟩
  · rwa [Checked.loop_again h]
  · exact Or.inr ⟨by rw [loop, h], hP⟩

/-! ## Loops without a given number of turns -/

/-- The loop ends without a fault, in a value that satisfies `Q`. -/
def Halts (body : σ → Except Fault (Turn β σ)) (s : σ) (Q : β → Prop) : Prop :=
  ∃ fuel, Returns (loop body fuel s) Q

theorem halts_leave_iff {s : σ} {b : β} {Q : β → Prop} (h : body s = .ok (.leave b)) :
    Halts body s Q ↔ Q b := by
  constructor
  · rintro ⟨fuel, c, hc, hQ⟩
    cases fuel with
    | zero => cases hc
    | succ fuel =>
        rw [loop_leave h] at hc
        cases hc
        exact hQ
  · intro hQ
    exact ⟨1, b, loop_leave h 0, hQ⟩

/-- A turn does not change how a loop ends. -/
theorem halts_again_iff {s s' : σ} {Q : β → Prop} (h : body s = .ok (.again s')) :
    Halts body s Q ↔ Halts body s' Q := by
  constructor
  · rintro ⟨fuel, hret⟩
    cases fuel with
    | zero =>
        obtain ⟨c, hc, -⟩ := hret
        cases hc
    | succ fuel =>
        rw [loop_again h] at hret
        exact ⟨fuel, hret⟩
  · rintro ⟨fuel, hret⟩
    refine ⟨fuel + 1, ?_⟩
    rw [loop_again h]
    exact hret

theorem not_halts_of_error {s : σ} {e : Fault} {Q : β → Prop} (h : body s = .error e) :
    ¬ Halts body s Q := by
  rintro ⟨fuel, c, hc, -⟩
  cases fuel with
  | zero => cases hc
  | succ fuel =>
      rw [loop, h] at hc
      cases hc

/-- The states that a loop goes through. -/
inductive Visits (body : σ → Except Fault (Turn β σ)) (s : σ) : σ → Prop
  | start : Visits body s s
  | turn {s' s'' : σ} : Visits body s s' → body s' = .ok (.again s'') → Visits body s s''

/-- The invariant rule: what holds at the start and is kept by every turn holds
in every state that the loop goes through. -/
theorem Visits.invariant {I : σ → Prop}
    (hturn : ∀ s s', I s → body s = .ok (.again s') → I s') {s t : σ} (h : Visits body s t)
    (h0 : I s) : I t := by
  induction h with
  | start => exact h0
  | turn _ hbody ih => exact hturn _ _ ih hbody

end Lib.Checked
