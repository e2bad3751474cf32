/-
Pruning a list from its end.

A list has hits, which are to go, and stamps, and a stamp goes along with a hit
that stands right behind it. A program that looks for hits from the end of the
list and closes each gap at once is `prune`: it sees the elements in reverse
order, and it has to remember whether the one behind was a hit. What should be
left is a matter of each element and the one behind it in the list as it was,
which is `survivors`. The two agree where no stamp is a hit.
-/
import Mathlib.Data.List.Basic
import Mathlib.Data.List.Chain

set_option autoImplicit false

namespace Lib.Prune

variable {α : Type*}

/-- Each element with the one behind it, where `last` stands behind the list. -/
def withNext (last : Option α) : List α → List (α × Option α)
  | [] => []
  | x :: rest => (x, rest.head?.or last) :: withNext last rest

theorem withNext_append (last : Option α) (xs ys : List α) :
    withNext last (xs ++ ys) = withNext (ys.head?.or last) xs ++ withNext last ys := by
  induction xs with
  | nil => rfl
  | cons x xs ih =>
      rw [List.cons_append, withNext, withNext, ih, List.head?_append, Option.or_assoc,
        List.cons_append]

theorem withNext_concat (last : Option α) (xs : List α) (x : α) :
    withNext last (xs ++ [x]) = withNext (some x) xs ++ [(x, last)] := by
  rw [withNext_append]
  rfl

theorem mem_withNext_none {xs : List α} {p : α × Option α} :
    p ∈ withNext none xs ↔ ∃ before after, xs = before ++ p.1 :: after ∧ p.2 = after.head? := by
  induction xs with
  | nil => simp [withNext]
  | cons x xs ih =>
      rw [withNext, List.mem_cons, ih, Option.or_none]
      constructor
      · rintro (rfl | ⟨before, after, rfl, hnext⟩)
        · exact ⟨[], xs, rfl, rfl⟩
        · exact ⟨x :: before, after, rfl, hnext⟩
      · rintro ⟨before, after, heq, hnext⟩
        rcases before with _ | ⟨y, before⟩
        · obtain ⟨rfl, rfl⟩ := List.cons.inj heq
          exact Or.inl (Prod.ext rfl hnext)
        · obtain ⟨rfl, rfl⟩ := List.cons.inj heq
          exact Or.inr ⟨before, after, rfl, hnext⟩

variable (hit stamp : α → Bool)

/-- The elements that are no hits, and no stamps right in front of one. -/
def survivors (last : Option α) (xs : List α) : List α :=
  ((withNext last xs).filter fun p => !hit p.1 && !(stamp p.1 && p.2.any hit)).map Prod.fst

theorem survivors_concat (last : Option α) (xs : List α) (x : α) :
    survivors hit stamp last (xs ++ [x])
      = survivors hit stamp (some x) xs
        ++ if !hit x && !(stamp x && last.any hit) then [x] else [] := by
  rw [survivors, withNext_concat, List.filter_append, List.map_append, ← survivors,
    List.filter_singleton]
  cases !hit x && !(stamp x && last.any hit) <;> rfl

/-- One pass over the list read from its end: what it leaves, read the same way,
and the number of hits it met. `behindHit` tells that the element behind was one. -/
def prune (behindHit : Bool) : List α → List α × ℕ
  | [] => ([], 0)
  | x :: rest =>
      if behindHit && stamp x then prune false rest
      else if hit x then
        let result := prune true rest
        (result.1, result.2 + 1)
      else
        let result := prune false rest
        (x :: result.1, result.2)

variable {hit stamp}

/-- **Pruning is a filter on the list as it was**, and it meets all the hits. -/
theorem prune_eq_survivors (hdisjoint : ∀ x, stamp x = true → hit x = false) (last : Option α)
    (rs : List α) :
    prune hit stamp (last.any hit) rs
      = ((survivors hit stamp last rs.reverse).reverse, rs.countP hit) := by
  induction rs generalizing last with
  | nil => rfl
  | cons x rest ih =>
      have ih := ih (some x)
      rw [Option.any_some] at ih
      rw [List.reverse_cons, survivors_concat, List.reverse_append, List.countP_cons, prune]
      by_cases hgoes : (last.any hit && stamp x) = true
      · -- a stamp that goes is no hit
        rw [Bool.and_eq_true] at hgoes
        have hx := hdisjoint x hgoes.2
        rw [hx] at ih
        simp [hgoes.1, hgoes.2, hx, ih]
      · have hstays : (stamp x && last.any hit) = false := by
          rw [Bool.and_comm]
          exact Bool.eq_false_iff.mpr hgoes
        rw [if_neg hgoes, hstays]
        cases hx : hit x with
        | true =>
            rw [hx] at ih
            simp [ih]
        | false =>
            rw [hx] at ih
            simp [ih]

/-- A pass meets at least the hits that are no stamps. -/
theorem countP_le_prune (behindHit : Bool) (rs : List α) :
    rs.countP (fun x => hit x && !stamp x) ≤ (prune hit stamp behindHit rs).2 := by
  induction rs generalizing behindHit with
  | nil => exact Nat.le_refl _
  | cons x rest ih =>
      rw [List.countP_cons, prune]
      have htrue := ih true
      have hfalse := ih false
      cases behindHit <;> cases hit x <;> cases stamp x <;> simp <;> omega

/-- A pass only looks at its own elements. -/
theorem prune_congr {hit' : α → Bool} {behindHit : Bool} {rs : List α}
    (h : ∀ x ∈ rs, hit x = hit' x) : prune hit stamp behindHit rs = prune hit' stamp behindHit rs := by
  induction rs generalizing behindHit with
  | nil => rfl
  | cons x rest ih =>
      have hrest : ∀ b, prune hit stamp b rest = prune hit' stamp b rest :=
        fun b => ih fun y hy => h y (List.mem_cons_of_mem x hy)
      simp only [prune, h x List.mem_cons_self, hrest]

/-- A pass that meets no hits leaves the list as it is. -/
theorem prune_eq_self {rs : List α} (h : (prune hit stamp false rs).2 = 0) :
    (prune hit stamp false rs).1 = rs := by
  induction rs with
  | nil => rfl
  | cons x rest ih =>
      rw [prune, Bool.false_and, if_neg Bool.false_ne_true] at h ⊢
      split at h
      · exact absurd h (Nat.succ_ne_zero _)
      · next hhit =>
          rw [if_neg hhit]
          simp only
          rw [ih h]

/-- **What a pass leaves of a kind of elements**, none of which is a stamp right in
front of a hit: those that are no hits. -/
theorem filter_prune {p : α → Bool} {behindHit : Bool} {last : Option α}
    (hlast : behindHit = true → last.any hit = true) (rs : List α)
    (hstays : ∀ q ∈ withNext last rs.reverse, p q.1 = true → (stamp q.1 && q.2.any hit) = false) :
    (prune hit stamp behindHit rs).1.filter p = rs.filter fun x => p x && !hit x := by
  induction rs generalizing behindHit last with
  | nil => rfl
  | cons x rest ih =>
      rw [List.reverse_cons, withNext_concat, List.forall_mem_append,
        List.forall_mem_singleton] at hstays
      obtain ⟨hrest, hx⟩ := hstays
      rw [prune]
      split
      · next hgoes =>
          rw [Bool.and_eq_true] at hgoes
          have hp : p x = false := by
            rw [Bool.eq_false_iff]
            intro hp
            have hno := hx hp
            rw [hgoes.2, hlast hgoes.1] at hno
            exact absurd hno Bool.noConfusion
          rw [ih (fun h => absurd h Bool.noConfusion) hrest, List.filter_cons_of_neg (by simp [hp])]
      · split
        · next hhit =>
            show (prune hit stamp true rest).1.filter p = _
            rw [ih (fun _ => by rw [Option.any_some]; exact hhit) hrest,
              List.filter_cons_of_neg (by simp [hhit])]
        · next hhit =>
            show (x :: (prune hit stamp false rest).1).filter p = _
            rw [Bool.not_eq_true] at hhit
            rw [List.filter_cons, List.filter_cons, hhit, Bool.not_false, Bool.and_true,
              ih (fun h => absurd h Bool.noConfusion) hrest]

/-- A pass keeps every element of a kind that has no hits. -/
theorem countP_prune {p : α → Bool} (rs : List α) (hother : ∀ x ∈ rs, p x = true → hit x = false)
    (hstays : ∀ q ∈ withNext none rs.reverse, p q.1 = true → (stamp q.1 && q.2.any hit) = false) :
    (prune hit stamp false rs).1.countP p = rs.countP p := by
  rw [List.countP_eq_length_filter, List.countP_eq_length_filter,
    filter_prune (fun h => absurd h Bool.noConfusion) rs hstays]
  refine congrArg List.length (List.filter_congr fun x hx => ?_)
  cases hp : p x with
  | false => rfl
  | true => rw [hother x hx hp, Bool.not_false, Bool.and_true]

variable (hit stamp) in
/-- **A pass meets no other hits exactly where every stamp that is a hit stands
in front of a hit that is no stamp.** -/
theorem prune_count_eq_iff (last : Option α) (rs : List α) :
    (prune hit stamp (last.any fun x => hit x && !stamp x) rs).2
        = rs.countP (fun x => hit x && !stamp x)
      ↔ ∀ p ∈ withNext last rs.reverse, stamp p.1 = true → hit p.1 = true →
          p.2.any (fun x => hit x && !stamp x) = true := by
  induction rs generalizing last with
  | nil => simp [prune, withNext]
  | cons x rest ih =>
      have ih := ih (some x)
      rw [Option.any_some] at ih
      rw [List.reverse_cons, withNext_concat, List.countP_cons, prune]
      simp only [List.forall_mem_append, List.forall_mem_singleton, ← ih]
      have hle : rest.countP (fun x => hit x && !stamp x) ≤ (prune hit stamp true rest).2 :=
        countP_le_prune true rest
      cases hlast : last.any fun x => hit x && !stamp x with
      | true => cases hit x <;> cases stamp x <;> simp
      | false =>
          cases hit x <;> cases stamp x <;> simp
          omega

/-! ## Many passes

One pass after another for different hits is one pass for all of them, as long as no
two stamps stand in a row: then what stands behind a stamp stays there until it is
hit, and takes the stamp along whichever pass that is. -/

/-- No stamp stands in front of a stamp. -/
def Spaced (stamp : α → Bool) (xs : List α) : Prop :=
  List.IsChain (fun x y => stamp x = true → stamp y = false) xs

@[simp] theorem survivors_nil (hit stamp : α → Bool) (last : Option α) :
    survivors hit stamp last [] = [] := rfl

theorem survivors_cons (hit stamp : α → Bool) (last : Option α) (x : α) (rest : List α) :
    survivors hit stamp last (x :: rest)
      = (if !hit x && !(stamp x && (rest.head?.or last).any hit) then [x] else [])
        ++ survivors hit stamp last rest := by
  rw [survivors, withNext, List.filter_cons]
  dsimp only
  split
  · rfl
  · rfl

/-- What is no hit and no stamp survives. -/
theorem head?_survivors (last : Option α) {y : α} (rest : List α) (hhit : hit y = false)
    (hstamp : stamp y = false) : (survivors hit stamp last (y :: rest)).head? = some y := by
  rw [survivors_cons, if_pos (by simp [hhit, hstamp])]
  rfl

theorem survivors_eq_self {last : Option α} {xs : List α} (h : ∀ x ∈ xs, hit x = false)
    (hlast : last.any hit = false) : survivors hit stamp last xs = xs := by
  induction xs with
  | nil => rfl
  | cons x rest ih =>
      have hrest := fun y hy => h y (List.mem_cons_of_mem x hy)
      have hnext : (rest.head?.or last).any hit = false := by
        cases rest with
        | nil => exact hlast
        | cons y rest => exact hrest y List.mem_cons_self
      rw [survivors_cons, ih hrest, h x List.mem_cons_self, hnext, Bool.and_false]
      rfl

/-- **Two passes are one** for the hits of both. -/
theorem survivors_survivors {hit' : α → Bool} {xs : List α} (hspaced : Spaced stamp xs) :
    survivors hit' stamp none (survivors hit stamp none xs)
      = survivors (fun x => hit x || hit' x) stamp none xs := by
  induction xs with
  | nil => rfl
  | cons x rest ih =>
      have hrest := ih hspaced.tail
      rw [survivors_cons, survivors_cons (fun x => hit x || hit' x), ← hrest, Option.or_none]
      by_cases hx : hit x = true
      · simp [hx]
      · rw [Bool.not_eq_true] at hx
        by_cases hstamp : stamp x = true
        · cases rest with
          | nil => simp [hx, hstamp, survivors_cons]
          | cons y rest =>
              have hy : stamp y = false := List.IsChain.rel_head? hspaced rfl hstamp
              by_cases hhit : hit y = true
              · simp [hx, hstamp, hhit]
              · rw [Bool.not_eq_true] at hhit
                have hhead := head?_survivors none rest hhit hy
                simp [hx, hstamp, hhit, survivors_cons hit' stamp none x, hhead]
        · rw [Bool.not_eq_true] at hstamp
          simp [hx, hstamp, survivors_cons hit' stamp none x]

/-- **Any number of passes is one** for all hits, in whatever order they are made. -/
theorem foldl_survivors {κ : Type*} (hits : κ → α → Bool) {xs : List α}
    (hspaced : Spaced stamp xs) (ds : List κ) :
    ds.foldl (fun xs d => survivors (hits d) stamp none xs) xs
      = survivors (fun x => ds.any fun d => hits d x) stamp none xs := by
  induction ds using List.reverseRecOn with
  | nil => exact (survivors_eq_self (fun _ _ => rfl) rfl).symm
  | append_singleton ds d ih =>
      rw [List.foldl_append, List.foldl_cons, List.foldl_nil, ih, survivors_survivors hspaced]
      simp only [List.any_append, List.any_cons, List.any_nil, Bool.or_false]

end Lib.Prune
