/-
`src/hstr_selection.c`: where the cursor can go.

The cursor moves on the rows that items occupy: from the first row down, or up to
the last row where the prompt is at the bottom. `OnItemRow` is the invariant that
every move establishes, from wherever the cursor was before. On these rows line
steps go around, and a walk of line steps is told by one formula with at most one
wrap; page steps stop at the edges.
-/
import Hstr.Selection

set_option autoImplicit false

namespace Hstr.Cursor

open Hstr.Selection

/-- The rows that items occupy. -/
def itemRows (promptItems selectionSize : ℤ) : ℤ := min selectionSize promptItems

/-- The first of them. -/
def firstRow (promptBottom : Bool) (promptItems selectionSize : ℤ) : ℤ :=
  if promptBottom then promptItems - itemRows promptItems selectionSize else 0

variable (promptBottom : Bool) (promptItems selectionSize : ℤ)

/-- The cursor after some moves. -/
def walk (cursor : ℤ) (steps : List ℤ) : ℤ :=
  steps.foldl (fun cursor step =>
    hstr_selection_cursor_move cursor step promptBottom promptItems selectionSize) cursor

/-- The cursor after moving `k` times by the same step. -/
def steady (step cursor : ℤ) (k : ℕ) : ℤ :=
  walk promptBottom promptItems selectionSize cursor (List.replicate k step)

variable {promptBottom promptItems selectionSize}

theorem onItemRow_iff {cursor : ℤ} :
    OnItemRow cursor promptBottom promptItems selectionSize
      ↔ 0 < itemRows promptItems selectionSize
        ∧ firstRow promptBottom promptItems selectionSize ≤ cursor
        ∧ cursor ≤ firstRow promptBottom promptItems selectionSize
          + itemRows promptItems selectionSize - 1 := Iff.rfl

/-- The index of the item on a row. -/
theorem index_eq {cursor : ℤ} (h : OnItemRow cursor promptBottom promptItems selectionSize) :
    hstr_selection_index cursor promptBottom promptItems selectionSize
      = if promptBottom then promptItems - cursor - 1 else cursor := by
  have hprompt := h.ne_prompt
  obtain ⟨h0, h1, h2⟩ := onItemRow_iff.mp h
  unfold itemRows at h0
  rw [firstRow] at h1 h2
  unfold itemRows at h1 h2
  rw [hstr_selection_index, if_neg hprompt, if_pos]
  cases promptBottom with
  | true =>
      simp only [if_true] at h1 h2 ⊢
      omega
  | false =>
      simp only [Bool.false_eq_true, if_false] at h1 h2 ⊢
      omega

/-- The items on the rows are the first ones. -/
theorem index_range {cursor : ℤ} (h : OnItemRow cursor promptBottom promptItems selectionSize) :
    0 ≤ hstr_selection_index cursor promptBottom promptItems selectionSize
      ∧ hstr_selection_index cursor promptBottom promptItems selectionSize
        < itemRows promptItems selectionSize := by
  rw [index_eq h]
  obtain ⟨h0, h1, h2⟩ := onItemRow_iff.mp h
  rw [firstRow] at h1 h2
  cases promptBottom with
  | true =>
      simp only [if_true] at h1 h2 ⊢
      omega
  | false =>
      simp only [Bool.false_eq_true, if_false] at h1 h2 ⊢
      omega

/-! ## One move -/

/-- **Any move ends on an item row**, if there is one. -/
theorem onItemRow_move (promptBottom : Bool) (hrows : 0 < itemRows promptItems selectionSize) (cursor step : ℤ) :
    OnItemRow (hstr_selection_cursor_move cursor step promptBottom promptItems selectionSize)
      promptBottom promptItems selectionSize := by
  apply (hstr_selection_cursor_move_spec cursor step promptBottom promptItems selectionSize).resolve_left
  rintro ⟨-, hnone⟩
  exact absurd hnone (Int.not_le.mpr hrows)

theorem move_of_no_rows (hrows : itemRows promptItems selectionSize ≤ 0) (cursor step : ℤ) :
    hstr_selection_cursor_move cursor step promptBottom promptItems selectionSize
      = SELECTION_CURSOR_IN_PROMPT := if_pos hrows

/-- A move from an item row, without the cases that do not arise there. -/
theorem move_eq {cursor : ℤ} (h : OnItemRow cursor promptBottom promptItems selectionSize)
    (step : ℤ) :
    hstr_selection_cursor_move cursor step promptBottom promptItems selectionSize
      = let first := firstRow promptBottom promptItems selectionSize
        let last := first + itemRows promptItems selectionSize - 1
        if step = -1 ∨ step = 1 then
          if cursor + step < first then last
          else if cursor + step > last then first
          else cursor + step
        else if cursor + step < first then first
        else if cursor + step > last then last
        else cursor + step := by
  have hrows : ¬ min selectionSize promptItems ≤ 0 := Int.not_le.mpr (onItemRow_iff.mp h).1
  simp only [hstr_selection_cursor_move]
  rw [if_neg hrows, if_neg h.ne_prompt]
  rfl

/-- **The line steps undo each other.** -/
theorem move_line_inverse {cursor : ℤ}
    (h : OnItemRow cursor promptBottom promptItems selectionSize) {step : ℤ}
    (hstep : step = 1 ∨ step = -1) :
    hstr_selection_cursor_move
        (hstr_selection_cursor_move cursor step promptBottom promptItems selectionSize) (-step)
        promptBottom promptItems selectionSize = cursor := by
  have hrow := onItemRow_iff.mp h
  have hmoved := onItemRow_move promptBottom hrow.1 cursor step
  have hback := move_eq hmoved (-step)
  have hthere := move_eq h step
  dsimp only at hback hthere
  rw [hback]
  -- on the last row and on the first one, the step and its inverse both wrap
  rcases hstep with rfl | rfl
  · rw [if_pos (Or.inr rfl)] at hthere
    rw [if_pos (Or.inl rfl)]
    split at hthere <;> try split at hthere
    all_goals rw [hthere]; split <;> try split
    all_goals omega
  · rw [if_pos (Or.inl rfl)] at hthere
    rw [if_pos (Or.inr (by omega))]
    split at hthere <;> try split at hthere
    all_goals rw [hthere]; split <;> try split
    all_goals omega

/-- **A page step moves by a page at most, and in its direction.** -/
theorem move_page {cursor : ℤ} (h : OnItemRow cursor promptBottom promptItems selectionSize) :
    (cursor ≤ hstr_selection_cursor_move cursor PG_JUMP_SIZE promptBottom promptItems selectionSize
        ∧ hstr_selection_cursor_move cursor PG_JUMP_SIZE promptBottom promptItems selectionSize
          ≤ cursor + PG_JUMP_SIZE)
      ∧ (cursor - PG_JUMP_SIZE
          ≤ hstr_selection_cursor_move cursor (-PG_JUMP_SIZE) promptBottom promptItems selectionSize
        ∧ hstr_selection_cursor_move cursor (-PG_JUMP_SIZE) promptBottom promptItems selectionSize
          ≤ cursor) := by
  obtain ⟨h0, h1, h2⟩ := onItemRow_iff.mp h
  have hdown := move_eq h PG_JUMP_SIZE
  have hup := move_eq h (-PG_JUMP_SIZE)
  dsimp only at hdown hup
  unfold PG_JUMP_SIZE at hdown hup ⊢
  rw [if_neg (by omega)] at hdown hup
  rw [hdown, hup]
  constructor
  · split
    · omega
    · split <;> omega
  · split
    · omega
    · split <;> omega

/-! ## Walks -/

/-- **Every walk ends on an item row.** -/
theorem onItemRow_walk (promptBottom : Bool) (hrows : 0 < itemRows promptItems selectionSize)
    (cursor : ℤ) {steps : List ℤ} (hsteps : steps ≠ []) :
    OnItemRow (walk promptBottom promptItems selectionSize cursor steps)
      promptBottom promptItems selectionSize := by
  obtain ⟨steps, step, rfl⟩ := List.eq_nil_or_concat' steps |>.resolve_left hsteps
  rw [walk, List.foldl_append]
  exact onItemRow_move promptBottom hrows _ _

theorem steady_succ (step cursor : ℤ) (k : ℕ) :
    steady promptBottom promptItems selectionSize step cursor (k + 1)
      = hstr_selection_cursor_move (steady promptBottom promptItems selectionSize step cursor k) step
        promptBottom promptItems selectionSize := by
  rw [steady, walk, List.replicate_succ', List.foldl_append]
  rfl

/-- The rows of a walk down, by one formula with at most one wrap. -/
theorem steady_down {cursor : ℤ} (h : OnItemRow cursor promptBottom promptItems selectionSize)
    {k : ℕ} (hk : k ≤ itemRows promptItems selectionSize) :
    steady promptBottom promptItems selectionSize 1 cursor k
      = if cursor + k < firstRow promptBottom promptItems selectionSize
            + itemRows promptItems selectionSize then cursor + k
        else cursor + k - itemRows promptItems selectionSize := by
  obtain ⟨h0, h1, h2⟩ := onItemRow_iff.mp h
  induction k with
  | zero =>
      rw [if_pos (by omega)]
      exact (Int.add_zero cursor).symm
  | succ k ih =>
      push_cast at hk ⊢
      have hrow : OnItemRow (steady promptBottom promptItems selectionSize 1 cursor k)
          promptBottom promptItems selectionSize := by
        rw [ih (by omega), onItemRow_iff]
        split <;> omega
      have hmove := move_eq hrow 1
      dsimp only at hmove
      rw [if_pos (Or.inr rfl), ih (by omega)] at hmove
      rw [steady_succ, ih (by omega), hmove]
      split
      · rw [if_neg (by omega)]
        split
        · rw [if_neg (by omega)]
          omega
        · rw [if_pos (by omega)]
          omega
      · rw [if_neg (by omega), if_neg (by omega), if_neg (by omega)]
        omega

/-- The rows of a walk up. -/
theorem steady_up {cursor : ℤ} (h : OnItemRow cursor promptBottom promptItems selectionSize)
    {k : ℕ} (hk : k ≤ itemRows promptItems selectionSize) :
    steady promptBottom promptItems selectionSize (-1) cursor k
      = if firstRow promptBottom promptItems selectionSize ≤ cursor - k then cursor - k
        else cursor - k + itemRows promptItems selectionSize := by
  obtain ⟨h0, h1, h2⟩ := onItemRow_iff.mp h
  induction k with
  | zero =>
      rw [if_pos (by omega)]
      exact (Int.sub_zero cursor).symm
  | succ k ih =>
      push_cast at hk ⊢
      have hrow : OnItemRow (steady promptBottom promptItems selectionSize (-1) cursor k)
          promptBottom promptItems selectionSize := by
        rw [ih (by omega), onItemRow_iff]
        split <;> omega
      have hmove := move_eq hrow (-1)
      dsimp only at hmove
      rw [if_pos (Or.inl rfl), ih (by omega)] at hmove
      rw [steady_succ, ih (by omega), hmove]
      split
      · split
        · rw [if_neg (by omega)]
          omega
        · rw [if_neg (by omega), if_pos (by omega)]
          omega
      · rw [if_neg (by omega), if_neg (by omega), if_neg (by omega)]
        omega

/-- **As many line steps as there are rows go around once.** -/
theorem steady_around {cursor : ℤ} (h : OnItemRow cursor promptBottom promptItems selectionSize)
    {step : ℤ} (hstep : step = 1 ∨ step = -1) :
    steady promptBottom promptItems selectionSize step cursor
        (itemRows promptItems selectionSize).toNat = cursor := by
  obtain ⟨h0, h1, h2⟩ := onItemRow_iff.mp h
  rcases hstep with rfl | rfl
  · rw [steady_down h (by omega), if_neg (by omega)]
    omega
  · rw [steady_up h (by omega), if_neg (by omega)]
    omega

/-- **On the way each item is visited exactly once.** -/
theorem visited_once {cursor : ℤ} (h : OnItemRow cursor promptBottom promptItems selectionSize)
    {step : ℤ} (hstep : step = 1 ∨ step = -1) {index : ℤ} (hindex : 0 ≤ index)
    (hindex' : index < itemRows promptItems selectionSize) :
    ∃! k : ℕ, k < (itemRows promptItems selectionSize).toNat
      ∧ hstr_selection_index (steady promptBottom promptItems selectionSize step cursor k)
        promptBottom promptItems selectionSize = index := by
  obtain ⟨h0, h1, h2⟩ := onItemRow_iff.mp h
  -- the row of the item, and the number of steps to it
  obtain ⟨row, hrow⟩ : ∃ row, row = if promptBottom then promptItems - index - 1 else index :=
    ⟨_, rfl⟩
  have hrow1 : firstRow promptBottom promptItems selectionSize ≤ row := by
    rw [firstRow, hrow]
    split <;> omega
  have hrow2 : row ≤ firstRow promptBottom promptItems selectionSize
      + itemRows promptItems selectionSize - 1 := by
    rw [firstRow, hrow]
    split <;> omega
  have hitem : ∀ {c : ℤ}, OnItemRow c promptBottom promptItems selectionSize →
      (hstr_selection_index c promptBottom promptItems selectionSize = index ↔ c = row) := by
    intro c hc
    rw [index_eq hc, hrow]
    split <;> omega
  have hon : ∀ k : ℕ, k < (itemRows promptItems selectionSize).toNat →
      OnItemRow (steady promptBottom promptItems selectionSize step cursor k)
        promptBottom promptItems selectionSize := by
    intro k hk
    rw [onItemRow_iff]
    rcases hstep with rfl | rfl
    · rw [steady_down h (by omega)]
      split <;> omega
    · rw [steady_up h (by omega)]
      split <;> omega
  have hwalk : ∀ k : ℕ, k < (itemRows promptItems selectionSize).toNat →
      (steady promptBottom promptItems selectionSize step cursor k = row
        ↔ (k : ℤ) = if 0 ≤ step * (row - cursor) then step * (row - cursor)
          else step * (row - cursor) + itemRows promptItems selectionSize) := by
    intro k hk
    rcases hstep with rfl | rfl
    · rw [steady_down h (by omega)]
      split <;> split <;> omega
    · rw [steady_up h (by omega)]
      split <;> split <;> omega
  obtain ⟨distance, hdistance⟩ : ∃ distance : ℕ, (distance : ℤ)
      = if 0 ≤ step * (row - cursor) then step * (row - cursor)
        else step * (row - cursor) + itemRows promptItems selectionSize := by
    refine ⟨_, Int.toNat_of_nonneg ?_⟩
    rcases hstep with rfl | rfl
    · split <;> omega
    · split <;> omega
  have hlt : distance < (itemRows promptItems selectionSize).toNat := by
    rcases hstep with rfl | rfl
    · split at hdistance <;> omega
    · split at hdistance <;> omega
  refine ⟨distance, ⟨hlt, ?_⟩, ?_⟩
  · exact (hitem (hon distance hlt)).mpr ((hwalk distance hlt).mpr hdistance)
  · rintro k ⟨hk, hkindex⟩
    have hksteps := (hwalk k hk).mp ((hitem (hon k hk)).mp hkindex)
    omega

/-- **Cursor navigation.** If items are shown, every move ends on the row of a
visible item, wherever the cursor was; from such a row the line steps undo each
other and go around, and the page steps stop at the edges. If none is shown,
every move ends in the prompt. -/
theorem cursor_navigation (promptBottom : Bool) (promptItems selectionSize : ℤ) :
    (0 < itemRows promptItems selectionSize → ∀ cursor : ℤ,
        (∀ steps : List ℤ, steps ≠ [] →
          OnItemRow (walk promptBottom promptItems selectionSize cursor steps)
              promptBottom promptItems selectionSize
            ∧ 0 ≤ hstr_selection_index (walk promptBottom promptItems selectionSize cursor steps)
              promptBottom promptItems selectionSize
            ∧ hstr_selection_index (walk promptBottom promptItems selectionSize cursor steps)
              promptBottom promptItems selectionSize < itemRows promptItems selectionSize)
        ∧ (OnItemRow cursor promptBottom promptItems selectionSize →
          (∀ step : ℤ, step = 1 ∨ step = -1 →
            walk promptBottom promptItems selectionSize cursor [step, -step] = cursor
              ∧ steady promptBottom promptItems selectionSize step cursor
                (itemRows promptItems selectionSize).toNat = cursor
              ∧ ∀ index : ℤ, 0 ≤ index → index < itemRows promptItems selectionSize →
                ∃! k : ℕ, k < (itemRows promptItems selectionSize).toNat
                  ∧ hstr_selection_index
                      (steady promptBottom promptItems selectionSize step cursor k)
                    promptBottom promptItems selectionSize = index)
          ∧ (cursor ≤ walk promptBottom promptItems selectionSize cursor [PG_JUMP_SIZE]
            ∧ walk promptBottom promptItems selectionSize cursor [PG_JUMP_SIZE]
              ≤ cursor + PG_JUMP_SIZE)
          ∧ (cursor - PG_JUMP_SIZE
              ≤ walk promptBottom promptItems selectionSize cursor [-PG_JUMP_SIZE]
            ∧ walk promptBottom promptItems selectionSize cursor [-PG_JUMP_SIZE] ≤ cursor)))
      ∧ (itemRows promptItems selectionSize ≤ 0 → ∀ cursor step : ℤ,
        walk promptBottom promptItems selectionSize cursor [step] = SELECTION_CURSOR_IN_PROMPT) := by
  refine ⟨fun hrows cursor => ⟨fun steps hsteps => ?_, fun hrow => ⟨fun step hstep => ?_, ?_⟩⟩, ?_⟩
  · have hwalk := onItemRow_walk promptBottom hrows cursor hsteps
    exact ⟨hwalk, index_range hwalk⟩
  · exact ⟨move_line_inverse hrow hstep, steady_around hrow hstep,
      fun index hindex hindex' => visited_once hrow hstep hindex hindex'⟩
  · exact move_page hrow
  · exact fun hrows cursor step => move_of_no_rows hrows cursor step

end Hstr.Cursor
