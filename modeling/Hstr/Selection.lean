/-
`src/hstr_selection.c`: the selected lines and the cursor among them.

The cursor is a row of the screen, counted from the first row for items, or
`SELECTION_CURSOR_IN_PROMPT`. It is not an index into the selection: with the
prompt at the bottom the first item is on the last row.
-/
import Hstr.Strings
import Mathlib.Order.Defs.LinearOrder
import Mathlib.Data.Int.Order.Basic

set_option autoImplicit false

namespace Hstr.Selection

open Hstr.Strings

def SELECTION_CURSOR_IN_PROMPT : ℤ := -1

def PG_JUMP_SIZE : ℤ := 10

/-! ## Key codes

The codes of the terminal, and those of curses from `KEY_DOWN` on. -/

def K_CTRL_E : ℤ := 5
def K_CTRL_F : ℤ := 6
def K_CTRL_G : ℤ := 7
def K_CTRL_H : ℤ := 8
def K_TAB : ℤ := 9
def K_CTRL_J : ℤ := 10
def K_CTRL_K : ℤ := 11
def K_CTRL_L : ℤ := 12
def K_ENTER : ℤ := 13
def K_CTRL_N : ℤ := 14
def K_CTRL_P : ℤ := 16
def K_CTRL_R : ℤ := 18
def K_CTRL_T : ℤ := 20
def K_CTRL_U : ℤ := 21
def K_CTRL_W : ℤ := 23
def K_CTRL_X : ℤ := 24
def K_CTRL_Z : ℤ := 26
def K_ESC : ℤ := 27
def K_CTRL_SLASH : ℤ := 31
def K_BACKSPACE : ℤ := 127
def KEY_DOWN : ℤ := 258
def KEY_UP : ℤ := 259
def KEY_LEFT : ℤ := 260
def KEY_RIGHT : ℤ := 261
def KEY_HOME : ℤ := 262
def KEY_BACKSPACE : ℤ := 263
def KEY_DC : ℤ := 330
def KEY_NPAGE : ℤ := 338
def KEY_PPAGE : ℤ := 339
def KEY_ENTER : ℤ := 343
def KEY_END : ℤ := 360
def KEY_RESIZE : ℤ := 410

/-! ## Lines and cursor -/

/-- `hstr_selection_add` on the elements `selection[0..*selectionSize)` of an
array with `capacity` of them. -/
def hstr_selection_add (selection : List CString) (capacity : ℕ) (line : CString)
    (noDuplicates : Bool) : List CString :=
  if selection.length ≥ capacity then selection
  else if noDuplicates && selection.contains line then selection
  else selection ++ [line]

def hstr_selection_cursor_step (key : ℤ) : ℤ :=
  if key = KEY_UP ∨ key = K_CTRL_K ∨ key = K_CTRL_P then -1
  else if key = KEY_DOWN ∨ key = K_CTRL_J ∨ key = K_CTRL_N then 1
  else if key = KEY_PPAGE then -PG_JUMP_SIZE
  else if key = KEY_NPAGE then PG_JUMP_SIZE
  else 0

/-- `hstr_selection_index`: the index of the item under the cursor, -1 if there
is none. -/
def hstr_selection_index (cursor : ℤ) (promptBottom : Bool) (promptItems selectionSize : ℤ) : ℤ :=
  if cursor = SELECTION_CURSOR_IN_PROMPT then -1
  else
    let index := if promptBottom then promptItems - cursor - 1 else cursor
    if index ≥ 0 ∧ index < selectionSize then index else -1

def hstr_selection_cursor_move (cursor step : ℤ) (promptBottom : Bool)
    (promptItems selectionSize : ℤ) : ℤ :=
  let rows := min selectionSize promptItems
  if rows ≤ 0 then SELECTION_CURSOR_IN_PROMPT
  else
    let first := if promptBottom then promptItems - rows else 0
    let last := first + rows - 1
    if cursor = SELECTION_CURSOR_IN_PROMPT then
      if step = -1 then last else first
    else
      let moved := cursor + step
      if step = -1 ∨ step = 1 then
        if moved < first then last
        else if moved > last then first
        else moved
      else if moved < first then first
      else if moved > last then last
      else moved

/-- The cursor is on a row that an item occupies. -/
def OnItemRow (cursor : ℤ) (promptBottom : Bool) (promptItems selectionSize : ℤ) : Prop :=
  let rows := min selectionSize promptItems
  let first := if promptBottom then promptItems - rows else 0
  0 < rows ∧ first ≤ cursor ∧ cursor ≤ first + rows - 1

/-- A move ends on an item row; where there is none, it ends in the prompt. -/
theorem hstr_selection_cursor_move_spec (cursor step : ℤ) (promptBottom : Bool)
    (promptItems selectionSize : ℤ) :
    let moved := hstr_selection_cursor_move cursor step promptBottom promptItems selectionSize
    moved = SELECTION_CURSOR_IN_PROMPT ∧ min selectionSize promptItems ≤ 0
      ∨ OnItemRow moved promptBottom promptItems selectionSize := by
  simp only [hstr_selection_cursor_move, OnItemRow]
  by_cases hrows : min selectionSize promptItems ≤ 0
  · rw [if_pos hrows]
    exact Or.inl ⟨rfl, hrows⟩
  · rw [if_neg hrows]
    refine Or.inr ⟨by omega, ?_⟩
    generalize (if promptBottom = true then promptItems - min selectionSize promptItems else 0)
      = first
    -- every branch clamps to the first and the last row
    split
    · split <;> omega
    · split
      · split
        · omega
        · split <;> omega
      · split
        · omega
        · split <;> omega

/-- On an item row the cursor is not in the prompt. -/
theorem OnItemRow.ne_prompt {cursor promptItems selectionSize : ℤ} {promptBottom : Bool}
    (h : OnItemRow cursor promptBottom promptItems selectionSize) :
    cursor ≠ SELECTION_CURSOR_IN_PROMPT := by
  obtain ⟨h0, h1, -⟩ := h
  unfold SELECTION_CURSOR_IN_PROMPT
  split at h1 <;> omega

/-- An item row shows an item of the selection. -/
theorem OnItemRow.index {cursor promptItems selectionSize : ℤ} {promptBottom : Bool}
    (h : OnItemRow cursor promptBottom promptItems selectionSize) :
    0 ≤ hstr_selection_index cursor promptBottom promptItems selectionSize
      ∧ hstr_selection_index cursor promptBottom promptItems selectionSize < selectionSize := by
  have hprompt := h.ne_prompt
  obtain ⟨h0, h1, h2⟩ := h
  unfold hstr_selection_index
  rw [if_neg hprompt]
  -- the items go from the last row up, or from the first row down
  cases promptBottom with
  | true =>
      simp only [if_true] at h1 h2 ⊢
      rw [if_pos (by omega)]
      omega
  | false =>
      simp only [if_false, Bool.false_eq_true] at h1 h2 ⊢
      rw [if_pos (by omega)]
      omega

/-- Moving by no row leaves the cursor on its item row. -/
theorem OnItemRow.move_zero {cursor promptItems selectionSize : ℤ} {promptBottom : Bool}
    (h : OnItemRow cursor promptBottom promptItems selectionSize) :
    hstr_selection_cursor_move cursor 0 promptBottom promptItems selectionSize = cursor := by
  have hprompt := h.ne_prompt
  obtain ⟨h0, h1, h2⟩ := h
  simp only [hstr_selection_cursor_move]
  generalize (if promptBottom = true then promptItems - min selectionSize promptItems else 0)
    = first at *
  rw [if_neg (by omega), if_neg hprompt, if_neg (by omega), if_neg (by omega), if_neg (by omega)]
  omega

@[simp] theorem hstr_selection_index_prompt (promptBottom : Bool)
    (promptItems selectionSize : ℤ) :
    hstr_selection_index SELECTION_CURSOR_IN_PROMPT promptBottom promptItems selectionSize = -1 :=
  if_pos rfl

end Hstr.Selection
