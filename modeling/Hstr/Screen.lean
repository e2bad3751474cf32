/-
The rows of the screen against the selection.

`hstr_print_selection` clears the screen from the first row for items on and
prints the selection, `highlight_selection` paints one row at a time and relies on
what is there. Together they keep the screen in step with the selection over a
whole session: an item on each row for items as long as there are items, nothing
on the other rows, also after the terminal was resized. Only a resize while DEL
waits for its answer goes by without a new screen. What the other functions print on
these rows is the matter of `Hstr.ItemRows`.
-/
import Hstr.Highlight
import Hstr.Layout
import Hstr.Session

set_option autoImplicit false

namespace Hstr.Screen

open Lib.Runs Hstr.Strings Hstr.Utils Hstr.History Hstr.Favorites Hstr.Regexp Hstr.Selection
open Hstr.Box Hstr.Loop Hstr.Layout Hstr.Highlight Hstr.Session

variable {R : Type}

/-! ## The item of a row -/

/-- The number of the item that belongs on the row `y`, counted from the end of the
rows that the prompt is at. -/
def itemNumber (hstr : Hstr R) (y : ℤ) : ℤ :=
  if hstr.promptBottom then hstr.promptYItemsEnd - y else y - hstr.promptYItemsStart

/-- The item that belongs on the row `y`. -/
def itemOn (hstr : Hstr R) (y : ℤ) : Option CString :=
  if 0 ≤ itemNumber hstr y ∧ itemNumber hstr y < hstr.promptItems then
    hstr.selection[(itemNumber hstr y).toNat]?
  else none

theorem itemNumber_selectionRow (hstr : Hstr R) (i : ℕ) :
    itemNumber hstr (selectionRow hstr i) = i := by
  unfold itemNumber selectionRow
  split <;> omega

theorem selectionRow_itemNumber {hstr : Hstr R} {y : ℤ} (h : 0 ≤ itemNumber hstr y) :
    selectionRow hstr (itemNumber hstr y).toNat = y := by
  unfold itemNumber at h ⊢
  unfold selectionRow
  cases hbottom : hstr.promptBottom with
  | true =>
      rw [hbottom] at h
      simp only [if_true] at h ⊢
      omega
  | false =>
      rw [hbottom] at h
      simp only [Bool.false_eq_true, if_false] at h ⊢
      omega

/-- The rows with an item, and which. -/
theorem itemOn_eq_some_iff {hstr : Hstr R} {y : ℤ} {text : CString} :
    itemOn hstr y = some text
      ↔ ∃ i : ℕ, (i : ℤ) < hstr.promptItems ∧ y = selectionRow hstr i
        ∧ hstr.selection[i]? = some text := by
  unfold itemOn
  constructor
  · intro h
    split at h
    · next hrow =>
        refine ⟨(itemNumber hstr y).toNat, ?_, (selectionRow_itemNumber hrow.1).symm, h⟩
        rw [Int.toNat_of_nonneg hrow.1]
        exact hrow.2
    · cases h
  · rintro ⟨i, hi, rfl, htext⟩
    rw [itemNumber_selectionRow, if_pos ⟨Int.natCast_nonneg i, hi⟩, Int.toNat_natCast]
    exact htext

/-- The rows for items begin at `promptYItemsStart`. -/
theorem itemOn_of_lt {hstr : Hstr R} {y : ℤ}
    (hend : hstr.promptYItemsEnd = hstr.promptYItemsStart + hstr.promptItems - 1)
    (hy : y < hstr.promptYItemsStart) : itemOn hstr y = none := by
  unfold itemOn
  rw [if_neg]
  unfold itemNumber
  split <;> omega

/-- The item under a cursor on an item row is the one of its row. -/
theorem itemOn_cursor {hstr : Hstr R} {cursor : ℤ}
    (hend : hstr.promptYItemsEnd = hstr.promptYItemsStart + hstr.promptItems - 1)
    (h : OnItemRow cursor hstr.promptBottom hstr.promptItems hstr.selection.length) :
    itemOn hstr (hstr.promptYItemsStart + cursor) = getResultFromSelection hstr cursor := by
  have hprompt := h.ne_prompt
  obtain ⟨hge, hlt⟩ := h.index
  have hindex : selection_index hstr cursor = itemNumber hstr (hstr.promptYItemsStart + cursor) := by
    unfold selection_index hstr_selection_index itemNumber at *
    rw [if_neg hprompt] at hge hlt ⊢
    rw [hend]
    cases hbottom : hstr.promptBottom with
    | true =>
        rw [hbottom] at hge
        simp only [if_true] at hge ⊢
        split <;> omega
    | false =>
        rw [hbottom] at hge
        simp only [Bool.false_eq_true, if_false] at hge ⊢
        split <;> omega
  have hitems : itemNumber hstr (hstr.promptYItemsStart + cursor) < hstr.promptItems := by
    obtain ⟨h0, h1, h2⟩ := h
    unfold itemNumber
    rw [hend]
    cases hbottom : hstr.promptBottom with
    | true =>
        rw [hbottom] at h1
        simp only [if_true] at h1 ⊢
        omega
    | false =>
        rw [hbottom] at h1 h2
        simp only [Bool.false_eq_true, if_false] at h1 h2 ⊢
        omega
  unfold itemOn getResultFromSelection
  simp only
  rw [hindex, if_pos ⟨by rw [← hindex]; exact hge, hitems⟩, if_pos (by rw [← hindex]; exact hge)]

/-! ## Painting -/

/-- The texts on the screen. -/
def texts (screen : ℤ → Option SelectionRow) (y : ℤ) : Option CString :=
  (screen y).map SelectionRow.text

/-- The layout is that of a screen of `n` rows, which has room for the prompt and
the labels. -/
structure Placed (n : ℤ) (hstr : Hstr R) : Prop extends LaidOut n hstr where
  promptYItemsEnd : hstr.promptYItemsEnd = hstr.promptYItemsStart + hstr.promptItems - 1
  height : 3 ≤ n ∧ n < 2 ^ 31

theorem placed_recalculate {n : ℤ} (hn : 3 ≤ n ∧ n < 2 ^ 31) (hstr : Hstr R) :
    Placed n (recalculate_max_history_items n hstr) :=
  ⟨(rows_recalculate n hstr).toLaidOut, (rows_recalculate n hstr).promptYItemsEnd, hn⟩

theorem Placed.promptItems_nonneg {n : ℤ} {hstr : Hstr R} (h : Placed n hstr) :
    0 ≤ hstr.promptItems ∧ hstr.promptItems < 2 ^ 31 := by
  have hitems := h.promptItems
  have hheight := h.height
  unfold helpLabels at hitems
  split at hitems <;> split at hitems <;> omega

theorem hstr_print_selection_screen (env : Env R) (s : LoopState R) (pattern : Option CString) :
    (hstr_print_selection env s pattern).1.screen
      = let hstr := (hstr_print_selection env s pattern).1.hstr
        (hstr.selection.take (toUnsigned hstr.promptItems)).zipIdx.foldl
          (fun screen (text, i) => print_selection_row screen text (selectionRow hstr i))
          (clrtobot s.screen hstr.promptYItemsStart) := rfl

/-- **Printing the selection shows it**, on a screen with nothing above the rows for
items. -/
theorem texts_print_selection (env : Env R) {s : LoopState R} (pattern : Option CString)
    (hn : 3 ≤ s.maxy ∧ s.maxy < 2 ^ 31) (habove : ∀ y < itemsStart s.hstr, s.screen y = none)
    (y : ℤ) :
    texts (hstr_print_selection env s pattern).1.screen y
      = itemOn (hstr_print_selection env s pattern).1.hstr y := by
  have hplaced : Placed s.maxy (hstr_print_selection env s pattern).1.hstr :=
    placed_recalculate hn _
  obtain ⟨h0, hlt⟩ := hplaced.promptItems_nonneg
  have hstart : (hstr_print_selection env s pattern).1.hstr.promptYItemsStart
      = itemsStart s.hstr := recalculate_promptYItemsStart s.maxy _
  have hunsigned := toUnsigned_eq h0 (by omega)
  rw [hstr_print_selection_screen]
  generalize (hstr_print_selection env s pattern).1.hstr = hstr at *
  simp only [hunsigned]
  cases hitem : itemOn hstr y with
  | some text =>
      obtain ⟨i, hi, rfl, htext⟩ := itemOn_eq_some_iff.mp hitem
      have hpart : (hstr.selection.take hstr.promptItems.toNat)[i]? = some text := by
        rw [List.getElem?_take_of_lt (by omega)]
        exact htext
      have hprinted := print_rows_getElem (selectionRow_injective hstr) _ 0 i
        (clrtobot s.screen hstr.promptYItemsStart) hpart
      rw [Nat.zero_add] at hprinted
      unfold texts
      rw [hprinted]
      rfl
  | none =>
      -- the row is none of those that are printed
      unfold texts
      rw [print_rows_of_ne]
      · rw [Option.map_eq_none_iff]
        unfold clrtobot
        split
        · rfl
        · next hlow => exact habove y (by omega)
      · intro i _ hi hrow
        rw [Nat.zero_add, List.length_take] at hi
        obtain ⟨text, hget⟩ : ∃ text, hstr.selection[i]? = some text :=
          ⟨_, List.getElem?_eq_getElem (by omega)⟩
        have hsome := itemOn_eq_some_iff.mpr ⟨i, by omega, hrow.symm, hget⟩
        rw [hitem] at hsome
        cases hsome

/-- The cursor is in the prompt or on a row with an item. -/
def CursorPlaced (hstr : Hstr R) (cursor : ℤ) : Prop :=
  cursor = SELECTION_CURSOR_IN_PROMPT
    ∨ OnItemRow cursor hstr.promptBottom hstr.promptItems hstr.selection.length

theorem cursorPlaced_move (hstr : Hstr R) (cursor step : ℤ) :
    CursorPlaced hstr (selection_cursor_move hstr cursor step) :=
  (hstr_selection_cursor_move_spec cursor step hstr.promptBottom hstr.promptItems
    hstr.selection.length).imp And.left id

/-- Painting a row with its own text changes no text. -/
theorem texts_update {screen : ℤ → Option SelectionRow} {row : SelectionRow} {y : ℤ}
    (h : texts screen y = some row.text) :
    texts (Function.update screen y (some row)) = texts screen := by
  funext y'
  unfold texts at h ⊢
  by_cases heq : y' = y
  · rw [heq, Function.update_self, h]
    rfl
  · rw [Function.update_of_ne heq]

/-- **Highlighting paints rows with the texts they have.** -/
theorem texts_highlight_selection {s : LoopState R} {cursor previous : ℤ}
    (hend : s.hstr.promptYItemsEnd = s.hstr.promptYItemsStart + s.hstr.promptItems - 1)
    (hshown : ∀ y, texts s.screen y = itemOn s.hstr y) (hcursor : CursorPlaced s.hstr cursor)
    (hprevious : CursorPlaced s.hstr previous) :
    texts (highlight_selection s cursor previous).screen = texts s.screen := by
  -- a row that is painted shows the item under its cursor
  have hrow : ∀ {c text}, CursorPlaced s.hstr c → getResultFromSelection s.hstr c = some text →
      texts s.screen (s.hstr.promptYItemsStart + c) = some text := by
    intro c text hc htext
    rcases hc with rfl | hc
    · rw [getResultFromSelection_prompt] at htext
      cases htext
    · rw [hshown, itemOn_cursor hend hc, htext]
  unfold highlight_selection
  simp only
  -- the old row first, then the new one
  cases hold : getResultFromSelection s.hstr previous with
  | none =>
      cases hnew : getResultFromSelection s.hstr cursor with
      | none => rfl
      | some text => exact texts_update (hrow hcursor hnew)
  | some old =>
      have hfirst : texts (print_selection_row s.screen old (s.hstr.promptYItemsStart + previous))
          = texts s.screen := texts_update (hrow hprevious hold)
      cases hnew : getResultFromSelection s.hstr cursor with
      | none => exact hfirst
      | some text =>
          rw [← hfirst]
          apply texts_update
          rw [hfirst]
          exact hrow hcursor hnew

/-! ## The invariant -/

/-- The screen shows the selection. -/
structure Painted (s : LoopState R) : Prop where
  placed : Placed s.maxy s.hstr
  cursor : CursorPlaced s.hstr s.selectionCursorPosition
  shown : ∀ y, texts s.screen y = itemOn s.hstr y

/-- Above the rows for items there is nothing. -/
theorem Painted.above {s : LoopState R} (h : Painted s) (y : ℤ) (hy : y < itemsStart s.hstr) :
    s.screen y = none := by
  rw [← h.placed.promptYItemsStart] at hy
  have hnone := h.shown y
  rw [itemOn_of_lt h.placed.promptYItemsEnd hy] at hnone
  exact Option.map_eq_none_iff.mp hnone

/-- What the invariant depends on. -/
theorem Painted.congr {s s' : LoopState R} (h : Painted s)
    (hplaced : Placed s'.maxy s'.hstr) (hbottom : s'.hstr.promptBottom = s.hstr.promptBottom)
    (hitems : s'.hstr.promptItems = s.hstr.promptItems)
    (hstart : s'.hstr.promptYItemsStart = s.hstr.promptYItemsStart)
    (hsel : s'.hstr.selection = s.hstr.selection)
    (hcursor : CursorPlaced s'.hstr s'.selectionCursorPosition)
    (hscreen : texts s'.screen = texts s.screen) : Painted s' := by
  refine ⟨hplaced, hcursor, fun y => ?_⟩
  have hend : s'.hstr.promptYItemsEnd = s.hstr.promptYItemsEnd := by
    rw [hplaced.promptYItemsEnd, h.placed.promptYItemsEnd, hitems, hstart]
  rw [hscreen, h.shown]
  unfold itemOn itemNumber
  rw [hbottom, hitems, hstart, hsel, hend]

/-- A handler that leaves the layout, the selection and the screen alone. -/
theorem Painted.of_same {s s' : LoopState R} (h : Painted s) (hmaxy : s'.maxy = s.maxy)
    (hhstr : s'.hstr = s.hstr) (hscreen : texts s'.screen = texts s.screen)
    (hcursor : CursorPlaced s.hstr s'.selectionCursorPosition) : Painted s' := by
  refine h.congr ?_ ?_ ?_ ?_ ?_ ?_ hscreen
  · rw [hmaxy, hhstr]
    exact h.placed
  all_goals rw [hhstr]
  exact hcursor

/-- Printing paints the screen, whatever it showed below the first row for items. -/
theorem painted_print_selection (env : Env R) {s : LoopState R} (pattern : Option CString)
    (hn : 3 ≤ s.maxy ∧ s.maxy < 2 ^ 31) (habove : ∀ y < itemsStart s.hstr, s.screen y = none)
    (hcursor : s.selectionCursorPosition = SELECTION_CURSOR_IN_PROMPT) :
    Painted (hstr_print_selection env s pattern).1 :=
  ⟨placed_recalculate hn _, Or.inl hcursor, texts_print_selection env pattern hn habove⟩

theorem painted_reprint (env : Env R) {s : LoopState R}
    (hn : 3 ≤ s.maxy ∧ s.maxy < 2 ^ 31) (habove : ∀ y < itemsStart s.hstr, s.screen y = none) :
    Painted { reprint env s with selectionCursorPosition := SELECTION_CURSOR_IN_PROMPT } :=
  ⟨placed_recalculate hn _, Or.inl rfl, texts_print_selection env (some s.pattern) hn habove⟩

/-- Laying out again for the same height changes no row. -/
theorem Painted.recalculate {s : LoopState R} (h : Painted s) : Painted (recalculate s) := by
  apply h.congr
  · exact placed_recalculate h.placed.height s.hstr
  · rw [recalculate_hstr, recalculate_promptBottom]
  · rw [recalculate_hstr, recalculate_promptItems, h.placed.promptItems]
  · rw [recalculate_hstr, recalculate_promptYItemsStart, h.placed.promptYItemsStart]
  · rw [recalculate_hstr, recalculate_selection]
  · rw [recalculate_hstr]
    unfold CursorPlaced
    rw [recalculate_promptBottom, recalculate_promptItems, recalculate_selection,
      ← h.placed.promptItems]
    exact h.cursor
  · rfl

/-- The end of most handlers. -/
theorem Painted.reprint {s t : LoopState R} (h : Painted s) (env : Env R)
    (hmaxy : t.maxy = s.maxy) (hscreen : t.screen = s.screen)
    (hstart : itemsStart t.hstr = itemsStart s.hstr) :
    Painted { Loop.reprint env t with selectionCursorPosition := SELECTION_CURSOR_IN_PROMPT } := by
  apply painted_reprint
  · rw [hmaxy]
    exact h.placed.height
  · rw [hstart, hscreen]
    exact h.above

theorem Painted.highlight {s : LoopState R} (h : Painted s) {cursor previous : ℤ}
    (hcursor : CursorPlaced s.hstr cursor) (hprevious : CursorPlaced s.hstr previous) :
    Painted (highlight_selection { s with selectionCursorPosition := cursor } cursor previous) := by
  refine h.of_same rfl rfl ?_ hcursor
  exact texts_highlight_selection (s := { s with selectionCursorPosition := cursor })
    h.placed.promptYItemsEnd h.shown hcursor hprevious

/-! ## A round -/

/-- A resize leaves at least three rows, and it is none that goes by while DEL
waits for its answer. -/
def KeepsScreen (s : LoopState R) (e : Event) : Prop :=
  (e.c = KEY_RESIZE → 3 ≤ e.rows ∧ e.rows < 2 ^ 31) ∧ (e.cc = KEY_RESIZE → e.rows = s.maxy)

instance (s : LoopState R) (e : Event) : Decidable (KeepsScreen s e) := by
  unfold KeepsScreen
  infer_instance

/-- A round starts on a screen that shows the selection, if the key is no resize. -/
theorem Painted.ready {s : LoopState R} (h : Painted s) {e : Event} (hkey : e.c ≠ KEY_RESIZE) :
    Painted (ready s e) ∧ (Loop.ready s e).maxy = s.maxy := by
  have hmaxy : (Loop.ready s e).maxy = s.maxy := by
    unfold Loop.ready wgetch
    rw [if_neg hkey]
    rfl
  refine ⟨?_, hmaxy⟩
  unfold Loop.ready wgetch
  rw [if_neg hkey]
  exact h.recalculate

theorem Painted.deleteItem {s : LoopState R} (h : Painted s) (env : Env R) {e : Event}
    (hrows : e.cc = KEY_RESIZE → e.rows = s.maxy) : Painted (deleteItem env s e) := by
  unfold Loop.deleteItem
  cases getResultFromSelection s.hstr s.selectionCursorPosition with
  | none => exact h.of_same rfl rfl rfl h.cursor
  | some msg =>
      obtain ⟨maxx, hasked⟩ := confirmDelete_of_rows hrows msg
      simp only [hasked, keepOnSelectionRow]
      unfold deleteConfirmed
      have hprompt : ∀ hstr : Hstr R, CursorPlaced hstr SELECTION_CURSOR_IN_PROMPT :=
        fun _ => Or.inl rfl
      split
      · obtain ⟨hscreen, hstart⟩ :=
          shown_remove env { s with almostDead := some msg, maxx } msg e.beyond
        have hmaxy : (remove_from_history_model env { s with almostDead := some msg, maxx } msg
            e.beyond).1.maxy = s.maxy := by
          unfold remove_from_history_model
          split <;> rfl
        have hprinted := h.reprint env hmaxy hscreen hstart
        exact hprinted.highlight (cursorPlaced_move _ _ _) (hprompt _)
      · -- the deletion was not confirmed
        have hsame : Painted { s with almostDead := some msg, maxx } :=
          h.of_same rfl rfl rfl h.cursor
        exact hsame.highlight (cursorPlaced_move _ _ _) (hprompt _)

theorem Painted.addFavorite {s : LoopState R} (h : Painted s) (env : Env R) :
    Painted (addFavorite env s) := by
  unfold Loop.addFavorite
  cases getResultFromSelection s.hstr s.selectionCursorPosition with
  | none => exact h
  | some favorite => exact h.reprint env rfl rfl rfl

theorem Painted.typeCharacter {s : LoopState R} (h : Painted s) (env : Env R) (c : ℤ) :
    Painted (typeCharacter env s c) := by
  unfold Loop.typeCharacter
  split
  · exact h.reprint env rfl rfl rfl
  · exact h

/-- A choosing key paints nothing. -/
theorem Painted.choose_result {s : LoopState R} (h : Painted s) (cursor : ℤ)
    (fallback : Option CString) : Painted (choose_result s cursor fallback).1 := by
  unfold Loop.choose_result
  split
  · exact h
  · split
    · exact h.congr ⟨⟨h.placed.promptItems, h.placed.promptYItemsStart⟩,
        h.placed.promptYItemsEnd, h.placed.height⟩ rfl rfl rfl rfl h.cursor rfl
    · exact h

/-- **A round that meets the guard shows the selection.** -/
theorem Painted.step {s : LoopState R} (h : Painted s) (env : Env R) {e : Event}
    (hkeep : KeepsScreen s e) : Painted (step env s e) := by
  by_cases hdone : s.done = true
  · rw [step_of_done hdone]
    exact h
  · rw [step_of_not_done (by simpa using hdone)]
    by_cases hresize : e.c = KEY_RESIZE
    · -- the screen is painted anew for its new height
      have hcase : keyCase (keyOf s e) = .KEY_RESIZE := by
        rw [keyOf_eq s (by rw [hresize]; decide), hresize]
        decide
      have hmaxy : (Loop.ready s e).maxy = e.rows := by
        unfold Loop.ready wgetch
        rw [if_pos hresize]
      unfold handle
      rw [hcase]
      apply painted_reprint
      · show 3 ≤ (Loop.ready s e).maxy ∧ (Loop.ready s e).maxy < 2 ^ 31
        rw [hmaxy]
        exact hkeep.1 hresize
      · intro y hy
        rw [← (laidOut_recalculate (Loop.ready s e).maxy (Loop.ready s e).hstr).promptYItemsStart,
          recalculate_promptYItemsStart, ready_hstr,
          ← (laidOut_recalculate s.maxy s.hstr).promptYItemsStart,
          recalculate_promptYItemsStart] at hy
        show (Loop.ready s e).screen y = none
        rw [ready_screen]
        exact h.above y hy
    · obtain ⟨hready, hmaxy⟩ := h.ready hresize
      have hprompt : CursorPlaced (Loop.ready s e).hstr SELECTION_CURSOR_IN_PROMPT := Or.inl rfl
      unfold handle
      cases hkey : keyCase (keyOf s e) with
      | KEY_END => exact hready
      | KEY_DC => exact hready.deleteItem env fun hcc => hmaxy ▸ hkeep.2 hcc
      | K_CTRL_E => exact hready.reprint env rfl rfl rfl
      | K_CTRL_T => exact hready.reprint env rfl rfl rfl
      | K_CTRL_SLASH => exact hready.reprint env rfl rfl rfl
      | K_CTRL_F => exact hready.addFavorite env
      | KEY_RESIZE =>
          -- only `KEY_RESIZE` is this key
          rw [keyOf_eq_of_keyCase_ne (by simp [hkey])] at hkey
          simp only [keyCase, ite_eq_iff, reduceCtorEq, and_false, and_true, false_or,
            or_false] at hkey
          exact absurd (by tauto) hresize
      | K_CTRL_U => exact hready.of_same rfl rfl rfl hready.cursor
      | K_CTRL_L => exact hready.of_same rfl rfl rfl hprompt
      | KEY_BACKSPACE => exact hready.reprint env rfl rfl rfl
      | KEY_NPAGE => exact hready.highlight (cursorPlaced_move _ _ _) hready.cursor
      | KEY_ENTER =>
          have hchosen := hready.choose_result (Loop.ready s e).selectionCursorPosition
            (if (Loop.ready s e).hstr.selection.length ≠ 0 then
              (Loop.ready s e).hstr.selection.head? else (Loop.ready s e).result)
          exact hchosen.of_same rfl rfl rfl hchosen.cursor
      | KEY_LEFT =>
          have hchosen := hready.choose_result (Loop.ready s e).selectionCursorPosition
            (some (Loop.ready s e).pattern)
          exact hchosen.of_same rfl rfl rfl hchosen.cursor
      | KEY_RIGHT =>
          have hchosen := hready.choose_result (Loop.ready s e).selectionCursorPosition
            (some (Loop.ready s e).pattern)
          exact hchosen.of_same rfl rfl rfl hchosen.cursor
      | K_ESC => exact hready.of_same rfl rfl rfl hready.cursor
      | K_CTRL_X => exact hready.of_same rfl rfl rfl hready.cursor
      | default => exact hready.typeCharacter env _

theorem painted_firstScreen (env : Env R) (hstr : Hstr R) (history : HistoryItems)
    (historyState : HistoryState) (favoritesFile : Option (List Byte)) {maxy : ℤ}
    (hn : 3 ≤ maxy ∧ maxy < 2 ^ 31) :
    Painted (firstScreen env (declared hstr history historyState favoritesFile maxy env.width)) := by
  have hprinted : Painted (hstr_print_selection env
      (recalculate (declared hstr history historyState favoritesFile maxy env.width)) none).1 :=
    painted_print_selection env none hn (fun _ _ => rfl) rfl
  apply Painted.recalculate
  exact hprinted.of_same rfl rfl rfl hprinted.cursor

/-- The loop starts on a screen that shows the selection. -/
theorem painted_start (env : Env R) (hstr : Hstr R) (history : HistoryItems)
    (historyState : HistoryState) (favoritesFile : Option (List Byte)) {maxy : ℤ}
    (hn : 3 ≤ maxy ∧ maxy < 2 ^ 31) :
    Painted (start env hstr history historyState favoritesFile maxy) := by
  have hfirst := painted_firstScreen env hstr history historyState favoritesFile hn
  unfold start
  simp only
  split
  · exact (painted_reprint env hn hfirst.above).of_same rfl rfl rfl (Or.inl rfl)
  · exact hfirst

end Hstr.Screen
