/-
The highlighted row against the cursor.

The cursor is a variable of `loop_to_select`, the highlighted row is what two
functions painted. On a screen of constant size they belong together: with the
cursor in the prompt no row is highlighted, and with the cursor on a row that
shows an item this row is, and no other. Ctrl-l alone takes the cursor back to the
prompt and leaves the screen as it is.
-/
import Hstr.Loop

set_option autoImplicit false

namespace Hstr.Highlight

open Lib.Runs Hstr.Strings Hstr.Utils Hstr.Radixsort Hstr.History Hstr.Blacklist Hstr.Favorites
open Hstr.Regexp Hstr.Selection Hstr.Box Hstr.Loop

variable {R : Type}

/-- No row is highlighted. -/
def NothingHighlighted (screen : ℤ → Option SelectionRow) : Prop :=
  ∀ y text, screen y ≠ some ⟨text, true⟩

/-- The row `y` is highlighted and shows `text`, and no other row is highlighted. -/
def OnlyHighlighted (screen : ℤ → Option SelectionRow) (y : ℤ) (text : CString) : Prop :=
  screen y = some ⟨text, true⟩ ∧ ∀ y' text', screen y' = some ⟨text', true⟩ → y' = y

/-- The screen shows where the cursor is. -/
def CursorShown (hstr : Hstr R) (cursor : ℤ) (screen : ℤ → Option SelectionRow) : Prop :=
  cursor = SELECTION_CURSOR_IN_PROMPT ∧ NothingHighlighted screen
    ∨ OnItemRow cursor hstr.promptBottom hstr.promptItems hstr.selection.length
      ∧ ∃ text, getResultFromSelection hstr cursor = some text
        ∧ OnlyHighlighted screen (hstr.promptYItemsStart + cursor) text

/-- The invariant of the loop on a screen of constant size. -/
structure Shown (s : LoopState R) : Prop where
  laidOut : LaidOut s.maxy s.hstr
  cursor : CursorShown s.hstr s.selectionCursorPosition s.screen

/-! ## The cursor and the item under it -/

theorem getResultFromSelection_prompt (hstr : Hstr R) :
    getResultFromSelection hstr SELECTION_CURSOR_IN_PROMPT = none := by
  simp only [getResultFromSelection, selection_index, hstr_selection_index_prompt]
  exact if_neg (by decide)

/-- There is an item under a cursor on an item row. -/
theorem exists_getResultFromSelection {hstr : Hstr R} {cursor : ℤ}
    (h : OnItemRow cursor hstr.promptBottom hstr.promptItems hstr.selection.length) :
    ∃ text, getResultFromSelection hstr cursor = some text := by
  obtain ⟨hge, hlt⟩ := h.index
  have hbound : (selection_index hstr cursor).toNat < hstr.selection.length := by
    rw [selection_index]
    omega
  refine ⟨hstr.selection[(selection_index hstr cursor).toNat], ?_⟩
  unfold getResultFromSelection
  simp only
  rw [if_pos (by exact hge), List.getElem?_eq_getElem hbound]

/-- The cursor, the item under it and its row depend on the rows for items and
the selection. -/
theorem CursorShown.congr {h h' : Hstr R} {cursor : ℤ} {screen : ℤ → Option SelectionRow}
    (hshown : CursorShown h cursor screen) (hbottom : h'.promptBottom = h.promptBottom)
    (hitems : h'.promptItems = h.promptItems) (hstart : h'.promptYItemsStart = h.promptYItemsStart)
    (hsel : h'.selection = h.selection) : CursorShown h' cursor screen := by
  unfold CursorShown getResultFromSelection selection_index at hshown ⊢
  rw [hbottom, hitems, hstart, hsel]
  exact hshown

/-- A highlighted row is one of the rows for items. -/
theorem Shown.start_le {s : LoopState R} (h : Shown s) {y : ℤ} {text : CString}
    (hy : s.screen y = some ⟨text, true⟩) : itemsStart s.hstr ≤ y := by
  rw [← h.laidOut.promptYItemsStart]
  rcases h.cursor with ⟨-, hnothing⟩ | ⟨⟨hrows, hfirst, -⟩, -, -, -, honly⟩
  · exact absurd hy (hnothing y text)
  · have heq := honly y text hy
    -- the first item row is not above the first row for items
    split at hfirst <;> omega

/-! ## Painting -/

/-- A row that is highlighted after a row was printed is another one. -/
theorem highlighted_of_print {screen : ℤ → Option SelectionRow} {text text' : CString} {y y' : ℤ}
    (h : print_selection_row screen text y y' = some ⟨text', true⟩) :
    y' ≠ y ∧ screen y' = some ⟨text', true⟩ := by
  unfold print_selection_row at h
  by_cases heq : y' = y
  · rw [heq, Function.update_self] at h
    cases h
  · rw [Function.update_of_ne heq] at h
    exact ⟨heq, h⟩

theorem highlighted_of_highlight {screen : ℤ → Option SelectionRow} {text text' : CString}
    {y y' : ℤ} (h : hstr_print_highlighted_selection_row screen text y y' = some ⟨text', true⟩) :
    y' = y ∨ screen y' = some ⟨text', true⟩ := by
  unfold hstr_print_highlighted_selection_row at h
  by_cases heq : y' = y
  · exact Or.inl heq
  · rw [Function.update_of_ne heq] at h
    exact Or.inr h

theorem nothingHighlighted_print_row {screen : ℤ → Option SelectionRow}
    (h : NothingHighlighted screen) (text : CString) (y : ℤ) :
    NothingHighlighted (print_selection_row screen text y) :=
  fun y' text' hy' => h y' text' (highlighted_of_print hy').2

theorem nothingHighlighted_print_rows (rows : List (CString × ℕ)) (row : ℕ → ℤ)
    {screen : ℤ → Option SelectionRow} (h : NothingHighlighted screen) :
    NothingHighlighted
      (rows.foldl (fun screen (text, i) => print_selection_row screen text (row i)) screen) := by
  induction rows generalizing screen with
  | nil => exact h
  | cons r rows ih => exact ih (nothingHighlighted_print_row h r.1 (row r.2))

/-- **Printing the selection leaves no row highlighted**, where only rows for
items were. -/
theorem nothingHighlighted_print_selection (env : Env R) {s : LoopState R}
    (pattern : Option CString)
    (h : ∀ y text, s.screen y = some ⟨text, true⟩ → itemsStart s.hstr ≤ y) :
    NothingHighlighted (hstr_print_selection env s pattern).1.screen := by
  apply nothingHighlighted_print_rows
  intro y text hy
  unfold clrtobot at hy
  split at hy
  · cases hy
  · next hlt =>
      rw [recalculate_promptYItemsStart] at hlt
      exact hlt (h y text hy)

/-- Painting the row of the cursor on a screen without a highlighted row. -/
theorem cursorShown_highlight {hstr : Hstr R} {cursor : ℤ} {screen : ℤ → Option SelectionRow}
    (hnothing : NothingHighlighted screen)
    (hcursor : cursor = SELECTION_CURSOR_IN_PROMPT
      ∨ OnItemRow cursor hstr.promptBottom hstr.promptItems hstr.selection.length) :
    CursorShown hstr cursor
      (match getResultFromSelection hstr cursor with
        | some text =>
            hstr_print_highlighted_selection_row screen text (hstr.promptYItemsStart + cursor)
        | none => screen) := by
  rcases hcursor with rfl | hrow
  · rw [getResultFromSelection_prompt]
    exact Or.inl ⟨rfl, hnothing⟩
  · obtain ⟨text, htext⟩ := exists_getResultFromSelection hrow
    rw [htext]
    refine Or.inr ⟨hrow, text, htext, Function.update_self .., ?_⟩
    intro y' text' hy'
    rcases highlighted_of_highlight hy' with heq | hold
    · exact heq
    · exact absurd hold (hnothing y' text')

/-- **Moving the highlight**: the row of the old cursor is repainted, that of the
new one is highlighted. -/
theorem cursorShown_highlight_selection {s : LoopState R} {cursor previous : ℤ}
    (hshown : CursorShown s.hstr previous s.screen)
    (hcursor : cursor = SELECTION_CURSOR_IN_PROMPT
      ∨ OnItemRow cursor s.hstr.promptBottom s.hstr.promptItems s.hstr.selection.length) :
    CursorShown s.hstr cursor (highlight_selection s cursor previous).screen := by
  apply cursorShown_highlight _ hcursor
  rcases hshown with ⟨rfl, hnothing⟩ | ⟨-, text, htext, -, honly⟩
  · rw [getResultFromSelection_prompt]
    exact hnothing
  · rw [htext]
    -- the only highlighted row is the one that is printed
    intro y' text' hy'
    obtain ⟨hne, hold⟩ := highlighted_of_print hy'
    exact hne (honly y' text' hold)

/-- Keeping a cursor on its row that is on its row already changes nothing. -/
theorem keepOnSelectionRow_eq {s : LoopState R} {text : CString}
    (hrow : OnItemRow s.selectionCursorPosition s.hstr.promptBottom s.hstr.promptItems
      s.hstr.selection.length)
    (htext : getResultFromSelection s.hstr s.selectionCursorPosition = some text)
    (hshown : s.screen (s.hstr.promptYItemsStart + s.selectionCursorPosition)
      = some ⟨text, true⟩) : keepOnSelectionRow s = s := by
  have hmove : selection_cursor_move s.hstr s.selectionCursorPosition 0
      = s.selectionCursorPosition := hrow.move_zero
  simp only [keepOnSelectionRow, highlight_selection, hmove, getResultFromSelection_prompt, htext,
    hstr_print_highlighted_selection_row]
  rw [← hshown, Function.update_eq_self]

/-- Where no row is highlighted, keeping the cursor on a row highlights it. -/
theorem shown_keepOnSelectionRow {s : LoopState R} (hlaid : LaidOut s.maxy s.hstr)
    (hnothing : NothingHighlighted s.screen) : Shown (keepOnSelectionRow s) := by
  refine ⟨hlaid, ?_⟩
  simp only [keepOnSelectionRow, highlight_selection, getResultFromSelection_prompt]
  apply cursorShown_highlight hnothing
  exact (hstr_selection_cursor_move_spec s.selectionCursorPosition 0 s.hstr.promptBottom
    s.hstr.promptItems s.hstr.selection.length).imp And.left id

/-! ## A round -/

/-- On a screen of constant size a round starts in a state that shows its cursor. -/
theorem shown_ready {s : LoopState R} {e : Event} (h : Shown s)
    (hrows : e.c = KEY_RESIZE → e.rows = s.maxy) :
    Shown (ready s e) ∧ (ready s e).maxy = s.maxy := by
  have hmaxy : (ready s e).maxy = s.maxy := by
    unfold ready wgetch
    split
    · next hc => exact hrows hc
    · rfl
  refine ⟨⟨?_, ?_⟩, hmaxy⟩
  · rw [hmaxy, ready_hstr]
    exact laidOut_recalculate s.maxy s.hstr
  · rw [ready_hstr, ready_selectionCursorPosition, ready_screen]
    apply h.cursor.congr
    · rw [recalculate_promptBottom]
    · rw [recalculate_promptItems, h.laidOut.promptItems]
    · rw [recalculate_promptYItemsStart, h.laidOut.promptYItemsStart]
    · rw [recalculate_selection]

theorem laidOut_reprint (env : Env R) (s : LoopState R) :
    LaidOut (reprint env s).maxy (reprint env s).hstr := laidOut_recalculate s.maxy _

/-- Printing the selection repaints the highlighted row, also when what is
printed has changed. -/
theorem Shown.nothingHighlighted_reprint {s t : LoopState R} (h : Shown s) (env : Env R)
    (hscreen : t.screen = s.screen) (hstart : itemsStart t.hstr = itemsStart s.hstr) :
    NothingHighlighted (reprint env t).screen := by
  apply nothingHighlighted_print_selection
  intro y text hy
  rw [hstart]
  exact h.start_le (hscreen ▸ hy)

/-- The end of most handlers: the selection is printed and the cursor is taken to
the prompt. -/
theorem Shown.reprint {s t : LoopState R} (h : Shown s) (env : Env R)
    (hscreen : t.screen = s.screen) (hstart : itemsStart t.hstr = itemsStart s.hstr) :
    Shown { reprint env t with selectionCursorPosition := SELECTION_CURSOR_IN_PROMPT } :=
  ⟨laidOut_reprint env t, Or.inl ⟨rfl, h.nothingHighlighted_reprint env hscreen hstart⟩⟩

theorem shown_remove (env : Env R) (s : LoopState R) (msg : CString) (beyond : Beyond) :
    (remove_from_history_model env s msg beyond).1.screen = s.screen
      ∧ itemsStart (remove_from_history_model env s msg beyond).1.hstr = itemsStart s.hstr := by
  unfold remove_from_history_model
  split <;> exact ⟨rfl, rfl⟩

theorem shown_deleteItem (env : Env R) {s : LoopState R} {e : Event} (h : Shown s)
    (hrows : e.cc = KEY_RESIZE → e.rows = s.maxy) : Shown (deleteItem env s e) := by
  unfold deleteItem
  cases htext : getResultFromSelection s.hstr s.selectionCursorPosition with
  | none => exact ⟨h.laidOut, h.cursor⟩
  | some msg =>
      obtain ⟨maxx, hasked⟩ := confirmDelete_of_rows hrows msg
      simp only [hasked]
      unfold deleteConfirmed
      split
      · -- the command is removed from the model, and the rest is printed
        obtain ⟨hscreen, hstart⟩ := shown_remove env { s with almostDead := some msg, maxx } msg e.beyond
        exact shown_keepOnSelectionRow (laidOut_reprint env _)
          (h.nothingHighlighted_reprint env hscreen hstart)
      -- the deletion was not confirmed: the cursor and its row stay
      · rcases h.cursor with ⟨hprompt, -⟩ | ⟨hrow, text, htext', hshown, -⟩
        · rw [hprompt, getResultFromSelection_prompt] at htext
          cases htext
        · rw [keepOnSelectionRow_eq (s := { s with almostDead := some msg, maxx }) hrow htext' hshown]
          exact ⟨h.laidOut, h.cursor⟩

theorem shown_addFavorite (env : Env R) {s : LoopState R} (h : Shown s) :
    Shown (addFavorite env s) := by
  unfold addFavorite
  cases getResultFromSelection s.hstr s.selectionCursorPosition with
  | none => exact h
  | some favorite => exact h.reprint env rfl rfl

theorem shown_typeCharacter (env : Env R) {s : LoopState R} (h : Shown s) (c : ℤ) :
    Shown (typeCharacter env s c) := by
  unfold typeCharacter
  split
  · exact h.reprint env rfl rfl
  · exact h

/-- The item that a choosing key takes does not change what is on the screen. -/
theorem shown_choose_result {s : LoopState R} (h : Shown s) (fallback : Option CString) :
    Shown (choose_result s s.selectionCursorPosition fallback).1 := by
  unfold choose_result
  split
  · exact h
  · split
    · exact ⟨⟨h.laidOut.promptItems, h.laidOut.promptYItemsStart⟩, h.cursor⟩
    · exact h

/-- The terminal keeps its size, and Ctrl-l finds the cursor in the prompt. -/
def KeepsHighlight (s : LoopState R) (e : Event) : Prop :=
  (e.c = KEY_RESIZE ∨ e.cc = KEY_RESIZE → e.rows = s.maxy)
    ∧ (e.c = K_CTRL_L → s.selectionCursorPosition = SELECTION_CURSOR_IN_PROMPT)

instance (s : LoopState R) (e : Event) : Decidable (KeepsHighlight s e) := by
  unfold KeepsHighlight
  infer_instance

/-- **A round that meets the guard shows the cursor.** -/
theorem shown_step (env : Env R) {s : LoopState R} {e : Event} (h : Shown s)
    (hkeep : KeepsHighlight s e) : Shown (step env s e) := by
  by_cases hdone : s.done = true
  · rw [step_of_done hdone]
    exact h
  · rw [step_of_not_done (by simpa using hdone)]
    obtain ⟨hready, hmaxy⟩ := shown_ready h fun hc => hkeep.1 (Or.inl hc)
    -- one case for each key: most print the selection, which leaves no row highlighted
    unfold handle
    cases hkey : keyCase (keyOf s e) with
    | KEY_END => exact hready
    | KEY_DC => exact shown_deleteItem env hready fun hcc => hmaxy ▸ hkeep.1 (Or.inr hcc)
    | K_CTRL_E => exact hready.reprint env rfl rfl
    | K_CTRL_T => exact hready.reprint env rfl rfl
    | K_CTRL_SLASH => exact hready.reprint env rfl rfl
    | K_CTRL_F => exact shown_addFavorite env hready
    | KEY_RESIZE =>
        refine hready.reprint env rfl ?_
        rw [← (laidOut_recalculate (ready s e).maxy (ready s e).hstr).promptYItemsStart,
          recalculate_promptYItemsStart]
    | K_CTRL_U => exact ⟨hready.laidOut, hready.cursor⟩
    | K_CTRL_L =>
        -- the cursor is in the prompt already
        have hprompt : (ready s e).selectionCursorPosition = SELECTION_CURSOR_IN_PROMPT := by
          rw [ready_selectionCursorPosition]
          exact hkeep.2 (eq_of_keyCase_CTRL_L hkey)
        exact ⟨hready.laidOut, hprompt ▸ hready.cursor⟩
    | KEY_BACKSPACE => exact hready.reprint env rfl rfl
    | KEY_NPAGE =>
        refine ⟨hready.laidOut, cursorShown_highlight_selection hready.cursor ?_⟩
        exact (hstr_selection_cursor_move_spec _ _ _ _ _).imp And.left id
    | KEY_ENTER =>
        obtain ⟨hlaid, hcursor⟩ := shown_choose_result hready
          (if (ready s e).hstr.selection.length ≠ 0 then (ready s e).hstr.selection.head?
            else (ready s e).result)
        exact ⟨hlaid, hcursor⟩
    | KEY_LEFT =>
        obtain ⟨hlaid, hcursor⟩ := shown_choose_result hready (some (ready s e).pattern)
        exact ⟨hlaid, hcursor⟩
    | KEY_RIGHT =>
        obtain ⟨hlaid, hcursor⟩ := shown_choose_result hready (some (ready s e).pattern)
        exact ⟨hlaid, hcursor⟩
    | K_ESC => exact ⟨hready.laidOut, hready.cursor⟩
    | K_CTRL_X => exact ⟨hready.laidOut, hready.cursor⟩
    | default => exact shown_typeCharacter env hready _

theorem shown_recalculate {s : LoopState R}
    (hprompt : s.selectionCursorPosition = SELECTION_CURSOR_IN_PROMPT)
    (hnothing : NothingHighlighted s.screen) : Shown (recalculate s) :=
  ⟨laidOut_recalculate s.maxy s.hstr, Or.inl ⟨hprompt, hnothing⟩⟩

theorem shown_firstScreen (env : Env R) {s : LoopState R}
    (hprompt : s.selectionCursorPosition = SELECTION_CURSOR_IN_PROMPT)
    (hnothing : NothingHighlighted s.screen) : Shown (firstScreen env s) := by
  unfold firstScreen
  apply shown_recalculate
  · exact hprompt
  · apply nothingHighlighted_print_selection
    intro y text hy
    exact absurd hy (hnothing y text)

/-- The loop starts with the cursor in the prompt and no row highlighted. -/
theorem shown_start (env : Env R) (hstr : Hstr R) (history : HistoryItems)
    (historyState : HistoryState) (favoritesFile : Option (List Byte)) (maxy : ℤ) :
    Shown (start env hstr history historyState favoritesFile maxy) := by
  have hcleared : NothingHighlighted
      (declared hstr history historyState favoritesFile maxy env.width).screen := by
    intro y text hy
    cases hy
  unfold start
  simp only
  split
  · exact (shown_firstScreen env rfl hcleared).reprint env rfl rfl
  · exact shown_firstScreen env rfl hcleared

/-! ## What is chosen -/

/-- What a choosing key takes, and what DEL offers for deletion, is the item on
the highlighted row, and there is one such row; where no row is highlighted, ENTER
takes the first item. -/
def ChoosesHighlighted (env : Env R) (s : LoopState R) (e : Event) : Prop :=
  s.done = false →
    (∀ y text, s.screen y = some ⟨text, true⟩ →
      (∀ y' text', s.screen y' = some ⟨text', true⟩ → y' = y)
        ∧ (e.c ∈ [K_ENTER, KEY_ENTER, KEY_LEFT, KEY_RIGHT, K_TAB] →
          (step env s e).result = some text)
        ∧ (e.c = KEY_DC → (step env s e).almostDead = some text))
      ∧ (NothingHighlighted s.screen → e.c ∈ [K_ENTER, KEY_ENTER] →
        ∀ item, s.hstr.selection.head? = some item → (step env s e).result = some item)

/-- In a state that shows its cursor, the item under it is the highlighted one. -/
theorem Shown.getResultFromSelection {s : LoopState R} (h : Shown s) {y : ℤ} {text : CString}
    (hy : s.screen y = some ⟨text, true⟩) :
    Loop.getResultFromSelection s.hstr s.selectionCursorPosition = some text
      ∧ ∀ y' text', s.screen y' = some ⟨text', true⟩ → y' = y := by
  rcases h.cursor with ⟨-, hnothing⟩ | ⟨-, shown, hshown, hrow, honly⟩
  · exact absurd hy (hnothing y text)
  -- the highlighted row is the one of the cursor
  · have heq := honly y text hy
    rw [heq, hrow] at hy
    have htext : shown = text := by simpa using hy
    rw [heq, hshown, htext]
    exact ⟨rfl, honly⟩

theorem Shown.prompt {s : LoopState R} (h : Shown s) (hnothing : NothingHighlighted s.screen) :
    s.selectionCursorPosition = SELECTION_CURSOR_IN_PROMPT := by
  rcases h.cursor with ⟨hprompt, -⟩ | ⟨-, text, -, hrow, -⟩
  · exact hprompt
  · exact absurd hrow (hnothing _ text)

theorem choose_result_snd (s : LoopState R) (cursor : ℤ) (fallback : Option CString) :
    (choose_result s cursor fallback).2
      = (getResultFromSelection s.hstr cursor).or fallback := by
  unfold choose_result
  cases getResultFromSelection s.hstr cursor with
  | none => rfl
  | some chosen =>
      simp only
      split <;> rfl

/-- DEL offers the item under the cursor. -/
theorem almostDead_deleteItem (env : Env R) (s : LoopState R) (e : Event) :
    (deleteItem env s e).almostDead = getResultFromSelection s.hstr s.selectionCursorPosition := by
  unfold deleteItem
  cases getResultFromSelection s.hstr s.selectionCursorPosition with
  | none => rfl
  | some msg =>
      have hasked : (confirmDelete s e msg).almostDead = some msg := by
        rw [confirmDelete_eq]
      simp only [keepOnSelectionRow, highlight_selection, deleteConfirmed]
      split
      · -- nothing that follows the question touches it
        simp only [reprint, hstr_print_selection, remove_from_history_model]
        split <;> exact hasked
      · exact hasked

/-- A choosing key takes the item under the cursor, or a fallback: for ENTER, the
first item. -/
theorem result_choosing (env : Env R) {s : LoopState R} {e : Event}
    (hkey : e.c ∈ [K_ENTER, KEY_ENTER, KEY_LEFT, KEY_RIGHT, K_TAB]) :
    ∃ fallback,
      (handle env (ready s e) e (keyOf s e)).result
        = (getResultFromSelection (ready s e).hstr (ready s e).selectionCursorPosition).or fallback
      ∧ (e.c ∈ [K_ENTER, KEY_ENTER] → ∀ item, s.hstr.selection.head? = some item →
        fallback = some item) := by
  have hlast : ∀ {c}, e.c = c → c ≠ K_CTRL_R → keyOf s e = c := by
    rintro c rfl hne
    exact keyOf_eq s hne
  have henter : ∀ item, s.hstr.selection.head? = some item →
      (if (ready s e).hstr.selection.length ≠ 0 then (ready s e).hstr.selection.head?
        else (ready s e).result) = some item := by
    intro item hitem
    rw [ready_hstr, recalculate_selection, if_pos]
    · exact hitem
    · intro h0
      rw [List.length_eq_zero_iff.mp h0] at hitem
      cases hitem
  simp only [List.mem_cons, List.not_mem_nil, or_false] at hkey ⊢
  unfold handle
  -- ENTER has two codes, and so has RIGHT
  rcases hkey with hc | hc | hc | hc | hc
  · rw [hlast hc (by decide), (by decide : keyCase K_ENTER = .KEY_ENTER)]
    exact ⟨_, choose_result_snd .., fun _ => henter⟩
  · rw [hlast hc (by decide), (by decide : keyCase KEY_ENTER = .KEY_ENTER)]
    exact ⟨_, choose_result_snd .., fun _ => henter⟩
  · rw [hlast hc (by decide), (by decide : keyCase KEY_LEFT = .KEY_LEFT)]
    exact ⟨_, choose_result_snd .., fun h => absurd h (by rw [hc]; decide)⟩
  · rw [hlast hc (by decide), (by decide : keyCase KEY_RIGHT = .KEY_RIGHT)]
    exact ⟨_, choose_result_snd .., fun h => absurd h (by rw [hc]; decide)⟩
  · rw [hlast hc (by decide), (by decide : keyCase K_TAB = .KEY_RIGHT)]
    exact ⟨_, choose_result_snd .., fun h => absurd h (by rw [hc]; decide)⟩

theorem choosesHighlighted_of_shown (env : Env R) {s : LoopState R} {e : Event} (h : Shown s)
    (hkeep : KeepsHighlight s e) : ChoosesHighlighted env s e := by
  intro hrun
  obtain ⟨hready, -⟩ := shown_ready h fun hc => hkeep.1 (Or.inl hc)
  rw [step_of_not_done hrun]
  constructor
  · intro y text hy
    rw [← ready_screen s e] at hy
    obtain ⟨htext, honly⟩ := hready.getResultFromSelection hy
    rw [ready_screen] at honly
    refine ⟨honly, ?_, ?_⟩
    · intro hkey
      obtain ⟨fallback, hresult, -⟩ := result_choosing env (s := s) hkey
      rw [hresult, htext, Option.some_or]
    · intro hkey
      have hcase : keyCase (keyOf s e) = .KEY_DC := by
        rw [keyOf_eq s (by rw [hkey]; decide), hkey]
        decide
      unfold handle
      rw [hcase]
      exact (almostDead_deleteItem env _ e).trans htext
  · intro hnothing hkey item hitem
    obtain ⟨fallback, hresult, hfirst⟩ := result_choosing env (s := s)
      (List.subset_def.mp (by decide) hkey)
    have hprompt := hready.prompt (by rw [ready_screen]; exact hnothing)
    rw [hresult, hprompt, getResultFromSelection_prompt, Option.none_or]
    exact hfirst hkey item hitem

/-- **What is highlighted is what is chosen, as long as Ctrl-l finds the cursor in
the prompt**: for every configuration, history and pattern of the command line,
on a terminal of constant size. -/
theorem highlighted_is_chosen (env : Env R) (hstr : Hstr R) (history : HistoryItems)
    (historyState : HistoryState) (favoritesFile : Option (List Byte)) (maxy : ℤ)
    (events : List Event)
    (hkeys : Guarded (step env) KeepsHighlight
      (start env hstr history historyState favoritesFile maxy) events) :
    Guarded (step env) (ChoosesHighlighted env)
      (start env hstr history historyState favoritesFile maxy) events :=
  guarded_of_guarded (fun _ _ h hkeep => shown_step env h hkeep)
    (fun _ _ h hkeep => choosesHighlighted_of_shown env h hkeep)
    (shown_start env hstr history historyState favoritesFile maxy) hkeys

/-- Moving to the second of two items and pressing ENTER. -/
theorem highlighted_is_chosen_moved :
    Guarded (step plainEnv) (ChoosesHighlighted plainEnv) (plainStart none empty)
      [press KEY_DOWN 0 24, press KEY_DOWN 0 24, press K_ENTER 0 24] :=
  highlighted_is_chosen plainEnv _ _ _ _ _ _ ⟨by decide, by decide, by decide, trivial⟩

/-- The same with Ctrl-l before ENTER: `git` is still highlighted, and ENTER takes
`make`. -/
theorem toggle_case_leaves_highlight :
    prioritized_history_create plainEnv.shell (fun rank index length => rank + index + length)
        .SKIP (blacklist_load blacklist_init none).set (some plainState)
      = .ok (some plainItems)
    ∧ ¬ Guarded (step plainEnv) (ChoosesHighlighted plainEnv) (plainStart none empty)
      [press KEY_DOWN 0 24, press KEY_DOWN 0 24, press K_CTRL_L 0 24, press K_ENTER 0 24] := by
  refine ⟨plainItems_created, ?_⟩
  intro h
  have hchosen := ((h.2.2.2.1 (by decide)).1 4 (lit "git") (by decide)).2.1 (by decide)
  revert hchosen
  decide

end Hstr.Highlight
