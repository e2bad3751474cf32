/-
Ctrl-r walks through the list.

As in the search of the shell, Ctrl-r goes on to the next line: up where the prompt
is at the bottom, down where it is at the top. In both layouts the lines come in the
order of the selection, from wherever the cursor is; behind the last one that is
shown comes the first one again. So a count of keys tells which line is highlighted,
and which line Enter has the shell run.
-/
import Hstr.Handover
import Hstr.Screen

set_option autoImplicit false

namespace Hstr.Walking

open Lib.Runs Lib.Simulation Hstr.Strings Hstr.History Hstr.Regexp Hstr.Selection Hstr.Cursor Hstr.Box
open Hstr.Loop Hstr.Highlight Hstr.Screen Hstr.Stores Hstr.Handover

variable {R : Type}

/-! ## One key -/

/-- The step of Ctrl-r. -/
def nextStep (promptBottom : Bool) : ℤ := if promptBottom then -1 else 1

theorem step_keyOf {s : LoopState R} {e : Event} (h : e.c = K_CTRL_R) :
    hstr_selection_cursor_step (keyOf s e) = nextStep s.hstr.promptBottom := by
  unfold keyOf nextStep
  rw [if_pos h]
  cases s.hstr.promptBottom with
  | true => decide
  | false => decide

/-- From the prompt the cursor goes to the row next to it. -/
theorem move_prompt {promptItems selectionSize : ℤ} (promptBottom : Bool)
    (hrows : 0 < itemRows promptItems selectionSize) :
    hstr_selection_cursor_move SELECTION_CURSOR_IN_PROMPT (nextStep promptBottom) promptBottom
        promptItems selectionSize = if promptBottom then promptItems - 1 else 0 := by
  unfold itemRows at hrows
  unfold hstr_selection_cursor_move nextStep
  cases promptBottom with
  | true =>
      simp only [if_neg (Int.not_le.mpr hrows), if_true]
      omega
  | false =>
      simp only [if_neg (Int.not_le.mpr hrows), if_true, Bool.false_eq_true, if_false]
      exact if_neg (by decide)

/-- **The next line**, the first one behind the last one; from the prompt it is the
first one too. -/
theorem index_next {promptBottom : Bool} {promptItems selectionSize cursor : ℤ}
    (hrows : 0 < itemRows promptItems selectionSize)
    (hcursor : cursor = SELECTION_CURSOR_IN_PROMPT
      ∨ OnItemRow cursor promptBottom promptItems selectionSize) :
    hstr_selection_index
        (hstr_selection_cursor_move cursor (nextStep promptBottom) promptBottom promptItems
          selectionSize) promptBottom promptItems selectionSize
      = (hstr_selection_index cursor promptBottom promptItems selectionSize + 1)
        % itemRows promptItems selectionSize := by
  have hnext := onItemRow_move promptBottom hrows cursor (nextStep promptBottom)
  rw [index_eq hnext]
  rcases hcursor with rfl | hcursor
  · rw [hstr_selection_index_prompt, neg_add_cancel, Int.zero_emod, move_prompt _ hrows]
    split
    · omega
    · rfl
  · obtain ⟨h0, h1, h2⟩ := onItemRow_iff.mp hcursor
    have hmove := move_eq hcursor (nextStep promptBottom)
    have hwrap : ∀ i : ℤ, 0 ≤ i → i < itemRows promptItems selectionSize →
        (i + 1) % itemRows promptItems selectionSize
          = if i + 1 < itemRows promptItems selectionSize then i + 1 else 0 := by
      intro i hi hlt
      split
      · exact Int.emod_eq_of_lt (by omega) (by assumption)
      · have heq : i + 1 = itemRows promptItems selectionSize := by omega
        rw [heq, Int.emod_self]
    have hrange := index_range hcursor
    rw [hwrap _ hrange.1 hrange.2, index_eq hcursor, hmove]
    rw [firstRow] at h1 h2 ⊢
    unfold nextStep
    cases promptBottom with
    | true =>
        simp only [if_true, true_or] at h1 h2 ⊢
        split <;> split <;> omega
    | false =>
        simp only [Bool.false_eq_true, if_false, or_true, if_true] at h1 h2 ⊢
        split <;> split <;> omega

/-! ## A walk -/

/-- The rows on which lines are shown. -/
def shownRows (s : LoopState R) : ℤ :=
  itemRows (recalculate s).hstr.promptItems s.hstr.selection.length

/-- The number of the line under the cursor, -1 in the prompt. -/
def lineNumber (s : LoopState R) : ℤ :=
  selection_index (recalculate s).hstr s.selectionCursorPosition

theorem lineNumber_eq (s : LoopState R) :
    lineNumber s = hstr_selection_index s.selectionCursorPosition s.hstr.promptBottom
      (recalculate s).hstr.promptItems s.hstr.selection.length := by
  rw [lineNumber, selection_index, recalculate_hstr, recalculate_promptBottom,
    recalculate_selection]

theorem cursorPlaced_iff {s : LoopState R} {cursor : ℤ} :
    CursorPlaced (recalculate s).hstr cursor
      ↔ cursor = SELECTION_CURSOR_IN_PROMPT
        ∨ OnItemRow cursor s.hstr.promptBottom (recalculate s).hstr.promptItems
          s.hstr.selection.length := by
  rw [CursorPlaced, recalculate_hstr, recalculate_promptBottom, recalculate_selection]

/-- Laying out a second time leaves the rows for items where they were. -/
theorem recalculate_recalculate_promptItems (n : ℤ) (hstr : Hstr R) :
    (recalculate_max_history_items n (recalculate_max_history_items n hstr)).promptItems
      = (recalculate_max_history_items n hstr).promptItems := by
  rw [recalculate_promptItems, recalculate_promptItems, helpLabels, recalculate_hideBasicHelp,
    recalculate_hideHistoryHelp]
  rfl

/-- The state `k` keys later. -/
structure Walked (s : LoopState R) (k : ℕ) (t : LoopState R) : Prop where
  running : t.done = false
  dirty : t.dirty = s.dirty
  selection : t.hstr.selection = s.hstr.selection
  rows : shownRows t = shownRows s
  cursor : CursorPlaced (recalculate t).hstr t.selectionCursorPosition
  line : lineNumber t % shownRows s = (lineNumber s + k) % shownRows s

theorem ready_of_CTRL_R (s : LoopState R) {e : Event} (h : e.c = K_CTRL_R) :
    ready s e = recalculate s := by
  unfold Loop.ready wgetch
  rw [h, if_neg (by decide)]

/-- What Ctrl-r does. -/
theorem step_of_CTRL_R (env : Env R) {s : LoopState R} {e : Event} (hrun : s.done = false)
    (h : e.c = K_CTRL_R) :
    step env s e
      = highlight_selection
          { recalculate s with
            selectionCursorPosition := selection_cursor_move (recalculate s).hstr
              s.selectionCursorPosition (nextStep s.hstr.promptBottom) }
          (selection_cursor_move (recalculate s).hstr s.selectionCursorPosition
            (nextStep s.hstr.promptBottom)) s.selectionCursorPosition := by
  rw [step_of_not_done hrun]
  unfold handle
  rw [keyCase_keyOf_CTRL_R s h, ready_of_CTRL_R s h, step_keyOf h]
  rfl

/-- **A key goes on by one line.** -/
theorem Walked.step {s t : LoopState R} {k : ℕ} (h : Walked s k t) (env : Env R) {e : Event}
    (hrows : 0 < shownRows s) (he : e.c = K_CTRL_R) : Walked s (k + 1) (step env t e) := by
  have hitems : (recalculate (Loop.step env t e)).hstr.promptItems
      = (recalculate t).hstr.promptItems := by
    rw [step_of_CTRL_R env h.running he]
    exact recalculate_recalculate_promptItems t.maxy t.hstr
  have hselection : (Loop.step env t e).hstr.selection = t.hstr.selection := by
    rw [step_of_CTRL_R env h.running he]
    exact recalculate_selection t.maxy t.hstr
  have hbottom : (Loop.step env t e).hstr.promptBottom = t.hstr.promptBottom := by
    rw [step_of_CTRL_R env h.running he]
    exact recalculate_promptBottom t.maxy t.hstr
  have hcursor : (Loop.step env t e).selectionCursorPosition
      = hstr_selection_cursor_move t.selectionCursorPosition (nextStep t.hstr.promptBottom)
        t.hstr.promptBottom (recalculate t).hstr.promptItems t.hstr.selection.length := by
    rw [step_of_CTRL_R env h.running he]
    simp only [highlight_selection, selection_cursor_move, recalculate_hstr,
      recalculate_promptBottom, recalculate_selection]
  have hrows' : 0 < itemRows (recalculate t).hstr.promptItems t.hstr.selection.length := by
    rw [← h.rows] at hrows
    exact hrows
  refine ⟨?_, ?_, hselection.trans h.selection, ?_, ?_, ?_⟩
  · rw [step_of_CTRL_R env h.running he]
    exact h.running
  · rw [step_of_CTRL_R env h.running he]
    exact h.dirty
  · rw [← h.rows, shownRows, shownRows, hitems, hselection]
  · rw [cursorPlaced_iff, hitems, hselection, hbottom, hcursor]
    exact Or.inr (onItemRow_move _ hrows' _ _)
  · have hnext := index_next hrows' (cursorPlaced_iff.mp h.cursor)
    have hone : lineNumber (Loop.step env t e) = (lineNumber t + 1) % shownRows s := by
      rw [lineNumber_eq, lineNumber_eq, hitems, hselection, hbottom, hcursor, hnext, ← h.rows]
      rfl
    rw [hone, Int.emod_emod, ← Int.emod_add_emod, h.line, Int.emod_add_emod]
    push_cast
    rw [add_assoc]

/-- Behind a key the cursor is on a row. -/
theorem onItemRow_step {s : LoopState R} (env : Env R) {e : Event} (hrun : s.done = false)
    (hrows : 0 < shownRows s) (he : e.c = K_CTRL_R) :
    OnItemRow (step env s e).selectionCursorPosition (step env s e).hstr.promptBottom
      (step env s e).hstr.promptItems (step env s e).hstr.selection.length := by
  rw [step_of_CTRL_R env hrun he]
  simp only [highlight_selection, selection_cursor_move, recalculate_hstr,
    recalculate_selection]
  exact onItemRow_move _ hrows _ _

/-- Behind a key the line under the cursor is highlighted. -/
theorem highlighted_step {s : LoopState R} (env : Env R) {e : Event} (hrun : s.done = false)
    (he : e.c = K_CTRL_R) {line : CString}
    (hline : getResultFromSelection (step env s e).hstr (step env s e).selectionCursorPosition
      = some line) :
    (step env s e).screen
        ((step env s e).hstr.promptYItemsStart + (step env s e).selectionCursorPosition)
      = some ⟨line, true⟩ := by
  rw [step_of_CTRL_R env hrun he] at hline ⊢
  simp only [highlight_selection] at hline ⊢
  rw [hline]
  exact Function.update_self _ _ _

/-- The layout of the next round is that of the round before. -/
theorem getResultFromSelection_step {s : LoopState R} (env : Env R) {e : Event}
    (hrun : s.done = false) (he : e.c = K_CTRL_R) (cursor : ℤ) :
    getResultFromSelection (recalculate (step env s e)).hstr cursor
      = getResultFromSelection (step env s e).hstr cursor := by
  have hmaxy : (recalculate s).maxy = s.maxy := rfl
  rw [step_of_CTRL_R env hrun he]
  simp only [highlight_selection, getResultFromSelection, selection_index, recalculate_hstr, hmaxy,
    recalculate_promptBottom, recalculate_selection, recalculate_recalculate_promptItems]

/-- **A walk goes on by as many lines as it has keys.** -/
theorem walked_run {s : LoopState R} (env : Env R) (hrows : 0 < shownRows s) {k : ℕ}
    {t : LoopState R} (h : Walked s k t) {walk : List Event}
    (hwalk : ∀ e ∈ walk, e.c = K_CTRL_R) :
    Walked s (k + walk.length) (run (step env) t walk) := by
  induction walk generalizing k t with
  | nil => exact h
  | cons e walk ih =>
      have hnext := h.step env hrows (hwalk e List.mem_cons_self)
      have hrest := ih hnext fun e' he' => hwalk e' (List.mem_cons_of_mem e he')
      rw [List.length_cons, ← Nat.add_assoc, Nat.add_right_comm, run_cons]
      exact hrest

/-- The line under the cursor is the one its count of keys tells. -/
theorem Walked.getElem?_selection {s t : LoopState R} {k : ℕ} (h : Walked s k t) {line : CString}
    (hline : getResultFromSelection (recalculate t).hstr t.selectionCursorPosition = some line) :
    s.hstr.selection[((Walking.lineNumber s + k) % shownRows s).toNat]? = some line := by
  rcases cursorPlaced_iff.mp h.cursor with hprompt | hrow
  · rw [hprompt, getResultFromSelection_prompt] at hline
    cases hline
  · obtain ⟨hge, hlt⟩ := index_range hrow
    rw [← lineNumber_eq] at hge hlt
    have hrows : itemRows (recalculate t).hstr.promptItems t.hstr.selection.length = shownRows s :=
      h.rows
    rw [hrows] at hlt
    -- the number is in range, so it is its own remainder
    rw [← h.line, Int.emod_eq_of_lt hge hlt, ← h.selection]
    unfold getResultFromSelection at hline
    simp only at hline
    rw [if_pos (by exact hge), recalculate_hstr, recalculate_selection] at hline
    exact hline

/-- The line on which a walk ends is highlighted. -/
theorem exists_line_of_walk {s : LoopState R} (env : Env R) (hrun : s.done = false)
    (hcursor : CursorPlaced (recalculate s).hstr s.selectionCursorPosition)
    (hrows : 0 < shownRows s) {walk : List Event} (hne : walk ≠ [])
    (hwalk : ∀ e ∈ walk, e.c = K_CTRL_R) :
    ∃ line, Walked s walk.length (run (step env) s walk)
      ∧ getResultFromSelection (recalculate (run (step env) s walk)).hstr
          (run (step env) s walk).selectionCursorPosition = some line
      ∧ (run (step env) s walk).screen
          ((run (step env) s walk).hstr.promptYItemsStart
            + (run (step env) s walk).selectionCursorPosition) = some ⟨line, true⟩ := by
  have hstart : Walked s 0 s := ⟨hrun, rfl, rfl, rfl, hcursor, by rw [Nat.cast_zero, add_zero]⟩
  have hwalked := walked_run env hrows hstart hwalk
  rw [Nat.zero_add] at hwalked
  obtain ⟨pre, e, rfl⟩ := (List.eq_nil_or_concat' walk).resolve_left hne
  have hpre := walked_run env hrows hstart fun e' he' => hwalk e' (List.mem_append_left _ he')
  have he : e.c = K_CTRL_R := hwalk e (List.mem_append_right _ (List.mem_singleton_self e))
  rw [run_append, run_cons, run_nil] at hwalked ⊢
  generalize run (step env) s pre = t at hwalked hpre ⊢
  have hrowsBefore : 0 < shownRows t := by
    rw [hpre.rows]
    exact hrows
  obtain ⟨line, hline⟩ :=
    exists_getResultFromSelection (onItemRow_step env hpre.running hrowsBefore he)
  have hlaid := getResultFromSelection_step env hpre.running he
    (step env t e).selectionCursorPosition
  exact ⟨line, hwalked, hlaid.trans hline, highlighted_step env hpre.running he hline⟩

/-! ## The line that is run -/

theorem step_enter_done (env : Env R) {s : LoopState R} {e : Event} (hrun : s.done = false)
    (he : e.c = K_ENTER ∨ e.c = KEY_ENTER) :
    keyCase (keyOf s e) = .KEY_ENTER ∧ (step env s e).done = true := by
  have hkey : keyCase (keyOf s e) = .KEY_ENTER := by
    rcases he with hc | hc <;> rw [keyOf_eq s (by rw [hc]; decide), hc] <;> decide
  refine ⟨hkey, ?_⟩
  rw [step_of_not_done hrun]
  unfold handle
  rw [hkey]

/-- **Ctrl-r walks through the list.** In every state of the loop in which lines are
shown, on a terminal that is resized to three rows or more at will, but not while DEL
waits for its answer, `n` times Ctrl-r highlights the line that is `n` lines behind the
one under the cursor, or the `n`-th one where the cursor is in the prompt, counted
around the lines that are shown; and Enter has the shell run that line. -/
theorem ctrl_r_walks (env : Env R) (is_tiocsti : Bool) (hstr : Hstr R) (history : HistoryItems)
    (historyState : HistoryState) (favoritesFile : Option (List Byte)) (maxy : ℤ)
    (hn : 3 ≤ maxy ∧ maxy < 2 ^ 31) (events walk : List Event) (enter : Event)
    (hkeys : Guarded (step env) KeepsScreen
      (start env hstr history historyState favoritesFile maxy) events) {s : LoopState R}
    (hs : s = loop_to_select env hstr history historyState favoritesFile maxy events)
    (hrun : s.done = false) (hrows : 0 < shownRows s) (hne : walk ≠ [])
    (hwalk : ∀ e ∈ walk, e.c = K_CTRL_R)
    (henter : enter.c = K_ENTER ∨ enter.c = KEY_ENTER) :
    ∃ line, s.hstr.selection[((lineNumber s + walk.length) % shownRows s).toNat]? = some line
      ∧ (run (step env) s walk).screen
          ((run (step env) s walk).hstr.promptYItemsStart
            + (run (step env) s walk).selectionCursorPosition) = some ⟨line, true⟩
      ∧ finish env is_tiocsti (run (step env) s (walk ++ [enter]))
        = sent is_tiocsti (.execute line) (reload env s.dirty) := by
  have hpainted : Painted s := by
    rw [hs]
    exact (always_of_guarded (fun _ _ h hkeep => h.step env hkeep)
      (painted_start env hstr history historyState favoritesFile hn) hkeys).last
  obtain ⟨line, hwalked, hline, hscreen⟩ :=
    exists_line_of_walk env hrun hpainted.recalculate.cursor hrows hne hwalk
  refine ⟨line, hwalked.getElem?_selection hline, hscreen, ?_⟩
  have hwaiting : Waiting (run (step env) s walk) := by
    have hstart := waiting_start env hstr history historyState favoritesFile maxy
    have hfirst := hwalked.running
    rw [hs, loop_to_select, ← run_append] at hfirst ⊢
    exact waiting_run hstart hfirst
  obtain ⟨hkey, hlast⟩ := step_enter_done env hwalked.running henter
  rw [run_append, run_cons, run_nil, finish_of_last hwaiting hwalked.running hlast, hwalked.dirty]
  have hcurrent : current (run (step env) s walk) enter = some line := by
    rw [current, ready_hstr]
    exact hline
  have horder : Handover.orderOf env (run (step env) s walk) enter = .execute line := by
    unfold Handover.orderOf
    rw [hkey]
    simp only [hcurrent, Option.some_or, Option.elim_some]
  rw [horder, hkey]
  simp

/-- The box with the prompt at the bottom of 24 rows, for three commands. -/
def bottomPrompt (events : List Event) : LoopState (CString × Bool) :=
  loop_to_select plainEnv
    (hstr_get_env_configuration (hstr_init zeroed) (some (lit "prompt-bottom")))
    ⟨[lit "git push", lit "make", lit "cp a b"], [], []⟩ ⟨[], 0, List.nodup_nil⟩ none 24 events

/-- Typing `p` and pressing Ctrl-r three times goes around the two lines with a `p`. -/
theorem ctrl_r_walks_bottom :
    ∃ line, (bottomPrompt [press 112 0 24]).hstr.selection[((lineNumber (bottomPrompt [press 112 0 24])
          + (3 : ℕ)) % shownRows (bottomPrompt [press 112 0 24])).toNat]? = some line
      ∧ (run (step plainEnv) (bottomPrompt [press 112 0 24])
            [press K_CTRL_R 0 24, press K_CTRL_R 0 24, press K_CTRL_R 0 24]).screen
          ((run (step plainEnv) (bottomPrompt [press 112 0 24])
              [press K_CTRL_R 0 24, press K_CTRL_R 0 24, press K_CTRL_R 0 24]).hstr.promptYItemsStart
            + (run (step plainEnv) (bottomPrompt [press 112 0 24])
              [press K_CTRL_R 0 24, press K_CTRL_R 0 24, press K_CTRL_R 0 24]).selectionCursorPosition)
        = some ⟨line, true⟩
      ∧ finish plainEnv true (run (step plainEnv) (bottomPrompt [press 112 0 24])
          ([press K_CTRL_R 0 24, press K_CTRL_R 0 24, press K_CTRL_R 0 24] ++ [press K_ENTER 0 24]))
        = sent true (.execute line) (reload plainEnv (bottomPrompt [press 112 0 24]).dirty) :=
  ctrl_r_walks plainEnv true
    (hstr_get_env_configuration (hstr_init zeroed) (some (lit "prompt-bottom"))) _ _ none 24
    (by decide) [press 112 0 24] [press K_CTRL_R 0 24, press K_CTRL_R 0 24, press K_CTRL_R 0 24]
    (press K_ENTER 0 24) ⟨by decide, trivial⟩ rfl (by decide) (by decide) (by decide) (by decide)
    (Or.inl rfl)

end Hstr.Walking
