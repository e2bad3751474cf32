/-
`src/hstr.c`: what stands on which row of the screen.

`recalculate_max_history_items` gives a row to the prompt and to each help label
that is shown, and the rest to the items. The row of an item is then computed
twice: `hstr_print_selection` counts up or down from one end of these rows, and
`highlight_selection` adds the cursor to the first of them. A notification goes to
a row that is computed for it, or should be.
-/
import Hstr.Cursor
import Hstr.Loop

set_option autoImplicit false

namespace Hstr.Layout

open Hstr.Strings Hstr.Utils Hstr.Selection Hstr.Cursor Hstr.Box Hstr.Loop

variable {R : Type}

/-! ## A row for everything -/

/-- The rows for items, `promptYItemsStart..promptYItemsEnd`. -/
def itemsRows (hstr : Hstr R) : List ℤ :=
  (List.range (hstr.promptYItemsEnd + 1 - hstr.promptYItemsStart).toNat).map
    fun k : ℕ => hstr.promptYItemsStart + k

/-- The rows that something stands on: the prompt, the help labels that are shown,
the items. -/
def occupiedRows (hstr : Hstr R) : List ℤ :=
  hstr.promptY :: ((if hstr.hideBasicHelp then [] else [hstr.promptYHelp])
    ++ (if hstr.hideHistoryHelp then [] else [hstr.promptYHistory]) ++ itemsRows hstr)

/-- The layout after the screen had other heights before. -/
def resized (hstr : Hstr R) (heights : List ℤ) : Hstr R :=
  heights.foldl (fun hstr n => recalculate_max_history_items n hstr) hstr

theorem mem_itemsRows {hstr : Hstr R} {y : ℤ} :
    y ∈ itemsRows hstr ↔ hstr.promptYItemsStart ≤ y ∧ y ≤ hstr.promptYItemsEnd := by
  rw [itemsRows, List.mem_map]
  constructor
  · rintro ⟨k, hk, rfl⟩
    rw [List.mem_range] at hk
    omega
  · rintro ⟨hstart, hend⟩
    refine ⟨(y - hstr.promptYItemsStart).toNat, ?_, by omega⟩
    rw [List.mem_range]
    omega

/-- The row of a help label with `k` labels between it and the edge of the screen or
the prompt. -/
def labelRow (n : ℤ) (hstr : Hstr R) (k : ℤ) : ℤ :=
  if hstr.promptBottom = hstr.helpOnOppositeSide then (if hstr.promptBottom then 0 else 1) + k
  else (if hstr.promptBottom then n - 2 else n - 1) - k

/-- The rows of a screen of `n` rows. -/
structure Rows (n : ℤ) (hstr : Hstr R) : Prop extends LaidOut n hstr where
  promptY : hstr.promptY = if hstr.promptBottom then n - 1 else 0
  promptYHelp : hstr.hideBasicHelp = false → hstr.promptYHelp = labelRow n hstr 0
  /-- The history label is behind the basic help. -/
  promptYHistory : hstr.hideHistoryHelp = false →
    hstr.promptYHistory = labelRow n hstr (if hstr.hideBasicHelp then 0 else 1)
  promptYItemsEnd : hstr.promptYItemsEnd = hstr.promptYItemsStart + hstr.promptItems - 1

/-- **Laying out gives a row to everything that is shown.** -/
theorem rows_recalculate (n : ℤ) (hstr : Hstr R) : Rows n (recalculate_max_history_items n hstr) := by
  refine ⟨laidOut_recalculate n hstr, ?_, ?_, ?_, ?_⟩ <;>
    obtain ⟨_, _, _, _, _, _, _, _, _, _, _, _, _, _, _, _, _, _, bottom, opposite, basic, history,
      _⟩ := hstr <;>
    cases bottom <;> cases opposite <;> cases basic <;> cases history <;>
    simp [recalculate_max_history_items, labelsFromTop, labelsFromBottom, labelRow]

theorem mem_occupiedRows {hstr : Hstr R} {y : ℤ} :
    y ∈ occupiedRows hstr ↔ y = hstr.promptY
      ∨ (hstr.hideBasicHelp = false ∧ y = hstr.promptYHelp)
      ∨ (hstr.hideHistoryHelp = false ∧ y = hstr.promptYHistory)
      ∨ (hstr.promptYItemsStart ≤ y ∧ y ≤ hstr.promptYItemsEnd) := by
  rw [occupiedRows, List.mem_cons, List.mem_append, List.mem_append, mem_itemsRows, or_assoc]
  cases hstr.hideBasicHelp <;> cases hstr.hideHistoryHelp <;> simp

/-- A screen of `n` rows that is covered by no more than `n` rows has each of them
once. -/
theorem nodup_of_covers {n : ℤ} {rows : List ℤ} (hlength : (rows.length : ℤ) ≤ n)
    (hcovers : ∀ y, 0 ≤ y → y < n → y ∈ rows) : rows.Nodup := by
  have hscreen : ((List.range n.toNat).map fun k : ℕ => (k : ℤ)).Nodup := by
    apply List.Nodup.map _ List.nodup_range
    intro j k hjk
    exact Int.ofNat.inj hjk
  have hsub : ((List.range n.toNat).map fun k : ℕ => (k : ℤ)) ⊆ rows := by
    intro y hy
    obtain ⟨k, hk, rfl⟩ := List.mem_map.mp hy
    rw [List.mem_range] at hk
    exact hcovers k (by omega) (by omega)
  have hperm := (List.subperm_of_subset hscreen hsub).perm_of_length_le
    (by rw [List.length_map, List.length_range]; omega)
  exact hperm.nodup_iff.mp hscreen

/-- There are as many rows as the screen has. -/
theorem Rows.length_occupiedRows {n : ℤ} {hstr : Hstr R} (h : Rows n hstr)
    (hitems : 1 ≤ hstr.promptItems) : ((occupiedRows hstr).length : ℤ) = n := by
  have hcount := h.promptItems
  have hend := h.promptYItemsEnd
  unfold helpLabels at hcount
  rw [Layout.occupiedRows, List.length_cons, List.length_append, List.length_append, itemsRows,
    List.length_map, List.length_range]
  generalize hstr.hideBasicHelp = basic, hstr.hideHistoryHelp = history at hcount ⊢
  cases basic <;> cases history <;>
    simp only [Bool.false_eq_true, if_true, if_false, List.length_cons, List.length_nil] at hcount ⊢ <;>
    omega

/-- The rows that are taken are those of the screen. -/
theorem Rows.mem_occupiedRows {n : ℤ} {hstr : Hstr R} (h : Rows n hstr)
    (hitems : 1 ≤ hstr.promptItems) (y : ℤ) : y ∈ occupiedRows hstr ↔ 0 ≤ y ∧ y < n := by
  obtain ⟨⟨hcount, hstart⟩, hprompt, hhelp, hhistory, hend⟩ := h
  unfold labelRow at hhelp hhistory
  unfold itemsStart at hstart
  unfold helpLabels at hcount hstart
  rw [Layout.mem_occupiedRows]
  -- from here on the rows are numbers, one set of equations for each layout
  generalize hstr.promptBottom = bottom, hstr.helpOnOppositeSide = opposite,
    hstr.hideBasicHelp = basic, hstr.hideHistoryHelp = history at *
  cases bottom <;> cases opposite <;> cases basic <;> cases history <;>
    simp only [Bool.false_eq_true, if_true, if_false, reduceCtorEq, forall_const,
      IsEmpty.forall_iff, false_and, true_and, false_or] at * <;>
    omega

/-- **Every row is taken once.** -/
theorem Rows.occupiedRows {n : ℤ} {hstr : Hstr R} (h : Rows n hstr) (hitems : 1 ≤ hstr.promptItems) :
    (occupiedRows hstr).Nodup ∧ ∀ y, y ∈ occupiedRows hstr ↔ 0 ≤ y ∧ y < n := by
  constructor
  · apply nodup_of_covers (le_of_eq (h.length_occupiedRows hitems))
    intro y h0 hy
    exact (h.mem_occupiedRows hitems y).mpr ⟨h0, hy⟩
  · exact h.mem_occupiedRows hitems

/-! ## The row of an item -/

/-- The variable `y` of `hstr_print_selection` in round `i` of its loop. -/
def runningRow (hstr : Hstr R) : ℕ → ℤ
  | 0 => if hstr.promptBottom then hstr.promptYItemsEnd else hstr.promptYItemsStart
  | i + 1 => if hstr.promptBottom then runningRow hstr i - 1 else runningRow hstr i + 1

/-- The loop of `hstr_print_selection` from round `i` on. -/
def printLoop (hstr : Hstr R) :
    ℕ → ℕ → ℤ → (ℤ → Option SelectionRow) → ℤ → Option SelectionRow
  | 0, _, _, screen => screen
  | rounds + 1, i, y, screen =>
      let screen :=
        match hstr.selection[i]? with
        | some text => print_selection_row screen text y
        | none => screen
      printLoop hstr rounds (i + 1) (if hstr.promptBottom then y - 1 else y + 1) screen

theorem runningRow_eq (hstr : Hstr R) (i : ℕ) : runningRow hstr i = selectionRow hstr i := by
  unfold selectionRow
  induction i with
  | zero => simp [runningRow]
  | succ i ih =>
      rw [runningRow, ih]
      push_cast
      split <;> omega

/-- The loop paints the items on the rows that it counts. -/
theorem printLoop_eq (hstr : Hstr R) (rounds : ℕ) : ∀ (i : ℕ) (screen : ℤ → Option SelectionRow),
    printLoop hstr rounds i (runningRow hstr i) screen
      = (((hstr.selection.drop i).take rounds).zipIdx i).foldl
        (fun screen (text, i) => print_selection_row screen text (selectionRow hstr i)) screen := by
  induction rounds with
  | zero =>
      intro i screen
      rfl
  | succ rounds ih =>
      intro i screen
      rw [printLoop]
      have hnext : (if hstr.promptBottom then runningRow hstr i - 1 else runningRow hstr i + 1)
          = runningRow hstr (i + 1) := rfl
      rw [hnext, ih]
      cases hitem : hstr.selection[i]? with
      | none =>
          have hlength := List.getElem?_eq_none_iff.mp hitem
          rw [List.drop_eq_nil_of_le hlength, List.drop_eq_nil_of_le (Nat.le_succ_of_le hlength),
            List.take_nil, List.take_nil]
          rfl
      | some text =>
          obtain ⟨hlength, rfl⟩ := List.getElem?_eq_some_iff.mp hitem
          rw [List.drop_eq_getElem_cons hlength, List.take_succ_cons, List.zipIdx_cons,
            List.foldl_cons, runningRow_eq]

/-- The screen behind `hstr_print_selection` is that of its loop. -/
theorem screen_print_selection (env : Env R) (s : LoopState R) (pattern : Option CString) :
    (hstr_print_selection env s pattern).1.screen
      = let hstr := (hstr_print_selection env s pattern).1.hstr
        printLoop hstr (toUnsigned hstr.promptItems) 0
          (if hstr.promptBottom then hstr.promptYItemsEnd else hstr.promptYItemsStart)
          (clrtobot s.screen hstr.promptYItemsStart) :=
  (printLoop_eq _ _ 0 _).symm

/-- A round leaves a row that is not its own. -/
theorem print_rows_of_ne (row : ℕ → ℤ) {y : ℤ} (texts : List CString) :
    ∀ (start : ℕ) (screen : ℤ → Option SelectionRow),
      (∀ i, start ≤ i → i < start + texts.length → row i ≠ y) →
      (texts.zipIdx start).foldl (fun screen (text, i) => print_selection_row screen text (row i))
        screen y = screen y := by
  induction texts with
  | nil =>
      intro start screen _
      rfl
  | cons text texts ih =>
      intro start screen hne
      rw [List.zipIdx_cons, List.foldl_cons, ih (start + 1)]
      · apply Function.update_of_ne
        exact (hne start (Nat.le_refl _) (by rw [List.length_cons]; omega)).symm
      · intro i hstart hi
        apply hne i (by omega)
        rw [List.length_cons]
        omega

/-- Rows that differ from round to round keep what is painted on them. -/
theorem print_rows_getElem {row : ℕ → ℤ} (hrow : ∀ i j, row i = row j → i = j)
    (texts : List CString) {text : CString} :
    ∀ (start k : ℕ) (screen : ℤ → Option SelectionRow), texts[k]? = some text →
      (texts.zipIdx start).foldl (fun screen (text, i) => print_selection_row screen text (row i))
        screen (row (start + k)) = some ⟨text, false⟩ := by
  induction texts with
  | nil =>
      intro start k screen hk
      cases hk
  | cons first texts ih =>
      intro start k screen hk
      rw [List.zipIdx_cons, List.foldl_cons]
      cases k with
      | zero =>
          obtain rfl := Option.some.inj hk
          rw [print_rows_of_ne row texts]
          · exact Function.update_self ..
          · intro i hstart _ hsame
            have heq := hrow i start hsame
            omega
      | succ k =>
          rw [show start + (k + 1) = start + 1 + k by omega]
          exact ih (start + 1) k _ hk

theorem selectionRow_injective (hstr : Hstr R) (i j : ℕ)
    (h : selectionRow hstr i = selectionRow hstr j) : i = j := by
  unfold selectionRow at h
  split at h <;> omega

/-- A conversion of an `int` that is not negative keeps it. -/
theorem toUnsigned_eq {n : ℤ} (h0 : 0 ≤ n) (hn : n < 2 ^ 32) : toUnsigned n = n.toNat := by
  rw [toUnsigned, Int.emod_eq_of_lt h0 hn]

/-- The item `i` is printed on the row that is highlighted for it, that of the
only cursor it is under. -/
def RowsAgree (hstr : Hstr R) (i : ℕ) : Prop :=
  ∃ cursor, (∀ c, selection_index hstr c = i ↔ c = cursor)
    ∧ runningRow hstr i = hstr.promptYItemsStart + cursor

/-- The cursor that an item is under. -/
def cursorOf (hstr : Hstr R) (i : ℕ) : ℤ :=
  if hstr.promptBottom then hstr.promptItems - i - 1 else i

theorem selection_index_eq_iff {hstr : Hstr R} {i : ℕ} (hsize : i < hstr.selection.length)
    (hitems : i < hstr.promptItems) {c : ℤ} :
    selection_index hstr c = i ↔ c = cursorOf hstr i := by
  unfold selection_index hstr_selection_index cursorOf SELECTION_CURSOR_IN_PROMPT
  cases hstr.promptBottom with
  | true =>
      simp only [if_true]
      split
      · omega
      · split <;> omega
  | false =>
      simp only [Bool.false_eq_true, if_false]
      split
      · omega
      · split <;> omega

theorem runningRow_eq_cursor {hstr : Hstr R}
    (hend : hstr.promptYItemsEnd = hstr.promptYItemsStart + hstr.promptItems - 1) (i : ℕ) :
    runningRow hstr i = hstr.promptYItemsStart + cursorOf hstr i := by
  rw [runningRow_eq, selectionRow, cursorOf, hend]
  split <;> omega

/-- The two rows of an item are one. -/
theorem rowsAgree {hstr : Hstr R} {i : ℕ} (hsize : i < hstr.selection.length)
    (hitems : i < hstr.promptItems)
    (hend : hstr.promptYItemsEnd = hstr.promptYItemsStart + hstr.promptItems - 1) :
    RowsAgree hstr i :=
  ⟨cursorOf hstr i, fun _ => selection_index_eq_iff hsize hitems, runningRow_eq_cursor hend i⟩

/-- The item on a row after the selection was printed, and after it was
highlighted. -/
theorem screens_agree (env : Env R) (s : LoopState R) (pattern : Option CString) {i : ℕ}
    {text : CString} (hn : s.maxy < 2 ^ 31)
    (htext : (hstr_print_selection env s pattern).1.hstr.selection[i]? = some text)
    (hitems : i < (hstr_print_selection env s pattern).1.hstr.promptItems) :
    let printed := (hstr_print_selection env s pattern).1
    let cursor := cursorOf printed.hstr i
    printed.screen (printed.hstr.promptYItemsStart + cursor) = some ⟨text, false⟩
      ∧ (highlight_selection printed cursor SELECTION_CURSOR_IN_PROMPT).screen
        (printed.hstr.promptYItemsStart + cursor) = some ⟨text, true⟩ := by
  have hscreen := screen_print_selection env s pattern
  have hend := (rows_recalculate s.maxy
    (hstr_make_selection env.lib s.hstr pattern s.history
      (toUnsigned s.maxHistoryItems))).promptYItemsEnd
  have hle : (hstr_print_selection env s pattern).1.hstr.promptItems ≤ s.maxy - 1 := by
    rw [hstr_print_selection_hstr, recalculate_promptItems, helpLabels]
    split <;> split <;> omega
  rw [← hstr_print_selection_hstr] at hend
  generalize (hstr_print_selection env s pattern).1 = printed at htext hitems hscreen hend hle
  obtain ⟨hsize, -⟩ := List.getElem?_eq_some_iff.mp htext
  have hindex : selection_index printed.hstr (cursorOf printed.hstr i) = i :=
    (selection_index_eq_iff hsize hitems).mpr rfl
  have hitem : getResultFromSelection printed.hstr (cursorOf printed.hstr i) = some text := by
    unfold getResultFromSelection
    rw [hindex, if_pos (Int.natCast_nonneg i), Int.toNat_natCast, htext]
  have hprompt : getResultFromSelection printed.hstr SELECTION_CURSOR_IN_PROMPT = none := by
    simp only [getResultFromSelection, selection_index, hstr_selection_index_prompt]
    exact if_neg (by decide)
  refine ⟨?_, ?_⟩
  · have hrounds : i < toUnsigned printed.hstr.promptItems := by
      rw [toUnsigned_eq (by omega) (by omega)]
      omega
    dsimp only at hscreen
    rw [hscreen, ← runningRow_eq_cursor hend, runningRow_eq]
    have hloop := printLoop_eq printed.hstr (toUnsigned printed.hstr.promptItems) 0
      (clrtobot s.screen printed.hstr.promptYItemsStart)
    rw [runningRow, List.drop_zero] at hloop
    rw [hloop]
    have hpainted := print_rows_getElem (selectionRow_injective printed.hstr)
      (printed.hstr.selection.take (toUnsigned printed.hstr.promptItems)) 0 i
      (clrtobot s.screen printed.hstr.promptYItemsStart)
      ((List.getElem?_take_of_lt hrounds).trans htext)
    rwa [Nat.zero_add] at hpainted
  · simp only [highlight_selection, hprompt, hitem]
    exact Function.update_self ..

@[simp] theorem resized_nil (hstr : Hstr R) : resized hstr [] = hstr := rfl

/-- **Printing and highlighting agree on the layout.** After any sequence of
resizes the prompt, the help labels that are shown and the items share out the
rows of the screen, and an item is printed on the row of the only cursor that it
is under. -/
theorem layout_agrees (hstr : Hstr R) (heights : List ℤ) {n : ℤ} (hn : n < 2 ^ 31)
    (hitems : 1 ≤ (recalculate_max_history_items n (resized hstr heights)).promptItems) :
    let laidOut := recalculate_max_history_items n (resized hstr heights)
    ((occupiedRows laidOut).Nodup ∧ ∀ y, y ∈ occupiedRows laidOut ↔ 0 ≤ y ∧ y < n)
      ∧ (∀ (selection : List CString) (i : ℕ), (i : ℤ) < min (selection.length : ℤ) laidOut.promptItems →
        RowsAgree { laidOut with selection } i)
      ∧ ∀ (env : Env R) (s : LoopState R) (pattern : Option CString), s.hstr = laidOut →
        s.maxy = n →
        let printed := (hstr_print_selection env s pattern).1
        ∀ (i : ℕ) (text : CString), printed.hstr.selection[i]? = some text →
          i < printed.hstr.promptItems → RowsAgree printed.hstr i
            ∧ ∀ cursor, selection_index printed.hstr cursor = i →
              printed.screen (printed.hstr.promptYItemsStart + cursor) = some ⟨text, false⟩
                ∧ (highlight_selection printed cursor SELECTION_CURSOR_IN_PROMPT).screen
                  (printed.hstr.promptYItemsStart + cursor) = some ⟨text, true⟩ := by
  have hrows := rows_recalculate n (resized hstr heights)
  refine ⟨hrows.occupiedRows hitems, ?_, ?_⟩
  · intro selection i hi
    rw [lt_min_iff] at hi
    apply rowsAgree
    · exact_mod_cast hi.1
    · exact hi.2
    · exact hrows.promptYItemsEnd
  · intro env s pattern _ hmaxy printed i text htext hi
    have hsize := (List.getElem?_eq_some_iff.mp htext).1
    refine ⟨rowsAgree hsize hi (rows_recalculate _ _).promptYItemsEnd, fun cursor hcursor => ?_⟩
    rw [(selection_index_eq_iff hsize hi).mp hcursor]
    exact screens_agree env s pattern (hmaxy ▸ hn) htext hi

/-- The box with the prompt at the bottom, the help on the opposite side and the
basic help hidden. -/
def bottomBox : Hstr (CString × Bool) :=
  hstr_get_env_configuration (hstr_init zeroed)
    (some (lit "prompt-bottom,help-on-opposite-side,hide-basic-help"))

/-- Twenty-four rows, after the screen had ten and three. -/
theorem layout_agrees_bottom :
    (occupiedRows (recalculate_max_history_items 24 (resized bottomBox [10, 3]))).Nodup
      ∧ RowsAgree { recalculate_max_history_items 24 (resized bottomBox [10, 3]) with
          selection := [lit "ls", lit "cd"] } 1 :=
  have h := layout_agrees bottomBox [10, 3] (show (24 : ℤ) < 2 ^ 31 by decide) (by decide)
  ⟨h.1.1, h.2.1 [lit "ls", lit "cd"] 1 (by decide)⟩

end Hstr.Layout
