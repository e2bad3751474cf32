/-
The rows for items, with everything that the loop prints.

`Hstr.Screen` follows the functions that paint items. The prompt, the labels and the
notifications are printed on the same screen, each on rows of its own as long as the
layout has one for it. Where the basic help is hidden, notifications go to the top row
of the screen, and in some layouts that is a row for items: what is printed there stays
until the selection is printed again. In all other layouts the rows for items show the
selection and nothing else, whatever is printed around them.
-/
import Hstr.Display
import Hstr.Window

set_option autoImplicit false

namespace Hstr.ItemRows

open Lib.Runs Lib.Utf8 Hstr.Strings Hstr.Utils Hstr.History Hstr.Favorites Hstr.Selection
open Hstr.Columns Hstr.ElideText Hstr.Box Hstr.Loop Hstr.Layout Hstr.Notification Hstr.Screen
open Hstr.Session Hstr.LineEditor Hstr.Stores Hstr.Painting Hstr.Display Hstr.Window
open Hstr.Labels (historyLabel)

variable {R : Type}

/-! ## The rows of the others -/

/-- The row for notifications is none for items: it is that of the basic help, or the
top row is that of the prompt or of the history label. -/
def NotificationApart (hstr : Hstr R) : Prop :=
  hstr.hideBasicHelp = false
    ∨ hstr.promptYNotification = 0
      ∧ (hstr.promptBottom = false
        ∨ hstr.helpOnOppositeSide = true ∧ hstr.hideHistoryHelp = false)

instance (hstr : Hstr R) : Decidable (NotificationApart hstr) :=
  inferInstanceAs (Decidable (_ ∨ _))

/-- What is printed beside the items is printed on other rows. -/
structure Beside (hstr : Hstr R) : Prop where
  prompt : hstr.promptY ∉ itemsRows hstr
  help : hstr.hideBasicHelp = false → hstr.promptYHelp ∉ itemsRows hstr
  history : hstr.hideHistoryHelp = false → hstr.promptYHistory ∉ itemsRows hstr
  notification : hstr.promptYNotification ∉ itemsRows hstr

/-- **Laying out puts everything beside the items.** -/
theorem beside_recalculate (n : ℤ) {hstr : Hstr R} (h : NotificationApart hstr) :
    Beside (recalculate_max_history_items n hstr) := by
  have hnotification := recalculate_promptYNotification n hstr
  have hrows := rows_recalculate n hstr
  obtain ⟨⟨hcount, hstart⟩, hprompt, hhelp, hhistory, hend⟩ := hrows
  unfold NotificationApart at h
  rw [← recalculate_promptBottom n hstr, ← recalculate_helpOnOppositeSide n hstr,
    ← recalculate_hideHistoryHelp n hstr] at h
  rw [← recalculate_hideBasicHelp n hstr] at h hnotification
  generalize recalculate_max_history_items n hstr = laidOut at *
  unfold labelRow at hhelp hhistory
  unfold itemsStart at hstart
  unfold helpLabels at hcount hstart
  -- from here on the rows are numbers, one set of equations for each layout
  refine ⟨?_, ?_, ?_, ?_⟩
  all_goals
    rw [mem_itemsRows]
    generalize laidOut.promptBottom = bottom, laidOut.helpOnOppositeSide = opposite,
      laidOut.hideBasicHelp = basic, laidOut.hideHistoryHelp = history at *
    cases bottom <;> cases opposite <;> cases basic <;> cases history <;>
      simp only [Bool.false_eq_true, if_true, if_false, reduceCtorEq, forall_const,
        IsEmpty.forall_iff, and_self, and_true, and_false, or_self, or_true, or_false, true_or,
        false_or] at * <;>
      omega

/-- No key changes the layout. -/
theorem stable_notificationApart (env : Env R) : Stable env NotificationApart where
  layout n hstr h := by
    unfold NotificationApart at h ⊢
    rw [recalculate_hideBasicHelp, recalculate_promptBottom, recalculate_helpOnOppositeSide,
      recalculate_hideHistoryHelp, recalculate_promptYNotification]
    rcases h with hbasic | ⟨hrow, hlayout⟩
    · exact Or.inl hbasic
    · cases hbasic : hstr.hideBasicHelp with
      | false => exact Or.inl rfl
      | true => exact Or.inr ⟨hrow, hlayout⟩
  select _ _ _ _ h := h
  matching _ _ h := h
  view _ _ h := h
  caseSensitive _ _ h := h
  favorites _ _ h := h

/-! ## What the functions print -/

/-- The rows for items show what has been painted there. -/
def ItemsShown (hstr : Hstr R) (screen : ℤ → Option SelectionRow) (rows : RowMap) : Prop :=
  ∀ y ∈ itemsRows hstr, rows y = (screen y).elim .blank .item

section Prints

variable {hstr : Hstr R} {screen : ℤ → Option SelectionRow} {rows : RowMap}

/-- Another row changes. -/
theorem ItemsShown.frame (h : ItemsShown hstr screen rows) {y : ℤ} (hy : y ∉ itemsRows hstr)
    (c : RowContent) : ItemsShown hstr screen (Function.update rows y c) := by
  intro y' hy'
  have hne : y' ≠ y := fun heq => hy (heq ▸ hy')
  rw [Function.update_of_ne hne]
  exact h y' hy'

/-- An item is painted on both screens. -/
theorem ItemsShown.item (h : ItemsShown hstr screen rows) (y : ℤ) (row : SelectionRow) :
    ItemsShown hstr (Function.update screen y (some row)) (Function.update rows y (.item row)) := by
  intro y' hy'
  by_cases heq : y' = y
  · rw [heq, Function.update_self, Function.update_self]
    rfl
  · rw [Function.update_of_ne heq, Function.update_of_ne heq]
    exact h y' hy'

theorem ItemsShown.help_printed (h : ItemsShown hstr screen rows) (hbeside : Beside hstr) :
    ItemsShown hstr screen (print_help_label hstr rows) := by
  unfold print_help_label
  split
  · exact h
  · next hshown => exact h.frame (hbeside.help (Bool.eq_false_iff.mpr hshown)) .help

theorem ItemsShown.label_printed (h : ItemsShown hstr screen rows) (hbeside : Beside hstr)
    (history : HistoryItems) : ItemsShown hstr screen (print_history_label hstr history rows) := by
  unfold print_history_label
  split
  · exact h
  · next hshown => exact h.frame (hbeside.history (Bool.eq_false_iff.mpr hshown)) _

theorem ItemsShown.notification_printed (h : ItemsShown hstr screen rows) (hbeside : Beside hstr)
    (line : ScreenLine) (hline : line.y = hstr.promptYNotification) :
    ItemsShown hstr screen (print_notification line rows) := by
  apply h.frame
  rw [hline]
  exact hbeside.notification

theorem ItemsShown.notification_hidden (h : ItemsShown hstr screen rows) (hbeside : Beside hstr)
    (history : HistoryItems) : ItemsShown hstr screen (hide_notification hstr history rows) := by
  unfold hide_notification
  split
  · exact h.help_printed hbeside
  · split
    · exact h.label_printed hbeside history
    · exact h

theorem ItemsShown.prompt_printed (h : ItemsShown hstr screen rows) (hbeside : Beside hstr) :
    ItemsShown hstr screen (print_prompt hstr rows) := h.frame hbeside.prompt _

theorem ItemsShown.pattern_printed (h : ItemsShown hstr screen rows) (hbeside : Beside hstr)
    (env : Env R) {maxx : ℤ} {pattern : CString}
    (hfits : 0 ≤ columnsLeft env pattern maxx) :
    ItemsShown hstr screen (print_pattern env maxx (some pattern) hstr.promptY rows) := by
  rw [print_pattern, if_neg (not_lt.mpr hfits)]
  exact h.frame hbeside.prompt _

/-- The loop that prints the items. -/
theorem ItemsShown.print_items (row : ℕ → ℤ) (items : List (CString × ℕ))
    {screen : ℤ → Option SelectionRow} {rows : RowMap} (h : ItemsShown hstr screen rows) :
    ItemsShown hstr
      (items.foldl (fun screen (text, i) => Loop.print_selection_row screen text (row i)) screen)
      (items.foldl (fun rows (text, i) => print_selection_row rows text (row i)) rows) := by
  induction items generalizing screen rows with
  | nil => exact h
  | cons r items ih => exact ih (h.item (row r.2) ⟨r.1, false⟩)

/-- **Printing the selection** shows it, whatever was on the rows for items. -/
theorem itemsShown_print_selection (env : Env R) {s : LoopState R}
    (hapart : NotificationApart s.hstr) {pattern : Option CString}
    (hfits : ∀ p, pattern = some p → 0 ≤ columnsLeft env p s.maxx) (rows : RowMap) :
    ItemsShown (Loop.hstr_print_selection env s pattern).1.hstr
      (Loop.hstr_print_selection env s pattern).1.screen
      (Window.hstr_print_selection env s pattern rows) := by
  have hbeside : Beside (Loop.hstr_print_selection env s pattern).1.hstr :=
    beside_recalculate s.maxy ((stable_notificationApart env).select _ _ _ _ hapart)
  rw [hstr_print_selection_screen, Window.hstr_print_selection]
  generalize (Loop.hstr_print_selection env s pattern).1.hstr = hstr at *
  apply ItemsShown.print_items
  have hcleared : ItemsShown hstr (Loop.clrtobot s.screen hstr.promptYItemsStart)
      (Window.clrtobot rows hstr.promptYItemsStart) := by
    intro y hy
    have hbelow := (mem_itemsRows.mp hy).1
    rw [Window.clrtobot, if_pos hbelow, Loop.clrtobot, if_pos hbelow]
    rfl
  have hlabels : ItemsShown hstr (Loop.clrtobot s.screen hstr.promptYItemsStart)
      (if labelsAreOnBottom hstr then
        print_history_label hstr s.history
          (print_help_label hstr (Window.clrtobot rows hstr.promptYItemsStart))
      else Window.clrtobot rows hstr.promptYItemsStart) := by
    split
    · exact (hcleared.help_printed hbeside).label_printed hbeside s.history
    · exact hcleared
  split
  · have hprompt := hlabels.prompt_printed hbeside
    cases pattern with
    | none => exact hprompt
    | some p => exact hprompt.pattern_printed hbeside env (hfits p rfl)
  · exact hlabels

/-- The cursor moves on both screens. -/
theorem ItemsShown.highlight {s : LoopState R} (h : ItemsShown s.hstr s.screen rows)
    (cursor previous : ℤ) :
    ItemsShown s.hstr (Loop.highlight_selection s cursor previous).screen
      (Window.highlight_selection s cursor previous rows) := by
  unfold Loop.highlight_selection Window.highlight_selection
  simp only
  -- the old row first, then the new one
  cases getResultFromSelection s.hstr previous with
  | none =>
      cases getResultFromSelection s.hstr cursor with
      | none => exact h
      | some text => exact h.item _ ⟨text, true⟩
  | some old =>
      have hfirst := h.item (s.hstr.promptYItemsStart + previous) ⟨old, false⟩
      cases getResultFromSelection s.hstr cursor with
      | none => exact hfirst
      | some text => exact hfirst.item _ ⟨text, true⟩

end Prints

/-! ## The columns of the screen -/

/-- The loop takes the width of the screen only once: a resize, also one that answers
a question, leaves it as it is. -/
def KeepsColumns (s : LoopState R) (e : Event) : Prop :=
  e.c = KEY_RESIZE ∨ e.cc = KEY_RESIZE → e.columns = s.maxx

instance (s : LoopState R) (e : Event) : Decidable (KeepsColumns s e) := by
  unfold KeepsColumns
  infer_instance

/-- A question that is answered by no other size. -/
theorem confirmDelete_of_kept {s : LoopState R} {e : Event}
    (hrows : e.cc = KEY_RESIZE → e.rows = s.maxy)
    (hcolumns : e.cc = KEY_RESIZE → e.columns = s.maxx) (msg : CString) :
    confirmDelete s e msg = { s with almostDead := some msg } := by
  rw [confirmDelete_eq]
  split
  · next hresize => rw [hrows hresize.2, hcolumns hresize.2]
  · rfl

theorem maxx_ready {s : LoopState R} {e : Event} (h : KeepsColumns s e) :
    (Loop.ready s e).maxx = s.maxx := by
  unfold Loop.ready wgetch
  split
  · next hresize => exact h (Or.inl hresize)
  · rfl

theorem maxx_remove (env : Env R) (s : LoopState R) (msg : CString) (beyond : Beyond) :
    (remove_from_history_model env s msg beyond).1.maxx = s.maxx := by
  unfold remove_from_history_model
  split <;> rfl

theorem maxx_deleteItem (env : Env R) {s : LoopState R} {e : Event}
    (hcolumns : e.cc = KEY_RESIZE → e.columns = s.maxx) :
    (Loop.deleteItem env s e).maxx = s.maxx := by
  have hasked : ∀ msg, (confirmDelete s e msg).maxx = s.maxx := by
    intro msg
    rw [confirmDelete_eq]
    simp only
    split
    · next hresize => exact hcolumns hresize.2
    · rfl
  unfold Loop.deleteItem
  split
  · rfl
  · next msg _ =>
      show (deleteConfirmed env (confirmDelete s e msg) e msg).maxx = s.maxx
      unfold deleteConfirmed
      split
      · exact (maxx_remove env _ msg e.beyond).trans (hasked msg)
      · exact hasked msg

theorem maxx_choose_result (s : LoopState R) (cursor : ℤ) (fallback : Option CString) :
    (choose_result s cursor fallback).1.maxx = s.maxx := by
  unfold choose_result
  split
  · rfl
  · split <;> rfl

theorem maxx_addFavorite (env : Env R) (s : LoopState R) :
    (Loop.addFavorite env s).maxx = s.maxx := by
  unfold Loop.addFavorite
  split <;> rfl

theorem maxx_typeCharacter (env : Env R) (s : LoopState R) (c : ℤ) :
    (Loop.typeCharacter env s c).maxx = s.maxx := by
  unfold Loop.typeCharacter
  split <;> rfl

theorem maxx_handle (env : Env R) {s : LoopState R} {e : Event}
    (hcolumns : e.cc = KEY_RESIZE → e.columns = s.maxx) (c : ℤ) :
    (Loop.handle env s e c).maxx = s.maxx := by
  unfold Loop.handle
  cases keyCase c with
  | KEY_DC => exact maxx_deleteItem env hcolumns
  | K_CTRL_F => exact maxx_addFavorite env s
  | KEY_ENTER => exact maxx_choose_result s _ _
  | KEY_LEFT => exact maxx_choose_result s _ _
  | KEY_RIGHT => exact maxx_choose_result s _ _
  | default => exact maxx_typeCharacter env s c
  | KEY_END | K_CTRL_E | K_CTRL_T | K_CTRL_SLASH | KEY_RESIZE | K_CTRL_U | K_CTRL_L
  | KEY_BACKSPACE | KEY_NPAGE | K_ESC | K_CTRL_X => rfl

/-- **The width of the screen stays.** -/
theorem maxx_step (env : Env R) {s : LoopState R} {e : Event} (h : KeepsColumns s e) :
    (Loop.step env s e).maxx = s.maxx := by
  by_cases hdone : s.done = true
  · rw [Loop.step_of_done hdone]
  · rw [Loop.step_of_not_done (by simpa using hdone), maxx_handle env, maxx_ready h]
    intro hresize
    rw [maxx_ready h]
    exact h (Or.inr hresize)

/-- A pattern of printable characters, the last of which need not be there to its
end. -/
def Printable (wcwidth : ℕ → ℤ) (pattern : CString) : Prop :=
  ∃ cs rest, pattern.bytes = text cs ++ rest ∧ (∀ c ∈ cs, iswprint wcwidth c) ∧ Truncated rest

/-- Curses prints such a pattern in the columns that `wcwidth` tells, and does not
print the beginning of a character. -/
def ShowsPatterns (wcwidth : ℕ → ℤ) (env : Env R) : Prop :=
  ∀ pattern cs rest, pattern.bytes = text cs ++ rest → (∀ c ∈ cs, iswprint wcwidth c) →
    Truncated rest → env.columnsShown pattern = columns wcwidth cs

/-- The key leaves a pattern of printable characters. -/
def TypesText (wcwidth : ℕ → ℤ) (env : Env R) (s : LoopState R) (e : Event) : Prop :=
  Printable wcwidth (edit env (prompt s) e.c).pattern

section Pattern

variable {env : Env R} {wcwidth : ℕ → ℤ}

/-- It is the pattern of the next state. -/
theorem TypesText.step {s : LoopState R} {e : Event} (h : TypesText wcwidth env s e) :
    Printable wcwidth (prompt (Loop.step env s e)).pattern := by
  rw [prompt_step]
  exact h

/-- What the loop counts of such a pattern. -/
theorem hstr_strwidth_printable {pattern : CString} {cs : List Char} {rest : List Byte}
    (hbytes : pattern.bytes = text cs ++ rest) (hrest : Truncated rest) :
    hstr_strwidth (utf8 wcwidth) pattern = columns wcwidth cs := by
  rw [hstr_strwidth_utf8, hbytes, (closed_text cs).width_append, width_text,
    width_truncated hrest, Int.add_zero]
  rfl

/-- A pattern that fits its row is printed on it. -/
theorem left_of_fitsRow (hlocale : env.locale = utf8 wcwidth) (hshows : ShowsPatterns wcwidth env)
    {first : CString} {p : Line} (h : FitsRow env first p) (htext : Printable wcwidth p.pattern)
    (hfirst : hstr_strwidth env.locale first ≤ promptColumns env) :
    0 ≤ columnsLeft env p.pattern env.width := by
  obtain ⟨cs, rest, hbytes, hprint, hrest⟩ := htext
  have hcolumns := h.columns
  rw [max_eq_left hfirst, hlocale, hstr_strwidth_printable hbytes hrest] at hcolumns
  rw [columnsLeft, hshows p.pattern cs rest hbytes hprint hrest]
  unfold promptColumns at hcolumns
  omega

end Pattern

/-! ## A round -/

section Round

variable {env : Env R} {rows : RowMap}

/-- A state with the same layout and the same screen. -/
theorem ItemsShown.congr {s t : LoopState R} (h : ItemsShown s.hstr s.screen rows)
    (hrows : itemsRows t.hstr = itemsRows s.hstr) (hscreen : t.screen = s.screen) :
    ItemsShown t.hstr t.screen rows := by
  unfold ItemsShown
  rw [hrows, hscreen]
  exact h

/-- Laying out again for the same height moves no row. -/
theorem itemsRows_recalculate {n : ℤ} {hstr : Hstr R} (h : Placed n hstr) :
    itemsRows (recalculate_max_history_items n hstr) = itemsRows hstr := by
  unfold itemsRows
  rw [(rows_recalculate n hstr).promptYItemsEnd, recalculate_promptYItemsStart,
    recalculate_promptItems, h.promptYItemsEnd, h.promptYItemsStart, h.promptItems]

theorem itemsRows_choose_result (s : LoopState R) (cursor : ℤ) (fallback : Option CString) :
    itemsRows (choose_result s cursor fallback).1.hstr = itemsRows s.hstr := by
  unfold choose_result
  split
  · rfl
  · split <;> rfl

theorem itemsShown_reprint {t : LoopState R} (hapart : NotificationApart t.hstr)
    (hfits : 0 ≤ columnsLeft env t.pattern t.maxx) (rows : RowMap) :
    ItemsShown (reprint env t).hstr (reprint env t).screen
      (Window.hstr_print_selection env t (some t.pattern) rows) :=
  itemsShown_print_selection env hapart (fun _ hp => Option.some.inj hp ▸ hfits) rows

theorem beside_reprint (env : Env R) {t : LoopState R} (hapart : NotificationApart t.hstr) :
    Beside (reprint env t).hstr :=
  beside_recalculate t.maxy ((stable_notificationApart env).select _ _ _ _ hapart)

theorem ItemsShown.patternIfFree {s : LoopState R} (h : ItemsShown s.hstr s.screen rows)
    (hbeside : Beside s.hstr) (hfits : 0 ≤ columnsLeft env s.pattern s.maxx) :
    ItemsShown s.hstr s.screen (printPatternIfFree env s rows) := by
  unfold printPatternIfFree
  split
  · exact h.pattern_printed hbeside env hfits
  · exact h

/-- The keys that change the query. -/
theorem itemsShown_printQuery {s t : LoopState R} (hapart : NotificationApart t.hstr)
    (hpattern : t.pattern = s.pattern) (hmaxx : t.maxx = s.maxx)
    (hfits : 0 ≤ columnsLeft env s.pattern s.maxx) (rows : RowMap) :
    ItemsShown (reprint env t).hstr (reprint env t).screen (printQuery env t rows) := by
  rw [← hpattern, ← hmaxx] at hfits
  have hbeside := beside_reprint env hapart
  have hlabel := (itemsShown_reprint hapart hfits rows).label_printed hbeside t.history
  exact ItemsShown.patternIfFree (s := reprint env t) hlabel hbeside hfits

theorem ItemsShown.addFavorite {s : LoopState R} (h : ItemsShown s.hstr s.screen rows)
    (hapart : NotificationApart s.hstr)
    (hfits : 0 ≤ columnsLeft env s.pattern s.maxx) :
    ItemsShown (Loop.addFavorite env s).hstr (Loop.addFavorite env s).screen
      (Window.addFavorite env s rows).1 := by
  unfold Loop.addFavorite Window.addFavorite
  cases getResultFromSelection s.hstr s.selectionCursorPosition with
  | none => exact h
  | some favorite =>
      simp only
      generalize (if s.hstr.view = .FAVORITES then
        favorites_choose s.hstr.favorites s.favoritesFile (some favorite)
        else favorites_add s.hstr.favorites s.favoritesFile (some favorite)) = changed
      obtain ⟨favorites, file⟩ := changed
      simp only
      generalize ht : ({ s with
        hstr := { s.hstr with favorites }, favoritesFile := file } : LoopState R) = t
      have hapart : NotificationApart t.hstr := by
        rw [← ht]
        exact hapart
      have hfits : 0 ≤ columnsLeft env t.pattern t.maxx := by
        rw [← ht]
        exact hfits
      have hbeside := beside_reprint env hapart
      have hpattern : s.pattern = t.pattern := by rw [← ht]
      have hprinted := itemsShown_reprint hapart hfits rows
      rw [hpattern]
      apply ItemsShown.patternIfFree (s := reprint env t) _ hbeside hfits
      split
      · exact hprinted.notification_printed hbeside _ rfl
      · exact hprinted

/-- What the case `KEY_DC` prints for the answer, after a question that is answered by
no other size. -/
theorem ItemsShown.deleted {s : LoopState R} (h : ItemsShown s.hstr s.screen rows)
    (hbeside : Beside s.hstr) (hapart : NotificationApart s.hstr)
    (hfits : 0 ≤ columnsLeft env s.pattern s.maxx) (e : Event) (msg : CString) :
    Beside (deleteConfirmed env s e msg).hstr
      ∧ ItemsShown (deleteConfirmed env s e msg).hstr (deleteConfirmed env s e msg).screen
        (printDeleted env s e msg rows) := by
  unfold deleteConfirmed printDeleted
  by_cases hyes : s.hstr.noConfirm ∨ e.cc = 121
  · rw [if_pos hyes, if_pos hyes]
    have hremoved : NotificationApart (remove_from_history_model env s msg e.beyond).1.hstr := by
      unfold remove_from_history_model
      split <;> exact hapart
    have hpattern : (remove_from_history_model env s msg e.beyond).1.pattern = s.pattern := by
      unfold remove_from_history_model
      split <;> rfl
    rw [← hpattern, ← maxx_remove env s msg e.beyond] at hfits
    have hprinted := itemsShown_reprint hremoved hfits rows
    have hbeside := beside_reprint env hremoved
    exact ⟨hbeside, hprinted.notification_printed hbeside _ rfl⟩
  · rw [if_neg hyes, if_neg hyes]
    exact ⟨hbeside, h.notification_hidden hbeside s.history⟩

theorem ItemsShown.deleteItem {s : LoopState R} (h : ItemsShown s.hstr s.screen rows)
    (hbeside : Beside s.hstr) (hapart : NotificationApart s.hstr) {e : Event}
    (hrows : e.cc = KEY_RESIZE → e.rows = s.maxy)
    (hcolumns : e.cc = KEY_RESIZE → e.columns = s.maxx)
    (hfits : 0 ≤ columnsLeft env s.pattern s.maxx) :
    ItemsShown (Loop.deleteItem env s e).hstr (Loop.deleteItem env s e).screen
      (Window.deleteItem env s e rows).1 := by
  unfold Loop.deleteItem Window.deleteItem
  cases getResultFromSelection s.hstr s.selectionCursorPosition with
  | none => exact h
  | some msg =>
      simp only [confirmDelete_of_kept hrows hcolumns]
      have hasked : ItemsShown s.hstr s.screen (printQuestion s msg rows) := by
        unfold printQuestion
        split
        · exact h
        · exact h.notification_printed hbeside _ rfl
      obtain ⟨hbeside', hdeleted⟩ := ItemsShown.deleted
        (s := { s with almostDead := some msg }) hasked hbeside hapart hfits e msg
      generalize deleteConfirmed env { s with almostDead := some msg } e msg = u at *
      have hlabel := hdeleted.label_printed hbeside' u.history
      exact ItemsShown.highlight (s := { u with
        selectionCursorPosition := selection_cursor_move u.hstr u.selectionCursorPosition 0 })
        hlabel _ _

theorem itemsShown_deleteCharacter {s : LoopState R} (hapart : NotificationApart s.hstr)
    (hnext : 0 ≤ columnsLeft env (Loop.deleteCharacter env s).pattern s.maxx)
    (rows : RowMap) :
    ItemsShown (Loop.deleteCharacter env s).hstr (Loop.deleteCharacter env s).screen
      (Window.deleteCharacter env s rows) := by
  unfold Loop.deleteCharacter Window.deleteCharacter at *
  simp only at hnext ⊢
  generalize (if strlen s.pattern > 0 then hstr_chop s.pattern else s.pattern) = chopped at *
  generalize ht : ({ s with
    pattern := chopped
    hstr := hstr_make_selection env.lib s.hstr (if strlen chopped > 0 then some chopped else none)
      s.history (toUnsigned s.maxHistoryItems) } : LoopState R) = t
  have hpattern : t.pattern = chopped := by rw [← ht]
  have hmaxx : t.maxx = s.maxx := by rw [← ht]
  have hselected : NotificationApart t.hstr := by
    rw [← ht]
    exact hapart
  have hchopped : 0 ≤ columnsLeft env chopped s.maxx := hnext
  rw [← hpattern, ← hmaxx] at hchopped
  rw [← hpattern]
  exact itemsShown_reprint hselected hchopped _

theorem ItemsShown.typeCharacter {s : LoopState R} (h : ItemsShown s.hstr s.screen rows)
    (hapart : NotificationApart s.hstr) {c : ℤ}
    (hnext : 0 ≤ columnsLeft env (Loop.typeCharacter env s c).pattern s.maxx) :
    ItemsShown (Loop.typeCharacter env s c).hstr (Loop.typeCharacter env s c).screen
      (Window.typeCharacter env s c rows) := by
  unfold Loop.typeCharacter Window.typeCharacter at *
  split
  · next htyped =>
      simp only [htyped, if_true] at hnext ⊢
      generalize hstr_strcat_char_fitting env.locale s.pattern PATTERN_BUFFER_LNG c
        (env.width - env.basex - 1) = typed at *
      obtain ⟨pattern, appended⟩ := typed
      simp only at hnext ⊢
      generalize ht : ({ s with
        selectionCursorPosition := SELECTION_CURSOR_IN_PROMPT, pattern } : LoopState R) = t
      have hpattern : t.pattern = pattern := by rw [← ht]
      have hmaxx : t.maxx = s.maxx := by rw [← ht]
      have hcursor : NotificationApart t.hstr := by
        rw [← ht]
        exact hapart
      have hfits : 0 ≤ columnsLeft env pattern s.maxx := hnext
      rw [← hpattern, ← hmaxx] at hfits
      rw [← hpattern]
      exact itemsShown_reprint hcursor hfits _
  · exact h

/-- **A key leaves the rows for items to the items.** -/
theorem ItemsShown.handle {s : LoopState R} (h : ItemsShown s.hstr s.screen rows)
    (hbeside : Beside s.hstr) (hapart : NotificationApart s.hstr) {e : Event} {c : ℤ}
    (hrows : e.cc = KEY_RESIZE → e.rows = s.maxy)
    (hcolumns : e.cc = KEY_RESIZE → e.columns = s.maxx)
    (hfits : 0 ≤ columnsLeft env s.pattern s.maxx)
    (hnext : 0 ≤ columnsLeft env (Loop.handle env s e c).pattern s.maxx) :
    ItemsShown (Loop.handle env s e c).hstr (Loop.handle env s e c).screen
      (Window.handle env s e c rows).1 := by
  unfold Loop.handle Window.handle at *
  have hst := stable_notificationApart env
  cases hkey : keyCase c with
  | KEY_END => exact h
  | KEY_DC => exact h.deleteItem hbeside hapart hrows hcolumns hfits
  | K_CTRL_E =>
      refine itemsShown_printQuery ?_ ?_ ?_ hfits rows
      · exact hapart
      · rfl
      · rfl
  | K_CTRL_T =>
      refine itemsShown_printQuery ?_ ?_ ?_ hfits rows
      · exact hapart
      · rfl
      · rfl
  | K_CTRL_SLASH =>
      refine itemsShown_printQuery ?_ ?_ ?_ hfits rows
      · exact hapart
      · rfl
      · rfl
  | K_CTRL_F => exact h.addFavorite hapart hfits
  | KEY_RESIZE =>
      -- the first label is cleared with the rows for items, or above them
      have hlaidOut := hst.layout s.maxy s.hstr hapart
      exact (itemsShown_reprint (t := { s with
        hstr := recalculate_max_history_items s.maxy s.hstr
        maxHistoryItems := (recalculate_max_history_items s.maxy s.hstr).promptItems })
        hlaidOut hfits _).label_printed (beside_reprint env hlaidOut) s.history
  | K_CTRL_U =>
      rw [hkey] at hnext
      exact h.pattern_printed hbeside env hnext
  | K_CTRL_L =>
      rw [hkey] at hnext
      exact h.pattern_printed hbeside env hnext
  | KEY_BACKSPACE =>
      rw [hkey] at hnext
      exact itemsShown_deleteCharacter hapart hnext rows
  | KEY_NPAGE => exact h.highlight _ _
  | KEY_ENTER => exact h.congr (itemsRows_choose_result s _ _) (choose_result_screen s _ _)
  | KEY_LEFT => exact h.congr (itemsRows_choose_result s _ _) (choose_result_screen s _ _)
  | KEY_RIGHT => exact h.congr (itemsRows_choose_result s _ _) (choose_result_screen s _ _)
  | K_ESC => exact h
  | K_CTRL_X => exact h
  | default =>
      rw [hkey] at hnext
      exact h.typeCharacter hapart hnext

end Round

/-! ## The loop -/

/-- The invariant of the loop, where the command line is `first`. -/
structure Standing (env : Env R) (wcwidth : ℕ → ℤ) (first : CString) (v : Visible R) : Prop where
  painted : Painted v.loop
  apart : NotificationApart v.loop.hstr
  line : FitsRow env first (prompt v.loop)
  text : Printable wcwidth v.loop.pattern
  columns : v.loop.maxx = env.width
  items : ItemsShown v.loop.hstr v.loop.screen v.rows

section Loop

variable {env : Env R} {wcwidth : ℕ → ℤ} {first : CString}

/-- What the last key left to be hidden is hidden before the next one is handled. -/
theorem Standing.ready {v : Visible R} (h : Standing env wcwidth first v) (e : Event) :
    ItemsShown (Loop.ready v.loop e).hstr (Loop.ready v.loop e).screen
      (if v.hideNotificationOnNextTick then
        hide_notification (Loop.ready v.loop e).hstr (Loop.ready v.loop e).history v.rows
      else v.rows) := by
  have hready : ItemsShown (Loop.ready v.loop e).hstr (Loop.ready v.loop e).screen v.rows := by
    apply h.items.congr
    · rw [ready_hstr]
      exact itemsRows_recalculate h.painted.placed
    · exact ready_screen v.loop e
  split
  · apply hready.notification_hidden
    rw [ready_hstr]
    exact beside_recalculate v.loop.maxy h.apart
  · exact hready

/-- **A round leaves the rows for items to the items.** -/
theorem Standing.step {v : Visible R} (h : Standing env wcwidth first v)
    (hlocale : env.locale = utf8 wcwidth) (hw : AsciiColumns wcwidth)
    (hshows : ShowsPatterns wcwidth env)
    (hfirst : hstr_strwidth env.locale first ≤ promptColumns env) {e : Event}
    (hscreen : KeepsScreen v.loop e) (hcolumns : KeepsColumns v.loop e)
    (htypes : TypesText wcwidth env v.loop e) :
    Standing env wcwidth first (Window.step env v e) := by
  by_cases hdone : v.loop.done = true
  · rw [Window.step_of_done hdone]
    exact h
  have hrun : v.loop.done = false := by simpa using hdone
  have hline : FitsRow env first (prompt (Loop.step env v.loop e)) := by
    rw [prompt_step]
    exact h.line.edit hlocale hw e.c
  have hapart := (stable_notificationApart env).step h.apart e
  refine ⟨?_, ?_, ?_, ?_, ?_, ?_⟩
  · rw [step_loop]
    exact h.painted.step env hscreen
  · rw [step_loop]
    exact hapart
  · rw [step_loop]
    exact hline
  · rw [step_loop]
    exact htypes.step
  · rw [step_loop, maxx_step env hcolumns]
    exact h.columns
  have hfree := left_of_fitsRow hlocale hshows h.line h.text hfirst
  have hnext := left_of_fitsRow hlocale hshows hline htypes.step hfirst
  have hmaxx : (Loop.ready v.loop e).maxx = env.width := (maxx_ready hcolumns).trans h.columns
  rw [← hmaxx] at hfree hnext
  have hready := h.ready e
  unfold Window.step
  rw [if_neg hdone]
  simp only
  rw [Loop.step_of_not_done hrun] at hnext ⊢
  apply hready.handle
  · rw [ready_hstr]
    exact beside_recalculate v.loop.maxy h.apart
  · rw [ready_hstr]
    exact (stable_notificationApart env).layout _ _ h.apart
  · intro hresize
    unfold Loop.ready wgetch
    split
    · rfl
    · exact hscreen.2 hresize
  · intro hresize
    rw [maxx_ready hcolumns]
    exact hcolumns (Or.inr hresize)
  · rw [ready_pattern]
    exact hfree
  · exact hnext

end Loop

end Hstr.ItemRows
