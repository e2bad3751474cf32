/-
`src/hstr.c`: the whole screen, row by row.

The loop prints five things: the prompt with the pattern, the basic help, the label
with the state of the query, the items and the notifications. Each function prints
its own rows and trusts that the others left the rest alone; labels at the bottom
are printed again with the selection and labels at the top are not, and a
notification is taken away one key later. Here the screen is a map from rows to what
stands on them. All but the pattern is cut to the width of the screen when it is
printed and stays on its row, a text of printable characters at least; the pattern is
tested, by the columns that `hstr_strwidth` counts, against the width that the loop
found when it began. A resize leaves the rows that there are.
-/
import Hstr.Labels
import Hstr.LineEditor
import Hstr.Notification
import Hstr.Screen

set_option autoImplicit false

namespace Hstr.Window

open Lib.Runs Hstr.Strings Hstr.Utils Hstr.History Hstr.Favorites Hstr.Selection Hstr.Columns
open Hstr.Box Hstr.Loop Hstr.Layout Hstr.Notification Hstr.Screen Hstr.LineEditor
open Hstr.Labels (historyLabel)

variable {R : Type}

/-! ## Rows -/

/-- What a row shows; `mixed` is what parts of several prints make of it. -/
inductive RowContent
  | blank
  | item (row : SelectionRow)
  | prompt (pattern : CString)
  | help
  | label (text : CString)
  | notification (text : CString)
  | mixed
  deriving DecidableEq

abbrev RowMap := ℤ → RowContent

/-- `move(y, 0); clrtobot()`. -/
def clrtobot (rows : RowMap) (y : ℤ) : RowMap := fun row => if row ≥ y then .blank else rows row

def labelsAreOnBottom (hstr : Hstr R) : Bool :=
  (hstr.promptBottom && !hstr.helpOnOppositeSide) || (!hstr.promptBottom && hstr.helpOnOppositeSide)

def print_help_label (hstr : Hstr R) (rows : RowMap) : RowMap :=
  if hstr.hideBasicHelp then rows else Function.update rows hstr.promptYHelp .help

def print_history_label (hstr : Hstr R) (history : HistoryItems) (rows : RowMap) : RowMap :=
  if hstr.hideHistoryHelp then rows
  else Function.update rows hstr.promptYHistory (.label (historyLabel hstr history))

/-- The end of the functions that print a notification. -/
def print_notification (line : ScreenLine) (rows : RowMap) : RowMap :=
  Function.update rows line.y (.notification line.screenLine)

def hide_notification (hstr : Hstr R) (history : HistoryItems) (rows : RowMap) : RowMap :=
  if !hstr.hideBasicHelp then print_help_label hstr rows
  else if !hstr.hideHistoryHelp then print_history_label hstr history rows
  else rows

/-- `print_prompt`, which leaves what is behind the prompt. -/
def print_prompt (hstr : Hstr R) (rows : RowMap) : RowMap :=
  Function.update rows hstr.promptY
    (match rows hstr.promptY with
      | .blank => .prompt empty
      | .prompt pattern => .prompt pattern
      | _ => .mixed)

def pattern_free_columns (env : Env R) (pattern : CString) (width : ℤ) : ℤ :=
  width - env.basex - 1 - hstr_strwidth env.locale pattern

/-- The columns that curses leaves behind the pattern, on a screen of `maxx`. -/
def columnsLeft (env : Env R) (pattern : CString) (maxx : ℤ) : ℤ :=
  maxx - env.basex - 1 - env.columnsShown pattern

/-- What is too wide for its row goes on to the rows below. -/
def spilled (rows : RowMap) (y : ℤ) : RowMap := fun row => if row ≥ y then .mixed else rows row

/-- `print_pattern`, behind the prompt, on a screen of `maxx` columns. -/
def print_pattern (env : Env R) (maxx : ℤ) (pattern : Option CString) (y : ℤ) (rows : RowMap) :
    RowMap :=
  match pattern with
  | none => rows
  | some pattern =>
      -- behind the last column is the row below, and `clrtoeol` clears it
      if columnsLeft env pattern maxx < 0 then spilled rows y
      else
        Function.update rows y
          (match rows y with
            | .prompt _ => .prompt pattern
            | _ => .mixed)

/-- The pattern of the command line, which is printed without `clrtoeol`. -/
def mvprintw (env : Env R) (maxx : ℤ) (pattern : CString) (y : ℤ) (rows : RowMap) : RowMap :=
  if columnsLeft env pattern maxx < -1 then spilled rows y
  else
    Function.update rows y
      (match rows y with
        | .prompt shown => if shown = empty then .prompt pattern else .mixed
        | _ => .mixed)

def print_selection_row (rows : RowMap) (text : CString) (y : ℤ) : RowMap :=
  Function.update rows y (.item ⟨text, false⟩)

def hstr_print_highlighted_selection_row (rows : RowMap) (text : CString) (y : ℤ) : RowMap :=
  Function.update rows y (.item ⟨text, true⟩)

/-- `hstr_print_selection`. -/
def hstr_print_selection (env : Env R) (s : LoopState R) (pattern : Option CString)
    (rows : RowMap) : RowMap :=
  let hstr := (Loop.hstr_print_selection env s pattern).1.hstr
  let rows := clrtobot rows hstr.promptYItemsStart
  let rows :=
    if labelsAreOnBottom hstr then print_history_label hstr s.history (print_help_label hstr rows)
    else rows
  let rows :=
    if hstr.promptBottom then print_pattern env s.maxx pattern hstr.promptY (print_prompt hstr rows)
    else rows
  (hstr.selection.take (toUnsigned hstr.promptItems)).zipIdx.foldl
    (fun rows (text, i) => print_selection_row rows text (selectionRow hstr i)) rows

def highlight_selection (s : LoopState R)
    (selectionCursorPosition previousSelectionCursorPosition : ℤ) (rows : RowMap) : RowMap :=
  let rows :=
    match getResultFromSelection s.hstr previousSelectionCursorPosition with
    | some text =>
        print_selection_row rows text (s.hstr.promptYItemsStart + previousSelectionCursorPosition)
    | none => rows
  match getResultFromSelection s.hstr selectionCursorPosition with
  | some text =>
      hstr_print_highlighted_selection_row rows text
        (s.hstr.promptYItemsStart + selectionCursorPosition)
  | none => rows

/-! ## The keys -/

/-- The pattern, where it leaves a column free of those that the screen had when the
loop began. -/
def printPatternIfFree (env : Env R) (s : LoopState R) (rows : RowMap) : RowMap :=
  if pattern_free_columns env s.pattern env.width > 0 then
    print_pattern env s.maxx (some s.pattern) s.hstr.promptY rows
  else rows

/-- What the keys print that change the query: the selection, the label and the
pattern. -/
def printQuery (env : Env R) (s : LoopState R) (rows : RowMap) : RowMap :=
  let rows := hstr_print_selection env s (some s.pattern) rows
  let s := reprint env s
  printPatternIfFree env s (print_history_label s.hstr s.history rows)

/-- The question of the case `KEY_DC`, where it is asked. -/
def printQuestion (s : LoopState R) (msg : CString) (rows : RowMap) : RowMap :=
  if s.hstr.noConfirm then rows
  else print_notification (print_confirm_delete s.hstr s.maxx.toNat msg) rows

/-- What the case `KEY_DC` prints for the answer. -/
def printDeleted (env : Env R) (s : LoopState R) (e : Event) (msg : CString) (rows : RowMap) :
    RowMap :=
  if s.hstr.noConfirm ∨ e.cc = 121 then
    let (s, deletedOccurences) := remove_from_history_model env s msg e.beyond
    print_notification
      (print_cmd_deleted_label (reprint env s).hstr s.maxx.toNat msg deletedOccurences)
      (hstr_print_selection env s (some s.pattern) rows)
  else hide_notification s.hstr s.history rows

/-- The case `KEY_DC`, and `hideNotificationOnNextTick`. -/
def deleteItem (env : Env R) (s : LoopState R) (e : Event) (rows : RowMap) : RowMap × Bool :=
  match getResultFromSelection s.hstr s.selectionCursorPosition with
  | none => (rows, false)
  | some msg =>
      let rows := printQuestion s msg rows
      let s := confirmDelete s e msg
      let rows := printDeleted env s e msg rows
      let s := deleteConfirmed env s e msg
      let rows := print_history_label s.hstr s.history rows
      (highlight_selection s (selection_cursor_move s.hstr s.selectionCursorPosition 0)
        SELECTION_CURSOR_IN_PROMPT rows, true)

/-- The case `K_CTRL_F`, and `hideNotificationOnNextTick`. -/
def addFavorite (env : Env R) (s : LoopState R) (rows : RowMap) : RowMap × Bool :=
  match getResultFromSelection s.hstr s.selectionCursorPosition with
  | none => (rows, false)
  | some favorite =>
      let (favorites, file) :=
        if s.hstr.view = .FAVORITES then
          favorites_choose s.hstr.favorites s.favoritesFile (some favorite)
        else favorites_add s.hstr.favorites s.favoritesFile (some favorite)
      let s := { s with hstr := { s.hstr with favorites }, favoritesFile := file }
      let rows := hstr_print_selection env s (some s.pattern) rows
      let s := reprint env s
      let added := s.hstr.view ≠ .FAVORITES
      let rows :=
        if added then
          print_notification (print_cmd_added_favorite_label s.hstr s.maxx.toNat favorite) rows
        else rows
      (printPatternIfFree env s rows, added)

/-- The case of the backspaces. -/
def deleteCharacter (env : Env R) (s : LoopState R) (rows : RowMap) : RowMap :=
  let chopped := if strlen s.pattern > 0 then hstr_chop s.pattern else s.pattern
  let rows :=
    if strlen s.pattern > 0 then print_pattern env s.maxx (some chopped) s.hstr.promptY rows
    else rows
  let s := { s with pattern := chopped }
  let prefixPattern := if strlen s.pattern > 0 then some s.pattern else none
  let s := { s with
    hstr := hstr_make_selection env.lib s.hstr prefixPattern s.history
      (toUnsigned s.maxHistoryItems) }
  hstr_print_selection env s (some s.pattern) rows

/-- The case `default`. -/
def typeCharacter (env : Env R) (s : LoopState R) (c : ℤ) (rows : RowMap) : RowMap :=
  if c > K_CTRL_Z then
    let s := { s with selectionCursorPosition := SELECTION_CURSOR_IN_PROMPT }
    let (pattern, appended) := hstr_strcat_char_fitting env.locale s.pattern PATTERN_BUFFER_LNG c
      (env.width - env.basex - 1)
    let rows :=
      if appended then print_pattern env s.maxx (some pattern) s.hstr.promptY rows else rows
    hstr_print_selection env { s with pattern } (some pattern) rows
  else rows

/-- What the `switch` prints for the key `c`, and `hideNotificationOnNextTick`. -/
def handle (env : Env R) (s : LoopState R) (e : Event) (c : ℤ) (rows : RowMap) : RowMap × Bool :=
  match keyCase c with
  | .KEY_END => (rows, false)
  | .KEY_DC => deleteItem env s e rows
  | .K_CTRL_E =>
      let s := { s with hstr := { s.hstr with matching := nextMatching s.hstr.matching } }
      (printQuery env s rows, false)
  | .K_CTRL_T =>
      let caseSensitive := !s.hstr.caseSensitive
      let regexp := { s.hstr.regexp with caseSensitive }
      let s := { s with hstr := { s.hstr with caseSensitive, regexp } }
      (printQuery env s rows, false)
  | .K_CTRL_SLASH =>
      let s := { s with hstr := { s.hstr with view := hstr_next_view s.hstr.view } }
      (printQuery env s rows, false)
  | .K_CTRL_F => addFavorite env s rows
  | .KEY_RESIZE =>
      -- the first label is printed on its old row
      let rows := print_history_label s.hstr s.history rows
      let hstr := recalculate_max_history_items s.maxy s.hstr
      let s := { s with hstr, maxHistoryItems := hstr.promptItems }
      let rows := hstr_print_selection env s (some s.pattern) rows
      let s := reprint env s
      (print_history_label s.hstr s.history rows, false)
  | .K_CTRL_U => (print_pattern env s.maxx (some empty) s.hstr.promptY rows, false)
  | .K_CTRL_L =>
      (print_pattern env s.maxx (some (toggle_case s.pattern s.lowercase)) s.hstr.promptY rows,
        false)
  | .KEY_BACKSPACE => (deleteCharacter env s rows, false)
  | .KEY_NPAGE =>
      let cursor :=
        selection_cursor_move s.hstr s.selectionCursorPosition (hstr_selection_cursor_step c)
      (highlight_selection s cursor s.selectionCursorPosition rows, false)
  | .KEY_ENTER | .KEY_LEFT | .KEY_RIGHT | .K_ESC | .K_CTRL_X => (rows, false)
  | .default => (typeCharacter env s c rows, false)

/-! ## The loop -/

/-- The loop with its screen. -/
structure Visible (R : Type) where
  loop : LoopState R
  rows : RowMap
  hideNotificationOnNextTick : Bool

/-- A round of the loop that reads a key. -/
def step (env : Env R) (v : Visible R) (e : Event) : Visible R :=
  if v.loop.done then v
  else
    let s := ready v.loop e
    let rows :=
      if v.hideNotificationOnNextTick then hide_notification s.hstr s.history v.rows else v.rows
    let (rows, hide) := handle env s e (keyOf v.loop e) rows
    ⟨Loop.step env v.loop e, rows, hide⟩

/-- The rows before the first round. -/
def firstRows (env : Env R) (s : LoopState R) : RowMap :=
  let rows := hstr_print_selection env s none fun _ => .blank
  let s := (Loop.hstr_print_selection env s none).1
  let rows :=
    if labelsAreOnBottom s.hstr then rows
    else print_history_label s.hstr s.history (print_help_label s.hstr rows)
  print_prompt s.hstr rows

/-- The loop before it reads the first key. -/
def start (env : Env R) (hstr : Hstr R) (history : HistoryItems) (historyState : HistoryState)
    (favoritesFile : Option (List Byte)) (maxy : ℤ) : Visible R :=
  let s := declared hstr history historyState favoritesFile maxy env.width
  let rows := firstRows env (recalculate s)
  let s := firstScreen env s
  let rows :=
    if strlen s.pattern ≠ 0 then
      hstr_print_selection env s (some s.pattern)
        (mvprintw env s.maxx s.pattern s.hstr.promptY rows)
    else rows
  ⟨Loop.start env hstr history historyState favoritesFile maxy, rows, true⟩

/-- The screen has no part in what the loop does. -/
theorem step_loop (env : Env R) (v : Visible R) (e : Event) :
    (step env v e).loop = Loop.step env v.loop e := by
  unfold step
  split
  · next hdone => exact (Loop.step_of_done hdone e).symm
  · rfl

theorem step_of_done {env : Env R} {v : Visible R} (h : v.loop.done = true) (e : Event) :
    step env v e = v := if_pos h

/-! ## Places -/

/-- Where the layout puts things. -/
structure Places where
  promptY : ℤ
  promptYHelp : ℤ
  promptYHistory : ℤ
  promptYNotification : ℤ
  promptYItemsStart : ℤ
  promptYItemsEnd : ℤ
  hideHistoryHelp : Bool

def places (hstr : Hstr R) : Places where
  promptY := hstr.promptY
  promptYHelp := hstr.promptYHelp
  promptYHistory := hstr.promptYHistory
  promptYNotification := hstr.promptYNotification
  promptYItemsStart := hstr.promptYItemsStart
  promptYItemsEnd := hstr.promptYItemsEnd
  hideHistoryHelp := hstr.hideHistoryHelp

/-- A row for items. -/
def Places.OnItems (p : Places) (y : ℤ) : Prop := p.promptYItemsStart ≤ y ∧ y ≤ p.promptYItemsEnd

/-- No row is that of two things. -/
structure Places.Apart (p : Places) : Prop where
  help_ne_prompt : p.promptYHelp ≠ p.promptY
  history_ne_prompt : p.hideHistoryHelp = false → p.promptYHistory ≠ p.promptY
  history_ne_help : p.hideHistoryHelp = false → p.promptYHistory ≠ p.promptYHelp
  prompt : ¬ p.OnItems p.promptY
  help : ¬ p.OnItems p.promptYHelp
  history : p.hideHistoryHelp = false → ¬ p.OnItems p.promptYHistory
  notification : p.promptYNotification = p.promptYHelp

/-- The options that the layout depends on. -/
structure SameLayout (h h' : Hstr R) : Prop where
  promptBottom : h'.promptBottom = h.promptBottom
  helpOnOppositeSide : h'.helpOnOppositeSide = h.helpOnOppositeSide
  hideBasicHelp : h'.hideBasicHelp = h.hideBasicHelp
  hideHistoryHelp : h'.hideHistoryHelp = h.hideHistoryHelp

theorem SameLayout.refl (h : Hstr R) : SameLayout h h := ⟨rfl, rfl, rfl, rfl⟩

theorem SameLayout.trans {h h' h'' : Hstr R} (h₁ : SameLayout h h') (h₂ : SameLayout h' h'') :
    SameLayout h h'' :=
  ⟨h₂.promptBottom.trans h₁.promptBottom, h₂.helpOnOppositeSide.trans h₁.helpOnOppositeSide,
    h₂.hideBasicHelp.trans h₁.hideBasicHelp, h₂.hideHistoryHelp.trans h₁.hideHistoryHelp⟩

theorem sameLayout_recalculate (n : ℤ) (hstr : Hstr R) :
    SameLayout hstr (recalculate_max_history_items n hstr) :=
  ⟨recalculate_promptBottom n hstr, recalculate_helpOnOppositeSide n hstr,
    recalculate_hideBasicHelp n hstr, recalculate_hideHistoryHelp n hstr⟩

/-- The equations of the layout of `n` rows, where the basic help is shown. -/
structure PlacesOf (n : ℤ) (config : Hstr R) (p : Places) : Prop where
  promptY : p.promptY = if config.promptBottom then n - 1 else 0
  promptYHelp : p.promptYHelp = labelRow n config 0
  promptYHistory : config.hideHistoryHelp = false → p.promptYHistory = labelRow n config 1
  promptYNotification : p.promptYNotification = p.promptYHelp
  promptYItemsStart : p.promptYItemsStart = itemsStart config
  promptYItemsEnd : p.promptYItemsEnd = itemsStart config + (n - 1 - helpLabels config) - 1
  hideHistoryHelp : p.hideHistoryHelp = config.hideHistoryHelp

section Places

variable {n : ℤ} {config hstr : Hstr R} {p : Places}

theorem SameLayout.labelRow (h : SameLayout config hstr) (n k : ℤ) :
    labelRow n hstr k = labelRow n config k := by
  unfold Layout.labelRow
  rw [h.promptBottom, h.helpOnOppositeSide]

theorem SameLayout.helpLabels (h : SameLayout config hstr) :
    helpLabels hstr = helpLabels config := by
  unfold Box.helpLabels
  rw [h.hideBasicHelp, h.hideHistoryHelp]

theorem SameLayout.itemsStart (h : SameLayout config hstr) :
    itemsStart hstr = itemsStart config := by
  unfold Box.itemsStart
  rw [h.promptBottom, h.helpOnOppositeSide, h.helpLabels]

theorem SameLayout.labelsAreOnBottom (h : SameLayout config hstr) :
    labelsAreOnBottom hstr = labelsAreOnBottom config := by
  unfold Window.labelsAreOnBottom
  rw [h.promptBottom, h.helpOnOppositeSide]

/-- Laying out puts everything in its place. -/
theorem placesOf_recalculate (n : ℤ) (h : SameLayout config hstr)
    (hbasic : config.hideBasicHelp = false) :
    PlacesOf n config (places (recalculate_max_history_items n hstr)) := by
  have hrows := rows_recalculate n hstr
  have hkeep := h.trans (sameLayout_recalculate n hstr)
  have hshown := hkeep.hideBasicHelp.trans hbasic
  have hstart : (recalculate_max_history_items n hstr).promptYItemsStart = Box.itemsStart config :=
    hrows.promptYItemsStart.trans hkeep.itemsStart
  refine ⟨?_, ?_, ?_, ?_, hstart, ?_, hkeep.hideHistoryHelp⟩
  · rw [← hkeep.promptBottom]
    exact hrows.promptY
  · rw [← hkeep.labelRow]
    exact hrows.promptYHelp hshown
  · intro hhistory
    have hlabel := hrows.promptYHistory (hkeep.hideHistoryHelp.trans hhistory)
    rw [hshown] at hlabel
    rw [← hkeep.labelRow]
    exact hlabel
  · have hnotification := recalculate_promptYNotification n hstr
    rwa [h.hideBasicHelp.trans hbasic] at hnotification
  · rw [← hkeep.itemsStart, ← hkeep.helpLabels, ← hrows.promptItems, ← hrows.promptYItemsStart]
    exact hrows.promptYItemsEnd

theorem PlacesOf.apart (h : PlacesOf n config p) (hbasic : config.hideBasicHelp = false)
    (hn : 3 ≤ n) : p.Apart := by
  obtain ⟨hprompt, hhelp, hhistory, hnotification, hstart, hend, hhide⟩ := h
  unfold Layout.labelRow at hhelp hhistory
  unfold Box.itemsStart at hstart hend
  unfold Box.helpLabels at hstart hend
  rw [hbasic] at hstart hend
  -- from here on the rows are numbers, one set of equations for each layout
  refine ⟨?_, ?_, ?_, ?_, ?_, ?_, hnotification⟩
  all_goals
    try unfold Places.OnItems
    rw [hhide] at *
    generalize config.promptBottom = bottom, config.helpOnOppositeSide = opposite,
      config.hideHistoryHelp = history at *
    cases bottom <;> cases opposite <;> cases history <;>
      simp only [Bool.false_eq_true, if_true, if_false, reduceCtorEq, forall_const,
        IsEmpty.forall_iff] at * <;>
      omega

/-- The row of the prompt is behind the items, or the same on every screen. -/
theorem PlacesOf.promptY_cases (h : PlacesOf n config p) (hbasic : config.hideBasicHelp = false)
    (hn : 3 ≤ n) {n₀ : ℤ} {p₀ : Places} (h₀ : PlacesOf n₀ config p₀) :
    if config.promptBottom then p.promptYItemsStart ≤ p.promptY
    else p.promptY < p.promptYItemsStart ∧ p₀.promptY = p.promptY := by
  rw [h.promptYItemsStart, h.promptY, h₀.promptY]
  unfold Box.itemsStart Box.helpLabels
  rw [hbasic]
  cases config.promptBottom <;> cases config.helpOnOppositeSide <;> cases config.hideHistoryHelp <;>
    simp only [Bool.false_eq_true, if_true, if_false, reduceCtorEq, and_true] <;> omega

/-- So are the rows of the labels. -/
theorem PlacesOf.labels_cases (h : PlacesOf n config p) (hbasic : config.hideBasicHelp = false)
    (hn : 3 ≤ n) {n₀ : ℤ} {p₀ : Places} (h₀ : PlacesOf n₀ config p₀) :
    if Window.labelsAreOnBottom config then
      p.promptYItemsStart ≤ p.promptYHelp
        ∧ (config.hideHistoryHelp = false → p.promptYItemsStart ≤ p.promptYHistory)
    else
      (p.promptYHelp < p.promptYItemsStart ∧ p₀.promptYHelp = p.promptYHelp)
        ∧ (config.hideHistoryHelp = false →
          p.promptYHistory < p.promptYItemsStart ∧ p₀.promptYHistory = p.promptYHistory) := by
  have hhistory := h.promptYHistory
  have hhistory₀ := h₀.promptYHistory
  rw [h.promptYItemsStart, h.promptYHelp, h₀.promptYHelp]
  unfold Layout.labelRow at *
  unfold Window.labelsAreOnBottom Box.itemsStart Box.helpLabels
  rw [hbasic]
  generalize config.promptBottom = bottom, config.helpOnOppositeSide = opposite,
    config.hideHistoryHelp = history at *
  cases bottom <;> cases opposite <;> cases history <;>
    simp only [Bool.false_eq_true, Bool.not_true, Bool.not_false, Bool.and_true, Bool.and_false,
      Bool.or_true, Bool.or_false, Bool.and_self, Bool.or_self, if_true, if_false, reduceCtorEq,
      forall_const, IsEmpty.forall_iff, and_true] at * <;>
    omega

end Places

/-! ## What is shown -/

/-- What is known of the rows that show no items. -/
structure Expected where
  prompt : RowContent → Prop
  help : RowContent → Prop
  label : RowContent → Prop

/-- The rows show the items of `screen`, and besides what is expected. -/
structure Shown (p : Places) (screen : ℤ → Option SelectionRow) (x : Expected) (rows : RowMap) :
    Prop where
  within : ∀ y row, screen y = some row → p.OnItems y
  item : ∀ y row, screen y = some row → rows y = .item row
  blank : ∀ y, p.OnItems y → screen y = none → rows y = .blank
  prompt : x.prompt (rows p.promptY)
  help : x.help (rows p.promptYHelp)
  label : p.hideHistoryHelp = false → x.label (rows p.promptYHistory)

section Shown

variable {p : Places} {screen : ℤ → Option SelectionRow} {x : Expected} {rows : RowMap}

/-- What is expected may be weakened. -/
theorem Shown.mono (h : Shown p screen x rows) {x' : Expected}
    (hprompt : ∀ c, x.prompt c → x'.prompt c) (hhelp : ∀ c, x.help c → x'.help c)
    (hlabel : ∀ c, x.label c → x'.label c) : Shown p screen x' rows :=
  ⟨h.within, h.item, h.blank, hprompt _ h.prompt, hhelp _ h.help,
    fun hhide => hlabel _ (h.label hhide)⟩

/-- A row that is not for items changes; `x'` is what then stands there. -/
theorem Shown.update_frame (h : Shown p screen x rows) {y : ℤ} (hy : ¬ p.OnItems y) {c : RowContent}
    {x' : Expected} (hprompt : x'.prompt (Function.update rows y c p.promptY))
    (hhelp : x'.help (Function.update rows y c p.promptYHelp))
    (hlabel : p.hideHistoryHelp = false → x'.label (Function.update rows y c p.promptYHistory)) :
    Shown p screen x' (Function.update rows y c) := by
  refine ⟨h.within, fun y' row hrow => ?_, fun y' hy' hnone => ?_, hprompt, hhelp, hlabel⟩
  · have hne : y' ≠ y := fun heq => hy (heq ▸ h.within y' row hrow)
    rw [Function.update_of_ne hne]
    exact h.item y' row hrow
  · have hne : y' ≠ y := fun heq => hy (heq ▸ hy')
    rw [Function.update_of_ne hne]
    exact h.blank y' hy' hnone

/-- The prompt is printed on its own row. -/
theorem Shown.update_prompt (h : Shown p screen x rows) (hp : p.Apart) (c : RowContent) :
    Shown p screen { x with prompt := fun c' => c' = c } (Function.update rows p.promptY c) := by
  apply h.update_frame hp.prompt
  · exact Function.update_self ..
  · rw [Function.update_of_ne hp.help_ne_prompt]
    exact h.help
  · intro hhide
    rw [Function.update_of_ne (hp.history_ne_prompt hhide)]
    exact h.label hhide

theorem Shown.update_help (h : Shown p screen x rows) (hp : p.Apart) (c : RowContent) :
    Shown p screen { x with help := fun c' => c' = c } (Function.update rows p.promptYHelp c) := by
  apply h.update_frame hp.help
  · rw [Function.update_of_ne hp.help_ne_prompt.symm]
    exact h.prompt
  · exact Function.update_self ..
  · intro hhide
    rw [Function.update_of_ne (hp.history_ne_help hhide)]
    exact h.label hhide

theorem Shown.update_label (h : Shown p screen x rows) (hp : p.Apart)
    (hhide : p.hideHistoryHelp = false) (c : RowContent) :
    Shown p screen { x with label := fun c' => c' = c }
      (Function.update rows p.promptYHistory c) := by
  apply h.update_frame (hp.history hhide)
  · rw [Function.update_of_ne (hp.history_ne_prompt hhide).symm]
    exact h.prompt
  · rw [Function.update_of_ne (hp.history_ne_help hhide).symm]
    exact h.help
  · exact fun _ => Function.update_self ..

/-- An item is printed on a row for items, on both screens. -/
theorem Shown.update_item (h : Shown p screen x rows) (hp : p.Apart) {y : ℤ} (hy : p.OnItems y)
    (row : SelectionRow) :
    Shown p (Function.update screen y (some row)) x (Function.update rows y (.item row)) := by
  have hframe : ∀ {y'}, ¬ p.OnItems y' → Function.update rows y (.item row) y' = rows y' := by
    intro y' hy'
    have hne : y' ≠ y := fun heq => hy' (heq ▸ hy)
    exact Function.update_of_ne hne ..
  refine ⟨fun y' row' hrow => ?_, fun y' row' hrow => ?_, fun y' hy' hnone => ?_, ?_, ?_, ?_⟩
  · by_cases heq : y' = y
    · exact heq ▸ hy
    · rw [Function.update_of_ne heq] at hrow
      exact h.within y' row' hrow
  · by_cases heq : y' = y
    · rw [heq, Function.update_self] at hrow
      rw [heq, Function.update_self, Option.some.inj hrow]
    · rw [Function.update_of_ne heq] at hrow ⊢
      exact h.item y' row' hrow
  · by_cases heq : y' = y
    · rw [heq, Function.update_self] at hnone
      cases hnone
    · rw [Function.update_of_ne heq] at hnone ⊢
      exact h.blank y' hy' hnone
  · rw [hframe hp.prompt]
    exact h.prompt
  · rw [hframe hp.help]
    exact h.help
  · intro hhide
    rw [hframe (hp.history hhide)]
    exact h.label hhide

/-- The loop that prints the items. -/
theorem Shown.print_items (hp : p.Apart) (row : ℕ → ℤ) (items : List (CString × ℕ))
    (hitems : ∀ r ∈ items, p.OnItems (row r.2)) {screen : ℤ → Option SelectionRow} {rows : RowMap}
    (h : Shown p screen x rows) :
    Shown p
      (items.foldl (fun screen (text, i) => Loop.print_selection_row screen text (row i)) screen) x
      (items.foldl (fun rows (text, i) => print_selection_row rows text (row i)) rows) := by
  induction items generalizing screen rows with
  | nil => exact h
  | cons r items ih =>
      apply ih fun r' hr' => hitems r' (List.mem_cons_of_mem r hr')
      exact h.update_item hp (hitems r List.mem_cons_self) ⟨r.1, false⟩

end Shown

/-! ## What the functions make of it -/

section Prints

variable {n : ℤ} {config : Hstr R} {screen : ℤ → Option SelectionRow} {x : Expected} {rows : RowMap}

theorem Shown.help_printed {hstr : Hstr R} (h : Shown (places hstr) screen x rows)
    (hp : (places hstr).Apart) (hbasic : hstr.hideBasicHelp = false) :
    Shown (places hstr) screen { x with help := fun c => c = .help }
      (print_help_label hstr rows) := by
  rw [print_help_label, hbasic, if_neg Bool.false_ne_true]
  exact h.update_help hp .help

theorem Shown.label_printed {hstr : Hstr R} (h : Shown (places hstr) screen x rows)
    (hp : (places hstr).Apart) (history : HistoryItems) :
    Shown (places hstr) screen { x with label := fun c => c = .label (historyLabel hstr history) }
      (print_history_label hstr history rows) := by
  unfold print_history_label
  split
  · next hhide =>
      refine ⟨h.within, h.item, h.blank, h.prompt, h.help, fun hshown => ?_⟩
      rw [places, hhide] at hshown
      cases hshown
  · next hshown => exact h.update_label hp (Bool.eq_false_iff.mpr hshown) _

theorem Shown.notification_hidden {hstr : Hstr R} (h : Shown (places hstr) screen x rows)
    (hp : (places hstr).Apart) (hbasic : hstr.hideBasicHelp = false) (history : HistoryItems) :
    Shown (places hstr) screen { x with help := fun c => c = .help }
      (hide_notification hstr history rows) := by
  rw [hide_notification, hbasic]
  exact h.help_printed hp hbasic

/-- A notification takes the row of the basic help. -/
theorem Shown.notification_printed {hstr : Hstr R} (h : Shown (places hstr) screen x rows)
    (hp : (places hstr).Apart) (line : ScreenLine) (hline : line.y = hstr.promptYNotification) :
    Shown (places hstr) screen { x with help := fun c => c = .notification line.screenLine }
      (print_notification line rows) := by
  have hrow : hstr.promptYNotification = hstr.promptYHelp := hp.notification
  rw [print_notification, hline, hrow]
  exact h.update_help hp (.notification line.screenLine)

/-- A pattern that fits is printed behind the prompt. -/
theorem Shown.pattern_printed {hstr : Hstr R} (h : Shown (places hstr) screen x rows)
    (hp : (places hstr).Apart) (env : Env R) {maxx : ℤ} {pattern : CString}
    (hfits : 0 ≤ columnsLeft env pattern maxx)
    (hprompt : ∃ before, rows hstr.promptY = .prompt before) :
    Shown (places hstr) screen { x with prompt := fun c => c = .prompt pattern }
      (print_pattern env maxx (some pattern) hstr.promptY rows) := by
  obtain ⟨before, hbefore⟩ := hprompt
  rw [print_pattern, if_neg (not_lt.mpr hfits), hbefore]
  exact h.update_prompt hp (.prompt pattern)

end Prints

/-! ## Printing the selection -/

/-- What printing the selection makes of what was expected: the prompt and the labels
are printed again where they stand below the items. -/
def Expected.printed (x : Expected) (hstr : Hstr R) (history : HistoryItems)
    (pattern : Option CString) : Expected where
  prompt c := if hstr.promptBottom then c = .prompt (pattern.getD empty) else x.prompt c
  help c := if labelsAreOnBottom hstr then c = .help else x.help c
  label c := if labelsAreOnBottom hstr then c = .label (historyLabel hstr history) else x.label c

section Selection

variable {n₀ : ℤ} {p₀ : Places} {config : Hstr R} {screen₀ : ℤ → Option SelectionRow} {x : Expected}
  {rows : RowMap}

/-- Below the first row for items the screen is cleared. -/
theorem Shown.cleared (h : Shown p₀ screen₀ x rows) (hp₀ : PlacesOf n₀ config p₀)
    (hbasic : config.hideBasicHelp = false) {n : ℤ} (hn : 3 ≤ n) {p : Places}
    (hp : PlacesOf n config p) :
    Shown p (fun _ => none)
      { prompt := fun c => if config.promptBottom then c = .blank else x.prompt c
        help := fun c => if labelsAreOnBottom config then c = .blank else x.help c
        label := fun c => if labelsAreOnBottom config then c = .blank else x.label c }
      (clrtobot rows p.promptYItemsStart) := by
  have hblank : ∀ {y}, p.promptYItemsStart ≤ y → clrtobot rows p.promptYItemsStart y = .blank :=
    fun hy => if_pos hy
  have hkept : ∀ {y}, y < p.promptYItemsStart → clrtobot rows p.promptYItemsStart y = rows y :=
    fun hy => if_neg (not_le.mpr hy)
  have hprompt := hp.promptY_cases hbasic hn hp₀
  have hlabels := hp.labels_cases hbasic hn hp₀
  refine ⟨fun y row hrow => ?_, fun y row hrow => ?_, fun y hy _ => hblank hy.1, ?_, ?_,
    fun hhide => ?_⟩
  · cases hrow
  · cases hrow
  · cases hbottom : config.promptBottom with
    | true =>
        rw [hbottom, if_pos rfl] at hprompt
        exact hblank hprompt
    | false =>
        rw [hbottom, if_neg Bool.false_ne_true] at hprompt
        have hsame := h.prompt
        rw [hprompt.2, ← hkept hprompt.1] at hsame
        exact hsame
  · cases hbottom : labelsAreOnBottom config with
    | true =>
        rw [hbottom, if_pos rfl] at hlabels
        exact hblank hlabels.1
    | false =>
        rw [hbottom, if_neg Bool.false_ne_true] at hlabels
        have hsame := h.help
        rw [hlabels.1.2, ← hkept hlabels.1.1] at hsame
        exact hsame
  · have hhistory := hp.hideHistoryHelp.symm.trans hhide
    cases hbottom : labelsAreOnBottom config with
    | true =>
        rw [hbottom, if_pos rfl] at hlabels
        exact hblank (hlabels.2 hhistory)
    | false =>
        rw [hbottom, if_neg Bool.false_ne_true] at hlabels
        have hsame := h.label (hp₀.hideHistoryHelp.trans hhistory)
        obtain ⟨habove, hrow⟩ := hlabels.2 hhistory
        rw [hrow, ← hkept habove] at hsame
        exact hsame

/-- Labels at the bottom are printed again. -/
theorem Shown.labels_printed {hstr : Hstr R} {screen : ℤ → Option SelectionRow}
    (h : Shown (places hstr) screen x rows) (hp : (places hstr).Apart)
    (hbasic : hstr.hideBasicHelp = false) (history : HistoryItems) {help label : RowContent → Prop}
    (hhelp : x.help = fun c => if labelsAreOnBottom hstr then c = .blank else help c)
    (hlabel : x.label = fun c => if labelsAreOnBottom hstr then c = .blank else label c) :
    Shown (places hstr) screen
      { x with
        help := fun c => if labelsAreOnBottom hstr then c = .help else help c
        label := fun c =>
          if labelsAreOnBottom hstr then c = .label (historyLabel hstr history) else label c }
      (if labelsAreOnBottom hstr then
        print_history_label hstr history (print_help_label hstr rows)
      else rows) := by
  cases hbottom : labelsAreOnBottom hstr with
  | true =>
      simp only [if_true]
      exact (h.help_printed hp hbasic).label_printed hp history
  | false =>
      simp only [hbottom, Bool.false_eq_true, if_false] at hhelp hlabel ⊢
      exact h.mono (fun _ hc => hc) (fun c hc => by rwa [hhelp] at hc)
        (fun c hc => by rwa [hlabel] at hc)

/-- So is the prompt. -/
theorem Shown.prompt_printed {hstr : Hstr R} {screen : ℤ → Option SelectionRow}
    (h : Shown (places hstr) screen x rows) (hp : (places hstr).Apart) (env : Env R)
    {maxx : ℤ} {pattern : Option CString}
    (hfits : ∀ s, pattern = some s → 0 ≤ columnsLeft env s maxx)
    {prompt : RowContent → Prop}
    (hprompt : x.prompt = fun c => if hstr.promptBottom then c = .blank else prompt c) :
    Shown (places hstr) screen
      { x with
        prompt := fun c =>
          if hstr.promptBottom then c = .prompt (pattern.getD empty) else prompt c }
      (if hstr.promptBottom then print_pattern env maxx pattern hstr.promptY (print_prompt hstr rows)
      else rows) := by
  cases hbottom : hstr.promptBottom with
  | true =>
      simp only [hbottom, if_true] at hprompt ⊢
      have hblank : rows hstr.promptY = .blank := by
        have hrow := h.prompt
        rwa [hprompt] at hrow
      have hempty : print_prompt hstr rows = Function.update rows hstr.promptY (.prompt empty) := by
        rw [print_prompt, hblank]
      have hshown := h.update_prompt hp (.prompt empty)
      rw [hempty]
      cases pattern with
      | none => exact hshown
      | some s =>
          apply hshown.pattern_printed hp env (hfits s rfl)
          exact ⟨empty, Function.update_self ..⟩
  | false =>
      simp only [hbottom, Bool.false_eq_true, if_false] at hprompt ⊢
      exact h.mono (fun c hc => by rwa [hprompt] at hc) (fun _ hc => hc) fun _ hc => hc

/-- **Printing the selection** keeps the rows above the items and prints all
others. -/
theorem Shown.selection_printed (h : Shown p₀ screen₀ x rows) (hp₀ : PlacesOf n₀ config p₀)
    (hbasic : config.hideBasicHelp = false) (env : Env R) {s : LoopState R}
    (hsame : SameLayout config s.hstr) (hn : 3 ≤ s.maxy ∧ s.maxy < 2 ^ 31)
    (habove : ∀ y < itemsStart s.hstr, s.screen y = none) {pattern : Option CString}
    (hfits : ∀ p, pattern = some p → 0 ≤ columnsLeft env p s.maxx) :
    Shown (places (Loop.hstr_print_selection env s pattern).1.hstr)
      (Loop.hstr_print_selection env s pattern).1.screen
      (x.printed (Loop.hstr_print_selection env s pattern).1.hstr s.history pattern)
      (hstr_print_selection env s pattern rows) := by
  have hplaced : Placed s.maxy (Loop.hstr_print_selection env s pattern).1.hstr :=
    placed_recalculate hn _
  have hselected : SameLayout config (hstr_make_selection env.lib s.hstr pattern s.history
      (toUnsigned s.maxHistoryItems)) :=
    ⟨hsame.promptBottom, hsame.helpOnOppositeSide, hsame.hideBasicHelp, hsame.hideHistoryHelp⟩
  have hkeep : SameLayout config (Loop.hstr_print_selection env s pattern).1.hstr :=
    hselected.trans (sameLayout_recalculate s.maxy _)
  have hp : PlacesOf s.maxy config (places (Loop.hstr_print_selection env s pattern).1.hstr) :=
    placesOf_recalculate s.maxy hselected hbasic
  have hscreen := hstr_print_selection_screen env s pattern
  rw [hstr_print_selection]
  generalize (Loop.hstr_print_selection env s pattern).1.hstr = hstr at *
  have hapart := hp.apart hbasic hn.1
  have hclear : Loop.clrtobot s.screen hstr.promptYItemsStart = fun _ => none := by
    funext y
    unfold Loop.clrtobot
    split
    · rfl
    · next hlow =>
        apply habove
        rw [hsame.itemsStart, ← hp.promptYItemsStart]
        exact not_le.mp hlow
  have hcleared := h.cleared hp₀ hbasic hn.1 hp
  rw [← hkeep.labelsAreOnBottom, ← hkeep.promptBottom] at hcleared
  have hlabels := hcleared.labels_printed hapart (hkeep.hideBasicHelp.trans hbasic) s.history rfl
    rfl
  have hprompt := hlabels.prompt_printed hapart env hfits rfl
  rw [hscreen]
  simp only
  rw [hclear]
  apply Shown.print_items hapart _ _ _ hprompt
  -- there are no more items than rows for them
  rintro ⟨text, i⟩ hmem
  obtain ⟨h0, hlt⟩ := hplaced.promptItems_nonneg
  have hi : i < toUnsigned hstr.promptItems := by
    have hindex := List.snd_lt_of_mem_zipIdx hmem
    rw [List.length_take] at hindex
    omega
  rw [toUnsigned_eq h0 (by omega)] at hi
  have hend := hplaced.promptYItemsEnd
  show hstr.promptYItemsStart ≤ selectionRow hstr i ∧ selectionRow hstr i ≤ hstr.promptYItemsEnd
  unfold selectionRow
  split <;> omega

end Selection

end Hstr.Window
