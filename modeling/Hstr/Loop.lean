/-
`src/hstr.c`: `loop_to_select`, one key after another.

The state of the loop is what its variables and the structures behind them hold
between two keys, and the screen as far as it shows items: which row shows which
item, and whether the row is highlighted. This is what the functions that paint
the rows of items have painted: labels and notifications, the prompt and the
pattern, colours and how a row is cut to the width are left out. An event is a
key, with what `wgetch` gives should the key lead to a question, and `curses` has
a new size only where it reports `KEY_RESIZE`. Once the loop is done, it gets no
more keys.
-/
import Hstr.Box

set_option autoImplicit false

namespace Hstr.Loop

open Lib.Runs Hstr.Strings Hstr.Utils Hstr.History Hstr.Radixsort Hstr.Blacklist Hstr.Favorites
open Hstr.Regexp Hstr.Selection Hstr.Box

/-- What the loop gets from outside and does not change: `width` is that of the
screen when the loop starts, which the loop keeps over a resize, `basex` the column
behind the prompt, and `columnsShown` is what a string takes of the row there when
curses prints it, control characters and invalid bytes in its own notation. -/
structure Env (R : Type) where
  lib : RegexLib R
  locale : LcCtype
  shell : Shell
  width : ℤ
  basex : ℕ
  columnsShown : CString → ℤ
  isSubshellHint : Bool

/-- A row of the screen that shows an item. -/
structure SelectionRow where
  text : CString
  highlighted : Bool
  deriving DecidableEq

/-- The screen has `maxy` rows and `maxx` columns; `screen` is what the functions that
print items have left on it, and `Hstr.Window` has all that is printed. -/
structure LoopState (R : Type) where
  hstr : Hstr R
  history : HistoryItems
  historyState : HistoryState
  dirty : Bool
  favoritesFile : Option (List Byte)
  screen : ℤ → Option SelectionRow
  maxy : ℤ
  maxx : ℤ
  maxHistoryItems : ℤ
  pattern : CString
  lowercase : Bool
  selectionCursorPosition : ℤ
  result : Option CString
  almostDead : Option CString
  executeResult : Bool
  fixCommand : Bool
  editCommand : Bool
  done : Bool

/-- A key `c`, the answer `cc` to the question it may lead to, the size of the
screen from now on if one of them is `KEY_RESIZE`, and the memory behind the
copies of a deletion if it is one. -/
structure Event where
  c : ℤ
  cc : ℤ
  rows : ℤ
  columns : ℤ
  beyond : Beyond

variable {R : Type}

/-! ## Painting -/

def print_selection_row (screen : ℤ → Option SelectionRow) (text : CString) (y : ℤ) :
    ℤ → Option SelectionRow :=
  Function.update screen y (some ⟨text, false⟩)

def hstr_print_highlighted_selection_row (screen : ℤ → Option SelectionRow) (text : CString)
    (y : ℤ) : ℤ → Option SelectionRow :=
  Function.update screen y (some ⟨text, true⟩)

/-- `move(y, 0); clrtobot()`. -/
def clrtobot (screen : ℤ → Option SelectionRow) (y : ℤ) : ℤ → Option SelectionRow :=
  fun row => if row ≥ y then none else screen row

/-- The row `y` in round `i` of the loop of `hstr_print_selection`. -/
def selectionRow (hstr : Hstr R) (i : ℕ) : ℤ :=
  if hstr.promptBottom then hstr.promptYItemsEnd - i else hstr.promptYItemsStart + i

/-- `hstr_print_selection`, and its result. -/
def hstr_print_selection (env : Env R) (s : LoopState R) (pattern : Option CString) :
    LoopState R × Option CString :=
  let hstr := hstr_make_selection env.lib s.hstr pattern s.history (toUnsigned s.maxHistoryItems)
  let result := hstr.selection.head?
  let hstr := recalculate_max_history_items s.maxy hstr
  -- the layout is that of the screen as it is now
  let height := toUnsigned hstr.promptItems
  let screen := (hstr.selection.take height).zipIdx.foldl
    (fun screen (text, i) => print_selection_row screen text (selectionRow hstr i))
    (clrtobot s.screen hstr.promptYItemsStart)
  ({ s with hstr, screen }, result)

/-- `result=hstr_print_selection(maxHistoryItems, pattern)`. -/
def reprint (env : Env R) (s : LoopState R) : LoopState R :=
  let (s, result) := hstr_print_selection env s (some s.pattern)
  { s with result }

/-! ## The item under the cursor -/

def selection_index (hstr : Hstr R) (cursor : ℤ) : ℤ :=
  hstr_selection_index cursor hstr.promptBottom hstr.promptItems hstr.selection.length

def selection_cursor_move (hstr : Hstr R) (cursor step : ℤ) : ℤ :=
  hstr_selection_cursor_move cursor step hstr.promptBottom hstr.promptItems hstr.selection.length

/-- `getResultFromSelection`, and the element that the same test guards in
`highlight_selection`. -/
def getResultFromSelection (hstr : Hstr R) (selectionCursorPosition : ℤ) : Option CString :=
  let index := selection_index hstr selectionCursorPosition
  if index ≥ 0 then hstr.selection[index.toNat]? else none

def highlight_selection (s : LoopState R)
    (selectionCursorPosition previousSelectionCursorPosition : ℤ) : LoopState R :=
  let screen :=
    match getResultFromSelection s.hstr previousSelectionCursorPosition with
    | some text =>
        print_selection_row s.screen text
          (s.hstr.promptYItemsStart + previousSelectionCursorPosition)
    | none => s.screen
  let screen :=
    match getResultFromSelection s.hstr selectionCursorPosition with
    | some text =>
        hstr_print_highlighted_selection_row screen text
          (s.hstr.promptYItemsStart + selectionCursorPosition)
    | none => screen
  { s with screen }

/-- `choose_result`, and its result. -/
def choose_result (s : LoopState R) (selectionCursorPosition : ℤ) (fallback : Option CString) :
    LoopState R × Option CString :=
  match getResultFromSelection s.hstr selectionCursorPosition with
  | none => (s, fallback)
  | some chosen =>
      if s.hstr.view = .FAVORITES then
        let (favorites, file) := favorites_choose s.hstr.favorites s.favoritesFile (some chosen)
        ({ s with hstr := { s.hstr with favorites }, favoritesFile := file }, some chosen)
      else (s, some chosen)

/-- `remove_from_history_model`, and its result. -/
def remove_from_history_model (env : Env R) (s : LoopState R) (almostDead : CString)
    (beyond : Beyond) : LoopState R × ℕ :=
  if s.hstr.view = .FAVORITES then
    let (favorites, file, ret) :=
      favorites_remove s.hstr.favorites s.favoritesFile (some almostDead)
    ({ s with hstr := { s.hstr with favorites }, favoritesFile := file }, ret.toNat)
  else
    -- the views first: their items point to lines of the list
    let (history, historyState, systemOccurences) :=
      removeFromHistory { env.shell with beyond } almostDead s.history s.historyState
    ({ s with history, historyState, dirty := s.dirty || decide (systemOccurences ≠ 0) },
      systemOccurences)

/-! ## The keys -/

/-- The cases of the `switch`, each under its last label. -/
inductive KeyCase
  | KEY_END
  | KEY_DC
  | K_CTRL_E
  | K_CTRL_T
  | K_CTRL_SLASH
  | K_CTRL_F
  | KEY_RESIZE
  | K_CTRL_U
  | K_CTRL_L
  | KEY_BACKSPACE
  | KEY_NPAGE
  | KEY_ENTER
  | KEY_LEFT
  | KEY_RIGHT
  | K_ESC
  | K_CTRL_X
  | default
  deriving DecidableEq

def keyCase (c : ℤ) : KeyCase :=
  if c = KEY_HOME ∨ c = KEY_END then .KEY_END
  else if c = KEY_DC then .KEY_DC
  else if c = K_CTRL_E then .K_CTRL_E
  else if c = K_CTRL_T then .K_CTRL_T
  else if c = K_CTRL_SLASH then .K_CTRL_SLASH
  else if c = K_CTRL_F then .K_CTRL_F
  else if c = KEY_RESIZE then .KEY_RESIZE
  else if c = K_CTRL_W ∨ c = K_CTRL_U then .K_CTRL_U
  else if c = K_CTRL_L then .K_CTRL_L
  else if c = K_CTRL_H ∨ c = K_BACKSPACE ∨ c = KEY_BACKSPACE then .KEY_BACKSPACE
  else if c = KEY_UP ∨ c = K_CTRL_K ∨ c = K_CTRL_P ∨ c = KEY_DOWN ∨ c = K_CTRL_J ∨ c = K_CTRL_N
      ∨ c = KEY_PPAGE ∨ c = KEY_NPAGE then .KEY_NPAGE
  else if c = K_ENTER ∨ c = KEY_ENTER then .KEY_ENTER
  else if c = KEY_LEFT then .KEY_LEFT
  else if c = K_TAB ∨ c = KEY_RIGHT then .KEY_RIGHT
  else if c = K_CTRL_G ∨ c = K_ESC then .K_ESC
  else if c = K_CTRL_X then .K_CTRL_X
  else .default

/-- `hstr->matching++; hstr->matching=hstr->matching%HSTR_NUM_HISTORY_MATCH`. -/
def nextMatching : Matching → Matching
  | .SUBSTRING => .REGEXP
  | .REGEXP => .KEYWORDS
  | .KEYWORDS => .SUBSTRING

def hstr_next_view : View → View
  | .RANKING => .HISTORY
  | .HISTORY => .FAVORITES
  | .FAVORITES => .RANKING

/-- `wgetch` gives `key`. -/
def wgetch (s : LoopState R) (key rows columns : ℤ) : LoopState R :=
  if key = KEY_RESIZE then { s with maxy := rows, maxx := columns } else s

/-- The question of the case `KEY_DC`, where it is asked. -/
def confirmDelete (s : LoopState R) (e : Event) (msg : CString) : LoopState R :=
  let s := { s with almostDead := some msg }
  if s.hstr.noConfirm then s else wgetch s e.cc e.rows e.columns

/-- The answer is no more than a key: where it is a resize, the screen has that
size. -/
theorem confirmDelete_eq (s : LoopState R) (e : Event) (msg : CString) :
    confirmDelete s e msg = { s with
      almostDead := some msg
      maxy := if s.hstr.noConfirm = false ∧ e.cc = KEY_RESIZE then e.rows else s.maxy
      maxx := if s.hstr.noConfirm = false ∧ e.cc = KEY_RESIZE then e.columns else s.maxx } := by
  unfold confirmDelete wgetch
  by_cases hresize : e.cc = KEY_RESIZE
  · cases hask : s.hstr.noConfirm <;> simp [hask, hresize]
  · simp [hresize]

/-- Where no answer changes the height, it may still change the width. -/
theorem confirmDelete_of_rows {s : LoopState R} {e : Event}
    (hrows : e.cc = KEY_RESIZE → e.rows = s.maxy) (msg : CString) :
    ∃ maxx, confirmDelete s e msg = { s with almostDead := some msg, maxx } := by
  refine ⟨(confirmDelete s e msg).maxx, ?_⟩
  rw [confirmDelete_eq]
  split
  · next hresize => rw [hrows hresize.2]
  · rfl

/-- What the case `KEY_DC` does with the answer. -/
def deleteConfirmed (env : Env R) (s : LoopState R) (e : Event) (msg : CString) : LoopState R :=
  if s.hstr.noConfirm ∨ e.cc = 121 then reprint env (remove_from_history_model env s msg e.beyond).1
  else s

/-- The end of the case `KEY_DC`: the selection may have shrunk. -/
def keepOnSelectionRow (s : LoopState R) : LoopState R :=
  let cursor := selection_cursor_move s.hstr s.selectionCursorPosition 0
  highlight_selection { s with selectionCursorPosition := cursor } cursor
    SELECTION_CURSOR_IN_PROMPT

/-- The case `KEY_DC`, the key DEL. -/
def deleteItem (env : Env R) (s : LoopState R) (e : Event) : LoopState R :=
  match getResultFromSelection s.hstr s.selectionCursorPosition with
  | none => { s with almostDead := none }
  | some msg => keepOnSelectionRow (deleteConfirmed env (confirmDelete s e msg) e msg)

/-- The case `K_CTRL_F`. -/
def addFavorite (env : Env R) (s : LoopState R) : LoopState R :=
  match getResultFromSelection s.hstr s.selectionCursorPosition with
  | none => s
  | some favorite =>
      let (favorites, file) :=
        if s.hstr.view = .FAVORITES then
          favorites_choose s.hstr.favorites s.favoritesFile (some favorite)
        else favorites_add s.hstr.favorites s.favoritesFile (some favorite)
      let s := { s with hstr := { s.hstr with favorites }, favoritesFile := file }
      { reprint env s with selectionCursorPosition := SELECTION_CURSOR_IN_PROMPT }

/-- The case of the backspaces; the first selection it makes is made again by
`hstr_print_selection`. -/
def deleteCharacter (env : Env R) (s : LoopState R) : LoopState R :=
  let s := { s with pattern := if strlen s.pattern > 0 then hstr_chop s.pattern else s.pattern }
  let prefixPattern := if strlen s.pattern > 0 then some s.pattern else none
  let s := { s with
    hstr := hstr_make_selection env.lib s.hstr prefixPattern s.history
      (toUnsigned s.maxHistoryItems) }
  { reprint env s with selectionCursorPosition := SELECTION_CURSOR_IN_PROMPT }

/-- The case `default`, for a key that may belong to the pattern. -/
def typeCharacter (env : Env R) (s : LoopState R) (c : ℤ) : LoopState R :=
  if c > K_CTRL_Z then
    let s := { s with selectionCursorPosition := SELECTION_CURSOR_IN_PROMPT }
    let (pattern, _) := hstr_strcat_char_fitting env.locale s.pattern PATTERN_BUFFER_LNG c
      (env.width - env.basex - 1)
    reprint env { s with pattern }
  else s

/-- The `switch` for the key `c`. -/
def handle (env : Env R) (s : LoopState R) (e : Event) (c : ℤ) : LoopState R :=
  match keyCase c with
  | .KEY_END => s
  | .KEY_DC => deleteItem env s e
  | .K_CTRL_E =>
      let s := { s with hstr := { s.hstr with matching := nextMatching s.hstr.matching } }
      { reprint env s with selectionCursorPosition := SELECTION_CURSOR_IN_PROMPT }
  | .K_CTRL_T =>
      let caseSensitive := !s.hstr.caseSensitive
      let regexp := { s.hstr.regexp with caseSensitive }
      let s := { s with hstr := { s.hstr with caseSensitive, regexp } }
      { reprint env s with selectionCursorPosition := SELECTION_CURSOR_IN_PROMPT }
  | .K_CTRL_SLASH =>
      let s := { s with hstr := { s.hstr with view := hstr_next_view s.hstr.view } }
      { reprint env s with selectionCursorPosition := SELECTION_CURSOR_IN_PROMPT }
  | .K_CTRL_F => addFavorite env s
  | .KEY_RESIZE =>
      let hstr := recalculate_max_history_items s.maxy s.hstr
      let s := { s with hstr, maxHistoryItems := hstr.promptItems }
      { reprint env s with selectionCursorPosition := SELECTION_CURSOR_IN_PROMPT }
  -- only the prompt is printed again
  | .K_CTRL_U => { s with pattern := empty }
  | .K_CTRL_L =>
      { s with
        -- the prompt is printed again, and the selection stays on the screen
        pattern := toggle_case s.pattern s.lowercase
        lowercase := !s.lowercase
        selectionCursorPosition := SELECTION_CURSOR_IN_PROMPT }
  | .KEY_BACKSPACE => deleteCharacter env s
  | .KEY_NPAGE =>
      let cursor :=
        selection_cursor_move s.hstr s.selectionCursorPosition (hstr_selection_cursor_step c)
      highlight_selection { s with selectionCursorPosition := cursor } cursor
        s.selectionCursorPosition
  | .KEY_ENTER =>
      -- `result` is what the last printing of the selection gave
      let fallback := if s.hstr.selection.length ≠ 0 then s.hstr.selection.head? else s.result
      let (s, result) := choose_result s s.selectionCursorPosition fallback
      { s with executeResult := true, result, done := true }
  | .KEY_LEFT =>
      let (s, result) := choose_result s s.selectionCursorPosition (some s.pattern)
      { s with fixCommand := true, executeResult := true, result, done := true }
  | .KEY_RIGHT =>
      let editCommand := if !env.isSubshellHint then true else s.editCommand
      let (s, result) := choose_result s s.selectionCursorPosition (some s.pattern)
      { s with editCommand, result, done := true }
  | .K_ESC => { s with result := none, dirty := false, done := true }
  | .K_CTRL_X => { s with result := none, done := true }
  | .default => typeCharacter env s c

/-! ## The loop -/

/-- `maxHistoryItems=recalculate_max_history_items()`. -/
def recalculate (s : LoopState R) : LoopState R :=
  let hstr := recalculate_max_history_items s.maxy s.hstr
  { s with hstr, maxHistoryItems := hstr.promptItems }

/-- The state in which the key of a round is processed. -/
def ready (s : LoopState R) (e : Event) : LoopState R := wgetch (recalculate s) e.c e.rows e.columns

/-- The key that the `switch` gets. -/
def keyOf (s : LoopState R) (e : Event) : ℤ :=
  if e.c = K_CTRL_R then if s.hstr.promptBottom then K_CTRL_P else K_CTRL_N else e.c

/-- A round of the loop that reads a key. -/
def step (env : Env R) (s : LoopState R) (e : Event) : LoopState R :=
  if s.done then s else handle env (ready s e) e (keyOf s e)

/-- The variables as they are declared, on the cleared screen. -/
def declared (hstr : Hstr R) (history : HistoryItems) (historyState : HistoryState)
    (favoritesFile : Option (List Byte)) (maxy maxx : ℤ) : LoopState R where
  hstr := hstr
  history := history
  historyState := historyState
  dirty := false
  favoritesFile := favoritesFile
  screen := fun _ => none
  maxy := maxy
  maxx := maxx
  maxHistoryItems := 0
  pattern := empty
  lowercase := true
  selectionCursorPosition := SELECTION_CURSOR_IN_PROMPT
  result := some empty
  almostDead := none
  executeResult := false
  fixCommand := false
  editCommand := false
  done := false

/-- The first screen, which is printed for no pattern, and the pattern of the
command line. -/
def firstScreen (env : Env R) (s : LoopState R) : LoopState R :=
  recalculate { (hstr_print_selection env (recalculate s) none).1 with
    pattern := truncate s.hstr.cmdline (PATTERN_BUFFER_LNG - 1) }

/-- The loop before it reads the first key: a round without a key prints the
selection for the pattern, if there is one. -/
def start (env : Env R) (hstr : Hstr R) (history : HistoryItems) (historyState : HistoryState)
    (favoritesFile : Option (List Byte)) (maxy : ℤ) : LoopState R :=
  let s := firstScreen env (declared hstr history historyState favoritesFile maxy env.width)
  if strlen s.pattern ≠ 0 then reprint env s else s

/-- `loop_to_select`, as far as it got with the given keys. -/
def loop_to_select (env : Env R) (hstr : Hstr R) (history : HistoryItems)
    (historyState : HistoryState) (favoritesFile : Option (List Byte)) (maxy : ℤ)
    (events : List Event) : LoopState R :=
  run (step env) (start env hstr history historyState favoritesFile maxy) events

/-! ## What a round starts with

Before the `switch`, a round lays the screen out and reads a key; the query, the
selection and the cursor are those the round before left. -/

@[simp] theorem ready_hstr (s : LoopState R) (e : Event) :
    (ready s e).hstr = recalculate_max_history_items s.maxy s.hstr := by
  unfold ready wgetch
  split <;> rfl

@[simp] theorem ready_history (s : LoopState R) (e : Event) : (ready s e).history = s.history := by
  unfold ready wgetch
  split <;> rfl

@[simp] theorem ready_pattern (s : LoopState R) (e : Event) : (ready s e).pattern = s.pattern := by
  unfold ready wgetch
  split <;> rfl

@[simp] theorem ready_lowercase (s : LoopState R) (e : Event) :
    (ready s e).lowercase = s.lowercase := by
  unfold ready wgetch
  split <;> rfl

@[simp] theorem ready_selectionCursorPosition (s : LoopState R) (e : Event) :
    (ready s e).selectionCursorPosition = s.selectionCursorPosition := by
  unfold ready wgetch
  split <;> rfl

@[simp] theorem ready_screen (s : LoopState R) (e : Event) : (ready s e).screen = s.screen := by
  unfold ready wgetch
  split <;> rfl

theorem recalculate_hstr (s : LoopState R) :
    (recalculate s).hstr = recalculate_max_history_items s.maxy s.hstr := rfl

theorem hstr_print_selection_hstr (env : Env R) (s : LoopState R) (pattern : Option CString) :
    (hstr_print_selection env s pattern).1.hstr
      = recalculate_max_history_items s.maxy
        (hstr_make_selection env.lib s.hstr pattern s.history (toUnsigned s.maxHistoryItems)) := rfl

theorem hstr_print_selection_maxy (env : Env R) (s : LoopState R) (pattern : Option CString) :
    (hstr_print_selection env s pattern).1.maxy = s.maxy := rfl

theorem firstScreen_hstr (env : Env R) (s : LoopState R) :
    (firstScreen env s).hstr
      = recalculate_max_history_items s.maxy (recalculate_max_history_items s.maxy
        (hstr_make_selection env.lib (recalculate s).hstr none s.history
          (toUnsigned (recalculate s).maxHistoryItems))) := by
  rw [firstScreen, recalculate_hstr]
  simp only [hstr_print_selection_hstr, hstr_print_selection_maxy]
  rfl

theorem firstScreen_pattern (env : Env R) (s : LoopState R) :
    (firstScreen env s).pattern = truncate s.hstr.cmdline (PATTERN_BUFFER_LNG - 1) := rfl

theorem firstScreen_history (env : Env R) (s : LoopState R) :
    (firstScreen env s).history = s.history := rfl

theorem step_of_done {env : Env R} {s : LoopState R} (h : s.done = true) (e : Event) :
    step env s e = s := if_pos h

theorem step_of_not_done {env : Env R} {s : LoopState R} (h : s.done = false) (e : Event) :
    step env s e = handle env (ready s e) e (keyOf s e) := if_neg (by simp [h])

/-- A key other than Ctrl-r is handled as it is. -/
theorem keyOf_eq (s : LoopState R) {e : Event} (h : e.c ≠ K_CTRL_R) : keyOf s e = e.c := if_neg h

/-- Ctrl-r moves the cursor. -/
theorem keyCase_keyOf_CTRL_R (s : LoopState R) {e : Event} (h : e.c = K_CTRL_R) :
    keyCase (keyOf s e) = .KEY_NPAGE := by
  unfold keyOf
  rw [if_pos h]
  split <;> decide

/-- A key that does not move the cursor down by a page is handled as it is. -/
theorem keyOf_eq_of_keyCase_ne {s : LoopState R} {e : Event}
    (h : keyCase (keyOf s e) ≠ .KEY_NPAGE) : keyOf s e = e.c :=
  keyOf_eq s fun hr => h (keyCase_keyOf_CTRL_R s hr)

theorem eq_of_keyCase_CTRL_U {s : LoopState R} {e : Event}
    (h : keyCase (keyOf s e) = .K_CTRL_U) : e.c = K_CTRL_W ∨ e.c = K_CTRL_U := by
  rw [keyOf_eq_of_keyCase_ne (by simp [h])] at h
  simp only [keyCase, ite_eq_iff, reduceCtorEq, and_false, and_true, false_or, or_false] at h
  tauto

theorem eq_of_keyCase_CTRL_L {s : LoopState R} {e : Event}
    (h : keyCase (keyOf s e) = .K_CTRL_L) : e.c = K_CTRL_L := by
  rw [keyOf_eq_of_keyCase_ne (by simp [h])] at h
  simp only [keyCase, ite_eq_iff, reduceCtorEq, and_false, and_true, false_or, or_false] at h
  tauto

/-! ## What the loop does to `Hstr`

All handlers together do six things to the structure: they lay it out, select,
switch the matching, the view or the case mode, and change the favorites. -/

/-- A property that these six keep. -/
structure Stable (env : Env R) (I : Hstr R → Prop) : Prop where
  layout : ∀ n hstr, I hstr → I (recalculate_max_history_items n hstr)
  select : ∀ hstr pattern history n, I hstr →
    I (hstr_make_selection env.lib hstr pattern history n)
  matching : ∀ hstr matching, I hstr → I { hstr with matching }
  view : ∀ hstr view, I hstr → I { hstr with view }
  caseSensitive : ∀ hstr caseSensitive, I hstr →
    I { hstr with caseSensitive, regexp := { hstr.regexp with caseSensitive } }
  favorites : ∀ hstr favorites, I hstr → I { hstr with favorites }

variable {env : Env R} {I : Hstr R → Prop}

theorem Stable.print_selection (hst : Stable env I) {s : LoopState R} (h : I s.hstr)
    (pattern : Option CString) : I (hstr_print_selection env s pattern).1.hstr :=
  hst.layout _ _ (hst.select _ _ _ _ h)

theorem Stable.reprint (hst : Stable env I) {s : LoopState R} (h : I s.hstr) :
    I (reprint env s).hstr := hst.print_selection h (some s.pattern)

theorem Stable.deleteItem (hst : Stable env I) {s : LoopState R} (h : I s.hstr) (e : Event) :
    I (deleteItem env s e).hstr := by
  have hasked : ∀ msg, I (confirmDelete s e msg).hstr := by
    intro msg
    rw [confirmDelete_eq]
    exact h
  -- a favorite is removed, or the views and the list change
  have hremoved : ∀ (t : LoopState R) msg, I t.hstr →
      I (remove_from_history_model env t msg e.beyond).1.hstr := by
    intro t msg ht
    unfold remove_from_history_model
    split
    · exact hst.favorites _ _ ht
    · exact ht
  unfold Loop.deleteItem
  split
  · exact h
  · simp only [keepOnSelectionRow, highlight_selection, deleteConfirmed]
    split
    · exact hst.reprint (hremoved _ _ (hasked _))
    · exact hasked _

theorem Stable.addFavorite (hst : Stable env I) {s : LoopState R} (h : I s.hstr) :
    I (addFavorite env s).hstr := by
  unfold Loop.addFavorite
  split
  · exact h
  · exact hst.reprint (hst.favorites _ _ h)

theorem Stable.choose_result (hst : Stable env I) {s : LoopState R} (h : I s.hstr) (cursor : ℤ)
    (fallback : Option CString) : I (choose_result s cursor fallback).1.hstr := by
  unfold Loop.choose_result
  split
  · exact h
  · split
    · exact hst.favorites _ _ h
    · exact h

theorem Stable.typeCharacter (hst : Stable env I) {s : LoopState R} (h : I s.hstr) (c : ℤ) :
    I (typeCharacter env s c).hstr := by
  unfold Loop.typeCharacter
  split
  · exact hst.reprint h
  · exact h

/-- **A round keeps a stable property.** -/
theorem Stable.step (hst : Stable env I) {s : LoopState R} (h : I s.hstr) (e : Event) :
    I (step env s e).hstr := by
  unfold Loop.step
  split
  · exact h
  · have hready : I (ready s e).hstr := by
      rw [ready_hstr]
      exact hst.layout _ _ h
    -- one case for each key; the cursor, the pattern and the screen are no part of `Hstr`
    unfold handle
    cases keyCase (keyOf s e) with
    | KEY_END => exact hready
    | KEY_DC => exact hst.deleteItem hready e
    | K_CTRL_E => exact hst.reprint (hst.matching _ _ hready)
    | K_CTRL_T => exact hst.reprint (hst.caseSensitive _ _ hready)
    | K_CTRL_SLASH => exact hst.reprint (hst.view _ _ hready)
    | K_CTRL_F => exact hst.addFavorite hready
    | KEY_RESIZE => exact hst.reprint (hst.layout _ _ hready)
    | K_CTRL_U => exact hready
    | K_CTRL_L => exact hready
    | KEY_BACKSPACE => exact hst.reprint (hst.select _ _ _ _ hready)
    | KEY_NPAGE => exact hready
    | KEY_ENTER => exact hst.choose_result hready _ _
    | KEY_LEFT => exact hst.choose_result hready _ _
    | KEY_RIGHT => exact hst.choose_result hready _ _
    | K_ESC => exact hready
    | K_CTRL_X => exact hready
    | default => exact hst.typeCharacter hready _

theorem Stable.start (hst : Stable env I) {hstr : Hstr R} (h : I hstr) (history : HistoryItems)
    (historyState : HistoryState) (favoritesFile : Option (List Byte)) (maxy : ℤ) :
    I (start env hstr history historyState favoritesFile maxy).hstr := by
  have hfirst :
      I (firstScreen env (declared hstr history historyState favoritesFile maxy env.width)).hstr := by
    rw [firstScreen_hstr]
    exact hst.layout _ _ (hst.layout _ _ (hst.select _ _ _ _ (hst.layout _ _ h)))
  unfold Loop.start
  simp only
  split
  · exact hst.reprint hfirst
  · exact hfirst

/-- **The loop keeps a stable property**, whatever keys it gets. -/
theorem Stable.loop_to_select (hst : Stable env I) {hstr : Hstr R} (h : I hstr)
    (history : HistoryItems) (historyState : HistoryState) (favoritesFile : Option (List Byte))
    (maxy : ℤ) (events : List Event) :
    I (loop_to_select env hstr history historyState favoritesFile maxy events).hstr :=
  (always_of_step (I := fun s : LoopState R => I s.hstr) (fun _ e h => hst.step h e)
    (hst.start h history historyState favoritesFile maxy) events).last

/-! ## A terminal to run the loop on -/

/-- A terminal with 80 columns in the C locale, under bash, where regexps have no
special characters. -/
def plainEnv : Env (CString × Bool) where
  lib := literalRegex
  locale := {
    mbrtowc := fun s =>
      match s with
      | [] => .incomplete
      | c :: _ => if c = 0 then .nul else .char c.toNat 1
    wcwidth := fun _ => 1 }
  shell := bash
  width := 80
  basex := 2
  columnsShown := fun s => strlen s
  isSubshellHint := false

/-- A key there; nothing is behind copies. -/
def press (c cc rows : ℤ) : Event := ⟨c, cc, rows, 80, fun _ => []⟩

/-- The history `git`, `make`. -/
def plainState : HistoryState where
  entries := [⟨0, some (lit "git")⟩, ⟨1, some (lit "make")⟩]
  size := 2
  distinct := by decide

/-- Its views, as they are without a blacklist file. -/
def plainItems : HistoryItems where
  items := [lit "make", lit "git"]
  rawItems := [⟨.line 1, lit "make"⟩, ⟨.line 0, lit "git"⟩]
  unmetafiedItems := []

theorem plainItems_created :
    prioritized_history_create plainEnv.shell (fun rank index length => rank + index + length)
        .SKIP (blacklist_load blacklist_init none).set (some plainState)
      = .ok (some plainItems) := rfl

/-- The loop for this history before its first key on `plainEnv` with 24 rows, for
the value of `HSTR_CONFIG` and a pattern of the command line. -/
def plainStart (hstr_config : Option CString) (cmdline : CString) : LoopState (CString × Bool) :=
  start plainEnv { hstr_get_env_configuration (hstr_init zeroed) hstr_config with cmdline }
    plainItems plainState none 24

end Hstr.Loop
