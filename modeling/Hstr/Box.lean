/-
`src/hstr.c`: the state of the suggest box, its configuration and its selection.

`Hstr` is the structure the program allocates once. `selection` is the part `selection[0..selectionSize)`
of the array, `selectionCapacity` the number of elements that are allocated (0
for `NULL`), and an element of `selectionRegexpMatch` is `none` until it is
written. The history views, which do not exist yet when the structure is
initialised, are passed beside it, as `hstr_make_selection` has them anyway.
-/
import Hstr.Blacklist
import Hstr.Favorites
import Hstr.History
import Hstr.Regexp
import Hstr.Selection

set_option autoImplicit false
set_option linter.dupNamespace false

namespace Hstr.Box

open Hstr.Strings Hstr.Hashset Hstr.Radixsort Hstr.Utils Hstr.History Hstr.Favorites Hstr.Blacklist
open Hstr.Regexp Hstr.Selection

def PATTERN_BUFFER_LNG : ℕ := 512

def CMDLINE_LNG : ℕ := 8192

/-- `HSTR_VIEW_RANKING`, `HSTR_VIEW_HISTORY`, `HSTR_VIEW_FAVORITES`. -/
inductive View
  | RANKING
  | HISTORY
  | FAVORITES
  deriving DecidableEq

/-- `HSTR_MATCH_SUBSTRING`, `HSTR_MATCH_REGEXP`, `HSTR_MATCH_KEYWORDS`. -/
inductive Matching
  | SUBSTRING
  | REGEXP
  | KEYWORDS
  deriving DecidableEq

/-- `HSTR_THEME_MONO`, `HSTR_THEME_LIGHT`, `HSTR_THEME_DARK`. -/
inductive Theme
  | MONO
  | LIGHT
  | DARK
  deriving DecidableEq

/-- `HSTR_DEBUG_LEVEL_NONE`, `HSTR_DEBUG_LEVEL_WARN`, `HSTR_DEBUG_LEVEL_DEBUG`. -/
inductive DebugLevel
  | NONE
  | WARN
  | DEBUG
  deriving DecidableEq

def HSTR_CASE_INSENSITIVE : Bool := false

def HSTR_CASE_SENSITIVE : Bool := true

/-- `Hstr`, without `noIoctl`. -/
structure Hstr (R : Type) where
  favorites : FavoriteItems
  blacklist : Blacklist
  regexp : HstrRegexp R
  cmdline : CString
  selection : List CString
  selectionCapacity : ℕ
  selectionRegexpMatch : ℕ → Option RegMatch
  interactive : Bool
  matching : Matching
  view : View
  caseSensitive : Bool
  theme : Theme
  noRawHistoryDuplicates : Bool
  keepPage : Bool
  noConfirm : Bool
  verboseKill : Bool
  bigKeys : BigKeys
  debugLevel : DebugLevel
  promptBottom : Bool
  helpOnOppositeSide : Bool
  hideBasicHelp : Bool
  hideHistoryHelp : Bool
  promptY : ℤ
  promptYHelp : ℤ
  promptYHistory : ℤ
  promptYNotification : ℤ
  promptYItemsStart : ℤ
  promptYItemsEnd : ℤ
  promptItems : ℤ

variable {R : Type}

/-! ## Initialisation and configuration -/

/-- `hstr_init` on the memory that `malloc` gave: the one field that no
assignment reaches is `regexp.caseSensitive`. -/
def hstr_init (memory : Hstr R) : Hstr R where
  favorites := favorites_init
  blacklist := blacklist_init
  regexp := hstr_regexp_init memory.regexp
  cmdline := empty
  selection := []
  selectionCapacity := 0
  selectionRegexpMatch := fun _ => none
  interactive := true
  matching := .KEYWORDS
  view := .RANKING
  caseSensitive := HSTR_CASE_INSENSITIVE
  theme := .MONO
  noRawHistoryDuplicates := true
  keepPage := false
  noConfirm := false
  verboseKill := false
  bigKeys := .SKIP
  debugLevel := .NONE
  promptBottom := false
  helpOnOppositeSide := false
  hideBasicHelp := false
  hideHistoryHelp := false
  promptY := 0
  promptYHelp := 0
  promptYHistory := 0
  promptYNotification := 0
  promptYItemsStart := 0
  promptYItemsEnd := 0
  promptItems := 0

/-- Memory of zero bytes; `hstr_init` replaces all but one of its fields. -/
def zeroed : Hstr R where
  favorites := favorites_init
  blacklist := blacklist_init
  regexp := ⟨false, hashset_init⟩
  cmdline := empty
  selection := []
  selectionCapacity := 0
  selectionRegexpMatch := fun _ => none
  interactive := false
  matching := .SUBSTRING
  view := .RANKING
  caseSensitive := false
  theme := .MONO
  noRawHistoryDuplicates := false
  keepPage := false
  noConfirm := false
  verboseKill := false
  bigKeys := .SKIP
  debugLevel := .NONE
  promptBottom := false
  helpOnOppositeSide := false
  hideBasicHelp := false
  hideHistoryHelp := false
  promptY := 0
  promptYHelp := 0
  promptYHistory := 0
  promptYNotification := 0
  promptYItemsStart := 0
  promptYItemsEnd := 0
  promptItems := 0

/-- The rows of the help labels that are shown, downwards from `top`. -/
def labelsFromTop (hstr : Hstr R) (top : ℤ) : Hstr R × ℤ :=
  let (hstr, top) :=
    if !hstr.hideBasicHelp then ({ hstr with promptYHelp := top }, top + 1) else (hstr, top)
  if !hstr.hideHistoryHelp then ({ hstr with promptYHistory := top }, top + 1) else (hstr, top)

/-- The rows of the help labels that are shown, upwards from `bottom`. -/
def labelsFromBottom (hstr : Hstr R) (bottom : ℤ) : Hstr R :=
  let (hstr, bottom) :=
    if !hstr.hideBasicHelp then ({ hstr with promptYHelp := bottom }, bottom - 1)
    else (hstr, bottom)
  if !hstr.hideHistoryHelp then { hstr with promptYHistory := bottom } else hstr

/-- `recalculate_max_history_items` on a screen of `n` rows; its result is
`promptItems`. -/
def recalculate_max_history_items (n : ℤ) (hstr : Hstr R) : Hstr R :=
  let promptItems := n - 1
  let promptItems := if !hstr.hideBasicHelp then promptItems - 1 else promptItems
  let promptItems := if !hstr.hideHistoryHelp then promptItems - 1 else promptItems
  let hstr := { hstr with promptItems }
  let hstr :=
    if hstr.promptBottom then
      if hstr.helpOnOppositeSide then
        let (hstr, top) := labelsFromTop { hstr with promptY := n - 1 } 0
        { hstr with promptYItemsStart := top }
      else
        let hstr := labelsFromBottom { hstr with promptY := n - 1 } (n - 2)
        { hstr with promptYItemsStart := 0 }
    else
      if hstr.helpOnOppositeSide then
        let hstr := labelsFromBottom { hstr with promptY := 0 } (n - 1)
        { hstr with promptYItemsStart := 1 }
      else
        let (hstr, top) := labelsFromTop { hstr with promptY := 0 } 1
        { hstr with promptYItemsStart := top }
  let hstr := { hstr with promptYItemsEnd := hstr.promptYItemsStart + hstr.promptItems - 1 }
  if !hstr.hideBasicHelp then { hstr with promptYNotification := hstr.promptYHelp }
  else if !hstr.hideHistoryHelp then { hstr with promptYHelp := hstr.promptYHistory }
  else if (hstr.promptBottom && hstr.helpOnOppositeSide)
      || (!hstr.promptBottom && !hstr.helpOnOppositeSide) then
    { hstr with promptYHelp := hstr.promptYItemsStart }
  else { hstr with promptYHelp := hstr.promptYItemsEnd }

/-- Laying out changes the layout and nothing else. -/
theorem recalculate_max_history_items_eq (n : ℤ) (hstr : Hstr R) :
    recalculate_max_history_items n hstr = { hstr with
      promptY := (recalculate_max_history_items n hstr).promptY
      promptYHelp := (recalculate_max_history_items n hstr).promptYHelp
      promptYHistory := (recalculate_max_history_items n hstr).promptYHistory
      promptYNotification := (recalculate_max_history_items n hstr).promptYNotification
      promptYItemsStart := (recalculate_max_history_items n hstr).promptYItemsStart
      promptYItemsEnd := (recalculate_max_history_items n hstr).promptYItemsEnd
      promptItems := (recalculate_max_history_items n hstr).promptItems } := by
  obtain ⟨_, _, _, _, _, _, _, _, _, _, _, _, _, _, _, _, _, _, bottom, opposite, basic, history,
    _⟩ := hstr
  cases bottom <;> cases opposite <;> cases basic <;> cases history <;> rfl

@[simp] theorem recalculate_favorites (n : ℤ) (hstr : Hstr R) :
    (recalculate_max_history_items n hstr).favorites = hstr.favorites := by
  rw [recalculate_max_history_items_eq]

@[simp] theorem recalculate_blacklist (n : ℤ) (hstr : Hstr R) :
    (recalculate_max_history_items n hstr).blacklist = hstr.blacklist := by
  rw [recalculate_max_history_items_eq]

@[simp] theorem recalculate_regexp (n : ℤ) (hstr : Hstr R) :
    (recalculate_max_history_items n hstr).regexp = hstr.regexp := by
  rw [recalculate_max_history_items_eq]

@[simp] theorem recalculate_selection (n : ℤ) (hstr : Hstr R) :
    (recalculate_max_history_items n hstr).selection = hstr.selection := by
  rw [recalculate_max_history_items_eq]

@[simp] theorem recalculate_selectionCapacity (n : ℤ) (hstr : Hstr R) :
    (recalculate_max_history_items n hstr).selectionCapacity = hstr.selectionCapacity := by
  rw [recalculate_max_history_items_eq]

@[simp] theorem recalculate_matching (n : ℤ) (hstr : Hstr R) :
    (recalculate_max_history_items n hstr).matching = hstr.matching := by
  rw [recalculate_max_history_items_eq]

@[simp] theorem recalculate_view (n : ℤ) (hstr : Hstr R) :
    (recalculate_max_history_items n hstr).view = hstr.view := by
  rw [recalculate_max_history_items_eq]

@[simp] theorem recalculate_caseSensitive (n : ℤ) (hstr : Hstr R) :
    (recalculate_max_history_items n hstr).caseSensitive = hstr.caseSensitive := by
  rw [recalculate_max_history_items_eq]

@[simp] theorem recalculate_noRawHistoryDuplicates (n : ℤ) (hstr : Hstr R) :
    (recalculate_max_history_items n hstr).noRawHistoryDuplicates = hstr.noRawHistoryDuplicates := by
  rw [recalculate_max_history_items_eq]

@[simp] theorem recalculate_promptBottom (n : ℤ) (hstr : Hstr R) :
    (recalculate_max_history_items n hstr).promptBottom = hstr.promptBottom := by
  rw [recalculate_max_history_items_eq]

@[simp] theorem recalculate_helpOnOppositeSide (n : ℤ) (hstr : Hstr R) :
    (recalculate_max_history_items n hstr).helpOnOppositeSide = hstr.helpOnOppositeSide := by
  rw [recalculate_max_history_items_eq]

@[simp] theorem recalculate_hideBasicHelp (n : ℤ) (hstr : Hstr R) :
    (recalculate_max_history_items n hstr).hideBasicHelp = hstr.hideBasicHelp := by
  rw [recalculate_max_history_items_eq]

@[simp] theorem recalculate_hideHistoryHelp (n : ℤ) (hstr : Hstr R) :
    (recalculate_max_history_items n hstr).hideHistoryHelp = hstr.hideHistoryHelp := by
  rw [recalculate_max_history_items_eq]

/-- The number of help labels that are shown. -/
def helpLabels (hstr : Hstr R) : ℤ :=
  (if hstr.hideBasicHelp then 0 else 1) + if hstr.hideHistoryHelp then 0 else 1

theorem recalculate_promptItems (n : ℤ) (hstr : Hstr R) :
    (recalculate_max_history_items n hstr).promptItems = n - 1 - helpLabels hstr := by
  obtain ⟨_, _, _, _, _, _, _, _, _, _, _, _, _, _, _, _, _, _, bottom, opposite, basic, history,
    _⟩ := hstr
  cases bottom <;> cases opposite <;> cases basic <;> cases history <;>
    simp [recalculate_max_history_items, helpLabels, labelsFromTop, labelsFromBottom] <;> omega

/-- The first row for items is behind what is above them: the prompt, the labels,
both or nothing. -/
def itemsStart (hstr : Hstr R) : ℤ :=
  (if hstr.promptBottom then 0 else 1)
    + if hstr.promptBottom = hstr.helpOnOppositeSide then helpLabels hstr else 0

theorem recalculate_promptYItemsStart (n : ℤ) (hstr : Hstr R) :
    (recalculate_max_history_items n hstr).promptYItemsStart = itemsStart hstr := by
  obtain ⟨_, _, _, _, _, _, _, _, _, _, _, _, _, _, _, _, _, _, bottom, opposite, basic, history,
    _⟩ := hstr
  cases bottom <;> cases opposite <;> cases basic <;> cases history <;>
    simp [recalculate_max_history_items, itemsStart, helpLabels, labelsFromTop, labelsFromBottom]

/-- The rows for items are those of a screen of `n` rows. -/
structure LaidOut (n : ℤ) (hstr : Hstr R) : Prop where
  promptItems : hstr.promptItems = n - 1 - helpLabels hstr
  promptYItemsStart : hstr.promptYItemsStart = itemsStart hstr

theorem laidOut_recalculate (n : ℤ) (hstr : Hstr R) :
    LaidOut n (recalculate_max_history_items n hstr) := by
  constructor
  · rw [recalculate_promptItems]
    simp [helpLabels]
  · rw [recalculate_promptYItemsStart]
    simp [itemsStart, helpLabels]

/-- `strstr(hstr_config, keyword)` as a condition. -/
def configHas (hstr_config keyword : CString) : Bool := (strstr hstr_config keyword).isSome

/-- `hstr_get_env_configuration`, with the value of `HSTR_CONFIG`. There is no
screen yet, and `getmaxy` of no screen is -1. -/
def hstr_get_env_configuration (hstr : Hstr R) (hstr_config : Option CString) : Hstr R :=
  match hstr_config with
  | none => hstr
  | some config =>
      if strlen config > 0 then
        recalculate_max_history_items (-1) { hstr with
          theme :=
            if configHas config (lit "monochromatic") then .MONO
            else if configHas config (lit "hicolor") then .DARK
            else hstr.theme
          caseSensitive :=
            if configHas config (lit "case-sensitive") then HSTR_CASE_SENSITIVE
            else hstr.caseSensitive
          matching :=
            if configHas config (lit "regexp-matching") then .REGEXP
            else if configHas config (lit "substring-matching") then .SUBSTRING
            else if configHas config (lit "keywords-matching") then .KEYWORDS
            else hstr.matching
          view :=
            if configHas config (lit "raw-history-view") then .HISTORY
            else if configHas config (lit "favorites-view") then .FAVORITES
            else hstr.view
          bigKeys :=
            if configHas config (lit "big-keys-exit") then .EXIT
            else if configHas config (lit "big-keys-floor") then .FLOOR
            else .SKIP
          verboseKill := configHas config (lit "verbose-kill") || hstr.verboseKill
          blacklist := { hstr.blacklist with
            useFile := configHas config (lit "blacklist") || hstr.blacklist.useFile }
          keepPage := configHas config (lit "keep-page") || hstr.keepPage
          noConfirm := configHas config (lit "no-confirm") || hstr.noConfirm
          favorites := { hstr.favorites with
            reorderOnChoice :=
              !configHas config (lit "static-favorites") && hstr.favorites.reorderOnChoice
            skipComments :=
              configHas config (lit "skip-favorites-comments") || hstr.favorites.skipComments }
          debugLevel :=
            if configHas config (lit "debug") then .DEBUG
            else if configHas config (lit "warning") then .WARN
            else hstr.debugLevel
          noRawHistoryDuplicates :=
            !configHas config (lit "duplicates") && hstr.noRawHistoryDuplicates
          promptBottom := configHas config (lit "prompt-bottom")
          helpOnOppositeSide := configHas config (lit "help-on-opposite-side")
          hideBasicHelp :=
            configHas config (lit "hide-help") || configHas config (lit "hide-basic-help")
          hideHistoryHelp := configHas config (lit "hide-help") }
      else hstr

/-! ## The selection -/

/-- A conversion of `int` to `unsigned`. -/
def toUnsigned (n : ℤ) : ℕ := (n % 2 ^ 32).toNat

/-- `hstr_realloc_selection`: what was written stays where the array is
reallocated. -/
def hstr_realloc_selection (hstr : Hstr R) (size : ℕ) : Hstr R :=
  { hstr with
    selectionCapacity := size
    selectionRegexpMatch := fun i =>
      if hstr.selectionCapacity ≠ 0 ∧ i < size then hstr.selectionRegexpMatch i else none }

/-- The variables of the loops of `hstr_make_selection`. -/
structure Selecting (R : Type) where
  selection : List CString
  selectionRegexpMatch : ℕ → Option RegMatch
  regexp : HstrRegexp R

/-- `strstr` or `strcasestr`, by the case mode. -/
def search (caseSensitive : Bool) (haystack needle : CString) : Option ℕ :=
  if caseSensitive = HSTR_CASE_SENSITIVE then strstr haystack needle
  else strcasestr haystack needle

/-- The loop over the keywords: are all of them in the line? -/
def keywordsAllMatch (caseSensitive : Bool) (line pattern : CString) : Bool :=
  (strtok_r pattern SPACE).all fun keywordsToken =>
    (search caseSensitive line keywordsToken).isSome

/-- `hstr_selection_add` in the loops. -/
def Selecting.add (acc : Selecting R) (capacity : ℕ) (line : CString) (noDuplicates : Bool) :
    Selecting R :=
  { acc with selection := hstr_selection_add acc.selection capacity line noDuplicates }

/-- The body of the first loop. -/
def selectFirst (lib : RegexLib R) (hstr : Hstr R) (pattern : Option CString)
    (maxSelectionCount : ℕ) (acc : Selecting R) (line : CString) : Selecting R :=
  if acc.selection.length < maxSelectionCount then
    let pattern := pattern.getD empty
    -- without a pattern every line is selected
    if strlen pattern = 0 then acc.add maxSelectionCount line hstr.noRawHistoryDuplicates
    else match hstr.matching with
      | .SUBSTRING =>
          -- a line that starts with the pattern
          if search hstr.caseSensitive line pattern = some 0 then
            acc.add maxSelectionCount line hstr.noRawHistoryDuplicates
          else acc
      | .REGEXP =>
          let (m, regexp) := hstr_regexp_match lib acc.regexp pattern line CMDLINE_LNG
          if m.ret then
            { selection := acc.selection ++ [line]
              selectionRegexpMatch :=
                Function.update acc.selectionRegexpMatch acc.selection.length m.offsets
              regexp }
          else { acc with regexp }
      | .KEYWORDS =>
          if keywordsAllMatch hstr.caseSensitive line pattern then
            acc.add maxSelectionCount line hstr.noRawHistoryDuplicates
          else acc
  else acc

/-- The body of the second loop. -/
def selectSecond (hstr : Hstr R) (pattern : CString) (maxSelectionCount : ℕ) (acc : Selecting R)
    (line : CString) : Selecting R :=
  if acc.selection.length < maxSelectionCount then
    match hstr.matching with
    | .SUBSTRING =>
        -- a line that contains the pattern, but not at its start
        let substring := search hstr.caseSensitive line pattern
        if substring ≠ none ∧ substring ≠ some 0 then
          acc.add maxSelectionCount line hstr.noRawHistoryDuplicates
        else acc
    | .REGEXP => acc
    | .KEYWORDS => acc
  else acc

/-- The lines of the current view. -/
def source (hstr : Hstr R) (history : HistoryItems) : List CString :=
  match hstr.view with
  | .HISTORY => history.rawItems.map RawItem.text
  | .FAVORITES => hstr.favorites.items
  | .RANKING => history.items

/-- The two loops; the second one runs for a pattern only, which may be the
empty string. -/
def selecting (lib : RegexLib R) (hstr : Hstr R) (pattern : Option CString)
    (history : HistoryItems) (maxSelectionCount : ℕ) : Selecting R :=
  let acc := (source hstr history).foldl (selectFirst lib hstr pattern maxSelectionCount)
    ⟨[], hstr.selectionRegexpMatch, hstr.regexp⟩
  match pattern with
  | some pattern =>
      if acc.selection.length < maxSelectionCount then
        (source hstr history).foldl (selectSecond hstr pattern maxSelectionCount) acc
      else acc
  | none => acc

/-- `hstr_make_selection`; its result is the length of `selection`. -/
def hstr_make_selection (lib : RegexLib R) (hstr : Hstr R) (pattern : Option CString)
    (history : HistoryItems) (maxSelectionCount : ℕ) : Hstr R :=
  let hstr := hstr_realloc_selection hstr maxSelectionCount
  let acc := selecting lib hstr pattern history maxSelectionCount
  { hstr with
    selection := acc.selection
    selectionRegexpMatch := acc.selectionRegexpMatch
    regexp := acc.regexp }

/-! ## What the selected lines depend on -/

/-- Two states with the same query: whatever decides which lines of the views
are selected, the compiled regexps apart. -/
structure SameQuery (h h' : Hstr R) : Prop where
  view : h'.view = h.view
  matching : h'.matching = h.matching
  caseSensitive : h'.caseSensitive = h.caseSensitive
  noRawHistoryDuplicates : h'.noRawHistoryDuplicates = h.noRawHistoryDuplicates
  favorites : h'.favorites.items = h.favorites.items

theorem SameQuery.refl (h : Hstr R) : SameQuery h h := ⟨rfl, rfl, rfl, rfl, rfl⟩

/-- The selected lines depend on the query, and on what the pattern compiles
to. -/
theorem selection_selectFirst_congr (lib : RegexLib R) {h h' : Hstr R} (hq : SameQuery h h')
    (pattern : CString) (n : ℕ) {acc acc' : Selecting R} (line : CString)
    (hsel : acc'.selection = acc.selection)
    (hre : compiledFor lib acc'.regexp pattern = compiledFor lib acc.regexp pattern) :
    (selectFirst lib h' (some pattern) n acc' line).selection
        = (selectFirst lib h (some pattern) n acc line).selection
      ∧ compiledFor lib (selectFirst lib h' (some pattern) n acc' line).regexp pattern
        = compiledFor lib acc.regexp pattern := by
  unfold selectFirst
  rw [hsel, hq.matching, hq.caseSensitive, hq.noRawHistoryDuplicates]
  simp only [Option.getD_some]
  by_cases hlen : acc.selection.length < n
  · rw [if_pos hlen, if_pos hlen]
    by_cases hempty : strlen pattern = 0
    · rw [if_pos hempty, if_pos hempty]
      exact ⟨by simp only [Selecting.add, hsel], hre⟩
    · rw [if_neg hempty, if_neg hempty]
      cases h.matching with
      | SUBSTRING =>
          simp only
          split
          · exact ⟨by simp only [Selecting.add, hsel], hre⟩
          · exact ⟨hsel, hre⟩
      | KEYWORDS =>
          simp only
          split
          · exact ⟨by simp only [Selecting.add, hsel], hre⟩
          · exact ⟨hsel, hre⟩
      | REGEXP =>
          -- the result of a match depends on the compiled object alone
          have hres : (hstr_regexp_match lib acc'.regexp pattern line CMDLINE_LNG).1
              = (hstr_regexp_match lib acc.regexp pattern line CMDLINE_LNG).1 := by
            rw [hstr_regexp_match_fst, hstr_regexp_match_fst, hre]
          have hkeep := compiledFor_hstr_regexp_match lib acc'.regexp pattern line CMDLINE_LNG
          simp only [hres]
          split
          · exact ⟨rfl, hkeep.trans hre⟩
          · exact ⟨rfl, hkeep.trans hre⟩
  · rw [if_neg hlen, if_neg hlen]
    exact ⟨hsel, hre⟩

theorem selection_foldl_selectFirst_congr (lib : RegexLib R) {h h' : Hstr R} (hq : SameQuery h h')
    (pattern : CString) (n : ℕ) (ls : List CString) (acc acc' : Selecting R)
    (hsel : acc'.selection = acc.selection)
    (hre : compiledFor lib acc'.regexp pattern = compiledFor lib acc.regexp pattern) :
    (ls.foldl (selectFirst lib h' (some pattern) n) acc').selection
        = (ls.foldl (selectFirst lib h (some pattern) n) acc).selection
      ∧ compiledFor lib (ls.foldl (selectFirst lib h' (some pattern) n) acc').regexp pattern
        = compiledFor lib acc.regexp pattern := by
  induction ls generalizing acc acc' with
  | nil => exact ⟨hsel, hre⟩
  | cons line ls ih =>
      obtain ⟨hsel', hre'⟩ := selection_selectFirst_congr lib hq pattern n line hsel hre
      have hself := (selection_selectFirst_congr lib (SameQuery.refl h) pattern n line
        (rfl : acc.selection = acc.selection) rfl).2
      obtain ⟨h1, h2⟩ := ih _ _ hsel' (hre'.trans hself.symm)
      exact ⟨h1, h2.trans hself⟩

theorem selection_foldl_selectSecond_congr {h h' : Hstr R} (hq : SameQuery h h')
    (pattern : CString) (n : ℕ) (ls : List CString) {acc acc' : Selecting R}
    (hsel : acc'.selection = acc.selection) :
    (ls.foldl (selectSecond h' pattern n) acc').selection
      = (ls.foldl (selectSecond h pattern n) acc).selection := by
  induction ls generalizing acc acc' with
  | nil => exact hsel
  | cons line ls ih =>
      refine ih ?_
      unfold selectSecond
      rw [hsel, hq.matching, hq.caseSensitive, hq.noRawHistoryDuplicates]
      split
      · split
        · simp only
          split
          · simp only [Selecting.add, hsel]
          · exact hsel
        · exact hsel
        · exact hsel
      · exact hsel

theorem SameQuery.recalculate (n : ℤ) (h : Hstr R) :
    SameQuery h (recalculate_max_history_items n h) := by
  refine ⟨?_, ?_, ?_, ?_, ?_⟩ <;> simp

theorem SameQuery.source {h h' : Hstr R} (hq : SameQuery h h') (history : HistoryItems) :
    source h' history = source h history := by
  unfold Box.source
  rw [hq.view, hq.favorites]

/-- The selection as `hstr_make_selection` computes it from the current state. -/
def selectionOf (lib : RegexLib R) (hstr : Hstr R) (pattern : CString) (history : HistoryItems)
    (maxSelectionCount : ℕ) : List CString :=
  (hstr_make_selection lib hstr (some pattern) history maxSelectionCount).selection

theorem selection_selecting_congr (lib : RegexLib R) {h h' : Hstr R} (hq : SameQuery h h')
    (pattern : CString) (history : HistoryItems) (n : ℕ)
    (hre : compiledFor lib h'.regexp pattern = compiledFor lib h.regexp pattern) :
    (selecting lib h' (some pattern) history n).selection
      = (selecting lib h (some pattern) history n).selection := by
  obtain ⟨hfirst, -⟩ := selection_foldl_selectFirst_congr lib hq pattern n (source h history)
    ⟨[], h.selectionRegexpMatch, h.regexp⟩ ⟨[], h'.selectionRegexpMatch, h'.regexp⟩ rfl hre
  simp only [selecting, hq.source]
  -- both searches stop after the first loop, or neither does
  generalize (source h history).foldl (selectFirst lib h (some pattern) n)
    ⟨[], h.selectionRegexpMatch, h.regexp⟩ = acc at *
  generalize (source h history).foldl (selectFirst lib h' (some pattern) n)
    ⟨[], h'.selectionRegexpMatch, h'.regexp⟩ = acc' at *
  by_cases hlen : acc.selection.length < n
  · rw [if_pos hlen, if_pos (hfirst ▸ hlen)]
    exact selection_foldl_selectSecond_congr hq pattern n _ hfirst
  · rw [if_neg hlen, if_neg (hfirst ▸ hlen)]
    exact hfirst

/-- **The same query selects the same lines**, in a state where the pattern
compiles to the same object. -/
theorem selectionOf_congr (lib : RegexLib R) {h h' : Hstr R} (hq : SameQuery h h')
    (pattern : CString) (history : HistoryItems) (n : ℕ)
    (hre : compiledFor lib h'.regexp pattern = compiledFor lib h.regexp pattern) :
    selectionOf lib h' pattern history n = selectionOf lib h pattern history n := by
  -- reallocating the arrays does not touch the query
  have hq' : SameQuery (hstr_realloc_selection h n) (hstr_realloc_selection h' n) :=
    ⟨hq.view, hq.matching, hq.caseSensitive, hq.noRawHistoryDuplicates, hq.favorites⟩
  exact selection_selecting_congr lib hq' pattern history n hre

/-! ## What selecting does to the regexps

The cache is all that the loops change beside the selection. -/

/-- **The rule of the two loops**: what holds before them and is kept by their
bodies holds behind them. -/
theorem selecting_induction (lib : RegexLib R) (hstr : Hstr R) (pattern : Option CString)
    (history : HistoryItems) (n : ℕ) {I : Selecting R → Prop}
    (h0 : I ⟨[], hstr.selectionRegexpMatch, hstr.regexp⟩)
    (hfirst : ∀ acc line, I acc → I (selectFirst lib hstr pattern n acc line))
    (hsecond : ∀ acc line pattern, I acc → I (selectSecond hstr pattern n acc line)) :
    I (selecting lib hstr pattern history n) := by
  -- one loop, by induction on the lines it walks over
  have hloop : ∀ (f : Selecting R → CString → Selecting R), (∀ acc line, I acc → I (f acc line)) →
      ∀ (ls : List CString) acc, I acc → I (ls.foldl f acc) := by
    intro f hf ls
    induction ls with
    | nil => exact fun acc h => h
    | cons line ls ih => exact fun acc h => ih _ (hf acc line h)
  have hbehind := hloop _ hfirst (source hstr history) _ h0
  unfold selecting
  cases pattern with
  | none => exact hbehind
  | some pattern =>
      simp only
      split
      · exact hloop _ (fun acc line => hsecond acc line pattern) _ _ hbehind
      · exact hbehind

/-- The first loop calls the matcher with the pattern, or leaves the regexps
alone. -/
theorem regexp_selectFirst (lib : RegexLib R) (hstr : Hstr R) (pattern : Option CString) (n : ℕ)
    (acc : Selecting R) (line : CString) :
    (selectFirst lib hstr pattern n acc line).regexp = acc.regexp
      ∨ (selectFirst lib hstr pattern n acc line).regexp
        = (hstr_regexp_match lib acc.regexp (pattern.getD empty) line CMDLINE_LNG).2 := by
  unfold selectFirst
  split
  · simp only
    split
    · exact Or.inl rfl
    · cases hstr.matching with
      | SUBSTRING => exact Or.inl (by simp only; split <;> rfl)
      | KEYWORDS => exact Or.inl (by simp only; split <;> rfl)
      | REGEXP => exact Or.inr (by simp only; split <;> rfl)
  · exact Or.inl rfl

theorem regexp_selectSecond (hstr : Hstr R) (pattern : CString) (n : ℕ) (acc : Selecting R)
    (line : CString) : (selectSecond hstr pattern n acc line).regexp = acc.regexp := by
  unfold selectSecond
  split
  · cases hstr.matching with
    | SUBSTRING => simp only; split <;> rfl
    | REGEXP => rfl
    | KEYWORDS => rfl
  · rfl

/-- Selecting does not change the case mode of the regexps. -/
theorem regexp_caseSensitive_make_selection (lib : RegexLib R) (hstr : Hstr R)
    (pattern : Option CString) (history : HistoryItems) (n : ℕ) :
    (hstr_make_selection lib hstr pattern history n).regexp.caseSensitive
      = hstr.regexp.caseSensitive := by
  apply selecting_induction lib (hstr_realloc_selection hstr n) pattern history n
    (I := fun acc => acc.regexp.caseSensitive = hstr.regexp.caseSensitive) rfl
  · intro acc line hacc
    rcases regexp_selectFirst lib (hstr_realloc_selection hstr n) pattern n acc line with h | h
    · rw [h, hacc]
    · rw [h, ← hacc]
      exact regexpStep_caseSensitive lib acc.regexp (pattern.getD empty) line CMDLINE_LNG
  · intro acc line pattern hacc
    rw [regexp_selectSecond, hacc]

/-- Selecting for a pattern leaves it compiled as it was. -/
theorem compiledFor_make_selection (lib : RegexLib R) (hstr : Hstr R) (pattern : CString)
    (history : HistoryItems) (n : ℕ) :
    compiledFor lib (hstr_make_selection lib hstr (some pattern) history n).regexp pattern
      = compiledFor lib hstr.regexp pattern := by
  apply selecting_induction lib (hstr_realloc_selection hstr n) (some pattern) history n
    (I := fun acc => compiledFor lib acc.regexp pattern = compiledFor lib hstr.regexp pattern) rfl
  · intro acc line hacc
    rcases regexp_selectFirst lib (hstr_realloc_selection hstr n) (some pattern) n acc line
      with h | h
    · rw [h, hacc]
    · rw [h, Option.getD_some, compiledFor_hstr_regexp_match, hacc]
  · intro acc line _ hacc
    rw [regexp_selectSecond, hacc]

/-! ## The selection answers the query -/

/-- The selection is the one that `hstr_make_selection` computes from the
current state, for the array it has. -/
def Answers (lib : RegexLib R) (hstr : Hstr R) (pattern : CString) (history : HistoryItems) :
    Prop :=
  hstr.selection = selectionOf lib hstr pattern history hstr.selectionCapacity

/-- **Selecting answers the query**, and asking again in the new state gives the
same lines. -/
theorem answers_make_selection (lib : RegexLib R) (hstr : Hstr R) (pattern : CString)
    (history : HistoryItems) (n : ℕ) :
    Answers lib (hstr_make_selection lib hstr (some pattern) history n) pattern history := by
  have hq : SameQuery hstr (hstr_make_selection lib hstr (some pattern) history n) :=
    ⟨rfl, rfl, rfl, rfl, rfl⟩
  exact (selectionOf_congr lib hq pattern history n
    (compiledFor_make_selection lib hstr pattern history n)).symm

/-- The answer to a query stays one where neither it nor the selection changes. -/
theorem Answers.congr {lib : RegexLib R} {h h' : Hstr R} {pattern : CString}
    {history : HistoryItems} (hans : Answers lib h pattern history) (hq : SameQuery h h')
    (hsel : h'.selection = h.selection) (hcap : h'.selectionCapacity = h.selectionCapacity)
    (hre : h'.regexp = h.regexp) : Answers lib h' pattern history := by
  unfold Answers
  rw [hsel, hcap, hans, selectionOf_congr lib hq pattern history _ (by rw [hre])]

/-- No pattern and the empty pattern select alike: every line contains the empty
string at its start, so the second loop adds nothing. -/
theorem selecting_empty (lib : RegexLib R) (hstr : Hstr R) (history : HistoryItems) (n : ℕ) :
    selecting lib hstr (some empty) history n = selecting lib hstr none history n := by
  have hsearch : ∀ line, search hstr.caseSensitive line empty = some 0 := by
    intro line
    unfold search
    split
    · exact strstr_empty line
    · exact strcasestr_empty line
  -- the second loop looks for a match behind the start of the line
  have hsecond : ∀ acc line, selectSecond hstr empty n acc line = acc := by
    intro acc line
    unfold selectSecond
    rw [hsearch]
    split
    · cases hstr.matching <;> simp
    · rfl
  have hloop : ∀ (ls : List CString) acc, ls.foldl (selectSecond hstr empty n) acc = acc := by
    intro ls
    induction ls with
    | nil => exact fun acc => rfl
    | cons line ls ih => exact fun acc => by rw [List.foldl_cons, hsecond, ih]
  unfold selecting
  simp only [hloop, ite_self]
  rfl

theorem answers_make_selection_none (lib : RegexLib R) (hstr : Hstr R) (history : HistoryItems)
    (n : ℕ) : Answers lib (hstr_make_selection lib hstr none history n) empty history := by
  have hnone : hstr_make_selection lib hstr none history n
      = hstr_make_selection lib hstr (some empty) history n := by
    simp only [hstr_make_selection, selecting_empty]
  rw [hnone]
  exact answers_make_selection lib hstr empty history n

/-- Where case does not matter, patterns with the same letters select alike. -/
theorem selecting_sameLetters (lib : RegexLib R) {hstr : Hstr R}
    (hcase : hstr.caseSensitive = HSTR_CASE_INSENSITIVE) (hmatch : hstr.matching ≠ .REGEXP)
    {s t : CString} (hst : SameLetters s t) (history : HistoryItems) (n : ℕ) :
    selecting lib hstr (some t) history n = selecting lib hstr (some s) history n := by
  have hsearch : ∀ line, search hstr.caseSensitive line t = search hstr.caseSensitive line s := by
    intro line
    rw [search, search, hcase, if_neg (by decide), if_neg (by decide), hst.strcasestr]
  have htokens : ∀ line, keywordsAllMatch hstr.caseSensitive line t
      = keywordsAllMatch hstr.caseSensitive line s := by
    intro line
    -- the search reads a token in lower case only
    have hall : ∀ p, keywordsAllMatch hstr.caseSensitive line p
        = ((strtok_r p SPACE).map fun k => k.bytes.map tolower).all fun k =>
          ((line.bytes.map tolower).tails.findIdx? (fun rest => k.isPrefixOf rest)).isSome := by
      intro p
      rw [List.all_map, keywordsAllMatch, hcase]
      rfl
    rw [hall, hall, map_tolower_strtok_r, map_tolower_strtok_r, hst]
  have hfirst : selectFirst lib hstr (some t) n = selectFirst lib hstr (some s) n := by
    funext acc line
    unfold selectFirst
    simp only [Option.getD_some, hst.strlen, hsearch, htokens]
    cases hm : hstr.matching with
    | SUBSTRING => rfl
    | KEYWORDS => rfl
    | REGEXP => exact absurd hm hmatch
  have hsecond : selectSecond hstr t n = selectSecond hstr s n := by
    funext acc line
    unfold selectSecond
    simp only [hsearch]
  unfold selecting
  simp only [hfirst, hsecond]

theorem Answers.sameLetters {lib : RegexLib R} {hstr : Hstr R} {s t : CString}
    {history : HistoryItems} (hans : Answers lib hstr s history)
    (hcase : hstr.caseSensitive = HSTR_CASE_INSENSITIVE) (hmatch : hstr.matching ≠ .REGEXP)
    (hst : SameLetters s t) : Answers lib hstr t history := by
  have hcase' : (hstr_realloc_selection hstr hstr.selectionCapacity).caseSensitive
      = HSTR_CASE_INSENSITIVE := hcase
  have hmatch' : (hstr_realloc_selection hstr hstr.selectionCapacity).matching ≠ .REGEXP := hmatch
  unfold Answers at hans ⊢
  rw [hans]
  simp only [selectionOf, hstr_make_selection, selecting_sameLetters lib hcase' hmatch' hst]

end Hstr.Box
