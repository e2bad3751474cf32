/-
`src/hstr.c`: the number of items that there is room for.

`recalculate_max_history_items` computes it as an `int` and returns it as an
`unsigned`. The loop keeps it in an `int` again, `hstr_make_selection` takes it as
the size of its arrays and `hstr_print_selection` as the bound of its row loop, both
as an `unsigned`. On a screen with fewer rows than the prompt and the help labels
take the `int` is negative, and what is passed on is close to `UINT_MAX`.

The arrays are modelled here as they are in memory, below the lists of
`hstr_make_selection`: an array that could not be allocated is `NULL`, and an
element that is not there cannot be written.
-/
import Hstr.Layout
import Hstr.Lookup
import Hstr.Lib.Checked

set_option autoImplicit false

namespace Hstr.Capacity

open Lib.Checked Hstr.Strings Hstr.Utils Hstr.History Hstr.Regexp Hstr.Selection Hstr.Box Hstr.Loop
open Hstr.Layout Hstr.Lookup

variable {R : Type}

/-! ## The arrays -/

/-- The arrays of the selection, an element being `none` until it is written and
`NULL` being empty, with the variables of the loops. -/
structure Arrays (R : Type) where
  selection : List (Option CString)
  selectionRegexpMatch : List (Option RegMatch)
  selectionCount : ℕ
  regexp : HstrRegexp R

/-- One array of `hstr_realloc_selection`: `malloc`, `realloc` or `free`, where
`granted` are the requests, in elements, that do not fail. -/
def reallocArray {α : Type} (granted : ℕ → Bool) (array : List (Option α)) (size : ℕ) :
    List (Option α) :=
  if size ≠ 0 ∧ granted size then array.take size ++ List.replicate (size - array.length) none
  else []

/-- The loop of `hstr_selection_add` from element `i` on: is the line there? -/
def isSelected (selection : List (Option CString)) (line : CString) : ℕ → ℕ → Except Fault Bool
  | 0, _ => .ok false
  | rounds + 1, i => do
      let entry ← load selection i
      if entry = some line then .ok true else isSelected selection line rounds (i + 1)

/-- `hstr_selection_add`. -/
def Arrays.add (mem : Arrays R) (capacity : ℕ) (line : CString) (noDuplicates : Bool) :
    Except Fault (Arrays R) :=
  if mem.selection = [] ∨ mem.selectionCount ≥ capacity then .ok mem
  else do
    let selected ←
      (if noDuplicates then isSelected mem.selection line mem.selectionCount 0 else .ok false)
    if selected then .ok mem
    else do
      let selection ← store mem.selection mem.selectionCount (some line)
      .ok { mem with selection, selectionCount := mem.selectionCount + 1 }

/-- The body of the first loop of `hstr_make_selection`. -/
def Arrays.selectFirst (lib : RegexLib R) (hstr : Hstr R) (pattern : Option CString)
    (maxSelectionCount : ℕ) (mem : Arrays R) (line : CString) : Except Fault (Arrays R) :=
  if mem.selectionCount < maxSelectionCount then
    let pattern := pattern.getD empty
    if strlen pattern = 0 then mem.add maxSelectionCount line hstr.noRawHistoryDuplicates
    else match hstr.matching with
      | .SUBSTRING =>
          if search hstr.caseSensitive line pattern = some 0 then
            mem.add maxSelectionCount line hstr.noRawHistoryDuplicates
          else .ok mem
      | .REGEXP =>
          let (m, regexp) := hstr_regexp_match lib mem.regexp pattern line CMDLINE_LNG
          if m.ret then do
            -- no test for `NULL` here, and none for room
            let selection ← store mem.selection mem.selectionCount (some line)
            let selectionRegexpMatch ←
              store mem.selectionRegexpMatch mem.selectionCount m.offsets
            .ok ⟨selection, selectionRegexpMatch, mem.selectionCount + 1, regexp⟩
          else .ok { mem with regexp }
      | .KEYWORDS =>
          if keywordsAllMatch hstr.caseSensitive line pattern then
            mem.add maxSelectionCount line hstr.noRawHistoryDuplicates
          else .ok mem
  else .ok mem

/-- The body of the second loop. -/
def Arrays.selectSecond (hstr : Hstr R) (pattern : CString) (maxSelectionCount : ℕ)
    (mem : Arrays R) (line : CString) : Except Fault (Arrays R) :=
  if mem.selectionCount < maxSelectionCount then
    match hstr.matching with
    | .SUBSTRING =>
        let substring := search hstr.caseSensitive line pattern
        if substring ≠ none ∧ substring ≠ some 0 then
          mem.add maxSelectionCount line hstr.noRawHistoryDuplicates
        else .ok mem
    | .REGEXP => .ok mem
    | .KEYWORDS => .ok mem
  else .ok mem

/-- `hstr_make_selection` on its arrays. -/
def Arrays.make_selection (granted : ℕ → Bool) (lib : RegexLib R) (hstr : Hstr R)
    (pattern : Option CString) (history : HistoryItems) (maxSelectionCount : ℕ) (mem : Arrays R) :
    Except Fault (Arrays R) := do
  let mem ← (source hstr history).foldlM (Arrays.selectFirst lib hstr pattern maxSelectionCount)
    { selection := reallocArray granted mem.selection maxSelectionCount
      selectionRegexpMatch := reallocArray granted mem.selectionRegexpMatch maxSelectionCount
      selectionCount := 0
      regexp := hstr.regexp }
  match pattern with
  | some pattern =>
      if mem.selectionCount < maxSelectionCount then
        (source hstr history).foldlM (Arrays.selectSecond hstr pattern maxSelectionCount) mem
      else .ok mem
  | none => .ok mem

/-! ## The arrays hold the selection -/

/-- The arrays have room for `capacity` lines, and the selected ones are the
elements in front. -/
structure Arrays.Holds (capacity : ℕ) (mem : Arrays R) (acc : Selecting R) : Prop where
  selection : ∃ rest, mem.selection = acc.selection.map some ++ rest
  allocated : mem.selection.length = capacity
  matchesAllocated : mem.selectionRegexpMatch.length = capacity
  selectionCount : mem.selectionCount = acc.selection.length
  regexp : mem.regexp = acc.regexp

theorem length_reallocArray {α : Type} {granted : ℕ → Bool} {size : ℕ} (h : granted size = true)
    (array : List (Option α)) : (reallocArray granted array size).length = size := by
  unfold reallocArray
  split
  · rw [List.length_append, List.length_take, List.length_replicate]
    omega
  · next hzero =>
      have hsize : size = 0 := by
        by_contra hne
        exact hzero ⟨hne, h⟩
      rw [hsize, List.length_nil]

theorem isSelected_eq (selection : List CString) (rest : List (Option CString)) (line : CString) :
    ∀ rounds i, i + rounds = selection.length →
      isSelected (selection.map some ++ rest) line rounds i
        = .ok (decide (line ∈ selection.drop i)) := by
  intro rounds
  induction rounds with
  | zero =>
      intro i hi
      rw [List.drop_eq_nil_of_le (by omega)]
      simp [isSelected]
  | succ rounds ih =>
      intro i hi
      have hlt : i < selection.length := by omega
      have hload : load (selection.map some ++ rest) i = .ok (some selection[i]) := by
        rw [load, List.getElem?_append_left (by rwa [List.length_map]), List.getElem?_map,
          List.getElem?_eq_getElem hlt]
        rfl
      rw [isSelected, hload, Lib.Results.ok_bind, ih (i + 1) (by omega)]
      have hmem : line ∈ selection.drop i ↔ line = selection[i] ∨ line ∈ selection.drop (i + 1) := by
        rw [List.drop_eq_getElem_cons hlt, List.mem_cons]
      by_cases hline : some selection[i] = some line
      · rw [if_pos hline, decide_eq_true (hmem.mpr (Or.inl (Option.some.inj hline).symm))]
      · rw [if_neg hline]
        congr 1
        apply decide_eq_decide.mpr
        rw [hmem]
        refine ⟨Or.inr, fun h => h.resolve_left fun heq => hline (by rw [heq])⟩

/-- There is room for one more line where not all of it is taken. -/
theorem Arrays.Holds.store {capacity : ℕ} {mem : Arrays R} {acc : Selecting R}
    (h : mem.Holds capacity acc) (hroom : acc.selection.length < capacity) (line : CString) :
    Returns (Lib.Checked.store mem.selection mem.selectionCount (some line)) fun selection =>
      (∃ rest, selection = (acc.selection ++ [line]).map some ++ rest)
        ∧ selection.length = capacity := by
  obtain ⟨rest, hrest⟩ := h.selection
  have hlength := h.allocated
  rw [hrest, List.length_append, List.length_map] at hlength
  have hstore := store_append (r := rest) (by omega) (acc.selection.map some) (some line)
  rw [List.length_map] at hstore
  rw [hrest, h.selectionCount, hstore]
  apply Returns.ok
  constructor
  · exact ⟨rest.drop 1, by simp⟩
  · simp only [List.length_append, List.length_map, List.length_cons, List.length_drop]
    omega

theorem Arrays.Holds.add {capacity : ℕ} {mem : Arrays R} {acc : Selecting R}
    (h : mem.Holds capacity acc) (line : CString) (noDuplicates : Bool) :
    Returns (mem.add capacity line noDuplicates) fun mem' =>
      mem'.Holds capacity (acc.add capacity line noDuplicates) := by
  unfold Arrays.add Selecting.add hstr_selection_add
  by_cases hroom : acc.selection.length < capacity
  · have hnull : ¬ (mem.selection = [] ∨ mem.selectionCount ≥ capacity) := by
      rw [← List.length_eq_zero_iff, h.allocated, h.selectionCount]
      omega
    obtain ⟨rest, hrest⟩ := h.selection
    have hthere : isSelected mem.selection line mem.selectionCount 0
        = .ok (decide (line ∈ acc.selection)) := by
      rw [hrest, isSelected_eq acc.selection rest line _ 0 (by rw [h.selectionCount, Nat.zero_add]),
        List.drop_zero]
    have hselected : (if noDuplicates then isSelected mem.selection line mem.selectionCount 0
        else .ok false) = Except.ok (noDuplicates && acc.selection.contains line) := by
      cases noDuplicates with
      | false => rfl
      | true => simp [hthere]
    rw [if_neg hnull, if_neg (Nat.not_le.mpr hroom), hselected, Lib.Results.ok_bind]
    cases noDuplicates && acc.selection.contains line with
    | true => exact Returns.ok h
    | false =>
        apply (h.store hroom line).bind
        rintro selection ⟨hselection, hlength⟩
        apply Returns.ok
        refine ⟨hselection, hlength, h.matchesAllocated, ?_, h.regexp⟩
        simp [h.selectionCount]
  · have hfull : mem.selectionCount ≥ capacity := by
      rw [h.selectionCount]
      exact Nat.le_of_not_lt hroom
    rw [if_pos (Or.inr hfull), if_pos (Nat.le_of_not_lt hroom)]
    exact Returns.ok h

/-- A line that matches is added. -/
theorem Arrays.Holds.addWhere {capacity : ℕ} {mem : Arrays R} {acc : Selecting R}
    (h : mem.Holds capacity acc) (line : CString) (noDuplicates : Bool) (matching : Prop)
    [Decidable matching] :
    Returns (if matching then mem.add capacity line noDuplicates else .ok mem) fun mem' =>
      mem'.Holds capacity (if matching then acc.add capacity line noDuplicates else acc) := by
  by_cases hmatching : matching
  · rw [if_pos hmatching, if_pos hmatching]
    exact h.add line noDuplicates
  · rw [if_neg hmatching, if_neg hmatching]
    exact Returns.ok h

theorem Arrays.Holds.selectFirst (lib : RegexLib R) (hstr : Hstr R) (pattern : Option CString)
    {capacity : ℕ} {mem : Arrays R} {acc : Selecting R} (h : mem.Holds capacity acc)
    (line : CString) :
    Returns (Arrays.selectFirst lib hstr pattern capacity mem line) fun mem' =>
      mem'.Holds capacity (Box.selectFirst lib hstr pattern capacity acc line) := by
  unfold Arrays.selectFirst Box.selectFirst
  rw [h.selectionCount, h.regexp]
  by_cases hroom : acc.selection.length < capacity
  · rw [if_pos hroom, if_pos hroom]
    simp only
    by_cases hlen : strlen (pattern.getD empty) = 0
    · rw [if_pos hlen, if_pos hlen]
      exact h.add line _
    · rw [if_neg hlen, if_neg hlen]
      cases hstr.matching with
      | SUBSTRING => exact h.addWhere line _ _
      | KEYWORDS => exact h.addWhere line _ _
      | REGEXP =>
          simp only
          split
          · -- the test of the loop is the only one, and it is enough
            rw [← h.selectionCount]
            apply (h.store hroom line).bind
            rintro selection ⟨hselection, hlength⟩
            have hmatch : mem.selectionCount < mem.selectionRegexpMatch.length := by
              rwa [h.matchesAllocated, h.selectionCount]
            rw [store_eq_set hmatch, Lib.Results.ok_bind]
            apply Returns.ok
            refine ⟨hselection, hlength, ?_, ?_, rfl⟩
            · rw [List.length_set, h.matchesAllocated]
            · simp [h.selectionCount]
          · exact Returns.ok ⟨h.selection, h.allocated, h.matchesAllocated, rfl, rfl⟩
  · rw [if_neg hroom, if_neg hroom]
    exact Returns.ok h

theorem Arrays.Holds.selectSecond (hstr : Hstr R) (pattern : CString) {capacity : ℕ}
    {mem : Arrays R} {acc : Selecting R} (h : mem.Holds capacity acc) (line : CString) :
    Returns (Arrays.selectSecond hstr pattern capacity mem line) fun mem' =>
      mem'.Holds capacity (Box.selectSecond hstr pattern capacity acc line) := by
  unfold Arrays.selectSecond Box.selectSecond
  rw [h.selectionCount]
  by_cases hroom : acc.selection.length < capacity
  · rw [if_pos hroom, if_pos hroom]
    cases hstr.matching with
    | SUBSTRING => exact h.addWhere line _ _
    | REGEXP => exact Returns.ok h
    | KEYWORDS => exact Returns.ok h
  · rw [if_neg hroom, if_neg hroom]
    exact Returns.ok h

/-- **Every write is inside the arrays** where their allocation does not fail, and
the arrays hold what is selected. -/
theorem Arrays.make_selection_returns {granted : ℕ → Bool} {capacity : ℕ}
    (hgranted : granted capacity = true) (lib : RegexLib R) (hstr : Hstr R)
    (pattern : Option CString) (history : HistoryItems) (mem : Arrays R) :
    Returns (Arrays.make_selection granted lib hstr pattern history capacity mem) fun mem' =>
      mem'.Holds capacity (selecting lib hstr pattern history capacity) := by
  unfold Arrays.make_selection selecting
  apply Returns.bind
    (P := fun mem' => mem'.Holds capacity ((source hstr history).foldl
      (Box.selectFirst lib hstr pattern capacity) ⟨[], hstr.selectionRegexpMatch, hstr.regexp⟩))
  · apply Returns.foldlM (r := Arrays.Holds capacity)
      (fun mem acc line h => h.selectFirst lib hstr pattern line)
    exact ⟨⟨_, rfl⟩, length_reallocArray hgranted _, length_reallocArray hgranted _, rfl, rfl⟩
  · intro mem' h
    cases pattern with
    | none => exact Returns.ok h
    | some pattern =>
        simp only [h.selectionCount]
        split
        · apply Returns.foldlM (r := Arrays.Holds capacity)
            (g := Box.selectSecond hstr pattern capacity) _ _ h
          exact fun mem acc line h => h.selectSecond hstr pattern line
        · exact Returns.ok h

/-! ## The conversions -/

/-- A conversion of `unsigned` to `int`. -/
def toSigned (m : ℕ) : ℤ := if m < 2 ^ 31 then m else m - 2 ^ 32

/-- The result of `recalculate_max_history_items` as it reaches
`hstr_make_selection` and `hstr_print_selection`: returned as an `unsigned`, kept in
an `int`, passed as an `unsigned`. -/
def maxSelectionCount (hstr : Hstr R) : ℕ := toUnsigned (toSigned (toUnsigned hstr.promptItems))

theorem toUnsigned_toSigned {m : ℕ} (hm : m < 2 ^ 32) : toUnsigned (toSigned m) = m := by
  unfold toUnsigned toSigned
  split <;> omega

/-- The way through the `int` changes nothing. -/
theorem maxSelectionCount_eq (hstr : Hstr R) :
    maxSelectionCount hstr = toUnsigned hstr.promptItems := by
  apply toUnsigned_toSigned
  unfold toUnsigned
  omega

/-! ## The rows -/

/-- `y--` or `y++`. -/
def nextRow (hstr : Hstr R) (y : ℤ) : ℤ := if hstr.promptBottom then y - 1 else y + 1

/-- The rounds of the row loop of `hstr_print_selection`, from round `i` on: the
item and the row. -/
def rowLoop (hstr : Hstr R) (height i : ℕ) (y : ℤ) : List (ℕ × ℤ) :=
  if i < height then (i, y) :: rowLoop hstr height (i + 1) (nextRow hstr y) else []
termination_by height - i

theorem length_rowLoop (hstr : Hstr R) (height i : ℕ) (y : ℤ) :
    (rowLoop hstr height i y).length = height - i := by
  fun_induction rowLoop hstr height i y with
  | case1 i y hi ih =>
      rw [List.length_cons, ih]
      omega
  | case2 i y hi =>
      rw [List.length_nil]
      omega

/-- What a round paints: an item, unless the selection has no more of them. -/
def paintRound (hstr : Hstr R) (screen : ℤ → Option SelectionRow) (round : ℕ × ℤ) :
    ℤ → Option SelectionRow :=
  match hstr.selection[round.1]? with
  | some text => print_selection_row screen text round.2
  | none => screen

theorem printLoop_eq_foldl (hstr : Hstr R) (height i : ℕ) (y : ℤ)
    (screen : ℤ → Option SelectionRow) :
    printLoop hstr (height - i) i y screen
      = (rowLoop hstr height i y).foldl (paintRound hstr) screen := by
  fun_induction rowLoop hstr height i y generalizing screen with
  | case1 i y hi ih =>
      have hrounds : height - i = height - (i + 1) + 1 := by omega
      rw [hrounds, List.foldl_cons, ← ih]
      rfl
  | case2 i y hi =>
      have hrounds : height - i = 0 := by omega
      rw [hrounds]
      rfl

/-- The rounds are those that paint the screen of `hstr_print_selection`. -/
theorem screen_eq_rowLoop (env : Env R) (s : LoopState R) (pattern : Option CString) :
    (hstr_print_selection env s pattern).1.screen
      = let hstr := (hstr_print_selection env s pattern).1.hstr
        (rowLoop hstr (toUnsigned hstr.promptItems) 0
          (if hstr.promptBottom then hstr.promptYItemsEnd else hstr.promptYItemsStart)).foldl
          (paintRound hstr) (clrtobot s.screen hstr.promptYItemsStart) := by
  rw [screen_print_selection]
  exact printLoop_eq_foldl _ _ 0 _ _

/-! ## Room on the screen -/

/-- What a screen of `n` rows has room for: a capacity of at most `n`, so that no
larger arrays are requested, no line is written outside of them, and not more than
`n` rows are painted. -/
structure FitsScreen (n : ℤ) (hstr : Hstr R) : Prop where
  capacity : maxSelectionCount hstr ≤ n
  requested : (hstr_realloc_selection hstr (maxSelectionCount hstr)).selectionCapacity ≤ n
  /-- The selection is made without a write outside the arrays wherever requests of
  up to `n` elements are granted. -/
  written : ∀ granted : ℕ → Bool, (∀ size : ℕ, size ≤ n → granted size = true) →
    ∀ (lib : RegexLib R) (pattern : Option CString) (history : HistoryItems) (mem : Arrays R),
      Returns (Arrays.make_selection granted lib hstr pattern history (maxSelectionCount hstr) mem)
        fun mem' => mem'.Holds (maxSelectionCount hstr)
          (selecting lib hstr pattern history (maxSelectionCount hstr))
  rows : ∀ y, (rowLoop hstr (toUnsigned hstr.promptItems) 0 y).length ≤ n

/-- **When the selection fits the screen**: there is a row for the prompt and one
for each help label that is shown. -/
theorem fitsScreen_iff (hstr : Hstr R) {n : ℤ} (h1 : 1 ≤ n) (hn : n < 2 ^ 31) :
    FitsScreen n (recalculate_max_history_items n hstr) ↔ 1 + helpLabels hstr ≤ n := by
  have hitems := recalculate_promptItems n hstr
  have hlabels : 0 ≤ helpLabels hstr ∧ helpLabels hstr ≤ 2 := by
    unfold helpLabels
    split <;> split <;> decide
  generalize recalculate_max_history_items n hstr = laidOut at hitems ⊢
  have hcount := maxSelectionCount_eq laidOut
  constructor
  · intro h
    have hcapacity := h.capacity
    rw [hcount, toUnsigned] at hcapacity
    -- a negative number of items is converted to one above `INT_MAX`
    omega
  · intro hrows
    have hbound : (toUnsigned laidOut.promptItems : ℤ) ≤ n := by
      unfold toUnsigned
      omega
    refine ⟨?_, ?_, ?_, ?_⟩
    · rwa [hcount]
    · rw [hcount]
      exact hbound
    · intro granted hgranted lib pattern history mem
      apply Arrays.make_selection_returns
      apply hgranted
      rwa [hcount]
    · intro y
      rw [length_rowLoop]
      omega

/-- Twenty-four rows and the default configuration. -/
theorem fitsScreen_iff_default :
    FitsScreen 24 (recalculate_max_history_items 24 (hstr_init zeroed : Hstr (CString × Bool)))
      ↔ 1 + helpLabels (hstr_init zeroed : Hstr (CString × Bool)) ≤ 24 :=
  fitsScreen_iff (hstr_init zeroed) (by decide) (by decide)

/-- A screen of one row, with regexp matching. -/
def oneRow : Hstr (CString × Bool) := recalculate_max_history_items 1 (plainBox .REGEXP)

/-- On one row the capacity is 4294967294; and where so much memory is not granted,
the first line that matches a regexp is written to an array that is not there. -/
theorem one_row_overruns :
    maxSelectionCount oneRow = 4294967294
      ∧ Arrays.make_selection (fun size => decide (size ≤ 1)) literalRegex oneRow (some (lit "ls"))
          repeatedCommands (maxSelectionCount oneRow) ⟨[], [], 0, oneRow.regexp⟩
        = .error .outOfBounds
      ∧ ¬ FitsScreen 1 oneRow := by
  refine ⟨by decide, rfl, fun h => ?_⟩
  exact absurd h.capacity (by decide)

end Hstr.Capacity
