/-
The offsets of regexp matches that are used to highlight.

`selectionRegexpMatch` lies beside `selection`, comes from `malloc`, and is
written in one branch of `hstr_make_selection` only: that for regexps and a
pattern that is not empty. It is read by two functions under the pattern and the
matching of their own time. So a handler that changes one of these has to select
again, or has to empty the pattern.
-/
import Hstr.Highlight

set_option autoImplicit false

namespace Hstr.Offsets

open Lib.Runs Hstr.Strings Hstr.Utils Hstr.History Hstr.Favorites Hstr.Regexp Hstr.Selection
open Hstr.Box Hstr.Loop Hstr.Highlight

/-! ## Matches inside a line -/

/-- The match is a part of the text. -/
structure Inside (m : RegMatch) (text : CString) : Prop where
  start_nonneg : 0 ≤ m.rm_so
  start_le_end : m.rm_so ≤ m.rm_eo
  end_le : m.rm_eo ≤ strlen text

/-- What POSIX says of `regexec`: the offsets of a match lie inside the text. -/
def OffsetsInside {R : Type} (lib : RegexLib R) : Prop :=
  ∀ compiled text m, lib.regexec compiled text = some m → m.rm_so ≠ -1 → Inside m text

/-- A call of `strncpy(buffer, line+start, count)`. -/
structure Copy where
  line : CString
  start : ℤ
  count : ℤ

/-- It copies bytes of the line only, and there is room for the terminator. -/
structure Copy.Safe (copy : Copy) : Prop where
  start_nonneg : 0 ≤ copy.start
  count_nonneg : 0 ≤ copy.count
  end_le : copy.start + copy.count ≤ strlen copy.line
  count_lt : copy.count < CMDLINE_LNG

variable {R : Type}

/-! ## The copies that are made -/

/-- What `hstr_print_selection` copies, on the layout it has computed: `none`
stands for an element of `selectionRegexpMatch` that was never written. -/
def printedCopies (hstr : Hstr R) (pattern : Option CString) : List (Option Copy) :=
  if strlen (pattern.getD empty) ≠ 0 ∧ hstr.matching = .REGEXP then
    (hstr.selection.take (toUnsigned hstr.promptItems)).zipIdx.map fun (line, i) =>
      (hstr.selectionRegexpMatch i).map fun m =>
        let start := m.rm_so
        let count := m.rm_eo - start
        { line
          start
          count := if count ≥ (CMDLINE_LNG : ℤ) then (CMDLINE_LNG : ℤ) - 1 else count }
  else []

/-- What `highlight_selection` copies, on a screen of the given width. -/
def highlightedCopies (width : ℤ) (hstr : Hstr R) (pattern : CString)
    (previousSelectionCursorPosition : ℤ) : List (Option Copy) :=
  match getResultFromSelection hstr previousSelectionCursorPosition with
  | none => []
  | some line =>
      if strlen pattern ≠ 0 ∧ hstr.matching = .REGEXP then
        let index := (selection_index hstr previousSelectionCursorPosition).toNat
        [(hstr.selectionRegexpMatch index).map fun m =>
          let start := m.rm_so
          let count := m.rm_eo - start
          { line
            start
            count := max 0 (min count (min width ((CMDLINE_LNG : ℤ) - 1))) }]
      else []

/-! ## What a call of `hstr_make_selection` writes -/

/-- The match that the first loop finds for a line. -/
def matchOf (lib : RegexLib R) (re : HstrRegexp R) (pattern line : CString) : MatchResult :=
  (hstr_regexp_match lib re pattern line CMDLINE_LNG).1

/-- The match depends on what the pattern compiles to. -/
theorem matchOf_congr {lib : RegexLib R} {re re' : HstrRegexp R} {pattern : CString}
    (h : compiledFor lib re' pattern = compiledFor lib re pattern) (line : CString) :
    matchOf lib re' pattern line = matchOf lib re pattern line := by
  rw [matchOf, matchOf, hstr_regexp_match_fst, hstr_regexp_match_fst, h]

/-- **Each selected line has its match beside it**, which is found by the call
itself, whatever was in the array. -/
theorem selectionRegexpMatch_make_selection (lib : RegexLib R) {hstr : Hstr R}
    (hmode : hstr.matching = .REGEXP) {pattern : CString} (hpattern : strlen pattern ≠ 0)
    (history : HistoryItems) (n : ℕ) :
    let call := hstr_make_selection lib hstr (some pattern) history n
    ∀ (i : ℕ) line, call.selection[i]? = some line →
      (matchOf lib hstr.regexp pattern line).ret = true
        ∧ call.selectionRegexpMatch i = (matchOf lib hstr.regexp pattern line).offsets := by
  have hinv := selecting_induction lib (hstr_realloc_selection hstr n) (some pattern) history n
    (I := fun acc => compiledFor lib acc.regexp pattern = compiledFor lib hstr.regexp pattern
      ∧ ∀ (i : ℕ) line, acc.selection[i]? = some line →
        (matchOf lib hstr.regexp pattern line).ret = true
          ∧ acc.selectionRegexpMatch i = (matchOf lib hstr.regexp pattern line).offsets)
    ⟨rfl, fun i line hline => by simp at hline⟩ ?_ ?_
  · exact hinv.2
  · rintro acc line ⟨hcompiled, hpaired⟩
    unfold selectFirst
    by_cases hroom : acc.selection.length < n
    · rw [if_pos hroom]
      simp only [Option.getD_some]
      have hmode' : (hstr_realloc_selection hstr n).matching = .REGEXP := hmode
      rw [if_neg hpattern, hmode']
      simp only
      have hsame : (hstr_regexp_match lib acc.regexp pattern line CMDLINE_LNG).1
          = matchOf lib hstr.regexp pattern line := matchOf_congr hcompiled line
      have hkeep := compiledFor_hstr_regexp_match lib acc.regexp pattern line CMDLINE_LNG
      rw [hsame]
      by_cases hret : (matchOf lib hstr.regexp pattern line).ret = true
      · rw [if_pos hret]
        refine ⟨hkeep.trans hcompiled, fun i line' hline' => ?_⟩
        -- the new line is the last one, and the element beside it is written
        simp only at hline' ⊢
        rcases Nat.lt_trichotomy i acc.selection.length with hlt | rfl | hgt
        · rw [List.getElem?_append_left hlt] at hline'
          rw [Function.update_of_ne hlt.ne]
          exact hpaired i line' hline'
        · rw [List.getElem?_append_right (Nat.le_refl _), Nat.sub_self,
            List.getElem?_cons_zero] at hline'
          obtain rfl := Option.some.inj hline'
          rw [Function.update_self]
          exact ⟨hret, rfl⟩
        · rw [List.getElem?_eq_none (by simp; omega)] at hline'
          cases hline'
      · rw [if_neg hret]
        exact ⟨hkeep.trans hcompiled, hpaired⟩
    · rw [if_neg hroom]
      exact ⟨hcompiled, hpaired⟩
  · rintro acc line pattern' ⟨hcompiled, hpaired⟩
    have hmode' : (hstr_realloc_selection hstr n).matching = .REGEXP := hmode
    have hsecond : selectSecond (hstr_realloc_selection hstr n) pattern' n acc line = acc := by
      unfold selectSecond
      rw [hmode']
      split <;> rfl
    rw [hsecond]
    exact ⟨hcompiled, hpaired⟩

/-- A match that was found is one of `regexec`. -/
theorem matchOf_inside {lib : RegexLib R} (hlib : OffsetsInside lib) {re : HstrRegexp R}
    {pattern line : CString} (h : (matchOf lib re pattern line).ret = true) :
    ∃ m, (matchOf lib re pattern line).offsets = some m ∧ Inside m line := by
  rw [matchOf, hstr_regexp_match_fst] at h ⊢
  cases hcompiled : compiledFor lib re pattern with
  | error status => simp [hcompiled] at h
  | ok compiled =>
      simp only [hcompiled, matchCompiled] at h ⊢
      cases hexec : lib.regexec compiled line with
      | none => simp [hexec] at h
      | some m =>
          simp only [hexec] at h ⊢
          by_cases hso : m.rm_so ≠ -1
          · rw [if_pos hso]
            exact ⟨m, rfl, hlib compiled line m hexec hso⟩
          · simp [hso] at h

/-- The structure as a call of `hstr_make_selection` left it, but for the layout and
the favorites. -/
structure LeftBy (lib : RegexLib R) (before : Hstr R) (pattern : CString) (history : HistoryItems)
    (maxSelectionCount : ℕ) (hstr : Hstr R) : Prop where
  matching : hstr.matching = before.matching
  selection : hstr.selection
    = (hstr_make_selection lib before (some pattern) history maxSelectionCount).selection
  selectionCapacity : hstr.selectionCapacity = maxSelectionCount
  selectionRegexpMatch : hstr.selectionRegexpMatch
    = (hstr_make_selection lib before (some pattern) history maxSelectionCount).selectionRegexpMatch
  regexp : hstr.regexp
    = (hstr_make_selection lib before (some pattern) history maxSelectionCount).regexp

/-- The latest call of `hstr_make_selection` wrote the matches: it was for regexps
and a pattern, what it wrote does not depend on what the array had, and each
match lies inside the line beside it. -/
def OffsetsValid (lib : RegexLib R) (hstr : Hstr R) : Prop :=
  ∃ before pattern history maxSelectionCount,
    LeftBy lib before pattern history maxSelectionCount hstr
      ∧ before.matching = .REGEXP ∧ strlen pattern ≠ 0
      ∧ ∀ (i : ℕ) line, hstr.selection[i]? = some line →
        ∃ m, hstr.selectionRegexpMatch i = some m ∧ Inside m line
          ∧ ∀ memory, (hstr_make_selection lib { before with selectionRegexpMatch := memory }
            (some pattern) history maxSelectionCount).selectionRegexpMatch i = some m

/-- **A call for regexps writes valid offsets.** -/
theorem LeftBy.offsetsValid {lib : RegexLib R} (hlib : OffsetsInside lib) {before : Hstr R}
    {pattern : CString} {history : HistoryItems} {n : ℕ} {hstr : Hstr R}
    (h : LeftBy lib before pattern history n hstr) (hmode : hstr.matching = .REGEXP)
    (hpattern : strlen pattern ≠ 0) : OffsetsValid lib hstr := by
  have hbefore : before.matching = .REGEXP := h.matching ▸ hmode
  refine ⟨before, pattern, history, n, h, hbefore, hpattern, fun i line hline => ?_⟩
  have hcall := hline
  rw [h.selection] at hcall
  obtain ⟨hret, hwritten⟩ :=
    selectionRegexpMatch_make_selection lib hbefore hpattern history n i line hcall
  obtain ⟨m, hm, hinside⟩ := matchOf_inside hlib hret
  refine ⟨m, by rw [h.selectionRegexpMatch, hwritten, hm], hinside, fun memory => ?_⟩
  -- the same line is selected there, since the array is not a part of the query
  have hquery : SameQuery before { before with selectionRegexpMatch := memory } :=
    ⟨rfl, rfl, rfl, rfl, rfl⟩
  have hsame := selectionOf_congr lib hquery pattern history n rfl
  rw [selectionOf, selectionOf] at hsame
  rw [← hsame] at hcall
  have hmode' : { before with selectionRegexpMatch := memory }.matching = .REGEXP := hbefore
  have hmem := selectionRegexpMatch_make_selection lib hmode' hpattern history n i line hcall
  exact hmem.2.trans hm

/-! ## The loop -/

/-- Under the current pattern and matching, the matches that may be read are those
of a call for regexps and a pattern. -/
def Paired (lib : RegexLib R) (hstr : Hstr R) (pattern : CString) : Prop :=
  strlen pattern ≠ 0 → hstr.matching = .REGEXP →
    ∃ before p history maxSelectionCount,
      LeftBy lib before p history maxSelectionCount hstr ∧ strlen p ≠ 0

theorem Paired.offsetsValid {lib : RegexLib R} (hlib : OffsetsInside lib) {hstr : Hstr R}
    {pattern : CString} (h : Paired lib hstr pattern) (hpattern : strlen pattern ≠ 0)
    (hmode : hstr.matching = .REGEXP) : OffsetsValid lib hstr := by
  obtain ⟨before, p, history, n, hleft, hp⟩ := h hpattern hmode
  exact hleft.offsetsValid hlib hmode hp

/-- The pairing depends on the matching and what a call writes. -/
theorem Paired.congr {lib : RegexLib R} {hstr hstr' : Hstr R} {pattern pattern' : CString}
    (h : Paired lib hstr pattern) (hmatching : hstr'.matching = hstr.matching)
    (hsel : hstr'.selection = hstr.selection)
    (hcap : hstr'.selectionCapacity = hstr.selectionCapacity)
    (hmatches : hstr'.selectionRegexpMatch = hstr.selectionRegexpMatch)
    (hregexp : hstr'.regexp = hstr.regexp)
    (hpattern : strlen pattern' ≠ 0 → strlen pattern ≠ 0) : Paired lib hstr' pattern' := by
  intro hlen hmode
  obtain ⟨before, p, history, n, hleft, hp⟩ := h (hpattern hlen) (hmatching ▸ hmode)
  exact ⟨before, p, history, n, ⟨hmatching.trans hleft.matching, hsel.trans hleft.selection,
    hcap.trans hleft.selectionCapacity, hmatches.trans hleft.selectionRegexpMatch,
    hregexp.trans hleft.regexp⟩, hp⟩

@[simp] theorem recalculate_selectionRegexpMatch (n : ℤ) (hstr : Hstr R) :
    (recalculate_max_history_items n hstr).selectionRegexpMatch = hstr.selectionRegexpMatch := by
  rw [recalculate_max_history_items_eq]

/-- Laying out again keeps the pairing. -/
theorem Paired.recalculate {lib : RegexLib R} {hstr : Hstr R} {pattern : CString}
    (h : Paired lib hstr pattern) (n : ℤ) :
    Paired lib (recalculate_max_history_items n hstr) pattern :=
  h.congr (recalculate_matching n hstr) (recalculate_selection n hstr)
    (recalculate_selectionCapacity n hstr) (recalculate_selectionRegexpMatch n hstr)
    (recalculate_regexp n hstr) id

/-- **Selecting pairs** the matches with the pattern it is done for. -/
theorem paired_make_selection (lib : RegexLib R) (hstr : Hstr R) (pattern : CString)
    (history : HistoryItems) (n : ℕ) :
    Paired lib (hstr_make_selection lib hstr (some pattern) history n) pattern :=
  fun hpattern _ => ⟨hstr, pattern, history, n, ⟨rfl, rfl, rfl, rfl, rfl⟩, hpattern⟩

theorem paired_reprint (env : Env R) (s : LoopState R) :
    Paired env.lib (reprint env s).hstr (reprint env s).pattern :=
  (paired_make_selection env.lib s.hstr s.pattern s.history _).recalculate s.maxy

theorem paired_deleteItem (env : Env R) {s : LoopState R} (e : Event)
    (h : Paired env.lib s.hstr s.pattern) :
    Paired env.lib (deleteItem env s e).hstr (deleteItem env s e).pattern := by
  have hasked : ∀ msg, Paired env.lib (confirmDelete s e msg).hstr (confirmDelete s e msg).pattern := by
    intro msg
    rw [confirmDelete_eq]
    exact h
  unfold deleteItem
  cases getResultFromSelection s.hstr s.selectionCursorPosition with
  | none => exact h
  | some msg =>
      simp only [keepOnSelectionRow, highlight_selection, deleteConfirmed]
      split
      · exact paired_reprint env _
      · exact hasked msg

theorem paired_addFavorite (env : Env R) {s : LoopState R} (h : Paired env.lib s.hstr s.pattern) :
    Paired env.lib (addFavorite env s).hstr (addFavorite env s).pattern := by
  unfold addFavorite
  cases getResultFromSelection s.hstr s.selectionCursorPosition with
  | none => exact h
  | some favorite => exact paired_reprint env _

theorem paired_choose_result {lib : RegexLib R} {s : LoopState R}
    (h : Paired lib s.hstr s.pattern) (cursor : ℤ) (fallback : Option CString) :
    Paired lib (choose_result s cursor fallback).1.hstr (choose_result s cursor fallback).1.pattern := by
  unfold choose_result
  cases getResultFromSelection s.hstr cursor with
  | none => exact h
  | some chosen =>
      simp only
      split
      · exact h.congr rfl rfl rfl rfl rfl id
      · exact h

theorem paired_typeCharacter (env : Env R) {s : LoopState R} (c : ℤ)
    (h : Paired env.lib s.hstr s.pattern) :
    Paired env.lib (typeCharacter env s c).hstr (typeCharacter env s c).pattern := by
  unfold typeCharacter
  split
  · exact paired_reprint env _
  · exact h

/-- What the `switch` sees. -/
theorem paired_ready {lib : RegexLib R} {s : LoopState R} (h : Paired lib s.hstr s.pattern)
    (e : Event) : Paired lib (ready s e).hstr (ready s e).pattern := by
  rw [ready_hstr, ready_pattern]
  exact h.recalculate s.maxy

/-- **A round keeps the pairing.** -/
theorem paired_step (env : Env R) {s : LoopState R} (e : Event)
    (h : Paired env.lib s.hstr s.pattern) :
    Paired env.lib (step env s e).hstr (step env s e).pattern := by
  by_cases hdone : s.done = true
  · rw [step_of_done hdone]
    exact h
  · rw [step_of_not_done (by simpa using hdone)]
    have hready := paired_ready h e
    -- one case for each key: it selects again, or the pattern is as empty as before
    unfold handle
    cases keyCase (keyOf s e) with
    | KEY_END => exact hready
    | KEY_DC => exact paired_deleteItem env e hready
    | K_CTRL_E => exact paired_reprint env _
    | K_CTRL_T => exact paired_reprint env _
    | K_CTRL_SLASH => exact paired_reprint env _
    | K_CTRL_F => exact paired_addFavorite env hready
    | KEY_RESIZE => exact paired_reprint env _
    | K_CTRL_U => exact hready.congr rfl rfl rfl rfl rfl fun hlen => absurd rfl hlen
    | K_CTRL_L =>
        refine hready.congr rfl rfl rfl rfl rfl fun hlen => ?_
        have hsame : SameLetters (ready s e).pattern
            (toggle_case (ready s e).pattern (ready s e).lowercase) :=
          map_tolower_toggle_case _ _
        rwa [← hsame.strlen]
    | KEY_BACKSPACE => exact paired_reprint env _
    | KEY_NPAGE => exact hready
    | KEY_ENTER => exact paired_choose_result hready _ _
    | KEY_LEFT => exact paired_choose_result hready _ _
    | KEY_RIGHT => exact paired_choose_result hready _ _
    | K_ESC => exact hready
    | K_CTRL_X => exact hready
    | default => exact paired_typeCharacter env _ hready

/-- The loop starts with an empty pattern, or with a selection for its pattern. -/
theorem paired_start (env : Env R) (hstr : Hstr R) (history : HistoryItems)
    (historyState : HistoryState) (favoritesFile : Option (List Byte)) (maxy : ℤ) :
    Paired env.lib (start env hstr history historyState favoritesFile maxy).hstr
      (start env hstr history historyState favoritesFile maxy).pattern := by
  unfold start
  simp only
  split
  · exact paired_reprint env _
  · next hempty => exact fun hlen => absurd hlen hempty

/-! ## The copies stay inside the lines -/

/-- A match inside a line is copied safely, however its length is limited. -/
theorem Inside.copy_safe {m : RegMatch} {line : CString} (h : Inside m line) {count : ℤ}
    (hnonneg : 0 ≤ count) (hle : count ≤ m.rm_eo - m.rm_so) (hlt : count < CMDLINE_LNG) :
    Copy.Safe ⟨line, m.rm_so, count⟩ := by
  obtain ⟨h1, h2, h3⟩ := h
  refine ⟨h1, hnonneg, ?_, hlt⟩
  show m.rm_so + count ≤ strlen line
  omega

/-- `hstr_print_selection` copies bytes of the selected lines, whatever the state it
is called in. -/
theorem printedCopies_safe {env : Env R} (hlib : OffsetsInside env.lib) (s : LoopState R)
    (pattern : Option CString) :
    ∀ c ∈ printedCopies (hstr_print_selection env s pattern).1.hstr pattern,
      ∃ copy, c = some copy ∧ copy.Safe := by
  intro c hc
  unfold printedCopies at hc
  split at hc
  · next hregexp =>
      obtain ⟨hpattern, hmode⟩ := hregexp
      cases pattern with
      | none => exact absurd rfl hpattern
      | some pattern =>
          rw [Option.getD_some] at hpattern
          have hvalid : OffsetsValid env.lib (hstr_print_selection env s (some pattern)).1.hstr :=
            ((paired_make_selection env.lib s.hstr pattern s.history _).recalculate
              s.maxy).offsetsValid hlib hpattern hmode
          obtain ⟨_, _, _, _, -, -, -, hmatches⟩ := hvalid
          obtain ⟨⟨line, i⟩, hmem, rfl⟩ := List.mem_map.mp hc
          -- the round shows the line with this index
          have htaken := List.mk_mem_zipIdx_iff_getElem?.mp hmem
          rw [List.getElem?_take] at htaken
          split at htaken
          · obtain ⟨m, hm, hinside, -⟩ := hmatches i line htaken
            simp only [hm, Option.map_some]
            have hlength := hinside.start_le_end
            have hroom : (0 : ℤ) < CMDLINE_LNG := by decide
            refine ⟨_, rfl, hinside.copy_safe ?_ ?_ ?_⟩
            · split <;> omega
            · split <;> omega
            · split <;> omega
          · cases htaken
  · exact absurd hc List.not_mem_nil

/-- The item under the cursor has the index that is tested. -/
theorem getElem?_of_getResultFromSelection {hstr : Hstr R} {cursor : ℤ} {line : CString}
    (h : getResultFromSelection hstr cursor = some line) :
    hstr.selection[(selection_index hstr cursor).toNat]? = some line := by
  unfold getResultFromSelection at h
  simp only at h
  split at h
  · exact h
  · cases h

/-- `highlight_selection` copies bytes of the selected line, under the current
pattern and matching. -/
theorem highlightedCopies_safe {lib : RegexLib R} (hlib : OffsetsInside lib) {hstr : Hstr R}
    {pattern : CString} (h : Paired lib hstr pattern) (width previous : ℤ) :
    ∀ c ∈ highlightedCopies width hstr pattern previous, ∃ copy, c = some copy ∧ copy.Safe := by
  intro c hc
  unfold highlightedCopies at hc
  cases hitem : getResultFromSelection hstr previous with
  | none => simp [hitem] at hc
  | some line =>
      simp only [hitem] at hc
      split at hc
      · next hregexp =>
          obtain ⟨_, _, _, _, -, -, -, hmatches⟩ := h.offsetsValid hlib hregexp.1 hregexp.2
          obtain ⟨m, hm, hinside, -⟩ := hmatches _ line (getElem?_of_getResultFromSelection hitem)
          rw [hm, Option.map_some, List.mem_singleton] at hc
          have hlength := hinside.start_le_end
          refine ⟨_, hc, hinside.copy_safe ?_ ?_ ?_⟩
          · omega
          · omega
          · simp only [CMDLINE_LNG]
            omega
      · exact absurd hc List.not_mem_nil

/-- **The offsets of matches are always valid** where they are read: at every key,
if there is a pattern and regexps are matched, the latest call of
`hstr_make_selection` wrote them with the lines, inside the lines. So all that is
copied for highlighting are bytes of the selected lines. -/
theorem regexp_offsets_valid (env : Env R) (hlib : OffsetsInside env.lib) (hstr : Hstr R)
    (history : HistoryItems) (historyState : HistoryState) (favoritesFile : Option (List Byte))
    (maxy : ℤ) (events : List Event) :
    Guarded (step env)
      (fun s e =>
        (strlen (ready s e).pattern ≠ 0 → (ready s e).hstr.matching = .REGEXP →
          OffsetsValid env.lib (ready s e).hstr)
        ∧ ∀ width previous, ∀ c ∈ highlightedCopies width (ready s e).hstr (ready s e).pattern
            previous, ∃ copy, c = some copy ∧ copy.Safe)
      (start env hstr history historyState favoritesFile maxy) events
    ∧ ∀ (s : LoopState R) pattern,
        ∀ c ∈ printedCopies (hstr_print_selection env s pattern).1.hstr pattern,
          ∃ copy, c = some copy ∧ copy.Safe := by
  refine ⟨?_, printedCopies_safe hlib⟩
  refine guarded_of_guarded (I := fun s : LoopState R => Paired env.lib s.hstr s.pattern)
    (G := fun _ _ => True) (fun s e h _ => paired_step env e h) (fun s e h _ => ?_)
    (paired_start env hstr history historyState favoritesFile maxy)
    (guarded_of_forall_mem fun _ _ _ => trivial)
  have hready := paired_ready h e
  exact ⟨hready.offsetsValid hlib, fun width previous =>
    highlightedCopies_safe hlib hready width previous⟩

/-! ## A library with such offsets -/

/-- An occurrence of a string ends inside the other one. -/
theorem findIdx?_isPrefixOf_le {xs ys : List Byte} {i : ℕ}
    (h : xs.tails.findIdx? (fun t => ys.isPrefixOf t) = some i) : i + ys.length ≤ xs.length := by
  obtain ⟨hlt, hprefix, -⟩ := List.findIdx?_eq_some_iff_getElem.mp h
  rw [List.getElem_tails, List.isPrefixOf_iff_prefix] at hprefix
  have hlength := hprefix.length_le
  rw [List.length_drop] at hlength
  rw [List.length_tails] at hlt
  omega

theorem offsetsInside_literalRegex : OffsetsInside literalRegex := by
  rintro ⟨needle, icase⟩ text m hexec -
  obtain ⟨so, hso, rfl⟩ := Option.map_eq_some_iff.mp hexec
  obtain ⟨i, hi, hcast⟩ := Option.bind_eq_some_iff.mp hso
  obtain rfl := Option.some.inj hcast
  have hle : i + strlen needle ≤ strlen text := by
    cases icase with
    | false => exact findIdx?_isPrefixOf_le hi
    | true =>
        have h := findIdx?_isPrefixOf_le hi
        rwa [List.length_map, List.length_map] at h
  refine ⟨Int.natCast_nonneg i, ?_, ?_⟩
  · show (i : ℤ) ≤ i + strlen needle
    omega
  · show (i : ℤ) + strlen needle ≤ strlen text
    omega

/-- The loop for regexps with a pattern of the command line, two cursor keys, and
the keys that change the pattern. -/
theorem regexp_offsets_valid_keys :
    Guarded (step plainEnv)
      (fun s e =>
        (strlen (ready s e).pattern ≠ 0 → (ready s e).hstr.matching = .REGEXP →
          OffsetsValid plainEnv.lib (ready s e).hstr)
        ∧ ∀ width previous, ∀ c ∈ highlightedCopies width (ready s e).hstr (ready s e).pattern
            previous, ∃ copy, c = some copy ∧ copy.Safe)
      (plainStart (some (lit "regexp-matching")) (lit "ma"))
      [press KEY_DOWN 0 24, press KEY_DOWN 0 24, press K_CTRL_L 0 24, press K_CTRL_U 0 24]
    ∧ ∀ (s : LoopState (CString × Bool)) pattern,
        ∀ c ∈ printedCopies (hstr_print_selection plainEnv s pattern).1.hstr pattern,
          ∃ copy, c = some copy ∧ copy.Safe :=
  regexp_offsets_valid plainEnv offsetsInside_literalRegex
    { hstr_get_env_configuration (hstr_init zeroed) (some (lit "regexp-matching")) with
      cmdline := lit "ma" }
    plainItems plainState none 24
    [press KEY_DOWN 0 24, press KEY_DOWN 0 24, press K_CTRL_L 0 24, press K_CTRL_U 0 24]

end Hstr.Offsets
