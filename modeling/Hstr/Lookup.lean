/-
Which lines `hstr_make_selection` selects.

The function walks over the lines of a view twice and adds lines to an array of
limited size while it walks. What comes out is a beginning of a list that can be
said without the walks: the lines the first pass looks for, then those the second
pass looks for, and repetitions dropped unless the user keeps them. The regexp
pass is the one that does not ask for repetitions.
-/
import Hstr.Box
import Hstr.Lib.Search

set_option autoImplicit false

namespace Hstr.Lookup

open Lib.Dedup Lib.Search Hstr.Strings Hstr.History Hstr.Regexp Hstr.Selection Hstr.Box

variable {R : Type}

/-! ## The two passes without the array -/

/-- The lines that the first pass adds. -/
def matchesFirst (lib : RegexLib R) (hstr : Hstr R) (pattern line : CString) : Bool :=
  if strlen pattern = 0 then true
  else match hstr.matching with
    | .SUBSTRING => decide (search hstr.caseSensitive line pattern = some 0)
    | .REGEXP => (hstr_regexp_match lib hstr.regexp pattern line CMDLINE_LNG).1.ret
    | .KEYWORDS => keywordsAllMatch hstr.caseSensitive line pattern

/-- The lines that the second pass adds. -/
def matchesSecond (hstr : Hstr R) (pattern line : CString) : Bool :=
  match hstr.matching with
  | .SUBSTRING =>
      decide (search hstr.caseSensitive line pattern ≠ none
        ∧ search hstr.caseSensitive line pattern ≠ some 0)
  | .REGEXP => false
  | .KEYWORDS => false

/-- Are repetitions dropped? The regexp pass writes to the array without asking. -/
def dropsDuplicates (hstr : Hstr R) (pattern : CString) : Bool :=
  hstr.noRawHistoryDuplicates && !(decide (hstr.matching = .REGEXP) && decide (strlen pattern ≠ 0))

theorem dropsDuplicates_of_ne_REGEXP {hstr : Hstr R} (hmode : hstr.matching ≠ .REGEXP)
    (pattern : CString) : dropsDuplicates hstr pattern = hstr.noRawHistoryDuplicates := by
  simp [dropsDuplicates, hmode]

/-- `hstr_selection_add` is reading into an array of limited size. -/
theorem hstr_selection_add_eq (selection : List CString) (capacity : ℕ) (line : CString)
    (noDuplicates : Bool) :
    hstr_selection_add selection capacity line noDuplicates
      = addUpTo capacity noDuplicates selection line := rfl

/-- Nothing is added to a full array. -/
theorem addUpTo_of_full {selection : List CString} {capacity : ℕ}
    (hfull : ¬ selection.length < capacity) (noDuplicates : Bool) (line : CString) :
    addUpTo capacity noDuplicates selection line = selection :=
  if_pos (Nat.le_of_not_lt hfull)

theorem foldl_addUpTo_of_full {selection : List CString} {capacity : ℕ}
    (hfull : ¬ selection.length < capacity) (noDuplicates : Bool) (ls : List CString) :
    ls.foldl (addUpTo capacity noDuplicates) selection = selection := by
  induction ls with
  | nil => rfl
  | cons line ls ih => rw [List.foldl_cons, addUpTo_of_full hfull, ih]

/-- Without a pattern no line is left for the second pass: every line starts with
the empty string. -/
theorem matchesSecond_empty (hstr : Hstr R) (line : CString) :
    matchesSecond hstr empty line = false := by
  have hsearch : search hstr.caseSensitive line empty = some 0 := by
    unfold search
    split
    · exact strstr_empty line
    · exact strcasestr_empty line
  unfold matchesSecond
  cases hstr.matching with
  | SUBSTRING => simp [hsearch]
  | REGEXP => rfl
  | KEYWORDS => rfl

/-- The body of the first loop, where the pattern compiles to what it compiled to
before the loop. -/
theorem selection_selectFirst (lib : RegexLib R) (hstr : Hstr R) (pattern : Option CString) (n : ℕ)
    {acc : Selecting R} (line : CString)
    (hre : compiledFor lib acc.regexp (pattern.getD empty)
      = compiledFor lib hstr.regexp (pattern.getD empty)) :
    (selectFirst lib hstr pattern n acc line).selection
      = if matchesFirst lib hstr (pattern.getD empty) line then
          addUpTo n (dropsDuplicates hstr (pattern.getD empty)) acc.selection line
        else acc.selection := by
  unfold selectFirst matchesFirst dropsDuplicates
  generalize pattern.getD empty = p at hre ⊢
  by_cases hroom : acc.selection.length < n
  · rw [if_pos hroom]
    simp only
    by_cases hlen : strlen p = 0
    · simp [hlen, Selecting.add, hstr_selection_add_eq]
    · rw [if_neg hlen, if_neg hlen]
      cases hm : hstr.matching with
      | SUBSTRING =>
          by_cases hfound : search hstr.caseSensitive line p = some 0
          · simp [hfound, Selecting.add, hstr_selection_add_eq]
          · simp [hfound]
      | KEYWORDS =>
          cases hall : keywordsAllMatch hstr.caseSensitive line p with
          | false => simp
          | true => simp [Selecting.add, hstr_selection_add_eq]
      | REGEXP =>
          have hres : (hstr_regexp_match lib acc.regexp p line CMDLINE_LNG).1
              = (hstr_regexp_match lib hstr.regexp p line CMDLINE_LNG).1 := by
            rw [hstr_regexp_match_fst, hstr_regexp_match_fst, hre]
          simp only [hres]
          cases hret : (hstr_regexp_match lib hstr.regexp p line CMDLINE_LNG).1.ret with
          | false => simp
          | true =>
              -- the line is written behind the others, whether it is there or not
              simp [addUpTo, Nat.not_le.mpr hroom, hlen]
  · rw [if_neg hroom, addUpTo_of_full hroom, ite_self]

/-- The body of the first loop leaves the pattern compiled as it was. -/
theorem compiledFor_selectFirst (lib : RegexLib R) (hstr : Hstr R) (pattern : Option CString)
    (n : ℕ) (acc : Selecting R) (line : CString) :
    compiledFor lib (selectFirst lib hstr pattern n acc line).regexp (pattern.getD empty)
      = compiledFor lib acc.regexp (pattern.getD empty) := by
  rcases regexp_selectFirst lib hstr pattern n acc line with h | h
  · rw [h]
  · rw [h, compiledFor_hstr_regexp_match]

theorem selection_selectSecond (hstr : Hstr R) (pattern : CString) (n : ℕ) (acc : Selecting R)
    (line : CString) :
    (selectSecond hstr pattern n acc line).selection
      = if matchesSecond hstr pattern line then
          addUpTo n (dropsDuplicates hstr pattern) acc.selection line
        else acc.selection := by
  unfold selectSecond matchesSecond dropsDuplicates
  by_cases hroom : acc.selection.length < n
  · rw [if_pos hroom]
    cases hm : hstr.matching with
    | SUBSTRING =>
        by_cases hfound : search hstr.caseSensitive line pattern ≠ none
            ∧ search hstr.caseSensitive line pattern ≠ some 0
        · simp [hfound, Selecting.add, hstr_selection_add_eq]
        · simp [hfound]
    | REGEXP => simp
    | KEYWORDS => simp
  · rw [if_neg hroom, addUpTo_of_full hroom, ite_self]

/-- The first loop adds the lines it looks for, one after another. -/
theorem selection_first_loop (lib : RegexLib R) (hstr : Hstr R) (pattern : Option CString) (n : ℕ)
    (ls : List CString) (acc : Selecting R)
    (hre : compiledFor lib acc.regexp (pattern.getD empty)
      = compiledFor lib hstr.regexp (pattern.getD empty)) :
    (ls.foldl (selectFirst lib hstr pattern n) acc).selection
      = (ls.filter (matchesFirst lib hstr (pattern.getD empty))).foldl
          (addUpTo n (dropsDuplicates hstr (pattern.getD empty))) acc.selection := by
  induction ls generalizing acc with
  | nil => rfl
  | cons line ls ih =>
      rw [List.foldl_cons, ih _ ((compiledFor_selectFirst lib hstr pattern n acc line).trans hre),
        selection_selectFirst lib hstr pattern n line hre, List.filter_cons]
      split
      · rfl
      · rfl

theorem selection_second_loop (hstr : Hstr R) (pattern : CString) (n : ℕ) (ls : List CString)
    (acc : Selecting R) :
    (ls.foldl (selectSecond hstr pattern n) acc).selection
      = (ls.filter (matchesSecond hstr pattern)).foldl
          (addUpTo n (dropsDuplicates hstr pattern)) acc.selection := by
  induction ls generalizing acc with
  | nil => rfl
  | cons line ls ih =>
      rw [List.foldl_cons, ih, selection_selectSecond, List.filter_cons]
      split
      · rfl
      · rfl

/-- What the two passes look for, in the order in which they find it. -/
def candidates (lib : RegexLib R) (hstr : Hstr R) (pattern : CString) (history : HistoryItems) :
    List CString :=
  (source hstr history).filter (matchesFirst lib hstr pattern)
    ++ (source hstr history).filter (matchesSecond hstr pattern)

theorem selection_selecting (lib : RegexLib R) (hstr : Hstr R) (pattern : Option CString)
    (history : HistoryItems) (n : ℕ) :
    (selecting lib hstr pattern history n).selection
      = (distinct (dropsDuplicates hstr (pattern.getD empty))
          (candidates lib hstr (pattern.getD empty) history)).take n := by
  rw [candidates, ← foldl_addUpTo, List.foldl_append]
  have hfirst := selection_first_loop lib hstr pattern n (source hstr history)
    ⟨[], hstr.selectionRegexpMatch, hstr.regexp⟩ rfl
  simp only at hfirst
  rw [← hfirst]
  unfold selecting
  simp only
  cases pattern with
  | none =>
      -- the second loop does not run, and it would find nothing
      have hnone : (source hstr history).filter (matchesSecond hstr empty) = [] := by
        rw [List.filter_eq_nil_iff]
        intro line _
        rw [matchesSecond_empty]
        exact Bool.false_ne_true
      rw [Option.getD_none, hnone, List.foldl_nil]
  | some pattern =>
      simp only [Option.getD_some]
      split
      · exact selection_second_loop hstr pattern n _ _
      · next hfull => rw [foldl_addUpTo_of_full hfull]

/-- **What `hstr_make_selection` selects**: the first `n` of the candidates, with or
without repetitions. -/
theorem selection_make_selection (lib : RegexLib R) (hstr : Hstr R) (pattern : Option CString)
    (history : HistoryItems) (n : ℕ) :
    (hstr_make_selection lib hstr pattern history n).selection
      = (distinct (dropsDuplicates hstr (pattern.getD empty))
          (candidates lib hstr (pattern.getD empty) history)).take n :=
  selection_selecting lib (hstr_realloc_selection hstr n) pattern history n

/-! ## Repetitions -/

/-- **When the selected lines are pairwise different.** Where duplicates are to be
dropped they are, but for regexps: there, only if a line that matches and stood in
the view before comes too late to be selected. -/
theorem selection_nodup_iff (lib : RegexLib R) (hstr : Hstr R)
    (hdrop : hstr.noRawHistoryDuplicates = true) (pattern : Option CString)
    (history : HistoryItems) (n : ℕ) :
    (hstr_make_selection lib hstr pattern history n).selection.Nodup
      ↔ hstr.matching ≠ .REGEXP ∨ strlen (pattern.getD empty) = 0
        ∨ RepeatsBehind
            (fun line => (hstr_regexp_match lib hstr.regexp (pattern.getD empty) line
              CMDLINE_LNG).1.ret) n (source hstr history) := by
  rw [selection_make_selection]
  generalize pattern.getD empty = p
  by_cases hregexp : hstr.matching = .REGEXP ∧ strlen p ≠ 0
  · obtain ⟨hm, hlen⟩ := hregexp
    have hkeep : dropsDuplicates hstr p = false := by simp [dropsDuplicates, hm, hlen]
    have hfirst : matchesFirst lib hstr p
        = fun line => (hstr_regexp_match lib hstr.regexp p line CMDLINE_LNG).1.ret := by
      funext line
      rw [matchesFirst, if_neg hlen, hm]
    have hsecond : (source hstr history).filter (matchesSecond hstr p) = [] := by
      rw [List.filter_eq_nil_iff]
      intro line _
      simp [matchesSecond, hm]
    rw [hkeep, distinct, if_neg Bool.false_ne_true, candidates, hsecond, List.append_nil, hfirst,
      nodup_take_filter_iff]
    constructor
    · exact fun h => Or.inr (Or.inr h)
    · rintro (hno | hno | h)
      · exact absurd hm hno
      · exact absurd hno hlen
      · exact h
  · have hdrops : dropsDuplicates hstr p = true := by
      simp only [dropsDuplicates, hdrop, Bool.true_and, Bool.not_eq_true', Bool.and_eq_false_iff,
        decide_eq_false_iff_not]
      tauto
    rw [hdrops]
    refine ⟨fun _ => ?_, fun _ => (nodup_distinct _).sublist (List.take_sublist n _)⟩
    rw [not_and_or, not_not] at hregexp
    exact hregexp.imp id Or.inl

/-- The box with the default configuration and a matching. -/
def plainBox (matching : Matching) : Hstr (CString × Bool) :=
  { (hstr_init zeroed : Hstr (CString × Bool)) with matching, view := .HISTORY }

/-- A raw history with a repeated command. -/
def repeatedCommands : HistoryItems where
  items := []
  rawItems := [⟨.line 2, lit "ls -l"⟩, ⟨.line 1, lit "cd ~"⟩, ⟨.line 0, lit "ls -l"⟩]
  unmetafiedItems := []

/-- Keywords, for a history with a repeated command. -/
theorem selection_nodup_iff_keywords :
    (hstr_make_selection literalRegex (plainBox .KEYWORDS) (some (lit "l -"))
        repeatedCommands 10).selection.Nodup
      ↔ (plainBox .KEYWORDS).matching ≠ .REGEXP ∨ strlen (lit "l -") = 0
        ∨ RepeatsBehind (fun line => (hstr_regexp_match literalRegex (plainBox .KEYWORDS).regexp
            (lit "l -") line CMDLINE_LNG).1.ret) 10 (source (plainBox .KEYWORDS) repeatedCommands) :=
  selection_nodup_iff literalRegex (plainBox .KEYWORDS) rfl (some (lit "l -")) repeatedCommands 10

/-- With regexp matching and the default to drop duplicates, `ls -l` is selected
twice for the pattern `ls`. -/
theorem regexp_selection_repeats :
    (plainBox .REGEXP).noRawHistoryDuplicates = true
      ∧ ¬ (hstr_make_selection literalRegex (plainBox .REGEXP) (some (lit "ls"))
        repeatedCommands 10).selection.Nodup := by
  constructor
  · rfl
  · decide

/-! ## Substrings -/

/-- The bytes that a search compares, by the case mode. -/
def letters (caseSensitive : Bool) (s : CString) : List Byte :=
  if caseSensitive = HSTR_CASE_SENSITIVE then s.bytes else s.bytes.map tolower

/-- The line starts with the pattern. -/
def StartsWith (caseSensitive : Bool) (pattern line : CString) : Prop :=
  letters caseSensitive pattern <+: letters caseSensitive line

/-- The line has the pattern as a substring. -/
def Contains (caseSensitive : Bool) (pattern line : CString) : Prop :=
  letters caseSensitive pattern <:+: letters caseSensitive line

instance (caseSensitive : Bool) (pattern line : CString) :
    Decidable (StartsWith caseSensitive pattern line) :=
  inferInstanceAs (Decidable (letters caseSensitive pattern <+: letters caseSensitive line))

instance (caseSensitive : Bool) (pattern line : CString) :
    Decidable (Contains caseSensitive pattern line) :=
  inferInstanceAs (Decidable (letters caseSensitive pattern <:+: letters caseSensitive line))

theorem search_eq_firstOccurrence (caseSensitive : Bool) (line pattern : CString) :
    search caseSensitive line pattern
      = firstOccurrence (letters caseSensitive line) (letters caseSensitive pattern) := by
  unfold search letters
  split
  · rfl
  · rfl

theorem search_eq_zero_iff {caseSensitive : Bool} {line pattern : CString} :
    search caseSensitive line pattern = some 0 ↔ StartsWith caseSensitive pattern line := by
  rw [search_eq_firstOccurrence]
  exact firstOccurrence_eq_zero_iff

theorem search_ne_none_iff {caseSensitive : Bool} {line pattern : CString} :
    search caseSensitive line pattern ≠ none ↔ Contains caseSensitive pattern line := by
  rw [search_eq_firstOccurrence, Option.ne_none_iff_isSome]
  exact firstOccurrence_isSome_iff

/-- Every line starts with the empty pattern. -/
theorem startsWith_of_strlen_eq_zero {caseSensitive : Bool} {pattern : CString}
    (h : strlen pattern = 0) (line : CString) : StartsWith caseSensitive pattern line := by
  rw [strlen_eq_zero_iff.mp h]
  unfold StartsWith letters
  split
  · exact List.nil_prefix
  · exact List.nil_prefix

/-- **The substring selection**: the lines that start with the pattern, then those
that contain it elsewhere, both in the order of the view, repetitions dropped or
kept, as many as there is room for. The empty pattern selects from all lines. -/
theorem substring_selection (lib : RegexLib R) (hstr : Hstr R) (hmode : hstr.matching = .SUBSTRING)
    (pattern : Option CString) (history : HistoryItems) (n : ℕ) :
    (hstr_make_selection lib hstr pattern history n).selection
        = (distinct hstr.noRawHistoryDuplicates
            ((source hstr history).filter (StartsWith hstr.caseSensitive (pattern.getD empty) ·)
              ++ (source hstr history).filter fun line =>
                Contains hstr.caseSensitive (pattern.getD empty) line
                  ∧ ¬ StartsWith hstr.caseSensitive (pattern.getD empty) line)).take n
      ∧ (strlen (pattern.getD empty) = 0 →
        (hstr_make_selection lib hstr pattern history n).selection
          = (distinct hstr.noRawHistoryDuplicates (source hstr history)).take n) := by
  rw [selection_make_selection]
  generalize pattern.getD empty = p
  have hdrops : dropsDuplicates hstr p = hstr.noRawHistoryDuplicates :=
    dropsDuplicates_of_ne_REGEXP (by simp [hmode]) p
  have hfirst : ∀ line, matchesFirst lib hstr p line
      = decide (StartsWith hstr.caseSensitive p line) := by
    intro line
    unfold matchesFirst
    by_cases hlen : strlen p = 0
    · rw [if_pos hlen, decide_eq_true (startsWith_of_strlen_eq_zero hlen line)]
    · rw [if_neg hlen, hmode]
      exact decide_eq_decide.mpr search_eq_zero_iff
  have hsecond : ∀ line, matchesSecond hstr p line
      = decide (Contains hstr.caseSensitive p line ∧ ¬ StartsWith hstr.caseSensitive p line) := by
    intro line
    unfold matchesSecond
    rw [hmode]
    refine decide_eq_decide.mpr ?_
    rw [search_ne_none_iff, Ne, search_eq_zero_iff]
  have hcandidates : candidates lib hstr p history
      = (source hstr history).filter (StartsWith hstr.caseSensitive p ·)
        ++ (source hstr history).filter fun line =>
          Contains hstr.caseSensitive p line ∧ ¬ StartsWith hstr.caseSensitive p line := by
    rw [candidates, funext hfirst, funext hsecond]
  rw [hdrops, hcandidates]
  refine ⟨rfl, fun hlen => ?_⟩
  -- all lines start with the empty pattern, so none is left for the second pass
  have hall : (source hstr history).filter (StartsWith hstr.caseSensitive p ·)
      = source hstr history := by
    rw [List.filter_eq_self]
    intro line _
    exact decide_eq_true (startsWith_of_strlen_eq_zero hlen line)
  have hnone : ((source hstr history).filter fun line =>
      Contains hstr.caseSensitive p line ∧ ¬ StartsWith hstr.caseSensitive p line) = [] := by
    rw [List.filter_eq_nil_iff]
    intro line _
    simp [startsWith_of_strlen_eq_zero hlen line]
  rw [hall, hnone, List.append_nil]

/-- Three lines, one of them twice, for the pattern `ls`. -/
theorem substring_selection_ls :
    (hstr_make_selection literalRegex (plainBox .SUBSTRING) (some (lit "ls")) repeatedCommands
        10).selection
        = (distinct true
            ((source (plainBox .SUBSTRING) repeatedCommands).filter (StartsWith false (lit "ls") ·)
              ++ (source (plainBox .SUBSTRING) repeatedCommands).filter fun line =>
                Contains false (lit "ls") line ∧ ¬ StartsWith false (lit "ls") line)).take 10
      ∧ (strlen (lit "ls") = 0 →
        (hstr_make_selection literalRegex (plainBox .SUBSTRING) (some (lit "ls")) repeatedCommands
            10).selection
          = (distinct true (source (plainBox .SUBSTRING) repeatedCommands)).take 10) :=
  substring_selection literalRegex (plainBox .SUBSTRING) rfl (some (lit "ls")) repeatedCommands 10

/-! ## Keywords

The tokenizer cuts a copy of the pattern in place and keeps its position between
two calls; the loop runs it to the end for every line. -/

/-- A call of `strtok_r(_, " ", &keywordsSavePtr)` at a position: the token, and the
position behind it. -/
def strtok_r_next (save : CString) : Option (CString × CString) :=
  (nextWord SPACE save.bytes).map fun next => (ofBuffer next.1, ofBuffer next.2)

/-- The token is the first one, and the others are found from the position behind
it. -/
theorem strtok_r_next_spec (save : CString) :
    match strtok_r_next save with
    | none => words SPACE save.bytes = []
    | some (token, rest) =>
        words SPACE save.bytes = token.bytes :: words SPACE rest.bytes
          ∧ strlen rest < strlen save := by
  unfold strtok_r_next
  cases hnext : nextWord SPACE save.bytes with
  | none => exact words_of_nextWord_none hnext
  | some next =>
      obtain ⟨w, rest⟩ := next
      obtain ⟨hwords, hlen⟩ := words_of_nextWord_some hnext
      have hparts : w <:+: save.bytes ∧ rest <:+: save.bytes := nextWord_infix hnext
      have hw : (ofBuffer w).bytes = w := ofBuffer_bytes fun h0 => save.nonul (hparts.1.subset h0)
      have hrest : (ofBuffer rest).bytes = rest :=
        ofBuffer_bytes fun h0 => save.nonul (hparts.2.subset h0)
      simp only [Option.map_some, hw, hrest, strlen]
      exact ⟨hwords, hlen⟩

/-- The loop `while(true)` over the tokens, with the flag `keywordsAllMatch`. -/
def keywordsLoop (caseSensitive : Bool) (line save : CString) (keywordsAllMatch : Bool) : Bool :=
  match _hnext : strtok_r_next save with
  | none => keywordsAllMatch
  | some (keywordsToken, rest) =>
      keywordsLoop caseSensitive line rest
        (if search caseSensitive line keywordsToken = none then false else keywordsAllMatch)
termination_by strlen save
decreasing_by
  have hspec := strtok_r_next_spec save
  rw [_hnext] at hspec
  exact hspec.2

theorem map_bytes_strtok_r (pattern : CString) :
    (strtok_r pattern SPACE).map CString.bytes = words SPACE pattern.bytes := by
  unfold strtok_r words
  conv_rhs => rw [← List.attach_map_subtype_val (pattern.bytes.splitOn SPACE), List.filter_map]
  rw [List.filter_map, List.map_map]
  rfl

/-- **The loop tests all tokens.** -/
theorem keywordsLoop_eq (caseSensitive : Bool) (line save : CString) (flag : Bool) :
    keywordsLoop caseSensitive line save flag
      = (flag && keywordsAllMatch caseSensitive line save) := by
  induction save, flag using keywordsLoop.induct caseSensitive line with
  | case1 save flag hnext =>
      have hspec := strtok_r_next_spec save
      rw [hnext] at hspec
      have hnil : strtok_r save SPACE = [] := by
        rw [← List.map_eq_nil_iff (f := CString.bytes), map_bytes_strtok_r]
        exact hspec
      rw [keywordsLoop, keywordsAllMatch, hnil, List.all_nil, Bool.and_true]
      split
      · rfl
      · next h => rw [hnext] at h; cases h
  | case2 save flag token rest hnext ih =>
      have hspec := strtok_r_next_spec save
      rw [hnext] at hspec
      have hcons : strtok_r save SPACE = token :: strtok_r rest SPACE := by
        apply List.map_injective_iff.mpr bytes_injective
        rw [List.map_cons, map_bytes_strtok_r, map_bytes_strtok_r]
        exact hspec.1
      rw [keywordsLoop]
      split
      · next h => rw [hnext] at h; cases h
      · next token' rest' h =>
          rw [hnext] at h
          obtain ⟨rfl, rfl⟩ := Prod.mk.inj (Option.some.inj h)
          rw [dite_eq_ite] at ih
          have hall : keywordsAllMatch caseSensitive line save
              = ((search caseSensitive line token).isSome
                && keywordsAllMatch caseSensitive line rest) := by
            simp only [keywordsAllMatch, hcons, List.all_cons]
          rw [ih, hall]
          cases search caseSensitive line token with
          | none => simp
          | some offset => simp

/-- A token of a pattern: a maximal piece of it without spaces. -/
def IsToken (pattern token : CString) : Prop := IsWord SPACE pattern.bytes token.bytes

theorem mem_strtok_r {pattern token : CString} :
    token ∈ strtok_r pattern SPACE ↔ IsToken pattern token := by
  rw [IsToken, ← mem_words_iff, ← map_bytes_strtok_r, List.mem_map]
  constructor
  · exact fun h => ⟨token, h, rfl⟩
  · rintro ⟨token', h, heq⟩
    rwa [← bytes_injective heq]

/-- The line contains every token of the pattern. -/
def ContainsTokens (caseSensitive : Bool) (pattern line : CString) : Prop :=
  ∀ token, IsToken pattern token → Contains caseSensitive token line

theorem keywordsAllMatch_iff {caseSensitive : Bool} {line pattern : CString} :
    keywordsAllMatch caseSensitive line pattern = true
      ↔ ContainsTokens caseSensitive pattern line := by
  unfold keywordsAllMatch ContainsTokens
  rw [List.all_eq_true]
  refine forall_congr' fun token => ?_
  rw [mem_strtok_r, ← Option.ne_none_iff_isSome, search_ne_none_iff]

instance (caseSensitive : Bool) (pattern line : CString) :
    Decidable (ContainsTokens caseSensitive pattern line) :=
  decidable_of_iff _ keywordsAllMatch_iff

theorem ContainsTokens.congr {caseSensitive : Bool} {p q : CString}
    (h : ∀ token, IsToken p token ↔ IsToken q token) (line : CString) :
    ContainsTokens caseSensitive p line ↔ ContainsTokens caseSensitive q line :=
  forall_congr' fun token => by rw [h token]

/-- A pattern of spaces has no tokens. -/
theorem not_isToken_of_spaces {pattern : CString} (h : ∀ c ∈ pattern.bytes, c = SPACE)
    (token : CString) : ¬ IsToken pattern token := by
  rintro ⟨hne, hspace, before, after, hbytes, -, -⟩
  obtain ⟨c, hc⟩ := List.exists_mem_of_ne_nil _ hne
  have hin : c ∈ pattern.bytes := by
    rw [hbytes]
    exact List.mem_append_left _ (List.mem_append_right _ hc)
  exact hspace (h c hin ▸ hc)

/-- **The keywords selection**: the lines that contain every token of the pattern,
in the order of the view, repetitions dropped or kept, as many as there is room
for. So patterns with the same tokens select the same lines, and a pattern of spaces
selects like the empty one. -/
theorem keywords_selection (lib : RegexLib R) (hstr : Hstr R) (hmode : hstr.matching = .KEYWORDS)
    (history : HistoryItems) (n : ℕ) :
    (∀ pattern : Option CString, (hstr_make_selection lib hstr pattern history n).selection
        = (distinct hstr.noRawHistoryDuplicates ((source hstr history).filter
            (ContainsTokens hstr.caseSensitive (pattern.getD empty) ·))).take n)
      ∧ (∀ p q : CString, (∀ token, IsToken p token ↔ IsToken q token) →
        (hstr_make_selection lib hstr (some p) history n).selection
          = (hstr_make_selection lib hstr (some q) history n).selection)
      ∧ ∀ p : CString, (∀ c ∈ p.bytes, c = SPACE) →
        (hstr_make_selection lib hstr (some p) history n).selection
          = (hstr_make_selection lib hstr (some empty) history n).selection := by
  have hspec : ∀ pattern : Option CString,
      (hstr_make_selection lib hstr pattern history n).selection
        = (distinct hstr.noRawHistoryDuplicates ((source hstr history).filter
            (ContainsTokens hstr.caseSensitive (pattern.getD empty) ·))).take n := by
    intro pattern
    rw [selection_make_selection]
    generalize pattern.getD empty = p
    have hdrops : dropsDuplicates hstr p = hstr.noRawHistoryDuplicates :=
      dropsDuplicates_of_ne_REGEXP (by simp [hmode]) p
    have hfirst : ∀ line, matchesFirst lib hstr p line
        = decide (ContainsTokens hstr.caseSensitive p line) := by
      intro line
      unfold matchesFirst
      by_cases hlen : strlen p = 0
      · -- the empty pattern has no tokens
        have hall : ContainsTokens hstr.caseSensitive p line := by
          intro token htoken
          rw [strlen_eq_zero_iff.mp hlen] at htoken
          exact absurd htoken (not_isToken_of_spaces (fun c hc => absurd hc List.not_mem_nil) token)
        rw [if_pos hlen, decide_eq_true hall]
      · rw [if_neg hlen, hmode]
        exact Bool.eq_iff_iff.mpr (by rw [decide_eq_true_eq]; exact keywordsAllMatch_iff)
    have hsecond : (source hstr history).filter (matchesSecond hstr p) = [] := by
      rw [List.filter_eq_nil_iff]
      intro line _
      simp [matchesSecond, hmode]
    rw [hdrops, candidates, hsecond, List.append_nil, funext hfirst]
  have hsame : ∀ p q : CString, (∀ token, IsToken p token ↔ IsToken q token) →
      (hstr_make_selection lib hstr (some p) history n).selection
        = (hstr_make_selection lib hstr (some q) history n).selection := by
    intro p q h
    rw [hspec, hspec, Option.getD_some, Option.getD_some]
    have hlines : ∀ line, decide (ContainsTokens hstr.caseSensitive p line)
        = decide (ContainsTokens hstr.caseSensitive q line) :=
      fun line => decide_eq_decide.mpr (ContainsTokens.congr h line)
    rw [funext hlines]
  refine ⟨hspec, hsame, fun p hp => hsame p empty fun token => ?_⟩
  exact iff_of_false (not_isToken_of_spaces hp token)
    (not_isToken_of_spaces (fun c hc => absurd hc List.not_mem_nil) token)

/-- The keywords selection of the default configuration. -/
theorem keywords_selection_default :
    (∀ pattern : Option CString,
        (hstr_make_selection literalRegex (plainBox .KEYWORDS) pattern repeatedCommands 10).selection
          = (distinct true ((source (plainBox .KEYWORDS) repeatedCommands).filter
              (ContainsTokens false (pattern.getD empty) ·))).take 10)
      ∧ (∀ p q : CString, (∀ token, IsToken p token ↔ IsToken q token) →
        (hstr_make_selection literalRegex (plainBox .KEYWORDS) (some p) repeatedCommands 10).selection
          = (hstr_make_selection literalRegex (plainBox .KEYWORDS) (some q) repeatedCommands
            10).selection)
      ∧ ∀ p : CString, (∀ c ∈ p.bytes, c = SPACE) →
        (hstr_make_selection literalRegex (plainBox .KEYWORDS) (some p) repeatedCommands 10).selection
          = (hstr_make_selection literalRegex (plainBox .KEYWORDS) (some empty) repeatedCommands
            10).selection :=
  keywords_selection literalRegex (plainBox .KEYWORDS) rfl repeatedCommands 10

end Hstr.Lookup
