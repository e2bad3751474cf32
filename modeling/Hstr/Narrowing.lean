/-
Typing narrows the list.

`hstr_make_selection` looks at the whole view for every key. What it finds for a
longer pattern is still among what it found for the shorter one: keywords and
substrings that a line has to contain get longer or more, never fewer. So a list
that had room for everything is filtered by what is typed, whichever keys lead from
one pattern to the other. Keywords keep its order; substrings sort it anew, as lines
that start with the pattern come first.
-/
import Hstr.Listing
import Hstr.Query
import Hstr.Session

set_option autoImplicit false

namespace Hstr.Narrowing

open Lib.Runs Lib.Simulation Lib.Dedup Lib.Search Hstr.Strings Hstr.Utils Hstr.History Hstr.Regexp
open Hstr.Selection Hstr.Box Hstr.Loop Hstr.Query Hstr.Lookup Hstr.Listing
open Hstr.Session (sameQuery_make_selection)

variable {R : Type}

/-! ## Longer patterns -/

theorem Contains.of_prefix {caseSensitive : Bool} {piece piece' line : CString}
    (h : Contains caseSensitive piece' line) (hlonger : piece.bytes <+: piece'.bytes) :
    Contains caseSensitive piece line := by
  have hletters : letters caseSensitive piece <+: letters caseSensitive piece' := by
    unfold letters
    split
    · exact hlonger
    · exact hlonger.map tolower
  exact hletters.isInfix.trans h

/-- Every token goes on in a token of the longer pattern. -/
theorem ContainsTokens.of_prefix {caseSensitive : Bool} {pattern pattern' line : CString}
    (h : ContainsTokens caseSensitive pattern' line)
    (hlonger : pattern.bytes <+: pattern'.bytes) : ContainsTokens caseSensitive pattern line := by
  intro token htoken
  obtain ⟨w, hw, hbegins⟩ := IsWord.of_prefix htoken hlonger
  have hpiece : w <:+: pattern'.bytes := by
    obtain ⟨-, -, before, after, hbytes, -, -⟩ := hw
    exact ⟨before, after, hbytes.symm⟩
  have hnonul : 0 ∉ w := fun h0 => pattern'.nonul (hpiece.subset h0)
  exact Contains.of_prefix (h ⟨w, hnonul⟩ hw) hbegins

/-- **A line that matches the longer pattern matches the shorter one**, but for
regexps. -/
theorem Matches.of_prefix {lib : RegexLib R} {hstr : Hstr R} (hmode : hstr.matching ≠ .REGEXP)
    {pattern pattern' line : CString} (h : Matches lib hstr pattern' line)
    (hlonger : pattern.bytes <+: pattern'.bytes) : Matches lib hstr pattern line := by
  rcases h with hempty | h
  · have hlen := hlonger.length_le
    exact Or.inl (Nat.le_zero.mp (hempty ▸ hlen))
  · apply Or.inr
    cases hm : hstr.matching with
    | SUBSTRING =>
        rw [hm] at h
        exact Contains.of_prefix h hlonger
    | REGEXP => exact absurd hm hmode
    | KEYWORDS =>
        rw [hm] at h
        exact ContainsTokens.of_prefix h hlonger

/-! ## The list without its end -/

/-- The list as it would be if there was room for every line. -/
def uncut (lib : RegexLib R) (hstr : Hstr R) (pattern : CString) (history : HistoryItems) :
    List CString :=
  distinct (dropsDuplicates hstr pattern) (candidates lib hstr pattern history)

theorem selectionOf_eq_take (lib : RegexLib R) (hstr : Hstr R) (pattern : CString)
    (history : HistoryItems) (n : ℕ) :
    selectionOf lib hstr pattern history n = (uncut lib hstr pattern history).take n :=
  selection_make_selection lib hstr (some pattern) history n

/-- The same query finds the same lines. -/
theorem uncut_congr (lib : RegexLib R) {h h' : Hstr R} (hq : SameQuery h h')
    (hmode : h.matching ≠ .REGEXP) (pattern : CString) (history : HistoryItems) :
    uncut lib h' pattern history = uncut lib h pattern history := by
  have hfirst : matchesFirst lib h' pattern = matchesFirst lib h pattern := by
    funext line
    unfold matchesFirst
    rw [hq.matching, hq.caseSensitive]
    cases hm : h.matching with
    | SUBSTRING => rfl
    | REGEXP => exact absurd hm hmode
    | KEYWORDS => rfl
  have hsecond : matchesSecond h' pattern = matchesSecond h pattern := by
    funext line
    unfold matchesSecond
    rw [hq.matching, hq.caseSensitive]
  unfold uncut candidates dropsDuplicates
  rw [hfirst, hsecond, hq.source, hq.matching, hq.noRawHistoryDuplicates]

/-- Up to their order, the lines are those of the view that match. -/
theorem uncut_perm (lib : RegexLib R) {hstr : Hstr R} (hmode : hstr.matching ≠ .REGEXP)
    (pattern : CString) (history : HistoryItems) :
    (uncut lib hstr pattern history).Perm
      ((distinct hstr.noRawHistoryDuplicates (source hstr history)).filter
        (Matches lib hstr pattern ·)) := by
  have hcandidates := candidates_perm lib { hstr with cmdline := pattern } history
  have hperm := distinct_perm hcandidates hstr.noRawHistoryDuplicates
  rw [wanted, distinct_filter] at hperm
  rw [uncut, dropsDuplicates_of_ne_REGEXP hmode]
  exact hperm

/-- Keywords keep the order of the view. -/
theorem uncut_keywords (lib : RegexLib R) {hstr : Hstr R} (hmode : hstr.matching = .KEYWORDS)
    (pattern : CString) (history : HistoryItems) :
    uncut lib hstr pattern history
      = (distinct hstr.noRawHistoryDuplicates (source hstr history)).filter
        (Matches lib hstr pattern ·) := by
  have hsecond : ∀ line, matchesSecond hstr pattern line = false := by
    intro line
    rw [matchesSecond, hmode]
  have hfirst : ∀ line, matchesFirst lib hstr pattern line
      = decide (Matches lib hstr pattern line) := by
    intro line
    apply Bool.eq_iff_iff.mpr
    rw [decide_eq_true_eq, matches_iff, hsecond, Bool.or_false]
  have hnone : (source hstr history).filter (matchesSecond hstr pattern) = [] := by
    rw [List.filter_eq_nil_iff]
    intro line _
    rw [hsecond]
    exact Bool.false_ne_true
  rw [uncut, dropsDuplicates_of_ne_REGEXP (by rw [hmode]; decide), candidates, hnone,
    List.append_nil, funext hfirst, distinct_filter]

/-- A filter behind a coarser one is the finer one. -/
theorem filter_matches (lib : RegexLib R) {hstr : Hstr R} (hmode : hstr.matching ≠ .REGEXP)
    {pattern pattern' : CString} (hlonger : pattern.bytes <+: pattern'.bytes)
    (lines : List CString) :
    (lines.filter (Matches lib hstr pattern ·)).filter (Matches lib hstr pattern' ·)
      = lines.filter (Matches lib hstr pattern' ·) := by
  rw [List.filter_filter]
  apply List.filter_congr
  intro line _
  by_cases h : Matches lib hstr pattern' line
  · simp [h, Matches.of_prefix hmode h hlonger]
  · simp [h]

/-- **The list for a longer pattern** is the list for the shorter one, filtered. -/
theorem uncut_narrows (lib : RegexLib R) {hstr : Hstr R} (hmode : hstr.matching ≠ .REGEXP)
    {pattern pattern' : CString} (hlonger : pattern.bytes <+: pattern'.bytes)
    (history : HistoryItems) :
    (uncut lib hstr pattern' history).Perm
        ((uncut lib hstr pattern history).filter (Matches lib hstr pattern' ·))
      ∧ (hstr.matching = .KEYWORDS → uncut lib hstr pattern' history
        = (uncut lib hstr pattern history).filter (Matches lib hstr pattern' ·)) := by
  constructor
  · have hbefore := (uncut_perm lib hmode pattern history).filter (Matches lib hstr pattern' ·)
    rw [filter_matches lib hmode hlonger] at hbefore
    exact (uncut_perm lib hmode pattern' history).trans hbefore.symm
  · intro hkeywords
    rw [uncut_keywords lib hkeywords, uncut_keywords lib hkeywords, filter_matches lib hmode hlonger]

/-! ## Keys that leave the rest of the query alone -/

/-- The key may change the pattern, the cursor and the layout: it is none that
deletes, adds a favorite, switches the view, the matching or the case mode, or ends
the loop. -/
def EditsPattern (s : LoopState R) (e : Event) : Prop :=
  match keyCase (keyOf s e) with
  | .KEY_END | .KEY_RESIZE | .K_CTRL_U | .K_CTRL_L | .KEY_BACKSPACE | .KEY_NPAGE | .default => True
  | _ => False

instance (s : LoopState R) (e : Event) : Decidable (EditsPattern s e) := by
  unfold EditsPattern
  split <;> infer_instance

theorem SameQuery.trans {h h' h'' : Hstr R} (hq : SameQuery h h') (hq' : SameQuery h' h'') :
    SameQuery h h'' where
  view := hq'.view.trans hq.view
  matching := hq'.matching.trans hq.matching
  caseSensitive := hq'.caseSensitive.trans hq.caseSensitive
  noRawHistoryDuplicates := hq'.noRawHistoryDuplicates.trans hq.noRawHistoryDuplicates
  favorites := hq'.favorites.trans hq.favorites

/-- The loop goes on with the query and the history it had. -/
structure Continues (s s' : LoopState R) : Prop where
  running : s'.done = false
  query : SameQuery s.hstr s'.hstr
  history : s'.history = s.history

theorem Continues.trans {s s' s'' : LoopState R} (h : Continues s s') (h' : Continues s' s'') :
    Continues s s'' where
  running := h'.running
  query := SameQuery.trans h.query h'.query
  history := h'.history.trans h.history

theorem continues_ready {s : LoopState R} (hrun : s.done = false) (e : Event) :
    Continues s (ready s e) where
  running := by
    unfold ready wgetch
    split <;> exact hrun
  query := by
    rw [ready_hstr]
    exact SameQuery.recalculate _ _
  history := ready_history s e

theorem Continues.reprint {s t : LoopState R} (h : Continues s t) (env : Env R) :
    Continues s (reprint env t) where
  running := h.running
  query := SameQuery.trans h.query (SameQuery.trans
    (sameQuery_make_selection env.lib t.hstr (some t.pattern) t.history _)
    (SameQuery.recalculate _ _))
  history := h.history

theorem continues_typeCharacter (env : Env R) {s : LoopState R} (hrun : s.done = false) (c : ℤ) :
    Continues s (typeCharacter env s c) := by
  unfold typeCharacter
  split
  · apply Continues.reprint
    exact ⟨hrun, SameQuery.refl _, rfl⟩
  · exact ⟨hrun, SameQuery.refl _, rfl⟩

/-- A round with such a key goes on with the query it had. -/
theorem continues_step (env : Env R) {s : LoopState R} {e : Event} (hrun : s.done = false)
    (hedits : EditsPattern s e) : Continues s (step env s e) := by
  have hready := continues_ready hrun e
  rw [step_of_not_done hrun]
  apply hready.trans
  -- the cursor that is put into the prompt is no part of the relation
  have hreprint : ∀ t : LoopState R, Continues (ready s e) t → Continues (ready s e)
      { reprint env t with selectionCursorPosition := SELECTION_CURSOR_IN_PROMPT } := by
    intro t ht
    have h := ht.reprint env
    exact ⟨h.running, h.query, h.history⟩
  have hself : Continues (ready s e) (ready s e) := ⟨hready.running, SameQuery.refl _, rfl⟩
  unfold EditsPattern at hedits
  unfold handle
  cases hkey : keyCase (keyOf s e) with
  | KEY_END => exact hself
  | KEY_RESIZE =>
      apply hreprint
      exact ⟨hready.running, SameQuery.recalculate _ _, rfl⟩
  | K_CTRL_U => exact ⟨hready.running, SameQuery.refl _, rfl⟩
  | K_CTRL_L => exact ⟨hready.running, SameQuery.refl _, rfl⟩
  | KEY_BACKSPACE =>
      apply hreprint
      exact ⟨hready.running, sameQuery_make_selection _ _ _ _ _, rfl⟩
  | KEY_NPAGE => exact ⟨hready.running, SameQuery.refl _, rfl⟩
  | default => exact continues_typeCharacter env hready.running _
  | _ =>
      rw [hkey] at hedits
      exact hedits.elim

theorem continues_run (env : Env R) {s : LoopState R} (hrun : s.done = false) (more : List Event)
    (hedits : Guarded (step env) EditsPattern s more) : Continues s (run (step env) s more) :=
  (always_of_guarded (I := fun t => Continues s t)
    (fun _ _ h hkey => h.trans (continues_step env h.running hkey))
    ⟨hrun, SameQuery.refl _, rfl⟩ hedits).last

/-! ## The list of the loop -/

/-- **Typing narrows the list.** In a run in which Ctrl-u, Ctrl-w and Ctrl-l do not
change the pattern behind the list, let substrings or keywords be matched, and a
state have room for more lines than it lists. Whatever keys that leave the rest of
the query alone come then: for a pattern that goes on where that of the state ended,
the list is a beginning of the listed lines that match it, and in their order where
keywords are matched. -/
theorem longer_pattern_narrows (env : Env R) (hstr : Hstr R) (history : HistoryItems)
    (historyState : HistoryState) (favoritesFile : Option (List Byte)) (maxy : ℤ)
    (events more : List Event)
    (hkeys : Guarded (step env) KeepsQuery
      (start env hstr history historyState favoritesFile maxy) (events ++ more))
    {s s' : LoopState R}
    (hs : s = loop_to_select env hstr history historyState favoritesFile maxy events)
    (hs' : s' = loop_to_select env hstr history historyState favoritesFile maxy (events ++ more))
    (hrun : s.done = false) (hmode : s.hstr.matching ≠ .REGEXP)
    (hroom : s.hstr.selection.length < s.hstr.selectionCapacity)
    (hedits : Guarded (step env) EditsPattern s more)
    (hlonger : s.pattern.bytes <+: s'.pattern.bytes) :
    ∃ found : List CString, s'.hstr.selection = found.take s'.hstr.selectionCapacity
      ∧ found.Perm (s.hstr.selection.filter (Matches env.lib s.hstr s'.pattern ·))
      ∧ (s.hstr.matching = .KEYWORDS →
        found = s.hstr.selection.filter (Matches env.lib s.hstr s'.pattern ·)) := by
  have halways := always_of_guarded (I := Answering env)
    (fun t e h hkeep => answering_step env e h hkeep)
    (answering_start env hstr history historyState favoritesFile maxy) hkeys
  rw [always_iff_run] at halways
  have hanswering : Answering env s := by
    rw [hs]
    exact halways events (List.prefix_append _ _)
  have hanswering' : Answering env s' := by
    rw [hs']
    exact halways (events ++ more) List.prefix_rfl
  have hrest : s' = run (step env) s more := by
    rw [hs', hs, loop_to_select, loop_to_select, run_append]
  have hgoes := continues_run env hrun more hedits
  rw [← hrest] at hgoes
  have hanswers := hanswering hrun
  have hanswers' := hanswering' hgoes.running
  unfold Answers at hanswers hanswers'
  rw [selectionOf_eq_take] at hanswers hanswers'
  -- nothing was cut off before
  have hall : s.hstr.selection = uncut env.lib s.hstr s.pattern s.history := by
    rw [hanswers, List.take_eq_self_iff]
    rw [hanswers, List.length_take] at hroom
    omega
  rw [uncut_congr env.lib hgoes.query hmode, hgoes.history] at hanswers'
  have hnarrows := uncut_narrows env.lib hmode hlonger s.history
  rw [← hall] at hnarrows
  exact ⟨uncut env.lib s.hstr s'.pattern s.history, hanswers', hnarrows⟩

/-- The loop for three commands on a terminal with 24 rows, with the default
configuration. -/
def threeCommands (events : List Event) : LoopState (CString × Bool) :=
  loop_to_select plainEnv (hstr_init zeroed) ⟨[lit "ls -l", lit "ls", lit "pwd"], [], []⟩
    ⟨[], 0, List.nodup_nil⟩ none 24 events

/-- Typing `l`, and then `s`, `x` and a backspace. -/
theorem longer_pattern_narrows_ls :
    ∃ found : List CString,
      (threeCommands [press 108 0 24, press 115 0 24, press 120 0 24,
          press KEY_BACKSPACE 0 24]).hstr.selection
          = found.take (threeCommands [press 108 0 24, press 115 0 24, press 120 0 24,
            press KEY_BACKSPACE 0 24]).hstr.selectionCapacity
        ∧ found.Perm ((threeCommands [press 108 0 24]).hstr.selection.filter
          (Matches plainEnv.lib (threeCommands [press 108 0 24]).hstr
            (threeCommands [press 108 0 24, press 115 0 24, press 120 0 24,
              press KEY_BACKSPACE 0 24]).pattern ·))
        ∧ ((threeCommands [press 108 0 24]).hstr.matching = .KEYWORDS →
          found = (threeCommands [press 108 0 24]).hstr.selection.filter
            (Matches plainEnv.lib (threeCommands [press 108 0 24]).hstr
              (threeCommands [press 108 0 24, press 115 0 24, press 120 0 24,
                press KEY_BACKSPACE 0 24]).pattern ·)) :=
  longer_pattern_narrows plainEnv (hstr_init zeroed) _ _ none 24 [press 108 0 24]
    [press 115 0 24, press 120 0 24, press KEY_BACKSPACE 0 24]
    ⟨by decide, by decide, by decide, by decide, trivial⟩ rfl rfl (by decide) (by decide)
    (by decide) ⟨by decide, by decide, by decide, trivial⟩ (by decide)

end Hstr.Narrowing
