/-
`src/hstr_history.c`: what a deletion leaves in the history list and the file.

`history_mgmt_remove_from_system_history` looks for a command from the end of
the list, closes each gap at once, and takes the Bash timestamp in front of a
removed command with it.

What readline reads of a file into the list, and what it writes of the list into
a file, is that of the `HistoryLibrary`.
-/
import Hstr.Coherence
import Hstr.Lib.Prune

set_option autoImplicit false

namespace Hstr.Removal

open Lib.Prune Lib.Results Hstr.Strings Hstr.Hashset Hstr.Radixsort Hstr.Utils Hstr.Readline
open Hstr.History Hstr.Metafied Hstr.Coherence

/-! ## Timestamps and commands -/

/-- A timestamp is no zsh entry with a prefix and not metafied. -/
theorem decode_of_is_hist_timestamp (isZsh : Bool) (beyond : List Byte) {line : CString}
    (h : is_hist_timestamp line = true) : decode isZsh beyond line = line := by
  unfold is_hist_timestamp at h
  split at h
  · exact absurd h Bool.false_ne_true
  · next c digits hbytes =>
      simp only [Bool.and_eq_true, beq_iff_eq, List.all_eq_true] at h
      obtain ⟨⟨rfl, hdigits⟩, -⟩ := h
      have hparse : parse_history_line isZsh line = line := by
        simp [parse_history_line, hbytes, COLON]
      have hplain : isMetafied isZsh line = false := by
        have hnone : strchr line ZSH_META = none := by
          rw [strchr, List.findIdx?_eq_none_iff, hbytes]
          intro b hb
          rcases List.mem_cons.mp hb with rfl | hb
          · decide
          · have hdigit := hdigits b hb
            rw [beq_eq_false_iff_ne]
            rintro rfl
            exact absurd hdigit (by decide)
        simp [isMetafied, hnone]
      simp [decode, hparse, hplain]

/-- A timestamp can only match what is shaped like one. -/
theorem is_hist_timestamp_of_equalsCommand {sh : Shell} {cmd : CString} {entry : HistEntry}
    (hts : isTimestamp entry = true) (heq : equalsCommand sh cmd entry = true) :
    is_hist_timestamp cmd = true := by
  obtain ⟨hsome, hcmd⟩ := equalsCommand_eq_true_iff.mp heq
  obtain ⟨line, hline⟩ := Option.isSome_iff_exists.mp hsome
  have hstamp : is_hist_timestamp line = true := by simpa [isTimestamp, hline] using hts
  have hdec : decode sh.isZsh (sh.beyond entry.id) line = cmd := by
    simpa [decodeEntry, hline] using hcmd
  rw [← hdec, decode_of_is_hist_timestamp _ _ hstamp]
  exact hstamp

/-- So where the command is not, no entry is a timestamp and a match. -/
theorem equalsCommand_of_isTimestamp {sh : Shell} {cmd : CString}
    (hcmd : is_hist_timestamp cmd = false) {entry : HistEntry} (hts : isTimestamp entry = true) :
    equalsCommand sh cmd entry = false := by
  rw [Bool.eq_false_iff]
  intro heq
  rw [is_hist_timestamp_of_equalsCommand hts heq] at hcmd
  exact absurd hcmd Bool.noConfusion

/-- A line of a history file that is a command. -/
def isCommandLine (line : CString) : Bool := decide (strlen line ≠ 0) && !is_hist_timestamp line

/-! ## The list, the file and the flag -/

/-- A history file: its lines, and how often this process has written it. -/
structure HistoryFile where
  lines : List CString
  writes : ℕ
  deriving DecidableEq

/-- `write_history`. -/
def write_history (readline : HistoryLibrary) (entries : List HistEntry)
    (historyFile : HistoryFile) : HistoryFile where
  lines := readline.write_history (entries.filterMap HistEntry.line)
  writes := historyFile.writes + 1

/-- The entries that lines give, added to an empty list. -/
def entriesOf (lines : List CString) : List HistEntry :=
  lines.zipIdx.map fun p => ⟨p.2, some p.1⟩

theorem map_id_entriesOf (lines : List CString) :
    (entriesOf lines).map HistEntry.id = List.range' 0 lines.length := by
  rw [entriesOf, List.map_map, ← List.zipIdx_map_snd 0 lines]
  rfl

/-- Writing the list back gives the lines again. -/
theorem filterMap_line_entriesOf (lines : List CString) :
    (entriesOf lines).filterMap HistEntry.line = lines := by
  rw [entriesOf, List.filterMap_map]
  change lines.zipIdx.filterMap (fun p => some p.1) = lines
  rw [List.filterMap_eq_map', List.zipIdx_map_fst]

/-- `read_history` into an empty list, for which readline allocates `size`
elements. -/
def read_history (readline : HistoryLibrary) (size : ℕ) (historyFile : HistoryFile) :
    HistoryState where
  entries := entriesOf (readline.read_history historyFile.lines)
  size := size
  distinct := by
    rw [map_id_entriesOf]
    exact List.nodup_range'

/-- What the deletion of a command works on: readline's list, the history file and
the flag `dirty`. -/
structure SystemHistory where
  historyState : HistoryState
  historyFile : HistoryFile
  dirty : Bool

/-- `history_mgmt_remove_from_system_history` with its effects; `cmd` may be
`NULL`. -/
def SystemHistory.remove (sh : Shell) (cmd : Option CString) (system : SystemHistory) :
    SystemHistory × ℕ :=
  match cmd with
  | none => (system, 0)
  | some cmd =>
      let (historyState, occurences) :=
        history_mgmt_remove_from_system_history sh cmd system.historyState
      if occurences ≠ 0 then
        ({ historyState
           historyFile := write_history sh.readline historyState.entries system.historyFile
           dirty := true }, occurences)
      else ({ system with historyState }, occurences)

/-- The entries that the deletion of a command should leave, decided on the list
as it was: those that do not match and are no timestamps right in front of a
match. -/
def remaining (sh : Shell) (cmd : CString) (entries : List HistEntry) : List HistEntry :=
  ((withNext none entries).filter fun p => !equalsCommand sh cmd p.1
    && !(isTimestamp p.1 && p.2.any (equalsCommand sh cmd))).map Prod.fst

/-- Nothing matches, nothing goes. -/
theorem remaining_of_countP_eq_zero {sh : Shell} {cmd : CString} {entries : List HistEntry}
    (h : entries.countP (equalsCommand sh cmd) = 0) : remaining sh cmd entries = entries := by
  rw [List.countP_eq_zero] at h
  unfold remaining
  induction entries with
  | nil => rfl
  | cons entry rest ih =>
      have hentry := h entry List.mem_cons_self
      have hnext : rest.head?.any (equalsCommand sh cmd) = false := by
        cases rest with
        | nil => rfl
        | cons next rest =>
            simpa using h next (List.mem_cons_of_mem entry List.mem_cons_self)
      rw [withNext, List.filter_cons_of_pos (by simp [hentry, hnext]), List.map_cons,
        ih fun e he => h e (List.mem_cons_of_mem entry he)]

/-- What a deletion leaves in the list, and what it counts. -/
theorem remove_from_system_history_list (sh : Shell) {cmd : CString}
    (hcmd : is_hist_timestamp cmd = false) (historyState : HistoryState) :
    (history_mgmt_remove_from_system_history sh cmd historyState).1.entries
        = remaining sh cmd historyState.entries
      ∧ (history_mgmt_remove_from_system_history sh cmd historyState).2
        = historyState.entries.countP (equalsCommand sh cmd) := by
  obtain ⟨hentries, hcount⟩ := history_mgmt_remove_from_system_history_eq sh cmd historyState
  have hdisjoint : ∀ e, isTimestamp e = true → equalsCommand sh cmd e = false :=
    fun e hts => equalsCommand_of_isTimestamp hcmd hts
  have hprune := prune_eq_survivors hdisjoint none historyState.entries.reverse
  rw [Option.any_none, List.reverse_reverse, List.countP_reverse] at hprune
  rw [hprune, List.reverse_reverse] at hentries
  rw [hprune] at hcount
  exact ⟨hentries, hcount⟩

/-- **A deletion removes exactly the right entries**: the matches and the
timestamps in front of them, all decided on the original list. The file is
written, and the flag set, exactly if there was a match; else nothing changes. -/
theorem remove_from_system_history_exact (sh : Shell) (cmd : CString)
    (hcmd : is_hist_timestamp cmd = false) (system : SystemHistory) :
    let result := system.remove sh (some cmd)
    result.1.historyState.entries = remaining sh cmd system.historyState.entries
      ∧ result.2 = system.historyState.entries.countP (equalsCommand sh cmd)
      ∧ (0 < result.2 →
        result.1.historyFile
            = write_history sh.readline result.1.historyState.entries system.historyFile
          ∧ result.1.dirty = true)
      ∧ (result.2 = 0 → result.1 = system) := by
  obtain ⟨hentries, hcount⟩ := remove_from_system_history_list sh hcmd system.historyState
  simp only [SystemHistory.remove]
  by_cases h0 : (history_mgmt_remove_from_system_history sh cmd system.historyState).2 = 0
  · rw [if_neg (not_not_intro h0)]
    refine ⟨hentries, hcount, fun hpos => absurd h0 (by omega), fun _ => ?_⟩
    -- no match: the list is the one it was
    rw [h0] at hcount
    rw [remaining_of_countP_eq_zero hcount.symm] at hentries
    obtain ⟨⟨entries, size, distinct⟩, historyFile, dirty⟩ := system
    simp only [history_mgmt_remove_from_system_history] at hentries ⊢
    simp only [hentries]
  · rw [if_pos h0]
    exact ⟨hentries, hcount, fun _ => ⟨rfl, rfl⟩, fun h => absurd h h0⟩

/-- A Bash history with timestamps. -/
def bashSystem : SystemHistory where
  historyState := {
    entries := [⟨0, some (lit "#1420549651")⟩, ⟨1, some (lit "ls")⟩,
      ⟨2, some (lit "#1420549652")⟩, ⟨3, some (lit "ls -l")⟩, ⟨4, some (lit "ls")⟩]
    size := 5
    distinct := by decide }
  historyFile := ⟨[lit "#1420549651", lit "ls", lit "#1420549652", lit "ls -l", lit "ls"], 0⟩
  dirty := false

/-- The deletion of a command with and without a timestamp. -/
theorem remove_from_system_history_exact_bash :
    let result := bashSystem.remove bash (some (lit "ls"))
    result.1.historyState.entries
        = remaining bash (lit "ls") bashSystem.historyState.entries
      ∧ result.2
        = bashSystem.historyState.entries.countP (equalsCommand bash (lit "ls"))
      ∧ (0 < result.2 →
        result.1.historyFile
            = write_history bash.readline result.1.historyState.entries bashSystem.historyFile
          ∧ result.1.dirty = true)
      ∧ (result.2 = 0 → result.1 = bashSystem) :=
  remove_from_system_history_exact bash (lit "ls") (by decide) bashSystem

example : (bashSystem.remove bash (some (lit "ls"))).1.historyFile
    = ⟨[lit "#1420549652", lit "ls -l"], 1⟩ := by decide

/-! ## The two counts of a deletion -/

/-- The test behind the warning of `remove_from_history_model`, with the deletion
from the raw view and the one from the history list. -/
def deletionMismatch (sh : Shell) (almostDead : CString) (history : HistoryItems)
    (historyState : HistoryState) : Bool :=
  let rawOccurences := (history_mgmt_remove_from_raw almostDead history).2
  let systemOccurences :=
    if rawOccurences ≠ 0 then
      (history_mgmt_remove_from_system_history sh almostDead historyState).2
    else 0
  decide (systemOccurences ≠ rawOccurences)

theorem history_mgmt_remove_from_raw_count (cmd : CString) (history : HistoryItems) :
    (history_mgmt_remove_from_raw cmd history).2
      = (history.rawItems.map RawItem.text).countP (fun c => decide (c = cmd)) := by
  have hsplit := List.length_eq_countP_add_countP (fun r : RawItem => decide (cmd ≠ r.text))
    (l := history.rawItems)
  have hcount : history.rawItems.countP (fun r => decide (¬ decide (cmd ≠ r.text) = true))
      = (history.rawItems.map RawItem.text).countP fun c => decide (c = cmd) := by
    rw [List.countP_map]
    refine List.countP_congr fun r _ => ?_
    rw [Function.comp_apply, decide_eq_true_eq, decide_eq_true_eq, decide_eq_true_eq, not_not]
    exact eq_comm
  rw [hcount] at hsplit
  simp only [history_mgmt_remove_from_raw, ← List.countP_eq_length_filter]
  omega

/-- In a history without empty lines the commands are what is no timestamp. -/
theorem isCommand_eq_not_isTimestamp {entry : HistEntry}
    (hne : ∃ l, entry.line = some l ∧ strlen l ≠ 0) : isCommand entry = !isTimestamp entry := by
  obtain ⟨l, hline, hlen⟩ := hne
  simp [isCommand, isTimestamp, hline, hlen]

/-- The raw view counts the matching entries that are no timestamps. -/
theorem remove_from_raw_count_of_created {sh : Shell} {f : RankingFunction}
    {optionBigKeys : BigKeys} {blacklist : HashSet CString} {historyState : HistoryState}
    (hne : ∀ e ∈ historyState.entries, ∃ l, e.line = some l ∧ strlen l ≠ 0) {history : HistoryItems}
    (hcreate : prioritized_history_create sh f optionBigKeys blacklist (some historyState)
      = .ok (some history)) (cmd : CString) :
    (history_mgmt_remove_from_raw cmd history).2
      = historyState.entries.countP fun e => equalsCommand sh cmd e && !isTimestamp e := by
  rw [history_mgmt_remove_from_raw_count,
    map_text_of_pointsTo (prioritized_history_create_spec hne hcreate).1, List.map_reverse,
    List.countP_reverse, List.countP_map, commandEntries, List.countP_filter]
  refine List.countP_congr fun e he => ?_
  obtain ⟨l, hline, hlen⟩ := hne e he
  rw [isCommand_eq_not_isTimestamp ⟨l, hline, hlen⟩, Bool.and_eq_true, Bool.and_eq_true,
    equalsCommand_eq_true_iff]
  simp [hline]

/-- Every line of the history that is the timestamp `cmd` stands right in front of
a command that reads as `cmd`. -/
def StampsMatched (sh : Shell) (cmd : CString) (entries : List HistEntry) : Prop :=
  ∀ before stamp after, entries = before ++ stamp :: after →
    stamp.line = some cmd → is_hist_timestamp cmd = true →
    ∃ next, after.head? = some next ∧ isCommand next = true ∧ decodeEntry sh next = cmd

/-- The same about the matches. -/
theorem stampsMatched_iff {sh : Shell} {cmd : CString} {entries : List HistEntry}
    (hne : ∀ e ∈ entries, ∃ l, e.line = some l ∧ strlen l ≠ 0) :
    (∀ p ∈ withNext none entries, isTimestamp p.1 = true → equalsCommand sh cmd p.1 = true →
        p.2.any (fun e => equalsCommand sh cmd e && !isTimestamp e) = true)
      ↔ StampsMatched sh cmd entries := by
  have hmem : ∀ {before stamp after next}, entries = before ++ stamp :: after →
      after.head? = some next → next ∈ entries := by
    intro before stamp after next heq hnext
    rw [heq]
    exact List.mem_append_right _ (List.mem_cons_of_mem _ (List.mem_of_mem_head? hnext))
  constructor
  · intro h before stamp after heq hline hts
    have hhit : equalsCommand sh cmd stamp = true := by
      rw [equalsCommand_eq_true_iff, decodeEntry, hline, Option.map_some, Option.getD_some]
      exact ⟨rfl, decode_of_is_hist_timestamp _ _ hts⟩
    have hstamp : isTimestamp stamp = true := by simpa [isTimestamp, hline] using hts
    have hp : (stamp, after.head?) ∈ withNext none entries :=
      mem_withNext_none.mpr ⟨before, after, heq, rfl⟩
    obtain ⟨next, hnext, hmatch⟩ := (Option.any_eq_true _ _).mp (h _ hp hstamp hhit)
    rw [Bool.and_eq_true, equalsCommand_eq_true_iff] at hmatch
    refine ⟨next, hnext, ?_, hmatch.1.2⟩
    rw [isCommand_eq_not_isTimestamp (hne next (hmem heq hnext))]
    exact hmatch.2
  · intro h p hp hstamp hhit
    obtain ⟨before, after, heq, hp2⟩ := mem_withNext_none.mp hp
    obtain ⟨hsome, hdec⟩ := equalsCommand_eq_true_iff.mp hhit
    obtain ⟨line, hline⟩ := Option.isSome_iff_exists.mp hsome
    have hts : is_hist_timestamp line = true := by simpa [isTimestamp, hline] using hstamp
    rw [decodeEntry, hline, Option.map_some, Option.getD_some,
      decode_of_is_hist_timestamp _ _ hts] at hdec
    subst hdec
    obtain ⟨next, hnext, hcommand, hreads⟩ := h before p.1 after heq hline hts
    rw [isCommand_eq_not_isTimestamp (hne next (hmem heq hnext))] at hcommand
    obtain ⟨l, hl, -⟩ := hne next (hmem heq hnext)
    rw [hp2, hnext, Option.any_some, Bool.and_eq_true, equalsCommand_eq_true_iff]
    exact ⟨⟨by rw [hl]; rfl, hreads⟩, hcommand⟩

/-- Where both copies of a line are alike, a command that is shaped like a
timestamp is counted on the list for every line that is this timestamp, too,
unless the line goes along with such a command. -/
theorem counts_agree_of_same_copies_iff {sh : Shell} {f : RankingFunction}
    {optionBigKeys : BigKeys} {blacklist : HashSet CString} {historyState : HistoryState}
    (hne : ∀ e ∈ historyState.entries, ∃ l, e.line = some l ∧ strlen l ≠ 0)
    {history : HistoryItems}
    (hcreate : prioritized_history_create sh f optionBigKeys blacklist (some historyState)
      = .ok (some history)) (cmd : CString) :
    (history_mgmt_remove_from_raw cmd history).2
        = (history_mgmt_remove_from_system_history sh cmd historyState).2
      ↔ StampsMatched sh cmd historyState.entries := by
  have hraw := remove_from_raw_count_of_created hne hcreate cmd
  have hsystem := (history_mgmt_remove_from_system_history_eq sh cmd historyState).2
  rw [eq_comm, hsystem, hraw, ← stampsMatched_iff hne, ← List.countP_reverse]
  have hiff := prune_count_eq_iff (equalsCommand sh cmd) isTimestamp none
    historyState.entries.reverse
  rw [List.reverse_reverse] at hiff
  exact hiff

/-- The line may read as the command in one copy and not in another: the decoder
gets past it, and what it has written by then is the beginning of the command. -/
def MayRead (isZsh : Bool) (cmd line : CString) : Prop :=
  isZsh = true ∧ ∃ front, overrun (parse_history_line isZsh line).bytes = some front
    ∧ front <+: cmd.bytes

/-- No line of the list does. -/
def NoneMayRead (isZsh : Bool) (cmd : CString) (entries : List HistEntry) : Prop :=
  ∀ e ∈ entries, ∀ line, e.line = some line → ¬ MayRead isZsh cmd line

/-- The copy of a line that the decoder gets past. -/
theorem decode_of_overrun {line : CString} {front : List Byte}
    (h : overrun (parse_history_line true line).bytes = some front) (beyond : List Byte) :
    decode true beyond line = zsh_unmetafy beyond (parse_history_line true line) := by
  have hmeta : isMetafied true (parse_history_line true line) = true := by
    by_contra hplain
    -- without a `ZSH_META` there is no pair
    have hnone : overrun (parse_history_line true line).bytes = none := by
      apply overrun_eq_none_of_plain
      intro hmem
      apply hplain
      rw [isMetafied, Bool.true_and, strchr, List.findIdx?_isSome, List.any_eq_true]
      exact ⟨ZSH_META, hmem, beq_self_eq_true _⟩
    rw [hnone] at h
    cases h
  rw [decode, if_pos hmeta]

/-- A line that may not read as the command reads the same in every copy, as far
as the command goes. -/
theorem equalsCommand_of_not_mayRead {sh : Shell} {cmd : CString} {entries : List HistEntry}
    (h : NoneMayRead sh.isZsh cmd entries) (beyond : Beyond) :
    ∀ e ∈ entries, equalsCommand { sh with beyond } cmd e = equalsCommand sh cmd e := by
  intro e he
  unfold equalsCommand
  cases hline : e.line with
  | none => rfl
  | some line =>
      have hno := h e he line hline
      simp only [Option.map_some, Option.getD_some, history_line_equals_eq]
      cases hshell : sh.isZsh with
      | false => rfl
      | true =>
          rw [hshell] at hno
          cases hover : overrun (parse_history_line true line).bytes with
          | none => rw [decode_of_closed (fun _ => hover) (beyond e.id) (sh.beyond e.id)]
          | some front =>
              -- neither copy begins like the command
              have hother : ∀ b, decode true b line ≠ cmd := by
                rintro b rfl
                rw [decode_of_overrun hover] at hno
                exact hno ⟨rfl, front, hover, prefix_of_overrun hover b⟩
              rw [decide_eq_false (hother _), decide_eq_false (hother _)]

/-- A count that one more element meets. -/
theorem countP_lt_of_mem {p q : HistEntry → Bool} {entries : List HistEntry}
    (hle : ∀ e ∈ entries, p e = true → q e = true) {e : HistEntry} (he : e ∈ entries)
    (hp : p e = false) (hq : q e = true) : entries.countP p < entries.countP q := by
  obtain ⟨before, after, rfl⟩ := List.append_of_mem he
  have hbefore : before.countP p ≤ before.countP q :=
    List.countP_mono_left fun x hx => hle x (List.mem_append_left _ hx)
  have hafter : after.countP p ≤ after.countP q :=
    List.countP_mono_left fun x hx =>
      hle x (List.mem_append_right _ (List.mem_cons_of_mem e hx))
  simp only [List.countP_append, List.countP_cons, hp, hq, if_true, Bool.false_eq_true, if_false]
  omega

/-- A command that a line may read as has a blank, and is no timestamp. -/
theorem not_is_hist_timestamp_of_mayRead {isZsh : Bool} {cmd line : CString}
    (h : MayRead isZsh cmd line) : is_hist_timestamp cmd = false := by
  obtain ⟨-, front, hover, hprefix⟩ := h
  have hblank : SPACE ∈ cmd.bytes :=
    hprefix.subset (overrun_open hover (parse_history_line isZsh line).nonul).2
  rw [is_hist_timestamp]
  split
  · rfl
  · next c digits hbytes =>
      rw [hbytes] at hblank
      simp only [Bool.and_eq_false_iff, beq_eq_false_iff_ne, List.all_eq_false]
      rcases List.mem_cons.mp hblank with rfl | hblank
      · exact Or.inl (Or.inl (by decide))
      · exact Or.inl (Or.inr ⟨SPACE, hblank, by decide⟩)

/-- Where a line may read as the command, what is behind the copies decides the
count of the list. -/
theorem exists_system_counts_ne {sh : Shell} {cmd : CString} {historyState : HistoryState}
    (h : ¬ NoneMayRead sh.isZsh cmd historyState.entries) :
    ∃ beyond beyond' : Beyond,
      (history_mgmt_remove_from_system_history { sh with beyond } cmd historyState).2
        ≠ (history_mgmt_remove_from_system_history { sh with beyond := beyond' } cmd
          historyState).2 := by
  simp only [NoneMayRead, not_forall, not_not] at h
  obtain ⟨e, he, line, hline, hmay⟩ := h
  have hstamp := not_is_hist_timestamp_of_mayRead hmay
  obtain ⟨hzsh, front, hover, t, ht⟩ := hmay
  rw [hzsh] at hover
  have ht0 : (0 : Byte) ∉ t := fun h0 => cmd.nonul (ht ▸ List.mem_append_right front h0)
  -- behind the copies is more than the command, or what the command goes on with
  let longer := append cmd (lit "x")
  let beyond : Beyond := fun _ => metafy longer.bytes ++ [0]
  let beyond' : Beyond := fun id => if id = e.id then metafy t ++ [0] else beyond id
  have hdecode : ∀ line front, overrun (parse_history_line true line).bytes = some front →
      decode true (metafy longer.bytes ++ [0]) line ≠ cmd := by
    intro line front hover heq
    have hbytes := zsh_unmetafy_of_overrun hover longer
    rw [← decode_of_overrun hover, heq] at hbytes
    have hlength := congrArg List.length hbytes
    simp only [longer, append, List.length_append] at hlength
    have hone : (lit "x").bytes.length = 1 := rfl
    omega
  have hmisses : ∀ x line front, x.line = some line →
      overrun (parse_history_line true line).bytes = some front →
      equalsCommand { sh with beyond } cmd x = false := by
    intro x line front hx hover
    rw [equalsCommand, hx, Option.map_some, Option.getD_some, history_line_equals_eq, hzsh]
    exact decide_eq_false (hdecode line front hover)
  refine ⟨beyond, beyond', ?_⟩
  rw [(remove_from_system_history_list { sh with beyond } hstamp historyState).2,
    (remove_from_system_history_list { sh with beyond := beyond' } hstamp historyState).2]
  refine (countP_lt_of_mem (fun x hx hhit => ?_) he (hmisses e line front hline hover) ?_).ne
  · -- what matches in front of the other memory has its own bytes only
    cases hxline : x.line with
    | none =>
        rw [equalsCommand, hxline] at hhit
        cases hhit
    | some xline =>
        cases hxover : overrun (parse_history_line true xline).bytes with
        | some xfront =>
            rw [hmisses x xline xfront hxline hxover] at hhit
            cases hhit
        | none =>
            rw [equalsCommand, hxline, Option.map_some, Option.getD_some, history_line_equals_eq,
              hzsh] at hhit ⊢
            rw [decode_of_closed (fun _ => hxover) (beyond' x.id) (beyond x.id)]
            exact hhit
  · rw [equalsCommand, hline, Option.map_some, Option.getD_some, history_line_equals_eq, hzsh,
      decide_eq_true_eq, decode_of_overrun hover]
    apply CString.ext
    simp only [beyond', if_true]
    rw [zsh_unmetafy_of_overrun hover ⟨t, ht0⟩, ht]

/-- **When the two deletions agree on their count**, whatever is behind the copies
that the deletion makes: where the list counts no timestamps, and no line may
read as the command in one copy only. -/
theorem deletion_counts_agree_iff (sh : Shell) (f : RankingFunction) (optionBigKeys : BigKeys)
    (blacklist : HashSet CString) (historyState : HistoryState)
    (hne : ∀ e ∈ historyState.entries, ∃ l, e.line = some l ∧ strlen l ≠ 0)
    (history : HistoryItems)
    (hcreate : prioritized_history_create sh f optionBigKeys blacklist (some historyState)
      = .ok (some history))
    (cmd : CString) (hcmd : cmd ∈ history.rawItems.map RawItem.text) :
    ((∀ beyond, (history_mgmt_remove_from_raw cmd history).2
        = (history_mgmt_remove_from_system_history { sh with beyond } cmd historyState).2)
      ↔ StampsMatched sh cmd historyState.entries
        ∧ NoneMayRead sh.isZsh cmd historyState.entries)
    ∧ ((∀ beyond, deletionMismatch { sh with beyond } cmd history historyState = false)
      ↔ StampsMatched sh cmd historyState.entries
        ∧ NoneMayRead sh.isZsh cmd historyState.entries) := by
  have hsame := counts_agree_of_same_copies_iff hne hcreate cmd
  have hagree : (∀ beyond, (history_mgmt_remove_from_raw cmd history).2
        = (history_mgmt_remove_from_system_history { sh with beyond } cmd historyState).2)
      ↔ StampsMatched sh cmd historyState.entries
        ∧ NoneMayRead sh.isZsh cmd historyState.entries := by
    constructor
    · intro hall
      refine ⟨hsame.mp (hall sh.beyond), ?_⟩
      by_contra hsome
      obtain ⟨beyond, beyond', hne⟩ := exists_system_counts_ne hsome
      exact hne ((hall beyond).symm.trans (hall beyond'))
    · rintro ⟨hstamps, hnone⟩ beyond
      rw [hsame.mpr hstamps, (history_mgmt_remove_from_system_history_eq sh cmd historyState).2,
        (history_mgmt_remove_from_system_history_eq { sh with beyond } cmd historyState).2]
      rw [prune_congr fun e he =>
        equalsCommand_of_not_mayRead hnone beyond e (List.mem_reverse.mp he)]
  have hpos : (history_mgmt_remove_from_raw cmd history).2 ≠ 0 := by
    rw [history_mgmt_remove_from_raw_count]
    intro h0
    exact List.countP_eq_zero.mp h0 cmd hcmd (decide_eq_true rfl)
  refine ⟨hagree, ?_⟩
  simp only [deletionMismatch, if_pos hpos, decide_eq_false_iff_not, not_not]
  rw [← hagree]
  exact forall_congr' fun beyond => eq_comm

/-- A zsh history file in which the command `#1234567890` follows a line of the
same text, which is not the first one. -/
def stampedFile : HistoryFile where
  lines := [lit "pwd", lit "#1234567890", lit "ls", lit ": 1420549651:0;#1234567890"]
  writes := 0

def stampedHistory : HistoryState := read_history gnuReadline 502 stampedFile

/-- Its views. -/
def stampedViews : HistoryItems where
  items := [lit "#1234567890", lit "ls", lit "pwd"]
  rawItems := [⟨.line 3, lit "#1234567890"⟩, ⟨.line 2, lit "ls"⟩, ⟨.line 0, lit "pwd"⟩]
  unmetafiedItems := []

theorem stampedViews_created :
    prioritized_history_create zsh (fun rank index length => rank + index + length)
        .SKIP hashset_init (some stampedHistory)
      = .ok (some stampedViews) := rfl

theorem stampedHistory_not_empty :
    ∀ e ∈ stampedHistory.entries, ∃ l, e.line = some l ∧ strlen l ≠ 0 := by
  intro e he
  have hentries : stampedHistory.entries
      = [⟨0, some (lit "pwd")⟩, ⟨1, some (lit "#1234567890")⟩, ⟨2, some (lit "ls")⟩,
        ⟨3, some (lit ": 1420549651:0;#1234567890")⟩] := rfl
  simp only [hentries, List.mem_cons, List.not_mem_nil, or_false] at he
  rcases he with rfl | rfl | rfl | rfl <;> exact ⟨_, rfl, by decide⟩

/-- The counts for another command of this history. -/
theorem deletion_counts_agree_iff_ls :
    ((∀ beyond, (history_mgmt_remove_from_raw (lit "ls") stampedViews).2
        = (history_mgmt_remove_from_system_history { zsh with beyond } (lit "ls")
          stampedHistory).2)
      ↔ StampsMatched zsh (lit "ls") stampedHistory.entries
        ∧ NoneMayRead true (lit "ls") stampedHistory.entries)
    ∧ ((∀ beyond, deletionMismatch { zsh with beyond } (lit "ls") stampedViews stampedHistory
        = false)
      ↔ StampsMatched zsh (lit "ls") stampedHistory.entries
        ∧ NoneMayRead true (lit "ls") stampedHistory.entries) :=
  deletion_counts_agree_iff zsh (fun rank index length => rank + index + length)
    .SKIP hashset_init stampedHistory stampedHistory_not_empty stampedViews stampedViews_created
    (lit "ls") (by decide)

/-- The command that is shaped like a timestamp: one item of the raw view, two
entries of the list. -/
theorem deletion_counts_differ :
    prioritized_history_create zsh (fun rank index length => rank + index + length)
        .SKIP hashset_init (some stampedHistory)
      = .ok (some stampedViews)
    ∧ lit "#1234567890" ∈ stampedViews.rawItems.map RawItem.text
    ∧ (history_mgmt_remove_from_raw (lit "#1234567890") stampedViews).2 = 1
    ∧ (history_mgmt_remove_from_system_history zsh (lit "#1234567890") stampedHistory).2 = 2
    ∧ deletionMismatch zsh (lit "#1234567890") stampedViews stampedHistory = true :=
  ⟨rfl, by decide, by decide, by decide, by decide⟩

end Hstr.Removal
