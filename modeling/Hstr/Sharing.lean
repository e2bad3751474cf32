/-
One history file, a running hstr and other shells.

hstr loads the history file once, and a deletion overwrites the file with what is
left of the list that was loaded. Other shells append to the file at any time,
as `PROMPT_COMMAND="history -a"` makes them do. Nothing in hstr locks the file,
reads it again or merges: a line that is appended after the load is not in the
list, and the next deletion that finds its command writes the file without it.

What hstr does keep is every line it has loaded, and every line appended since
it last wrote the file. That readline reads the lines of a file as they are and
overwrites a file with those of the list, and that the shells append a line, are
assumptions (`KeepsLines`).
-/
import Hstr.Lib.Runs
import Hstr.Removal

set_option autoImplicit false

namespace Hstr.Sharing

open Lib.Prune Lib.Runs Hstr.Strings Hstr.Hashset Hstr.Radixsort Hstr.Utils Hstr.Readline
open Hstr.History Hstr.Removal

/-! ## The two parties -/

/-- What the run of hstr is given: its shell and its configuration. -/
structure Env where
  shell : Shell
  history_ranking_function : RankingFunction
  optionBigKeys : BigKeys
  blacklist : HashSet CString

/-- What a running hstr has of the history. -/
structure Session where
  history : HistoryItems
  historyState : HistoryState
  dirty : Bool

/-- The history file, and the session that has loaded it. -/
structure Shared where
  historyFile : HistoryFile
  session : Option Session

/-- Another shell appends a line, or hstr loads the file into a list with `size`
allocated elements, or its user deletes an item of the ranking or the raw view,
where `beyond` is behind the copies of this deletion. -/
inductive Step
  | append (line : CString)
  | load (size : ℕ)
  | delete (almostDead : CString) (beyond : Beyond)

/-- `history -a` of another shell. -/
def append_history (sh : Shell) (line : CString) (historyFile : HistoryFile) : HistoryFile :=
  { historyFile with lines := sh.append_history historyFile.lines line }

/-- Every line of a file is read, every line of the list is written and nothing
else, and another shell adds its line to the end. -/
structure KeepsLines (sh : Shell) : Prop where
  reads : ReadsLines sh.readline
  overwrites : Overwrites sh.readline
  appends : ∀ lines line, sh.append_history lines line = lines ++ [line]

/-- The start of hstr, which goes on if there is a history. -/
def load (env : Env) (size : ℕ) (historyFile : HistoryFile) : Option Session :=
  let historyState := read_history env.shell.readline size historyFile
  match prioritized_history_create env.shell env.history_ranking_function env.optionBigKeys
      env.blacklist (some historyState) with
  | .ok (some history) => some ⟨history, historyState, false⟩
  | _ => none

/-- `remove_from_history_model` in the ranking and the raw view, with the file. -/
def removeFromHistoryFile (sh : Shell) (almostDead : CString) (session : Session)
    (historyFile : HistoryFile) : Session × HistoryFile × ℕ :=
  let (history, rawOccurences) := history_mgmt_remove_from_raw almostDead session.history
  let (history, _) := history_mgmt_remove_from_ranked almostDead history
  if rawOccurences ≠ 0 then
    let (system, systemOccurences) :=
      SystemHistory.remove sh (some almostDead) ⟨session.historyState, historyFile, session.dirty⟩
    (⟨history, system.historyState, system.dirty⟩, system.historyFile, systemOccurences)
  else ({ session with history }, historyFile, 0)

/-- One step of one of the parties. hstr loads once. -/
def step (env : Env) (s : Shared) : Step → Shared
  | .append line => { s with historyFile := append_history env.shell line s.historyFile }
  | .load size =>
      match s.session with
      | none => { s with session := load env size s.historyFile }
      | some _ => s
  | .delete almostDead beyond =>
      match s.session with
      | none => s
      | some session =>
          let (session, historyFile, _) :=
            removeFromHistoryFile { env.shell with beyond } almostDead session s.historyFile
          ⟨historyFile, some session⟩

/-- Before hstr is started. -/
def start (historyFile : HistoryFile) : Shared := ⟨historyFile, none⟩

/-! ## One deletion -/

/-- The views, the list and the result are those of the deletion without the
file. -/
theorem removeFromHistoryFile_eq (sh : Shell) (almostDead : CString) (session : Session)
    (historyFile : HistoryFile) :
    let result := removeFromHistoryFile sh almostDead session historyFile
    (result.1.history, result.1.historyState, result.2.2)
        = removeFromHistory sh almostDead session.history session.historyState
      ∧ result.1.dirty = (session.dirty || decide (result.2.2 ≠ 0)) := by
  simp only [removeFromHistoryFile, removeFromHistory, SystemHistory.remove]
  split
  · split
    · next hfound => exact ⟨rfl, by simp [hfound]⟩
    · next hfound => exact ⟨rfl, by rw [not_not] at hfound; simp [hfound]⟩
  · exact ⟨rfl, by simp⟩

/-- What a deletion does to the list and to the file: it prunes the list, and then
the file is left alone, or it is overwritten with the list. -/
theorem removeFromHistoryFile_cases (sh : Shell) (almostDead : CString) (session : Session)
    (historyFile : HistoryFile) :
    let result := removeFromHistoryFile sh almostDead session historyFile
    (result.1.historyState.entries = session.historyState.entries
        ∨ result.1.historyState.entries
          = (prune (equalsCommand sh almostDead) isTimestamp false
              session.historyState.entries.reverse).1.reverse)
      ∧ (result.2.1 = historyFile
        ∨ result.2.1
          = write_history sh.readline result.1.historyState.entries historyFile) := by
  have hprune := (history_mgmt_remove_from_system_history_eq sh almostDead session.historyState).1
  simp only [removeFromHistoryFile, SystemHistory.remove]
  split
  · split
    · exact ⟨Or.inr hprune, Or.inr rfl⟩
    · exact ⟨Or.inr hprune, Or.inl rfl⟩
  · exact ⟨Or.inl rfl, Or.inl rfl⟩

/-- A deletion that finds the timestamp `line` right in front of an occurrence of
its command, and takes it along. -/
def TakesTimestamp (sh : Shell) (line : CString) (s : Shared) : Step → Prop
  | .delete almostDead beyond => is_hist_timestamp line = true ∧
      ∃ session ∈ s.session, ∃ before stamp next after,
        session.historyState.entries = before ++ stamp :: next :: after
          ∧ stamp.line = some line
          ∧ equalsCommand { sh with beyond } almostDead next = true
  | _ => False

/-- A deletion keeps in the list every occurrence of a line that is neither an
occurrence of its command nor a timestamp that it takes along. -/
theorem count_line_prune {sh : Shell} {almostDead line : CString} (entries : List HistEntry)
    (hother : ∀ id, history_line_equals sh.isZsh (sh.beyond id) line almostDead = false)
    (hstays : is_hist_timestamp line = true → ∀ before stamp next after,
      entries = before ++ stamp :: next :: after → stamp.line = some line →
        equalsCommand sh almostDead next = false) :
    ((prune (equalsCommand sh almostDead) isTimestamp false entries.reverse).1.reverse.filterMap
        HistEntry.line).count line
      = (entries.filterMap HistEntry.line).count line := by
  rw [List.count_filterMap, List.count_filterMap, List.countP_reverse, countP_prune,
    List.countP_reverse]
  · intro e _ hline
    rw [beq_iff_eq] at hline
    simp [equalsCommand, hline, hother]
  · rw [List.reverse_reverse]
    intro q hq hline
    rw [beq_iff_eq] at hline
    obtain ⟨before, after, heq, hnext⟩ := mem_withNext_none.mp hq
    rw [Bool.and_eq_false_iff, or_iff_not_imp_left, Bool.not_eq_false]
    intro hstamp
    have hts : is_hist_timestamp line = true := by simpa [isTimestamp, hline] using hstamp
    rcases after with _ | ⟨next, after⟩
    · rw [hnext]
      rfl
    · rw [hnext, List.head?_cons, Option.any_some]
      exact hstays hts before q.1 next after heq hline

/-- So many occurrences stay in the list and in the file. -/
theorem count_line_removeFromHistoryFile {sh : Shell} (hwrite : Overwrites sh.readline)
    {almostDead line : CString} {session : Session} {historyFile : HistoryFile} {n : ℕ}
    (hfile : n ≤ historyFile.lines.count line)
    (hlist : n ≤ (session.historyState.entries.filterMap HistEntry.line).count line)
    (hother : ∀ id, history_line_equals sh.isZsh (sh.beyond id) line almostDead = false)
    (hstays : is_hist_timestamp line = true → ∀ before stamp next after,
      session.historyState.entries = before ++ stamp :: next :: after → stamp.line = some line →
        equalsCommand sh almostDead next = false) :
    let result := removeFromHistoryFile sh almostDead session historyFile
    n ≤ result.2.1.lines.count line
      ∧ n ≤ (result.1.historyState.entries.filterMap HistEntry.line).count line := by
  have hkept := count_line_prune session.historyState.entries hother hstays
  obtain ⟨hentries, hwritten⟩ := removeFromHistoryFile_cases sh almostDead session historyFile
  generalize removeFromHistoryFile sh almostDead session historyFile = result
    at hentries hwritten ⊢
  have hlist' : n ≤ (result.1.historyState.entries.filterMap HistEntry.line).count line := by
    rcases hentries with heq | heq
    · rw [heq]
      exact hlist
    · rw [heq, hkept]
      exact hlist
  refine ⟨?_, hlist'⟩
  rcases hwritten with heq | heq
  · rw [heq]
    exact hfile
  · -- the file is the list
    rw [heq, write_history, hwrite]
    exact hlist'

/-! ## Runs -/

/-- There are at least `n` lines `line`: in the file, and in the list of a session
that has loaded it. -/
def Keeps (line : CString) (n : ℕ) (s : Shared) : Prop :=
  n ≤ s.historyFile.lines.count line ∧
    ∀ session ∈ s.session,
      n ≤ (session.historyState.entries.filterMap HistEntry.line).count line

theorem step_delete {env : Env} {s : Shared} {session : Session} (hsession : s.session = some session)
    (almostDead : CString) (beyond : Beyond) :
    step env s (.delete almostDead beyond)
      = let result :=
          removeFromHistoryFile { env.shell with beyond } almostDead session s.historyFile
        ⟨result.2.1, some result.1⟩ := by
  simp only [step, hsession]

theorem step_delete_none {env : Env} {s : Shared} (hsession : s.session = none)
    (almostDead : CString) (beyond : Beyond) : step env s (.delete almostDead beyond) = s := by
  simp only [step, hsession]

theorem load_entries {env : Env} {size : ℕ} {historyFile : HistoryFile} {session : Session}
    (h : session ∈ load env size historyFile) :
    session.historyState.entries
      = entriesOf (env.shell.readline.read_history historyFile.lines) := by
  rw [Option.mem_def, load] at h
  split at h
  · obtain rfl := Option.some.inj h
    rfl
  · cases h

/-- **One step keeps the lines**, unless it deletes them. -/
theorem Keeps.step {env : Env} (hlines : KeepsLines env.shell) {line : CString} {n : ℕ} {s : Shared}
    (hs : Keeps line n s) {i : Step} (hother : ∀ almostDead beyond, i = .delete almostDead beyond →
      ∀ id, history_line_equals env.shell.isZsh (beyond id) line almostDead = false)
    (hstamp : ¬ TakesTimestamp env.shell line s i) : Keeps line n (step env s i) := by
  obtain ⟨hfile, hlist⟩ := hs
  cases i with
  | append more =>
      refine ⟨hfile.trans ?_, hlist⟩
      show _ ≤ (env.shell.append_history s.historyFile.lines more).count line
      rw [hlines.appends, List.count_append]
      omega
  | load size =>
      rw [Sharing.step]
      split
      · refine ⟨hfile, fun session hsession => ?_⟩
        -- the list is the file
        rw [load_entries hsession, filterMap_line_entriesOf, hlines.reads]
        exact hfile
      · exact ⟨hfile, hlist⟩
  | delete almostDead beyond =>
      cases hsession : s.session with
      | none =>
          rw [step_delete_none hsession]
          exact ⟨hfile, hlist⟩
      | some session =>
          have hoverwrites : Overwrites ({ env.shell with beyond } : Shell).readline :=
            hlines.overwrites
          obtain ⟨hfile', hlist'⟩ := count_line_removeFromHistoryFile hoverwrites hfile
            (hlist session hsession)
            (hother almostDead beyond rfl) (by
              intro hts before stamp next after heq hline
              rw [Bool.eq_false_iff]
              intro hnext
              exact hstamp ⟨hts, session, hsession, before, stamp, next, after, heq, hline, hnext⟩)
          rw [step_delete hsession]
          refine ⟨hfile', fun session' hsession' => ?_⟩
          obtain rfl := Option.some.inj hsession'
          exact hlist'

/-- A file later on: it was written meanwhile, or it was only appended to. -/
def Since (before after : HistoryFile) : Prop :=
  before.writes ≤ after.writes ∧ (after.writes = before.writes → before.lines <+: after.lines)

theorem Since.step {env : Env} (hlines : KeepsLines env.shell) {before : HistoryFile} {s : Shared}
    (hs : Since before s.historyFile) (i : Step) : Since before (step env s i).historyFile := by
  cases i with
  | append line =>
      refine ⟨hs.1, fun h => (hs.2 h).trans ?_⟩
      show _ <+: env.shell.append_history s.historyFile.lines line
      rw [hlines.appends]
      exact List.prefix_append _ _
  | load size =>
      rw [Sharing.step]
      split
      · exact hs
      · exact hs
  | delete almostDead beyond =>
      cases hsession : s.session with
      | none =>
          rw [step_delete_none hsession]
          exact hs
      | some session =>
          obtain ⟨-, hwritten⟩ :=
            removeFromHistoryFile_cases { env.shell with beyond } almostDead session s.historyFile
          rw [step_delete hsession]
          simp only
          rcases hwritten with heq | heq
          · rw [heq]
            exact hs
          · rw [heq]
            -- one write more than before
            have hwrites : before.writes < s.historyFile.writes + 1 := Nat.lt_succ_of_le hs.1
            exact ⟨hwrites.le, fun h => absurd h hwrites.ne'⟩

/-- **What the deletions of a session leave of the lines of other shells.** Every
line that was appended is still there, as often as it was, if it is no occurrence
of a command that was deleted since and no timestamp in front of one, and if the
session had not loaded the file yet or no deletion has written the file since. -/
theorem appended_line_kept (env : Env) (hlines : KeepsLines env.shell) (historyFile : HistoryFile)
    (before rest : List Step) (line : CString)
    (hother : ∀ almostDead beyond, Step.delete almostDead beyond ∈ rest →
      ∀ id, history_line_equals env.shell.isZsh (beyond id) line almostDead = false) :
    let appended := run (step env) (start historyFile) (before ++ [.append line])
    let final := run (step env) appended rest
    (appended.session = none ∨ final.historyFile.writes = appended.historyFile.writes) →
    Guarded (step env) (fun s i => ¬ TakesTimestamp env.shell line s i) appended rest →
    line ∈ final.historyFile.lines
      ∧ appended.historyFile.lines.count line ≤ final.historyFile.lines.count line := by
  intro appended final hunseen hstamps
  have hlast : appended = step env (run (step env) (start historyFile) before) (.append line) := by
    simp only [appended, run, List.foldl_append, List.foldl_cons, List.foldl_nil]
  have hmem : line ∈ appended.historyFile.lines := by
    rw [hlast]
    show line ∈ env.shell.append_history _ line
    rw [hlines.appends]
    exact List.mem_append_right _ List.mem_cons_self
  have hcount : appended.historyFile.lines.count line ≤ final.historyFile.lines.count line := by
    rcases hunseen with hnone | hwrites
    · -- the session finds the line when it loads the file
      have h0 : Keeps line (appended.historyFile.lines.count line) appended := by
        refine ⟨le_rfl, fun session hsession => ?_⟩
        rw [hnone] at hsession
        cases hsession
      have hothers : Guarded (step env) (fun _ i => ∀ almostDead beyond,
          i = .delete almostDead beyond →
          ∀ id, history_line_equals env.shell.isZsh (beyond id) line almostDead = false)
          appended rest :=
        guarded_of_forall_mem fun i hi _ almostDead beyond heq => hother almostDead beyond (heq ▸ hi)
      exact (always_of_guarded (fun s i hs hi => hs.step hlines hi.1 hi.2) h0
        (hothers.and hstamps)).last.1
    · -- the file has only grown
      have hsince : Always (step env) (fun s => Since appended.historyFile s.historyFile)
          appended rest :=
        always_of_step (fun s i hs => hs.step hlines i) ⟨le_rfl, fun _ => List.prefix_rfl⟩ rest
      exact (hsince.last.2 hwrites).sublist.count_le line
  exact ⟨List.count_pos_iff.mp ((List.count_pos_iff.mpr hmem).trans_le hcount), hcount⟩

/-- A Bash that ranks by everything, with a library for which every line is an
entry. -/
def bashEnv : Env where
  shell := { bash with readline := plainReadline }
  history_ranking_function := fun rank index length => rank + index + length
  optionBigKeys := .SKIP
  blacklist := hashset_init

/-- A command that was appended before the load stays when another one is
deleted. -/
theorem appended_line_kept_make :
    let appended := run (step bashEnv) (start ⟨[lit "ls"], 0⟩) ([] ++ [.append (lit "make")])
    let final := run (step bashEnv) appended [.load 502, .delete (lit "ls") fun _ => []]
    lit "make" ∈ final.historyFile.lines
      ∧ appended.historyFile.lines.count (lit "make")
        ≤ final.historyFile.lines.count (lit "make") := by
  refine appended_line_kept bashEnv
    ⟨plainReadline_readsLines, plainReadline_overwrites, fun _ _ => rfl⟩ ⟨[lit "ls"], 0⟩ []
    [.load 502, .delete (lit "ls") fun _ => []] (lit "make")
    ?_ (Or.inl rfl) (guarded_of_forall_mem ?_)
  · intro almostDead beyond hmem id
    simp only [List.mem_cons, List.not_mem_nil, or_false, reduceCtorEq, false_or,
      Step.delete.injEq] at hmem
    obtain ⟨rfl, rfl⟩ := hmem
    show history_line_equals false [] (lit "make") (lit "ls") = false
    decide
  · intro i _ s htakes
    -- a command is no timestamp
    have hts : is_hist_timestamp (lit "make") = false := by decide
    cases i with
    | append line => exact htakes
    | load size => exact htakes
    | delete almostDead beyond =>
        rw [htakes.1] at hts
        exact Bool.noConfusion hts

/-- What is appended between the load and a deletion is lost, and a deletion takes
a timestamp that another shell has appended along with the command. -/
theorem appended_line_lost :
    let ls := lit "ls"
    let make := lit "make"
    let stamp := lit "#1420549651"
    let raced := [Step.load 502, .append make, .delete ls fun _ => []]
    let stamped := [Step.append stamp, .append ls, .load 502, .delete ls fun _ => []]
    (history_line_equals false [] make ls = false
      ∧ (run (step bashEnv) (start ⟨[ls], 0⟩) raced).historyFile = ⟨[], 1⟩)
    ∧ (history_line_equals false [] stamp ls = false
      ∧ (run (step bashEnv) (start ⟨[make], 0⟩) stamped).historyFile = ⟨[make], 1⟩) := by
  refine ⟨⟨by decide, ?_⟩, by decide, ?_⟩
  · rfl
  · decide +kernel

end Hstr.Sharing
