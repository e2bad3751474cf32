/-
`src/hstr_history.c`: the non-interactive deletion of the last command.

`history_mgmt_remove_last_history_entry` reads the shell's own history file,
removes the last two entries of the list, whatever they are, and writes the file.
What it should leave is the file without its last two commands and the timestamps
right in front of them.

readline reads a file that starts with `#` and a digit without its timestamps,
and any other file with the timestamps as entries of their own. So the function
is right for files without timestamps at their end, and for files with nothing
but the two commands behind a first timestamp.
-/
import Hstr.Removal

set_option autoImplicit false

namespace Hstr.LastEntry

open Hstr.Strings Hstr.Utils Hstr.Readline Hstr.History Hstr.Removal

/-! ## The function -/

/-- What `history_mgmt_remove_last_history_entry` returns, leaves and prints. -/
structure KillOutcome where
  result : Bool
  historyFile : Option HistoryFile
  stdout : Option CString
  stderr : Option CString

/-- `history_mgmt_remove_last_history_entry`, where the file is `none` if it cannot
be read. The list is empty before. -/
def history_mgmt_remove_last_history_entry (readline : HistoryLibrary) (verbose : Bool) (size : ℕ)
    (fileName : CString) (historyFile : Option HistoryFile) : KillOutcome :=
  match historyFile with
  | none =>
      { result := false
        historyFile := none
        stdout := none
        stderr := some (append (append (lit "\nUnable to read history file from '") fileName)
          (lit "'!\n")) }
  | some file =>
      let historyState := read_history readline size file
      let length := historyState.entries.length
      if length > 1 then
        let line := (historyState.entries[length - 2]?).bind HistEntry.line
        -- the length is not updated on removal
        let entries := (historyState.entries.eraseIdx (length - 1)).eraseIdx (length - 2)
        { result := true
          historyFile := some (write_history readline entries file)
          stdout := if verbose then
              some (append (append (lit "Deleting command '") (line.getD empty))
                (lit "' from history\n"))
            else none
          stderr := none }
      else
        { result := false
          historyFile := historyFile
          stdout := none
          stderr := if verbose then
              some (lit "Unable to delete the last command from history.\n")
            else none }

/-! ## What it should leave -/

/-- Does this end of a file start with one of the last two commands? -/
def startsWithLastTwo : List CString → Bool
  | [] => false
  | line :: rest => isCommandLine line && decide (rest.countP isCommandLine < 2)

/-- The lines without the last two commands, and without the timestamps right in
front of these. -/
def withoutLastTwo : List CString → List CString
  | [] => []
  | line :: rest =>
      if startsWithLastTwo (line :: rest) || (is_hist_timestamp line && startsWithLastTwo rest) then
        withoutLastTwo rest
      else line :: withoutLastTwo rest

/-- What is asked of the function: where it succeeds, the file it writes is the
right one, and where it does not, the file is left alone. -/
def IsExact (outcome : KillOutcome) (file : HistoryFile) : Prop :=
  (outcome.result = true →
    ∃ written, outcome.historyFile = some written ∧ written.lines = withoutLastTwo file.lines)
  ∧ (outcome.result = false → outcome.historyFile = some file)

/-- The file has fewer than two lines that readline reads as entries. -/
def HasFewEntries (lines : List CString) : Prop :=
  (lines.map cutReturn).countP (isEntryLine (isStamped lines)) < 2

/-- The file does not start like a timestamp, it ends with two commands that have
no timestamp in front of them, and readline reads all its lines, those in front of
the commands as they are. -/
structure EndsWithTwoCommands (lines before : List CString) (killed invocation : CString) : Prop where
  lines_eq : lines = before ++ [killed, invocation]
  killed_command : isCommandLine killed = true
  invocation_command : isCommandLine invocation = true
  not_stamped : isStamped lines = false
  not_empty : ∀ line ∈ lines.map cutReturn, strlen line ≠ 0
  not_return : ∀ line ∈ before, line.bytes.getLast? ≠ some CARRIAGE_RETURN
  not_stamp : ∀ line ∈ before.getLast?, is_hist_timestamp line = false

/-- The file has two commands, each with a timestamp, but for the second one it may
be missing. -/
structure HasTwoStamped (lines : List CString) (stamp killed invocation : CString) : Prop where
  lines_eq : lines = [stamp, killed, invocation]
    ∨ ∃ stamp', is_hist_timestamp stamp' = true ∧ lines = [stamp, killed, stamp', invocation]
  stamp_stamp : is_hist_timestamp stamp = true
  killed_entry : isEntryLine true (cutReturn killed) = true
  invocation_entry : isEntryLine true (cutReturn invocation) = true

/-- The files that the function is right for. -/
def KillsExactly (lines : List CString) : Prop :=
  HasFewEntries lines
    ∨ (∃ before killed invocation, EndsWithTwoCommands lines before killed invocation)
    ∨ ∃ stamp killed invocation, HasTwoStamped lines stamp killed invocation

/-- What is right takes two commands off the file, whatever their timestamps. -/
theorem countP_withoutLastTwo (lines : List CString) :
    (withoutLastTwo lines).countP isCommandLine = lines.countP isCommandLine - 2 := by
  induction lines with
  | nil => rfl
  | cons line rest ih =>
      rw [withoutLastTwo, List.countP_cons]
      by_cases hlast : startsWithLastTwo (line :: rest) = true
      · simp only [hlast, Bool.true_or, if_true]
        rw [startsWithLastTwo, Bool.and_eq_true, decide_eq_true_eq] at hlast
        rw [if_pos hlast.1]
        omega
      · rw [Bool.not_eq_true] at hlast
        rw [hlast, Bool.false_or]
        split
        · next hstamp =>
            rw [Bool.and_eq_true] at hstamp
            have hno : isCommandLine line = false := by simp [isCommandLine, hstamp.1]
            simp only [hno, Bool.false_eq_true, if_false]
            omega
        · rw [List.countP_cons]
          -- a command that stays has two behind it
          rw [startsWithLastTwo, Bool.and_eq_false_iff, decide_eq_false_iff_not] at hlast
          rcases hlast with hno | hbehind
          · simp only [hno, Bool.false_eq_true, if_false]
            omega
          · omega

/-- Where the last two lines are commands, they go, and a line in front of them if
it is a timestamp. -/
theorem withoutLastTwo_append {killed invocation : CString} (hkilled : isCommandLine killed = true)
    (hinvocation : isCommandLine invocation = true) (before : List CString) :
    withoutLastTwo (before ++ [killed, invocation])
      = if before.getLast?.any is_hist_timestamp then before.dropLast else before := by
  have hpair : startsWithLastTwo [killed, invocation] = true := by
    simp [startsWithLastTwo, hkilled, hinvocation]
  have hmore : ∀ line rest, startsWithLastTwo (line :: (rest ++ [killed, invocation])) = false := by
    intro line rest
    rw [startsWithLastTwo, Bool.and_eq_false_iff, decide_eq_false_iff_not]
    right
    simp [List.countP_append, hkilled, hinvocation]
  induction before with
  | nil =>
      rw [List.nil_append, withoutLastTwo, hpair, Bool.true_or, if_pos rfl]
      simp [withoutLastTwo, startsWithLastTwo, hinvocation]
  | cons line before ih =>
      rw [List.cons_append, withoutLastTwo, hmore, Bool.false_or, ih]
      rcases before with _ | ⟨next, before⟩
      · rw [List.nil_append, hpair, Bool.and_true]
        simp
      · rw [List.cons_append, hmore, Bool.and_false, if_neg Bool.false_ne_true,
          List.getLast?_cons_cons, List.dropLast_cons_cons]
        split <;> rfl

/-- The two commands that go are the last two lines, if this leaves all lines in
front of them. -/
theorem isCommandLine_of_eq_withoutLastTwo {before : List CString} {killed invocation : CString}
    (htwo : 2 ≤ (before ++ [killed, invocation]).countP isCommandLine)
    (h : before = withoutLastTwo (before ++ [killed, invocation])) :
    isCommandLine killed = true ∧ isCommandLine invocation = true := by
  have hcount : before.countP isCommandLine
      = (before ++ [killed, invocation]).countP isCommandLine - 2 := by
    rw [← countP_withoutLastTwo, ← h]
  rw [List.countP_append, List.countP_cons, List.countP_cons, List.countP_nil] at hcount htwo
  have hone : ∀ line, (if isCommandLine line = true then 1 else 0) ≤ 1 := by
    intro line
    split <;> omega
  constructor
  · by_contra hno
    rw [if_neg hno] at hcount htwo
    have := hone invocation
    omega
  · by_contra hno
    rw [if_neg hno] at hcount htwo
    have := hone killed
    omega

/-! ## What it leaves -/

/-- The last entry goes, and then the one that was before it. -/
theorem eraseIdx_last_two (entries : List HistEntry) (killed invocation : HistEntry) :
    ((entries ++ [killed, invocation]).eraseIdx (entries.length + 1)).eraseIdx entries.length
      = entries := by
  have hlast := eraseIdx_append_cons (entries ++ [killed]) invocation []
  rw [List.length_append, List.length_singleton, List.append_nil, List.append_assoc,
    List.singleton_append] at hlast
  rw [hlast, eraseIdx_append_cons, List.append_nil]

/-- Of two entries or more it writes all but the last two. -/
theorem remove_last_of_pair {readline : HistoryLibrary} {file : HistoryFile}
    {before : List CString} {killed invocation : CString}
    (hread : readline.read_history file.lines = before ++ [killed, invocation]) (verbose : Bool)
    (size : ℕ) (fileName : CString) :
    let outcome :=
      history_mgmt_remove_last_history_entry readline verbose size fileName (some file)
    outcome.result = true
      ∧ outcome.historyFile = some ⟨readline.write_history before, file.writes + 1⟩ := by
  have hentries : entriesOf (before ++ [killed, invocation])
      = entriesOf before
        ++ [⟨before.length, some killed⟩, ⟨before.length + 1, some invocation⟩] := by
    simp [entriesOf, List.zipIdx_append, List.zipIdx_cons]
  have hlength : (entriesOf before).length = before.length := by simp [entriesOf]
  have hkept := eraseIdx_last_two (entriesOf before) ⟨before.length, some killed⟩
    ⟨before.length + 1, some invocation⟩
  rw [hlength] at hkept
  simp only [history_mgmt_remove_last_history_entry, read_history, hread, hentries,
    List.length_append, hlength, List.length_cons, List.length_nil]
  rw [if_pos (by omega)]
  refine ⟨rfl, ?_⟩
  rw [show before.length + (0 + 1 + 1) - 1 = before.length + 1 by omega,
    show before.length + (0 + 1 + 1) - 2 = before.length by omega, hkept, write_history,
    filterMap_line_entriesOf]

/-- With fewer it leaves the file alone. -/
theorem remove_last_of_few {readline : HistoryLibrary} {file : HistoryFile}
    (hread : (readline.read_history file.lines).length < 2) (verbose : Bool) (size : ℕ)
    (fileName : CString) :
    let outcome :=
      history_mgmt_remove_last_history_entry readline verbose size fileName (some file)
    outcome.result = false ∧ outcome.historyFile = some file := by
  have hlength : (entriesOf (readline.read_history file.lines)).length
      = (readline.read_history file.lines).length := by
    simp [entriesOf]
  simp only [history_mgmt_remove_last_history_entry, read_history, hlength]
  rw [if_neg (by omega)]
  exact ⟨rfl, rfl⟩

/-- A list of two or more ends with two. -/
theorem exists_append_pair {lines : List CString} (hlen : 2 ≤ lines.length) :
    ∃ before killed invocation, lines = before ++ [killed, invocation] := by
  rcases List.eq_nil_or_concat' lines with rfl | ⟨front, invocation, rfl⟩
  · simp at hlen
  · rcases List.eq_nil_or_concat' front with rfl | ⟨before, killed, rfl⟩
    · simp at hlen
    · exact ⟨before, killed, invocation, by simp⟩

/-! ## What readline reads -/

theorem startsStamp_of_is_hist_timestamp {line : CString} (h : is_hist_timestamp line = true) :
    startsStamp line = true := by
  unfold is_hist_timestamp at h
  unfold startsStamp
  split at h
  · cases h
  · next c digits hbytes =>
      simp only [Bool.and_eq_true, beq_iff_eq, List.all_eq_true, decide_eq_true_eq] at h
      obtain ⟨⟨rfl, hdigits⟩, hlen⟩ := h
      rcases digits with _ | ⟨d, digits⟩
      · simp at hlen
      · rw [hbytes]
        simp only [beq_self_eq_true, Bool.true_and]
        exact hdigits d List.mem_cons_self

/-- A timestamp is read as it is. -/
theorem cutReturn_of_is_hist_timestamp {line : CString} (h : is_hist_timestamp line = true) :
    cutReturn line = line := by
  apply cutReturn_eq_self
  unfold is_hist_timestamp at h
  split at h
  · cases h
  · next c digits hbytes =>
      simp only [Bool.and_eq_true, beq_iff_eq, List.all_eq_true, decide_eq_true_eq] at h
      obtain ⟨⟨rfl, hdigits⟩, -⟩ := h
      rw [hbytes]
      intro hlast
      rcases List.mem_cons.mp (List.mem_of_getLast? hlast) with heq | hmem
      · exact absurd heq (by decide)
      · exact absurd (hdigits _ hmem) (by decide)

/-- What is read behind a first timestamp is a command. -/
theorem isCommandLine_of_isEntryLine {line : CString}
    (h : isEntryLine true (cutReturn line) = true) : isCommandLine line = true := by
  rw [isEntryLine, Bool.true_and, Bool.and_eq_true, decide_eq_true_eq, Bool.not_eq_true'] at h
  rw [isCommandLine, Bool.and_eq_true, decide_eq_true_eq, Bool.not_eq_true', Bool.eq_false_iff]
  constructor
  · intro h0
    rw [strlen_eq_zero_iff.mp h0] at h
    exact h.1 rfl
  · intro hts
    rw [cutReturn_of_is_hist_timestamp hts, startsStamp_of_is_hist_timestamp hts] at h
    exact Bool.noConfusion h.2

/-- Where no line ends in a carriage return, readline reads some of the lines. -/
theorem read_history_eq_filter {readline : HistoryLibrary} (hread : ReadsHistory readline)
    {lines : List CString} (hcr : ∀ line ∈ lines, line.bytes.getLast? ≠ some CARRIAGE_RETURN) :
    readline.read_history lines = lines.filter (isEntryLine (isStamped lines)) := by
  rw [hread, map_cutReturn hcr]

/-! ## When the two agree -/

/-- Without commands there is nothing to kill. -/
theorem withoutLastTwo_eq_self {lines : List CString} (h : lines.countP isCommandLine = 0) :
    withoutLastTwo lines = lines := by
  have hnone : ∀ rest : List CString, rest.countP isCommandLine = 0 →
      startsWithLastTwo rest = false := by
    intro rest hrest
    cases rest with
    | nil => rfl
    | cons line rest =>
        rw [startsWithLastTwo, Bool.and_eq_false_iff]
        left
        rw [Bool.eq_false_iff]
        exact List.countP_eq_zero.mp hrest line List.mem_cons_self
  induction lines with
  | nil => rfl
  | cons line rest ih =>
      have hrest : rest.countP isCommandLine = 0 := by
        rw [List.countP_cons] at h
        omega
      rw [withoutLastTwo, hnone _ h, hnone _ hrest, Bool.and_false, Bool.or_false,
        if_neg Bool.false_ne_true, ih hrest]

/-- The lines that would be left have all lines that are neither commands nor
timestamps. -/
theorem countP_empty_withoutLastTwo (lines : List CString) :
    (withoutLastTwo lines).countP (fun line => decide (strlen line = 0))
      = lines.countP fun line => decide (strlen line = 0) := by
  induction lines with
  | nil => rfl
  | cons line rest ih =>
      rw [withoutLastTwo]
      split
      · next hgoes =>
          -- what goes is not empty
          have hlen : strlen line ≠ 0 := by
            rw [Bool.or_eq_true, Bool.and_eq_true] at hgoes
            rcases hgoes with hcommand | ⟨hstamp, -⟩
            · rw [startsWithLastTwo, isCommandLine, Bool.and_eq_true, Bool.and_eq_true,
                decide_eq_true_eq] at hcommand
              exact hcommand.1.1
            · intro h0
              rw [strlen_eq_zero_iff.mp h0] at hstamp
              cases hstamp
          rw [ih, List.countP_cons_of_neg (by simpa using hlen)]
      · rw [List.countP_cons, List.countP_cons, ih]

/-- Where one command is left to kill and nothing is left behind, there is the
command, with or without a timestamp. -/
theorem eq_of_withoutLastTwo_eq_nil {lines : List CString}
    (hone : lines.countP isCommandLine = 1) (h : withoutLastTwo lines = []) :
    ∃ invocation, isCommandLine invocation = true ∧ (lines = [invocation]
      ∨ ∃ stamp, is_hist_timestamp stamp = true ∧ lines = [stamp, invocation]) := by
  -- a command in front is the only one
  have hcommand : ∀ line rest, (line :: rest).countP isCommandLine = 1 →
      startsWithLastTwo (line :: rest) = true → isCommandLine line = true
        ∧ rest.countP isCommandLine = 0 := by
    intro line rest hcount hstarts
    rw [startsWithLastTwo, Bool.and_eq_true] at hstarts
    rw [List.countP_cons, if_pos hstarts.1] at hcount
    exact ⟨hstarts.1, by omega⟩
  rcases lines with _ | ⟨line, rest⟩
  · cases hone
  · rw [withoutLastTwo] at h
    split at h
    · next hgoes =>
        rw [Bool.or_eq_true, Bool.and_eq_true] at hgoes
        rcases hgoes with hstarts | ⟨hstamp, hstarts⟩
        · obtain ⟨hline, hrest⟩ := hcommand line rest hone hstarts
          rw [withoutLastTwo_eq_self hrest] at h
          exact ⟨line, hline, Or.inl (by rw [h])⟩
        · have hno : isCommandLine line = false := by simp [isCommandLine, hstamp]
          rw [List.countP_cons, hno] at hone
          rcases rest with _ | ⟨invocation, rest⟩
          · cases hstarts
          · obtain ⟨hinvocation, hrest⟩ := hcommand invocation rest hone hstarts
            rw [withoutLastTwo, hstarts, Bool.true_or, if_pos rfl,
              withoutLastTwo_eq_self hrest] at h
            exact ⟨invocation, hinvocation, Or.inr ⟨line, hstamp, by rw [h]⟩⟩
    · cases h

theorem isExact_of_pair {readline : HistoryLibrary} (hwrite : Overwrites readline)
    {file : HistoryFile} {before : List CString} {killed invocation : CString}
    (hread : readline.read_history file.lines = before ++ [killed, invocation]) (verbose : Bool)
    (size : ℕ) (fileName : CString) :
    IsExact (history_mgmt_remove_last_history_entry readline verbose size fileName (some file)) file
      ↔ before = withoutLastTwo file.lines := by
  obtain ⟨hresult, hfile⟩ := remove_last_of_pair hread verbose size fileName
  simp only [IsExact, hresult, hfile, hwrite before]
  constructor
  · rintro ⟨hexact, -⟩
    obtain ⟨written, hwritten, hlines⟩ := hexact trivial
    obtain rfl := Option.some.inj hwritten
    exact hlines
  · intro hlines
    exact ⟨fun _ => ⟨_, rfl, hlines⟩, fun h => absurd h Bool.noConfusion⟩

/-- The condition is enough. -/
theorem isExact_of_killsExactly {readline : HistoryLibrary} (hread : ReadsHistory readline)
    (hwrite : Overwrites readline) {file : HistoryFile} (h : KillsExactly file.lines)
    (verbose : Bool) (size : ℕ) (fileName : CString) :
    IsExact (history_mgmt_remove_last_history_entry readline verbose size fileName (some file))
      file := by
  rcases h with hfew | ⟨before, killed, invocation, hends⟩ | ⟨stamp, killed, invocation, htwo⟩
  · have hlength : (readline.read_history file.lines).length < 2 := by
      rw [hread, ← List.countP_eq_length_filter]
      exact hfew
    obtain ⟨hresult, hfile⟩ := remove_last_of_few hlength verbose size fileName
    exact ⟨fun h => absurd (hresult.symm.trans h) Bool.false_ne_true, fun _ => hfile⟩
  · have hlines : readline.read_history file.lines
        = before ++ [cutReturn killed, cutReturn invocation] := by
      have hall : ∀ line ∈ file.lines.map cutReturn,
          isEntryLine (isStamped file.lines) line = true := by
        intro line hline
        simp [isEntryLine, hends.not_stamped, hends.not_empty line hline]
      rw [hread, List.filter_eq_self.mpr hall, hends.lines_eq, List.map_append,
        map_cutReturn hends.not_return]
      rfl
    rw [isExact_of_pair hwrite hlines, hends.lines_eq,
      withoutLastTwo_append hends.killed_command hends.invocation_command, if_neg]
    intro hany
    obtain ⟨line, hline, hstamp⟩ := (Option.any_eq_true _ _).mp hany
    rw [hends.not_stamp line hline] at hstamp
    cases hstamp
  · have hkilled := isCommandLine_of_isEntryLine htwo.killed_entry
    have hinvocation := isCommandLine_of_isEntryLine htwo.invocation_entry
    have hskip : ∀ line, is_hist_timestamp line = true →
        isEntryLine true (cutReturn line) = false := by
      intro line hstamp
      rw [cutReturn_of_is_hist_timestamp hstamp, isEntryLine, startsStamp_of_is_hist_timestamp hstamp]
      simp
    have hstamped : isStamped file.lines = true := by
      rcases htwo.lines_eq with heq | ⟨stamp', -, heq⟩
      · rw [heq]
        exact startsStamp_of_is_hist_timestamp htwo.stamp_stamp
      · rw [heq]
        exact startsStamp_of_is_hist_timestamp htwo.stamp_stamp
    have hno : ∀ line, is_hist_timestamp line = true → isCommandLine line = false := by
      intro line hstamp
      simp [isCommandLine, hstamp]
    have hlines : readline.read_history file.lines
        = [] ++ [cutReturn killed, cutReturn invocation] := by
      rw [hread, hstamped]
      rcases htwo.lines_eq with heq | ⟨stamp', hstamp', heq⟩
      · simp [heq, hskip stamp htwo.stamp_stamp, htwo.killed_entry, htwo.invocation_entry]
      · simp [heq, hskip stamp htwo.stamp_stamp, hskip stamp' hstamp', htwo.killed_entry,
          htwo.invocation_entry]
    rw [isExact_of_pair hwrite hlines]
    rcases htwo.lines_eq with heq | ⟨stamp', hstamp', heq⟩
    · simp [heq, withoutLastTwo, startsWithLastTwo, hkilled, hinvocation, htwo.stamp_stamp]
    · simp [heq, withoutLastTwo, startsWithLastTwo, hkilled, hinvocation, htwo.stamp_stamp,
        hstamp', hno stamp' hstamp']

/-- A file that starts like a timestamp: the first line is a timestamp, and the
other lines are the two commands and a timestamp between them. -/
theorem hasTwoStamped_of_eq {lines before : List CString} {killed invocation : CString}
    (hcr : ∀ line ∈ lines, line.bytes.getLast? ≠ some CARRIAGE_RETURN)
    (htwo : 2 ≤ lines.countP isCommandLine) (hstamped : isStamped lines = true)
    (hread : lines.filter (isEntryLine true) = before ++ [killed, invocation])
    (h : before = withoutLastTwo lines) :
    ∃ stamp killed invocation, HasTwoStamped lines stamp killed invocation := by
  have hcommand : ∀ line ∈ lines, isEntryLine true line = true → isCommandLine line = true := by
    intro line hline hentry
    apply isCommandLine_of_isEntryLine
    rwa [cutReturn_eq_self (hcr line hline)]
  rcases lines with _ | ⟨stamp, rest⟩
  · cases hstamped
  · have hskip : isEntryLine true stamp = false := by
      have hstarts : startsStamp stamp = true := hstamped
      simp [isEntryLine, hstarts]
    rw [List.filter_cons_of_neg (by simp [hskip])] at hread
    -- the entries are commands of the rest
    have hle : before.length + 2 ≤ rest.countP isCommandLine := by
      have hlength := congrArg List.length hread
      rw [List.length_append, List.length_cons, List.length_singleton,
        ← List.countP_eq_length_filter] at hlength
      rw [← hlength]
      exact List.countP_mono_left fun line hline =>
        hcommand line (List.mem_cons_of_mem stamp hline)
    rw [withoutLastTwo] at h
    split at h
    · next hgoes =>
        rw [Bool.or_eq_true, Bool.and_eq_true] at hgoes
        rcases hgoes with hstarts | ⟨hstamp, hstarts⟩
        · rw [startsWithLastTwo, Bool.and_eq_true, decide_eq_true_eq] at hstarts
          omega
        · rcases rest with _ | ⟨killed', rest⟩
          · cases hstarts
          · have hkilled := hstarts
            rw [startsWithLastTwo, Bool.and_eq_true, decide_eq_true_eq] at hkilled
            rw [List.countP_cons, if_pos hkilled.1] at hle
            obtain rfl := List.length_eq_zero_iff.mp (by omega : before.length = 0)
            rw [withoutLastTwo, hstarts, Bool.true_or, if_pos rfl] at h
            obtain ⟨invocation', -, hshape⟩ := eq_of_withoutLastTwo_eq_nil (by omega) h.symm
            have hentries : isEntryLine true killed' = true
                ∧ isEntryLine true invocation' = true := by
              have hcount : (killed' :: rest).countP (isEntryLine true) = 2 := by
                rw [List.countP_eq_length_filter, hread]
                rfl
              rcases hshape with rfl | ⟨stamp', hstamp', rfl⟩
              · cases hk : isEntryLine true killed' <;> cases hi : isEntryLine true invocation' <;>
                  simp [hk, hi] at hcount ⊢
              · have hno : isEntryLine true stamp' = false := by
                  simp [isEntryLine, startsStamp_of_is_hist_timestamp hstamp']
                cases hk : isEntryLine true killed' <;> cases hi : isEntryLine true invocation' <;>
                  simp [hk, hi, hno] at hcount ⊢
            have hmem : invocation' ∈ rest := by
              rcases hshape with rfl | ⟨stamp', -, rfl⟩ <;> simp
            refine ⟨stamp, killed', invocation', ?_, hstamp, ?_, ?_⟩
            · rcases hshape with rfl | ⟨stamp', hstamp', rfl⟩
              · exact Or.inl rfl
              · exact Or.inr ⟨stamp', hstamp', rfl⟩
            · rw [cutReturn_eq_self (hcr killed' (by simp))]
              exact hentries.1
            · rw [cutReturn_eq_self (hcr invocation' (by simp [hmem]))]
              exact hentries.2
    · -- the first line would be left, and it is no entry
      have hmem : stamp ∈ rest.filter (isEntryLine true) := by
        rw [hread, h]
        exact List.mem_append_left _ List.mem_cons_self
      rw [(List.mem_filter.mp hmem).2] at hskip
      cases hskip

/-- It is necessary where no line ends in a carriage return. -/
theorem killsExactly_of_isExact {readline : HistoryLibrary} (hread : ReadsHistory readline)
    (hwrite : Overwrites readline) {file : HistoryFile}
    (hcr : ∀ line ∈ file.lines, line.bytes.getLast? ≠ some CARRIAGE_RETURN)
    (htwo : 2 ≤ file.lines.countP isCommandLine) {verbose : Bool} {size : ℕ} {fileName : CString}
    (h : IsExact (history_mgmt_remove_last_history_entry readline verbose size fileName (some file))
      file) : KillsExactly file.lines := by
  have hlines := read_history_eq_filter hread hcr
  by_cases hfew : HasFewEntries file.lines
  · exact Or.inl hfew
  · rw [HasFewEntries, map_cutReturn hcr, Nat.not_lt, List.countP_eq_length_filter] at hfew
    obtain ⟨before, killed, invocation, hpair⟩ := exists_append_pair hfew
    rw [isExact_of_pair hwrite (hlines.trans hpair)] at h
    right
    cases hstamped : isStamped file.lines with
    | true =>
        rw [hstamped] at hpair
        exact Or.inr (hasTwoStamped_of_eq hcr htwo hstamped hpair h)
    | false =>
        left
        -- an empty line would be left, and readline does not read it
        have hempty : ∀ line ∈ file.lines, strlen line ≠ 0 := by
          have hcount := countP_empty_withoutLastTwo file.lines
          rw [← h] at hcount
          have hzero : before.countP (fun line => decide (strlen line = 0)) = 0 := by
            rw [List.countP_eq_zero]
            intro line hline
            have hmem : line ∈ file.lines.filter (isEntryLine (isStamped file.lines)) := by
              rw [hpair]
              exact List.mem_append_left _ hline
            have hentry := (List.mem_filter.mp hmem).2
            rw [isEntryLine, Bool.and_eq_true, decide_eq_true_eq] at hentry
            simpa using hentry.1
          rw [hzero] at hcount
          intro line hline
          simpa using List.countP_eq_zero.mp hcount.symm line hline
        have hall : ∀ line ∈ file.lines, isEntryLine (isStamped file.lines) line = true := by
          intro line hline
          simp [isEntryLine, hstamped, hempty line hline]
        rw [List.filter_eq_self.mpr hall] at hpair
        rw [hpair] at h htwo
        obtain ⟨hkilled, hinvocation⟩ := isCommandLine_of_eq_withoutLastTwo htwo h
        refine ⟨before, killed, invocation, hpair, hkilled, hinvocation, hstamped, ?_, ?_, ?_⟩
        · rw [map_cutReturn hcr]
          exact hempty
        · intro line hline
          exact hcr line (by rw [hpair]; exact List.mem_append_left _ hline)
        · intro line hline
          rw [withoutLastTwo_append hkilled hinvocation] at h
          rw [Option.mem_def] at hline
          rw [hline, Option.any_some] at h
          rw [Bool.eq_false_iff]
          intro hstamp
          rw [if_pos hstamp] at h
          -- a timestamp would have to go
          have hlength := congrArg List.length h
          rw [List.length_dropLast] at hlength
          have hpos : before.length ≠ 0 := by
            intro h0
            rw [List.length_eq_zero_iff.mp h0] at hline
            cases hline
          omega

/-- **When the kill of the last command is exact**: for the files of
`KillsExactly`, and no others without carriage returns at the ends of lines. -/
theorem kill_last_command_exact_iff (readline : HistoryLibrary) (hread : ReadsHistory readline)
    (hwrite : Overwrites readline) (verbose : Bool) (size : ℕ) (fileName : CString)
    (file : HistoryFile) (htwo : 2 ≤ file.lines.countP isCommandLine) :
    let outcome :=
      history_mgmt_remove_last_history_entry readline verbose size fileName (some file)
    (KillsExactly file.lines → IsExact outcome file)
      ∧ ((∀ line ∈ file.lines, line.bytes.getLast? ≠ some CARRIAGE_RETURN) →
        (IsExact outcome file ↔ KillsExactly file.lines)) :=
  ⟨fun h => isExact_of_killsExactly hread hwrite h verbose size fileName,
    fun hcr => ⟨killsExactly_of_isExact hread hwrite hcr htwo,
      fun h => isExact_of_killsExactly hread hwrite h verbose size fileName⟩⟩

/-- A file without timestamps. -/
theorem kill_last_command_exact_iff_plain :
    let file : HistoryFile := ⟨[lit "ls", lit "secret", lit "hstr -k"], 0⟩
    let outcome := history_mgmt_remove_last_history_entry gnuReadline false 502
      (lit ".bash_history") (some file)
    (KillsExactly file.lines → IsExact outcome file)
      ∧ ((∀ line ∈ file.lines, line.bytes.getLast? ≠ some CARRIAGE_RETURN) →
        (IsExact outcome file ↔ KillsExactly file.lines)) :=
  kill_last_command_exact_iff gnuReadline gnuReadline_readsHistory gnuReadline_overwrites false 502
    (lit ".bash_history") ⟨[lit "ls", lit "secret", lit "hstr -k"], 0⟩ (by decide)

/-- Timestamps behind the first line: the command stays in the file, and the
result is `true`. -/
theorem kill_last_command_keeps_command :
    let lines := [lit "make", lit "#1700000000", lit "secret", lit "#1700000001", lit "hstr -k"]
    let outcome := history_mgmt_remove_last_history_entry gnuReadline false 502
      (lit ".bash_history") (some ⟨lines, 0⟩)
    outcome.result = true
      ∧ outcome.historyFile = some ⟨[lit "make", lit "#1700000000", lit "secret"], 1⟩
      ∧ withoutLastTwo lines = [lit "make"] := by
  decide

end Hstr.LastEntry
