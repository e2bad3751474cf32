/-
`src/hstr.c`: the process, from the memory that is allocated for `Hstr` to its end.

`hstr_main` initialises and configures, evaluates one option, loads the favorites
and the blacklist, and runs the suggest box. It ends through `hstr_exit`, which
writes the blacklist file from the set in memory, and most options call
`hstr_exit` before the set is loaded. The check of TIOCSTI before all this is left
out; where it ends the process, it does so without `hstr_exit`.
-/
import Hstr.Loop

set_option autoImplicit false

namespace Hstr.Main

open Lib.Runs Lib.Lines Hstr.Strings Hstr.Hashset Hstr.Radixsort Hstr.History Hstr.Favorites
open Hstr.Blacklist Hstr.Regexp Hstr.Selection Hstr.Box Hstr.Loop

/-- What `getopt_long` returns for the first option, `default` for a character
that has no case of its own, as `'?'`. -/
inductive GetoptOption
  | f
  | n
  | k
  | b
  | i
  | V
  | t
  | h
  | B
  | Z
  | s
  | default
  deriving DecidableEq

/-- What a process gets: memory, the environment, the command line with `optind`
behind the option, the files, `prioritized_history_create` for the history of the
shell, and the keys that are pressed until SIGINT or SIGQUIT, if it comes. -/
structure Process (R : Type) where
  memory : Hstr R
  hstr_config : Option CString
  option : Option GetoptOption
  argv : List CString
  optind : ℕ
  favoritesFile : Option (List Byte)
  blacklistFile : Option (List Byte)
  historyState : HistoryState
  prioritized_history_create : BigKeys → HashSet CString → Except Fault (Option HistoryItems)
  env : Env R
  maxy : ℤ
  events : List Event
  signalled : Bool

/-- How a function of the process ends. It is `aborted` where the process ends
otherwise than by `hstr_exit`, and `waiting` where the next key is not there yet. -/
inductive Outcome (R : Type)
  | returns (hstr : Hstr R)
  | hstr_exit (hstr : Hstr R)
  | aborted
  | waiting

variable {R : Type}

/-! ## The functions -/

/-- The loop of `hstr_assemble_cmdline_pattern` over the arguments that are left. -/
def assembleLoop (cmdline : CString) : List CString → CString
  | [] => cmdline
  | arg :: args =>
      let spaceNeeded := if args.length > 0 then 1 else 0
      if strlen cmdline + strlen arg + spaceNeeded + 1 > CMDLINE_LNG then cmdline
      else
        let cmdline := append cmdline arg
        assembleLoop (if args.length > 0 then append cmdline (lit " ") else cmdline) args

def hstr_assemble_cmdline_pattern (hstr : Hstr R) (argv : List CString) (startIndex : ℕ) :
    Hstr R :=
  if argv.length > 0 then
    { hstr with cmdline := assembleLoop hstr.cmdline (argv.drop startIndex) }
  else hstr

/-- The end of `hstr_getopt`: what follows the option is the pattern. -/
def assemble (hstr : Hstr R) (argv : List CString) (optind : ℕ) : Hstr R :=
  if optind < argv.length then hstr_assemble_cmdline_pattern hstr argv optind else hstr

/-- `hstr_getopt`. What the options print is left out. -/
def hstr_getopt (hstr : Hstr R) (option : Option GetoptOption) (argv : List CString)
    (optind : ℕ) (blacklistFile : Option (List Byte)) : Outcome R :=
  match option with
  | none => .returns (assemble hstr argv optind)
  | some .f => .returns (assemble { hstr with view := .FAVORITES } argv optind)
  | some .n => .returns (assemble { hstr with interactive := false } argv optind)
  | some .k => .hstr_exit hstr
  | some .b => .hstr_exit { hstr with blacklist := blacklist_load hstr.blacklist blacklistFile }
  | some .i => .hstr_exit hstr
  | some .V => .hstr_exit hstr
  | some .t => .hstr_exit hstr
  | some .h => .hstr_exit hstr
  | some .B => .hstr_exit hstr
  | some .Z => .hstr_exit hstr
  | some .s => .hstr_exit hstr
  | some .default => .hstr_exit hstr

/-- `stdout_history_and_return`, and the lines it prints. -/
def stdout_history_and_return (lib : RegexLib R) (hstr : Hstr R) (history : HistoryItems) :
    Hstr R × List CString :=
  let hstr := hstr_make_selection lib hstr (some hstr.cmdline) history history.rawItems.length
  (hstr, hstr.selection)

/-- The call of `prioritized_history_create`. -/
def indexed (p : Process R) (hstr : Hstr R) : Except Fault (Option HistoryItems) :=
  p.prioritized_history_create hstr.bigKeys hstr.blacklist.set

/-- `hstr_interactive`. -/
def hstr_interactive (p : Process R) (hstr : Hstr R) : Outcome R :=
  match indexed p hstr with
  | .error _ => .aborted
  | .ok none => .hstr_exit hstr
  | .ok (some history) =>
      if hstr.interactive then
        let s :=
          loop_to_select p.env hstr history p.historyState p.favoritesFile p.maxy p.events
        if s.done ∨ p.signalled then .hstr_exit s.hstr else .waiting
      else .hstr_exit (stdout_history_and_return p.env.lib hstr history).1

/-- `hstr_init` and `hstr_get_env_configuration`. -/
def configured (p : Process R) : Hstr R :=
  hstr_get_env_configuration (hstr_init p.memory) p.hstr_config

/-- The call of `hstr_getopt`. -/
def getoptOf (p : Process R) : Outcome R :=
  hstr_getopt (configured p) p.option p.argv p.optind p.blacklistFile

/-- `favorites_get` and `blacklist_load`. -/
def loaded (p : Process R) (hstr : Hstr R) : Hstr R :=
  { hstr with
    favorites := favorites_get hstr.favorites p.favoritesFile
    blacklist := blacklist_load hstr.blacklist p.blacklistFile }

/-- `hstr_main`. -/
def hstr_main (p : Process R) : Outcome R :=
  match getoptOf p with
  | .returns hstr => hstr_interactive p (loaded p hstr)
  | outcome => outcome

/-- The blacklist file behind `hstr_exit`. -/
def hstr_exit (hstr : Hstr R) (blacklistFile : Option (List Byte)) : Option (List Byte) :=
  blacklist_destroy hstr.blacklist blacklistFile

/-! ## Configuration -/

/-- `HSTR_CONFIG` asks for case sensitive matching. -/
def asksCaseSensitive (hstr_config : Option CString) : Bool :=
  match hstr_config with
  | none => false
  | some config => configHas config (lit "case-sensitive")

/-- The empty `HSTR_CONFIG` holds no keyword, so it may be skipped. -/
theorem strlen_pos_of_configHas {config keyword : CString} (h : configHas config keyword = true)
    (hkeyword : strlen keyword ≠ 0) : strlen config > 0 := by
  by_contra hlen
  have hempty : config = empty := strlen_eq_zero_iff.mp (by omega)
  subst hempty
  unfold configHas strstr at h
  obtain ⟨c, cs, hcs⟩ : ∃ c cs, keyword.bytes = c :: cs :=
    List.exists_cons_of_ne_nil fun h0 => hkeyword (by rw [strlen, h0, List.length_nil])
  simp [empty, hcs] at h

theorem configured_caseSensitive (p : Process R) :
    (configured p).caseSensitive = asksCaseSensitive p.hstr_config
      ∧ (configured p).regexp.caseSensitive = p.memory.regexp.caseSensitive := by
  unfold configured hstr_get_env_configuration asksCaseSensitive
  cases p.hstr_config with
  | none => exact ⟨rfl, rfl⟩
  | some config =>
      simp only
      split
      · rw [recalculate_caseSensitive, recalculate_regexp]
        refine ⟨?_, rfl⟩
        simp only
        cases configHas config (lit "case-sensitive") <;> rfl
      · next hlen =>
          refine ⟨?_, rfl⟩
          cases hhas : configHas config (lit "case-sensitive") with
          | false => rfl
          | true => exact absurd (strlen_pos_of_configHas hhas (by decide)) hlen

theorem configured_blacklist (p : Process R) {config : CString} (hconfig : p.hstr_config = some config)
    (huse : configHas config (lit "blacklist") = true) :
    (configured p).blacklist = { blacklist_init with useFile := true } := by
  unfold configured hstr_get_env_configuration
  rw [hconfig]
  simp only
  rw [if_pos (strlen_pos_of_configHas huse (by decide)), recalculate_blacklist]
  simp only [huse, Bool.true_or]
  rfl

/-! ## The case mode -/

/-- The two copies of the case mode agree. -/
def CaseModesAgree (hstr : Hstr R) : Prop :=
  hstr.regexp.caseSensitive = true ↔ hstr.caseSensitive = HSTR_CASE_SENSITIVE

/-- The states of the process from the end of the configuration on, in the loop
after every key. -/
inductive Reaches (p : Process R) : Hstr R → Prop
  | configured : Reaches p (configured p)
  | hstr_getopt {hstr : Hstr R} :
      getoptOf p = .returns hstr ∨ getoptOf p = .hstr_exit hstr → Reaches p hstr
  | favorites_get {hstr : Hstr R} : getoptOf p = .returns hstr →
      Reaches p { hstr with favorites := favorites_get hstr.favorites p.favoritesFile }
  | blacklist_load {hstr : Hstr R} : getoptOf p = .returns hstr → Reaches p (loaded p hstr)
  | stdout_history_and_return {hstr : Hstr R} {history : HistoryItems} :
      getoptOf p = .returns hstr → indexed p (loaded p hstr) = .ok (some history) →
      hstr.interactive = false →
      Reaches p (Main.stdout_history_and_return p.env.lib (loaded p hstr) history).1
  | loop_to_select {hstr : Hstr R} {history : HistoryItems} {events : List Event} :
      getoptOf p = .returns hstr → indexed p (loaded p hstr) = .ok (some history) →
      hstr.interactive = true → events <+: p.events →
      Reaches p (Loop.loop_to_select p.env (loaded p hstr) history p.historyState p.favoritesFile
        p.maxy events).hstr

theorem stable_caseModesAgree (env : Env R) : Stable env (CaseModesAgree (R := R)) where
  layout := by
    intro n hstr h
    unfold CaseModesAgree
    rw [recalculate_caseSensitive, recalculate_regexp]
    exact h
  select := by
    intro hstr pattern history n h
    unfold CaseModesAgree
    rw [regexp_caseSensitive_make_selection]
    exact h
  matching := fun _ _ h => h
  view := fun _ _ h => h
  caseSensitive := fun _ _ _ => Iff.rfl
  favorites := fun _ _ h => h

theorem caseModesAgree_assemble {hstr : Hstr R} (h : CaseModesAgree hstr) (argv : List CString)
    (optind : ℕ) : CaseModesAgree (assemble hstr argv optind) := by
  unfold assemble hstr_assemble_cmdline_pattern
  split
  · split <;> exact h
  · exact h

/-- No option changes the case mode. -/
theorem caseModesAgree_getopt {p : Process R} (h : CaseModesAgree (configured p)) {hstr : Hstr R}
    (hends : getoptOf p = .returns hstr ∨ getoptOf p = .hstr_exit hstr) :
    CaseModesAgree hstr := by
  unfold getoptOf hstr_getopt at hends
  split at hends <;> rcases hends with hends | hends <;> cases hends
  -- no option, -f and -n; every other option ends the process
  · exact caseModesAgree_assemble h _ _
  · exact caseModesAgree_assemble (by exact h) _ _
  · exact caseModesAgree_assemble (by exact h) _ _
  all_goals exact h

/-- **The two copies of the case mode agree in every state of a process exactly
where the memory of the second one holds what `HSTR_CONFIG` asks for**: nothing
initialises it. -/
theorem case_modes_agree_iff (p : Process R) :
    (∀ hstr, Reaches p hstr → CaseModesAgree hstr)
      ↔ p.memory.regexp.caseSensitive = asksCaseSensitive p.hstr_config := by
  obtain ⟨hcase, hregexp⟩ := configured_caseSensitive p
  have hconfigured : CaseModesAgree (configured p)
      ↔ p.memory.regexp.caseSensitive = asksCaseSensitive p.hstr_config := by
    unfold CaseModesAgree HSTR_CASE_SENSITIVE
    rw [hcase, hregexp]
    exact Bool.eq_iff_iff.symm
  rw [← hconfigured]
  refine ⟨fun h => h _ .configured, fun h hstr hreach => ?_⟩
  have hstable := stable_caseModesAgree p.env
  -- loading the files changes neither copy
  have hgetopt : ∀ {hstr}, getoptOf p = .returns hstr → CaseModesAgree hstr :=
    fun hends => caseModesAgree_getopt h (Or.inl hends)
  have hloaded : ∀ {hstr}, getoptOf p = .returns hstr → CaseModesAgree (loaded p hstr) := by
    intro hstr hends
    have hagree := hgetopt hends
    exact hagree
  cases hreach with
  | configured => exact h
  | hstr_getopt hends => exact caseModesAgree_getopt h hends
  | favorites_get hends =>
      have hagree := hgetopt hends
      exact hagree
  | blacklist_load hends => exact hloaded hends
  | stdout_history_and_return hends => exact hstable.select _ _ _ _ (hloaded hends)
  | loop_to_select hends => exact hstable.loop_to_select (hloaded hends) _ _ _ _ _

/-! ## The blacklist file -/

/-- The options behind which the blacklist is loaded before the process ends. -/
def LoadsBlacklist (option : Option GetoptOption) : Prop :=
  option ∈ [none, some .f, some .n, some .b]

instance (option : Option GetoptOption) : Decidable (LoadsBlacklist option) := by
  unfold LoadsBlacklist
  infer_instance

/-- The two files have the same set of lines. -/
def SameLines (before after : Option (List Byte)) : Prop :=
  ∃ content content', before = some content ∧ after = some content'
    ∧ ∀ l, l ∈ lines NEWLINE content' ↔ l ∈ lines NEWLINE content

theorem stable_blacklist (env : Env R) (blacklist : Blacklist) :
    Stable env (fun hstr : Hstr R => hstr.blacklist = blacklist) where
  layout := fun n hstr h => (recalculate_blacklist n hstr).trans h
  select := fun _ _ _ _ h => h
  matching := fun _ _ h => h
  view := fun _ _ h => h
  caseSensitive := fun _ _ h => h
  favorites := fun _ _ h => h

theorem blacklist_interactive {p : Process R} {hstr hstr' : Hstr R}
    (h : hstr_interactive p hstr = .hstr_exit hstr') : hstr'.blacklist = hstr.blacklist := by
  unfold hstr_interactive at h
  split at h
  · cases h
  · cases h
    rfl
  · simp only at h
    split at h
    · split at h
      -- the loop is over, by a key or by a signal
      · cases h
        exact (stable_blacklist p.env hstr.blacklist).loop_to_select rfl _ _ _ _ _
      · cases h
    · cases h
      rfl

theorem blacklist_assemble (hstr : Hstr R) (argv : List CString) (optind : ℕ) :
    (assemble hstr argv optind).blacklist = hstr.blacklist := by
  unfold assemble hstr_assemble_cmdline_pattern
  split
  · split <;> rfl
  · rfl

/-- What an option does: it returns, it loads the blacklist and ends the process,
or it ends the process. -/
theorem getoptOf_cases (p : Process R) :
    (∃ hstr, getoptOf p = .returns hstr ∧ LoadsBlacklist p.option
        ∧ hstr.blacklist = (configured p).blacklist)
      ∨ (∃ hstr, getoptOf p = .hstr_exit hstr ∧ LoadsBlacklist p.option
        ∧ hstr.blacklist = blacklist_load (configured p).blacklist p.blacklistFile)
      ∨ (∃ hstr, getoptOf p = .hstr_exit hstr ∧ ¬ LoadsBlacklist p.option
        ∧ hstr.blacklist = (configured p).blacklist) := by
  unfold getoptOf hstr_getopt
  cases p.option with
  | none => exact Or.inl ⟨_, rfl, by decide, blacklist_assemble ..⟩
  | some option =>
      cases option with
      | f => exact Or.inl ⟨_, rfl, by decide, blacklist_assemble ..⟩
      | n => exact Or.inl ⟨_, rfl, by decide, blacklist_assemble ..⟩
      | b => exact Or.inr (Or.inl ⟨_, rfl, by decide, rfl⟩)
      | _ => exact Or.inr (Or.inr ⟨_, rfl, by decide, rfl⟩)

/-- **At the end of the process the set in memory is the loaded one, or it was
never loaded.** -/
theorem blacklist_main {p : Process R} {hstr : Hstr R} (hexit : hstr_main p = .hstr_exit hstr) :
    hstr.blacklist
      = if LoadsBlacklist p.option then
          blacklist_load (configured p).blacklist p.blacklistFile
        else (configured p).blacklist := by
  unfold hstr_main at hexit
  rcases getoptOf_cases p with ⟨h, hends, hloads, hblacklist⟩ | ⟨h, hends, hloads, hblacklist⟩
    | ⟨h, hends, hloads, hblacklist⟩
  · -- the option returns, the blacklist is loaded, and the box leaves it alone
    rw [hends] at hexit
    rw [blacklist_interactive hexit, loaded, hblacklist, if_pos hloads]
  · rw [hends] at hexit
    cases hexit
    rw [hblacklist, if_pos hloads]
  · rw [hends] at hexit
    cases hexit
    rw [hblacklist, if_neg hloads]

/-- Without a loaded set, the file is emptied, which keeps its lines if it has
none. -/
theorem sameLines_destroy_empty {blacklist : Blacklist} (huse : blacklist.useFile = true)
    (hset : blacklist.set = hashset_init) (content : List Byte) :
    SameLines (some content) (blacklist_destroy blacklist (some content)) ↔ content = [] := by
  have hempty : blacklist_destroy blacklist (some content) = some [] := by
    unfold blacklist_destroy
    rw [if_pos huse, hset]
    rfl
  rw [hempty]
  constructor
  -- the new file has no lines, so the old one had none
  · rintro ⟨content', after, hbefore, hafter, hlines⟩
    cases hbefore
    cases hafter
    rw [← lines_eq_nil_iff NEWLINE, List.eq_nil_iff_forall_not_mem]
    intro l hl
    rw [← hlines, (lines_eq_nil_iff NEWLINE).mpr rfl] at hl
    cases hl
  · rintro rfl
    exact ⟨[], [], rfl, rfl, fun l => Iff.rfl⟩

/-- **The process keeps the lines of the blacklist file exactly where it loads
them and they hold no NUL**, or the file is empty. -/
theorem blacklist_file_kept_iff (p : Process R) {config : CString}
    (hconfig : p.hstr_config = some config) (huse : configHas config (lit "blacklist") = true)
    {content : List Byte} (hfile : p.blacklistFile = some content)
    (hopen : openLine NEWLINE content = []) {hstr : Hstr R}
    (hexit : hstr_main p = .hstr_exit hstr) :
    SameLines p.blacklistFile (hstr_exit hstr p.blacklistFile)
      ↔ LoadsBlacklist p.option ∧ (0 : Byte) ∉ content ∨ content = [] := by
  have hconfigured := configured_blacklist p hconfig huse
  have hset : ∀ k, hashset_contains (configured p).blacklist.set k = false := by
    intro k
    rw [hconfigured]
    exact hashset_contains_init k
  rw [hstr_exit, blacklist_main hexit, hfile]
  -- where the set was loaded this is the round trip of the file
  by_cases hloads : LoadsBlacklist p.option
  · rw [if_pos hloads]
    obtain ⟨content', hsave, hlines⟩ :=
      lines_blacklist_destroy_load (by rw [hconfigured]) (by rw [hconfigured]; rfl) hset hopen
    rw [hsave]
    constructor
    · rintro ⟨before, after, hbefore, hafter, hsame⟩
      cases hbefore
      cases hafter
      exact Or.inl ⟨hloads, hlines.mp hsame⟩
    · rintro (⟨-, hnul⟩ | rfl)
      · exact ⟨content, content', rfl, rfl, hlines.mpr hnul⟩
      · exact ⟨[], content', rfl, rfl, hlines.mpr List.not_mem_nil⟩
  · rw [if_neg hloads, sameLines_destroy_empty (by rw [hconfigured]) (by rw [hconfigured]; rfl)]
    constructor
    · exact Or.inr
    · rintro (⟨hyes, -⟩ | hnil)
      · exact absurd hyes hloads
      · exact hnil

/-! ## Processes on concrete input -/

/-- A process with zeroed memory, no arguments behind the option, and a history
file that holds nothing. -/
def plainProcess (hstr_config : CString) (option : Option GetoptOption)
    (blacklistFile : List Byte) : Process (CString × Bool) where
  memory := zeroed
  hstr_config := some hstr_config
  option := option
  argv := [lit "hstr"]
  optind := 1
  favoritesFile := none
  blacklistFile := some blacklistFile
  historyState := ⟨[], 0, List.nodup_nil⟩
  prioritized_history_create := fun bigKeys blacklist =>
    prioritized_history_create plainEnv.shell (fun rank i length => rank + i + length) bigKeys
      blacklist (some ⟨[], 0, List.nodup_nil⟩)
  env := plainEnv
  maxy := 24
  events := []
  signalled := false

/-- `hstr` without options, where the file holds `ls`. -/
theorem blacklist_file_kept_iff_no_option :
    SameLines (some (lit "ls\n").bytes)
        (hstr_exit (loaded (plainProcess (lit "blacklist") none (lit "ls\n").bytes)
          (configured (plainProcess (lit "blacklist") none (lit "ls\n").bytes)))
          (some (lit "ls\n").bytes))
      ↔ LoadsBlacklist none ∧ (0 : Byte) ∉ (lit "ls\n").bytes ∨ (lit "ls\n").bytes = [] :=
  blacklist_file_kept_iff (plainProcess (lit "blacklist") none (lit "ls\n").bytes) rfl (by decide) rfl
    (by decide) rfl

/-- `hstr --version` loses the `ls` of the file. -/
theorem version_empties_blacklist_file :
    let p := plainProcess (lit "blacklist") (some .V) (lit "ls\n").bytes
    hstr_main p = .hstr_exit (configured p)
      ∧ ¬ SameLines p.blacklistFile (hstr_exit (configured p) p.blacklistFile) := by
  refine ⟨rfl, ?_⟩
  rintro ⟨content, content', hbefore, hafter, hsame⟩
  have hempty : content' = [] := (Option.some.inj hafter).symm
  have hcontent : content = (lit "ls\n").bytes := (Option.some.inj hbefore).symm
  have hls := (hsame (lit "ls").bytes).mpr (by rw [hcontent]; decide)
  rw [hempty] at hls
  revert hls
  decide

/-- With `HSTR_CONFIG=case-sensitive` and zeroed memory the two copies of the case
mode differ. -/
theorem case_modes_differ :
    ¬ ∀ hstr, Reaches (plainProcess (lit "case-sensitive") none []) hstr →
      CaseModesAgree hstr := by
  intro h
  have hagree := h _ .configured
  revert hagree
  unfold CaseModesAgree
  decide

end Hstr.Main
