/-
The files over many runs.

hstr is started again and again, by one user with one shell: on what the runs before
have left in the files, under a configuration that may change, and between the runs
the shell appends the commands that are typed. What holds of a session from loaded
files is here carried from each run to the next. Nothing comes into the files but
what the shell has appended and what the user has made a favorite of it, nothing in
the history file changes its place, and a deleted command stays deleted until it is
typed again.
-/
import Hstr.Session

set_option autoImplicit false

namespace Hstr.Lifetime

open Lib.Runs Lib.Lines Lib.Prune Lib.Simulation Hstr.Strings Hstr.Hashset Hstr.Radixsort
open Hstr.Utils Hstr.History Hstr.Favorites Hstr.Regexp Hstr.Selection Hstr.Box Hstr.Loop
open Hstr.Readline Hstr.Coherence Hstr.Removal Hstr.Stores Hstr.Session

variable {R : Type}

/-! ## Runs of hstr, and the shell -/

/-- The files that hstr changes. -/
structure Files where
  favorites : Option (List Byte)
  history : HistoryFile

/-- What a run of hstr gets beside the files: the terminal, the configuration with
the pattern of the command line, and the keys until one or a signal ends it. -/
structure Start (R : Type) where
  env : Env R
  history_ranking_function : RankingFunction
  optionBigKeys : BigKeys
  blacklist : HashSet CString
  size : ℕ
  hstr : Hstr R
  maxy : ℤ
  events : List Event

/-- The history that a run loads. -/
def Start.session (r : Start R) (files : Files) : Option Sharing.Session :=
  Sharing.load ⟨r.env.shell, r.history_ranking_function, r.optionBigKeys, r.blacklist⟩ r.size
    files.history

/-- The box with the favorites that a run loads, under the two keywords of the
configuration that are about them. -/
def Start.box (r : Start R) (files : Files) : Hstr R :=
  { r.hstr with
    favorites := favorites_get
      { favorites_init with
        reorderOnChoice := r.hstr.favorites.reorderOnChoice
        skipComments := r.hstr.favorites.skipComments }
      files.favorites }

/-- A run before its first key. -/
def Start.first (r : Start R) (files : Files) (session : Sharing.Session) : LoopState R × Storage :=
  (start r.env (r.box files) session.history session.historyState files.favorites r.maxy,
    stored (r.box files) session.history session.historyState files.favorites files.history)

/-- The files after a run. One that does not come to the suggest box, for there is no
history, leaves them as they are. -/
def runHstr (files : Files) (r : Start R) : Files :=
  match r.session files with
  | none => files
  | some session =>
      let p := run (through (step r.env) asks (storageStep r.env.shell)) (r.first files session)
        r.events
      ⟨p.1.favoritesFile, p.2.historyFile⟩

/-- hstr is run, or the shell appends the line of a command. -/
inductive Action (R : Type)
  | hstr (r : Start R)
  | append (line : CString)

def filesStep (sh : Shell) (files : Files) : Action R → Files
  | .hstr r => runHstr files r
  | .append line => { files with history := Sharing.append_history sh line files.history }

/-! ## What is in the files -/

/-- readline reads and writes as it is documented, and the shell adds a line to the
end of the file. -/
structure ShellOk (sh : Shell) : Prop where
  reads : ReadsHistory sh.readline
  overwrites : Overwrites sh.readline
  appends : ∀ lines line, sh.append_history lines line = lines ++ [line]

/-- A line of a history file that every copy decodes alike, with a command that is
one line, and without a carriage return at its end. -/
structure LineOk (isZsh : Bool) (line : CString) : Prop where
  closed : Closed isZsh line
  newlineFree : NEWLINE ∉ (decode isZsh [] line).bytes
  not_return : line.bytes.getLast? ≠ some CARRIAGE_RETURN

def FilesOk (isZsh : Bool) (files : Files) : Prop :=
  ∀ line ∈ files.history.lines, LineOk isZsh line

/-- The shell is the same throughout, apart from what is behind its copies. -/
structure SameShell (sh sh' : Shell) : Prop where
  isZsh : sh'.isZsh = sh.isZsh
  readline : sh'.readline = sh.readline

/-- The shell is the same, and what it appends is a line. -/
def ActionOk (sh : Shell) : Action R → Prop
  | .hstr r => SameShell sh r.env.shell
  | .append line => LineOk sh.isZsh line

/-- The lines that are appended. -/
def appended : List (Action R) → List CString
  | [] => []
  | .hstr _ :: actions => appended actions
  | .append line :: actions => line :: appended actions

/-! ## One run -/

section Run

variable {sh : Shell} {files : Files} {r : Start R} {session : Sharing.Session}

theorem SameShell.ok (h : SameShell sh r.env.shell) (hsh : ShellOk sh) :
    ReadsHistory r.env.shell.readline ∧ Overwrites r.env.shell.readline := by
  rw [h.readline]
  exact ⟨hsh.reads, hsh.overwrites⟩

/-- What readline reads are lines of the file. -/
theorem read_history_sublist_of_filesOk (hsh : ShellOk sh) (hfiles : FilesOk sh.isZsh files) :
    (sh.readline.read_history files.history.lines).Sublist files.history.lines :=
  read_history_sublist hsh.reads fun line hline => (hfiles line hline).not_return

/-- The lines of the list that a run loads. -/
theorem lines_session (hshell : SameShell sh r.env.shell) (hload : r.session files = some session) :
    session.historyState.entries.filterMap HistEntry.line
      = sh.readline.read_history files.history.lines := by
  have hlines := lines_of_load hload
  rwa [hshell.readline] at hlines

theorem closed_session (hsh : ShellOk sh) (hfiles : FilesOk sh.isZsh files)
    (hshell : SameShell sh r.env.shell) (hload : r.session files = some session) :
    ClosedEntries r.env.shell.isZsh session.historyState.entries := by
  rw [hshell.isZsh]
  intro e he line hline
  have hmem : line ∈ session.historyState.entries.filterMap HistEntry.line :=
    List.mem_filterMap.mpr ⟨e, he, hline⟩
  rw [lines_session hshell hload] at hmem
  exact (hfiles line ((read_history_sublist_of_filesOk hsh hfiles).subset hmem)).closed

/-- The raw view that a run loads reads the commands that readline has read. -/
theorem map_text_session (hsh : ShellOk sh) (hfiles : FilesOk sh.isZsh files)
    (hshell : SameShell sh r.env.shell) (hload : r.session files = some session) :
    session.history.rawItems.map RawItem.text
      = (commandsOf sh.isZsh (sh.readline.read_history files.history.lines)).reverse := by
  rw [map_text_eq_commandsOf (coherent_of_load (hshell.ok hsh).1 hload).raw
    (closed_session hsh hfiles hshell hload), lines_session hshell hload, hshell.isZsh]

/-- Its items are commands of the file. -/
theorem mem_commandsOf_of_mem_raw (hsh : ShellOk sh) (hfiles : FilesOk sh.isZsh files)
    (hshell : SameShell sh r.env.shell) (hload : r.session files = some session) {c : CString}
    (hc : c ∈ session.history.rawItems.map RawItem.text) :
    c ∈ commandsOf sh.isZsh files.history.lines := by
  rw [map_text_session hsh hfiles hshell hload, List.mem_reverse] at hc
  exact (commandsOf_sublist sh.isZsh (read_history_sublist_of_filesOk hsh hfiles)).subset hc

theorem loaded_of_session (hsh : ShellOk sh) (hfiles : FilesOk sh.isZsh files)
    (hshell : SameShell sh r.env.shell) (hload : r.session files = some session) :
    Loaded r.env (r.box files) r.hstr.favorites.reorderOnChoice r.hstr.favorites.skipComments
      files.favorites files.history session where
  favorites := rfl
  history := ⟨r.history_ranking_function, r.optionBigKeys, r.blacklist, r.size, hload⟩
  reads := (hshell.ok hsh).1
  overwrites := (hshell.ok hsh).2
  newlineFree := fun item hitem => by
    have hmem := mem_commandsOf_of_mem_raw hsh hfiles hshell hload (List.mem_map_of_mem hitem)
    obtain ⟨line, hline, heq⟩ := List.mem_map.mp hmem
    rw [← heq]
    exact (hfiles line (List.mem_of_mem_filter hline)).newlineFree

/-- Along a run from loaded files, with a further property of the stores. -/
theorem run_always {J : Storage → Prop} (hsh : ShellOk sh) (hfiles : FilesOk sh.isZsh files)
    (hshell : SameShell sh r.env.shell) (hload : r.session files = some session)
    (hJ : ∀ t k, Sound (r.first files session).2 t → J t → Allowed t k →
      J (storageStep r.env.shell t k))
    (hstart : J (r.first files session).2) :
    Always (through (step r.env) asks (storageStep r.env.shell))
      (fun p => Live p.1 ∧ Shows p.1 p.2 ∧ Sound (r.first files session).2 p.2 ∧ J p.2)
      (r.first files session) r.events :=
  session_always (loaded_of_session hsh hfiles hshell hload) r.maxy r.events hJ hstart

/-- The lines of the history file later in the run. -/
theorem lines_of_sound (hsh : ShellOk sh) (hfiles : FilesOk sh.isZsh files)
    (hshell : SameShell sh r.env.shell) (hload : r.session files = some session) {t : Storage}
    (h : Sound (r.first files session).2 t) : t.historyFile.lines.Sublist files.history.lines := by
  rcases h.historyOnDisk with ⟨hfile, -⟩ | ⟨-, hwritten⟩
  · rw [hfile]
    exact List.Sublist.refl _
  · -- the lines of the list are lines of the one that was loaded
    have hentries := h.entries.filterMap HistEntry.line
    rw [← hwritten] at hentries
    refine hentries.trans ?_
    show (session.historyState.entries.filterMap HistEntry.line).Sublist _
    rw [lines_session hshell hload]
    exact read_history_sublist_of_filesOk hsh hfiles

/-- The favorites are commands of the history file, and favorites that were there. -/
def Inherits (isZsh : Bool) (files : Files) (t : Storage) : Prop :=
  ∀ c ∈ t.favorites.favorites.items,
    c ∈ loadedLines false files.favorites ∨ c ∈ commandsOf isZsh files.history.lines

theorem Inherits.storageStep (hsh : ShellOk sh) (hfiles : FilesOk sh.isZsh files)
    (hshell : SameShell sh r.env.shell) (hload : r.session files = some session) {t : Storage}
    (h : Inherits sh.isZsh files t) (hsound : Sound (r.first files session).2 t) {k : Call}
    (hk : Allowed t k) : Inherits sh.isZsh files (storageStep r.env.shell t k) := by
  cases k with
  | favorites op =>
      intro c hc
      have hitems : c ∈ (favoritesStep t.favorites op).favorites.items := hc
      rw [(favoritesStep_spec t.favorites op).1] at hitems
      rcases List.mem_append.mp (mem_of_mem_itemsStep hitems) with hold | hadded
      · exact h c hold
      · right
        have hraw := hsound.mem_raw (mem_listed_of_mem_addedBy hk hadded)
        exact mem_commandsOf_of_mem_raw hsh hfiles hshell hload
          ((hsound.rawItems.map RawItem.text).subset hraw)
  | delete c beyond => exact h
  | cancel => exact h

theorem loadedLines_subset (skipComments : Bool) (file : Option (List Byte)) :
    loadedLines skipComments file ⊆ loadedLines false file := by
  intro c hc
  cases file with
  | none => exact hc
  | some content =>
      rw [loadedLines, List.mem_eraseDups] at hc ⊢
      exact List.mem_filter.mpr ⟨List.mem_of_mem_filter hc, rfl⟩

theorem inherits_first (isZsh : Bool) (r : Start R) (files : Files) (session : Sharing.Session) :
    Inherits isZsh files (r.first files session).2 := by
  intro c hc
  left
  obtain ⟨hitems, -⟩ := favorites_get_spec
    { favorites_init with
      reorderOnChoice := r.hstr.favorites.reorderOnChoice
      skipComments := r.hstr.favorites.skipComments } rfl rfl (fun _ => rfl) files.favorites
  have hbox : c ∈ (r.box files).favorites.items := hc
  rw [Start.box, hitems] at hbox
  exact loadedLines_subset _ _ hbox

/-- **One run**: the lines of the history file that are left keep their order, and
each favorite was one before or is a command of the history file. -/
theorem runHstr_spec (hsh : ShellOk sh) (hfiles : FilesOk sh.isZsh files)
    (hshell : SameShell sh r.env.shell) :
    (runHstr files r).history.lines.Sublist files.history.lines
      ∧ ∀ c ∈ loadedLines false (runHstr files r).favorites,
        c ∈ loadedLines false files.favorites ∨ c ∈ commandsOf sh.isZsh files.history.lines := by
  unfold runHstr
  cases hload : r.session files with
  | none => exact ⟨List.Sublist.refl _, fun c hc => Or.inl hc⟩
  | some session =>
      have hend := (run_always hsh hfiles hshell hload
        (fun _ _ hsound hJ hk => Inherits.storageStep hsh hfiles hshell hload hJ hsound hk)
        (inherits_first sh.isZsh r files session)).last
      obtain ⟨-, hshows, hsound, hinherits⟩ := hend
      refine ⟨lines_of_sound hsh hfiles hshell hload hsound, fun c hc => ?_⟩
      dsimp only at hc
      rw [hshows.favoritesFile] at hc
      rcases hsound.favoritesOnDisk with ⟨hfile, -⟩ | hsaved
      · -- the file of the favorites is as it was
        rw [hfile] at hc
        exact Or.inl hc
      · rw [hsaved] at hc
        exact hinherits c hc

/-! ### A command that the history does not have -/

/-- The raw view has no item for the command. -/
def NotListed (c : CString) (t : Storage) : Prop :=
  c ∉ t.history.history.rawItems.map RawItem.text

/-- No call brings a command back. -/
theorem NotListed.storageStep (sh : Shell) {t : Storage} {c : CString} (h : NotListed c t)
    (k : Call) : NotListed c (storageStep sh t k) := by
  cases k with
  | favorites op => exact h
  | delete d beyond =>
      intro hmem
      rw [(views_delete_eq sh t d beyond).1] at hmem
      exact h ((List.filter_sublist.map RawItem.text).subset hmem)
  | cancel => exact h

/-- A command that no line of the file has is in neither view, in every state. -/
theorem notListed_always (hsh : ShellOk sh) (hfiles : FilesOk sh.isZsh files)
    (hshell : SameShell sh r.env.shell) (hload : r.session files = some session) {c : CString}
    (hc : c ∉ commandsOf sh.isZsh files.history.lines) :
    Always (through (step r.env) asks (storageStep r.env.shell))
      (fun p => c ∉ listed p.1.history) (r.first files session) r.events := by
  have hstart : NotListed c (r.first files session).2 :=
    fun hmem => hc (mem_commandsOf_of_mem_raw hsh hfiles hshell hload hmem)
  refine (run_always hsh hfiles hshell hload (fun _ k _ hJ _ => hJ.storageStep _ k)
    hstart).mono fun p hp => ?_
  obtain ⟨-, hshows, hsound, hnot⟩ := hp
  have hhistory : p.1.history = p.2.history.history :=
    congrArg Sharing.Session.history hshows.history
  rw [hhistory]
  exact fun hmem => hnot (hsound.mem_raw hmem)

/-- In the run, the user deletes a command from the history. -/
def DeletesIn (files : Files) (r : Start R) (c : CString) : Prop :=
  ∃ session, r.session files = some session
    ∧ ∃ pre e post, r.events = pre ++ e :: post
      ∧ Deletes (run (step r.env) (r.first files session).1 pre) e c
      ∧ (run (step r.env) (r.first files session).1 pre).hstr.view ≠ .FAVORITES

/-- The views read the list, without the command, and the file has the lines of the
list. -/
structure Gone (sh : Shell) (c : CString) (t : Storage) : Prop where
  reads : Reads sh t
  notListed : NotListed c t
  written : Written t

theorem Gone.storageStep (hwrite : Overwrites sh.readline) {t₀ t : Storage} {c : CString}
    (h : Gone sh c t) (hsound : Sound t₀ t) (k : Call) : Gone sh c (storageStep sh t k) := by
  refine ⟨h.reads.storageStep hsound k, h.notListed.storageStep sh k, ?_⟩
  cases k with
  | favorites op => exact h.written
  | delete d beyond => exact (written_or_same hwrite t d beyond).written h.written
  | cancel => exact h.written

/-- Then no line of the file has it. -/
theorem Gone.not_mem_commandsOf {t : Storage} {c : CString} (h : Gone sh c t) :
    c ∉ commandsOf sh.isZsh t.historyFile.lines := by
  intro hmem
  apply h.notListed
  rw [map_text_eq_commandsOf h.reads.raw h.reads.closed, List.mem_reverse, ← h.written]
  exact hmem

/-- **A deleted command is not in the file at the end of the run.** -/
theorem not_mem_commandsOf_of_deletesIn (hsh : ShellOk sh) (hfiles : FilesOk sh.isZsh files)
    (hshell : SameShell sh r.env.shell) {c : CString} (h : DeletesIn files r c) :
    c ∉ commandsOf sh.isZsh (runHstr files r).history.lines := by
  obtain ⟨session, hload, pre, e, post, hevents, hdeletes, hview⟩ := h
  obtain ⟨-, hwrite⟩ := hshell.ok hsh
  have hall := session_reads (loaded_of_session hsh hfiles hshell hload)
    (closed_session hsh hfiles hshell hload) r.maxy r.events
  rw [hevents] at hall
  -- the state in which the key is pressed
  have hpre := always_iff_run.mp hall pre (List.prefix_append _ _)
  have hstate : (run (through (step r.env) asks (storageStep r.env.shell))
      (r.first files session) pre).1 = run (step r.env) (r.first files session).1 pre := by
    rw [run_through]
  generalize hp : run (through (step r.env) asks (storageStep r.env.shell))
    (r.first files session) pre = p at hstate
  have hfirst : run (through (step r.env) asks (storageStep r.env.shell))
      (start r.env (r.box files) session.history session.historyState files.favorites r.maxy,
        stored (r.box files) session.history session.historyState files.favorites files.history)
      pre = p := hp
  rw [hfirst] at hpre
  rw [← hstate] at hdeletes hview
  obtain ⟨hlive, hshows, hsound, hreads⟩ := hpre
  -- the deletion takes it out of the raw view, and writes the file
  have heffect := (deletionTakesEffect hlive hshows hsound hreads e c hdeletes).2.2.2
  rw [if_neg hview] at heffect
  obtain ⟨-, hraw, -, hfile, -⟩ := heffect
  have hafter := always_iff_run.mp hall (pre ++ [e]) ⟨post, by simp⟩
  rw [run_append, run_cons, run_nil, hfirst] at hafter
  obtain ⟨hlive', hshows', hsound', hreads'⟩ := hafter
  have hgone : Gone r.env.shell c (through (step r.env) asks (storageStep r.env.shell) p e).2 := by
    refine ⟨hreads', ?_, ?_⟩
    · have hhistory := congrArg Sharing.Session.history hshows'.history
      rw [NotListed, ← hhistory, hraw]
      intro hmem
      obtain ⟨item, hitem, heq⟩ := List.mem_map.mp hmem
      have hne := (List.mem_filter.mp hitem).2
      rw [decide_eq_true_eq] at hne
      exact hne heq.symm
    · have hentries := congrArg Sharing.Session.historyState hshows'.history
      rw [Written, hfile, ← hentries]
      exact hwrite _
  -- and no later key brings it back
  have hend := ((session_contract hwrite fun t k hsound hJ _ =>
      Gone.storageStep hwrite hJ hsound k).always hlive' hshows' ⟨hsound', hgone⟩
      (guarded_of_forall_mem fun e (_ : e ∈ post) _ => trivial)).last
  have hlast : runHstr files r
      = ⟨(run (through (step r.env) asks (storageStep r.env.shell))
          (through (step r.env) asks (storageStep r.env.shell) p e) post).1.favoritesFile,
        (run (through (step r.env) asks (storageStep r.env.shell))
          (through (step r.env) asks (storageStep r.env.shell) p e) post).2.historyFile⟩ := by
    rw [runHstr, hload]
    simp only
    rw [hevents, run_append, run_cons, hp]
  rw [hlast, ← hshell.isZsh]
  exact hend.2.2.2.not_mem_commandsOf

end Run

/-! ## A run on plain files -/

def plainFiles : Files := ⟨some plainFavorites, plainHistory⟩

/-- The command at the top of the ranking is deleted. -/
def plainRun : Start (CString × Bool) where
  env := plainEnv
  history_ranking_function := fun rank index length => rank + index + length
  optionBigKeys := .SKIP
  blacklist := Hashset.hashset_init
  size := 502
  hstr := hstr_init zeroed
  maxy := 24
  events := [press KEY_DOWN 0 24, press KEY_DC 121 24, press K_ESC 0 24]

theorem filesOk_plainFiles : FilesOk plainEnv.shell.isZsh plainFiles := by
  intro line hline
  have hmem : line = lit "git" ∨ line = lit "make" := by simpa [plainFiles, plainHistory] using hline
  rcases hmem with rfl | rfl
  · exact ⟨by decide, by decide, by decide⟩
  · exact ⟨by decide, by decide, by decide⟩

theorem shellOk_plain : ShellOk plainEnv.shell :=
  ⟨gnuReadline_readsHistory, gnuReadline_overwrites, fun _ _ => rfl⟩

/-! ## Many runs -/

section Runs

variable {sh : Shell}

theorem filesOk_step (hsh : ShellOk sh) {files : Files} (h : FilesOk sh.isZsh files)
    {action : Action R} (haction : ActionOk sh action) :
    FilesOk sh.isZsh (filesStep sh files action) := by
  cases action with
  | hstr r =>
      intro line hline
      exact h line ((runHstr_spec hsh h haction).1.subset hline)
  | append line =>
      intro line' hline
      have hline' : line' ∈ sh.append_history files.history.lines line := hline
      rw [hsh.appends] at hline'
      rcases List.mem_append.mp hline' with hold | hnew
      · exact h line' hold
      · rw [List.mem_singleton.mp hnew]
        exact haction

theorem filesOk_run (hsh : ShellOk sh) {files : Files} (h : FilesOk sh.isZsh files)
    {actions : List (Action R)} (hactions : ∀ action ∈ actions, ActionOk sh action) :
    FilesOk sh.isZsh (run (filesStep sh) files actions) :=
  (always_of_guarded (I := FilesOk sh.isZsh) (G := fun _ action => ActionOk sh action)
    (fun _ _ h haction => filesOk_step hsh h haction) h
    (guarded_of_forall_mem fun action hmem _ => hactions action hmem)).last

/-- The lines there were and the lines that are appended, before and after an
action. -/
theorem lines_step (hsh : ShellOk sh) {files : Files} (hfiles : FilesOk sh.isZsh files)
    {action : Action R} (haction : ActionOk sh action) (actions : List (Action R)) :
    ((filesStep sh files action).history.lines ++ appended actions).Sublist
      (files.history.lines ++ appended (action :: actions)) := by
  cases action with
  | hstr r => exact (runHstr_spec hsh hfiles haction).1.append_right _
  | append line =>
      have hmoved :
          (filesStep sh files (.append line : Action R)).history.lines ++ appended actions
            = files.history.lines ++ appended (.append line :: actions) := by
        show sh.append_history files.history.lines line ++ appended actions = _
        rw [hsh.appends]
        exact List.append_assoc _ _ _
      rw [hmoved]

theorem lines_run (hsh : ShellOk sh) {files : Files} (hfiles : FilesOk sh.isZsh files)
    {actions : List (Action R)} (hactions : ∀ action ∈ actions, ActionOk sh action) :
    (run (filesStep sh) files actions).history.lines.Sublist
      (files.history.lines ++ appended actions) := by
  induction actions generalizing files with
  | nil => exact List.sublist_append_left _ _
  | cons action actions ih =>
      have haction := hactions action List.mem_cons_self
      have hrest := ih (filesOk_step hsh hfiles haction)
        fun a ha => hactions a (List.mem_cons_of_mem action ha)
      exact hrest.trans (lines_step hsh hfiles haction actions)

theorem favorites_run (hsh : ShellOk sh) {files : Files} (hfiles : FilesOk sh.isZsh files)
    {actions : List (Action R)} (hactions : ∀ action ∈ actions, ActionOk sh action) :
    ∀ c ∈ loadedLines false (run (filesStep sh) files actions).favorites,
      c ∈ loadedLines false files.favorites
        ∨ c ∈ commandsOf sh.isZsh (files.history.lines ++ appended actions) := by
  induction actions generalizing files with
  | nil => exact fun c hc => Or.inl hc
  | cons action actions ih =>
      have haction := hactions action List.mem_cons_self
      have hrest := ih (filesOk_step hsh hfiles haction)
        fun a ha => hactions a (List.mem_cons_of_mem action ha)
      intro c hc
      rcases hrest c hc with hold | hnew
      · cases action with
        | hstr r =>
            refine ((runHstr_spec hsh hfiles haction).2 c hold).imp_right fun hmem => ?_
            rw [commandsOf_append]
            exact List.mem_append_left _ hmem
        | append line => exact Or.inl hold
      · exact Or.inr
          ((commandsOf_sublist sh.isZsh (lines_step hsh hfiles haction actions)).subset hnew)

/-- **The files over many runs.** After any runs of hstr, and any commands that the
shell appended between them, the lines of the history file are lines that were in it
or appended, each at most as often and all in their order; and every favorite was one
at first, or is a command of such a line. -/
theorem files_over_runs (hsh : ShellOk sh) {files : Files} (hfiles : FilesOk sh.isZsh files)
    (actions : List (Action R)) (hactions : ∀ action ∈ actions, ActionOk sh action) :
    let files' := run (filesStep sh) files actions
    files'.history.lines.Sublist (files.history.lines ++ appended actions)
      ∧ ∀ c ∈ loadedLines false files'.favorites, c ∈ loadedLines false files.favorites
        ∨ c ∈ commandsOf sh.isZsh (files.history.lines ++ appended actions) :=
  ⟨lines_run hsh hfiles hactions, favorites_run hsh hfiles hactions⟩

/-- A command is deleted, another one typed, and the first that is left deleted. -/
theorem files_over_runs_plain :
    let actions : List (Action (CString × Bool)) :=
      [.hstr plainRun, .append (lit "vim"), .hstr plainRun]
    let files' := run (filesStep plainEnv.shell) plainFiles actions
    files'.history.lines.Sublist (plainFiles.history.lines ++ appended actions)
      ∧ ∀ c ∈ loadedLines false files'.favorites, c ∈ loadedLines false plainFiles.favorites
        ∨ c ∈ commandsOf plainEnv.shell.isZsh (plainFiles.history.lines ++ appended actions) :=
  files_over_runs shellOk_plain filesOk_plainFiles _
    (List.forall_mem_cons.mpr ⟨⟨rfl, rfl⟩,
      List.forall_mem_cons.mpr ⟨⟨by decide, by decide, by decide⟩,
        List.forall_mem_cons.mpr ⟨⟨rfl, rfl⟩, List.forall_mem_nil _⟩⟩⟩)

/-- **A deleted command stays deleted.** Once the user has deleted a command in a run
of hstr, no line of the history file has it, and no state of a later run lists it,
whatever is run in between, until the shell appends it again. -/
theorem deleted_for_good (hsh : ShellOk sh) {files : Files} (hfiles : FilesOk sh.isZsh files)
    (before after : List (Action R)) (r : Start R)
    (hactions : ∀ action ∈ before ++ .hstr r :: after, ActionOk sh action) (c : CString)
    (hdeletes : DeletesIn (run (filesStep sh) files before) r c)
    (hafter : c ∉ commandsOf sh.isZsh (appended after)) :
    let files' := run (filesStep sh) files (before ++ .hstr r :: after)
    c ∉ commandsOf sh.isZsh files'.history.lines
      ∧ ∀ (r' : Start R) session, SameShell sh r'.env.shell →
        r'.session files' = some session →
        Always (step r'.env) (fun s => c ∉ listed s.history) (r'.first files' session).1
          r'.events := by
  intro files'
  have hbefore : ∀ action ∈ before, ActionOk sh action :=
    fun action hmem => hactions action (List.mem_append_left _ hmem)
  have hr : SameShell sh r.env.shell :=
    hactions (.hstr r) (List.mem_append_right _ List.mem_cons_self)
  have hlater : ∀ action ∈ after, ActionOk sh action := fun action hmem =>
    hactions action (List.mem_append_right _ (List.mem_cons_of_mem _ hmem))
  -- the files when the command is deleted, and after the run
  have hthen := filesOk_run hsh hfiles hbefore
  have hgone := not_mem_commandsOf_of_deletesIn hsh hthen hr hdeletes
  have hok : FilesOk sh.isZsh
      (filesStep sh (run (filesStep sh) files before) (.hstr r)) := filesOk_step hsh hthen hr
  have hsplit : files'
      = run (filesStep sh) (filesStep sh (run (filesStep sh) files before) (.hstr r)) after := by
    show run (filesStep sh) files (before ++ .hstr r :: after) = _
    rw [run_append, run_cons]
  have hstays : c ∉ commandsOf sh.isZsh files'.history.lines := by
    intro hmem
    rw [hsplit] at hmem
    have hsome := (commandsOf_sublist sh.isZsh (lines_run hsh hok hlater)).subset hmem
    rw [commandsOf_append, List.mem_append] at hsome
    exact hsome.elim hgone hafter
  refine ⟨hstays, fun r' session hshell hload => ?_⟩
  exact always_of_through (notListed_always hsh (filesOk_run hsh hfiles hactions) hshell hload hstays)

/-- `make` is deleted, and hstr run again. -/
theorem deleted_for_good_plain :
    let actions : List (Action (CString × Bool)) := [.hstr plainRun]
    let files' := run (filesStep plainEnv.shell) plainFiles ([] ++ .hstr plainRun :: actions)
    lit "make" ∉ commandsOf plainEnv.shell.isZsh files'.history.lines
      ∧ ∀ (r' : Start (CString × Bool)) session, SameShell plainEnv.shell r'.env.shell →
        r'.session files' = some session →
        Always (step r'.env) (fun s => lit "make" ∉ listed s.history)
          (r'.first files' session).1 r'.events :=
  deleted_for_good shellOk_plain filesOk_plainFiles [] [.hstr plainRun] plainRun
    (List.forall_mem_cons.mpr ⟨⟨rfl, rfl⟩,
      List.forall_mem_cons.mpr ⟨⟨rfl, rfl⟩, List.forall_mem_nil _⟩⟩)
    (lit "make")
    ⟨plainSession, rfl, [press KEY_DOWN 0 24], press KEY_DC 121 24, [press K_ESC 0 24], rfl,
      ⟨by decide, rfl, by decide, Or.inr rfl⟩, by decide⟩
    (by decide)

end Runs

end Hstr.Lifetime
