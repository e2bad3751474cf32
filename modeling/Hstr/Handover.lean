/-
What the shell gets: `fill_terminal_input` of `src/hstr_utils.c`, the end of
`loop_to_select`, and `history_mgmt_flush`.

hstr hands a command over by writing it: into the input of the terminal where the
kernel lets it, otherwise to the standard error, where the shell function that calls
hstr reads it. `Order` says what the user wants done with the command. The first
result is that hstr writes an order that the last key gave, and the command to read
the history again where it has to be, and nothing else.
-/
import Hstr.Session
import Hstr.LineEditor

set_option autoImplicit false

namespace Hstr.Handover

open Lib.Runs Lib.Lines Lib.Simulation Hstr.Strings Hstr.Utils Hstr.History Hstr.Regexp Hstr.Selection Hstr.Box
open Hstr.Loop Hstr.Coherence Hstr.Removal Hstr.Stores Hstr.Session Hstr.LineEditor

variable {R : Type}

/-! ## Writing to the shell -/

/-- What `fill_terminal_input` has written. -/
structure Terminal where
  input : List Byte
  stdout : List Byte
  stderr : List Byte
  deriving DecidableEq

def fill_terminal_input (is_tiocsti : Bool) (t : Terminal) (cmd : CString) (padding : Bool) :
    Terminal :=
  if strlen cmd > 0 then
    if is_tiocsti then
      { t with
        input := t.input ++ cmd.bytes
        stdout := if padding then t.stdout ++ [NEWLINE] else t.stdout }
    else
      let stderr := t.stderr ++ cmd.bytes
      { t with stderr := if padding then stderr ++ [NEWLINE] else stderr }
  else t

/-- The end of `loop_to_select`. -/
def fillResult (is_tiocsti : Bool) (t : Terminal) (s : LoopState R) : Terminal :=
  match s.result with
  | none => t
  | some result =>
      let t := if s.fixCommand then fill_terminal_input is_tiocsti t (lit "fc \"") false else t
      let t := fill_terminal_input is_tiocsti t result s.editCommand
      let t := if s.fixCommand then fill_terminal_input is_tiocsti t (lit "\"") false else t
      if s.executeResult then fill_terminal_input is_tiocsti t (lit "\n") false else t

def history_mgmt_flush (env : Env R) (is_tiocsti : Bool) (t : Terminal) (dirty : Bool) : Terminal :=
  if dirty && !env.shell.isZsh then fill_terminal_input is_tiocsti t (lit "history -r\n") false
  else t

/-- What hstr has written at its end: after the loop, or where SIGINT or SIGQUIT
ends it before. -/
def finish (env : Env R) (is_tiocsti : Bool) (s : LoopState R) : Terminal :=
  let t : Terminal := ⟨[], [], []⟩
  history_mgmt_flush env is_tiocsti (if s.done then fillResult is_tiocsti t s else t) s.dirty

/-! ## Orders -/

/-- What the shell is to do with a line: to run it, to open it in an editor and run
what comes out, or to have it edited on its command line, where `padding` begins a
new row for it. -/
inductive Order
  | nothing
  | execute (line : CString)
  | fix (line : CString)
  | edit (line : CString) (padding : Bool)

namespace Order

/-- The keystrokes of the order. -/
def text : Order → List Byte
  | nothing => []
  | execute line => line.bytes ++ [NEWLINE]
  | fix line => (lit "fc \"").bytes ++ line.bytes ++ (lit "\"").bytes ++ [NEWLINE]
  | edit line _ => line.bytes

def newRow : Order → List Byte
  | edit line true => if strlen line > 0 then [NEWLINE] else []
  | _ => []

end Order

/-- The keystrokes that have the shell read its history again. -/
def reload (env : Env R) (dirty : Bool) : List Byte :=
  if dirty && !env.shell.isZsh then (lit "history -r\n").bytes else []

/-- The terminal after an order. -/
def sent (is_tiocsti : Bool) (order : Order) (after : List Byte) : Terminal :=
  if is_tiocsti then ⟨order.text ++ after, order.newRow, []⟩
  else ⟨[], [], order.text ++ order.newRow ++ after⟩

/-- The order of a key. -/
def orderOf (env : Env R) (s : LoopState R) (e : Event) : Order :=
  match keyCase (keyOf s e) with
  | .KEY_ENTER =>
      ((current s e).or (if s.hstr.selection = [] then s.result else s.hstr.selection.head?)).elim
        .nothing .execute
  | .KEY_LEFT => .fix ((current s e).getD s.pattern)
  | .KEY_RIGHT => .edit ((current s e).getD s.pattern) (!env.isSubshellHint)
  | _ => .nothing

/-! ## While no key has ended the loop -/

/-- No flag is set, and the result is the first line of the selection, or empty where
none was printed for the pattern. -/
structure Waiting (s : LoopState R) : Prop where
  executeResult : s.executeResult = false
  fixCommand : s.fixCommand = false
  editCommand : s.editCommand = false
  result : s.result = s.hstr.selection.head? ∨ s.result = some empty

/-- The flags, which only the keys that end the loop set. -/
def flags (s : LoopState R) : Bool × Bool × Bool := (s.executeResult, s.fixCommand, s.editCommand)

theorem Waiting.congr {s s' : LoopState R} (h : Waiting s) (hflags : flags s' = flags s)
    (hresult : s'.result = s.result) (hsel : s'.hstr.selection = s.hstr.selection) :
    Waiting s' := by
  simp only [flags, Prod.mk.injEq] at hflags
  obtain ⟨hexecute, hfix, hedit⟩ := hflags
  refine ⟨hexecute.trans h.executeResult, hfix.trans h.fixCommand, hedit.trans h.editCommand, ?_⟩
  rw [hresult, hsel]
  exact h.result

/-- The result of printing is the first line that is selected. -/
theorem result_reprint (env : Env R) (s : LoopState R) :
    (reprint env s).result = (reprint env s).hstr.selection.head? := by
  have hsel := recalculate_selection s.maxy
    (hstr_make_selection env.lib s.hstr (some s.pattern) s.history (toUnsigned s.maxHistoryItems))
  exact congrArg List.head? hsel.symm

theorem Waiting.reprint {s s' : LoopState R} (h : Waiting s) (env : Env R)
    (hflags : flags s' = flags s) : Waiting (reprint env s') := by
  simp only [flags, Prod.mk.injEq] at hflags
  obtain ⟨hexecute, hfix, hedit⟩ := hflags
  exact ⟨hexecute.trans h.executeResult, hfix.trans h.fixCommand, hedit.trans h.editCommand,
    Or.inl (result_reprint env s')⟩

/-- The end of most handlers. -/
theorem Waiting.printed {s s' : LoopState R} (h : Waiting s) (env : Env R)
    (hflags : flags s' = flags s) :
    Waiting { Loop.reprint env s' with
      selectionCursorPosition := SELECTION_CURSOR_IN_PROMPT } :=
  (h.reprint env hflags).congr rfl rfl rfl

theorem Waiting.ready {s : LoopState R} (h : Waiting s) (e : Event) : Waiting (ready s e) := by
  apply h.congr
  · unfold Loop.ready wgetch
    split <;> rfl
  · unfold Loop.ready wgetch
    split <;> rfl
  · rw [ready_hstr, recalculate_selection]

theorem Waiting.deleteItem {s : LoopState R} (h : Waiting s) (env : Env R) (e : Event) :
    Waiting (deleteItem env s e) := by
  unfold Loop.deleteItem
  split
  · exact h.congr rfl rfl rfl
  · next msg _ =>
      have hasked : Waiting (confirmDelete s e msg) := by
        rw [confirmDelete_eq]
        exact h.congr rfl rfl rfl
      have hanswered : Waiting (deleteConfirmed env (confirmDelete s e msg) e msg) := by
        unfold deleteConfirmed
        split
        · apply hasked.reprint
          unfold remove_from_history_model
          split <;> rfl
        · exact hasked
      exact hanswered.congr rfl rfl rfl

theorem Waiting.addFavorite {s : LoopState R} (h : Waiting s) (env : Env R) :
    Waiting (addFavorite env s) := by
  unfold Loop.addFavorite
  split
  · exact h
  · exact h.printed env rfl

theorem Waiting.typeCharacter {s : LoopState R} (h : Waiting s) (env : Env R) (c : ℤ) :
    Waiting (Loop.typeCharacter env s c) := by
  unfold Loop.typeCharacter
  split
  · exact h.reprint env rfl
  · exact h

/-- A key ends the loop, or the loop waits for the next. -/
theorem Waiting.step {s : LoopState R} (h : Waiting s) (env : Env R) {e : Event}
    (hrun : s.done = false) (hnext : (step env s e).done = false) : Waiting (step env s e) := by
  have hready := h.ready e
  rw [step_of_not_done hrun] at hnext ⊢
  unfold handle at hnext ⊢
  cases hkey : keyCase (keyOf s e) with
  | KEY_END => exact hready
  | KEY_DC => exact hready.deleteItem env e
  | K_CTRL_E => exact hready.printed env rfl
  | K_CTRL_T => exact hready.printed env rfl
  | K_CTRL_SLASH => exact hready.printed env rfl
  | K_CTRL_F => exact hready.addFavorite env
  | KEY_RESIZE => exact hready.printed env rfl
  | K_CTRL_U => exact hready.congr rfl rfl rfl
  | K_CTRL_L => exact hready.congr rfl rfl rfl
  | KEY_BACKSPACE => exact hready.printed env rfl
  | KEY_NPAGE => exact hready.congr rfl rfl rfl
  | default => exact hready.typeCharacter env _
  | KEY_ENTER | KEY_LEFT | KEY_RIGHT | K_ESC | K_CTRL_X =>
      rw [hkey] at hnext
      exact absurd hnext (by simp)

theorem waiting_start (env : Env R) (hstr : Hstr R) (history : HistoryItems)
    (historyState : HistoryState) (favoritesFile : Option (List Byte)) (maxy : ℤ) :
    Waiting (start env hstr history historyState favoritesFile maxy) := by
  have hfirst : Waiting (firstScreen env (declared hstr history historyState favoritesFile maxy env.width)) :=
    ⟨rfl, rfl, rfl, Or.inr rfl⟩
  unfold start
  simp only
  split
  · exact hfirst.reprint env rfl
  · exact hfirst

/-! ## The key that ends the loop -/

theorem fill_terminal_input_tiocsti (t : Terminal) (cmd : CString) :
    fill_terminal_input true t cmd false = { t with input := t.input ++ cmd.bytes } := by
  unfold fill_terminal_input
  split
  · rfl
  · next hlen =>
      have hempty : cmd.bytes = [] := List.length_eq_zero_iff.mp (Nat.eq_zero_of_not_pos hlen)
      rw [hempty, List.append_nil]

theorem fill_terminal_input_stderr (t : Terminal) (cmd : CString) :
    fill_terminal_input false t cmd false = { t with stderr := t.stderr ++ cmd.bytes } := by
  unfold fill_terminal_input
  split
  · rfl
  · next hlen =>
      have hempty : cmd.bytes = [] := List.length_eq_zero_iff.mp (Nat.eq_zero_of_not_pos hlen)
      rw [hempty, List.append_nil]

/-- Writing a line for the command line, and a row for it. -/
theorem fill_terminal_input_edit (is_tiocsti : Bool) (line : CString) (padding : Bool) :
    fill_terminal_input is_tiocsti ⟨[], [], []⟩ line padding
      = sent is_tiocsti (.edit line padding) [] := by
  unfold fill_terminal_input sent Order.text Order.newRow
  by_cases hlen : strlen line > 0
  · cases is_tiocsti <;> cases padding <;> simp [hlen]
  · have hempty : line.bytes = [] := List.length_eq_zero_iff.mp (Nat.eq_zero_of_not_pos hlen)
    cases is_tiocsti <;> cases padding <;> simp [hlen, hempty]

/-- The flush comes last. -/
theorem history_mgmt_flush_sent (env : Env R) (is_tiocsti : Bool) (order : Order) (dirty : Bool) :
    history_mgmt_flush env is_tiocsti (sent is_tiocsti order []) dirty
      = sent is_tiocsti order (reload env dirty) := by
  unfold history_mgmt_flush reload
  split
  · cases is_tiocsti with
    | true =>
        rw [fill_terminal_input_tiocsti]
        simp [sent]
    | false =>
        rw [fill_terminal_input_stderr]
        simp [sent]
  · rfl

theorem ready_result (s : LoopState R) (e : Event) : (ready s e).result = s.result := by
  unfold Loop.ready wgetch
  split <;> rfl

theorem choose_result_snd (s : LoopState R) (cursor : ℤ) (fallback : Option CString) :
    (choose_result s cursor fallback).2 = (getResultFromSelection s.hstr cursor).or fallback := by
  unfold choose_result
  cases getResultFromSelection s.hstr cursor with
  | none => rfl
  | some chosen =>
      dsimp only
      split <;> rfl

theorem flags_choose_result (s : LoopState R) (cursor : ℤ) (fallback : Option CString) :
    flags (choose_result s cursor fallback).1 = flags s := by
  unfold choose_result
  split
  · rfl
  · split <;> rfl

theorem lit_newline : (lit "\n").bytes = [NEWLINE] := by decide

theorem fillResult_none (is_tiocsti : Bool) (t : Terminal) {s : LoopState R}
    (hresult : s.result = none) : fillResult is_tiocsti t s = t := by
  rw [fillResult, hresult]

theorem fillResult_execute (is_tiocsti : Bool) {s : LoopState R} {line : CString}
    (hresult : s.result = some line) (hflags : flags s = (true, false, false)) :
    fillResult is_tiocsti ⟨[], [], []⟩ s = sent is_tiocsti (.execute line) [] := by
  simp only [flags, Prod.mk.injEq] at hflags
  obtain ⟨hexecute, hfix, hedit⟩ := hflags
  rw [fillResult, hresult, hexecute, hfix, hedit]
  cases is_tiocsti with
  | true => simp [fill_terminal_input_tiocsti, sent, Order.text, Order.newRow, lit_newline]
  | false => simp [fill_terminal_input_stderr, sent, Order.text, Order.newRow, lit_newline]

theorem fillResult_fix (is_tiocsti : Bool) {s : LoopState R} {line : CString}
    (hresult : s.result = some line) (hflags : flags s = (true, true, false)) :
    fillResult is_tiocsti ⟨[], [], []⟩ s = sent is_tiocsti (.fix line) [] := by
  simp only [flags, Prod.mk.injEq] at hflags
  obtain ⟨hexecute, hfix, hedit⟩ := hflags
  rw [fillResult, hresult, hexecute, hfix, hedit]
  cases is_tiocsti with
  | true => simp [fill_terminal_input_tiocsti, sent, Order.text, Order.newRow, lit_newline]
  | false => simp [fill_terminal_input_stderr, sent, Order.text, Order.newRow, lit_newline]

theorem fillResult_edit (is_tiocsti : Bool) {s : LoopState R} {line : CString} {padding : Bool}
    (hresult : s.result = some line) (hflags : flags s = (false, false, padding)) :
    fillResult is_tiocsti ⟨[], [], []⟩ s = sent is_tiocsti (.edit line padding) [] := by
  simp only [flags, Prod.mk.injEq] at hflags
  obtain ⟨hexecute, hfix, hedit⟩ := hflags
  rw [fillResult, hresult, hexecute, hfix, hedit]
  exact fill_terminal_input_edit is_tiocsti line padding

/-- **The key that ends the loop gives the order.** -/
theorem fillResult_step {s : LoopState R} (h : Waiting s) (env : Env R) (is_tiocsti : Bool)
    {e : Event} (hrun : s.done = false) (hlast : (step env s e).done = true) :
    fillResult is_tiocsti ⟨[], [], []⟩ (step env s e)
      = sent is_tiocsti (orderOf env s e) [] := by
  have hready := h.ready e
  have hflags : flags (ready s e) = (false, false, false) := by
    rw [flags, hready.executeResult, hready.fixCommand, hready.editCommand]
  have hsel : (ready s e).hstr.selection = s.hstr.selection := by
    rw [ready_hstr, recalculate_selection]
  have hlasts := keyCase_of_last hrun hlast
  rw [step_of_not_done hrun]
  unfold handle orderOf
  rcases hlasts with hkey | hkey | hkey | hkey | hkey
  · -- ENTER: where nothing is selected, the result is what it was
    simp only [hkey, ne_eq, List.length_eq_zero_iff, hsel, ready_result, ite_not, current,
      ready_selectionCursorPosition]
    generalize (if s.hstr.selection = [] then s.result else s.hstr.selection.head?) = fallback
    have hchosen := choose_result_snd (ready s e) s.selectionCursorPosition fallback
    have hkept := flags_choose_result (ready s e) s.selectionCursorPosition fallback
    rw [hflags] at hkept
    simp only [flags, Prod.mk.injEq] at hkept
    rw [← hchosen]
    cases hresult : (choose_result (ready s e) s.selectionCursorPosition fallback).2 with
    | none =>
        rw [fillResult_none is_tiocsti _ rfl]
        cases is_tiocsti <;> rfl
    | some line =>
        apply fillResult_execute is_tiocsti rfl
        simp only [flags, hkept]
  · -- the left arrow
    simp only [hkey, current, ready_selectionCursorPosition, ready_pattern]
    have hchosen := choose_result_snd (ready s e) s.selectionCursorPosition (some s.pattern)
    have hkept := flags_choose_result (ready s e) s.selectionCursorPosition (some s.pattern)
    rw [hflags] at hkept
    simp only [flags, Prod.mk.injEq] at hkept
    rw [Option.or_some] at hchosen
    apply fillResult_fix is_tiocsti hchosen
    simp only [flags, hkept]
  · -- the tabulator and the right arrow
    simp only [hkey, current, ready_selectionCursorPosition, ready_pattern]
    have hchosen := choose_result_snd (ready s e) s.selectionCursorPosition (some s.pattern)
    have hkept := flags_choose_result (ready s e) s.selectionCursorPosition (some s.pattern)
    rw [hflags] at hkept
    simp only [flags, Prod.mk.injEq] at hkept
    rw [Option.or_some] at hchosen
    apply fillResult_edit is_tiocsti hchosen
    simp only [flags, hkept, hready.editCommand]
    cases env.isSubshellHint <;> rfl
  · rw [hkey, fillResult_none is_tiocsti _ rfl]
    cases is_tiocsti <;> rfl
  · rw [hkey, fillResult_none is_tiocsti _ rfl]
    cases is_tiocsti <;> rfl

theorem dirty_choose_result (s : LoopState R) (cursor : ℤ) (fallback : Option CString) :
    (choose_result s cursor fallback).1.dirty = s.dirty := by
  unfold choose_result
  split
  · rfl
  · split <;> rfl

theorem ready_dirty (s : LoopState R) (e : Event) : (ready s e).dirty = s.dirty := by
  unfold Loop.ready wgetch
  split <;> rfl

/-- The shell has to read its history again after all that end the loop, but ESC and
Ctrl-g. -/
theorem dirty_last {env : Env R} {s : LoopState R} {e : Event} (hrun : s.done = false)
    (hlast : (step env s e).done = true) :
    (step env s e).dirty = (s.dirty && decide (keyCase (keyOf s e) ≠ .K_ESC)) := by
  have hlasts := keyCase_of_last hrun hlast
  rw [step_of_not_done hrun]
  unfold handle
  rcases hlasts with hkey | hkey | hkey | hkey | hkey
  all_goals
    simp only [hkey, dirty_choose_result, ready_dirty, ne_eq, reduceCtorEq, not_false_eq_true,
      not_true_eq_false, decide_true, decide_false, Bool.and_true, Bool.and_false]

/-- The line of an order is one that the view has, or the pattern; an empty line is
run where nothing is selected. -/
def Backed (s : LoopState R) : Order → Prop
  | .nothing => True
  | .execute line => line ∈ source s.hstr s.history ∨ s.hstr.selection = [] ∧ line = empty
  | .fix line => line ∈ source s.hstr s.history ∨ line = s.pattern
  | .edit line _ => line ∈ source s.hstr s.history ∨ line = s.pattern

theorem backed_orderOf {s : LoopState R} (h : Waiting s) (hlive : Live s) (env : Env R)
    (e : Event) : Backed s (orderOf env s e) := by
  have hfallback : (current s e).getD s.pattern ∈ source s.hstr s.history
      ∨ (current s e).getD s.pattern = s.pattern := by
    cases hcurrent : current s e with
    | none => exact Or.inr rfl
    | some line => exact Or.inl (mem_source_of_current hlive hcurrent)
  unfold orderOf
  split
  · cases hcurrent : current s e with
    | some line => exact Or.inl (mem_source_of_current hlive hcurrent)
    | none =>
        rw [Option.none_or]
        by_cases hsel : s.hstr.selection = []
        · rw [if_pos hsel]
          rcases h.result with hresult | hresult
          · rw [hresult, hsel]
            trivial
          · rw [hresult]
            exact Or.inr ⟨hsel, rfl⟩
        · rw [if_neg hsel]
          obtain ⟨line, rest, hcons⟩ := List.exists_cons_of_ne_nil hsel
          rw [hcons]
          apply Or.inl
          apply hlive
          rw [hcons]
          exact List.mem_cons_self
  · exact hfallback
  · exact hfallback
  · trivial

/-! ## Sessions -/

theorem run_of_done {env : Env R} {s : LoopState R} (h : s.done = true) (events : List Event) :
    run (step env) s events = s := by
  induction events with
  | nil => rfl
  | cons e events ih => rw [run_cons, step_of_done h, ih]

/-- A loop that is over was ended by one key. -/
theorem exists_last {env : Env R} {s : LoopState R} (hrun : s.done = false) {events : List Event}
    (hdone : (run (step env) s events).done = true) :
    ∃ pre e post, events = pre ++ e :: post ∧ (run (step env) s pre).done = false
      ∧ (step env (run (step env) s pre) e).done = true := by
  have hstep : ∀ (s : LoopState R) (e : Event), True →
      ((step env s e).done = true
        ↔ s.done = true ∨ s.done = false ∧ (step env s e).done = true) := by
    intro s e _
    cases hs : s.done with
    | true => simp [step_of_done hs, hs]
    | false => simp
  have hiff : (run (step env) s events).done = true ↔ s.done = true ∨ ∃ pre e post,
      events = pre ++ e :: post ∧ (run (step env) s pre).done = false
        ∧ (step env (run (step env) s pre) e).done = true :=
    run_iff_exists (P := fun s : LoopState R => s.done = true) hstep
      (guarded_of_forall_mem fun _ _ _ => trivial)
  rcases hiff.mp hdone with hstart | hlast
  · rw [hrun] at hstart
    cases hstart
  · exact hlast

theorem waiting_run {env : Env R} {s : LoopState R} (h : Waiting s) {events : List Event}
    (hrun : (run (step env) s events).done = false) : Waiting (run (step env) s events) := by
  have hinv : Always (step env) (fun s => s.done = false → Waiting s) s events := by
    refine always_of_step (fun s e ih hnext => ?_) (fun _ => h) events
    by_cases hdone : s.done = true
    · rw [step_of_done hdone, hdone] at hnext
      cases hnext
    · have hs : s.done = false := by simpa using hdone
      exact (ih hs).step env hs hnext
  exact hinv.last hrun

theorem live_run {s : LoopState R} (h : Live s) (env : Env R) (events : List Event) :
    Live (run (step env) s events) :=
  (always_of_step (I := Live) (fun _ e h => h.step env e) h events).last

theorem start_done (env : Env R) (hstr : Hstr R) (history : HistoryItems)
    (historyState : HistoryState) (favoritesFile : Option (List Byte)) (maxy : ℤ) :
    (start env hstr history historyState favoritesFile maxy).done = false :=
  congrArg Line.done (prompt_start env hstr history historyState favoritesFile maxy)

/-- Where the loop is not over, only the flush writes. -/
theorem finish_of_running (env : Env R) (is_tiocsti : Bool) {s : LoopState R}
    (hrun : s.done = false) :
    finish env is_tiocsti s = sent is_tiocsti .nothing (reload env s.dirty) := by
  have hnothing : (⟨[], [], []⟩ : Terminal) = sent is_tiocsti .nothing [] := by
    cases is_tiocsti <;> rfl
  unfold finish
  simp only [hrun]
  rw [if_neg Bool.false_ne_true, hnothing, history_mgmt_flush_sent]

/-- Where a key ended the loop, its order is written before. -/
theorem finish_of_last {env : Env R} {s : LoopState R} {e : Event} (hwaiting : Waiting s)
    (hrun : s.done = false) (hlast : (step env s e).done = true) (is_tiocsti : Bool) :
    finish env is_tiocsti (step env s e) = sent is_tiocsti (orderOf env s e)
      (reload env (s.dirty && decide (keyCase (keyOf s e) ≠ .K_ESC))) := by
  have hfill := fillResult_step hwaiting env is_tiocsti hrun hlast
  rw [← dirty_last hrun hlast]
  unfold finish
  simp only
  rw [if_pos hlast, hfill, history_mgmt_flush_sent]

/-- A loop that is over is in the state after its last key. -/
theorem run_of_last {env : Env R} {s : LoopState R} {pre : List Event} {e : Event}
    (hlast : (step env (run (step env) s pre) e).done = true) (post : List Event) :
    run (step env) s (pre ++ e :: post) = step env (run (step env) s pre) e := by
  rw [run_append, run_cons]
  exact run_of_done hlast post

/-- **What the shell receives.** hstr has written nothing but the command to read the
history again, where the loop is not over; otherwise the last key gave the order
that is written, for a line that the view has or the prompt, and that command comes
behind it. -/
theorem shell_receives (env : Env R) (is_tiocsti : Bool) (hstr : Hstr R) (history : HistoryItems)
    (historyState : HistoryState) (favoritesFile : Option (List Byte)) (maxy : ℤ)
    (events : List Event) :
    let state := loop_to_select env hstr history historyState favoritesFile maxy
    let t := finish env is_tiocsti (state events)
    (state events).done = false
        ∧ t = sent is_tiocsti .nothing (reload env (state events).dirty)
      ∨ ∃ pre e post, events = pre ++ e :: post ∧ (state pre).done = false
        ∧ Backed (state pre) (orderOf env (state pre) e)
        ∧ t = sent is_tiocsti (orderOf env (state pre) e)
          (reload env ((state pre).dirty && decide (keyCase (keyOf (state pre) e) ≠ .K_ESC))) := by
  intro state t
  have hstart := start_done env hstr history historyState favoritesFile maxy
  by_cases hdone : (state events).done = true
  · right
    obtain ⟨pre, e, post, rfl, hpre, hlast⟩ := exists_last hstart hdone
    have hwaiting : Waiting (state pre) :=
      waiting_run (waiting_start env hstr history historyState favoritesFile maxy) hpre
    have hlive : Live (state pre) :=
      live_run (live_start env hstr history historyState favoritesFile maxy) env pre
    refine ⟨pre, e, post, rfl, hpre, backed_orderOf hwaiting hlive env e, ?_⟩
    have hstate : state (pre ++ e :: post) = step env (state pre) e := run_of_last hlast post
    have hfinish := finish_of_last hwaiting hpre hlast is_tiocsti
    rw [← hstate] at hfinish
    exact hfinish
  · have hrun : (state events).done = false := by simpa using hdone
    exact Or.inl ⟨hrun, finish_of_running env is_tiocsti hrun⟩

/-! ## What the shell runs -/

end Hstr.Handover
