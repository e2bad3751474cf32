/-
The suggest box against what it works on: the favorites and their file, the views
of the history, readline's list, the history file and the flag `dirty`.

The handlers of `loop_to_select` reach these only through a few functions, and
always with the item under the cursor. `asks` is what a round calls, `storageStep`
what the calls do, the history file included, which the loop itself never sees.
The two machines run in lock step, and what the stores promise of every allowed
call holds in every state of the loop, since the loop shows nothing but lines of
the current view.
-/
import Hstr.Lib.Simulation
import Hstr.Loop
import Hstr.Lookup
import Hstr.Sharing

set_option autoImplicit false

namespace Hstr.Stores

open Lib.Runs Lib.Dedup Lib.Prune Lib.Simulation Hstr.Strings Hstr.Utils Hstr.History
open Hstr.Favorites Hstr.Regexp Hstr.Selection Hstr.Box Hstr.Loop Hstr.Lookup Hstr.Coherence
open Hstr.Removal Hstr.Sharing

variable {R : Type}

/-! ## The stores -/

/-- A call of the loop: an operation on the favorites, the deletion of a command
from the history with what is behind its copies, or the end of a session by ESC or
Ctrl-g, which does not want the shell to read the history again. -/
inductive Call
  | favorites (op : FavoritesOp)
  | delete (almostDead : CString) (beyond : Beyond)
  | cancel

/-- The favorites with their file, the history as hstr has loaded it, and the
history file. -/
structure Storage where
  favorites : Favorites.Session
  history : Sharing.Session
  historyFile : HistoryFile

def storageStep (sh : Shell) (t : Storage) : Call → Storage
  | .favorites op => { t with favorites := favoritesStep t.favorites op }
  | .delete almostDead beyond =>
      let result := removeFromHistoryFile { sh with beyond } almostDead t.history t.historyFile
      { t with history := result.1, historyFile := result.2.1 }
  | .cancel => { t with history := { t.history with dirty := false } }

/-- The call of `remove_from_history_model`. -/
def removal (view : View) (almostDead : CString) (beyond : Beyond) : Call :=
  if view = .FAVORITES then .favorites (.remove (some almostDead)) else .delete almostDead beyond

/-- The calls of the case `KEY_DC` for the item `msg`. -/
def deletion (s : LoopState R) (e : Event) (msg : CString) : List Call :=
  if s.hstr.noConfirm ∨ e.cc = 121 then [removal s.hstr.view msg e.beyond] else []

/-- The call of the case `K_CTRL_F`. -/
def addition (view : View) (favorite : CString) : List Call :=
  if view = .FAVORITES then [.favorites (.choose (some favorite))]
  else [.favorites (.add (some favorite))]

/-- The calls of `choose_result`. -/
def choice (view : View) (chosen : CString) : List Call :=
  if view = .FAVORITES then [.favorites (.choose (some chosen))] else []

/-- The item under the cursor when the key of a round is processed. -/
def current (s : LoopState R) (e : Event) : Option CString :=
  getResultFromSelection (ready s e).hstr s.selectionCursorPosition

/-- The calls of a round. -/
def asks (s : LoopState R) (e : Event) : List Call :=
  if s.done then []
  else match keyCase (keyOf s e) with
    | .KEY_DC => (current s e).elim [] (deletion s e)
    | .K_CTRL_F => (current s e).elim [] (addition s.hstr.view)
    | .KEY_ENTER => (current s e).elim [] (choice s.hstr.view)
    | .KEY_LEFT => (current s e).elim [] (choice s.hstr.view)
    | .KEY_RIGHT => (current s e).elim [] (choice s.hstr.view)
    | .K_ESC => [.cancel]
    | _ => []

/-- The loop has what the stores have. -/
structure Shows (s : LoopState R) (t : Storage) : Prop where
  favorites : s.hstr.favorites = t.favorites.favorites
  favoritesFile : s.favoritesFile = t.favorites.file
  history : (⟨s.history, s.historyState, s.dirty⟩ : Sharing.Session) = t.history

/-! ## The loop works through the calls -/

theorem Shows.congr {s s' : LoopState R} {t : Storage} (h : Shows s t)
    (hfavorites : s'.hstr.favorites = s.hstr.favorites)
    (hfile : s'.favoritesFile = s.favoritesFile) (hhistory : s'.history = s.history)
    (hstate : s'.historyState = s.historyState) (hdirty : s'.dirty = s.dirty) : Shows s' t :=
  ⟨hfavorites.trans h.favorites, hfile.trans h.favoritesFile,
    by rw [hhistory, hstate, hdirty, h.history]⟩

theorem Shows.ready {s : LoopState R} {t : Storage} (h : Shows s t) (e : Event) :
    Shows (ready s e) t := by
  apply h.congr
  · rw [ready_hstr, recalculate_favorites]
  all_goals
    unfold Loop.ready wgetch
    split <;> rfl

theorem Shows.print_selection {s : LoopState R} {t : Storage} (h : Shows s t) (env : Env R)
    (pattern : Option CString) : Shows (hstr_print_selection env s pattern).1 t := by
  apply h.congr
  · rw [hstr_print_selection_hstr, recalculate_favorites]
    rfl
  all_goals rfl

theorem Shows.reprint {s : LoopState R} {t : Storage} (h : Shows s t) (env : Env R) :
    Shows (reprint env s) t :=
  (h.print_selection env (some s.pattern)).congr rfl rfl rfl rfl rfl

/-- The end of most handlers. -/
theorem Shows.printed {s s' : LoopState R} {t : Storage} (h : Shows s t) (env : Env R)
    (hfavorites : s'.hstr.favorites = s.hstr.favorites)
    (hfile : s'.favoritesFile = s.favoritesFile) (hhistory : s'.history = s.history)
    (hstate : s'.historyState = s.historyState) (hdirty : s'.dirty = s.dirty) :
    Shows { Loop.reprint env s' with selectionCursorPosition := SELECTION_CURSOR_IN_PROMPT } t :=
  ((h.congr hfavorites hfile hhistory hstate hdirty).reprint env).congr rfl rfl rfl rfl rfl

/-- The model of the deletion in the loop is the call. -/
theorem Shows.remove {s : LoopState R} {t : Storage} (h : Shows s t) (env : Env R)
    (msg : CString) (beyond : Beyond) :
    Shows (remove_from_history_model env s msg beyond).1
      (storageStep env.shell t (removal s.hstr.view msg beyond)) := by
  unfold remove_from_history_model removal
  split
  · simp only [storageStep, favoritesStep, h.favorites, h.favoritesFile]
    exact ⟨rfl, rfl, h.history⟩
  · obtain ⟨hviews, hdirty⟩ := removeFromHistoryFile_eq { env.shell with beyond } msg
      ⟨s.history, s.historyState, s.dirty⟩ t.historyFile
    refine ⟨h.favorites, h.favoritesFile, ?_⟩
    simp only [storageStep, ← h.history, ← hviews]
    rw [← hdirty]

theorem Shows.deleteItem {s : LoopState R} {t : Storage} (h : Shows s t) (env : Env R)
    (e : Event) :
    Shows (deleteItem env s e)
      (run (storageStep env.shell) t
        ((getResultFromSelection s.hstr s.selectionCursorPosition).elim [] (deletion s e))) := by
  unfold Loop.deleteItem deletion
  cases getResultFromSelection s.hstr s.selectionCursorPosition with
  | none => exact h.congr rfl rfl rfl rfl rfl
  | some msg =>
      have hasked : Shows (confirmDelete s e msg) t := by
        rw [confirmDelete_eq]
        exact h.congr rfl rfl rfl rfl rfl
      have hhstr : (confirmDelete s e msg).hstr = s.hstr := by rw [confirmDelete_eq]
      simp only [Option.elim_some, keepOnSelectionRow, highlight_selection, deleteConfirmed, hhstr]
      -- the answer decides whether the model is called
      split
      · have hremoved := hasked.remove env msg e.beyond
        rw [hhstr] at hremoved
        exact (hremoved.reprint env).congr rfl rfl rfl rfl rfl
      · exact hasked.congr rfl rfl rfl rfl rfl

theorem Shows.addFavorite {s : LoopState R} {t : Storage} (h : Shows s t) (env : Env R) :
    Shows (addFavorite env s)
      (run (storageStep env.shell) t
        ((getResultFromSelection s.hstr s.selectionCursorPosition).elim []
          (addition s.hstr.view))) := by
  unfold Loop.addFavorite addition
  cases getResultFromSelection s.hstr s.selectionCursorPosition with
  | none => exact h
  | some favorite =>
      simp only [Option.elim_some]
      refine (Shows.reprint ?_ env).congr rfl rfl rfl rfl rfl
      -- the favorites change before the selection is printed
      split
      · simp only [run_cons, run_nil, storageStep, favoritesStep, h.favorites, h.favoritesFile]
        exact ⟨rfl, rfl, h.history⟩
      · simp only [run_cons, run_nil, storageStep, favoritesStep, h.favorites, h.favoritesFile]
        exact ⟨rfl, rfl, h.history⟩

theorem Shows.choose_result {s : LoopState R} {t : Storage} (h : Shows s t) (env : Env R)
    (cursor : ℤ) (fallback : Option CString) :
    Shows (choose_result s cursor fallback).1
      (run (storageStep env.shell) t
        ((getResultFromSelection s.hstr cursor).elim [] (choice s.hstr.view))) := by
  unfold Loop.choose_result choice
  cases getResultFromSelection s.hstr cursor with
  | none => exact h
  | some chosen =>
      simp only [Option.elim_some]
      split
      · simp only [run_cons, run_nil, storageStep, favoritesStep, h.favorites, h.favoritesFile]
        exact ⟨rfl, rfl, h.history⟩
      · exact h

theorem recalculate_noConfirm (n : ℤ) (hstr : Hstr R) :
    (recalculate_max_history_items n hstr).noConfirm = hstr.noConfirm := by
  rw [recalculate_max_history_items_eq]

theorem deletion_ready (s : LoopState R) (e : Event) : deletion (ready s e) e = deletion s e := by
  funext msg
  simp only [deletion, ready_hstr, recalculate_noConfirm, recalculate_view]

theorem current_eq (s : LoopState R) (e : Event) :
    getResultFromSelection (ready s e).hstr (ready s e).selectionCursorPosition = current s e := by
  rw [ready_selectionCursorPosition]
  rfl

theorem Shows.typeCharacter {s : LoopState R} {t : Storage} (h : Shows s t) (env : Env R) (c : ℤ) :
    Shows (typeCharacter env s c) t := by
  unfold Loop.typeCharacter
  split
  · apply Shows.reprint
    exact h.congr rfl rfl rfl rfl rfl
  · exact h

/-- **A round is the calls that it makes.** -/
theorem shows_step (env : Env R) (s : LoopState R) (t : Storage) (e : Event) (h : Shows s t) :
    Shows (step env s e) (run (storageStep env.shell) t (asks s e)) := by
  by_cases hdone : s.done = true
  · rw [step_of_done hdone, asks, if_pos hdone]
    exact h
  · rw [step_of_not_done (by simpa using hdone), asks, if_neg hdone]
    have hready := h.ready e
    have hview : (ready s e).hstr.view = s.hstr.view := by rw [ready_hstr, recalculate_view]
    unfold handle
    -- a key without a case among the calls leaves the stores alone
    cases keyCase (keyOf s e) with
    | KEY_END => exact hready
    | KEY_DC =>
        have hdeleted := hready.deleteItem env e
        rw [current_eq, deletion_ready] at hdeleted
        exact hdeleted
    | K_CTRL_E => exact hready.printed env rfl rfl rfl rfl rfl
    | K_CTRL_T => exact hready.printed env rfl rfl rfl rfl rfl
    | K_CTRL_SLASH => exact hready.printed env rfl rfl rfl rfl rfl
    | K_CTRL_F =>
        have hadded := hready.addFavorite env
        rw [current_eq, hview] at hadded
        exact hadded
    | KEY_RESIZE =>
        exact hready.printed env (recalculate_favorites _ _) rfl rfl rfl rfl
    | K_CTRL_U => exact hready.congr rfl rfl rfl rfl rfl
    | K_CTRL_L => exact hready.congr rfl rfl rfl rfl rfl
    | KEY_BACKSPACE => exact hready.printed env rfl rfl rfl rfl rfl
    | KEY_NPAGE => exact hready.congr rfl rfl rfl rfl rfl
    | KEY_ENTER =>
        have hchosen := hready.choose_result env (ready s e).selectionCursorPosition
          (if (ready s e).hstr.selection.length ≠ 0 then (ready s e).hstr.selection.head?
            else (ready s e).result)
        rw [current_eq, hview] at hchosen
        exact hchosen.congr rfl rfl rfl rfl rfl
    | KEY_LEFT =>
        have hchosen := hready.choose_result env (ready s e).selectionCursorPosition
          (some (ready s e).pattern)
        rw [current_eq, hview] at hchosen
        exact hchosen.congr rfl rfl rfl rfl rfl
    | KEY_RIGHT =>
        have hchosen := hready.choose_result env (ready s e).selectionCursorPosition
          (some (ready s e).pattern)
        rw [current_eq, hview] at hchosen
        exact hchosen.congr rfl rfl rfl rfl rfl
    | K_ESC =>
        refine ⟨hready.favorites, hready.favoritesFile, ?_⟩
        simp only [run_cons, run_nil, storageStep, ← hready.history]
    | K_CTRL_X => exact hready.congr rfl rfl rfl rfl rfl
    | default => exact hready.typeCharacter env _

/-! ## The whole loop -/

/-- The stores as the loop gets them. -/
def stored (hstr : Hstr R) (history : HistoryItems) (historyState : HistoryState)
    (favoritesFile : Option (List Byte)) (historyFile : HistoryFile) : Storage where
  favorites := ⟨hstr.favorites, favoritesFile, []⟩
  history := ⟨history, historyState, false⟩
  historyFile := historyFile

/-- The screens before the first key call nothing. -/
theorem shows_start (env : Env R) (hstr : Hstr R) (history : HistoryItems)
    (historyState : HistoryState) (favoritesFile : Option (List Byte)) (maxy : ℤ)
    (historyFile : HistoryFile) :
    Shows (start env hstr history historyState favoritesFile maxy)
      (stored hstr history historyState favoritesFile historyFile) := by
  have hdeclared :
      Shows (recalculate (declared hstr history historyState favoritesFile maxy env.width))
      (stored hstr history historyState favoritesFile historyFile) :=
    ⟨recalculate_favorites maxy hstr, rfl, rfl⟩
  have hfirst :
      Shows (firstScreen env (declared hstr history historyState favoritesFile maxy env.width))
      (stored hstr history historyState favoritesFile historyFile) := by
    refine (hdeclared.print_selection env none).congr ?_ rfl rfl rfl rfl
    unfold firstScreen
    rw [recalculate_hstr, recalculate_favorites]
  unfold Loop.start
  simp only
  split
  · exact hfirst.reprint env
  · exact hfirst

theorem follows_stores (env : Env R) :
    Follows (step env) asks (storageStep env.shell) (Shows (R := R)) :=
  fun s t e h => shows_step env s t e h

/-- **The loop refines its stores.** Whatever keys it gets, in every state it has
what the stores have after the calls so far, and nothing else changes them: not
the configuration, the pattern, the cursor, a resize or a redraw. -/
theorem loop_refines_stores (env : Env R) (hstr : Hstr R) (history : HistoryItems)
    (historyState : HistoryState) (favoritesFile : Option (List Byte)) (maxy : ℤ)
    (historyFile : HistoryFile) (events : List Event) :
    let s := start env hstr history historyState favoritesFile maxy
    let t := stored hstr history historyState favoritesFile historyFile
    Always (through (step env) asks (storageStep env.shell)) (fun p => Shows p.1 p.2) (s, t) events
      ∧ Shows (loop_to_select env hstr history historyState favoritesFile maxy events)
        (run (storageStep env.shell) t (trace (step env) asks s events)) := by
  intro s t
  have h0 : Shows s t :=
    shows_start env hstr history historyState favoritesFile maxy historyFile
  exact ⟨(follows_stores env).always h0 events, (follows_stores env).run h0 events⟩

end Hstr.Stores
