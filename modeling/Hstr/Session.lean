/-
What holds in every state of the suggest box, of what it shows and of what it
works on.

The box shows nothing but lines of the current view, whatever was deleted, added
or switched before, so every call of the loop is about a line that is there. From
this follows what each store keeps: the favorites are on disk in the order of the
list, the views show the history list and the history file is the list, and a
deletion that was confirmed always takes the command out of all of them.

For zsh this is so where the decoder of every line stays in the line (`Reads`): what
the copy of another line is read with can be different whenever it is made.
-/
import Hstr.Stores

set_option autoImplicit false

namespace Hstr.Session

open Lib.Runs Lib.Dedup Lib.Prune Lib.Simulation Hstr.Strings Hstr.Utils Hstr.History
open Hstr.Favorites Hstr.Regexp Hstr.Selection Hstr.Box Hstr.Loop Hstr.Lookup Hstr.Coherence
open Hstr.Removal Hstr.Stores Hstr.Readline

variable {R : Type}

/-! ## The box shows lines of the view -/

/-- Every selected line is a line of the current view. -/
def Live (s : LoopState R) : Prop := ∀ line ∈ s.hstr.selection, line ∈ source s.hstr s.history

theorem mem_source_of_mem_selection {lib : RegexLib R} {hstr : Hstr R} {pattern : Option CString}
    {history : HistoryItems} {n : ℕ} {line : CString}
    (h : line ∈ (hstr_make_selection lib hstr pattern history n).selection) :
    line ∈ source hstr history := by
  rw [selection_make_selection] at h
  have hcandidate := mem_distinct.mp (List.mem_of_mem_take h)
  rw [candidates, List.mem_append, List.mem_filter, List.mem_filter] at hcandidate
  rcases hcandidate with hline | hline
  · exact hline.1
  · exact hline.1

theorem sameQuery_make_selection (lib : RegexLib R) (hstr : Hstr R) (pattern : Option CString)
    (history : HistoryItems) (n : ℕ) :
    SameQuery hstr (hstr_make_selection lib hstr pattern history n) :=
  ⟨rfl, rfl, rfl, rfl, rfl⟩

theorem hstr_print_selection_history (env : Env R) (s : LoopState R) (pattern : Option CString) :
    (hstr_print_selection env s pattern).1.history = s.history := rfl

/-- Printing shows lines of the view as it is now. -/
theorem live_print_selection (env : Env R) (s : LoopState R) (pattern : Option CString) :
    Live (hstr_print_selection env s pattern).1 := by
  intro line hline
  rw [hstr_print_selection_hstr, recalculate_selection] at hline
  rw [hstr_print_selection_hstr, hstr_print_selection_history, (SameQuery.recalculate _ _).source,
    (sameQuery_make_selection _ _ _ _ _).source]
  exact mem_source_of_mem_selection hline

theorem live_reprint (env : Env R) (s : LoopState R) : Live (reprint env s) :=
  live_print_selection env s (some s.pattern)

/-- A handler that does not print keeps the selection and the view. -/
theorem Live.congr {s s' : LoopState R} (h : Live s) (hsel : s'.hstr.selection = s.hstr.selection)
    (hsource : ∀ line, line ∈ source s.hstr s.history → line ∈ source s'.hstr s'.history) :
    Live s' := by
  intro line hline
  rw [hsel] at hline
  exact hsource line (h line hline)

theorem Live.ready {s : LoopState R} (h : Live s) (e : Event) : Live (ready s e) := by
  apply h.congr
  · rw [ready_hstr, recalculate_selection]
  · intro line hline
    rw [ready_hstr, ready_history, (SameQuery.recalculate _ _).source]
    exact hline

theorem Live.deleteItem {s : LoopState R} (h : Live s) (env : Env R) (e : Event) :
    Live (deleteItem env s e) := by
  unfold Loop.deleteItem
  cases getResultFromSelection s.hstr s.selectionCursorPosition with
  | none => exact h
  | some msg =>
      simp only [keepOnSelectionRow, highlight_selection, deleteConfirmed]
      split
      · exact live_reprint env _
      · rw [confirmDelete_eq]
        exact h

theorem Live.addFavorite {s : LoopState R} (h : Live s) (env : Env R) :
    Live (addFavorite env s) := by
  unfold Loop.addFavorite
  cases getResultFromSelection s.hstr s.selectionCursorPosition with
  | none => exact h
  | some favorite =>
      simp only
      generalize (if s.hstr.view = .FAVORITES then
        favorites_choose s.hstr.favorites s.favoritesFile (some favorite)
        else favorites_add s.hstr.favorites s.favoritesFile (some favorite)) = changed
      obtain ⟨favorites, file⟩ := changed
      exact live_reprint env _

/-- A favorite that is chosen moves in the list, and the others stay in it. -/
theorem Live.choose_result {s : LoopState R} (h : Live s) (cursor : ℤ)
    (fallback : Option CString) : Live (choose_result s cursor fallback).1 := by
  unfold Loop.choose_result
  split
  · exact h
  · next chosen _ =>
      split
      · refine h.congr rfl fun line hline => ?_
        unfold source at hline ⊢
        simp only
        cases hview : s.hstr.view with
        | HISTORY => rwa [hview] at hline
        | RANKING => rwa [hview] at hline
        | FAVORITES =>
            rw [hview] at hline
            rw [favorites_choose_eq]
            exact mem_moved.mpr hline
      · exact h

theorem Live.typeCharacter {s : LoopState R} (h : Live s) (env : Env R) (c : ℤ) :
    Live (typeCharacter env s c) := by
  unfold Loop.typeCharacter
  split
  · exact live_reprint env _
  · exact h

/-- **A round shows lines of the view.** -/
theorem Live.step {s : LoopState R} (h : Live s) (env : Env R) (e : Event) :
    Live (step env s e) := by
  by_cases hdone : s.done = true
  · rw [step_of_done hdone]
    exact h
  · rw [step_of_not_done (by simpa using hdone)]
    have hready := h.ready e
    unfold handle
    cases keyCase (keyOf s e) with
    | KEY_END => exact hready
    | KEY_DC => exact hready.deleteItem env e
    | K_CTRL_E => exact live_reprint env _
    | K_CTRL_T => exact live_reprint env _
    | K_CTRL_SLASH => exact live_reprint env _
    | K_CTRL_F => exact hready.addFavorite env
    | KEY_RESIZE => exact live_reprint env _
    | K_CTRL_U => exact hready
    | K_CTRL_L => exact hready
    | KEY_BACKSPACE => exact live_reprint env _
    | KEY_NPAGE => exact hready
    | KEY_ENTER => exact hready.choose_result _ _
    | KEY_LEFT => exact hready.choose_result _ _
    | KEY_RIGHT => exact hready.choose_result _ _
    | K_ESC => exact hready
    | K_CTRL_X => exact hready
    | default => exact hready.typeCharacter env _

theorem live_start (env : Env R) (hstr : Hstr R) (history : HistoryItems)
    (historyState : HistoryState) (favoritesFile : Option (List Byte)) (maxy : ℤ) :
    Live (start env hstr history historyState favoritesFile maxy) := by
  unfold start
  simp only
  split
  · exact live_reprint env _
  · -- the first screen is laid out once more
    apply (live_print_selection env
      (recalculate (declared hstr history historyState favoritesFile maxy env.width)) none).congr
    · rw [firstScreen, recalculate_hstr, recalculate_selection]
    · intro line hline
      rw [firstScreen, recalculate_hstr, (SameQuery.recalculate _ _).source]
      exact hline

/-- **The box shows lines of the current view in every state of the loop**, and
nothing that was deleted from it, whatever the configuration and the keys. -/
theorem selection_live (env : Env R) (hstr : Hstr R) (history : HistoryItems)
    (historyState : HistoryState) (favoritesFile : Option (List Byte)) (maxy : ℤ)
    (events : List Event) :
    Always (step env) (fun s => ∀ line ∈ s.hstr.selection, line ∈ source s.hstr s.history)
      (start env hstr history historyState favoritesFile maxy) events :=
  always_of_step (I := Live) (fun _ e h => h.step env e)
    (live_start env hstr history historyState favoritesFile maxy) events

/-- The item under the cursor is one of the selected lines. -/
theorem mem_selection_of_current {s : LoopState R} {e : Event} {text : CString}
    (h : current s e = some text) : text ∈ s.hstr.selection := by
  unfold current getResultFromSelection at h
  simp only at h
  split at h
  · have hmem := List.mem_of_getElem? h
    rwa [ready_hstr, recalculate_selection] at hmem
  · cases h

theorem mem_source_of_current {s : LoopState R} (h : Live s) {e : Event} {text : CString}
    (htext : current s e = some text) : text ∈ source s.hstr s.history :=
  h text (mem_selection_of_current htext)

/-! ## The calls are about commands that are there -/

/-- The commands of the ranking and of the raw view. -/
def listed (history : HistoryItems) : List CString :=
  history.items ++ history.rawItems.map RawItem.text

/-- The call is about a command that its store has, and a favorite that is added
is a command of the history. -/
def Allowed (t : Storage) : Call → Prop
  | .favorites (.add newFavorite) => ∃ line ∈ listed t.history.history, newFavorite = some line
  | .favorites (.choose choice) => ∃ line ∈ t.favorites.favorites.items, choice = some line
  | .favorites (.remove almostDead) => ∃ line ∈ t.favorites.favorites.items, almostDead = some line
  | .delete almostDead _ => almostDead ∈ listed t.history.history
  | .cancel => True

/-- What is added to the favorites is a command of the history. -/
theorem mem_listed_of_mem_addedBy {t : Storage} {op : FavoritesOp} (hop : Allowed t (.favorites op))
    {c : CString} (hc : c ∈ addedBy op) : c ∈ listed t.history.history := by
  rcases op with (_ | d) | d | d
  · cases hc
  · obtain ⟨line, hline, heq⟩ := hop
    rw [List.mem_singleton.mp hc, Option.some.inj heq]
    exact hline
  · cases hc
  · cases hc

/-- A line of the view, by the store that has it. -/
theorem mem_source_of_shows {s : LoopState R} {t : Storage} (h : Shows s t) {line : CString}
    (hline : line ∈ source s.hstr s.history) :
    if s.hstr.view = .FAVORITES then line ∈ t.favorites.favorites.items
    else line ∈ listed t.history.history := by
  rw [← h.favorites, ← h.history]
  unfold source at hline
  cases hview : s.hstr.view with
  | HISTORY =>
      rw [hview] at hline
      exact List.mem_append_right _ hline
  | FAVORITES =>
      rw [hview] at hline
      exact hline
  | RANKING =>
      rw [hview] at hline
      exact List.mem_append_left _ hline

/-- **The loop asks for nothing that is not there**, since it shows nothing else. -/
theorem obeys_of_live {sh : Shell} {s : LoopState R} {t : Storage} (hlive : Live s)
    (hshows : Shows s t) (e : Event) : Obeys asks (storageStep sh) Allowed (s, t) e := by
  unfold Obeys asks
  simp only
  split
  · trivial
  · have hitem : ∀ text, current s e = some text →
        if s.hstr.view = .FAVORITES then text ∈ t.favorites.favorites.items
        else text ∈ listed t.history.history :=
      fun text htext => mem_source_of_shows hshows (mem_source_of_current hlive htext)
    have hchoice : Guarded (storageStep sh) Allowed t
        ((current s e).elim [] (choice s.hstr.view)) := by
      cases htext : current s e with
      | none => trivial
      | some text =>
          have htext' := hitem text htext
          simp only [Option.elim_some, choice]
          split
          · next hview =>
              rw [if_pos hview] at htext'
              exact ⟨⟨text, htext', rfl⟩, trivial⟩
          · trivial
    split
    · -- DEL
      cases htext : current s e with
      | none => trivial
      | some text =>
          have htext' := hitem text htext
          simp only [Option.elim_some, deletion, removal]
          split
          · split
            · next hview =>
                rw [if_pos hview] at htext'
                exact ⟨⟨text, htext', rfl⟩, trivial⟩
            · next hview =>
                rw [if_neg hview] at htext'
                exact ⟨htext', trivial⟩
          · trivial
    · -- Ctrl-f
      cases htext : current s e with
      | none => trivial
      | some text =>
          have htext' := hitem text htext
          simp only [Option.elim_some, addition]
          split
          · next hview =>
              rw [if_pos hview] at htext'
              exact ⟨⟨text, htext', rfl⟩, trivial⟩
          · next hview =>
              rw [if_neg hview] at htext'
              exact ⟨⟨text, htext', rfl⟩, trivial⟩
    · exact hchoice
    · exact hchoice
    · exact hchoice
    · exact ⟨trivial, trivial⟩
    · trivial

/-! ## What the stores keep -/

/-- The favorites and their file are as in `t₀`, or the file was saved since. -/
def FavoritesOnDisk (t₀ t : Storage) : Prop :=
  (t.favorites.file = t₀.favorites.file
      ∧ t.favorites.favorites.items = t₀.favorites.favorites.items)
    ∨ loadedLines false t.favorites.file = t.favorites.favorites.items

/-- The history file holds the lines of the list. -/
def Written (t : Storage) : Prop :=
  t.historyFile.lines = t.history.historyState.entries.filterMap HistEntry.line

/-- The history list and the history file are as in `t₀`, or the file was written
since. -/
def HistoryOnDisk (t₀ t : Storage) : Prop :=
  (t.historyFile = t₀.historyFile
      ∧ t.history.historyState.entries = t₀.history.historyState.entries)
    ∨ (t₀.historyFile.writes < t.historyFile.writes ∧ Written t)

/-- What the stores keep of `t₀`, the stores as they were loaded: the favorites are
distinct lines, the views have what they had without what was deleted, and both
files are what the lists are, once they are written. -/
structure Sound (t₀ t : Storage) : Prop where
  favorites : Distinct t.favorites
  favoritesOnDisk : FavoritesOnDisk t₀ t
  pruned : ∃ deleted,
    Pruned t₀.history.history ⟨t.history.history, t.history.historyState, deleted⟩
  rawItems : t.history.history.rawItems.Sublist t₀.history.history.rawItems
  entries : t.history.historyState.entries.Sublist t₀.history.historyState.entries
  newlineFree : ∀ r ∈ t.history.history.rawItems, NEWLINE ∉ r.text.bytes
  historyOnDisk : HistoryOnDisk t₀ t
  nonempty : ∀ e ∈ t.history.historyState.entries, ∃ l, e.line = some l ∧ strlen l ≠ 0

/-- A command of the views is in the raw view. -/
theorem Sound.mem_raw {t₀ t : Storage} (h : Sound t₀ t) {c : CString}
    (hc : c ∈ listed t.history.history) : c ∈ t.history.history.rawItems.map RawItem.text := by
  obtain ⟨deleted, hpruned⟩ := h.pruned
  rcases List.mem_append.mp hc with hc | hc
  · exact hpruned.rankedInRaw c hc
  · exact hc

/-- The commands of allowed calls hold no newline. -/
theorem Sound.newlineFree_of_allowed {t₀ t : Storage} (h : Sound t₀ t) {op : FavoritesOp}
    (hop : Allowed t (.favorites op)) : NewlineFree op := by
  cases op with
  | add newFavorite =>
      obtain ⟨line, hline, rfl⟩ := hop
      obtain ⟨r, hr, rfl⟩ := List.mem_map.mp (h.mem_raw hline)
      exact h.newlineFree r hr
  | choose choice =>
      obtain ⟨line, hline, rfl⟩ := hop
      exact h.favorites.newlineFree line hline
  | remove almostDead =>
      obtain ⟨line, hline, rfl⟩ := hop
      exact h.favorites.newlineFree line hline

/-- The deletion with the file is one step of the views. -/
theorem views_delete (sh : Shell) (t : Storage) (deleted : List CString) (c : CString)
    (beyond : Beyond) :
    (⟨(storageStep sh t (.delete c beyond)).history.history,
        (storageStep sh t (.delete c beyond)).history.historyState, c :: deleted⟩ : Views)
      = removeStep sh ⟨t.history.history, t.history.historyState, deleted⟩ ⟨c, beyond⟩ := by
  obtain ⟨hviews, -⟩ :=
    Sharing.removeFromHistoryFile_eq { sh with beyond } c t.history t.historyFile
  simp only [storageStep, removeStep]
  rw [← hviews]

/-- A deletion takes the command out of both views. -/
theorem views_delete_eq (sh : Shell) (t : Storage) (c : CString) (beyond : Beyond) :
    (storageStep sh t (.delete c beyond)).history.history.rawItems
        = t.history.history.rawItems.filter (fun r => decide (c ≠ r.text))
      ∧ (storageStep sh t (.delete c beyond)).history.history.items
        = t.history.history.items.filter (fun d => decide (c ≠ d)) := by
  obtain ⟨hraw, hitems, -⟩ :=
    removeStep_views sh ⟨t.history.history, t.history.historyState, []⟩ ⟨c, beyond⟩
  rw [← views_delete] at hraw hitems
  exact ⟨hraw, hitems⟩

/-- A deletion overwrites the file with the list, or it changes neither. -/
theorem written_or_same {sh : Shell} (hwrite : Overwrites sh.readline) (t : Storage) (c : CString)
    (beyond : Beyond) : HistoryOnDisk t (storageStep sh t (.delete c beyond)) := by
  obtain ⟨hentries, hcount⟩ :=
    history_mgmt_remove_from_system_history_eq { sh with beyond } c t.history.historyState
  simp only [HistoryOnDisk, storageStep, Sharing.removeFromHistoryFile, SystemHistory.remove]
  split
  · split
    · right
      exact ⟨Nat.lt_succ_self _, hwrite _⟩
    · next hnone =>
        -- nothing was found, so the list is as it was
        rw [not_not, hcount] at hnone
        left
        exact ⟨rfl, by rw [hentries, prune_eq_self hnone, List.reverse_reverse]⟩
  · exact Or.inl ⟨rfl, rfl⟩

theorem HistoryOnDisk.trans {t₀ t t' : Storage} (h : HistoryOnDisk t₀ t)
    (h' : HistoryOnDisk t t') : HistoryOnDisk t₀ t' := by
  rcases h' with ⟨hfile, hentries⟩ | ⟨hwrites, hlines⟩
  · unfold HistoryOnDisk Written
    rw [hfile, hentries]
    exact h
  · right
    refine ⟨?_, hlines⟩
    rcases h with ⟨hfile, -⟩ | ⟨hbefore, -⟩
    · rw [← hfile]
      exact hwrites
    · exact hbefore.trans hwrites

theorem HistoryOnDisk.written {t t' : Storage} (h : HistoryOnDisk t t') (hwritten : Written t) :
    Written t' := by
  rcases h with ⟨hfile, hentries⟩ | ⟨-, hlines⟩
  · unfold Written
    rw [hfile, hentries]
    exact hwritten
  · exact hlines

theorem entries_delete (sh : Shell) (t : Storage) (c : CString) (beyond : Beyond) :
    (storageStep sh t (.delete c beyond)).history.historyState.entries.Sublist
      t.history.historyState.entries := by
  have hsub := removeStep_entries_sublist sh ⟨t.history.history, t.history.historyState, []⟩
    ⟨c, beyond⟩
  rwa [← views_delete] at hsub

/-- The stores keep what they promise through the deletion of any command. -/
theorem Sound.deleted {sh : Shell} (hwrite : Overwrites sh.readline) {t₀ t : Storage}
    (h : Sound t₀ t) (c : CString) (beyond : Beyond) :
    Sound t₀ (Stores.storageStep sh t (.delete c beyond)) := by
  obtain ⟨deleted, hpruned⟩ := h.pruned
  obtain ⟨hraw, -⟩ := views_delete_eq sh t c beyond
  have hsub : (Stores.storageStep sh t (.delete c beyond)).history.history.rawItems.Sublist
      t.history.history.rawItems := by
    rw [hraw]
    exact List.filter_sublist
  refine ⟨h.favorites, h.favoritesOnDisk, ⟨c :: deleted, ?_⟩, hsub.trans h.rawItems,
    (entries_delete sh t c beyond).trans h.entries, fun r hr => h.newlineFree r (hsub.subset hr),
    h.historyOnDisk.trans (written_or_same hwrite t c beyond),
    fun e he => h.nonempty e ((entries_delete sh t c beyond).subset he)⟩
  rw [views_delete]
  exact hpruned.removeStep ⟨c, beyond⟩

/-- **The stores keep what they promise through every allowed call.** -/
theorem Sound.storageStep {sh : Shell} (hwrite : Overwrites sh.readline) {t₀ t : Storage}
    (h : Sound t₀ t) {k : Call} (hk : Allowed t k) : Sound t₀ (storageStep sh t k) := by
  cases k with
  | favorites op =>
      have hop := h.newlineFree_of_allowed hk
      refine ⟨h.favorites.favoritesStep hop, ?_, h.pruned, h.rawItems, h.entries, h.newlineFree,
        h.historyOnDisk, h.nonempty⟩
      rcases h.favorites.same_or_saved hop with ⟨hfile, hitems⟩ | hsaved
      · unfold FavoritesOnDisk Stores.storageStep
        rw [hfile, hitems]
        exact h.favoritesOnDisk
      · exact Or.inr hsaved
  | delete c beyond => exact h.deleted hwrite c beyond
  | cancel =>
      exact ⟨h.favorites, h.favoritesOnDisk, h.pruned, h.rawItems, h.entries, h.newlineFree,
        h.historyOnDisk, h.nonempty⟩

/-! ## What the views say about the list -/

/-- The raw view reads the commands of the history list, whose lines every copy
decodes alike. -/
structure Reads (sh : Shell) (t : Storage) : Prop where
  raw : List.Forall₂ (PointsTo sh t.history.history.unmetafiedItems) t.history.history.rawItems
    (commandEntries t.history.historyState.entries).reverse
  closed : ClosedEntries sh.isZsh t.history.historyState.entries

/-- The stores are coherent then. -/
theorem Reads.coherent {sh : Shell} {t₀ t : Storage} (h : Reads sh t) (hsound : Sound t₀ t) :
    ∃ deleted, Coherent sh t₀.history.history
      ⟨t.history.history, t.history.historyState, deleted⟩ := by
  obtain ⟨deleted, hpruned⟩ := hsound.pruned
  exact ⟨deleted, hpruned, h.raw⟩

theorem Reads.deleted {sh : Shell} {t₀ t : Storage} (h : Reads sh t) (hsound : Sound t₀ t)
    (c : CString) (beyond : Beyond) : Reads sh (Stores.storageStep sh t (.delete c beyond)) := by
  obtain ⟨deleted, hcoherent⟩ := h.coherent hsound
  have hafter := hcoherent.removeStep h.closed ⟨c, beyond⟩
  rw [← views_delete] at hafter
  exact ⟨hafter.raw, h.closed.sublist (entries_delete sh t c beyond)⟩

theorem Reads.storageStep {sh : Shell} {t₀ t : Storage} (h : Reads sh t) (hsound : Sound t₀ t)
    (k : Call) : Reads sh (storageStep sh t k) := by
  cases k with
  | favorites op => exact ⟨h.raw, h.closed⟩
  | delete c beyond => exact h.deleted hsound c beyond
  | cancel => exact ⟨h.raw, h.closed⟩

/-- The commands of the list after a deletion. -/
theorem Reads.commandEntries_delete {sh : Shell} {t₀ t : Storage} (h : Reads sh t)
    (hsound : Sound t₀ t) (c : CString) (beyond : Beyond) :
    commandEntries (Stores.storageStep sh t (.delete c beyond)).history.historyState.entries
      = (commandEntries t.history.historyState.entries).filter
        (fun e => decide (decodeEntry sh e ≠ c)) := by
  obtain ⟨deleted, hcoherent⟩ := h.coherent hsound
  have hcommands := hcoherent.commandEntries_removeStep h.closed ⟨c, beyond⟩
  rwa [← views_delete] at hcommands

/-- **A deletion takes the command out of everything, and nothing else**: the
ranking, the raw view and the commands of the history list are what they were
without it, the file is written from the list, and the flag is set. -/
theorem Reads.delete {sh : Shell} {t₀ t : Storage} (h : Reads sh t) (hsound : Sound t₀ t)
    {c : CString} (hc : c ∈ listed t.history.history) (beyond : Beyond) :
    let t' := Stores.storageStep sh t (.delete c beyond)
    t'.history.history.items = t.history.history.items.filter (fun d => decide (c ≠ d))
      ∧ t'.history.history.rawItems
        = t.history.history.rawItems.filter (fun r => decide (c ≠ r.text))
      ∧ commandEntries t'.history.historyState.entries
        = (commandEntries t.history.historyState.entries).filter
          (fun e => decide (decodeEntry sh e ≠ c))
      ∧ t'.historyFile = write_history sh.readline t'.history.historyState.entries t.historyFile
      ∧ t'.history.dirty = true := by
  obtain ⟨hraw, hitems⟩ := views_delete_eq sh t c beyond
  -- the raw view has the command, so an entry of the list reads as it
  have hfound : (history_mgmt_remove_from_raw c t.history.history).2 ≠ 0 := by
    rw [history_mgmt_remove_from_raw_count]
    intro h0
    exact List.countP_eq_zero.mp h0 c (hsound.mem_raw hc) (decide_eq_true rfl)
  have hoccurs : (history_mgmt_remove_from_system_history { sh with beyond } c
      t.history.historyState).2 ≠ 0 := by
    obtain ⟨r, hr, hrc⟩ := List.mem_map.mp (hsound.mem_raw hc)
    obtain ⟨entry, hentry, hpt⟩ := Lib.Results.exists_mem_left_of_forall₂ h.raw.flip hr
    rw [List.mem_reverse, commandEntries, List.mem_filter] at hentry
    rw [(history_mgmt_remove_from_system_history_eq { sh with beyond } c t.history.historyState).2]
    have hpos : 0 < t.history.historyState.entries.reverse.countP
        fun e => equalsCommand { sh with beyond } c e && !isTimestamp e := by
      rw [List.countP_pos_iff]
      refine ⟨entry, List.mem_reverse.mpr hentry.1, ?_⟩
      rw [equalsCommand_of_isCommand hentry.2, isTimestamp_of_isCommand hentry.2,
        decodeEntry_of_closed h.closed beyond hentry.1, ← hpt.1, hrc]
      simp
    exact (hpos.trans_le (countP_le_prune false _)).ne'
  refine ⟨hitems, hraw, h.commandEntries_delete hsound c beyond, ?_, ?_⟩
  · simp only [Stores.storageStep, Sharing.removeFromHistoryFile, SystemHistory.remove]
    rw [if_pos hfound, if_pos hoccurs]
  · simp only [Stores.storageStep, Sharing.removeFromHistoryFile, SystemHistory.remove]
    rw [if_pos hfound, if_pos hoccurs]

/-! ## A session from the files on -/

/-- hstr has loaded the two files through a library that reads and writes as it is
documented, and no command of the history holds a newline. -/
structure Loaded (env : Env R) (hstr : Hstr R) (reorderOnChoice skipComments : Bool)
    (favoritesFile : Option (List Byte)) (historyFile : HistoryFile)
    (session : Sharing.Session) : Prop where
  favorites : hstr.favorites
    = favorites_get { favorites_init with reorderOnChoice, skipComments } favoritesFile
  history : ∃ history_ranking_function optionBigKeys blacklist size,
    Sharing.load ⟨env.shell, history_ranking_function, optionBigKeys, blacklist⟩ size historyFile
      = some session
  reads : ReadsHistory env.shell.readline
  overwrites : Overwrites env.shell.readline
  newlineFree : ∀ r ∈ session.history.rawItems, NEWLINE ∉ r.text.bytes

theorem load_spec {env : Sharing.Env} {size : ℕ} {historyFile : HistoryFile}
    {session : Sharing.Session} (h : Sharing.load env size historyFile = some session) :
    session.historyState = read_history env.shell.readline size historyFile
      ∧ session.dirty = false
      ∧ prioritized_history_create env.shell env.history_ranking_function env.optionBigKeys
        env.blacklist (some session.historyState) = .ok (some session.history) := by
  rw [Sharing.load] at h
  split at h
  · next hcreate =>
      obtain rfl := Option.some.inj h
      exact ⟨rfl, rfl, hcreate⟩
  · cases h

theorem mem_entriesOf {lines : List CString} {entry : HistEntry} (h : entry ∈ entriesOf lines) :
    ∃ line ∈ lines, entry.line = some line := by
  obtain ⟨q, hq, rfl⟩ := List.mem_map.mp h
  exact ⟨q.1, List.fst_mem_of_mem_zipIdx hq, rfl⟩

/-- The lines of the list that was loaded. -/
theorem lines_of_load {env : Sharing.Env} {size : ℕ} {historyFile : HistoryFile}
    {session : Sharing.Session} (h : Sharing.load env size historyFile = some session) :
    session.historyState.entries.filterMap HistEntry.line
      = env.shell.readline.read_history historyFile.lines := by
  rw [(load_spec h).1]
  exact filterMap_line_entriesOf _

theorem nonempty_of_load {env : Sharing.Env} {size : ℕ} {historyFile : HistoryFile}
    {session : Sharing.Session} (h : Sharing.load env size historyFile = some session)
    (hread : ReadsHistory env.shell.readline) :
    ∀ e ∈ session.historyState.entries, ∃ l, e.line = some l ∧ strlen l ≠ 0 := by
  intro e he
  rw [(load_spec h).1] at he
  obtain ⟨line, hline, hl⟩ := mem_entriesOf he
  exact ⟨line, hl, strlen_of_mem_read_history hread hline⟩

/-- The raw view of a loaded history reads the commands of its lines. -/
theorem coherent_of_load {env : Sharing.Env} (hread : ReadsHistory env.shell.readline) {size : ℕ}
    {historyFile : HistoryFile} {session : Sharing.Session}
    (h : Sharing.load env size historyFile = some session) :
    Coherent env.shell session.history ⟨session.history, session.historyState, []⟩ := by
  obtain ⟨-, -, hcreate⟩ := load_spec h
  obtain ⟨hraw, hranked⟩ := prioritized_history_create_spec (nonempty_of_load h hread) hcreate
  exact ⟨⟨by simp, hranked, by simp⟩, hraw⟩

section Loaded

variable {env : Env R} {hstr : Hstr R} {reorderOnChoice skipComments : Bool}
  {favoritesFile : Option (List Byte)} {historyFile : HistoryFile} {session : Sharing.Session}

theorem sound_start
    (h : Loaded env hstr reorderOnChoice skipComments favoritesFile historyFile session) :
    Sound (stored hstr session.history session.historyState favoritesFile historyFile)
      (stored hstr session.history session.historyState favoritesFile historyFile) := by
  obtain ⟨f, bigKeys, blacklist, size, hload⟩ := h.history
  have hread : ReadsHistory env.shell.readline := h.reads
  have hnonempty := nonempty_of_load hload hread
  refine ⟨?_, Or.inl ⟨rfl, rfl⟩, ⟨[], (coherent_of_load hread hload).toPruned⟩,
    List.Sublist.refl _, List.Sublist.refl _, h.newlineFree, Or.inl ⟨rfl, rfl⟩, hnonempty⟩
  have hdistinct := distinct_startSession reorderOnChoice skipComments favoritesFile
  unfold startSession at hdistinct
  unfold stored
  rw [h.favorites]
  exact hdistinct

theorem reads_start
    (h : Loaded env hstr reorderOnChoice skipComments favoritesFile historyFile session)
    (hclosed : ClosedEntries env.shell.isZsh session.historyState.entries) :
    Reads env.shell
      (stored hstr session.history session.historyState favoritesFile historyFile) := by
  obtain ⟨f, bigKeys, blacklist, size, hload⟩ := h.history
  exact ⟨(coherent_of_load h.reads hload).raw, hclosed⟩

/-- **What the loop and its stores owe each other**, with a further property `J` of
the stores. No key is excluded. -/
theorem session_contract {env : Env R} (hwrite : Overwrites env.shell.readline) {t₀ : Storage}
    {J : Storage → Prop}
    (hJ : ∀ t k, Sound t₀ t → J t → Allowed t k → J (storageStep env.shell t k)) :
    Contract (step env) asks (storageStep env.shell) Live Shows (fun t => Sound t₀ t ∧ J t)
      (fun _ _ => True) Allowed where
  client := fun _ e hlive _ => hlive.step env e
  follows := follows_stores env
  store := fun t k h hk => ⟨h.1.storageStep hwrite hk, hJ t k h.1 h.2 hk⟩
  obeys := fun _ _ e hlive hshows _ _ => obeys_of_live hlive hshows e

/-- In every state of every session from loaded files. -/
theorem session_always {J : Storage → Prop}
    (h : Loaded env hstr reorderOnChoice skipComments favoritesFile historyFile session)
    (maxy : ℤ) (events : List Event) :
    let t₀ := stored hstr session.history session.historyState favoritesFile historyFile
    (∀ t k, Sound t₀ t → J t → Allowed t k → J (storageStep env.shell t k)) → J t₀ →
    Always (through (step env) asks (storageStep env.shell))
      (fun p => Live p.1 ∧ Shows p.1 p.2 ∧ Sound t₀ p.2 ∧ J p.2)
      (start env hstr session.history session.historyState favoritesFile maxy, t₀) events :=
  fun hJ hstart => (session_contract h.overwrites hJ).always (live_start env hstr _ _ _ maxy)
    (shows_start env hstr _ _ _ maxy historyFile) ⟨sound_start h, hstart⟩
    (guarded_of_forall_mem fun _ _ _ => trivial)

/-- The same where every copy of a line decodes alike: the views read the list. -/
theorem session_reads
    (h : Loaded env hstr reorderOnChoice skipComments favoritesFile historyFile session)
    (hclosed : ClosedEntries env.shell.isZsh session.historyState.entries) (maxy : ℤ)
    (events : List Event) :
    let t₀ := stored hstr session.history session.historyState favoritesFile historyFile
    Always (through (step env) asks (storageStep env.shell))
      (fun p => Live p.1 ∧ Shows p.1 p.2 ∧ Sound t₀ p.2 ∧ Reads env.shell p.2)
      (start env hstr session.history session.historyState favoritesFile maxy, t₀) events :=
  session_always h maxy events (fun _ k hsound hreads _ => hreads.storageStep hsound k)
    (reads_start h hclosed)

end Loaded

/-- A history file with two commands. -/
def plainHistory : HistoryFile := ⟨[lit "git", lit "make"], 0⟩

/-- What hstr loads from it under a ranking by everything. -/
def plainSession : Sharing.Session where
  history := ⟨[lit "make", lit "git"], [⟨.line 1, lit "make"⟩, ⟨.line 0, lit "git"⟩], []⟩
  historyState := read_history gnuReadline 502 plainHistory
  dirty := false

def plainFavorites : List Byte := (lit "cd\nmake\ncd\n").bytes

/-- The box with the favorites from a file. -/
def plainHstr : Hstr (CString × Bool) :=
  { hstr_init zeroed with favorites := favorites_get favorites_init (some plainFavorites) }

theorem plainLoaded :
    Loaded plainEnv plainHstr true false (some plainFavorites) plainHistory plainSession where
  favorites := rfl
  history := ⟨fun rank index length => rank + index + length, .SKIP, Hashset.hashset_init, 502, rfl⟩
  reads := gnuReadline_readsHistory
  overwrites := gnuReadline_overwrites
  newlineFree := by decide

/-! ## The favorites -/

/-- **The favorites are on disk in every state of the loop**, each once and in the
order of the list, where comments are not skipped: whatever keys were pressed, a
fresh `favorites_get` on the file as it is gives the list in memory. -/
theorem favorites_on_disk {env : Env R} {hstr : Hstr R} {reorderOnChoice : Bool}
    {favoritesFile : Option (List Byte)} {historyFile : HistoryFile} {session : Sharing.Session}
    (h : Loaded env hstr reorderOnChoice false favoritesFile historyFile session) (maxy : ℤ)
    (events : List Event) :
    Always (step env)
      (fun s => s.hstr.favorites.items.Nodup
        ∧ (favorites_get { favorites_init with reorderOnChoice } s.favoritesFile).items
          = s.hstr.favorites.items)
      (start env hstr session.history session.historyState favoritesFile maxy) events := by
  have hget : ∀ file, (favorites_get { favorites_init with reorderOnChoice } file).items
      = loadedLines false file := fun file =>
    (favorites_get_spec { favorites_init with reorderOnChoice } rfl rfl (fun _ => rfl) file).1
  have hboth : Always (through (step env) asks (storageStep env.shell))
      (fun p => p.1.hstr.favorites.items.Nodup
        ∧ (favorites_get { favorites_init with reorderOnChoice } p.1.favoritesFile).items
          = p.1.hstr.favorites.items)
      (start env hstr session.history session.historyState favoritesFile maxy,
        stored hstr session.history session.historyState favoritesFile historyFile) events := by
    refine (session_always (J := fun _ => True) h maxy events (fun _ _ _ _ _ => trivial)
      trivial).mono fun p hp => ?_
    obtain ⟨-, hshows, hsound, -⟩ := hp
    rw [hshows.favorites, hshows.favoritesFile, hget]
    refine ⟨hsound.favorites.nodup, ?_⟩
    rcases hsound.favoritesOnDisk with ⟨hfile, hitems⟩ | hsaved
    · -- the file as it was loaded
      rw [hfile, hitems]
      show loadedLines false favoritesFile = hstr.favorites.items
      rw [h.favorites]
      exact (hget favoritesFile).symm
    · exact hsaved
  -- the stores are no part of the statement
  exact always_of_through hboth

/-- `git` is made a favorite, and `make` is taken from the favorites view. -/
theorem favorites_on_disk_plain :
    Always (step plainEnv)
      (fun s => s.hstr.favorites.items.Nodup
        ∧ (favorites_get { favorites_init with reorderOnChoice := true } s.favoritesFile).items
          = s.hstr.favorites.items)
      (start plainEnv plainHstr plainSession.history plainSession.historyState
        (some plainFavorites) 24)
      [press KEY_DOWN 0 24, press K_CTRL_F 0 24, press K_CTRL_SLASH 0 24, press K_CTRL_SLASH 0 24,
        press KEY_UP 0 24, press K_ENTER 0 24] :=
  favorites_on_disk plainLoaded 24 _

/-! ## The history -/

/-- The commands of the lines of a history file, which every copy decodes alike. -/
def commandsOf (isZsh : Bool) (lines : List CString) : List CString :=
  (lines.filter isCommandLine).map (decode isZsh [])

theorem commandsOf_append (isZsh : Bool) (lines more : List CString) :
    commandsOf isZsh (lines ++ more) = commandsOf isZsh lines ++ commandsOf isZsh more := by
  rw [commandsOf, List.filter_append, List.map_append, commandsOf, commandsOf]

theorem commandsOf_sublist (isZsh : Bool) {lines lines' : List CString}
    (h : lines.Sublist lines') : (commandsOf isZsh lines).Sublist (commandsOf isZsh lines') :=
  (h.filter isCommandLine).map (decode isZsh [])

/-- The commands of a list are a matter of its lines. -/
theorem map_decodeEntry_commandEntries {sh : Shell} {entries : List HistEntry}
    (h : ClosedEntries sh.isZsh entries) :
    (commandEntries entries).map (decodeEntry sh)
      = commandsOf sh.isZsh (entries.filterMap HistEntry.line) := by
  induction entries with
  | nil => rfl
  | cons entry entries ih =>
      have hrest := ih (h.sublist (List.sublist_cons_self entry entries))
      rw [commandEntries, List.filter_cons, List.filterMap_cons]
      cases hline : entry.line with
      | none =>
          have hcmd : isCommand entry = false := by simp [isCommand, hline]
          rw [if_neg (by simp [hcmd])]
          exact hrest
      | some line =>
          have hcmd : isCommand entry = isCommandLine line := by
            simp [isCommand, isCommandLine, hline]
          simp only [commandsOf, List.filter_cons, hcmd]
          split
          · rw [List.map_cons, List.map_cons, decodeEntry, hline, Option.map_some,
              Option.getD_some, decode_of_closed (h entry List.mem_cons_self line hline) _ []]
            exact congrArg (decode sh.isZsh [] line :: ·) hrest
          · exact hrest

/-- The raw view reads the commands of the lines of the list, the newest first. -/
theorem map_text_eq_commandsOf {sh : Shell} {copies : List CString} {rawItems : List RawItem}
    {entries : List HistEntry}
    (hraw : List.Forall₂ (PointsTo sh copies) rawItems (commandEntries entries).reverse)
    (hclosed : ClosedEntries sh.isZsh entries) :
    rawItems.map RawItem.text
      = (commandsOf sh.isZsh (entries.filterMap HistEntry.line)).reverse := by
  rw [map_text_of_pointsTo hraw, List.map_reverse, map_decodeEntry_commandEntries hclosed]

theorem closedEntries_of_lines {isZsh : Bool} {entries entries' : List HistEntry}
    (h : ClosedEntries isZsh entries)
    (hlines : entries'.filterMap HistEntry.line = entries.filterMap HistEntry.line) :
    ClosedEntries isZsh entries' := by
  intro e' he' line hline
  have hmem : line ∈ entries.filterMap HistEntry.line := by
    rw [← hlines]
    exact List.mem_filterMap.mpr ⟨e', he', hline⟩
  obtain ⟨e, he, hl⟩ := List.mem_filterMap.mp hmem
  exact h e he line hl

/-- hstr starts anew on the file and finds the lines of the list `entries` in it: as
the file was loaded, or as it was written, unless its first line looks like a
timestamp of readline. -/
theorem lines_of_reload {env env' : Sharing.Env} {size size' : ℕ} {loaded written : HistoryFile}
    {session session' : Sharing.Session} {entries : List HistEntry}
    (hread : ReadsHistory env.shell.readline) (hlib : env'.shell.readline = env.shell.readline)
    (h : Sharing.load env size loaded = some session)
    (h' : Sharing.load env' size' written = some session')
    (hreturn : ∀ line ∈ loaded.lines, line.bytes.getLast? ≠ some CARRIAGE_RETURN)
    (hsub : entries.Sublist session.historyState.entries)
    (hdisk : (written = loaded ∧ entries = session.historyState.entries)
      ∨ (written.lines = entries.filterMap HistEntry.line ∧ isStamped written.lines = false)) :
    session'.historyState.entries.filterMap HistEntry.line
      = entries.filterMap HistEntry.line := by
  rw [lines_of_load h', hlib]
  rcases hdisk with ⟨rfl, rfl⟩ | ⟨hlines, hstamped⟩
  · rw [lines_of_load h]
  · -- the lines of the list were read once
    have hkept : (entries.filterMap HistEntry.line).Sublist
        (env.shell.readline.read_history loaded.lines) := by
      rw [← lines_of_load h]
      exact hsub.filterMap HistEntry.line
    rw [hlines] at hstamped ⊢
    exact read_history_of_plain hread {
      not_empty := fun line hline => strlen_of_mem_read_history hread (hkept.subset hline)
      not_return := fun line hline =>
        hreturn line ((read_history_sublist hread hreturn).subset (hkept.subset hline))
      not_stamped := hstamped }

/-- **The views, the history list and the history file are in step in every state
of the loop**, for lines that every copy decodes alike and that do not end in a
carriage return. The raw view reads the commands of the list, the newest first, and
points to nothing that was freed; the ranking has nothing else; the file holds the
lines of the list once it is written; and hstr started anew on the file, however it
ranks, would show the same raw view, unless the file was written and its first line
looks like a timestamp of readline. -/
theorem history_on_disk {env : Env R} {hstr : Hstr R} {reorderOnChoice skipComments : Bool}
    {favoritesFile : Option (List Byte)} {historyFile : HistoryFile} {session : Sharing.Session}
    (h : Loaded env hstr reorderOnChoice skipComments favoritesFile historyFile session)
    (hclosed : ClosedEntries env.shell.isZsh session.historyState.entries)
    (hreturn : ∀ line ∈ historyFile.lines, line.bytes.getLast? ≠ some CARRIAGE_RETURN) (maxy : ℤ)
    (events : List Event) :
    Always (through (step env) asks (storageStep env.shell))
      (fun p =>
        List.Forall₂ (PointsTo env.shell p.1.history.unmetafiedItems) p.1.history.rawItems
            (commandEntries p.1.historyState.entries).reverse
          ∧ (∀ r ∈ p.1.history.rawItems, ∀ id, r.source = .line id →
            id ∈ p.1.historyState.entries.map HistEntry.id)
          ∧ (∀ c ∈ p.1.history.items, c ∈ p.1.history.rawItems.map RawItem.text)
          ∧ ((p.2.historyFile = historyFile
              ∧ p.1.historyState.entries = session.historyState.entries)
            ∨ p.2.historyFile.lines = p.1.historyState.entries.filterMap HistEntry.line)
          ∧ ∀ env' size session', env'.shell.isZsh = env.shell.isZsh →
            env'.shell.readline = env.shell.readline →
            Sharing.load env' size p.2.historyFile = some session' →
            p.2.historyFile = historyFile ∨ isStamped p.2.historyFile.lines = false →
            session'.history.rawItems.map RawItem.text = p.1.history.rawItems.map RawItem.text)
      (start env hstr session.history session.historyState favoritesFile maxy,
        stored hstr session.history session.historyState favoritesFile historyFile) events := by
  refine (session_reads h hclosed maxy events).mono fun p hp => ?_
  obtain ⟨-, hshows, hsound, hreads⟩ := hp
  obtain ⟨deleted, hcoherent⟩ := hreads.coherent hsound
  have hhistory : p.1.history = p.2.history.history :=
    congrArg Sharing.Session.history hshows.history
  have hstate : p.1.historyState = p.2.history.historyState :=
    congrArg Sharing.Session.historyState hshows.history
  rw [hhistory, hstate]
  refine ⟨hcoherent.raw, fun r hr id hid => hcoherent.source_mem hr hid, hcoherent.rankedInRaw,
    hsound.historyOnDisk.imp_right And.right, ?_⟩
  intro env' size session' hzsh hlib hload hfirst
  obtain ⟨f, bigKeys, blacklist, size₀, hload₀⟩ := h.history
  have hlines := lines_of_reload h.reads hlib hload₀ hload hreturn hsound.entries (by
    rcases hsound.historyOnDisk with hsame | ⟨hwrites, hwritten⟩
    · exact Or.inl hsame
    · -- a file that was written is not the one that was loaded
      rcases hfirst with hfile | hstamped
      · rw [hfile] at hwrites
        exact absurd hwrites (lt_irrefl _)
      · exact Or.inr ⟨hwritten, hstamped⟩)
  have hread : ReadsHistory env'.shell.readline := hlib ▸ h.reads
  have hclosed' := closedEntries_of_lines hreads.closed hlines
  rw [map_text_eq_commandsOf (coherent_of_load hread hload).raw (hzsh ▸ hclosed'), hzsh, hlines,
    map_text_eq_commandsOf hreads.raw hreads.closed]

/-- `git` is deleted. -/
theorem history_on_disk_plain :
    Always (through (step plainEnv) asks (storageStep plainEnv.shell))
      (fun p =>
        List.Forall₂ (PointsTo plainEnv.shell p.1.history.unmetafiedItems) p.1.history.rawItems
            (commandEntries p.1.historyState.entries).reverse
          ∧ (∀ r ∈ p.1.history.rawItems, ∀ id, r.source = .line id →
            id ∈ p.1.historyState.entries.map HistEntry.id)
          ∧ (∀ c ∈ p.1.history.items, c ∈ p.1.history.rawItems.map RawItem.text)
          ∧ ((p.2.historyFile = plainHistory
              ∧ p.1.historyState.entries = plainSession.historyState.entries)
            ∨ p.2.historyFile.lines = p.1.historyState.entries.filterMap HistEntry.line)
          ∧ ∀ env' size session', env'.shell.isZsh = plainEnv.shell.isZsh →
            env'.shell.readline = plainEnv.shell.readline →
            Sharing.load env' size p.2.historyFile = some session' →
            p.2.historyFile = plainHistory ∨ isStamped p.2.historyFile.lines = false →
            session'.history.rawItems.map RawItem.text = p.1.history.rawItems.map RawItem.text)
      (start plainEnv plainHstr plainSession.history plainSession.historyState
          (some plainFavorites) 24,
        stored plainHstr plainSession.history plainSession.historyState (some plainFavorites)
          plainHistory)
      [press KEY_DOWN 0 24, press KEY_DC 121 24] :=
  history_on_disk plainLoaded (closedEntries_of_not_zsh rfl _)
    (by decide) 24 _

/-! ## Deletions -/

/-- The user presses DEL on `almostDead` and confirms, where that is asked. -/
def Deletes (s : LoopState R) (e : Event) (almostDead : CString) : Prop :=
  s.done = false ∧ e.c = KEY_DC ∧ current s e = some almostDead
    ∧ (s.hstr.noConfirm = true ∨ e.cc = 121)

theorem asks_of_deletes {s : LoopState R} {e : Event} {almostDead : CString}
    (h : Deletes s e almostDead) : asks s e = [removal s.hstr.view almostDead e.beyond] := by
  obtain ⟨hrun, hkey, hcurrent, hconfirmed⟩ := h
  have hcase : keyCase (keyOf s e) = .KEY_DC := by
    rw [keyOf_eq s (by rw [hkey]; decide), hkey]
    decide
  rw [asks, if_neg (by simp [hrun]), hcase, hcurrent]
  simp only [Option.elim_some, deletion]
  rw [if_pos hconfirmed]

/-- A deletion stays in its view. -/
theorem view_of_deletes {env : Env R} {s : LoopState R} {e : Event} {almostDead : CString}
    (h : Deletes s e almostDead) : (step env s e).hstr.view = s.hstr.view := by
  obtain ⟨hrun, hkey, hcurrent, -⟩ := h
  have hcase : keyCase (keyOf s e) = .KEY_DC := by
    rw [keyOf_eq s (by rw [hkey]; decide), hkey]
    decide
  rw [step_of_not_done hrun, handle, hcase]
  simp only
  unfold Loop.deleteItem
  rw [current_eq, hcurrent]
  simp only [keepOnSelectionRow, highlight_selection, deleteConfirmed]
  have hasked : (confirmDelete (ready s e) e almostDead).hstr.view = s.hstr.view := by
    rw [confirmDelete_eq, ready_hstr, recalculate_view]
  split
  · have hremoved : ∀ (t : LoopState R) (c : CString) (beyond : Beyond),
        (remove_from_history_model env t c beyond).1.hstr.view = t.hstr.view := by
      intro t c beyond
      unfold remove_from_history_model
      split <;> rfl
    have hprinted : ∀ t : LoopState R, (reprint env t).hstr.view = t.hstr.view := by
      intro t
      show (hstr_print_selection env t (some t.pattern)).1.hstr.view = t.hstr.view
      rw [hstr_print_selection_hstr, recalculate_view]
      rfl
    rw [hprinted, hremoved, hasked]
  · exact hasked

/-- **What a confirmed deletion does**, to the box, to the stores and to the files.
It was about a line of the view, and takes it out of the view and off the screen.
In the favorites view, the favorite goes and the history stays as it is. In the
other views the command goes from both of them and from the commands of the
history list, the file is written and the flag is set, all other commands stay,
and the favorites are as they were. -/
def DeletionTakesEffect (env : Env R) (p : LoopState R × Storage) (e : Event) : Prop :=
  ∀ c, Deletes p.1 e c →
    let q := through (step env) asks (storageStep env.shell) p e
    c ∈ source p.1.hstr p.1.history
      ∧ c ∉ source q.1.hstr q.1.history ∧ c ∉ q.1.hstr.selection
      ∧ if p.1.hstr.view = .FAVORITES then
          q.1.hstr.favorites.items = p.1.hstr.favorites.items.erase c
            ∧ c ∉ loadedLines false q.1.favoritesFile
            ∧ q.2.history = p.2.history ∧ q.2.historyFile = p.2.historyFile
        else
          q.1.history.items = p.1.history.items.filter (fun d => decide (c ≠ d))
            ∧ q.1.history.rawItems = p.1.history.rawItems.filter (fun r => decide (c ≠ r.text))
            ∧ commandEntries q.1.historyState.entries
              = (commandEntries p.1.historyState.entries).filter
                (fun entry => decide (decodeEntry env.shell entry ≠ c))
            ∧ q.2.historyFile
              = write_history env.shell.readline q.1.historyState.entries p.2.historyFile
            ∧ q.1.dirty = true ∧ q.2.favorites = p.2.favorites

theorem deletionTakesEffect {env : Env R} {t₀ : Storage} {p : LoopState R × Storage}
    (hlive : Live p.1) (hshows : Shows p.1 p.2) (hsound : Sound t₀ p.2)
    (hreads : Reads env.shell p.2) (e : Event) : DeletionTakesEffect env p e := by
  intro c hdeletes q
  have hlive' : Live q.1 := hlive.step env e
  have hshows' : Shows q.1 q.2 := shows_step env p.1 p.2 e hshows
  have hview : q.1.hstr.view = p.1.hstr.view := view_of_deletes hdeletes
  have hq : q.2 = storageStep env.shell p.2 (removal p.1.hstr.view c e.beyond) := by
    show run (storageStep env.shell) p.2 (asks p.1 e) = _
    rw [asks_of_deletes hdeletes, run_cons, run_nil]
  have hhistory : q.1.history = q.2.history.history :=
    congrArg Sharing.Session.history hshows'.history
  have hsource := mem_source_of_current hlive hdeletes.2.2.1
  have hmem := mem_source_of_shows hshows hsource
  -- what is no line of the view is not selected
  have hgone : c ∉ source q.1.hstr q.1.history →
      c ∉ source q.1.hstr q.1.history ∧ c ∉ q.1.hstr.selection :=
    fun hnot => ⟨hnot, fun hsel => hnot (hlive' c hsel)⟩
  refine ⟨hsource, ?_⟩
  rw [← and_assoc]
  by_cases hfavorites : p.1.hstr.view = .FAVORITES
  · rw [if_pos hfavorites] at hmem ⊢
    have hcall : removal p.1.hstr.view c e.beyond = .favorites (.remove (some c)) :=
      if_pos hfavorites
    rw [hcall] at hq
    have hitems : q.1.hstr.favorites.items = p.1.hstr.favorites.items.erase c := by
      rw [hshows'.favorites, hq, hshows.favorites]
      exact (favoritesStep_spec p.2.favorites (.remove (some c))).1
    have hnot : c ∉ q.1.hstr.favorites.items := by
      rw [hitems, hshows.favorites]
      exact hsound.favorites.nodup.not_mem_erase
    -- the favorite was in the list, so the file was saved
    have hsaved : loadedLines false q.2.favorites.file = q.2.favorites.favorites.items := by
      rw [hq]
      have hfree : NewlineFree (.remove (some c)) := hsound.favorites.newlineFree c hmem
      exact hsound.favorites.saved_of_changes hfree hmem
    refine ⟨hgone ?_, hitems, ?_, by rw [hq]; rfl, by rw [hq]; rfl⟩
    · unfold source
      rw [hview, hfavorites]
      exact hnot
    · rw [hshows'.favoritesFile, hsaved, ← hshows'.favorites]
      exact hnot
  · rw [if_neg hfavorites] at hmem ⊢
    have hcall : removal p.1.hstr.view c e.beyond = .delete c e.beyond := if_neg hfavorites
    rw [hcall] at hq
    obtain ⟨hitems, hraw, hcommands, hfile, hdirty⟩ := hreads.delete hsound hmem e.beyond
    rw [← hq] at hitems hraw hcommands hfile hdirty
    have hbefore : p.1.history = p.2.history.history :=
      congrArg Sharing.Session.history hshows.history
    have hstate : p.1.historyState = p.2.history.historyState :=
      congrArg Sharing.Session.historyState hshows.history
    have hstate' : q.1.historyState = q.2.history.historyState :=
      congrArg Sharing.Session.historyState hshows'.history
    have hdirty' : q.1.dirty = q.2.history.dirty :=
      congrArg Sharing.Session.dirty hshows'.history
    rw [← hhistory, ← hbefore] at hitems hraw
    rw [← hstate, ← hstate'] at hcommands
    rw [← hstate'] at hfile
    rw [← hdirty'] at hdirty
    refine ⟨hgone ?_, hitems, hraw, hcommands, hfile, hdirty, by rw [hq]; rfl⟩
    unfold source
    rw [hview]
    cases hv : p.1.hstr.view with
    | HISTORY =>
        simp only [hraw]
        intro hc
        obtain ⟨r, hr, hrc⟩ := List.mem_map.mp hc
        have hne := (List.mem_filter.mp hr).2
        rw [decide_eq_true_eq] at hne
        exact hne hrc.symm
    | FAVORITES => exact absurd hv hfavorites
    | RANKING =>
        simp only [hitems]
        intro hc
        have hne := (List.mem_filter.mp hc).2
        rw [decide_eq_true_eq] at hne
        exact hne rfl

/-- **A confirmed deletion always takes effect**, in every state the loop reaches
from loaded files with lines that every copy decodes alike. -/
theorem deletion_takes_effect {env : Env R} {hstr : Hstr R} {reorderOnChoice skipComments : Bool}
    {favoritesFile : Option (List Byte)} {historyFile : HistoryFile} {session : Sharing.Session}
    (h : Loaded env hstr reorderOnChoice skipComments favoritesFile historyFile session)
    (hclosed : ClosedEntries env.shell.isZsh session.historyState.entries) (maxy : ℤ)
    (events : List Event) :
    Guarded (through (step env) asks (storageStep env.shell)) (DeletionTakesEffect env)
      (start env hstr session.history session.historyState favoritesFile maxy,
        stored hstr session.history session.historyState favoritesFile historyFile) events :=
  (session_contract h.overwrites fun _ k hsound hreads _ => Reads.storageStep hreads hsound k).guarded
    (fun _ e hlive hshows hstores _ =>
      deletionTakesEffect hlive hshows hstores.1 hstores.2 e)
    (live_start env hstr _ _ _ maxy) (shows_start env hstr _ _ _ maxy historyFile)
    ⟨sound_start h, reads_start h hclosed⟩ (guarded_of_forall_mem fun _ _ _ => trivial)

/-- A command is deleted from the ranking, and a favorite from the favorites. -/
theorem deletion_takes_effect_plain :
    Guarded (through (step plainEnv) asks (storageStep plainEnv.shell))
      (DeletionTakesEffect plainEnv)
      (start plainEnv plainHstr plainSession.history plainSession.historyState
          (some plainFavorites) 24,
        stored plainHstr plainSession.history plainSession.historyState (some plainFavorites)
          plainHistory)
      [press KEY_DOWN 0 24, press KEY_DC 121 24, press K_CTRL_SLASH 0 24, press K_CTRL_SLASH 0 24,
        press KEY_DOWN 0 24, press KEY_DC 121 24] :=
  deletion_takes_effect plainLoaded (closedEntries_of_not_zsh rfl _) 24 _

end Hstr.Session
