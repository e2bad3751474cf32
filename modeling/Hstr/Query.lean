/-
The list on the screen against the query.

Every handler of `loop_to_select` that changes the query (the pattern, the view,
the matching, the case mode, the history or the favorites) has to select again.
Two of them change the pattern and do not: Ctrl-u with Ctrl-w, and Ctrl-l. All
others keep the selection the one that `hstr_make_selection` computes from the
current state, so it is a false answer only behind one of these two.
-/
import Hstr.Loop

set_option autoImplicit false

namespace Hstr.Query

open Lib.Runs Hstr.Strings Hstr.Utils Hstr.Radixsort Hstr.History Hstr.Blacklist Hstr.Favorites
open Hstr.Regexp Hstr.Selection Hstr.Box Hstr.Loop

variable {R : Type}

/-- While the loop runs, the selection answers the current query. -/
def Answering (env : Env R) (s : LoopState R) : Prop :=
  s.done = false → Answers env.lib s.hstr s.pattern s.history

/-- ENTER with the cursor in the prompt chooses the first line of the answer to
the current query. -/
def EnterChoosesFirst (env : Env R) (s : LoopState R) (e : Event) : Prop :=
  s.done = false → e.c = K_ENTER ∨ e.c = KEY_ENTER →
    s.selectionCursorPosition = SELECTION_CURSOR_IN_PROMPT →
    ∀ line, (selectionOf env.lib s.hstr s.pattern s.history s.hstr.selectionCapacity).head?
        = some line → (step env s e).result = some line

/-- The key does not change the pattern behind the selection's back: Ctrl-u and
Ctrl-w find an empty pattern, and Ctrl-l one without letters to toggle, or a
search that ignores case. -/
def KeepsQuery (s : LoopState R) (e : Event) : Prop :=
  (e.c = K_CTRL_W ∨ e.c = K_CTRL_U → s.pattern = empty)
    ∧ (e.c = K_CTRL_L → toggle_case s.pattern s.lowercase = s.pattern
      ∨ s.hstr.caseSensitive = HSTR_CASE_INSENSITIVE ∧ s.hstr.matching ≠ .REGEXP)

instance (s : LoopState R) (e : Event) : Decidable (KeepsQuery s e) := by
  unfold KeepsQuery
  infer_instance

/-! ## The handlers -/

/-- Laying out again does not make an answer false. -/
theorem answers_recalculate {lib : RegexLib R} {hstr : Hstr R} {pattern : CString}
    {history : HistoryItems} (h : Answers lib hstr pattern history) (n : ℤ) :
    Answers lib (recalculate_max_history_items n hstr) pattern history :=
  h.congr (SameQuery.recalculate n hstr) (recalculate_selection n hstr)
    (recalculate_selectionCapacity n hstr) (recalculate_regexp n hstr)

/-- **Printing the selection answers the query**, whatever the state was. -/
theorem answers_reprint (env : Env R) (s : LoopState R) :
    Answers env.lib (reprint env s).hstr (reprint env s).pattern (reprint env s).history :=
  answers_recalculate (answers_make_selection env.lib s.hstr s.pattern s.history _) s.maxy

theorem answers_deleteItem (env : Env R) {s : LoopState R} (e : Event)
    (h : Answers env.lib s.hstr s.pattern s.history) :
    Answers env.lib (deleteItem env s e).hstr (deleteItem env s e).pattern
      (deleteItem env s e).history := by
  have hasked : ∀ msg, Answers env.lib (confirmDelete s e msg).hstr (confirmDelete s e msg).pattern
      (confirmDelete s e msg).history := by
    intro msg
    rw [confirmDelete_eq]
    exact h
  unfold deleteItem
  cases getResultFromSelection s.hstr s.selectionCursorPosition with
  | none => exact h
  | some msg =>
      -- the cursor and the highlighted row are no part of the query
      simp only [keepOnSelectionRow, highlight_selection, deleteConfirmed]
      split
      · exact answers_reprint env _
      · exact hasked msg

theorem answers_addFavorite (env : Env R) {s : LoopState R}
    (h : Answers env.lib s.hstr s.pattern s.history) :
    Answers env.lib (addFavorite env s).hstr (addFavorite env s).pattern
      (addFavorite env s).history := by
  unfold addFavorite
  cases getResultFromSelection s.hstr s.selectionCursorPosition with
  | none => exact h
  | some favorite => exact answers_reprint env _

theorem answers_typeCharacter (env : Env R) {s : LoopState R} (c : ℤ)
    (h : Answers env.lib s.hstr s.pattern s.history) :
    Answers env.lib (typeCharacter env s c).hstr (typeCharacter env s c).pattern
      (typeCharacter env s c).history := by
  unfold typeCharacter
  split
  · exact answers_reprint env _
  · exact h

/-- Toggling the case of the letters keeps an answer under the guard. -/
theorem answers_toggle_case {lib : RegexLib R} {hstr : Hstr R} {pattern : CString}
    {history : HistoryItems} {lowercase : Bool} (h : Answers lib hstr pattern history)
    (hkeep : toggle_case pattern lowercase = pattern
      ∨ hstr.caseSensitive = HSTR_CASE_INSENSITIVE ∧ hstr.matching ≠ .REGEXP) :
    Answers lib hstr (toggle_case pattern lowercase) history := by
  rcases hkeep with heq | ⟨hcase, hmatch⟩
  · rw [heq]
    exact h
  · exact h.sameLetters hcase hmatch (map_tolower_toggle_case pattern lowercase)

/-- A round that meets the guard leaves the selection an answer, unless it ends
the loop. -/
theorem answering_step (env : Env R) {s : LoopState R} (e : Event) (h : Answering env s)
    (hkeep : KeepsQuery s e) : Answering env (step env s e) := by
  by_cases hdone : s.done = true
  · rw [step_of_done hdone]
    exact h
  · have hrun : s.done = false := by simpa using hdone
    rw [step_of_not_done hrun]
    have hready : Answers env.lib (ready s e).hstr (ready s e).pattern (ready s e).history := by
      rw [ready_hstr, ready_pattern, ready_history]
      exact answers_recalculate (h hrun) s.maxy
    -- one case for each key: it prints the selection, or it leaves the query alone
    unfold handle
    cases hkey : keyCase (keyOf s e) with
    | KEY_END => exact fun _ => hready
    | KEY_DC => exact fun _ => answers_deleteItem env e hready
    | K_CTRL_E => exact fun _ => answers_reprint env _
    | K_CTRL_T => exact fun _ => answers_reprint env _
    | K_CTRL_SLASH => exact fun _ => answers_reprint env _
    | K_CTRL_F => exact fun _ => answers_addFavorite env hready
    | KEY_RESIZE => exact fun _ => answers_reprint env _
    | K_CTRL_U =>
        -- the pattern is empty already
        have hempty : (ready s e).pattern = empty := by
          rw [ready_pattern]
          exact hkeep.1 (eq_of_keyCase_CTRL_U hkey)
        exact fun _ => hempty ▸ hready
    | K_CTRL_L =>
        refine fun _ => answers_toggle_case hready ?_
        simpa using hkeep.2 (eq_of_keyCase_CTRL_L hkey)
    | KEY_BACKSPACE => exact fun _ => answers_reprint env _
    | KEY_NPAGE => exact fun _ => hready
    | KEY_ENTER => exact fun hnot => absurd hnot (by simp)
    | KEY_LEFT => exact fun hnot => absurd hnot (by simp)
    | KEY_RIGHT => exact fun hnot => absurd hnot (by simp)
    | K_ESC => exact fun hnot => absurd hnot (by simp)
    | K_CTRL_X => exact fun hnot => absurd hnot (by simp)
    | default => exact fun _ => answers_typeCharacter env _ hready

/-- The first screen answers the empty pattern. -/
theorem answers_firstScreen (env : Env R) {s : LoopState R}
    (hpattern : truncate s.hstr.cmdline (PATTERN_BUFFER_LNG - 1) = empty) :
    Answers env.lib (firstScreen env s).hstr (firstScreen env s).pattern
      (firstScreen env s).history := by
  rw [firstScreen_hstr, firstScreen_pattern, hpattern, firstScreen_history]
  exact answers_recalculate
    (answers_recalculate (answers_make_selection_none env.lib _ s.history _) _) _

/-- The loop starts with an answer: to no pattern, or to that of the command
line. -/
theorem answering_start (env : Env R) (hstr : Hstr R) (history : HistoryItems)
    (historyState : HistoryState) (favoritesFile : Option (List Byte)) (maxy : ℤ) :
    Answering env (start env hstr history historyState favoritesFile maxy) := by
  intro _
  unfold start
  simp only
  split
  · exact answers_reprint env _
  · next hlen => exact answers_firstScreen env (strlen_eq_zero_iff.mp (not_not.mp hlen))

theorem enterChoosesFirst_of_answering {env : Env R} {s : LoopState R} (e : Event)
    (h : Answering env s) : EnterChoosesFirst env s e := by
  intro hrun hkey hcursor line hline
  have hcase : keyCase (keyOf s e) = .KEY_ENTER := by
    rcases hkey with hc | hc <;> rw [keyOf_eq s (by rw [hc]; decide), hc] <;> decide
  rw [step_of_not_done hrun]
  unfold handle
  rw [hcase]
  -- the first line of the answer is the first one of the selection
  rw [← h hrun] at hline
  have hlen : s.hstr.selection.length ≠ 0 := by
    intro h0
    rw [List.length_eq_zero_iff.mp h0] at hline
    cases hline
  simp only [choose_result, getResultFromSelection, selection_index, ready_hstr,
    ready_selectionCursorPosition, hcursor, hstr_selection_index_prompt, recalculate_selection]
  rw [if_neg (by decide)]
  simp only [if_pos hlen, hline]

/-- **The list answers the current query, as long as Ctrl-u, Ctrl-w and Ctrl-l do
not change the pattern**: in every state of the loop the selection is what
`hstr_make_selection` computes, and ENTER in the prompt chooses its first line.
This is for every configuration, history and pattern of the command line. -/
theorem selection_answers_query (env : Env R) (hstr : Hstr R) (history : HistoryItems)
    (historyState : HistoryState) (favoritesFile : Option (List Byte)) (maxy : ℤ)
    (events : List Event)
    (hkeys : Guarded (step env) KeepsQuery
      (start env hstr history historyState favoritesFile maxy) events) :
    Always (step env) (Answering env) (start env hstr history historyState favoritesFile maxy)
        events
      ∧ Guarded (step env) (EnterChoosesFirst env)
        (start env hstr history historyState favoritesFile maxy) events := by
  have hstart := answering_start env hstr history historyState favoritesFile maxy
  have hstep : ∀ s e, Answering env s → KeepsQuery s e → Answering env (step env s e) :=
    fun s e h hkeep => answering_step env e h hkeep
  constructor
  · exact always_of_guarded hstep hstart hkeys
  · exact guarded_of_guarded hstep (fun s e h _ => enterChoosesFirst_of_answering e h) hstart hkeys

/-- Typing `m` and pressing ENTER meets the guard. -/
theorem selection_answers_query_typed :
    Always (step plainEnv) (Answering plainEnv) (plainStart none empty)
        [press 109 0 24, press K_ENTER 0 24]
      ∧ Guarded (step plainEnv) (EnterChoosesFirst plainEnv) (plainStart none empty)
        [press 109 0 24, press K_ENTER 0 24] :=
  selection_answers_query plainEnv _ _ _ _ _ _ ⟨by decide, by decide, trivial⟩

/-- With `git` on the command line, Ctrl-u and ENTER: the pattern is deleted, the
list is still that for `git`, and ENTER runs `git` where the first command is
`make`. -/
theorem delete_pattern_keeps_selection :
    prioritized_history_create plainEnv.shell (fun rank index length => rank + index + length)
        .SKIP (blacklist_load blacklist_init none).set (some plainState)
      = .ok (some plainItems)
    ∧ ¬ Always (step plainEnv) (Answering plainEnv) (plainStart none (lit "git"))
        [press K_CTRL_U 0 24, press K_ENTER 0 24]
    ∧ ¬ Guarded (step plainEnv) (EnterChoosesFirst plainEnv) (plainStart none (lit "git"))
        [press K_CTRL_U 0 24, press K_ENTER 0 24] := by
  refine ⟨plainItems_created, ?_, ?_⟩
  · intro h
    have hans := h.2.1 (by decide)
    revert hans
    unfold Answers
    decide
  · intro h
    have henter := h.2.1 (by decide) (Or.inl rfl) (by decide) (lit "make") (by decide)
    revert henter
    decide

end Hstr.Query
