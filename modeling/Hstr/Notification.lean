/-
`src/hstr.c`: the row of the notifications.

A question or a message replaces the line with the basic help. Where that line is
hidden, `recalculate_max_history_items` looks for another row, and then assigns it
to `promptYHelp`: `promptYNotification` keeps the value it was initialised with,
which is the top row of the screen, whatever stands there.
-/
import Hstr.Layout

set_option autoImplicit false

namespace Hstr.Notification

open Hstr.Strings Hstr.Utils Hstr.Box Hstr.Layout

variable {R : Type}

/-! ## The functions -/

/-- What `mvprintw(y, 0, "%s", screenLine)` prints. -/
structure ScreenLine where
  y : ℤ
  screenLine : CString

/-- A message on the row for notifications; `snprintf` writes its terminator in the
last column at the latest. -/
def notify (hstr : Hstr R) (width : ℕ) (message : CString) : ScreenLine where
  y := hstr.promptYNotification
  screenLine := truncate message (width - 1)

/-- The format `"%s%s%s"`. -/
def around (before cmd behind : CString) : CString := append (append before cmd) behind

def print_confirm_delete (hstr : Hstr R) (width : ℕ) (cmd : CString) : ScreenLine :=
  notify hstr width
    (if hstr.view = .FAVORITES then
      around (lit "Do you want to delete favorites item '") cmd (lit "'? y/n")
    else around (lit "Do you want to delete all occurrences of '") cmd (lit "'? y/n"))

def print_cmd_deleted_label (hstr : Hstr R) (width : ℕ) (cmd : CString) (occurences : ℤ) :
    ScreenLine :=
  notify hstr width
    (if hstr.view = .FAVORITES then around (lit "Favorites item '") cmd (lit "' deleted")
    else
      append (around (lit "History item '") cmd (lit "' deleted ("))
        (around (lit (toString occurences)) (lit " occurrence")
          (if occurences = 1 then lit ")" else lit "s)")))

def print_regexp_error (hstr : Hstr R) (width : ℕ) (errorMessage : CString) : ScreenLine :=
  notify hstr width errorMessage

def print_cmd_added_favorite_label (hstr : Hstr R) (width : ℕ) (cmd : CString) : ScreenLine :=
  notify hstr width
    (around (lit "Command '") cmd (lit "' added to favorites (C-/ to show favorites)"))

/-! ## The row -/

/-- A row for notifications: that of the basic help if it is shown, else that of
the history label if it is shown, else one for items, and not that of the prompt. -/
def InPlace (hstr : Hstr R) (y : ℤ) : Prop :=
  (if !hstr.hideBasicHelp then y = hstr.promptYHelp
    else if !hstr.hideHistoryHelp then y = hstr.promptYHistory
    else y ∈ itemsRows hstr)
  ∧ y ≠ hstr.promptY

/-- All notifications are in place. -/
def NotificationsInPlace (hstr : Hstr R) : Prop :=
  ∀ (width : ℕ) (text : CString) (occurences : ℤ),
    InPlace hstr (print_confirm_delete hstr width text).y
      ∧ InPlace hstr (print_cmd_deleted_label hstr width text occurences).y
      ∧ InPlace hstr (print_regexp_error hstr width text).y
      ∧ InPlace hstr (print_cmd_added_favorite_label hstr width text).y

theorem notificationsInPlace_iff {hstr : Hstr R} :
    NotificationsInPlace hstr ↔ InPlace hstr hstr.promptYNotification :=
  ⟨fun h => (h 0 empty 0).1, fun h _ _ _ => ⟨h, h, h, h⟩⟩

/-- Laying out sets the row where the basic help is shown, and nowhere else. -/
theorem recalculate_promptYNotification (n : ℤ) (hstr : Hstr R) :
    (recalculate_max_history_items n hstr).promptYNotification
      = if hstr.hideBasicHelp then hstr.promptYNotification
        else (recalculate_max_history_items n hstr).promptYHelp := by
  obtain ⟨_, _, _, _, _, _, _, _, _, _, _, _, _, _, _, _, _, _, bottom, opposite, basic, history,
    _⟩ := hstr
  cases bottom <;> cases opposite <;> cases basic <;> cases history <;> rfl

/-- The row is the top one where the basic help is hidden. -/
def TopIfHidden (hstr : Hstr R) : Prop :=
  hstr.hideBasicHelp = true → hstr.promptYNotification = 0

theorem topIfHidden_recalculate (n : ℤ) {hstr : Hstr R} (h : TopIfHidden hstr) :
    TopIfHidden (recalculate_max_history_items n hstr) := by
  intro hhidden
  rw [recalculate_hideBasicHelp] at hhidden
  rw [recalculate_promptYNotification, if_pos hhidden]
  exact h hhidden

theorem topIfHidden_resized (heights : List ℤ) {hstr : Hstr R} (h : TopIfHidden hstr) :
    TopIfHidden (resized hstr heights) := by
  induction heights generalizing hstr with
  | nil => exact h
  | cons n heights ih => exact ih (topIfHidden_recalculate n h)

/-- No configuration sets the row. -/
theorem topIfHidden_configuration (memory : Hstr R) (hstr_config : Option CString) :
    TopIfHidden (hstr_get_env_configuration (hstr_init memory) hstr_config) := by
  unfold hstr_get_env_configuration
  split
  · exact fun _ => rfl
  · split
    · apply topIfHidden_recalculate
      exact fun _ => rfl
    · exact fun _ => rfl

/-- **When notifications are in place**: where the basic help is shown, or the top
row is not the prompt's and belongs to the history label or to the items. -/
theorem notifications_in_place_iff (memory : Hstr R) (hstr_config : Option CString)
    (heights : List ℤ) {n : ℤ}
    (hitems : 1 ≤ (recalculate_max_history_items n (resized
      (hstr_get_env_configuration (hstr_init memory) hstr_config) heights)).promptItems) :
    let hstr := recalculate_max_history_items n (resized
      (hstr_get_env_configuration (hstr_init memory) hstr_config) heights)
    NotificationsInPlace hstr
      ↔ hstr.hideBasicHelp = false
        ∨ hstr.promptBottom = true ∧ (hstr.helpOnOppositeSide = true ∨ hstr.hideHistoryHelp = true) := by
  have htop := topIfHidden_resized heights (topIfHidden_configuration memory hstr_config)
  generalize resized (hstr_get_env_configuration (hstr_init memory) hstr_config) heights = hstr
    at htop hitems ⊢
  have hnotification := recalculate_promptYNotification n hstr
  obtain ⟨⟨hcount, hstart⟩, hprompt, hhelp, hhistory, hend⟩ := rows_recalculate n hstr
  unfold TopIfHidden at htop
  rw [← recalculate_hideBasicHelp n hstr] at htop hnotification
  generalize recalculate_max_history_items n hstr = laidOut at *
  dsimp only
  rw [notificationsInPlace_iff, InPlace, mem_itemsRows]
  unfold labelRow at hhelp hhistory
  unfold itemsStart at hstart
  unfold helpLabels at hcount hstart
  -- from here on the rows are numbers, one set of equations for each layout
  generalize laidOut.promptBottom = bottom, laidOut.helpOnOppositeSide = opposite,
    laidOut.hideBasicHelp = basic, laidOut.hideHistoryHelp = history at *
  cases bottom <;> cases opposite <;> cases basic <;> cases history <;>
    simp only [Bool.false_eq_true, Bool.not_true, Bool.not_false, if_true, if_false, reduceCtorEq,
      forall_const, IsEmpty.forall_iff, ne_eq, true_and, and_false, false_and, or_false, or_true,
      or_self, iff_true, iff_false] at * <;>
    omega

/-- The prompt at the bottom and all help hidden: the top row is one for items. -/
theorem notifications_in_place_iff_bottom :
    NotificationsInPlace (recalculate_max_history_items 24 (resized
        (hstr_get_env_configuration (hstr_init (zeroed : Hstr (CString × Bool)))
          (some (lit "prompt-bottom,hide-help"))) [30]))
      ↔ (recalculate_max_history_items 24 (resized
          (hstr_get_env_configuration (hstr_init (zeroed : Hstr (CString × Bool)))
            (some (lit "prompt-bottom,hide-help"))) [30])).hideBasicHelp = false
        ∨ (recalculate_max_history_items 24 (resized
            (hstr_get_env_configuration (hstr_init (zeroed : Hstr (CString × Bool)))
              (some (lit "prompt-bottom,hide-help"))) [30])).promptBottom = true
          ∧ ((recalculate_max_history_items 24 (resized
              (hstr_get_env_configuration (hstr_init (zeroed : Hstr (CString × Bool)))
                (some (lit "prompt-bottom,hide-help"))) [30])).helpOnOppositeSide = true
            ∨ (recalculate_max_history_items 24 (resized
              (hstr_get_env_configuration (hstr_init (zeroed : Hstr (CString × Bool)))
                (some (lit "prompt-bottom,hide-help"))) [30])).hideHistoryHelp = true) :=
  notifications_in_place_iff zeroed (some (lit "prompt-bottom,hide-help")) [30] (by decide)

/-- With `HSTR_CONFIG=hide-help` and 24 rows every notification is printed over the
prompt. -/
theorem notification_covers_prompt :
    let hstr := recalculate_max_history_items 24
      (hstr_get_env_configuration (hstr_init (zeroed : Hstr (CString × Bool)))
        (some (lit "hide-help")))
    (print_confirm_delete hstr 80 (lit "ls")).y = hstr.promptY ∧ ¬ NotificationsInPlace hstr := by
  refine ⟨by decide, fun h => ?_⟩
  exact (notificationsInPlace_iff.mp h).2 (by decide)

end Hstr.Notification
