/-
The prompt as a line editor.

The loop holds the pattern beside everything else, and a dozen of its keys print it
again. Three of them change it, with the keys that are typed: the prompt is an
editor of one line, which sees the keys and the room on its row and nothing of the
history, the views, the questions or the layout. What is said of the pattern is
said of this editor: the buffer is never exceeded, no key makes the pattern wider
than its row was when the loop was started, and a control character that the loop
handles comes from the command line or not at all.
-/
import Hstr.Loop
import Hstr.Typing
import Hstr.Lib.Utf8Map

set_option autoImplicit false

namespace Hstr.LineEditor

open Lib.Runs Lib.Utf8 Hstr.Strings Hstr.Utils Hstr.History Hstr.Selection Hstr.Box Hstr.Loop
open Hstr.Columns Hstr.Typing

variable {R : Type}

/-! ## The editor -/

/-- The variables of the prompt. -/
structure Line where
  pattern : CString
  lowercase : Bool
  done : Bool
  deriving DecidableEq

/-- The columns for the pattern. -/
def promptColumns (env : Env R) : ℤ := env.width - env.basex - 1

/-- What a key does to the line. -/
def edit (env : Env R) (p : Line) (c : ℤ) : Line :=
  if p.done then p
  else
    match keyCase c with
    | .K_CTRL_U => { p with pattern := empty }
    | .K_CTRL_L =>
        { p with pattern := toggle_case p.pattern p.lowercase, lowercase := !p.lowercase }
    | .KEY_BACKSPACE => { p with pattern := hstr_chop p.pattern }
    | .default =>
        if c > K_CTRL_Z then
          { p with pattern := (hstr_strcat_char_fitting env.locale p.pattern PATTERN_BUFFER_LNG c
              (promptColumns env)).1 }
        else p
    | .KEY_ENTER | .KEY_LEFT | .KEY_RIGHT | .K_ESC | .K_CTRL_X => { p with done := true }
    | .KEY_END | .KEY_DC | .K_CTRL_E | .K_CTRL_T | .K_CTRL_SLASH | .K_CTRL_F | .KEY_RESIZE
    | .KEY_NPAGE => p

/-- The prompt of the loop. -/
def prompt (s : LoopState R) : Line := ⟨s.pattern, s.lowercase, s.done⟩

/-! ## What the handlers leave of the prompt -/

theorem prompt_reprint (env : Env R) (s : LoopState R) : prompt (reprint env s) = prompt s := rfl

theorem prompt_ready (s : LoopState R) (e : Event) : prompt (ready s e) = prompt s := by
  unfold ready wgetch
  split <;> rfl

theorem prompt_choose_result (s : LoopState R) (cursor : ℤ) (fallback : Option CString) :
    prompt (choose_result s cursor fallback).1 = prompt s := by
  unfold choose_result
  split
  · rfl
  · split <;> rfl

theorem prompt_remove_from_history_model (env : Env R) (s : LoopState R) (almostDead : CString)
    (beyond : Beyond) : prompt (remove_from_history_model env s almostDead beyond).1 = prompt s := by
  unfold remove_from_history_model
  split <;> rfl

theorem prompt_deleteItem (env : Env R) (s : LoopState R) (e : Event) :
    prompt (deleteItem env s e) = prompt s := by
  unfold deleteItem
  split
  · rfl
  · next msg _ =>
      have hasked : prompt (confirmDelete s e msg) = prompt s := by
        rw [confirmDelete_eq]
        rfl
      have hanswered : prompt (deleteConfirmed env (confirmDelete s e msg) e msg) = prompt s := by
        unfold deleteConfirmed
        split
        · rw [prompt_reprint, prompt_remove_from_history_model, hasked]
        · exact hasked
      exact hanswered

theorem prompt_addFavorite (env : Env R) (s : LoopState R) :
    prompt (addFavorite env s) = prompt s := by
  unfold addFavorite
  split <;> rfl

/-- The backspace asks for an empty pattern before it chops. -/
theorem hstr_chop_of_strlen (s : CString) : (if strlen s > 0 then hstr_chop s else s) = hstr_chop s := by
  split
  · rfl
  · next hlen =>
      rw [hstr_chop]
      exact (if_neg (by omega)).symm

theorem prompt_deleteCharacter (env : Env R) (s : LoopState R) :
    prompt (deleteCharacter env s) = { prompt s with pattern := hstr_chop s.pattern } := by
  rw [← hstr_chop_of_strlen]
  rfl

theorem prompt_typeCharacter (env : Env R) (s : LoopState R) (c : ℤ) :
    prompt (Loop.typeCharacter env s c)
      = if c > K_CTRL_Z then
          { prompt s with pattern := (hstr_strcat_char_fitting env.locale s.pattern
              PATTERN_BUFFER_LNG c (promptColumns env)).1 }
        else prompt s := by
  unfold Loop.typeCharacter
  split <;> rfl

/-- Ctrl-r moves the cursor, and no line is edited. -/
theorem edit_keyOf (env : Env R) (s : LoopState R) (e : Event) (p : Line) :
    edit env p (keyOf s e) = edit env p e.c := by
  by_cases hr : e.c = K_CTRL_R
  · have hdefault : keyCase K_CTRL_R = .default := by decide
    unfold edit
    rw [keyCase_keyOf_CTRL_R s hr, hr, hdefault]
    rfl
  · rw [keyOf_eq s hr]

/-- **A round edits the line.** -/
theorem prompt_step (env : Env R) (s : LoopState R) (e : Event) :
    prompt (step env s e) = edit env (prompt s) e.c := by
  by_cases hdone : s.done = true
  · rw [step_of_done hdone]
    exact (if_pos hdone).symm
  · have hrun : s.done = false := by simpa using hdone
    rw [step_of_not_done hrun, ← edit_keyOf env s e, ← prompt_ready s e]
    have hready : (prompt (ready s e)).done = false := by
      rw [prompt_ready]
      exact hrun
    generalize ready s e = r at *
    rw [edit, if_neg (by simp [hready])]
    unfold handle
    cases hkey : keyCase (keyOf s e) with
    | KEY_DC => exact prompt_deleteItem env r e
    | K_CTRL_F => exact prompt_addFavorite env r
    | KEY_BACKSPACE => exact prompt_deleteCharacter env r
    | KEY_ENTER =>
        have hchosen := prompt_choose_result r r.selectionCursorPosition
          (if r.hstr.selection.length ≠ 0 then r.hstr.selection.head? else r.result)
        exact congrArg (fun p => { p with done := true }) hchosen
    | KEY_LEFT =>
        have hchosen := prompt_choose_result r r.selectionCursorPosition (some r.pattern)
        exact congrArg (fun p => { p with done := true }) hchosen
    | KEY_RIGHT =>
        have hchosen := prompt_choose_result r r.selectionCursorPosition (some r.pattern)
        exact congrArg (fun p => { p with done := true }) hchosen
    | default => exact prompt_typeCharacter env r (keyOf s e)
    | KEY_END | K_CTRL_E | K_CTRL_T | K_CTRL_SLASH | KEY_RESIZE | K_CTRL_U | K_CTRL_L
    | KEY_NPAGE | K_ESC | K_CTRL_X => rfl

/-- The keys that end the loop. -/
theorem keyCase_of_last {env : Env R} {s : LoopState R} {e : Event} (hrun : s.done = false)
    (hlast : (step env s e).done = true) :
    keyCase (keyOf s e) = .KEY_ENTER ∨ keyCase (keyOf s e) = .KEY_LEFT
      ∨ keyCase (keyOf s e) = .KEY_RIGHT ∨ keyCase (keyOf s e) = .K_ESC
      ∨ keyCase (keyOf s e) = .K_CTRL_X := by
  have hedited : (edit env (prompt s) (keyOf s e)).done = true := by
    rw [edit_keyOf, ← prompt_step]
    exact hlast
  have hprompt : (prompt s).done = false := hrun
  rw [edit, if_neg (by simp [hprompt])] at hedited
  cases hkey : keyCase (keyOf s e) with
  | KEY_ENTER | KEY_LEFT | KEY_RIGHT | K_ESC | K_CTRL_X => simp
  | default =>
      rw [hkey] at hedited
      dsimp only at hedited
      split at hedited <;> simp [hprompt] at hedited
  | _ => simp [hkey, hprompt] at hedited

/-- The line before the first key: the command line as far as the buffer goes. -/
def commandLine (hstr : Hstr R) : Line :=
  ⟨truncate hstr.cmdline (PATTERN_BUFFER_LNG - 1), true, false⟩

theorem prompt_start (env : Env R) (hstr : Hstr R) (history : HistoryItems)
    (historyState : HistoryState) (favoritesFile : Option (List Byte)) (maxy : ℤ) :
    prompt (start env hstr history historyState favoritesFile maxy) = commandLine hstr := by
  unfold start
  simp only
  split <;> rfl

/-- The printable characters of ASCII take a column each. -/
def AsciiColumns (wcwidth : ℕ → ℤ) : Prop := ∀ n, 0x20 ≤ n → n ≤ 0x7e → wcwidth n = 1

def IsPrintable (b : Byte) : Prop := 0x20 ≤ b.toNat ∧ b.toNat ≤ 0x7e

instance (b : Byte) : Decidable (IsPrintable b) := inferInstanceAs (Decidable (_ ∧ _))

/-- The map exchanges printable characters of ASCII. -/
structure CaseMap (f : Byte → Byte) : Prop extends AsciiMap f where
  printable : ∀ b, f b = b ∨ IsPrintable b ∧ IsPrintable (f b)

theorem caseMap_tolower : CaseMap tolower where
  ascii := byte_cases (P := fun b => b < 0x80 → tolower b < 0x80) (by decide +kernel)
  high := byte_cases (P := fun b => 0x80 ≤ b → tolower b = b) (by decide +kernel)
  printable := byte_cases (P := fun b => tolower b = b ∨ IsPrintable b ∧ IsPrintable (tolower b))
    (by decide +kernel)

theorem caseMap_toupper : CaseMap toupper where
  ascii := byte_cases (P := fun b => b < 0x80 → toupper b < 0x80) (by decide +kernel)
  high := byte_cases (P := fun b => 0x80 ≤ b → toupper b = b) (by decide +kernel)
  printable := byte_cases (P := fun b => toupper b = b ∨ IsPrintable b ∧ IsPrintable (toupper b))
    (by decide +kernel)

theorem charWidth_of_printable {wcwidth : ℕ → ℤ} (hw : AsciiColumns wcwidth) {c : Char} {b : Byte}
    (hc : encode c = [b]) (hb : IsPrintable b) : charWidth wcwidth c = 1 := by
  have hone : wcwidth c.toNat = 1 := by
    rw [toNat_of_encode_ascii hc]
    exact hw _ hb.1 hb.2
  rw [charWidth, hone]
  decide

theorem CaseMap.charWidth_eq {f : Byte → Byte} (hf : CaseMap f) {wcwidth : ℕ → ℤ}
    (hw : AsciiColumns wcwidth) {c d : Char} (hd : encode d = (encode c).map f) :
    charWidth wcwidth d = charWidth wcwidth c := by
  rcases encode_ascii_or_high c with ⟨b, -, hc⟩ | hhigh
  · rw [hc, List.map_singleton] at hd
    rcases hf.printable b with hsame | ⟨hb, hfb⟩
    · rw [hsame, ← hc] at hd
      rw [encode_injective hd]
    · rw [charWidth_of_printable hw hd hfb, charWidth_of_printable hw hc hb]
  · rw [hf.map_high hhigh] at hd
    rw [encode_injective hd]

theorem exists_caseMap (s : CString) (lowercase : Bool) :
    ∃ f, CaseMap f ∧ (toggle_case s lowercase).bytes = s.bytes.map f := by
  cases lowercase with
  | true => exact ⟨tolower, caseMap_tolower, rfl⟩
  | false => exact ⟨toupper, caseMap_toupper, rfl⟩

/-- **Toggling the case keeps the columns.** -/
theorem hstr_strwidth_toggle_case {wcwidth : ℕ → ℤ} (hw : AsciiColumns wcwidth) (s : CString)
    (lowercase : Bool) :
    hstr_strwidth (utf8 wcwidth) (toggle_case s lowercase) = hstr_strwidth (utf8 wcwidth) s := by
  obtain ⟨f, hf, hbytes⟩ := exists_caseMap s lowercase
  rw [hstr_strwidth_utf8, hstr_strwidth_utf8, hbytes]
  apply hf.width_map
  intro c d hd
  exact hf.charWidth_eq hw hd

theorem strlen_toggle_case (s : CString) (lowercase : Bool) :
    strlen (toggle_case s lowercase) = strlen s := by
  obtain ⟨f, -, hbytes⟩ := exists_caseMap s lowercase
  rw [strlen, hbytes, List.length_map, strlen]

/-- A control character of the toggled string was there before. -/
theorem mem_of_mem_toggle_case {s : CString} {lowercase : Bool} {b : Byte}
    (hmem : b ∈ (toggle_case s lowercase).bytes) (hb : ¬ IsPrintable b) : b ∈ s.bytes := by
  obtain ⟨f, hf, hbytes⟩ := exists_caseMap s lowercase
  rw [hbytes] at hmem
  obtain ⟨a, ha, rfl⟩ := List.mem_map.mp hmem
  rcases hf.printable a with hsame | hprintable
  · rwa [hsame]
  · exact absurd hprintable.2 hb

/-! ## The line fits -/

/-- A call appends the byte of the key, with room for it in the buffer and on the
row, or leaves a beginning of the string. -/
theorem fitting_cases (locale : LcCtype) (s : CString) (size : ℕ) (c maxWidth : ℤ) :
    let s' := (hstr_strcat_char_fitting locale s size c maxWidth).1
    s'.bytes <+: s.bytes
      ∨ s'.bytes = s.bytes ++ [c.toNat.toUInt8] ∧ 0 < c ∧ c ≤ 255 ∧ strlen s + 1 < size
        ∧ hstr_strwidth locale s' ≤ maxWidth := by
  simp only [hstr_strcat_char_fitting]
  cases hadd : hstr_strcat_char s size c with
  | none => exact Or.inl List.prefix_rfl
  | some s' =>
      obtain ⟨hbytes, hpos, hle, hroom⟩ := hstr_strcat_char_eq_some size hadd
      dsimp only
      by_cases hwide : hstr_strwidth locale s' > maxWidth
      · rw [if_pos hwide]
        left
        have hchop := hstr_chop_prefix s'
        rwa [hbytes, List.dropLast_concat] at hchop
      · rw [if_neg hwide]
        exact Or.inr ⟨hbytes, hpos, hle, hroom, not_lt.mp hwide⟩

/-- **What a key can do to the pattern**: cut it, toggle its case, or append the
byte of a key above the control keys, for which there is room. -/
theorem edit_cases (env : Env R) (p : Line) (c : ℤ) :
    (edit env p c).pattern.bytes <+: p.pattern.bytes
      ∨ (edit env p c).pattern = toggle_case p.pattern p.lowercase
      ∨ (edit env p c).pattern.bytes = p.pattern.bytes ++ [c.toNat.toUInt8]
        ∧ keyCase c = .default ∧ K_CTRL_Z < c ∧ c ≤ 255 ∧ strlen p.pattern + 1 < PATTERN_BUFFER_LNG
        ∧ hstr_strwidth env.locale (edit env p c).pattern ≤ promptColumns env := by
  unfold edit
  split
  · exact Or.inl List.prefix_rfl
  · cases hkey : keyCase c with
    | K_CTRL_U => exact Or.inl List.nil_prefix
    | K_CTRL_L => exact Or.inr (Or.inl rfl)
    | KEY_BACKSPACE =>
        have hchop := hstr_chop_prefix p.pattern
        exact Or.inl (hchop.trans <| List.dropLast_prefix p.pattern.bytes)
    | default =>
        dsimp only
        split
        · next hc =>
            rcases fitting_cases env.locale p.pattern PATTERN_BUFFER_LNG c (promptColumns env)
              with hpre | ⟨hbytes, -, hle, hroom, hwidth⟩
            · exact Or.inl hpre
            · exact Or.inr (Or.inr ⟨hbytes, rfl, hc, hle, hroom, hwidth⟩)
        · exact Or.inl List.prefix_rfl
    | KEY_ENTER | KEY_LEFT | KEY_RIGHT | K_ESC | K_CTRL_X => exact Or.inl List.prefix_rfl
    | KEY_END | KEY_DC | K_CTRL_E | K_CTRL_T | K_CTRL_SLASH | K_CTRL_F | KEY_RESIZE
    | KEY_NPAGE => exact Or.inl List.prefix_rfl

/-- A control character that is never typed: those up to Ctrl-z, the escape, the code
of Ctrl with a slash, and the backspace. The bytes 28 to 30 are typed. -/
def Handled (b : Byte) : Prop := b ≤ 27 ∨ b = 31 ∨ b = 127

instance (b : Byte) : Decidable (Handled b) := inferInstanceAs (Decidable (_ ∨ _))

/-- Every such character of the line was on `first`. -/
def NoNewControl (first : CString) (p : Line) : Prop :=
  ∀ b ∈ p.pattern.bytes, Handled b → b ∈ first.bytes

theorem not_handled_of_isPrintable {b : Byte} (h : IsPrintable b) : ¬ Handled b := by
  obtain ⟨hge, hle⟩ := h
  rintro (hesc | rfl | rfl)
  · have hle : b.toNat ≤ 27 := hesc
    omega
  · exact absurd hge (by decide)
  · exact absurd hle (by decide)

/-- What is typed is none of them. -/
theorem not_handled_of_typed {c : ℤ} (hkey : keyCase c = .default) (hc : K_CTRL_Z < c)
    (hle : c ≤ 255) : ¬ Handled c.toNat.toUInt8 := by
  have hz : K_CTRL_Z = 26 := rfl
  have hbyte : (c.toNat.toUInt8).toNat = c.toNat := by
    rw [UInt8.toNat_ofNat']
    omega
  have hnot : ∀ k : ℤ, keyCase k ≠ .default → c ≠ k := fun k hk heq => hk (heq ▸ hkey)
  have hesc := hnot 27 (by decide)
  have hslash := hnot 31 (by decide)
  have hback := hnot 127 (by decide)
  rintro (hlow | heq | heq)
  · have hlow : (c.toNat.toUInt8).toNat ≤ 27 := hlow
    omega
  · rw [heq, show (31 : Byte).toNat = 31 from rfl] at hbyte
    omega
  · rw [heq, show (127 : Byte).toNat = 127 from rfl] at hbyte
    omega

/-- What can be said of a line that began as `first`. -/
structure FitsRow (env : Env R) (first : CString) (p : Line) : Prop where
  room : strlen p.pattern < PATTERN_BUFFER_LNG
  columns : hstr_strwidth env.locale p.pattern
    ≤ max (promptColumns env) (hstr_strwidth env.locale first)
  control : NoNewControl first p

section Fits

variable {env : Env R} {first : CString} {p : Line}

/-- **No key brings a control character** that the loop handles, in any locale. -/
theorem NoNewControl.edit (h : NoNewControl first p) (c : ℤ) :
    NoNewControl first (edit env p c) := by
  intro b hb hcontrol
  rcases edit_cases env p c with hcut | htoggled | ⟨hbytes, hkey, hc, hle, -, -⟩
  · exact h b (hcut.subset hb) hcontrol
  · apply h b _ hcontrol
    rw [htoggled] at hb
    exact mem_of_mem_toggle_case hb fun hprintable => not_handled_of_isPrintable hprintable hcontrol
  · rw [hbytes, List.mem_append, List.mem_singleton] at hb
    rcases hb with hb | hb
    · exact h b hb hcontrol
    · rw [hb] at hcontrol
      exact absurd hcontrol (not_handled_of_typed hkey hc hle)

/-- No key writes over the end of the buffer, in any locale. -/
theorem strlen_edit (h : strlen p.pattern < PATTERN_BUFFER_LNG) (c : ℤ) :
    strlen (edit env p c).pattern < PATTERN_BUFFER_LNG := by
  rcases edit_cases env p c with hcut | htoggled | ⟨hbytes, -, -, -, hroom, -⟩
  · exact Nat.lt_of_le_of_lt hcut.length_le h
  · rw [htoggled, strlen_toggle_case]
    exact h
  · rw [strlen, hbytes, List.length_append, List.length_singleton]
    exact hroom

/-- One key keeps the line in its row. -/
theorem FitsRow.edit {wcwidth : ℕ → ℤ} (h : FitsRow env first p)
    (hlocale : env.locale = utf8 wcwidth) (hw : AsciiColumns wcwidth) (c : ℤ) :
    FitsRow env first (edit env p c) where
  room := strlen_edit h.room c
  columns := by
    rcases edit_cases env p c with hcut | htoggled | ⟨-, -, -, -, -, hwidth⟩
    · apply le_trans _ h.columns
      rw [hlocale, hstr_strwidth_eq_columns, hstr_strwidth_eq_columns]
      exact columns_mono wcwidth hcut
    · have hsame := hstr_strwidth_toggle_case hw p.pattern p.lowercase
      rw [← hlocale, ← htoggled] at hsame
      exact hsame.trans_le h.columns
    · exact le_trans hwidth (le_max_left _ _)
  control := h.control.edit c

end Fits

theorem fitsRow_commandLine (env : Env R) (hstr : Hstr R) :
    FitsRow env (commandLine hstr).pattern (commandLine hstr) where
  room := by
    have hlen : strlen (commandLine hstr).pattern ≤ PATTERN_BUFFER_LNG - 1 := List.length_take_le _ _
    exact Nat.lt_of_le_of_lt hlen (by decide)
  columns := le_max_right _ _
  control _ hb _ := hb

/-- **The pattern fits** in every state of the loop in a UTF-8 locale: its buffer,
the rest of the row as it was at the start or what the command line took of it, and
with no control character that the loop handles and was not on the command line. -/
theorem pattern_fits (env : Env R) (wcwidth : ℕ → ℤ) (hlocale : env.locale = utf8 wcwidth)
    (hw : AsciiColumns wcwidth) (hstr : Hstr R) (history : HistoryItems)
    (historyState : HistoryState) (favoritesFile : Option (List Byte)) (maxy : ℤ)
    (events : List Event) :
    Always (step env) (fun s => FitsRow env (commandLine hstr).pattern (prompt s))
      (start env hstr history historyState favoritesFile maxy) events := by
  refine always_of_step (fun s e h => ?_) ?_ events
  · rw [prompt_step]
    exact h.edit hlocale hw e.c
  · rw [prompt_start]
    exact fitsRow_commandLine env hstr

/-- Latin letters as `wcwidth` has them. -/
def latinWidth (n : ℕ) : ℤ := if n < 0x20 ∨ 0x7e < n ∧ n < 0xa0 then -1 else 1

/-- A row with three columns behind the prompt. -/
def rowEnv : Env (CString × Bool) :=
  { plainEnv with
    locale := utf8 latinWidth
    width := 6
    columnsShown := hstr_strwidth (utf8 latinWidth) }

/-- `B`, `é` and a curses code are typed, the case is toggled and a character is
erased. -/
theorem pattern_fits_row :
    Always (step rowEnv)
      (fun s => FitsRow rowEnv (commandLine (R := CString × Bool) (hstr_init zeroed)).pattern
        (prompt s))
      (start rowEnv (hstr_init zeroed) ⟨[lit "ls"], [], []⟩ ⟨[], 0, List.nodup_nil⟩ none 24)
      [press 66 0 24, press 0xC3 0 24, press 0xA9 0 24, press K_CTRL_L 0 24, press 300 0 24,
        press K_BACKSPACE 0 24] :=
  pattern_fits rowEnv latinWidth rfl
    (fun n h1 h2 => if_neg fun h => h.elim (by omega) (by omega)) _ _ _ _ _ _

end Hstr.LineEditor
