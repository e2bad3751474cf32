/-
`src/hstr.c`: the line with the state of the query.

`print_history_label` prints a summary of the view, the matching and the sizes of
the lists, and fills the rest of the row with dashes, one `strcat` after another,
in an array on the stack. The loop goes by the width of the screen and not by the
size of the array: the row is filled exactly, or the array is overrun.
-/
import Hstr.Capacity
import Hstr.Notification
import Hstr.Painting

set_option autoImplicit false

namespace Hstr.Labels

open Lib.Checked Lib.Utf8 Hstr.Strings Hstr.Utils Hstr.History Hstr.Columns Hstr.Elide
open Hstr.Box Hstr.Capacity Hstr.Notification Hstr.LineEditor Hstr.Painting

variable {R : Type}

/-! ## The functions -/

def HSTR_VIEW_LABELS : View → CString
  | .RANKING => lit "ranking"
  | .HISTORY => lit "history"
  | .FAVORITES => lit "favorites"

def HSTR_MATCH_LABELS : Matching → CString
  | .SUBSTRING => lit "exact"
  | .REGEXP => lit "regexp"
  | .KEYWORDS => lit "keywords"

def HSTR_CASE_LABELS (caseSensitive : Bool) : CString :=
  if caseSensitive = HSTR_CASE_SENSITIVE then lit "sensitive" else lit "insensitive"

/-- `%d` for an `unsigned`. -/
def decimal (n : ℕ) : CString := lit (toString (toSigned (n % 2 ^ 32)))

/-- What the format makes of its arguments. -/
def historyLabel (hstr : Hstr R) (history : HistoryItems) : CString :=
  [lit "- HISTORY - view:", HSTR_VIEW_LABELS hstr.view, lit " (C-/) - match:",
    HSTR_MATCH_LABELS hstr.matching, lit " (C-e) - case:", HSTR_CASE_LABELS hstr.caseSensitive,
    lit " (C-t) - ", decimal history.items.length, lit "/", decimal history.rawItems.length,
    lit "/", decimal hstr.favorites.items.length, lit " "].foldr append empty

/-- `snprintf(mem, n, "%s", s)`, for an `n` that is not 0. -/
def snprintf (mem : List Byte) (n : ℕ) (s : CString) : Except Fault (List Byte) :=
  storeRange mem 0 (s.bytes.take (n - 1) ++ [0])

/-- `strcat(mem, s)`. -/
def strcat (mem : List Byte) (s : CString) : Except Fault (List Byte) := do
  let length ← strlen_at mem
  storeRange mem length (s.bytes ++ [0])

/-- The loop that fills the row. -/
def dashLoop : ℕ → List Byte → Except Fault (List Byte)
  | 0, mem => .ok mem
  | width + 1, mem => do
      let mem ← strcat mem (lit "-")
      dashLoop width mem

/-- `print_history_label`: `none` where the label is hidden. -/
def print_history_label (terminal : Terminal) (hstr : Hstr R) (history : HistoryItems) :
    Except Fault (Option ScreenLine) :=
  if hstr.hideHistoryHelp then return none
  else do
    let width := toUnsigned terminal.width
    let screenLine ← snprintf terminal.memory width (historyLabel hstr history)
    let length ← strlen_at screenLine
    let width ← sub width length
    let screenLine ← dashLoop width screenLine
    return some ⟨hstr.promptYHistory, ofBuffer screenLine⟩

/-! ## Printable characters -/

/-- All characters are printable ones of ASCII. -/
def Printable (bs : List Byte) : Prop := ∀ b ∈ bs, IsPrintable b

instance (bs : List Byte) : Decidable (Printable bs) := List.decidableBAll IsPrintable bs

theorem Printable.append {bs cs : List Byte} (hbs : Printable bs) (hcs : Printable cs) :
    Printable (bs ++ cs) := fun b hb => (List.mem_append.mp hb).elim (hbs b) (hcs b)

/-- Each of them takes a column. -/
theorem Printable.width {wcwidth : ℕ → ℤ} (hw : AsciiColumns wcwidth) {bs : List Byte}
    (h : Printable bs) : width (charWidth wcwidth) bs = bs.length := by
  induction bs with
  | nil => exact width_nil
  | cons b bs ih =>
      have hb : IsPrintable b := h b List.mem_cons_self
      obtain ⟨c, hc⟩ := exists_encode_ascii (b := b) (by
        rw [UInt8.lt_iff_toNat_lt]
        exact Nat.lt_of_le_of_lt hb.2 (by decide))
      have hsplit : b :: bs = encode c ++ bs := by rw [hc, List.singleton_append]
      rw [hsplit, width_character, charWidth_of_printable hw hc hb,
        ih fun b' hb' => h b' (List.mem_cons_of_mem b hb'), ← hsplit, List.length_cons]
      push_cast
      omega

/-- The characters of a literal are its bytes. -/
theorem printable_lit {s : String} (h : ∀ c ∈ s.toList, 0x20 ≤ c.toNat ∧ c.toNat ≤ 0x7e) :
    Printable (lit s).bytes := by
  intro b hb
  obtain ⟨c, hc, rfl⟩ := List.mem_map.mp (List.mem_of_mem_filter hb)
  have hsmall := h c hc
  have hnat : c.toNat.toUInt8.toNat = c.toNat := by
    rw [Nat.toUInt8, UInt8.toNat_ofNat']
    omega
  rw [IsPrintable, hnat]
  exact hsmall

theorem printable_decimal (n : ℕ) : Printable (decimal n).bytes := by
  have hdigits : ∀ m : ℕ, ∀ c ∈ (toString m).toList, 0x20 ≤ c.toNat ∧ c.toNat ≤ 0x7e := by
    intro m c hc
    have hrepr : (toString m).toList = Nat.toDigits 10 m := Nat.toList_repr
    rw [hrepr] at hc
    have hdigit := Char.isDigit_iff_toNat.mp
      (Nat.isDigit_of_mem_toDigits (by decide) (by decide) hc)
    have hzero : '0'.toNat = 48 := rfl
    have hnine : '9'.toNat = 57 := rfl
    omega
  apply printable_lit
  cases toSigned (n % 2 ^ 32) with
  | ofNat m => exact hdigits m
  | negSucc m =>
      intro c hc
      have hminus : toString (Int.negSucc m) = "-" ++ toString (m + 1) := rfl
      rw [hminus, String.toList_append, List.mem_append] at hc
      rcases hc with hc | hc
      · rw [List.mem_singleton.mp hc]
        decide
      · exact hdigits (m + 1) c hc

theorem printable_historyLabel (hstr : Hstr R) (history : HistoryItems) :
    Printable (historyLabel hstr history).bytes := by
  have hview : Printable (HSTR_VIEW_LABELS hstr.view).bytes := by
    cases hstr.view <;> decide
  have hmatch : Printable (HSTR_MATCH_LABELS hstr.matching).bytes := by
    cases hstr.matching <;> decide
  have hcase : Printable (HSTR_CASE_LABELS hstr.caseSensitive).bytes := by
    cases hstr.caseSensitive <;> decide
  -- the parts of the format, from its end
  have hlast : Printable (append (lit " ") empty).bytes := by decide
  have hslash : Printable (lit "/").bytes := by decide
  have hfavorites := (printable_decimal hstr.favorites.items.length).append hlast
  have hraw := (printable_decimal history.rawItems.length).append (hslash.append hfavorites)
  have hitems := (printable_decimal history.items.length).append (hslash.append hraw)
  have htail : Printable (lit " (C-t) - ").bytes := by decide
  have hmiddle : Printable (lit " (C-e) - case:").bytes := by decide
  have hfront : Printable (lit " (C-/) - match:").bytes := by decide
  have hhead : Printable (lit "- HISTORY - view:").bytes := by decide
  exact hhead.append (hview.append (hfront.append (hmatch.append (hmiddle.append
    (hcase.append (htail.append hitems))))))

/-! ## The loop -/

/-- **The loop fills the row, or overruns the array.** -/
theorem dashLoop_eq (k : ℕ) {w rest : List Byte} (h0 : (0 : Byte) ∉ w) :
    dashLoop k (w ++ 0 :: rest)
      = if k ≤ rest.length then .ok (w ++ List.replicate k 45 ++ 0 :: rest.drop k)
        else .error .outOfBounds := by
  -- one dash a round, and the terminator behind it
  induction k generalizing w rest with
  | zero =>
      rw [if_pos (Nat.zero_le _), List.replicate_zero, List.append_nil, List.drop_zero]
      rfl
  | succ k ih =>
      rw [dashLoop, strcat, strlen_at_eq h0, Lib.Results.ok_bind]
      cases rest with
      | nil =>
          have hfull : storeRange (w ++ [0]) w.length ((lit "-").bytes ++ [0])
              = .error .outOfBounds := by
            apply if_neg
            simp [lit]
          rw [hfull, if_neg (by simp)]
          rfl
      | cons r rest =>
          have hstore : storeRange (w ++ 0 :: r :: rest) w.length ((lit "-").bytes ++ [0])
              = .ok (w ++ [45] ++ 0 :: rest) := by
            have hroom : ((lit "-").bytes ++ [0]).length ≤ (0 :: r :: rest).length := by
              simp [lit]
            rw [storeRange_append hroom w]
            simp [lit]
          have hdash : (0 : Byte) ∉ w ++ [45] := by
            rw [List.mem_append, not_or]
            exact ⟨h0, by decide⟩
          rw [hstore, Lib.Results.ok_bind, ih hdash]
          simp only [List.length_cons, Nat.add_le_add_iff_right, List.drop_succ_cons,
            List.replicate_succ, List.append_assoc, List.cons_append, List.nil_append]

/-! ## The label -/

/-- **The label fills its row exactly**, byte by byte and column by column: the
summary, as much of it as leaves the last column free, and dashes. On a screen as
wide as the array is long, or wider, the loop writes behind the array. -/
theorem history_label_fills_row {wcwidth : ℕ → ℤ} {terminal : Terminal}
    (h : Utf8Terminal wcwidth terminal) (hwidth : 1 ≤ terminal.width)
    (hint : terminal.width < 2 ^ 31) {hstr : Hstr R} (hshown : hstr.hideHistoryHelp = false)
    (history : HistoryItems) :
    if terminal.width < CMDLINE_LNG then
      ∃ line k, print_history_label terminal hstr history = .ok (some ⟨hstr.promptYHistory, line⟩)
        ∧ line.bytes = (historyLabel hstr history).bytes.take (terminal.width.toNat - 1)
          ++ List.replicate k 45
        ∧ strlen line = terminal.width
        ∧ Utils.hstr_strwidth terminal.locale line = terminal.width
    else print_history_label terminal hstr history = .error .outOfBounds := by
  obtain ⟨n, hn⟩ : ∃ n, n = terminal.width.toNat := ⟨_, rfl⟩
  obtain ⟨w, hw⟩ : ∃ w, w = (historyLabel hstr history).bytes.take (n - 1) := ⟨_, rfl⟩
  have hwlen : w.length ≤ n - 1 := hw ▸ List.length_take_le _ _
  have hw0 : (0 : Byte) ∉ w := fun hmem =>
    (historyLabel hstr history).nonul (List.mem_of_mem_take (hw ▸ hmem))
  have hunsigned : toUnsigned terminal.width = n := by
    rw [Layout.toUnsigned_eq (by omega) (by omega), hn]
  have hsize : (w ++ [0]).length = w.length + 1 := List.length_append
  have hmemory := terminal.length_memory
  rw [print_history_label, hshown, if_neg Bool.false_ne_true, hunsigned]
  simp only
  rw [snprintf, ← hn, ← hw]
  by_cases hroom : w.length + 1 ≤ CMDLINE_LNG
  · obtain ⟨rest, hrest⟩ : ∃ rest, rest = terminal.memory.drop (w.length + 1) := ⟨_, rfl⟩
    have hrestlen : rest.length = CMDLINE_LNG - (w.length + 1) := by
      rw [hrest, List.length_drop, hmemory]
    have hstore : storeRange terminal.memory 0 (w ++ [0]) = .ok (w ++ 0 :: rest) := by
      rw [storeRange_eq (by omega), hsize, Nat.zero_add, ← hrest, List.take_zero, List.nil_append,
        List.append_assoc, List.singleton_append]
    rw [hstore, Lib.Results.ok_bind, strlen_at_eq hw0, Lib.Results.ok_bind, sub_eq (by omega),
      Lib.Results.ok_bind, dashLoop_eq _ hw0]
    by_cases hfits : terminal.width < CMDLINE_LNG
    · rw [if_pos hfits, if_pos (by omega), Lib.Results.ok_bind]
      have hdashes : (0 : Byte) ∉ w ++ List.replicate (n - w.length) 45 := by
        rw [List.mem_append, not_or]
        exact ⟨hw0, fun hmem => absurd (List.eq_of_mem_replicate hmem) (by decide)⟩
      have hbytes := bytes_ofBuffer hdashes (rest.drop (n - w.length))
      have hlen : (w ++ List.replicate (n - w.length) 45).length = n := by
        rw [List.length_append, List.length_replicate]
        omega
      have hprintable : Printable (w ++ List.replicate (n - w.length) 45) := by
        apply Printable.append
        · exact fun b hb => printable_historyLabel hstr history b (List.mem_of_mem_take (hw ▸ hb))
        · intro b hb
          rw [List.eq_of_mem_replicate hb]
          decide
      refine ⟨_, n - w.length, rfl, hbytes, ?_, ?_⟩
      · rw [strlen, hbytes, hlen]
        omega
      · rw [h.locale, hstr_strwidth_utf8, hbytes, hprintable.width h.ascii, hlen]
        omega
    · rw [if_neg hfits, if_neg (by omega)]
      rfl
  · have hfull : storeRange terminal.memory 0 (w ++ [0]) = .error .outOfBounds :=
      if_neg (by omega)
    rw [if_neg (by omega), hfull]
    rfl

/-- A screen of twenty columns, which cut the summary. -/
theorem history_label_fills_row_short :
    if accentTerminal.width < CMDLINE_LNG then
      ∃ line k, print_history_label accentTerminal (hstr_init zeroed : Hstr Unit) ⟨[], [], []⟩
          = .ok (some ⟨(hstr_init zeroed : Hstr Unit).promptYHistory, line⟩)
        ∧ line.bytes = (historyLabel (hstr_init zeroed : Hstr Unit) ⟨[], [], []⟩).bytes.take
            (accentTerminal.width.toNat - 1) ++ List.replicate k 45
        ∧ strlen line = accentTerminal.width
        ∧ Utils.hstr_strwidth accentTerminal.locale line = accentTerminal.width
    else print_history_label accentTerminal (hstr_init zeroed : Hstr Unit) ⟨[], [], []⟩
      = .error .outOfBounds :=
  history_label_fills_row curses_accent.toUtf8Terminal (by decide) (by decide) rfl ⟨[], [], []⟩

end Hstr.Labels
