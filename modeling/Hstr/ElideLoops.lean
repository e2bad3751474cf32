/-
What the loops of `hstr_strelide` compute.

The memory is cut at the offset of the loop, so that each round is about the
piece of the string that begins or ends there. A loop then is the list function
of `Lib.Fitting` on the pieces, with `measure` for the cost of a piece and its
length for the size. Every lemma names the count of columns that is too large
for an `int` where the loop does not end in its value.
-/
import Hstr.Elide
import Hstr.Lib.Fitting
import Hstr.Pieces

set_option autoImplicit false

namespace Hstr.Elide

open Lib.Checked Lib.Fitting Lib.Utf8 Hstr.Strings Hstr.Utils Hstr.Pieces

variable {σ : Type} {locale : Locale σ}

/-! ## Measuring -/

/-- The rounds of `hstr_strnwidth` from offset `i` on. -/
theorem strnwidthLoop_yields (hlocale : Consumes locale) (tail : List Byte) (fuel : ℕ) :
    ∀ (fuel' : ℕ) (front rest : List Byte) (width : ℤ) (state : σ), (0 : Byte) ∉ rest →
      rest.length < fuel → rest.length ≤ fuel' →
      Yields (loop (strnwidthTurn locale (front ++ rest ++ tail) (front ++ rest).length) fuel
          (width, front.length, state))
        (width + measureFrom locale fuel' state rest)
        (INT_MAX < width + measureFrom locale fuel' state rest) := by
  induction fuel with
  | zero =>
      intro fuel' front rest width state _ hfuel
      omega
  | succ fuel ih =>
      intro fuel' front rest width state h0 hfuel hfuel'
      cases rest with
      | nil =>
          rw [List.append_nil]
          apply Yields.loop_leave
          left
          rw [strnwidthTurn, if_neg (Nat.lt_irrefl _)]
          cases fuel' <;> simp [measureFrom, Pure.pure, Except.pure]
      | cons c rest =>
          obtain ⟨fuel', rfl⟩ : ∃ k, fuel' = k + 1 := ⟨fuel' - 1, by
            rw [List.length_cons] at hfuel'
            omega⟩
          rw [List.length_cons] at hfuel hfuel'
          have hc : c ≠ 0 := Ne.symm (List.ne_of_not_mem_cons h0)
          have hturn := strnwidthTurn_cons locale front hc rest tail width state
          rw [measureFrom]
          cases hread : locale.mbrtowc state (c :: rest) with
          | mk result state' =>
              rw [hread] at hturn
              cases result with
              | incomplete =>
                  left
                  rw [loop_leave hturn]
                  exact congrArg Except.ok (Int.add_zero width).symm
              | nul =>
                  left
                  rw [loop_leave hturn]
                  exact congrArg Except.ok (Int.add_zero width).symm
              | invalid =>
                  dsimp only at hturn ⊢
                  have hnonneg := measureFrom_nonneg locale fuel' locale.initial rest
                  have hlength : (front ++ [c]).length = front.length + 1 := List.length_append
                  have hrest := ih fuel' (front ++ [c]) rest (width + 1) locale.initial
                    (List.not_mem_of_not_mem_cons h0) (by omega) (by omega)
                  rw [List.append_assoc front, List.singleton_append, hlength, Int.add_assoc] at hrest
                  refine Yields.loop_again ?_ hrest
                  rw [hturn]
                  refine Yields.bind ((add_yields _ _ _).mono fun h => ?_) (Or.inl rfl)
                  omega
              | char wc length =>
                  dsimp only at hturn ⊢
                  obtain ⟨hpos, hle⟩ := hlocale _ _ _ _ _ hread
                  have hnonneg := measureFrom_nonneg locale fuel' state' ((c :: rest).drop length)
                  have hlength : (front ++ (c :: rest).take length).length
                      = front.length + length := by
                    rw [List.length_append, List.length_take_of_le hle]
                  rw [List.length_cons] at hle
                  have hrest := ih fuel' (front ++ (c :: rest).take length)
                    ((c :: rest).drop length)
                    (width + (if locale.wcwidth wc < 0 then 1 else locale.wcwidth wc)) state'
                    (fun h => h0 (List.mem_of_mem_drop h))
                    (by rw [List.length_drop, List.length_cons]; omega)
                    (by rw [List.length_drop, List.length_cons]; omega)
                  rw [List.append_assoc front, List.take_append_drop, hlength, Int.add_assoc] at hrest
                  refine Yields.loop_again ?_ hrest
                  rw [hturn]
                  refine Yields.bind ((add_yields _ _ _).mono fun h => ?_) (Or.inl rfl)
                  omega

/-- A round counts no further than an `int` does. -/
theorem strnwidthTurn_le {s : List Byte} {n : ℕ} {v : ℤ × ℕ × σ} (hv : v.1 ≤ INT_MAX)
    {turn : Turn ℤ (ℤ × ℕ × σ)} (h : strnwidthTurn locale s n v = .ok turn) :
    (∀ width, turn = .leave width → width ≤ INT_MAX)
      ∧ ∀ v', turn = .again v' → v'.1 ≤ INT_MAX := by
  obtain ⟨width, i, state⟩ := v
  have hleave : ∀ turn : Turn ℤ (ℤ × ℕ × σ), turn = .leave width →
      (∀ width, turn = .leave width → width ≤ INT_MAX)
        ∧ ∀ v', turn = .again v' → v'.1 ≤ INT_MAX := by
    rintro turn rfl
    refine ⟨fun width' hwidth' => ?_, fun v' hv' => ?_⟩
    · cases hwidth'
      exact hv
    · cases hv'
  have hagain : ∀ (c : ℤ) (next : ℕ) (state' : σ) (turn : Turn ℤ (ℤ × ℕ × σ)),
      (do
        let width ← add INT_MAX width c
        return .again (width, next, state') : Except Fault (Turn ℤ (ℤ × ℕ × σ))) = .ok turn →
      (∀ width, turn = .leave width → width ≤ INT_MAX)
        ∧ ∀ v', turn = .again v' → v'.1 ≤ INT_MAX := by
    intro c next state' turn h
    obtain ⟨total, htotal, h⟩ := Lib.Results.bind_eq_ok.mp h
    cases h
    refine ⟨fun width' hwidth' => ?_, fun v' hv' => ?_⟩
    · cases hwidth'
    · cases hv'
      exact add_le htotal
  simp only [strnwidthTurn] at h
  split at h
  · obtain ⟨c, -, h⟩ := Lib.Results.bind_eq_ok.mp h
    split at h
    · exact hleave turn (Except.ok.inj h).symm
    · obtain ⟨left, -, h⟩ := Lib.Results.bind_eq_ok.mp h
      obtain ⟨offered, -, h⟩ := Lib.Results.bind_eq_ok.mp h
      split at h
      · exact hleave turn (Except.ok.inj h).symm
      · exact hleave turn (Except.ok.inj h).symm
      · exact hagain 1 _ _ turn h
      · exact hagain _ _ _ turn h
  · exact hleave turn (Except.ok.inj h).symm

/-- What is counted fits an `int`. -/
theorem hstr_strnwidth_le {s : List Byte} {n : ℕ} {width : ℤ}
    (h : hstr_strnwidth locale s n = .ok width) : width ≤ INT_MAX := by
  have hbegin : ((0, 0, locale.initial) : ℤ × ℕ × σ).1 ≤ INT_MAX := Int.natCast_nonneg INT_MAX
  have hrun : loop (strnwidthTurn locale s n) (n + 1) (0, 0, locale.initial) = .ok width := h
  refine loop_invariant (I := fun v : ℤ × ℕ × σ => v.1 ≤ INT_MAX)
    (Q := fun b : ℤ => b ≤ INT_MAX) ?_ ?_ hbegin hrun
  · exact fun v v' hv hturn => (strnwidthTurn_le hv hturn).2 v' rfl
  · exact fun v b hv hturn => (strnwidthTurn_le hv hturn).1 b rfl

theorem hstr_strwidth_le {s : List Byte} {width : ℤ} (h : hstr_strwidth locale s = .ok width) :
    width ≤ INT_MAX := by
  obtain ⟨length, -, h⟩ := Lib.Results.bind_eq_ok.mp h
  exact hstr_strnwidth_le h

/-- **`hstr_strnwidth` measures the first bytes.** -/
theorem hstr_strnwidth_yields (hlocale : Consumes locale) {bs : List Byte}
    (h0 : (0 : Byte) ∉ bs) (tail : List Byte) :
    Yields (hstr_strnwidth locale (bs ++ tail) bs.length) (measure locale bs)
      (INT_MAX < measure locale bs) := by
  have hloop := strnwidthLoop_yields hlocale tail (bs.length + 1) bs.length [] bs 0 locale.initial
    h0 (by omega) (Nat.le_refl _)
  rw [List.nil_append, Int.zero_add] at hloop
  exact hloop

/-! ## The pieces -/

theorem strlen_at_eq {bs : List Byte} (h0 : (0 : Byte) ∉ bs) (rest : List Byte) :
    strlen_at (bs ++ 0 :: rest) = .ok bs.length := by
  have hfind : (bs ++ 0 :: rest).findIdx? (fun c => c == 0) = some bs.length := by
    rw [List.findIdx?_append, List.findIdx?_eq_none_iff.mpr]
    · simp [List.findIdx?_cons]
    · intro c hc
      rw [beq_eq_false_iff_ne]
      rintro rfl
      exact h0 hc
  rw [strlen_at, hfind]

/-- The loop of `next_char_offset`, when `t` is taken already. -/
theorem nextCharLoop_eq (a : List Byte) (b : Byte) (tail : List Byte) (fuel : ℕ) :
    ∀ t r : List Byte, t.length ≤ 3 → 3 - t.length < fuel →
      loop (nextCharTurn (a ++ b :: (t ++ r) ++ tail) a.length (a ++ b :: (t ++ r)).length) fuel
          (a.length + 1 + t.length)
        = .ok (a.length + 1 + t.length
            + ((r.take (3 - t.length)).takeWhile IsContinuation).length) := by
  induction fuel with
  | zero =>
      intro t r _ hfuel
      omega
  | succ fuel ih =>
      intro t r ht hfuel
      have hlength : (a ++ b :: (t ++ r)).length = a.length + 1 + t.length + r.length := by
        simp only [List.length_append, List.length_cons]
        omega
      cases r with
      | nil =>
          apply loop_leave
          rw [nextCharTurn, if_neg (by rw [hlength, List.length_nil]; omega), List.take_nil]
          rfl
      | cons c r =>
          have hnext : a.length + 1 + t.length < (a ++ b :: (t ++ c :: r)).length := by
            rw [hlength, List.length_cons]
            omega
          have htaken : sub (a.length + 1 + t.length) a.length = .ok (1 + t.length) := by
            rw [sub_eq (by omega)]
            congr 1
            omega
          have hload : load (a ++ b :: (t ++ c :: r) ++ tail) (a.length + 1 + t.length) = .ok c := by
            have hsplit : a ++ b :: (t ++ c :: r) ++ tail = (a ++ b :: t) ++ c :: (r ++ tail) := by
              simp only [List.append_assoc, List.cons_append]
            rw [hsplit, show a.length + 1 + t.length = (a ++ b :: t).length by
              simp only [List.length_append, List.length_cons]
              omega]
            exact load_append_cons _ _ _
          rcases Nat.lt_or_eq_of_le ht with hlt | heq
          · obtain ⟨k, hk⟩ : ∃ k, 3 - t.length = k + 1 := ⟨3 - t.length - 1, by omega⟩
            have hlength' : (t ++ [c]).length = t.length + 1 := List.length_append
            rw [hk, List.take_succ_cons]
            by_cases hc : IS_UTF8_CONTINUATION c = true
            · have hturn : nextCharTurn (a ++ b :: (t ++ c :: r) ++ tail) a.length
                  (a ++ b :: (t ++ c :: r)).length (a.length + 1 + t.length)
                    = .ok (.again (a.length + 1 + t.length + 1)) := by
                rw [nextCharTurn, if_pos hnext, htaken, Lib.Results.ok_bind,
                  if_pos (by rw [UTF8_MAX_BYTES]; omega), hload, Lib.Results.ok_bind, if_pos hc]
                rfl
              have hrest := ih (t ++ [c]) r (by omega) (by omega)
              rw [List.append_assoc t, List.singleton_append, hlength',
                show 3 - (t.length + 1) = k by omega] at hrest
              rw [loop_again hturn, List.takeWhile_cons_of_pos (p := IsContinuation) hc, List.length_cons, Nat.add_assoc,
                hrest]
              congr 1
              omega
            · apply loop_leave
              rw [nextCharTurn, if_pos hnext, htaken, Lib.Results.ok_bind,
                if_pos (by rw [UTF8_MAX_BYTES]; omega), hload, Lib.Results.ok_bind, if_neg hc,
                List.takeWhile_cons_of_neg (p := IsContinuation) hc]
              rfl
          · apply loop_leave
            rw [nextCharTurn, if_pos hnext, htaken, Lib.Results.ok_bind,
              if_neg (by rw [UTF8_MAX_BYTES]; omega), heq]
            rfl

/-- **`next_char_offset` finds the end of the piece.** -/
theorem next_char_offset_eq (a : List Byte) (b : Byte) (rest tail : List Byte) :
    next_char_offset (a ++ b :: rest ++ tail) a.length (a ++ b :: rest).length
      = .ok (a.length + (b :: following rest).length) := by
  have hloop := nextCharLoop_eq a b tail (UTF8_MAX_BYTES + 1) [] rest (Nat.zero_le _) (by decide)
  rw [List.nil_append, List.length_nil, Nat.add_zero] at hloop
  rw [next_char_offset, hloop, List.length_cons, following, UTF8_MAX_BYTES, Nat.sub_zero]
  congr 1
  omega

/-- The piece that begins at an offset: where it ends, and its columns. -/
theorem nextPiece_yields (hlocale : Consumes locale) {b : Byte} {rest : List Byte}
    (h0 : (0 : Byte) ∉ b :: rest) (front tail : List Byte) {β : Type} {v : β} {P : Prop}
    (hP : INT_MAX < measure locale (b :: following rest) → P) {k : ℕ → ℤ → Except Fault β}
    (hk : Yields (k (front.length + (b :: following rest).length)
      (measure locale (b :: following rest))) v P) :
    Yields (do
      let next ← next_char_offset (front ++ b :: rest ++ tail) front.length
        (front ++ b :: rest).length
      let n ← sub next front.length
      let charWidth ← hstr_strnwidth locale ((front ++ b :: rest ++ tail).drop front.length) n
      k next charWidth) v P := by
  have hsub : sub (front.length + (b :: following rest).length) front.length
      = .ok (b :: following rest).length := by
    rw [sub_eq (Nat.le_add_right _ _), Nat.add_sub_cancel_left]
  have hpiece : (0 : Byte) ∉ b :: following rest := by
    apply List.not_mem_cons_of_ne_of_not_mem (List.ne_of_not_mem_cons h0)
    exact fun h => h0 (List.mem_cons_of_mem b ((following_isPrefix rest).subset h))
  have hdrop : (front ++ b :: rest ++ tail).drop front.length
      = b :: following rest ++ (rest.drop (following rest).length ++ tail) := by
    rw [List.append_assoc, List.drop_left, List.cons_append, List.cons_append, ← List.append_assoc,
      following_append_drop]
  rw [next_char_offset_eq, Lib.Results.ok_bind, hsub, Lib.Results.ok_bind, hdrop]
  exact Yields.bind ((hstr_strnwidth_yields hlocale hpiece _).mono hP) hk

/-! ## What fits -/

variable (locale)

/-- The longest beginning within the budgets, piece by piece. -/
def fittingPrefix (maxWidth : ℤ) (maxBytes : ℕ) (bs : List Byte) : List Byte :=
  (fitting (measure locale) List.length maxWidth maxBytes (pieces bs)).flatten

/-- The longest end within the budgets, piece by piece. -/
def fittingSuffix (maxWidth : ℤ) (maxBytes : ℕ) (bs : List Byte) : List Byte :=
  (fitting (measure locale) List.length maxWidth maxBytes (backPieces bs.reverse)).reverse.flatten

/-- The pieces in front that have no width. -/
def zeroWidth (bs : List Byte) : List Byte :=
  ((pieces bs).takeWhile fun piece => measure locale piece = 0).flatten

/-- What is behind them. -/
def trimZeroWidth (bs : List Byte) : List Byte :=
  ((pieces bs).dropWhile fun piece => measure locale piece = 0).flatten

theorem fittingPrefix_isPrefix (maxWidth : ℤ) (maxBytes : ℕ) (bs : List Byte) :
    fittingPrefix locale maxWidth maxBytes bs <+: bs := by
  obtain ⟨r, hr⟩ := fitting_isPrefix (measure locale) List.length maxWidth maxBytes (pieces bs)
  refine ⟨r.flatten, ?_⟩
  rw [fittingPrefix, ← List.flatten_append, hr, flatten_pieces]

theorem fittingSuffix_isSuffix (maxWidth : ℤ) (maxBytes : ℕ) (bs : List Byte) :
    fittingSuffix locale maxWidth maxBytes bs <:+ bs := by
  obtain ⟨r, hr⟩ := fitting_isPrefix (measure locale) List.length maxWidth maxBytes
    (backPieces bs.reverse)
  refine ⟨r.reverse.flatten, ?_⟩
  rw [fittingSuffix, ← List.flatten_append, ← List.reverse_append, hr, flatten_backPieces,
    List.reverse_reverse]

theorem zeroWidth_append (bs : List Byte) :
    zeroWidth locale bs ++ trimZeroWidth locale bs = bs := by
  rw [zeroWidth, trimZeroWidth, ← List.flatten_append, List.takeWhile_append_dropWhile,
    flatten_pieces]

theorem trimZeroWidth_isSuffix (bs : List Byte) : trimZeroWidth locale bs <:+ bs :=
  ⟨_, zeroWidth_append locale bs⟩

theorem fittingPrefix_length_le (maxWidth : ℤ) (maxBytes : ℕ) (bs : List Byte) :
    (fittingPrefix locale maxWidth maxBytes bs).length ≤ maxBytes := by
  rw [fittingPrefix, List.length_flatten]
  exact sum_size_fitting _ _ _ _ _

theorem fittingSuffix_length_le (maxWidth : ℤ) (maxBytes : ℕ) (bs : List Byte) :
    (fittingSuffix locale maxWidth maxBytes bs).length ≤ maxBytes := by
  rw [fittingSuffix, List.length_flatten, List.map_reverse, List.sum_reverse]
  exact sum_size_fitting _ _ _ _ _

/-- The columns of some bytes, piece by piece. -/
def measureAll (ps : List (List Byte)) : ℤ := (ps.map (measure locale)).sum

theorem measureAll_cons (p : List Byte) (ps : List (List Byte)) :
    measureAll locale (p :: ps) = measure locale p + measureAll locale ps := by
  rw [measureAll, List.map_cons, List.sum_cons, measureAll]

theorem measureAll_nonneg (ps : List (List Byte)) : 0 ≤ measureAll locale ps :=
  sum_cost_nonneg (measure_nonneg locale) ps

variable {locale}

/-- The rounds of `prefix_fitting` on the bytes that are left. -/
theorem prefixLoop_yields (hlocale : Consumes locale) (maxWidth : ℤ) (maxBytes : ℕ) (fuel : ℕ) :
    ∀ (front rest : List Byte) (width : ℤ), (0 : Byte) ∉ rest → rest.length < fuel →
      front.length ≤ maxBytes → 0 ≤ width →
      Yields (loop (prefixTurn locale (front ++ rest ++ [0]) maxWidth maxBytes
          (front ++ rest).length) fuel (front.length, width))
        (front.length
          + (fittingPrefix locale (maxWidth - width) (maxBytes - front.length) rest).length)
        (INT_MAX < width + measureAll locale (pieces rest)) := by
  induction fuel with
  | zero =>
      intro front rest width _ hfuel
      omega
  | succ fuel ih =>
      intro front rest width h0 hfuel hbytes hwidth
      cases rest with
      | nil =>
          apply Yields.loop_leave
          left
          rw [List.append_nil, prefixTurn, if_neg (Nat.lt_irrefl _), fittingPrefix, pieces_nil]
          rfl
      | cons b rest =>
          obtain ⟨piece, left, hpiece, hleft, hsplit, hpieces⟩ := exists_next_piece front b rest
          have hlength : (front ++ piece).length = front.length + piece.length := List.length_append
          have hfuel' : left.length < fuel := by
            have hshort := hleft.length_le
            rw [List.length_cons] at hfuel
            omega
          have hcolumns : width + measureAll locale (pieces (b :: rest))
              = width + measure locale piece + measureAll locale (pieces left) := by
            rw [hpieces, measureAll_cons, Int.add_assoc]
          have hnonneg := measure_nonneg locale piece
          have hleftnonneg := measureAll_nonneg locale (pieces left)
          have hturn : Yields (prefixTurn locale (front ++ b :: rest ++ [0]) maxWidth maxBytes
              (front ++ b :: rest).length (front.length, width))
              (if width + measure locale piece > maxWidth ∨ front.length + piece.length > maxBytes
                then .leave front.length
                else .again (front.length + piece.length, width + measure locale piece))
              (INT_MAX < width + measureAll locale (pieces (b :: rest))) := by
            rw [hcolumns, prefixTurn,
              if_pos (by rw [List.length_append, List.length_cons]; omega)]
            apply nextPiece_yields hlocale h0 front [0] (by rw [← hpiece]; omega)
            rw [← hpiece]
            refine Yields.bind ((add_yields _ _ _).mono fun h => by omega) (Or.inl ?_)
            split <;> rfl
          by_cases hfits : measure locale piece ≤ maxWidth - width
              ∧ piece.length ≤ maxBytes - front.length
          · have hkept : front.length + (fittingPrefix locale (maxWidth - width)
                (maxBytes - front.length) (b :: rest)).length
                = front.length + piece.length + (fittingPrefix locale
                  (maxWidth - (width + measure locale piece))
                  (maxBytes - (front.length + piece.length)) left).length := by
              rw [fittingPrefix, hpieces, fitting_cons_of_fits hfits, List.flatten_cons,
                List.length_append, fittingPrefix, Int.sub_sub, Nat.sub_sub, Nat.add_assoc]
            rw [if_neg (by omega)] at hturn
            have hrest := ih (front ++ piece) left (width + measure locale piece)
              (fun h => h0 (List.mem_cons_of_mem b (hleft.subset h))) hfuel'
              (by omega) (by omega)
            rw [hsplit, hlength, ← hcolumns] at hrest
            rw [hkept]
            exact Yields.loop_again hturn hrest
          · have hkept : fittingPrefix locale (maxWidth - width) (maxBytes - front.length)
                (b :: rest) = [] := by
              rw [fittingPrefix, hpieces, fitting_cons_of_not hfits, List.flatten_nil]
            rw [if_pos (by omega)] at hturn
            rw [hkept]
            exact Yields.loop_leave hturn fuel

/-- **`prefix_fitting` is the length of the longest beginning that fits.** -/
theorem prefix_fitting_yields (hlocale : Consumes locale) (maxWidth : ℤ) (maxBytes : ℕ)
    {bs : List Byte} (h0 : (0 : Byte) ∉ bs) :
    Yields (prefix_fitting locale (bs ++ [0]) maxWidth maxBytes)
      (fittingPrefix locale maxWidth maxBytes bs).length
      (INT_MAX < measureAll locale (pieces bs)) := by
  have hloop := prefixLoop_yields hlocale maxWidth maxBytes (bs.length + 1) [] bs 0 h0
    (Nat.lt_succ_self _) (Nat.zero_le _) (le_refl 0)
  rw [List.nil_append, List.length_nil, Int.sub_zero, Nat.sub_zero, Nat.zero_add,
    Int.zero_add] at hloop
  rw [prefix_fitting, strlen_at_eq h0, Lib.Results.ok_bind]
  exact hloop

/-! ## The end that fits -/

/-- The loop of `suffix_fitting` that looks for the start of a character, when
`t` belongs to it already. -/
theorem charStartLoop_eq (tail : List Byte) (fuel : ℕ) :
    ∀ (t r : List Byte) (x : Byte), t.length ≤ 3 → 3 - t.length < fuel →
      loop (charStartTurn ((x :: r).reverse ++ t ++ tail) ((x :: r).reverse ++ t).length) fuel
          r.length
        = .ok (r.length - (((x :: r).take (3 - t.length)).takeWhile IsContinuation).length) := by
  induction fuel with
  | zero =>
      intro t r x _ hfuel
      omega
  | succ fuel ih =>
      intro t r x ht hfuel
      cases r with
      | nil =>
          apply loop_leave
          rw [charStartTurn, List.length_nil, if_neg (Nat.lt_irrefl 0), Nat.zero_sub]
          rfl
      | cons y r =>
          have hlength : ((x :: y :: r).reverse ++ t).length = (y :: r).length + (1 + t.length) := by
            rw [List.length_append, List.length_reverse, List.length_cons, Nat.add_assoc]
          have hpos : (y :: r).length > 0 := Nat.succ_pos _
          have htaken : sub ((x :: y :: r).reverse ++ t).length (y :: r).length
              = .ok (1 + t.length) := by
            rw [hlength, sub_eq (Nat.le_add_right _ _), Nat.add_sub_cancel_left]
          have hload : load ((x :: y :: r).reverse ++ t ++ tail) (y :: r).length = .ok x := by
            rw [List.reverse_cons, List.append_assoc, List.append_assoc, List.singleton_append,
              ← List.length_reverse]
            exact load_append_cons _ _ _
          rcases Nat.lt_or_eq_of_le ht with hlt | heq
          · obtain ⟨k, hk⟩ : ∃ k, 3 - t.length = k + 1 := ⟨3 - t.length - 1, by omega⟩
            rw [hk, List.take_succ_cons]
            by_cases hx : IS_UTF8_CONTINUATION x = true
            · have hback : sub (y :: r).length 1 = .ok r.length := sub_eq (Nat.succ_pos _)
              have hturn : charStartTurn ((x :: y :: r).reverse ++ t ++ tail)
                  ((x :: y :: r).reverse ++ t).length (y :: r).length = .ok (.again r.length) := by
                rw [charStartTurn, if_pos hpos, htaken, Lib.Results.ok_bind,
                  if_pos (by rw [UTF8_MAX_BYTES]; omega), hload, Lib.Results.ok_bind, if_pos hx,
                  hback]
                rfl
              have hrest := ih (x :: t) r y hlt (by rw [List.length_cons]; omega)
              rw [List.length_cons, show 3 - (t.length + 1) = k by omega,
                List.append_cons, ← List.reverse_cons] at hrest
              rw [loop_again hturn, hrest, List.takeWhile_cons_of_pos (p := IsContinuation) hx,
                List.length_cons, List.length_cons, Nat.add_sub_add_right]
            · apply loop_leave
              rw [charStartTurn, if_pos hpos, htaken, Lib.Results.ok_bind,
                if_pos (by rw [UTF8_MAX_BYTES]; omega), hload, Lib.Results.ok_bind, if_neg hx,
                List.takeWhile_cons_of_neg (p := IsContinuation) hx]
              rfl
          · apply loop_leave
            rw [charStartTurn, if_pos hpos, htaken, Lib.Results.ok_bind,
              if_neg (by rw [UTF8_MAX_BYTES]; omega), heq]
            rfl

/-- The piece that ends at an offset: where it begins, and its columns. -/
theorem lastPiece_yields (hlocale : Consumes locale) {r : List Byte} (h0 : (0 : Byte) ∉ r)
    (hr : r ≠ []) (tail : List Byte) {β : Type} {v : β} {P : Prop}
    (hP : INT_MAX < measure locale (r.take (backLength r)).reverse → P)
    {k : ℕ → ℤ → Except Fault β}
    (hk : Yields (k (r.drop (backLength r)).length
      (measure locale (r.take (backLength r)).reverse)) v P) :
    Yields (do
      let last ← sub r.length 1
      let charStart ← loop (charStartTurn (r.reverse ++ tail) r.length) (UTF8_MAX_BYTES + 1) last
      let n ← sub r.length charStart
      let charWidth ← hstr_strnwidth locale ((r.reverse ++ tail).drop charStart) n
      k charStart charWidth) v P := by
  obtain ⟨x, r, rfl⟩ := List.exists_cons_of_ne_nil hr
  have hlast : sub (x :: r).length 1 = .ok r.length := sub_eq (Nat.succ_pos _)
  have hstart : loop (charStartTurn ((x :: r).reverse ++ tail) (x :: r).length) (UTF8_MAX_BYTES + 1)
      r.length = .ok ((x :: r).drop (backLength (x :: r))).length := by
    have hloop := charStartLoop_eq tail (UTF8_MAX_BYTES + 1) [] r x (Nat.zero_le _) (by decide)
    rw [List.append_nil, List.length_reverse] at hloop
    rw [hloop, List.length_drop, backLength, List.length_cons, Nat.add_sub_add_right]
    rfl
  have hn : sub (x :: r).length ((x :: r).drop (backLength (x :: r))).length
      = .ok ((x :: r).take (backLength (x :: r))).reverse.length := by
    rw [sub_eq (by rw [List.length_drop]; omega), List.length_reverse, List.length_take,
      List.length_drop]
    congr 1
    omega
  have hdrop : ((x :: r).reverse ++ tail).drop ((x :: r).drop (backLength (x :: r))).length
      = ((x :: r).take (backLength (x :: r))).reverse ++ tail := by
    have hsplit : ((x :: r).drop (backLength (x :: r))).reverse
        ++ ((x :: r).take (backLength (x :: r))).reverse = (x :: r).reverse := by
      rw [← List.reverse_append, List.take_append_drop]
    rw [← hsplit, List.append_assoc]
    exact List.drop_left' List.length_reverse
  have hpiece : (0 : Byte) ∉ ((x :: r).take (backLength (x :: r))).reverse := fun h =>
    h0 (List.mem_of_mem_take (List.mem_reverse.mp h))
  rw [hlast, Lib.Results.ok_bind, hstart, Lib.Results.ok_bind, hn, Lib.Results.ok_bind, hdrop]
  exact Yields.bind ((hstr_strnwidth_yields hlocale hpiece _).mono hP) hk

/-- The rounds of `suffix_fitting` on the bytes that are left, from their end. -/
theorem suffixLoop_yields (hlocale : Consumes locale) (maxWidth : ℤ) (maxBytes : ℕ) (fuel : ℕ) :
    ∀ (r back : List Byte) (width : ℤ), (0 : Byte) ∉ r → r.length < fuel →
      back.length ≤ maxBytes → 0 ≤ width →
      Yields (loop (suffixTurn locale (r.reverse ++ (back ++ [0])) maxWidth maxBytes
          (r.reverse ++ back).length) fuel (r.length, width))
        (r.length - (fittingSuffix locale (maxWidth - width) (maxBytes - back.length)
          r.reverse).length)
        (INT_MAX < width + measureAll locale (backPieces r)) := by
  induction fuel with
  | zero =>
      intro r back width _ hfuel
      omega
  | succ fuel ih =>
      intro r back width h0 hfuel hbytes hwidth
      by_cases hr : r = []
      · subst hr
        apply Yields.loop_leave
        left
        rw [suffixTurn, List.length_nil, if_neg (Nat.lt_irrefl 0), Nat.zero_sub]
        rfl
      · obtain ⟨piece, hpiece⟩ : ∃ piece, piece = (r.take (backLength r)).reverse := ⟨_, rfl⟩
        obtain ⟨left, hleft⟩ : ∃ left, left = r.drop (backLength r) := ⟨_, rfl⟩
        have hsplit : left.reverse ++ piece = r.reverse := by
          rw [hleft, hpiece, ← List.reverse_append, List.take_append_drop]
        have hlength : left.length + piece.length = r.length := by
          have hlen := congrArg List.length hsplit
          rwa [List.length_append, List.length_reverse, List.length_reverse] at hlen
        have hpieces : backPieces r = piece :: backPieces left := by
          rw [hpiece, hleft]
          exact backPieces_of_ne_nil hr
        have hcolumns : width + measureAll locale (backPieces r)
            = width + measure locale piece + measureAll locale (backPieces left) := by
          rw [hpieces, measureAll_cons, Int.add_assoc]
        have hnonneg := measure_nonneg locale piece
        have hleftnonneg := measureAll_nonneg locale (backPieces left)
        have htaken : sub (r.reverse ++ back).length left.length
            = .ok (piece.length + back.length) := by
          rw [List.length_append, List.length_reverse, ← hlength, Nat.add_assoc,
            sub_eq (Nat.le_add_right _ _), Nat.add_sub_cancel_left]
        have hturn : Yields (suffixTurn locale (r.reverse ++ (back ++ [0])) maxWidth maxBytes
            (r.reverse ++ back).length (r.length, width))
            (if width + measure locale piece > maxWidth ∨ piece.length + back.length > maxBytes
              then .leave r.length else .again (left.length, width + measure locale piece))
            (INT_MAX < width + measureAll locale (backPieces r)) := by
          rw [hcolumns, suffixTurn, if_pos (List.length_pos_of_ne_nil hr)]
          apply lastPiece_yields hlocale h0 hr _ (by rw [← hpiece]; omega)
          rw [← hpiece, ← hleft, htaken]
          refine Yields.bind ((add_yields _ _ _).mono fun h => by omega) (Or.inl ?_)
          rw [Lib.Results.ok_bind]
          by_cases hwide : width + measure locale piece > maxWidth
          · rw [if_pos hwide, if_pos (Or.inl hwide)]
            rfl
          · by_cases hlong : piece.length + back.length > maxBytes
            · rw [if_neg hwide, if_pos hlong, if_pos (Or.inr hlong)]
              rfl
            · rw [if_neg hwide, if_neg hlong, if_neg (by omega)]
              rfl
        by_cases hfits : measure locale piece ≤ maxWidth - width
            ∧ piece.length ≤ maxBytes - back.length
        · have hkept : r.length - (fittingSuffix locale (maxWidth - width) (maxBytes - back.length)
              r.reverse).length
              = left.length - (fittingSuffix locale (maxWidth - (width + measure locale piece))
                (maxBytes - (piece ++ back).length) left.reverse).length := by
            rw [fittingSuffix, fittingSuffix, List.reverse_reverse, List.reverse_reverse, hpieces,
              fitting_cons_of_fits hfits, List.reverse_cons, List.flatten_append,
              List.length_append, List.flatten_cons, List.flatten_nil, List.append_nil,
              Int.sub_sub, Nat.sub_sub, ← hlength, List.length_append, Nat.add_comm back.length,
              Nat.add_sub_add_right]
          have hpiecepos : 0 < piece.length := by
            have hpos := List.length_pos_of_ne_nil hr
            rw [hpiece, List.length_reverse, List.length_take, backLength]
            omega
          rw [if_neg (by omega)] at hturn
          have hrest := ih left (piece ++ back) (width + measure locale piece)
            (fun h => h0 (List.mem_of_mem_drop (hleft ▸ h))) (by omega)
            (by rw [List.length_append]; omega) (by omega)
          rw [List.append_assoc piece, ← List.append_assoc left.reverse,
            ← List.append_assoc left.reverse, hsplit, ← hcolumns] at hrest
          rw [hkept]
          exact Yields.loop_again hturn hrest
        · have hkept : (fittingSuffix locale (maxWidth - width) (maxBytes - back.length)
              r.reverse).length = 0 := by
            rw [fittingSuffix, List.reverse_reverse, hpieces, fitting_cons_of_not hfits]
            rfl
          rw [if_pos (by omega)] at hturn
          rw [hkept, Nat.sub_zero]
          exact Yields.loop_leave hturn fuel

/-- The rounds of `suffix_fitting` that drop zero width characters. -/
theorem zeroWidthLoop_yields (hlocale : Consumes locale) (fuel : ℕ) :
    ∀ front rest : List Byte, (0 : Byte) ∉ rest → rest.length < fuel →
      Yields (loop (zeroWidthTurn locale (front ++ rest ++ [0]) (front ++ rest).length) fuel
          front.length)
        (front.length + (zeroWidth locale rest).length)
        (∃ piece ∈ pieces rest, INT_MAX < measure locale piece) := by
  induction fuel with
  | zero =>
      intro front rest _ hfuel
      omega
  | succ fuel ih =>
      intro front rest h0 hfuel
      cases rest with
      | nil =>
          apply Yields.loop_leave
          left
          rw [List.append_nil, zeroWidthTurn, if_neg (Nat.lt_irrefl _), zeroWidth, pieces_nil]
          rfl
      | cons b rest =>
          obtain ⟨piece, left, hpiece, hleft, hsplit, hpieces⟩ := exists_next_piece front b rest
          have hlength : (front ++ piece).length = front.length + piece.length := List.length_append
          have hfuel' : left.length < fuel := by
            have hshort := hleft.length_le
            rw [List.length_cons] at hfuel
            omega
          have hturn : Yields (zeroWidthTurn locale (front ++ b :: rest ++ [0])
              (front ++ b :: rest).length front.length)
              (if measure locale piece ≠ 0 then .leave front.length
                else .again (front.length + piece.length))
              (∃ piece ∈ pieces (b :: rest), INT_MAX < measure locale piece) := by
            rw [zeroWidthTurn, if_pos (by rw [List.length_append, List.length_cons]; omega)]
            apply nextPiece_yields hlocale h0 front [0]
            · rw [← hpiece, hpieces]
              exact fun h => ⟨piece, List.mem_cons_self, h⟩
            · rw [← hpiece]
              left
              split <;> rfl
          by_cases hzero : measure locale piece = 0
          · have hkept : front.length + (zeroWidth locale (b :: rest)).length
                = front.length + piece.length + (zeroWidth locale left).length := by
              rw [zeroWidth, hpieces, List.takeWhile_cons_of_pos (by simpa using hzero),
                List.flatten_cons, List.length_append, zeroWidth, Nat.add_assoc]
            rw [if_neg (not_not.mpr hzero)] at hturn
            have hrest := ih (front ++ piece) left
              (fun h => h0 (List.mem_cons_of_mem b (hleft.subset h))) hfuel'
            rw [hsplit, hlength] at hrest
            rw [hkept]
            refine Yields.loop_again hturn (hrest.mono ?_)
            rintro ⟨p, hp, hlarge⟩
            exact ⟨p, hpieces ▸ List.mem_cons_of_mem piece hp, hlarge⟩
          · have hkept : (zeroWidth locale (b :: rest)).length = 0 := by
              rw [zeroWidth, hpieces, List.takeWhile_cons_of_neg (by simpa using hzero)]
              rfl
            rw [if_pos hzero] at hturn
            rw [hkept]
            exact Yields.loop_leave hturn fuel

/-- **`suffix_fitting` is the length of the longest end that fits**, less its
zero width characters in front. -/
theorem suffix_fitting_yields (hlocale : Consumes locale) (maxWidth : ℤ) (maxBytes : ℕ)
    {bs : List Byte} (h0 : (0 : Byte) ∉ bs) :
    Yields (suffix_fitting locale (bs ++ [0]) maxWidth maxBytes)
      (trimZeroWidth locale (fittingSuffix locale maxWidth maxBytes bs)).length
      (INT_MAX < measureAll locale (backPieces bs.reverse)
        ∨ ∃ piece ∈ pieces (fittingSuffix locale maxWidth maxBytes bs),
          INT_MAX < measure locale piece) := by
  obtain ⟨front, hfront⟩ := fittingSuffix_isSuffix locale maxWidth maxBytes bs
  have hstart := suffixLoop_yields hlocale maxWidth maxBytes (bs.length + 1) bs.reverse [] 0
    (fun h => h0 (List.mem_reverse.mp h)) (by rw [List.length_reverse]; omega) (Nat.zero_le _)
    (le_refl 0)
  rw [List.reverse_reverse, List.nil_append, List.append_nil, List.length_reverse, List.length_nil,
    Int.sub_zero, Nat.sub_zero, Int.zero_add] at hstart
  obtain ⟨kept, hkept⟩ : ∃ kept, kept = fittingSuffix locale maxWidth maxBytes bs := ⟨_, rfl⟩
  rw [← hkept] at hfront hstart ⊢
  have hlength : bs.length - kept.length = front.length := by
    rw [← hfront, List.length_append, Nat.add_sub_cancel]
  have hzero := zeroWidthLoop_yields hlocale (bs.length + 1) front kept
    (fun h => h0 (hfront ▸ List.mem_append_right front h))
    (by rw [← hfront, List.length_append]; omega)
  rw [hfront] at hzero
  have hsub : sub bs.length (front.length + (zeroWidth locale kept).length)
      = .ok (trimZeroWidth locale kept).length := by
    have hkeptlen := congrArg List.length (zeroWidth_append locale kept)
    rw [List.length_append] at hkeptlen
    rw [← hfront, List.length_append, ← hkeptlen, sub_eq (by omega)]
    congr 1
    omega
  rw [suffix_fitting, strlen_at_eq h0, Lib.Results.ok_bind]
  refine Yields.bind (hstart.mono Or.inl) ?_
  rw [hlength]
  refine Yields.bind (hzero.mono Or.inr) ?_
  exact Or.inl hsub

end Hstr.Elide
