/-
What `hstr_strelide` does to bytes that are not well-formed.

The budget of columns is spent piece by piece, and each piece is measured on its
own. A piece that is the beginning of a character and not all of it has no
columns then: `mbrtowc` waits for the rest. In the string that is written
something else follows, the bytes do not decode, and each of them is a column.
So a row overflows by the bytes of such pieces, as far as no columns are left: the
columns of what is written are those of its pieces, and these bytes.

A Latin-1 letter above `0xBF` in front of another letter is such a piece.
-/
import Hstr.ElideText

set_option autoImplicit false

namespace Hstr.ElideBytes

open Lib.Checked Lib.Fitting Lib.Utf8
open Hstr.Strings Hstr.Columns Hstr.Pieces Hstr.Elide Hstr.ElideText

variable (wcwidth : ℕ → ℤ)

/-- What is written stays within the columns it was given. -/
def StaysInRow (s : CString) (buffer : List Byte) (maxWidth : ℕ) : Prop :=
  ∃ r width, hstr_strelide (utf8Locale wcwidth) buffer (s.bytes ++ [0]) maxWidth = .ok r
    ∧ hstr_strwidth (utf8Locale wcwidth) r.buffer = .ok width ∧ width ≤ maxWidth

section Width

variable {wcwidth}

/-- A piece that is not cut off can be read to its end. -/
theorem closed_of_mem_pieces {bs p : List Byte} (hp : p ∈ pieces bs) (h : ¬ Truncated p) :
    Closed p := by
  induction bs using pieces_induction with
  | nil =>
      rw [pieces_nil] at hp
      exact absurd hp List.not_mem_nil
  | cons b rest ih =>
      rw [pieces_cons, List.mem_cons] at hp
      rcases hp with rfl | hp
      · exact (closed_or_truncated b fun x hx => following_continuations hx).resolve_right h
      · exact ih hp

theorem closed_of_mem_backPieces {r p : List Byte} (hp : p ∈ backPieces r) (h : ¬ Truncated p) :
    Closed p := by
  induction r using backPieces_induction with
  | nil =>
      rw [backPieces_nil] at hp
      exact absurd hp List.not_mem_nil
  | cons r hr ih =>
      rw [backPieces_of_ne_nil hr, List.mem_cons] at hp
      rcases hp with rfl | hp
      · obtain ⟨b, t, hshape, ht, -⟩ := backPiece_shape hr
        rw [hshape] at h ⊢
        exact (closed_or_truncated b ht).resolve_right h
      · exact ih hp

theorem closed_flatten {ps : List (List Byte)} (h : ∀ p ∈ ps, Closed p) : Closed ps.flatten := by
  induction ps with
  | nil => exact Closed.nil
  | cons p ps ih =>
      rw [List.flatten_cons]
      exact (h p List.mem_cons_self).append (ih fun q hq => h q (List.mem_cons_of_mem p hq))

/-- Pieces that can be read to their end are as wide in a row as on their own. -/
theorem width_flatten_append (w : Char → ℤ) {ps : List (List Byte)} (h : ∀ p ∈ ps, Closed p)
    (r : List Byte) : width w (ps.flatten ++ r) = (ps.map (width w)).sum + width w r := by
  induction ps with
  | nil => rw [List.flatten_nil, List.nil_append, List.map_nil, List.sum_nil, Int.zero_add]
  | cons p ps ih =>
      rw [List.flatten_cons, List.append_assoc, (h p List.mem_cons_self).width_append,
        ih fun q hq => h q (List.mem_cons_of_mem p hq), List.map_cons, List.sum_cons, Int.add_assoc]

/-- The bytes of the pieces that are cut off, where something follows. -/
def uncounted (ps : List (List Byte)) : ℕ :=
  ((ps.dropLast.filter fun p => Truncated p).map List.length).sum

theorem uncounted_cons (p : List Byte) {ps : List (List Byte)} (h : ps ≠ []) :
    uncounted (p :: ps) = (if Truncated p then p.length else 0) + uncounted ps := by
  rw [uncounted, List.dropLast_cons_of_ne_nil h]
  by_cases hp : Truncated p
  · rw [List.filter_cons_of_pos (by simpa using hp), List.map_cons, List.sum_cons, if_pos hp,
      uncounted]
  · rw [List.filter_cons_of_neg (by simpa using hp), if_neg hp, Nat.zero_add, uncounted]

theorem uncounted_eq_zero {ps : List (List Byte)} (h : ∀ p ∈ ps.dropLast, ¬ Truncated p) :
    uncounted ps = 0 := by
  have hnone : (ps.dropLast.filter fun p => Truncated p) = [] :=
    List.filter_eq_nil_iff.mpr fun p hp => by simpa using h p hp
  rw [uncounted, hnone, List.map_nil, List.sum_nil]

/-- A piece that is cut off, and something else behind it. -/
theorem width_truncated_append (w : Char → ℤ) {p : List Byte} (hp : Truncated p) {y : Byte}
    (hy : IsContinuation y = false) (r : List Byte) :
    width w (p ++ y :: r) = p.length + width w (y :: r) := by
  by_cases hne : p = []
  · rw [hne, List.nil_append, List.length_nil, Nat.cast_zero, Int.zero_add]
  · obtain ⟨b, t, rfl, -, -, ht, -⟩ := hp.shape hne
    have hread := hp.read_append hne hy r
    rw [List.cons_append] at hread ⊢
    rw [width_invalid hread, width_continuations ht, List.length_cons]
    push_cast
    omega

/-- **What is not counted**: pieces in a row need as many columns as they do on
their own, and one for each byte of a piece that is cut off. -/
theorem width_flatten_pieces (w : Char → ℤ) (bs : List Byte) :
    ∀ ps : List (List Byte), ps <+: pieces bs →
      width w ps.flatten = (ps.map (width w)).sum + uncounted ps := by
  induction bs using pieces_induction with
  | nil =>
      intro ps hps
      rw [pieces_nil] at hps
      rw [List.prefix_nil.mp hps]
      exact width_nil
  | cons b rest ih =>
      intro ps hps
      rw [pieces_cons] at hps
      cases ps with
      | nil => exact width_nil
      | cons p ps =>
          obtain ⟨rfl, hrestps⟩ := List.cons_prefix_cons.mp hps
          rw [List.flatten_cons, List.map_cons, List.sum_cons]
          by_cases hnil : ps = []
          · rw [hnil, List.flatten_nil, List.append_nil, List.map_nil, List.sum_nil, uncounted]
            simp
          · have hrest := ih ps hrestps
            rw [uncounted_cons _ hnil]
            by_cases htrunc : Truncated (b :: following rest)
            · -- something else than a continuation follows
              obtain ⟨y, r, hdrop, hy⟩ : ∃ y r, rest.drop (following rest).length = y :: r
                  ∧ IsContinuation y = false := by
                rcases following_ends rest with hfull | hend | hother
                · obtain ⟨b', t, hshape, -, -, -, hlen⟩ := htrunc.shape (List.cons_ne_nil _ _)
                  rw [(List.cons.inj hshape).2] at hfull
                  omega
                · rw [hend, pieces_nil] at hrestps
                  exact absurd (List.prefix_nil.mp hrestps) hnil
                · exact hother
              obtain ⟨p, ps, rfl⟩ := List.exists_cons_of_ne_nil hnil
              rw [hdrop, pieces_cons] at hrestps
              have hflatten : (p :: ps).flatten = y :: (following r ++ ps.flatten) := by
                rw [(List.cons_prefix_cons.mp hrestps).1, List.flatten_cons, List.cons_append]
              rw [if_pos htrunc, width_truncated htrunc, hflatten,
                width_truncated_append w htrunc hy, ← hflatten, hrest]
              push_cast
              omega
            · have hclosed : Closed (b :: following rest) :=
                (closed_or_truncated b fun x hx => following_continuations hx).resolve_right htrunc
              rw [if_neg htrunc, hclosed.width_append, hrest]
              push_cast
              omega

/-- What is behind a piece is no wider than the piece and what is behind it. -/
theorem width_behind_piece_le {w : Char → ℤ} (hw : ∀ c, 0 ≤ w c) (b : Byte) (rest : List Byte) :
    width w (rest.drop (following rest).length) ≤ width w (b :: rest) := by
  have hsplit : b :: rest = (b :: following rest) ++ rest.drop (following rest).length := by
    rw [List.cons_append, following_append_drop]
  have hpiece := width_nonneg hw (b :: following rest)
  by_cases htrunc : Truncated (b :: following rest)
  · rcases following_ends rest with hfull | hend | ⟨y, r, hdrop, hy⟩
    · obtain ⟨b', t, hshape, -, -, -, hlen⟩ := htrunc.shape (List.cons_ne_nil _ _)
      rw [(List.cons.inj hshape).2] at hfull
      omega
    · rw [hend, width_nil]
      exact width_nonneg hw _
    · rw [hsplit, hdrop, width_truncated_append w htrunc hy]
      omega
  · have hclosed : Closed (b :: following rest) :=
      (closed_or_truncated b fun x hx => following_continuations hx).resolve_right htrunc
    rw [hsplit, hclosed.width_append]
    omega

theorem width_trimZeroWidth_le {w : Char → ℤ} (hw : ∀ c, 0 ≤ w c) (locale : Locale Unit)
    (bs : List Byte) : width w (trimZeroWidth locale bs) ≤ width w bs := by
  induction bs using pieces_induction with
  | nil =>
      rw [trimZeroWidth, pieces_nil]
      exact le_refl _
  | cons b rest ih =>
      have hbehind := width_behind_piece_le hw b rest
      by_cases hzero : measure locale (b :: following rest) = 0
      · have htrim : trimZeroWidth locale (b :: rest)
            = trimZeroWidth locale (rest.drop (following rest).length) := by
          rw [trimZeroWidth, pieces_cons, List.dropWhile_cons_of_pos (by simpa using hzero),
            trimZeroWidth]
        rw [htrim]
        omega
      · have htrim : trimZeroWidth locale (b :: rest) = b :: rest := by
          rw [trimZeroWidth, pieces_cons, List.dropWhile_cons_of_neg (by simpa using hzero),
            ← pieces_cons, flatten_pieces]
        rw [htrim]

end Width

/-! ## What stays in the row -/

/-- The pieces that `prefix_fitting` takes. -/
def takenPieces (maxWidth : ℤ) (maxBytes : ℕ) (bs : List Byte) : List (List Byte) :=
  fitting (measure (utf8Locale wcwidth)) List.length maxWidth maxBytes (pieces bs)

/-- The pieces that `suffix_fitting` takes, the last one of the string first. -/
def takenBackPieces (maxWidth : ℤ) (maxBytes : ℕ) (bs : List Byte) : List (List Byte) :=
  fitting (measure (utf8Locale wcwidth)) List.length maxWidth maxBytes (backPieces bs.reverse)

theorem takenPieces_isPrefix (maxWidth : ℤ) (maxBytes : ℕ) (bs : List Byte) :
    takenPieces wcwidth maxWidth maxBytes bs <+: pieces bs := fitting_isPrefix _ _ _ _ _

theorem takenBackPieces_isPrefix (maxWidth : ℤ) (maxBytes : ℕ) (bs : List Byte) :
    takenBackPieces wcwidth maxWidth maxBytes bs <+: backPieces bs.reverse :=
  fitting_isPrefix _ _ _ _ _

/-- What is written in front of the terminator. -/
def written (bufferSize maxWidth : ℕ) (bs : List Byte) : List Byte :=
  if Elides (utf8Locale wcwidth) bufferSize maxWidth bs then
    elidedPrefix (utf8Locale wcwidth) bufferSize maxWidth bs ++ dots
      ++ elidedSuffix (utf8Locale wcwidth) bufferSize maxWidth bs
  else fittingPrefix (utf8Locale wcwidth) (maxColumns maxWidth) (bufferSize - 1) bs

/-- No piece that is cut off is taken where something else comes behind it. -/
def Counted (bufferSize maxWidth : ℕ) (bs : List Byte) : Prop :=
  let locale := utf8Locale wcwidth
  if Elides locale bufferSize maxWidth bs then
    let front := elidedPrefix locale bufferSize maxWidth bs
    let room := bufferSize - 1 - dots.length
    (∀ p ∈ takenPieces wcwidth (maxColumns maxWidth / 2 - 1) room bs, ¬ Truncated p)
      ∧ ∀ p ∈ (takenBackPieces wcwidth (maxColumns maxWidth - measure locale front - dots.length)
          (room - front.length) bs).tail, ¬ Truncated p
  else
    -- a string that fits as it is, is written as far as there is room
    measure locale bs ≤ maxColumns maxWidth
      ∨ ∀ p ∈ (takenPieces wcwidth (maxColumns maxWidth) (bufferSize - 1) bs).dropLast,
        ¬ Truncated p

section Row

variable {wcwidth} {s : CString} {buffer : List Byte} {maxWidth : ℕ}

theorem maxColumns_bounds (maxWidth : ℕ) :
    0 ≤ maxColumns maxWidth ∧ maxColumns maxWidth ≤ maxWidth ∧ maxColumns maxWidth ≤ INT_MAX := by
  rw [maxColumns]
  split <;> omega

/-- The row that is written, by what is written: its columns are counted, unless they
are too many for an `int`. -/
theorem staysInRow_iff {r : Elided} {out rest : List Byte}
    (hrun : hstr_strelide (utf8Locale wcwidth) buffer (s.bytes ++ [0]) maxWidth = .ok r)
    (hr : r.buffer = out ++ 0 :: rest) (h0 : (0 : Byte) ∉ out)
    (hnarrow : width (charWidth wcwidth) out ≤ INT_MAX ∨ maxWidth ≤ INT_MAX) :
    StaysInRow wcwidth s buffer maxWidth ↔ width (charWidth wcwidth) out ≤ maxWidth := by
  have hwidth := hstr_strwidth_yields (consumes_utf8 wcwidth) h0 rest
  rw [← hr, measure_utf8 wcwidth h0] at hwidth
  constructor
  · rintro ⟨r', width', hr', hwidth', hle⟩
    rw [hrun] at hr'
    rw [← Except.ok.inj hr'] at hwidth'
    rcases hwidth with hok | ⟨herror, -⟩
    · rw [hok] at hwidth'
      rwa [Except.ok.inj hwidth']
    · rw [herror] at hwidth'
      cases hwidth'
  · intro hle
    refine ⟨r, _, hrun, hwidth.eq_ok ?_, hle⟩
    omega

/-- Pieces of a string have no NUL. -/
theorem measureAll_eq {ps : List (List Byte)} (h0 : ∀ p ∈ ps, (0 : Byte) ∉ p) :
    measureAll (utf8Locale wcwidth) ps = (ps.map (width (charWidth wcwidth))).sum := by
  rw [measureAll]
  congr 1
  exact List.map_congr_left fun p hp => measure_utf8 wcwidth (h0 p hp)

theorem zero_not_mem_of_mem_pieces {bs p : List Byte} (h0 : (0 : Byte) ∉ bs) (hp : p ∈ pieces bs) :
    (0 : Byte) ∉ p := by
  intro h
  have hmem := List.mem_flatten_of_mem hp h
  rw [flatten_pieces] at hmem
  exact h0 hmem

theorem zero_not_mem_of_mem_backPieces {r p : List Byte} (h0 : (0 : Byte) ∉ r)
    (hp : p ∈ backPieces r) : (0 : Byte) ∉ p := by
  intro h
  have hmem := List.mem_flatten_of_mem (List.mem_reverse.mpr hp) h
  rw [flatten_backPieces] at hmem
  exact h0 (List.mem_reverse.mp hmem)

/-- What is written is in the buffer, and has no NUL. -/
theorem exists_written (hnarrow : Narrow (utf8Locale wcwidth) s.bytes)
    (hbuffer : 0 < buffer.length) (maxWidth : ℕ) :
    ∃ r rest, hstr_strelide (utf8Locale wcwidth) buffer (s.bytes ++ [0]) maxWidth = .ok r
      ∧ r.buffer = written wcwidth buffer.length maxWidth s.bytes ++ 0 :: rest
      ∧ (0 : Byte) ∉ written wcwidth buffer.length maxWidth s.bytes := by
  unfold written
  split
  · next helide =>
      obtain ⟨p, q, rest, hp, hq, hrun, -⟩ :=
        hstr_strelide_elided (consumes_utf8 wcwidth) s.nonul helide
      have hpre : p <+: s.bytes := hp ▸ fittingPrefix_isPrefix _ _ _ _
      have hsuf : q <:+ s.bytes := hq ▸
        (trimZeroWidth_isSuffix _ _).trans (fittingSuffix_isSuffix _ _ _ _)
      rw [← hp, ← hq]
      refine ⟨_, rest, hrun.eq_ok (not_not.mpr hnarrow), rfl, ?_⟩
      simp only [List.mem_append, not_or]
      exact ⟨⟨fun h => s.nonul (hpre.subset h), by decide⟩, fun h => s.nonul (hsuf.subset h)⟩
  · next helide =>
      obtain ⟨p, rest, hp, hrun, -⟩ :=
        hstr_strelide_fitting (consumes_utf8 wcwidth) s.nonul hbuffer helide
      have hpre : p <+: s.bytes := hp ▸ fittingPrefix_isPrefix _ _ _ _
      rw [← hp]
      exact ⟨_, rest, hrun.eq_ok (not_not.mpr hnarrow), rfl, fun h => s.nonul (hpre.subset h)⟩

/-- The columns of what is written fit an `int`, or the row is no wider. -/
theorem written_narrow (hnarrow : Narrow (utf8Locale wcwidth) s.bytes) (bufferSize : ℕ) :
    width (charWidth wcwidth) (written wcwidth bufferSize maxWidth s.bytes) ≤ INT_MAX
      ∨ maxWidth ≤ INT_MAX := by
  unfold written
  split
  · next helide =>
      right
      have hwide : measure (utf8Locale wcwidth) s.bytes > maxColumns maxWidth := helide.1
      have hwhole := hnarrow.front s.bytes List.prefix_rfl
      rw [maxColumns] at hwide
      split at hwide <;> omega
  · left
    have hpre := fittingPrefix_isPrefix (utf8Locale wcwidth) (maxColumns maxWidth) (bufferSize - 1)
      s.bytes
    have hfront := hnarrow.front _ hpre
    rwa [measure_utf8 wcwidth fun h => s.nonul (hpre.subset h)] at hfront

theorem staysInRow_iff_written (hnarrow : Narrow (utf8Locale wcwidth) s.bytes)
    (hbuffer : 0 < buffer.length) :
    StaysInRow wcwidth s buffer maxWidth
      ↔ width (charWidth wcwidth) (written wcwidth buffer.length maxWidth s.bytes) ≤ maxWidth := by
  obtain ⟨r, rest, hrun, hr, h0⟩ := exists_written hnarrow hbuffer maxWidth
  exact staysInRow_iff hrun hr h0 (written_narrow hnarrow buffer.length)

theorem width_dots_append (hdot : wcwidth '.'.toNat = 1) (r : List Byte) :
    width (charWidth wcwidth) (dots ++ r) = 3 + width (charWidth wcwidth) r := by
  have htext : dots = text ['.', '.', '.'] := rfl
  rw [htext, (closed_text _).width_append, width_text, ← columns, columns_dots hdot]

/-- The beginning that is taken, in front of something. -/
theorem width_taken_append {maxWidth : ℤ} {maxBytes : ℕ} {bs : List Byte}
    (h0 : (0 : Byte) ∉ bs) (hmax : 0 ≤ maxWidth)
    (hwhole : ∀ p ∈ takenPieces wcwidth maxWidth maxBytes bs, ¬ Truncated p) (r : List Byte) :
    width (charWidth wcwidth) ((takenPieces wcwidth maxWidth maxBytes bs).flatten ++ r)
        = width (charWidth wcwidth) (takenPieces wcwidth maxWidth maxBytes bs).flatten
          + width (charWidth wcwidth) r
      ∧ width (charWidth wcwidth) (takenPieces wcwidth maxWidth maxBytes bs).flatten ≤ maxWidth := by
  have hpre := takenPieces_isPrefix wcwidth maxWidth maxBytes bs
  have hclosed : ∀ p ∈ takenPieces wcwidth maxWidth maxBytes bs, Closed p := fun p hp =>
    closed_of_mem_pieces (hpre.subset hp) (hwhole p hp)
  have hsum : measureAll (utf8Locale wcwidth) (takenPieces wcwidth maxWidth maxBytes bs) ≤ maxWidth :=
    sum_cost_fitting _ _ _ hmax _
  rw [measureAll_eq fun p hp => zero_not_mem_of_mem_pieces h0 (hpre.subset hp)] at hsum
  refine ⟨(closed_flatten hclosed).width_append _ r, ?_⟩
  have hflatten := width_flatten_append (charWidth wcwidth) hclosed []
  rw [List.append_nil, width_nil, Int.add_zero] at hflatten
  rw [hflatten]
  exact hsum

/-- The end that is taken. -/
theorem width_takenBack_le {maxWidth : ℤ} {maxBytes : ℕ} {bs : List Byte}
    (h0 : (0 : Byte) ∉ bs) (hmax : 0 ≤ maxWidth)
    (hwhole : ∀ p ∈ (takenBackPieces wcwidth maxWidth maxBytes bs).tail, ¬ Truncated p) :
    width (charWidth wcwidth) (takenBackPieces wcwidth maxWidth maxBytes bs).reverse.flatten
      ≤ maxWidth := by
  have hpre := takenBackPieces_isPrefix wcwidth maxWidth maxBytes bs
  have hsum : measureAll (utf8Locale wcwidth) (takenBackPieces wcwidth maxWidth maxBytes bs)
      ≤ maxWidth := sum_cost_fitting _ _ _ hmax _
  rw [measureAll_eq fun p hp => zero_not_mem_of_mem_backPieces
    (fun h => h0 (List.mem_reverse.mp h)) (hpre.subset hp)] at hsum
  cases htaken : takenBackPieces wcwidth maxWidth maxBytes bs with
  | nil =>
      rw [List.reverse_nil, List.flatten_nil, width_nil]
      exact hmax
  | cons p ps =>
      rw [htaken] at hsum hwhole hpre
      have hclosed : ∀ q ∈ ps.reverse, Closed q := fun q hq =>
        closed_of_mem_backPieces (hpre.subset (List.mem_cons_of_mem p (List.mem_reverse.mp hq)))
          (hwhole q (List.mem_reverse.mp hq))
      rw [List.map_cons, List.sum_cons] at hsum
      rw [List.reverse_cons, List.flatten_append, width_flatten_append _ hclosed, List.map_reverse,
        List.sum_reverse, List.flatten_cons, List.flatten_nil, List.append_nil]
      omega

/-- **What is enough for the string**: where every piece that is kept is counted, the
row is long enough. -/
theorem in_row_of_counted (hdot : wcwidth '.'.toNat = 1)
    (hnarrow : Narrow (utf8Locale wcwidth) s.bytes) (hbuffer : 0 < buffer.length)
    (hcounted : Counted wcwidth buffer.length maxWidth s.bytes) :
    StaysInRow wcwidth s buffer maxWidth := by
  obtain ⟨hmaxpos, hmaxle, hmaxint⟩ := maxColumns_bounds maxWidth
  rw [staysInRow_iff_written hnarrow hbuffer]
  refine le_trans ?_ hmaxle
  unfold written
  by_cases helide : Elides (utf8Locale wcwidth) buffer.length maxWidth s.bytes
  · simp only [Counted, if_pos helide] at hcounted
    obtain ⟨hfront, hback⟩ := hcounted
    rw [if_pos helide]
    have hpre : elidedPrefix (utf8Locale wcwidth) buffer.length maxWidth s.bytes <+: s.bytes :=
      fittingPrefix_isPrefix _ _ _ _
    have hdotslen : (dots.length : ℤ) = 3 := rfl
    have hmax : maxColumns maxWidth > dots.length := helide.2.1
    have hpwidth := width_taken_append s.nonul (by omega) hfront
      (dots ++ elidedSuffix (utf8Locale wcwidth) buffer.length maxWidth s.bytes)
    have hptaken : elidedPrefix (utf8Locale wcwidth) buffer.length maxWidth s.bytes
        = (takenPieces wcwidth (maxColumns maxWidth / 2 - 1) (buffer.length - 1 - dots.length)
          s.bytes).flatten := rfl
    rw [← hptaken] at hpwidth
    have hmeasure := measure_utf8 wcwidth fun h => s.nonul (hpre.subset h)
    rw [hmeasure] at hback
    have hqwidth : width (charWidth wcwidth)
          (elidedSuffix (utf8Locale wcwidth) buffer.length maxWidth s.bytes)
        ≤ maxColumns maxWidth - width (charWidth wcwidth)
          (elidedPrefix (utf8Locale wcwidth) buffer.length maxWidth s.bytes) - dots.length := by
      rw [elidedSuffix, hmeasure]
      exact (width_trimZeroWidth_le (charWidth_nonneg wcwidth) _ _).trans
        (width_takenBack_le s.nonul (by omega) hback)
    rw [List.append_assoc, hpwidth.1, width_dots_append hdot]
    omega
  · simp only [Counted, if_neg helide] at hcounted
    have hpre := takenPieces_isPrefix wcwidth (maxColumns maxWidth) (buffer.length - 1) s.bytes
    rw [if_neg helide]
    rcases hcounted with hfits | hwhole
    · -- no beginning is wider than the string
      rw [measure_utf8 wcwidth s.nonul] at hfits
      exact (width_mono (charWidth_nonneg wcwidth) (fittingPrefix_isPrefix (utf8Locale wcwidth)
        (maxColumns maxWidth) (buffer.length - 1) s.bytes)).trans hfits
    · have hsum : measureAll (utf8Locale wcwidth)
          (takenPieces wcwidth (maxColumns maxWidth) (buffer.length - 1) s.bytes)
            ≤ maxColumns maxWidth := sum_cost_fitting _ _ _ hmaxpos _
      rw [fittingPrefix, ← takenPieces, width_flatten_pieces (charWidth wcwidth) s.bytes _ hpre,
        ← measureAll_eq fun q hq => zero_not_mem_of_mem_pieces s.nonul (hpre.subset hq),
        uncounted_eq_zero hwhole]
      omega

end Row

end Hstr.ElideBytes
