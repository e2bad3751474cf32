/-
The UTF-8 locale, and the columns of a string in it.

`mbrtowc` of a UTF-8 locale is the decoder of `Lib.Utf8`. Every character it
stores ends in the initial conversion state, so a string is measured from any
character on as it is measured from its start. `hstr_strnwidth` then is the
width of `Lib.Utf8`, for any widths of the characters.
-/
import Hstr.Lib.Utf8
import Hstr.Utils

set_option autoImplicit false

namespace Hstr.Columns

open Lib.Utf8 Hstr.Strings Hstr.Utils

/-- `mbrtowc` of a UTF-8 locale. -/
def mbrtowc (bs : List Byte) : MbResult :=
  match read bs with
  | .character c => if c.toNat = 0 then .nul else .char c.toNat c.utf8Size
  | .truncated => .incomplete
  | .invalid => .invalid

/-- A UTF-8 locale, with the widths it has for characters. -/
def utf8 (wcwidth : ℕ → ℤ) : LcCtype := ⟨mbrtowc, wcwidth⟩

/-- The columns of a character: one where it cannot be printed. -/
def charWidth (wcwidth : ℕ → ℤ) (c : Char) : ℤ :=
  if wcwidth c.toNat < 0 then 1 else wcwidth c.toNat

theorem charWidth_nonneg (wcwidth : ℕ → ℤ) (c : Char) : 0 ≤ charWidth wcwidth c := by
  unfold charWidth
  split <;> omega

/-- Only the NUL character has a NUL byte. -/
theorem toNat_ne_zero_of_not_mem {c : Char} (h : (0 : Byte) ∉ encode c) : c.toNat ≠ 0 := by
  intro hc
  apply h
  rw [encode_eq_encodeNat, hc]
  decide

theorem zero_not_mem_encode {c : Char} (hc : c ≠ '\x00') : (0 : Byte) ∉ encode c := by
  intro hmem
  have hnat : c.toNat ≠ 0 := by
    intro h0
    exact hc (Char.ext (UInt32.toNat_inj.mp h0))
  obtain ⟨b, t, henc, -, ht, -, hlead⟩ := encode_shape c
  rw [henc, List.mem_cons] at hmem
  rcases hmem with hb | hmem
  · by_cases htnil : t = []
    · -- a single byte is the number of the character
      have hsize : c.utf8Size = 1 := by
        rw [← length_encode, henc, htnil]
        rfl
      have hsmall : c.toNat ≤ 0x7f := by
        have hle := Char.utf8Size_eq_one_iff.mp hsize
        exact hle
      rw [encode_eq_encodeNat, encodeNat, if_pos hsmall, htnil, ← hb] at henc
      have hbyte := congrArg UInt8.toNat (List.cons.inj henc).1
      rw [UInt8.toNat_ofNat'] at hbyte
      have hzero : (0 : Byte).toNat = 0 := rfl
      omega
    · have hl := hlead htnil
      rw [← hb] at hl
      exact absurd hl (by decide)
  · exact absurd (ht 0 hmem) (by decide)

/-- A text without the NUL character is a string. -/
theorem zero_not_mem_text {cs : List Char} (h : '\x00' ∉ cs) : (0 : Byte) ∉ text cs := by
  intro hmem
  obtain ⟨c, hc, hmem⟩ := List.mem_flatMap.mp hmem
  exact zero_not_mem_encode (fun h0 => h (h0 ▸ hc)) hmem

theorem mbrtowc_character {bs : List Byte} {c : Char} (h : read bs = .character c)
    (hc : c.toNat ≠ 0) : mbrtowc bs = .char c.toNat c.utf8Size := by
  rw [mbrtowc, h]
  exact if_neg hc

theorem mbrtowc_truncated {bs : List Byte} (h : read bs = .truncated) :
    mbrtowc bs = .incomplete := by
  rw [mbrtowc, h]

theorem mbrtowc_invalid {bs : List Byte} (h : read bs = .invalid) : mbrtowc bs = .invalid := by
  rw [mbrtowc, h]

/-- One round of the loop of `hstr_strnwidth`, by what `mbrtowc` returns. -/
theorem strnwidthLoop_succ (wcwidth : ℕ → ℤ) (fuel : ℕ) (b : Byte) (rest : List Byte) :
    strnwidthLoop (utf8 wcwidth) (fuel + 1) (b :: rest) = match mbrtowc (b :: rest) with
      | .incomplete => 0
      | .nul => 0
      | .invalid => 1 + strnwidthLoop (utf8 wcwidth) fuel rest
      | .char wc length => (if wcwidth wc < 0 then 1 else wcwidth wc)
          + strnwidthLoop (utf8 wcwidth) fuel ((b :: rest).drop length) := rfl

/-- The loop of `hstr_strnwidth` measures the bytes. -/
theorem strnwidthLoop_utf8 (wcwidth : ℕ → ℤ) (fuel : ℕ) : ∀ bs : List Byte, (0 : Byte) ∉ bs →
    bs.length ≤ fuel → strnwidthLoop (utf8 wcwidth) fuel bs = width (charWidth wcwidth) bs := by
  induction fuel with
  | zero =>
      intro bs _ hlen
      rw [List.length_eq_zero_iff.mp (Nat.le_zero.mp hlen), width_nil]
      rfl
  | succ fuel ih =>
      intro bs h0 hlen
      cases bs with
      | nil =>
          rw [width_nil]
          rfl
      | cons b rest =>
          rw [strnwidthLoop_succ]
          cases hread : read (b :: rest) with
          | character c =>
              obtain ⟨r, hr⟩ := read_eq_character_iff.mp hread
              have hc : c.toNat ≠ 0 :=
                toNat_ne_zero_of_not_mem fun hmem => h0 (hr ▸ List.mem_append_left r hmem)
              have hpos := encode_length_pos c
              have hr0 : (0 : Byte) ∉ r := fun hmem => h0 (hr ▸ List.mem_append_right _ hmem)
              rw [← hr, List.length_append] at hlen
              rw [mbrtowc_character hread hc, ← hr, width_character, ← ih r hr0 (by omega)]
              dsimp only
              rw [← length_encode, List.drop_left]
              rfl
          | truncated =>
              rw [mbrtowc_truncated hread, width_truncated (read_eq_truncated_iff.mp hread)]
          | invalid =>
              rw [List.length_cons] at hlen
              have hrest0 : (0 : Byte) ∉ rest := fun hmem => h0 (List.mem_cons_of_mem b hmem)
              rw [mbrtowc_invalid hread, width_invalid hread, ← ih rest hrest0 (by omega)]

theorem hstr_strnwidth_utf8 (wcwidth : ℕ → ℤ) (s : CString) (n : ℕ) :
    hstr_strnwidth (utf8 wcwidth) s n = width (charWidth wcwidth) (s.bytes.take n) :=
  strnwidthLoop_utf8 wcwidth _ _ (fun h => s.nonul (List.mem_of_mem_take h)) (Nat.le_refl _)

/-- **`hstr_strwidth` is the width of the string.** -/
theorem hstr_strwidth_utf8 (wcwidth : ℕ → ℤ) (s : CString) :
    hstr_strwidth (utf8 wcwidth) s = width (charWidth wcwidth) s.bytes := by
  rw [hstr_strwidth, hstr_strnwidth_utf8, strlen, List.take_length]

end Hstr.Columns
