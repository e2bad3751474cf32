/-
What `hstr_strelide` does to well-formed text.

In a UTF-8 locale the pieces of a text are its characters, from the start and
from the end, and each of them has the columns of its character. So the loops
choose among characters, and the two budgets of columns and bytes decide which:
the longest beginning that fits, or a beginning and an end with `...` between.

All of it is about texts whose columns fit an `int`. A wider text has no result:
the sum of `hstr_strwidth` overflows.
-/
import Hstr.ElideSafe
import Mathlib.Algebra.Order.BigOperators.Group.List

set_option autoImplicit false

namespace Hstr.ElideText

open Lib.Checked Lib.Fitting Lib.Utf8
open Hstr.Strings Hstr.Utils Hstr.Columns Hstr.Pieces Hstr.Elide

variable (wcwidth : ℕ → ℤ)

/-- A UTF-8 locale. -/
abbrev utf8Locale : Locale Unit := stateless (utf8 wcwidth)

/-- The columns of a text. -/
def columns (cs : List Char) : ℤ := (cs.map (charWidth wcwidth)).sum

theorem columns_append (cs ds : List Char) :
    columns wcwidth (cs ++ ds) = columns wcwidth cs + columns wcwidth ds := by
  rw [columns, List.map_append, List.sum_append, columns, columns]

theorem columns_nonneg (cs : List Char) : 0 ≤ columns wcwidth cs :=
  sum_cost_nonneg (charWidth_nonneg wcwidth) cs

theorem columns_prefix_le {p cs : List Char} (h : p <+: cs) :
    columns wcwidth p ≤ columns wcwidth cs := by
  obtain ⟨r, rfl⟩ := h
  have hr := columns_nonneg wcwidth r
  rw [columns_append]
  omega

/-! ## Characters as pieces -/

section Pieces

variable {wcwidth} {cs : List Char}

theorem measure_text (h0 : '\x00' ∉ cs) :
    measure (utf8Locale wcwidth) (text cs) = columns wcwidth cs := by
  rw [measure_utf8 wcwidth (zero_not_mem_text h0), width_text, columns]

theorem measure_encode {c : Char} (hc : c ≠ '\x00') :
    measure (utf8Locale wcwidth) (encode c) = charWidth wcwidth c := by
  have hwidth := width_character (w := charWidth wcwidth) c []
  rw [List.append_nil, width_nil, Int.add_zero] at hwidth
  rw [measure_utf8 wcwidth (zero_not_mem_encode hc), hwidth]

theorem measureAll_encode (h0 : '\x00' ∉ cs) :
    measureAll (utf8Locale wcwidth) (cs.map encode) = columns wcwidth cs := by
  induction cs with
  | nil => rfl
  | cons c cs ih =>
      rw [List.map_cons, measureAll_cons, ih (List.not_mem_of_not_mem_cons h0),
        measure_encode (Ne.symm (List.ne_of_not_mem_cons h0)), columns, columns, List.map_cons,
        List.sum_cons]

/-- The characters in front that fit. -/
def fittingChars (wcwidth : ℕ → ℤ) (maxWidth : ℤ) (maxBytes : ℕ) (cs : List Char) : List Char :=
  fitting (charWidth wcwidth) (fun c => (encode c).length) maxWidth maxBytes cs

theorem fitting_encode (maxWidth : ℤ) (maxBytes : ℕ) (h0 : '\x00' ∉ cs) :
    fitting (measure (utf8Locale wcwidth)) List.length maxWidth maxBytes (cs.map encode)
      = (fittingChars wcwidth maxWidth maxBytes cs).map encode := by
  rw [fitting_map, fittingChars, fitting_congr]
  intro c hc
  apply measure_encode
  rintro rfl
  exact h0 hc

theorem fittingPrefix_text (maxWidth : ℤ) (maxBytes : ℕ) (h0 : '\x00' ∉ cs) :
    fittingPrefix (utf8Locale wcwidth) maxWidth maxBytes (text cs)
      = text (fittingChars wcwidth maxWidth maxBytes cs) := by
  rw [fittingPrefix, pieces_text, fitting_encode maxWidth maxBytes h0, text, List.flatMap]

theorem fittingSuffix_text (maxWidth : ℤ) (maxBytes : ℕ) (h0 : '\x00' ∉ cs) :
    fittingSuffix (utf8Locale wcwidth) maxWidth maxBytes (text cs)
      = text (fittingChars wcwidth maxWidth maxBytes cs.reverse).reverse := by
  have h0' : '\x00' ∉ cs.reverse := fun h => h0 (List.mem_reverse.mp h)
  rw [fittingSuffix, backPieces_text, ← List.map_reverse, fitting_encode maxWidth maxBytes h0',
    ← List.map_reverse, text, List.flatMap]

theorem trimZeroWidth_text (h0 : '\x00' ∉ cs) :
    trimZeroWidth (utf8Locale wcwidth) (text cs)
      = text (cs.dropWhile fun c => charWidth wcwidth c = 0) := by
  rw [trimZeroWidth, pieces_text]
  induction cs with
  | nil => rfl
  | cons c cs ih =>
      have hc : measure (utf8Locale wcwidth) (encode c) = charWidth wcwidth c :=
        measure_encode (Ne.symm (List.ne_of_not_mem_cons h0))
      rw [List.map_cons]
      by_cases hzero : charWidth wcwidth c = 0
      · rw [List.dropWhile_cons_of_pos (by simpa [hc] using hzero),
          List.dropWhile_cons_of_pos (by simpa using hzero), ih (List.not_mem_of_not_mem_cons h0)]
      · rw [List.dropWhile_cons_of_neg (by simpa [hc] using hzero),
          List.dropWhile_cons_of_neg (by simpa using hzero), text, List.flatMap, List.map_cons]

/-- The columns of a text are counted alike in each way. -/
theorem narrow_text (h0 : '\x00' ∉ cs) (hcolumns : columns wcwidth cs ≤ INT_MAX) :
    Narrow (utf8Locale wcwidth) (text cs) := by
  have hbytes := zero_not_mem_text h0
  refine ⟨fun p hp => ?_, ?_, ?_, fun maxWidth maxBytes p hp => ?_⟩
  · rw [measure_utf8 wcwidth fun h => hbytes (hp.subset h)]
    have hmono := width_mono (charWidth_nonneg wcwidth) hp
    rw [width_text, ← columns] at hmono
    omega
  · rw [pieces_text, measureAll_encode h0]
    exact hcolumns
  · rw [backPieces_text, measureAll, List.map_reverse, List.sum_reverse, ← measureAll,
      measureAll_encode h0]
    exact hcolumns
  · rw [fittingSuffix_text maxWidth maxBytes h0, pieces_text] at hp
    obtain ⟨c, hc, rfl⟩ := List.mem_map.mp hp
    have hmem : c ∈ cs := List.mem_reverse.mp
      ((fitting_isPrefix _ _ _ _ _).subset (List.mem_reverse.mp hc))
    have hc : charWidth wcwidth c ≤ columns wcwidth cs :=
      List.single_le_sum (by simpa using fun c _ => charWidth_nonneg wcwidth c) _
        (List.mem_map_of_mem hmem)
    rw [measure_encode (by rintro rfl; exact h0 hmem)]
    omega

end Pieces

/-! ## What is written -/

/-- The longest beginning of the text that a row and a buffer have room for. -/
def Cut (bufferSize maxWidth : ℕ) (cs out : List Char) : Prop :=
  LongestPrefix (fun p => columns wcwidth p ≤ maxWidth ∧ (text p).length < bufferSize) cs out

/-- A beginning `p` and an end `q` of the text, with dots between them. What is
in front of `q` in the text, `z`, would be attached to the dots. -/
def Dotted (bufferSize maxWidth : ℕ) (cs out : List Char) : Prop :=
  ∃ p m z q, cs = p ++ m ++ z ++ q ∧ out = p ++ ['.', '.', '.'] ++ q
    ∧ LongestPrefix (fun p => columns wcwidth p ≤ maxWidth / 2 - 1
        ∧ (text p).length ≤ bufferSize - 4) cs p
    ∧ LongestSuffix (fun e => columns wcwidth e ≤ maxWidth - columns wcwidth p - 3
        ∧ (text e).length ≤ bufferSize - 4 - (text p).length) cs (z ++ q)
    ∧ (∀ c ∈ z, charWidth wcwidth c = 0)
    ∧ ∀ c q', q = c :: q' → charWidth wcwidth c ≠ 0

theorem length_text (cs : List Char) : (text cs).length = (cs.map fun c => (encode c).length).sum :=
  List.length_flatMap

theorem fits_iff {maxWidth : ℤ} {maxBytes : ℕ} {cs : List Char} :
    Fits (charWidth wcwidth) (fun c => (encode c).length) maxWidth maxBytes cs
      ↔ columns wcwidth cs ≤ maxWidth ∧ (text cs).length ≤ maxBytes := by
  rw [Fits, ← columns, ← length_text]

section Text

variable {wcwidth} {cs : List Char} {bufferSize maxWidth : ℕ}

theorem elides_text_iff (h0 : '\x00' ∉ cs) (hcolumns : columns wcwidth cs ≤ INT_MAX) :
    Elides (utf8Locale wcwidth) bufferSize maxWidth (text cs)
      ↔ ¬ (columns wcwidth cs ≤ maxWidth ∨ maxWidth ≤ 3 ∨ bufferSize < 4) := by
  have hdots : dots.length = 3 := rfl
  rw [Elides, measure_text h0, maxColumns, hdots]
  split <;> omega

theorem nul_not_mem_fittingChars (h0 : '\x00' ∉ cs) (maxWidth : ℤ) (maxBytes : ℕ) :
    '\x00' ∉ fittingChars wcwidth maxWidth maxBytes cs := fun h =>
  h0 ((fitting_isPrefix _ _ _ _ _).subset h)

theorem elidedPrefix_text (h0 : '\x00' ∉ cs) (hmax : maxColumns maxWidth = maxWidth) :
    elidedPrefix (utf8Locale wcwidth) bufferSize maxWidth (text cs)
      = text (fittingChars wcwidth (maxWidth / 2 - 1) (bufferSize - 4) cs) := by
  have hroom : bufferSize - 1 - dots.length = bufferSize - 4 := rfl
  rw [elidedPrefix, hmax, hroom, fittingPrefix_text _ _ h0]

theorem elidedSuffix_text (h0 : '\x00' ∉ cs) (hmax : maxColumns maxWidth = maxWidth)
    {p : List Char} (hp : p = fittingChars wcwidth (maxWidth / 2 - 1) (bufferSize - 4) cs) :
    elidedSuffix (utf8Locale wcwidth) bufferSize maxWidth (text cs)
      = text ((fittingChars wcwidth (maxWidth - columns wcwidth p - 3)
        (bufferSize - 4 - (text p).length) cs.reverse).reverse.dropWhile
          fun c => charWidth wcwidth c = 0) := by
  have hroom : bufferSize - 1 - dots.length = bufferSize - 4 := rfl
  have hdots : (dots.length : ℤ) = 3 := rfl
  have hp0 : '\x00' ∉ p := hp ▸ nul_not_mem_fittingChars h0 _ _
  rw [elidedSuffix, elidedPrefix_text h0 hmax, ← hp, measure_text hp0, hmax, hroom, hdots,
    fittingSuffix_text _ _ h0, trimZeroWidth_text]
  intro h
  exact nul_not_mem_fittingChars (fun h => h0 (List.mem_reverse.mp h)) _ _ (List.mem_reverse.mp h)

/-- The characters that fit are the longest beginning. -/
theorem cut_text (hcolumns : columns wcwidth cs ≤ INT_MAX) (hsize : 0 < bufferSize) :
    Cut wcwidth bufferSize maxWidth cs
      (fittingChars wcwidth (maxColumns maxWidth) (bufferSize - 1) cs) := by
  have hmax : 0 ≤ maxColumns maxWidth := by
    rw [maxColumns]
    split <;> omega
  apply (longestPrefix_fitting (charWidth_nonneg wcwidth) hmax cs).congr
  intro p hp
  have hle := columns_prefix_le wcwidth hp
  rw [fits_iff, maxColumns]
  split <;> omega

/-- The characters of the two loops, with dots between them. -/
theorem dotted_text (hwide : maxWidth < columns wcwidth cs) (hmax : 3 < maxWidth)
    {p e : List Char} (hp : p = fittingChars wcwidth (maxWidth / 2 - 1) (bufferSize - 4) cs)
    (he : e = (fittingChars wcwidth (maxWidth - columns wcwidth p - 3)
      (bufferSize - 4 - (text p).length) cs.reverse).reverse) :
    Dotted wcwidth bufferSize maxWidth cs
      (p ++ ['.', '.', '.'] ++ e.dropWhile fun c => charWidth wcwidth c = 0) := by
  have hnonneg := charWidth_nonneg wcwidth
  have hpre : LongestPrefix (fun p => columns wcwidth p ≤ maxWidth / 2 - 1
      ∧ (text p).length ≤ bufferSize - 4) cs p := by
    rw [hp]
    exact (longestPrefix_fitting hnonneg (by omega) cs).congr fun _ _ => fits_iff wcwidth
  have hpwidth : columns wcwidth p ≤ maxWidth / 2 - 1 := hpre.2.1.1
  have hsuf : LongestSuffix (fun e => columns wcwidth e ≤ maxWidth - columns wcwidth p - 3
      ∧ (text e).length ≤ bufferSize - 4 - (text p).length) cs e := by
    rw [he]
    exact (longestSuffix_fitting hnonneg (by omega) cs).congr fun _ _ => fits_iff wcwidth
  have hewidth : columns wcwidth e ≤ maxWidth - columns wcwidth p - 3 := hsuf.2.1.1
  obtain ⟨m, hm⟩ := exists_between_of_cost_lt hnonneg hpre.1 hsuf.1
    (show columns wcwidth p + columns wcwidth e < columns wcwidth cs by omega)
  refine ⟨p, m, e.takeWhile fun c => charWidth wcwidth c = 0,
    e.dropWhile fun c => charWidth wcwidth c = 0, ?_, rfl, hpre, ?_, ?_, ?_⟩
  · rw [List.append_assoc _ (List.takeWhile _ _), List.takeWhile_append_dropWhile, ← hm]
  · rw [List.takeWhile_append_dropWhile]
    exact hsuf
  · intro c hc
    simpa using List.mem_takeWhile_imp hc
  · intro c q' hq
    have hhead := List.head?_dropWhile_not (fun c => decide (charWidth wcwidth c = 0)) e
    rw [hq] at hhead
    simpa using hhead

theorem columns_dots (hdot : wcwidth '.'.toNat = 1) : columns wcwidth ['.', '.', '.'] = 3 := by
  have hone : charWidth wcwidth '.' = 1 := by
    rw [charWidth, hdot]
    rfl
  rw [columns, List.map_cons, List.map_cons, List.map_cons, hone]
  rfl

/-- With the dots the text still is within both limits. -/
theorem Dotted.bounds (hdot : wcwidth '.'.toNat = 1) (hsize : 4 ≤ bufferSize) {out : List Char}
    (h : Dotted wcwidth bufferSize maxWidth cs out) :
    columns wcwidth out ≤ maxWidth ∧ (text out).length < bufferSize := by
  obtain ⟨p, m, z, q, -, rfl, ⟨-, ⟨-, hplen⟩, -⟩, ⟨-, ⟨hwidth, hlen⟩, -⟩, -, -⟩ := h
  have hdotslen : (text ['.', '.', '.']).length = 3 := rfl
  have hz := columns_nonneg wcwidth z
  rw [columns_append] at hwidth
  rw [text_append, List.length_append] at hlen
  rw [columns_append, columns_append, columns_dots hdot, text_append, text_append, List.length_append,
    List.length_append, hdotslen]
  constructor <;> omega

/-- Nothing but dots is added. -/
theorem Dotted.nul_not_mem (h0 : '\x00' ∉ cs) {out : List Char}
    (h : Dotted wcwidth bufferSize maxWidth cs out) : '\x00' ∉ out := by
  obtain ⟨p, m, z, q, rfl, rfl, -⟩ := h
  simp only [List.mem_append, not_or] at h0 ⊢
  exact ⟨⟨h0.1.1.1, by decide⟩, h0.2⟩

/-- Only the NUL character makes a terminator. -/
theorem nul_not_mem_of_text (h0 : (0 : Byte) ∉ text cs) : '\x00' ∉ cs := by
  intro h
  exact h0 (List.mem_flatMap.mpr ⟨'\x00', h, by decide⟩)

/-- A text that is too wide for an `int` has no result. -/
theorem hstr_strelide_wide (h0 : '\x00' ∉ cs) (hwide : INT_MAX < columns wcwidth cs)
    {buffer : List Byte} (hbuffer : 0 < buffer.length) :
    hstr_strelide (utf8Locale wcwidth) buffer (text cs ++ [0]) maxWidth = .error .overflow := by
  have hsWidth : Elide.hstr_strwidth (utf8Locale wcwidth) (text cs ++ [0]) = .error .overflow := by
    rcases hstr_strwidth_yields (consumes_utf8 wcwidth) (zero_not_mem_text h0) [] with hok | hover
    · have hle := hstr_strwidth_le hok
      rw [measure_text h0] at hle
      omega
    · exact hover.1
  have hone : 1 ≤ (buffer.set 0 0).length := by
    rw [List.length_set]
    exact hbuffer
  rw [hstr_strelide, if_neg (by omega), store_eq_set hbuffer, Lib.Results.ok_bind, sub_eq hone,
    Lib.Results.ok_bind, hsWidth]
  rfl

/-- Two gigabytes of `a` on a row of ten columns. -/
theorem hstr_strelide_two_gigabytes :
    hstr_strelide (utf8Locale fun _ => 1) (List.replicate 100 0)
      (text (List.replicate (2 ^ 31) 'a') ++ [0]) 10 = .error .overflow := by
  have hcolumns : ∀ n : ℕ, columns (fun _ => 1) (List.replicate n 'a') = n := by
    intro n
    rw [columns, List.map_replicate, List.sum_replicate, charWidth]
    exact nsmul_one n
  apply hstr_strelide_wide
  · intro h
    cases List.eq_of_mem_replicate h
  · rw [hcolumns]
    decide
  · decide

/-- **`hstr_strelide` on a text.** Where the text fits, or no dots do, the buffer
holds the longest beginning that fits; elsewhere a beginning and an end with
dots between them. It is within both limits in each case. -/
theorem hstr_strelide_text (hdot : wcwidth '.'.toNat = 1) (s : CString) (hs : s.bytes = text cs)
    (hcolumns : columns wcwidth cs ≤ INT_MAX) (buffer : List Byte) (hbuffer : 0 < buffer.length)
    (maxWidth : ℕ) :
    ∃ r out, hstr_strelide (utf8Locale wcwidth) buffer (s.bytes ++ [0]) maxWidth = .ok r
      ∧ (ofBuffer r.buffer).bytes = text out
      ∧ (if columns wcwidth cs ≤ maxWidth ∨ maxWidth ≤ 3 ∨ buffer.length < 4 then
          Cut wcwidth buffer.length maxWidth cs out
        else Dotted wcwidth buffer.length maxWidth cs out)
      ∧ columns wcwidth out ≤ maxWidth ∧ (text out).length < buffer.length := by
  have h0 : '\x00' ∉ cs := nul_not_mem_of_text (hs ▸ s.nonul)
  have hlocale := consumes_utf8 wcwidth
  have hnarrow : Narrow (utf8Locale wcwidth) s.bytes := hs ▸ narrow_text h0 hcolumns
  have hiff : Elides (utf8Locale wcwidth) buffer.length maxWidth s.bytes
      ↔ ¬ (columns wcwidth cs ≤ maxWidth ∨ maxWidth ≤ 3 ∨ buffer.length < 4) := by
    rw [hs]
    exact elides_text_iff h0 hcolumns
  by_cases hfits : columns wcwidth cs ≤ maxWidth ∨ maxWidth ≤ 3 ∨ buffer.length < 4
  · obtain ⟨p, rest, hp, hrun, -⟩ := hstr_strelide_fitting hlocale s.nonul hbuffer
      (hiff.not.mpr (not_not.mpr hfits))
    rw [hs, fittingPrefix_text _ _ h0] at hp
    have hcut : Cut wcwidth buffer.length maxWidth cs
        (fittingChars wcwidth (maxColumns maxWidth) (buffer.length - 1) cs) :=
      cut_text hcolumns hbuffer
    refine ⟨_, _, hrun.eq_ok (not_not.mpr hnarrow), ?_, ?_, hcut.2.1⟩
    · rw [hp]
      exact bytes_ofBuffer (zero_not_mem_text fun h => h0 (hcut.1.subset h)) rest
    · rw [if_pos hfits]
      exact hcut
  · have helide := hiff.mpr hfits
    have hwide : maxWidth < columns wcwidth cs := by omega
    have hmax : maxColumns maxWidth = maxWidth := by
      rw [maxColumns, if_neg (by omega)]
    obtain ⟨p, q, rest, hp, hq, hrun, -⟩ := hstr_strelide_elided hlocale s.nonul helide
    obtain ⟨cs₁, hcs₁⟩ :
        ∃ cs₁, cs₁ = fittingChars wcwidth (maxWidth / 2 - 1) (buffer.length - 4) cs := ⟨_, rfl⟩
    obtain ⟨cs₂, hcs₂⟩ : ∃ cs₂, cs₂ = (fittingChars wcwidth (maxWidth - columns wcwidth cs₁ - 3)
        (buffer.length - 4 - (text cs₁).length) cs.reverse).reverse := ⟨_, rfl⟩
    rw [hs, elidedPrefix_text h0 hmax, ← hcs₁] at hp
    rw [hs, elidedSuffix_text h0 hmax hcs₁, ← hcs₂] at hq
    have hdotted := dotted_text hwide (by omega) hcs₁ hcs₂
    have hwritten : p ++ dots ++ q
        = text (cs₁ ++ ['.', '.', '.'] ++ cs₂.dropWhile fun c => charWidth wcwidth c = 0) := by
      rw [hp, hq, text_append, text_append]
      rfl
    refine ⟨_, _, hrun.eq_ok (not_not.mpr hnarrow), ?_, ?_, hdotted.bounds hdot (by omega)⟩
    · rw [hwritten]
      exact bytes_ofBuffer (zero_not_mem_text (hdotted.nul_not_mem h0)) rest
    · rw [if_neg hfits]
      exact hdotted

end Text

/-- The widths of a locale in which accents combine. -/
def combining (wc : ℕ) : ℤ := if wc = 0x301 then 0 else 1

def accented : List Char := ['a', 'b', 'c', 'd', 'e', 'f', 'g', 'e', '\u0301', 'h']

/-- Ten characters on a row of six columns. -/
theorem hstr_strelide_text_accented :
    ∃ r out, hstr_strelide (utf8Locale combining) (List.replicate 20 0) (text accented ++ [0]) 6
        = .ok r
      ∧ (ofBuffer r.buffer).bytes = text out
      ∧ (if columns combining accented ≤ (6 : ℕ) ∨ 6 ≤ 3 ∨ (List.replicate 20 (0 : Byte)).length < 4
          then Cut combining (List.replicate 20 (0 : Byte)).length 6 accented out
        else Dotted combining (List.replicate 20 (0 : Byte)).length 6 accented out)
      ∧ columns combining out ≤ (6 : ℕ) ∧ (text out).length < (List.replicate 20 (0 : Byte)).length :=
  hstr_strelide_text rfl ⟨text accented, zero_not_mem_text (by decide)⟩ rfl (by decide)
    (List.replicate 20 0) (by decide) 6

/-- An accent stays with its letter. -/
example : (do
    let r ← hstr_strelide (utf8Locale combining) (List.replicate 20 0) (text accented ++ [0]) 7
    return (ofBuffer r.buffer).bytes)
      = .ok (text ['a', 'b', '.', '.', '.', 'e', '\u0301', 'h']) := by
  decide +kernel

end Hstr.ElideText
