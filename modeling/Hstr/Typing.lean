/-
Typing and erasing in a UTF-8 locale.

A key adds one byte to the pattern, so a character arrives in up to four calls
of `hstr_strcat_char_fitting`; backspace, `hstr_chop`, takes a whole character
away. A byte is refused for one of two reasons: there is no room in the buffer,
or the pattern would be too wide. In the second case the bytes of the character
that are there already go with it.
-/
import Hstr.Columns
import Hstr.Lib.Runs
import Mathlib.Data.Int.Order.Basic
import Mathlib.Data.List.GetD

set_option autoImplicit false

namespace Hstr.Typing

open Lib.Utf8 Lib.Runs Hstr.Strings Hstr.Utils Hstr.Columns

/-- A string of whole characters. -/
def IsText (s : CString) : Prop := ∃ cs, s.bytes = text cs

theorem isText_empty : IsText empty := ⟨[], rfl⟩

/-! ## Erasing -/

theorem bytes_truncate (s : CString) (n : ℕ) : (truncate s n).bytes = s.bytes.take n := rfl

theorem bytes_append (s t : CString) : (append s t).bytes = s.bytes ++ t.bytes := rfl

theorem chopStart_le (bs : List Byte) (last : ℕ) : chopStart bs last ≤ last := by
  induction last with
  | zero => exact Nat.le_refl 0
  | succ last ih =>
      rw [chopStart]
      split <;> omega

/-- Backwards over continuations to the byte in front of them. -/
theorem chopStart_eq {a t : List Byte} {b : Byte} (hb : IsContinuation b = false)
    (ht : ∀ x ∈ t, IsContinuation x = true) (hlen : t.length ≤ 3) :
    ∀ k, k ≤ t.length → chopStart (a ++ b :: t) (a.length + k) = a.length := by
  intro k
  induction k with
  | zero =>
      intro _
      rw [Nat.add_zero]
      cases ha : a.length with
      | zero => rfl
      | succ n =>
          have hat : (a ++ b :: t).getD (n + 1) 0 = b := by
            rw [← ha, List.getD_append_right _ _ _ _ (Nat.le_refl _), Nat.sub_self,
              List.getD_cons_zero]
          rw [chopStart, hat, if_neg]
          rintro ⟨-, hcont⟩
          rw [show IS_UTF8_CONTINUATION b = IsContinuation b from rfl, hb] at hcont
          cases hcont
  | succ k ih =>
      intro hk
      have hat : (a ++ b :: t).getD (a.length + k + 1) 0 = t.getD k 0 := by
        rw [List.getD_append_right _ _ _ _ (by omega),
          show a.length + k + 1 - a.length = k + 1 by omega, List.getD_cons_succ]
      have hcont : IS_UTF8_CONTINUATION (t.getD k 0) = true := by
        rw [List.getD_eq_getElem _ _ (by omega)]
        exact ht _ (List.getElem_mem (by omega))
      rw [← Nat.add_assoc, chopStart, hat, if_pos]
      · exact ih (by omega)
      · refine ⟨?_, hcont⟩
        rw [List.length_append, List.length_cons, UTF8_MAX_BYTES]
        omega

/-- **`hstr_chop` takes a lead and its continuations**, one byte where there are
no continuations. -/
theorem hstr_chop_eq {s s' : CString} {b : Byte} {t : List Byte} (hs' : s'.bytes = s.bytes ++ b :: t)
    (hb : IsContinuation b = false) (ht : ∀ x ∈ t, IsContinuation x = true) (hlen : t.length ≤ 3)
    (hlead : t ≠ [] → IsLead b = true) : hstr_chop s' = s := by
  have hstrlen : strlen s' = s.bytes.length + t.length + 1 := by
    rw [strlen, hs', List.length_append, List.length_cons, Nat.add_assoc]
  have hstart : chopStart s'.bytes (strlen s' - 1) = s.bytes.length := by
    rw [hstrlen, hs', Nat.add_sub_cancel]
    exact chopStart_eq hb ht hlen t.length (Nat.le_refl _)
  have hat : s'.bytes.getD s.bytes.length 0 = b := by
    rw [hs', List.getD_append_right _ _ _ _ (Nat.le_refl _), Nat.sub_self, List.getD_cons_zero]
  simp only [hstr_chop]
  rw [if_pos (by omega), hstart, hat, if_neg]
  · apply CString.ext
    rw [bytes_truncate, hs', List.take_left]
  · -- the byte found is a lead where it is not the last one
    rintro ⟨hne, hnolead⟩
    have htne : t ≠ [] := by
      rintro rfl
      rw [hstrlen] at hne
      exact hne rfl
    rw [show IS_UTF8_LEAD b = IsLead b from rfl, hlead htne] at hnolead
    cases hnolead

/-- What is left is a beginning of the string without its last byte. -/
theorem hstr_chop_prefix (s : CString) : (hstr_chop s).bytes <+: s.bytes.dropLast := by
  simp only [hstr_chop]
  split
  · have hle := chopStart_le s.bytes (strlen s - 1)
    have htake : ∀ last, last ≤ strlen s - 1 → (truncate s last).bytes <+: s.bytes.dropLast := by
      intro last hlast
      rw [bytes_truncate, List.dropLast_eq_take]
      exact List.take_prefix_take_left hlast
    split
    · exact htake _ (Nat.le_refl _)
    · exact htake _ hle
  · next hzero =>
      rw [not_not, strlen_eq_zero_iff] at hzero
      rw [hzero]
      exact List.nil_prefix

/-- A beginning of a character has the shape that `hstr_chop` takes away. -/
theorem shape_of_prefix {q : List Byte} {c : Char} (hne : q ≠ []) (hq : q <+: encode c) :
    ∃ b t, q = b :: t ∧ IsContinuation b = false ∧ (∀ x ∈ t, IsContinuation x = true)
      ∧ t.length ≤ 3 ∧ (t ≠ [] → IsLead b = true) := by
  obtain ⟨b, t, henc, hb, ht, hlen, hlead⟩ := encode_shape c
  obtain ⟨b', q, rfl⟩ := List.exists_cons_of_ne_nil hne
  rw [henc, List.cons_prefix_cons] at hq
  obtain ⟨rfl, r, rfl⟩ := hq
  rw [List.length_append] at hlen
  refine ⟨b', q, rfl, hb, fun x hx => ht x (List.mem_append_left r hx), by omega, fun hqne => ?_⟩
  exact hlead fun hnil => hqne (List.append_eq_nil_iff.mp hnil).1

/-- Erasing undoes the typing of a beginning of a character. -/
theorem hstr_chop_append {s q : CString} {c : Char} (hne : q ≠ empty) (hq : q.bytes <+: encode c) :
    hstr_chop (append s q) = s := by
  have hbytes : q.bytes ≠ [] := fun h => hne (CString.ext h)
  obtain ⟨b, t, hqbt, hb, ht, hlen, hlead⟩ := shape_of_prefix hbytes hq
  exact hstr_chop_eq (by rw [bytes_append, hqbt]) hb ht hlen hlead

/-- A string of characters, one character shorter. -/
theorem hstr_chop_text {s : CString} {cs : List Char} {c : Char}
    (hs : s.bytes = text (cs ++ [c])) : (hstr_chop s).bytes = text cs := by
  rw [text_append, text_cons, text_nil, List.append_nil] at hs
  have hnonul := s.nonul
  rw [hs, List.mem_append, not_or] at hnonul
  obtain ⟨b, t, henc, hb, ht, hlen, hlead⟩ := encode_shape c
  rw [henc] at hs
  have hchop := hstr_chop_eq (s := ⟨text cs, hnonul.1⟩) hs hb ht hlen hlead
  rw [hchop]

/-- Erasing as often as there are characters empties the string. -/
theorem hstr_chop_iterate (cs : List Char) : ∀ s : CString, s.bytes = text cs →
    hstr_chop^[cs.length] s = empty := by
  induction cs using List.reverseRecOn with
  | nil =>
      intro s hs
      exact CString.ext hs
  | append_singleton cs c ih =>
      intro s hs
      rw [List.length_append, List.length_singleton, Function.iterate_succ_apply]
      exact ih _ (hstr_chop_text hs)

/-- **Backspace undoes typing**: a character, or the part of it that has
arrived, is taken away, and a text of `k` characters is empty after `k` times. -/
theorem hstr_chop_undoes_typing :
    (∀ s q : CString, IsText s → q ≠ empty → (∃ c, q.bytes <+: encode c) →
        hstr_chop (append s q) = s)
      ∧ ∀ (s : CString) (cs : List Char), s.bytes = text cs → hstr_chop^[cs.length] s = empty := by
  refine ⟨fun s q _ hne hc => ?_, fun s cs hs => hstr_chop_iterate cs s hs⟩
  obtain ⟨c, hq⟩ := hc
  exact hstr_chop_append hne hq

/-- The lead of `é`, whose continuation has not arrived. -/
def halfCharacter : CString := ⟨[0xC3], by decide⟩

theorem hstr_chop_undoes_typing_half :
    hstr_chop (append (lit "a") halfCharacter) = lit "a"
      ∧ hstr_chop^[2] (append (lit "a") ⟨[0xC3, 0xA9], by decide⟩) = empty :=
  ⟨hstr_chop_undoes_typing.1 (lit "a") halfCharacter ⟨['a'], by decide⟩ (by decide)
      ⟨'é', by decide⟩,
    hstr_chop_undoes_typing.2 _ ['a', 'é'] (by decide)⟩

/-! ## One key -/

section Keys

variable (wcwidth : ℕ → ℤ) (size : ℕ) (maxWidth : ℤ)

/-- The pattern after a key. -/
def typeKey (s : CString) (c : ℤ) : CString :=
  (hstr_strcat_char_fitting (utf8 wcwidth) s size c maxWidth).1

/-- The columns of a string. -/
def columns (s : CString) : ℤ := width (charWidth wcwidth) s.bytes

theorem hstr_strwidth_eq_columns (s : CString) :
    hstr_strwidth (utf8 wcwidth) s = columns wcwidth s := hstr_strwidth_utf8 wcwidth s

/-- A beginning of a string is not wider. -/
theorem columns_mono {s t : CString} (h : s.bytes <+: t.bytes) :
    columns wcwidth s ≤ columns wcwidth t :=
  width_mono (charWidth_nonneg wcwidth) h

/-- What `hstr_strcat_char` accepts is appended as one byte, with room left for
the terminator. -/
theorem hstr_strcat_char_eq_some {s s' : CString} {c : ℤ}
    (h : hstr_strcat_char s size c = some s') :
    s'.bytes = s.bytes ++ [c.toNat.toUInt8] ∧ 0 < c ∧ c ≤ 255 ∧ strlen s + 1 < size := by
  unfold hstr_strcat_char at h
  split at h
  · cases h
  · next hbyte =>
      split at h
      · cases h
      · next hroom =>
          cases h
          refine ⟨rfl, ?_, ?_, ?_⟩ <;> omega

/-- What a call of `hstr_strcat_char_fitting` does. -/
def KeySpec (s : CString) (c : ℤ) : Prop :=
  let r := hstr_strcat_char_fitting (utf8 wcwidth) s size c maxWidth
  (r.2 = true → r.1.bytes = s.bytes ++ [c.toNat.toUInt8] ∧ 0 < c ∧ c ≤ 255)
    ∧ (r.2 = false → r.1.bytes <+: s.bytes)

/-- The pattern fits its buffer and its row. -/
def Fits (s : CString) : Prop := strlen s < size ∧ columns wcwidth s ≤ maxWidth

/-- **One key keeps the pattern in its row**, and appends its byte or nothing. -/
theorem Fits.key {wcwidth : ℕ → ℤ} {size : ℕ} {maxWidth : ℤ} {s : CString}
    (h : Fits wcwidth size maxWidth s) (c : ℤ) :
    Fits wcwidth size maxWidth (typeKey wcwidth size maxWidth s c)
      ∧ KeySpec wcwidth size maxWidth s c := by
  simp only [typeKey, KeySpec, hstr_strcat_char_fitting]
  cases hadd : hstr_strcat_char s size c with
  | none => exact ⟨h, fun hb => absurd hb Bool.false_ne_true, fun _ => List.prefix_rfl⟩
  | some s' =>
      obtain ⟨hbytes, hpos, hle, hroom⟩ := hstr_strcat_char_eq_some size hadd
      dsimp only
      by_cases hwide : hstr_strwidth (utf8 wcwidth) s' > maxWidth
      · rw [if_pos hwide]
        -- what is left of the pattern is a beginning of what it was
        have hpre : (hstr_chop s').bytes <+: s.bytes := by
          have hchop := hstr_chop_prefix s'
          rwa [hbytes, List.dropLast_concat] at hchop
        refine ⟨⟨?_, ?_⟩, fun hb => absurd hb Bool.false_ne_true, fun _ => hpre⟩
        · exact Nat.lt_of_le_of_lt hpre.length_le h.1
        · exact (columns_mono wcwidth hpre).trans h.2
      · rw [if_neg hwide]
        rw [hstr_strwidth_eq_columns] at hwide
        refine ⟨⟨?_, not_lt.mp hwide⟩, fun _ => ⟨hbytes, hpos, hle⟩,
          fun hb => absurd hb.symm Bool.false_ne_true⟩
        rw [strlen, hbytes, List.length_append, List.length_singleton]
        exact hroom

/-- **Typing never overflows the row.** From a string that fits, and for any
sequence of key codes, the pattern fits its buffer and its row after each of
them; a key that is accepted has appended its byte, and one that is refused has
left a beginning of the pattern. -/
theorem typing_fits (s : CString) (hsize : strlen s < size)
    (hwidth : hstr_strwidth (utf8 wcwidth) s ≤ maxWidth) (codes : List ℤ) :
    Always (typeKey wcwidth size maxWidth)
        (fun s => strlen s < size ∧ hstr_strwidth (utf8 wcwidth) s ≤ maxWidth) s codes
      ∧ Guarded (typeKey wcwidth size maxWidth) (KeySpec wcwidth size maxWidth) s codes := by
  have hstart : Fits wcwidth size maxWidth s := ⟨hsize, hstr_strwidth_eq_columns wcwidth s ▸ hwidth⟩
  have hkey : ∀ s c, Fits wcwidth size maxWidth s → True →
      Fits wcwidth size maxWidth (typeKey wcwidth size maxWidth s c) := fun s c h _ => (h.key c).1
  have hguard : Guarded (typeKey wcwidth size maxWidth) (fun _ _ => True) s codes :=
    guarded_of_forall_mem fun _ _ _ => trivial
  constructor
  · apply (always_of_guarded hkey hstart hguard).mono
    intro s' hs'
    exact ⟨hs'.1, hstr_strwidth_eq_columns wcwidth s' ▸ hs'.2⟩
  · exact guarded_of_guarded hkey (fun s c h _ => (h.key c).2) hstart hguard

/-- A row of three columns, into which `é`, a curses code and `b` are typed. -/
theorem typing_fits_row :
    Always (typeKey (fun _ => 1) 8 3)
        (fun s => strlen s < 8 ∧ hstr_strwidth (utf8 fun _ => 1) s ≤ 3) (lit "a")
        [0xC3, 0xA9, 258, 0x62]
      ∧ Guarded (typeKey (fun _ => 1) 8 3) (KeySpec (fun _ => 1) 8 3) (lit "a")
        [0xC3, 0xA9, 258, 0x62] :=
  typing_fits (fun _ => 1) 8 3 (lit "a") (by decide) (by decide) [0xC3, 0xA9, 258, 0x62]

/-! ## One character -/

/-- The pattern after the keys of a character. -/
def typeCharacter (s : CString) (c : Char) : CString :=
  (encode c).foldl (fun s b => typeKey wcwidth size maxWidth s b.toNat) s

/-- A character is in the pattern as a whole, or the pattern is as before. -/
def Atomic (s : CString) (c : Char) : Prop :=
  typeCharacter wcwidth size maxWidth s c = s
    ∨ (typeCharacter wcwidth size maxWidth s c).bytes = s.bytes ++ encode c

/-- The bytes of a character have room as a whole or not at all, or there are no
columns at all. -/
def HasRoom (s : CString) (c : Char) : Prop :=
  maxWidth < 0 ∨ size ≤ strlen s + 1 ∨ strlen s + (encode c).length < size

/-- Whole characters within the columns there are. -/
def TextInRow (s : CString) : Prop :=
  IsText s ∧ (maxWidth < 0 → s = empty) ∧ (0 ≤ maxWidth → columns wcwidth s ≤ maxWidth)

theorem toUInt8_toNat (b : Byte) : ((b.toNat : ℤ)).toNat.toUInt8 = b := by
  rw [Int.toNat_natCast]
  exact UInt8.ofNat_toNat

theorem textInRow_empty : TextInRow wcwidth maxWidth empty := by
  refine ⟨isText_empty, fun _ => rfl, fun h => ?_⟩
  rw [columns, empty, width_nil]
  exact h

variable {wcwidth size maxWidth}

/-- A full buffer refuses every key. -/
theorem typeKey_full {s : CString} (hfull : size ≤ strlen s + 1) (c : ℤ) :
    typeKey wcwidth size maxWidth s c = s := by
  have hnone : hstr_strcat_char s size c = none := by
    unfold hstr_strcat_char
    split
    · rfl
    · rfl
  rw [typeKey, hstr_strcat_char_fitting, hnone]

theorem foldl_typeKey_full (q : List Byte) {s : CString} (hfull : size ≤ strlen s + 1) :
    q.foldl (fun s b => typeKey wcwidth size maxWidth s b.toNat) s = s := by
  induction q with
  | nil => rfl
  | cons b q ih => rw [List.foldl_cons, typeKey_full hfull, ih]

variable (wcwidth maxWidth) in
/-- A byte for which there is room: it stays, or what is erased with it goes. -/
theorem typeKey_room {s : CString} {b : Byte} (hb : b ≠ 0) (hroom : strlen s + 1 < size) :
    ∃ s', s'.bytes = s.bytes ++ [b] ∧ typeKey wcwidth size maxWidth s b.toNat
      = if columns wcwidth s' > maxWidth then hstr_chop s' else s' := by
  cases hadd : hstr_strcat_char s size b.toNat with
  | none =>
      have hnat : b.toNat ≠ 0 := fun h => hb (UInt8.toNat_inj.mp h)
      have hlt := b.toNat_lt
      unfold hstr_strcat_char at hadd
      split at hadd
      · omega
      · rw [if_neg (by omega)] at hadd
        cases hadd
  | some s' =>
      obtain ⟨hbytes, -⟩ := hstr_strcat_char_eq_some size hadd
      rw [toUInt8_toNat] at hbytes
      refine ⟨s', hbytes, ?_⟩
      rw [typeKey, hstr_strcat_char_fitting, hadd]
      dsimp only
      rw [hstr_strwidth_eq_columns]
      split <;> rfl

/-- Without columns, an empty pattern stays empty. -/
theorem foldl_typeKey_no_columns (hneg : maxWidth < 0) (q : List Byte) (h0 : (0 : Byte) ∉ q) :
    q.foldl (fun s b => typeKey wcwidth size maxWidth s b.toNat) empty = empty := by
  induction q with
  | nil => rfl
  | cons b q ih =>
      have hkey : typeKey wcwidth size maxWidth empty b.toNat = empty := by
        by_cases hroom : strlen empty + 1 < size
        · obtain ⟨s', hbytes, hkey⟩ :=
            typeKey_room wcwidth maxWidth (Ne.symm (List.ne_of_not_mem_cons h0)) hroom
          have hwidth := width_nonneg (charWidth_nonneg wcwidth) s'.bytes
          rw [hkey, if_pos (by rw [columns]; omega)]
          have hchop := hstr_chop_prefix s'
          rw [hbytes, List.dropLast_concat] at hchop
          exact CString.ext (List.prefix_nil.mp hchop)
        · exact typeKey_full (Nat.le_of_not_lt hroom) _
      rw [List.foldl_cons, hkey, ih (List.not_mem_of_not_mem_cons h0)]

/-- The bytes of a text and the beginning of a character are as wide as the
text. -/
theorem columns_append_truncated {s t : CString} {q : List Byte} (hs : IsText s)
    (hq : Truncated q) (ht : t.bytes = s.bytes ++ q) : columns wcwidth t = columns wcwidth s := by
  obtain ⟨cs, hcs⟩ := hs
  rw [columns, columns, ht, hcs, (closed_text cs).width_append, width_truncated hq, Int.add_zero]

/-- The bytes of a character but the last are taken as long as there is room. -/
theorem foldl_typeKey_truncated {s : CString} {c : Char} (hs : IsText s)
    (hrow : columns wcwidth s ≤ maxWidth) (h0 : (0 : Byte) ∉ encode c) (q : List Byte) :
    ∀ (p : List Byte) (t : CString), t.bytes = s.bytes ++ p → p ++ q <+: encode c →
      p ++ q ≠ encode c → strlen s + (p ++ q).length < size →
      (q.foldl (fun s b => typeKey wcwidth size maxWidth s b.toNat) t).bytes
        = s.bytes ++ (p ++ q) := by
  induction q with
  | nil =>
      intro p t ht _ _ _
      rw [List.append_nil]
      exact ht
  | cons b q ih =>
      intro p t ht hpre hne hroom
      rw [List.append_cons] at hpre hne hroom ⊢
      have hb : b ≠ 0 := by
        rintro rfl
        exact h0 (hpre.subset (by simp))
      have htroom : strlen t + 1 < size := by
        rw [strlen, ht, List.length_append]
        rw [strlen, List.length_append, List.length_append, List.length_singleton] at hroom
        omega
      obtain ⟨t', hbytes, hkey⟩ :=
        typeKey_room wcwidth maxWidth hb htroom
      rw [ht, List.append_assoc] at hbytes
      have htrunc : Truncated (p ++ [b]) :=
        Truncated.of_prefix ⟨c, hpre, hne⟩ (List.prefix_append _ q)
      rw [List.foldl_cons, hkey, columns_append_truncated hs htrunc hbytes, if_neg (not_lt.mpr hrow)]
      exact ih (p ++ [b]) t' hbytes hpre hne hroom

/-- With room for all its bytes a character is appended, or erased again. -/
theorem typeCharacter_room {s : CString} {c : Char} (hs : IsText s)
    (hrow : columns wcwidth s ≤ maxWidth) (h0 : (0 : Byte) ∉ encode c)
    (hroom : strlen s + (encode c).length < size) :
    typeCharacter wcwidth size maxWidth s c = s
      ∨ (typeCharacter wcwidth size maxWidth s c).bytes = s.bytes ++ encode c
        ∧ columns wcwidth (typeCharacter wcwidth size maxWidth s c) ≤ maxWidth := by
  obtain ⟨q, b, hqb⟩ := (List.eq_nil_or_concat' (encode c)).resolve_left (encode_ne_nil c)
  have hqpre : q <+: encode c := hqb ▸ List.prefix_append q [b]
  have hqne : q ≠ encode c := by
    rw [hqb]
    intro h
    have hlen := congrArg List.length h
    rw [List.length_append, List.length_singleton] at hlen
    omega
  have hlen : (encode c).length = q.length + 1 := by
    rw [hqb, List.length_append, List.length_singleton]
  -- all bytes but the last
  have hpart : (q.foldl (fun s b => typeKey wcwidth size maxWidth s b.toNat) s).bytes
      = s.bytes ++ ([] ++ q) :=
    foldl_typeKey_truncated hs hrow h0 q [] s (List.append_nil _).symm hqpre hqne
      (by rw [List.nil_append]; omega)
  rw [List.nil_append] at hpart
  rw [typeCharacter, hqb, List.foldl_append, List.foldl_cons, List.foldl_nil, ← hqb]
  generalize q.foldl (fun s b => typeKey wcwidth size maxWidth s b.toNat) s = t at hpart
  -- the last byte
  have hb : b ≠ 0 := by
    rintro rfl
    exact h0 (hqb ▸ List.mem_append_right q List.mem_cons_self)
  have htroom : strlen t + 1 < size := by
    rw [strlen, hpart, List.length_append]
    rw [strlen] at hroom
    omega
  obtain ⟨t', hbytes, hkey⟩ := typeKey_room wcwidth maxWidth hb htroom
  rw [hpart, List.append_assoc, ← hqb] at hbytes
  rw [hkey]
  by_cases hwide : columns wcwidth t' > maxWidth
  · left
    rw [if_pos hwide]
    obtain ⟨cs, hcs⟩ := hs
    apply CString.ext
    rw [hcs]
    apply hstr_chop_text (c := c)
    rw [hbytes, hcs, text_append, text_cons, text_nil, List.append_nil]
  · right
    rw [if_neg hwide]
    exact ⟨hbytes, not_lt.mp hwide⟩

/-- With room for some bytes only, these bytes are left. -/
theorem typeCharacter_split {s : CString} {c : Char} (hs : IsText s)
    (hrow : columns wcwidth s ≤ maxWidth) (h0 : (0 : Byte) ∉ encode c)
    (hsome : strlen s + 1 < size) (hnot : size ≤ strlen s + (encode c).length) :
    (typeCharacter wcwidth size maxWidth s c).bytes
      = s.bytes ++ (encode c).take (size - 1 - strlen s) := by
  have hsplit : encode c
      = (encode c).take (size - 1 - strlen s) ++ (encode c).drop (size - 1 - strlen s) :=
    (List.take_append_drop _ _).symm
  have htake : ((encode c).take (size - 1 - strlen s)).length = size - 1 - strlen s :=
    List.length_take_of_le (by omega)
  have hpart : (((encode c).take (size - 1 - strlen s)).foldl
      (fun s b => typeKey wcwidth size maxWidth s b.toNat) s).bytes
        = s.bytes ++ ([] ++ (encode c).take (size - 1 - strlen s)) := by
    apply foldl_typeKey_truncated hs hrow h0 _ [] s (List.append_nil _).symm (List.take_prefix _ _)
    · intro h
      have hlen := congrArg List.length h
      rw [List.nil_append, htake] at hlen
      omega
    · rw [List.nil_append, htake]
      omega
  rw [List.nil_append] at hpart
  rw [typeCharacter]
  conv_lhs => rw [hsplit, List.foldl_append]
  rw [foldl_typeKey_full _ (by
    rw [strlen, hpart, List.length_append, htake, strlen]
    omega), hpart]

/-- The NUL character is no key. -/
theorem typeCharacter_nul (s : CString) : typeCharacter wcwidth size maxWidth s '\x00' = s := rfl

/-- A character that has room is appended within the columns there are, or the
pattern is as before. -/
theorem TextInRow.of_hasRoom {s : CString} (h : TextInRow wcwidth maxWidth s) {c : Char}
    (hroom : HasRoom size maxWidth s c) :
    typeCharacter wcwidth size maxWidth s c = s
      ∨ (typeCharacter wcwidth size maxWidth s c).bytes = s.bytes ++ encode c
        ∧ 0 ≤ maxWidth ∧ columns wcwidth (typeCharacter wcwidth size maxWidth s c) ≤ maxWidth := by
  obtain ⟨hs, hneg, hrow⟩ := h
  by_cases hc : c = '\x00'
  · subst hc
    exact Or.inl (typeCharacter_nul s)
  have h0 := zero_not_mem_encode hc
  by_cases hcols : maxWidth < 0
  · left
    rw [hneg hcols]
    exact foldl_typeKey_no_columns hcols (encode c) h0
  rw [not_lt] at hcols
  by_cases hfull : size ≤ strlen s + 1
  · exact Or.inl (foldl_typeKey_full (encode c) hfull)
  · have hall : strlen s + (encode c).length < size := by
      rcases hroom with hlt | hle | hlt
      · omega
      · exact absurd hle hfull
      · exact hlt
    rcases typeCharacter_room hs (hrow hcols) h0 hall with hsame | ⟨hbytes, hwide⟩
    · exact Or.inl hsame
    · exact Or.inr ⟨hbytes, hcols, hwide⟩

/-- Without room for all of its bytes, but for some, a character is cut. -/
theorem TextInRow.not_atomic {s : CString} (h : TextInRow wcwidth maxWidth s) {c : Char}
    (hroom : ¬ HasRoom size maxWidth s c) : ¬ Atomic wcwidth size maxWidth s c := by
  rw [HasRoom, not_or, not_or, not_lt, not_le, not_lt] at hroom
  obtain ⟨hcols, hsome, hnot⟩ := hroom
  have h0 : (0 : Byte) ∉ encode c := by
    apply zero_not_mem_encode
    rintro rfl
    have hone : (encode '\x00').length = 1 := rfl
    omega
  have hlen := congrArg List.length (typeCharacter_split h.1 (h.2.2 hcols) h0 hsome hnot)
  rw [List.length_append, List.length_take] at hlen
  rw [strlen] at hsome hnot hlen
  rintro (hsame | hall)
  · rw [hsame] at hlen
    omega
  · rw [hall, List.length_append] at hlen
    omega

/-- **A character is typed as a whole exactly where it has room.** -/
theorem TextInRow.atomic_iff {s : CString} (h : TextInRow wcwidth maxWidth s) (c : Char) :
    Atomic wcwidth size maxWidth s c ↔ HasRoom size maxWidth s c := by
  constructor
  · intro hatomic
    by_contra hroom
    exact h.not_atomic hroom hatomic
  · intro hroom
    rcases h.of_hasRoom hroom with hsame | ⟨hall, -⟩
    · exact Or.inl hsame
    · exact Or.inr hall

/-- A character with room leaves whole characters in the row. -/
theorem TextInRow.typeCharacter {s : CString} (h : TextInRow wcwidth maxWidth s) {c : Char}
    (hroom : HasRoom size maxWidth s c) :
    TextInRow wcwidth maxWidth (typeCharacter wcwidth size maxWidth s c) := by
  rcases h.of_hasRoom hroom with hsame | ⟨hall, hcols, hwide⟩
  · rw [hsame]
    exact h
  · obtain ⟨cs, hcs⟩ := h.1
    refine ⟨⟨cs ++ [c], ?_⟩, fun hneg => absurd hneg (not_lt.mpr hcols), fun _ => hwide⟩
    rw [hall, hcs, text_append, text_cons, text_nil, List.append_nil]

variable (wcwidth size maxWidth)

/-- **Typed characters are atomic exactly where each of them has room.** Typing
whole characters into the empty pattern keeps it a text, and each character is
appended as a whole or not at all, if and only if no character begins in a
buffer that has room for some of its bytes and not for all. -/
theorem typed_characters_atomic_iff (cs : List Char) :
    (Guarded (typeCharacter wcwidth size maxWidth) (Atomic wcwidth size maxWidth) empty cs
        ∧ Always (typeCharacter wcwidth size maxWidth) IsText empty cs)
      ↔ Guarded (typeCharacter wcwidth size maxWidth) (HasRoom size maxWidth) empty cs := by
  have hstep : ∀ s c, TextInRow wcwidth maxWidth s → HasRoom size maxWidth s c →
      TextInRow wcwidth maxWidth (typeCharacter wcwidth size maxWidth s c) :=
    fun s c h hroom => h.typeCharacter hroom
  have hstart := textInRow_empty wcwidth maxWidth
  have hiff : Guarded (typeCharacter wcwidth size maxWidth) (Atomic wcwidth size maxWidth) empty cs
      ↔ Guarded (typeCharacter wcwidth size maxWidth) (HasRoom size maxWidth) empty cs :=
    guarded_iff_guarded hstep (fun s c h => h.atomic_iff c) hstart
  constructor
  · rintro ⟨hatomic, -⟩
    exact hiff.mp hatomic
  · intro hroom
    exact ⟨hiff.mpr hroom, (always_of_guarded hstep hstart hroom).mono fun s h => h.1⟩

end Keys

/-- A buffer with room for one byte: the lead of `é` is left in the pattern. -/
theorem typed_character_cut :
    ¬ (Guarded (typeCharacter (fun _ => 1) 2 10) (Atomic (fun _ => 1) 2 10) empty ['é']
      ∧ Always (typeCharacter (fun _ => 1) 2 10) IsText empty ['é']) := by
  rintro ⟨⟨hsame | hall, -⟩, -⟩
  · exact absurd hsame (by decide)
  · exact absurd hall (by decide)

end Hstr.Typing
