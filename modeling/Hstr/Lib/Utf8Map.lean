/-
Maps of bytes on UTF-8: a map that keeps ASCII within ASCII, and leaves all other
bytes alone, maps characters to characters.

Such a map, the change of the case is one, commutes with reading: the bytes in front
are mapped to a character, an unfinished character or an invalid byte exactly where
they were one before. So a text is as wide after the map as it was, where the
characters it exchanges are equally wide.
-/
import Hstr.Lib.Utf8

set_option autoImplicit false

namespace Lib.Utf8

/-! ## Bytes of other than ASCII characters -/

/-- The bytes are not ASCII. -/
def High (bs : List UInt8) : Prop := ∀ b ∈ bs, 0x80 ≤ b

theorem high_of_continuation {b : UInt8} (h : IsContinuation b = true) : 0x80 ≤ b := by
  have hall : ∀ n : Fin 256, IsContinuation (UInt8.ofFin n) = true → 0x80 ≤ UInt8.ofFin n := by
    decide +kernel
  exact hall b.toFin h

theorem high_of_lead {b : UInt8} (h : IsLead b = true) : 0x80 ≤ b := by
  have hall : ∀ n : Fin 256, IsLead (UInt8.ofFin n) = true → 0x80 ≤ UInt8.ofFin n := by
    decide +kernel
  exact hall b.toFin h

/-- A byte of ASCII is a character. -/
theorem exists_encode_ascii {b : UInt8} (h : b < 0x80) : ∃ c, encode c = [b] := by
  have hlt : b.toNat < 0x80 := h
  obtain ⟨c, hc⟩ := exists_encode_eq (w := b.toNat) (Or.inl (by omega))
  refine ⟨c, ?_⟩
  rw [hc, encodeNat, if_pos (by omega), UInt8.ofNat_toNat]

/-- The byte is the number of the character. -/
theorem toNat_of_encode_ascii {c : Char} {b : UInt8} (h : encode c = [b]) : c.toNat = b.toNat := by
  have hsize : c.utf8Size = 1 := by
    rw [← length_encode, h]
    rfl
  have hsmall : c.toNat ≤ 0x7f := Char.utf8Size_eq_one_iff.mp hsize
  rw [encode_eq_encodeNat, encodeNat, if_pos hsmall] at h
  rw [← (List.cons.inj h).1, UInt8.toNat_ofNat']
  omega

theorem encode_injective {c d : Char} (h : encode c = encode d) : c = d :=
  eq_of_encode_prefix List.prefix_rfl (h ▸ List.prefix_rfl)

/-- A character is a byte of ASCII, or has none. -/
theorem encode_ascii_or_high (c : Char) : (∃ b < 0x80, encode c = [b]) ∨ High (encode c) := by
  obtain ⟨b, t, henc, -, ht, -, hlead⟩ := encode_shape c
  rw [henc]
  by_cases hb : b < 0x80
  · left
    refine ⟨b, hb, ?_⟩
    by_cases htnil : t = []
    · rw [htnil]
    · exact absurd hb (UInt8.not_lt.mpr (high_of_lead (hlead htnil)))
  · right
    intro x hx
    rcases List.mem_cons.mp hx with rfl | hx
    · exact UInt8.not_lt.mp hb
    · exact high_of_continuation (ht x hx)

theorem Truncated.high {bs : List UInt8} (h : Truncated bs) : High bs := by
  by_cases hne : bs = []
  · rw [hne]
    exact fun b hb => absurd hb List.not_mem_nil
  · obtain ⟨b, t, rfl, hb, -, ht, -⟩ := h.shape hne
    intro x hx
    rcases List.mem_cons.mp hx with rfl | hx
    · exact high_of_lead hb
    · exact high_of_continuation (ht x hx)

/-- The first byte of what does not decode is not ASCII. -/
theorem high_of_invalid {b : UInt8} {r : List UInt8} (h : read (b :: r) = .invalid) : 0x80 ≤ b := by
  rw [← UInt8.not_lt]
  intro hlt
  obtain ⟨c, hc⟩ := exists_encode_ascii hlt
  apply (read_eq_invalid_iff.mp h).1 c
  rw [hc]
  exact ⟨r, rfl⟩

/-! ## Maps that change ASCII only -/

/-- The map keeps ASCII within ASCII, and leaves all other bytes alone. -/
structure AsciiMap (f : UInt8 → UInt8) : Prop where
  ascii : ∀ b, b < 0x80 → f b < 0x80
  high : ∀ b, 0x80 ≤ b → f b = b

namespace AsciiMap

variable {f : UInt8 → UInt8} (hf : AsciiMap f)
include hf

theorem map_high {bs : List UInt8} (h : High bs) : bs.map f = bs := by
  rw [List.map_congr_left (g := id) fun b hb => hf.high b (h b hb), List.map_id]

/-- Bytes that are not ASCII were there before. -/
theorem prefix_of_prefix_map {p bs : List UInt8} (hp : High p) (h : p <+: bs.map f) : p <+: bs := by
  obtain ⟨q, hq, rfl⟩ := List.prefix_map_iff.mp h
  have hqhigh : High q := by
    intro b hb
    rw [← UInt8.not_lt]
    intro hlt
    exact UInt8.not_lt.mpr (hp (f b) (List.mem_map_of_mem hb)) (hf.ascii b hlt)
  rwa [hf.map_high hqhigh]

theorem map_truncated {bs : List UInt8} (h : Truncated bs) : bs.map f = bs := hf.map_high h.high

/-- A character is mapped to a character. -/
theorem exists_encode_map (c : Char) : ∃ d, encode d = (encode c).map f := by
  rcases encode_ascii_or_high c with ⟨b, hb, henc⟩ | hhigh
  · rw [henc]
    exact exists_encode_ascii (hf.ascii b hb)
  · exact ⟨c, (hf.map_high hhigh).symm⟩

/-- What does not decode does not decode after the map. -/
theorem read_map_invalid {b : UInt8} {r : List UInt8} (h : read (b :: r) = .invalid) :
    read (b :: r.map f) = .invalid := by
  have hb : 0x80 ≤ b := high_of_invalid h
  have hmap : b :: r.map f = (b :: r).map f := by rw [List.map_cons, hf.high b hb]
  obtain ⟨hno, hnt⟩ := read_eq_invalid_iff.mp h
  rw [read_eq_invalid_iff, hmap]
  constructor
  · intro c hc
    rcases encode_ascii_or_high c with ⟨a, ha, henc⟩ | hhigh
    · rw [← hmap, henc, List.cons_prefix_cons] at hc
      rw [hc.1] at ha
      exact UInt8.not_lt.mpr hb ha
    · exact hno c (hf.prefix_of_prefix_map hhigh hc)
  · intro ht
    have hpre : (b :: r).map f <+: b :: r := hf.prefix_of_prefix_map ht.high List.prefix_rfl
    have heq := hpre.eq_of_length (List.length_map f)
    rw [heq] at ht
    exact hnt ht

/-- **A text keeps its width**, where the characters that the map exchanges are
equally wide. -/
theorem width_map {w : Char → ℤ} (hw : ∀ c d, encode d = (encode c).map f → w d = w c)
    (bs : List UInt8) : width w (bs.map f) = width w bs := by
  induction bs using read_induction with
  | truncated bs h => rw [hf.map_truncated h]
  | character c r ih =>
      obtain ⟨d, hd⟩ := hf.exists_encode_map c
      rw [List.map_append, ← hd, width_character, width_character, ih, hw c d hd]
  | invalid b r h ih =>
      have hb : 0x80 ≤ b := high_of_invalid h
      rw [List.map_cons, hf.high b hb, width_invalid (hf.read_map_invalid h), width_invalid h, ih]

end AsciiMap

end Lib.Utf8
