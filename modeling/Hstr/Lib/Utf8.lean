/-
UTF-8 as a program meets it: text that may be cut anywhere, or not be UTF-8.

`encode` gives the bytes of a character, one to four: a byte that is no
continuation, and continuations. `read` is what a decoder that works character
by character says of the bytes in front of it: a character begins there, or the
bytes are the beginning of one whose rest is missing, or neither. The three
answers are characterised without a look at the bits, by what is a prefix of
what, and everything that follows uses these characterisations only.

`width` is the number of columns that a terminal needs for such a text, where a
byte that does not decode needs one and an unfinished character at the end none.
It grows with the text, and it is the sum of the widths of two parts where the
first does not end within a character.
-/
import Mathlib.Algebra.Ring.Int.Defs
import Mathlib.Data.List.Infix

set_option autoImplicit false

namespace Lib.Utf8

/-! ## Bytes of a character -/

/-- The bytes `10xxxxxx`. -/
def IsContinuation (b : UInt8) : Bool := (b &&& 0xC0) == 0x80

/-- The bytes `11xxxxxx`. -/
def IsLead (b : UInt8) : Bool := (b &&& 0xC0) == 0xC0

/-- The bytes of a character. -/
def encode (c : Char) : List UInt8 := String.utf8EncodeChar c

/-- The bytes of a text. -/
def text (cs : List Char) : List UInt8 := cs.flatMap encode

@[simp] theorem text_nil : text [] = [] := rfl

@[simp] theorem text_cons (c : Char) (cs : List Char) : text (c :: cs) = encode c ++ text cs := rfl

@[simp] theorem text_append (cs ds : List Char) : text (cs ++ ds) = text cs ++ text ds :=
  List.flatMap_append

theorem length_encode (c : Char) : (encode c).length = c.utf8Size := String.length_utf8EncodeChar c

theorem encode_length_pos (c : Char) : 0 < (encode c).length := by
  rw [length_encode]
  exact Char.utf8Size_pos c

theorem encode_length_le (c : Char) : (encode c).length ≤ 4 := by
  rw [length_encode]
  exact Char.utf8Size_le_four c

theorem encode_ne_nil (c : Char) : encode c ≠ [] := List.ne_nil_of_length_pos (encode_length_pos c)

theorem isContinuation_tail (x : ℕ) : IsContinuation (UInt8.ofNat (x % 0x40 + 0x80)) = true := by
  have hall : ∀ y : Fin 0x40, IsContinuation (UInt8.ofNat (y.val + 0x80)) = true := by
    decide +kernel
  exact hall ⟨x % 0x40, Nat.mod_lt _ (by decide)⟩

theorem isLead_head {m k : ℕ} (hm : 0 < m) (hk : 0xC0 ≤ k) (hmk : m + k ≤ 0x100) (x : ℕ) :
    IsLead (UInt8.ofNat (x % m + k)) = true := by
  have hall : ∀ y : Fin 0x40, IsLead (UInt8.ofNat (y.val + 0xC0)) = true := by
    decide +kernel
  have hlt := Nat.mod_lt x hm
  have hy := hall ⟨x % m + (k - 0xC0), by omega⟩
  rwa [show x % m + (k - 0xC0) + 0xC0 = x % m + k by omega] at hy

theorem not_continuation_of_lead {b : UInt8} (h : IsLead b = true) : IsContinuation b = false := by
  rw [IsLead, beq_iff_eq] at h
  rw [IsContinuation, h]
  decide

/-- **The shape of a character**: one byte below 128, or a lead and up to three
continuations. -/
theorem encode_shape (c : Char) :
    ∃ b t, encode c = b :: t ∧ IsContinuation b = false ∧ (∀ x ∈ t, IsContinuation x = true)
      ∧ t.length ≤ 3 ∧ (t ≠ [] → IsLead b = true) := by
  unfold encode String.utf8EncodeChar
  dsimp only
  split_ifs with h1 h2 h3
  · refine ⟨_, _, rfl, ?_, by simp, by simp, fun h => absurd rfl h⟩
    have hall : ∀ y : Fin 0x80, IsContinuation (UInt8.ofNat y.val) = false := by decide +kernel
    exact hall ⟨c.val.toNat, by omega⟩
  · have hlead := isLead_head (m := 0x20) (k := 0xC0) (by decide) (by decide) (by decide)
      (c.val.toNat / 64)
    refine ⟨_, _, rfl, not_continuation_of_lead hlead, ?_, by simp, fun _ => hlead⟩
    simp only [List.mem_cons, List.not_mem_nil, or_false, forall_eq]
    exact isContinuation_tail _
  · have hlead := isLead_head (m := 0x10) (k := 0xE0) (by decide) (by decide) (by decide)
      (c.val.toNat / 4096)
    refine ⟨_, _, rfl, not_continuation_of_lead hlead, ?_, by simp, fun _ => hlead⟩
    simp only [List.mem_cons, List.not_mem_nil, or_false, forall_eq_or_imp, forall_eq]
    exact ⟨isContinuation_tail _, isContinuation_tail _⟩
  · have hlead := isLead_head (m := 0x08) (k := 0xF0) (by decide) (by decide) (by decide)
      (c.val.toNat / 262144)
    refine ⟨_, _, rfl, not_continuation_of_lead hlead, ?_, by simp, fun _ => hlead⟩
    simp only [List.mem_cons, List.not_mem_nil, or_false, forall_eq_or_imp, forall_eq]
    exact ⟨isContinuation_tail _, isContinuation_tail _, isContinuation_tail _⟩

/-! ## Reading a character -/

/-- The character whose bytes the list begins with. -/
def decode? (bs : List UInt8) : Option Char := bs.toByteArray.utf8DecodeChar? 0

theorem decode?_eq_some_iff {bs : List UInt8} {c : Char} : decode? bs = some c ↔ encode c <+: bs := by
  constructor
  · intro h
    obtain ⟨rest, hrest⟩ := ByteArray.exists_of_utf8DecodeChar?_eq_some h
    refine ⟨rest.data.toList, ?_⟩
    have hlist := congrArg (fun b : ByteArray => b.data.toList) hrest
    simpa [encode] using hlist.symm
  · rintro ⟨rest, rfl⟩
    rw [decode?, List.toByteArray_append]
    exact ByteArray.utf8DecodeChar?_utf8EncodeChar_append

/-- No character begins with another. -/
theorem eq_of_encode_prefix {c d : Char} {bs : List UInt8} (hc : encode c <+: bs)
    (hd : encode d <+: bs) : c = d :=
  Option.some.inj ((decode?_eq_some_iff.mpr hc).symm.trans (decode?_eq_some_iff.mpr hd))

/-- The bytes are the beginning of a character, and not all of it. -/
def Truncated (bs : List UInt8) : Prop := ∃ c, bs <+: encode c ∧ bs ≠ encode c

/-! ### Deciding that the rest of a character is missing

A beginning of a character is completed by the lowest continuations, or by the
highest: one of the two is a character again. So a decoder decides `Truncated`
by decoding a few completions. -/

/-- The bytes of the character with a given number. -/
def encodeNat (v : ℕ) : List UInt8 :=
  if v ≤ 0x7f then [UInt8.ofNat v]
  else if v ≤ 0x7ff then [UInt8.ofNat (v / 64 % 0x20 + 0xc0), UInt8.ofNat (v % 0x40 + 0x80)]
  else if v ≤ 0xffff then
    [UInt8.ofNat (v / 4096 % 0x10 + 0xe0), UInt8.ofNat (v / 64 % 0x40 + 0x80),
      UInt8.ofNat (v % 0x40 + 0x80)]
  else
    [UInt8.ofNat (v / 262144 % 0x08 + 0xf0), UInt8.ofNat (v / 4096 % 0x40 + 0x80),
      UInt8.ofNat (v / 64 % 0x40 + 0x80), UInt8.ofNat (v % 0x40 + 0x80)]

theorem encode_eq_encodeNat (c : Char) : encode c = encodeNat c.toNat := rfl

theorem exists_encode_eq {w : ℕ} (h : w.isValidChar) : ∃ d : Char, encode d = encodeNat w :=
  ⟨Char.ofNatAux w h, rfl⟩

theorem encodeNat_two {w : ℕ} (h1 : 0x7f < w) (h2 : w ≤ 0x7ff) :
    encodeNat w = [UInt8.ofNat (w / 64 % 0x20 + 0xc0), UInt8.ofNat (w % 0x40 + 0x80)] := by
  rw [encodeNat, if_neg (by omega), if_pos h2]

theorem encodeNat_three {w : ℕ} (h1 : 0x7ff < w) (h2 : w ≤ 0xffff) :
    encodeNat w = [UInt8.ofNat (w / 4096 % 0x10 + 0xe0), UInt8.ofNat (w / 64 % 0x40 + 0x80),
      UInt8.ofNat (w % 0x40 + 0x80)] := by
  rw [encodeNat, if_neg (by omega), if_neg (by omega), if_pos h2]

theorem encodeNat_four {w : ℕ} (h1 : 0xffff < w) :
    encodeNat w = [UInt8.ofNat (w / 262144 % 0x08 + 0xf0), UInt8.ofNat (w / 4096 % 0x40 + 0x80),
      UInt8.ofNat (w / 64 % 0x40 + 0x80), UInt8.ofNat (w % 0x40 + 0x80)] := by
  rw [encodeNat, if_neg (by omega), if_neg (by omega), if_neg (by omega)]

/-- The beginning of a character of some length, with `n` bytes missing. -/
def Completes (bs : List UInt8) (n : ℕ) : Prop :=
  ∃ w : ℕ, w.isValidChar ∧ (encodeNat w = bs ++ List.replicate n 0x80
    ∨ encodeNat w = bs ++ List.replicate n 0xBF)

section Completion

variable {v : ℕ} {b : UInt8} {bs r : List UInt8}

theorem completes_two (h1 : 0x7f < v) (h2 : v ≤ 0x7ff) (h : encodeNat v = b :: bs ++ r)
    (hr : r ≠ []) : Completes (b :: bs) r.length := by
  rw [encodeNat_two h1 h2] at h
  rcases bs with _ | ⟨b₁, bs⟩
  · simp only [List.cons_append, List.nil_append, List.cons.injEq] at h
    obtain ⟨rfl, rfl⟩ := h
    refine ⟨v / 64 * 64, Or.inl (by omega), Or.inl ?_⟩
    rw [encodeNat_two (by omega) (by omega), show v / 64 * 64 / 64 = v / 64 by omega,
      show v / 64 * 64 % 0x40 = 0 by omega]
    rfl
  · simp only [List.cons_append, List.cons.injEq] at h
    exact absurd (List.append_eq_nil_iff.mp h.2.2.symm).2 hr

theorem completes_three (hvalid : v.isValidChar) (h1 : 0x7ff < v) (h2 : v ≤ 0xffff)
    (h : encodeNat v = b :: bs ++ r) (hr : r ≠ []) : Completes (b :: bs) r.length := by
  unfold Nat.isValidChar at hvalid
  rw [encodeNat_three h1 h2] at h
  rcases bs with _ | ⟨b₁, _ | ⟨b₂, bs⟩⟩
  · simp only [List.cons_append, List.nil_append, List.cons.injEq] at h
    obtain ⟨rfl, rfl⟩ := h
    by_cases hzero : v / 4096 = 0
    · -- below U+1000 the lowest continuations do not make a shortest form
      refine ⟨0xfff, Or.inl (by omega), Or.inr ?_⟩
      rw [hzero]
      rfl
    · refine ⟨v / 4096 * 4096, by unfold Nat.isValidChar; omega, Or.inl ?_⟩
      rw [encodeNat_three (by omega) (by omega), show v / 4096 * 4096 / 4096 = v / 4096 by omega,
        show v / 4096 * 4096 / 64 % 0x40 = 0 by omega, show v / 4096 * 4096 % 0x40 = 0 by omega]
      rfl
  · simp only [List.cons_append, List.nil_append, List.cons.injEq] at h
    obtain ⟨rfl, rfl, rfl⟩ := h
    refine ⟨v / 64 * 64, by unfold Nat.isValidChar; omega, Or.inl ?_⟩
    rw [encodeNat_three (by omega) (by omega), show v / 64 * 64 / 4096 = v / 4096 by omega,
      show v / 64 * 64 / 64 = v / 64 by omega, show v / 64 * 64 % 0x40 = 0 by omega]
    rfl
  · simp only [List.cons_append, List.cons.injEq] at h
    exact absurd (List.append_eq_nil_iff.mp h.2.2.2.symm).2 hr

theorem completes_four (hvalid : v.isValidChar) (h1 : 0xffff < v)
    (h : encodeNat v = b :: bs ++ r) (hr : r ≠ []) : Completes (b :: bs) r.length := by
  unfold Nat.isValidChar at hvalid
  rw [encodeNat_four h1] at h
  rcases bs with _ | ⟨b₁, _ | ⟨b₂, _ | ⟨b₃, bs⟩⟩⟩
  · simp only [List.cons_append, List.nil_append, List.cons.injEq] at h
    obtain ⟨rfl, rfl⟩ := h
    by_cases hzero : v / 262144 = 0
    · refine ⟨0x3ffff, Or.inr (by omega), Or.inr ?_⟩
      rw [hzero]
      rfl
    · refine ⟨v / 262144 * 262144, by unfold Nat.isValidChar; omega, Or.inl ?_⟩
      rw [encodeNat_four (by omega), show v / 262144 * 262144 / 262144 = v / 262144 by omega,
        show v / 262144 * 262144 / 4096 % 0x40 = 0 by omega,
        show v / 262144 * 262144 / 64 % 0x40 = 0 by omega,
        show v / 262144 * 262144 % 0x40 = 0 by omega]
      rfl
  · simp only [List.cons_append, List.nil_append, List.cons.injEq] at h
    obtain ⟨rfl, rfl, rfl⟩ := h
    refine ⟨v / 4096 * 4096, by unfold Nat.isValidChar; omega, Or.inl ?_⟩
    rw [encodeNat_four (by omega), show v / 4096 * 4096 / 262144 = v / 262144 by omega,
      show v / 4096 * 4096 / 4096 = v / 4096 by omega,
      show v / 4096 * 4096 / 64 % 0x40 = 0 by omega, show v / 4096 * 4096 % 0x40 = 0 by omega]
    rfl
  · simp only [List.cons_append, List.nil_append, List.cons.injEq] at h
    obtain ⟨rfl, rfl, rfl, rfl⟩ := h
    refine ⟨v / 64 * 64, by unfold Nat.isValidChar; omega, Or.inl ?_⟩
    rw [encodeNat_four (by omega), show v / 64 * 64 / 262144 = v / 262144 by omega,
      show v / 64 * 64 / 4096 = v / 4096 by omega, show v / 64 * 64 / 64 = v / 64 by omega,
      show v / 64 * 64 % 0x40 = 0 by omega]
    rfl
  · simp only [List.cons_append, List.cons.injEq] at h
    exact absurd (List.append_eq_nil_iff.mp h.2.2.2.2.symm).2 hr

end Completion

/-- A beginning of a character has a completion of the two kinds. -/
theorem exists_completion {c : Char} {bs r : List UInt8} (h : encode c = bs ++ r) (hbs : bs ≠ [])
    (hr : r ≠ []) :
    ∃ fill ∈ [(0x80 : UInt8), 0xBF], ∃ d, encode d = bs ++ List.replicate r.length fill := by
  have hvalid : c.toNat.isValidChar := c.valid
  obtain ⟨b, bs, rfl⟩ := List.exists_cons_of_ne_nil hbs
  have hcompletes : Completes (b :: bs) r.length := by
    rw [encode_eq_encodeNat] at h
    by_cases h1 : c.toNat ≤ 0x7f
    · rw [encodeNat, if_pos h1] at h
      obtain ⟨-, hnil⟩ := List.cons.inj h
      exact absurd (List.append_eq_nil_iff.mp hnil.symm).2 hr
    by_cases h2 : c.toNat ≤ 0x7ff
    · exact completes_two (by omega) h2 h hr
    by_cases h3 : c.toNat ≤ 0xffff
    · exact completes_three hvalid (by omega) h3 h hr
    · exact completes_four hvalid (by omega) h hr
  obtain ⟨w, hw, hlow | hhigh⟩ := hcompletes
  · obtain ⟨d, hd⟩ := exists_encode_eq hw
    exact ⟨0x80, by simp, d, hd.trans hlow⟩
  · obtain ⟨d, hd⟩ := exists_encode_eq hw
    exact ⟨0xBF, by simp, d, hd.trans hhigh⟩

/-- Some completion decodes to a character that needs all of its bytes. -/
def completable (bs : List UInt8) : Bool :=
  bs.isEmpty || [(0x80 : UInt8), 0xBF].any fun fill => [1, 2, 3].any fun k =>
    (decode? (bs ++ List.replicate k fill)).any fun c => c.utf8Size == bs.length + k

theorem completable_iff {bs : List UInt8} : completable bs = true ↔ Truncated bs := by
  unfold completable
  rw [Bool.or_eq_true, List.isEmpty_iff]
  constructor
  · rintro (rfl | h)
    · exact ⟨'a', List.nil_prefix, (encode_ne_nil 'a').symm⟩
    · simp only [List.any_eq_true, Option.any_eq_true, beq_iff_eq] at h
      obtain ⟨fill, -, k, hk, c, hc, hsize⟩ := h
      have hpre := decode?_eq_some_iff.mp hc
      have heq : encode c = bs ++ List.replicate k fill := by
        apply hpre.eq_of_length
        rw [length_encode, hsize, List.length_append, List.length_replicate]
      refine ⟨c, heq ▸ List.prefix_append _ _, fun hbs => ?_⟩
      have hlen := congrArg List.length (hbs.trans heq)
      rw [List.length_append, List.length_replicate] at hlen
      simp only [List.mem_cons, List.not_mem_nil, or_false] at hk
      omega
  · rintro ⟨c, ⟨r, hr⟩, hne⟩
    by_cases hbs : bs = []
    · exact Or.inl hbs
    · right
      have hrne : r ≠ [] := by
        rintro rfl
        exact hne (by rw [← hr, List.append_nil])
      obtain ⟨fill, hfill, d, hd⟩ := exists_completion hr.symm hbs hrne
      have hlen := encode_length_le c
      rw [← hr, List.length_append] at hlen
      have hpos := List.length_pos_of_ne_nil hbs
      have hrpos := List.length_pos_of_ne_nil hrne
      simp only [List.any_eq_true, Option.any_eq_true, beq_iff_eq]
      refine ⟨fill, hfill, r.length, ?_, d, ?_, ?_⟩
      · simp only [List.mem_cons, List.not_mem_nil, or_false]
        omega
      · rw [decode?_eq_some_iff, hd]
      · rw [← length_encode, hd, List.length_append, List.length_replicate]

instance (bs : List UInt8) : Decidable (Truncated bs) :=
  decidable_of_iff _ completable_iff

/-! ### The three answers -/

/-- What a decoder says of the bytes in front of it. -/
inductive Reading
  | character (c : Char)
  | truncated
  | invalid

/-- The answer to the bytes in front. -/
def read (bs : List UInt8) : Reading :=
  match decode? bs with
  | some c => .character c
  | none => if Truncated bs then .truncated else .invalid

/-- The beginning of a character is none. -/
theorem Truncated.decode?_eq_none {bs : List UInt8} (h : Truncated bs) : decode? bs = none := by
  obtain ⟨c, hpre, hne⟩ := h
  rw [Option.eq_none_iff_forall_ne_some]
  intro d hd
  have hd' := decode?_eq_some_iff.mp hd
  have hdc := eq_of_encode_prefix (hd'.trans hpre) List.prefix_rfl
  subst hdc
  exact hne (hpre.eq_of_length (le_antisymm hpre.length_le hd'.length_le))

theorem read_eq_character_iff {bs : List UInt8} {c : Char} :
    read bs = .character c ↔ encode c <+: bs := by
  rw [← decode?_eq_some_iff, read]
  split
  · next d hd => simp [hd]
  · next hnone => split <;> simp [hnone]

theorem read_eq_truncated_iff {bs : List UInt8} : read bs = .truncated ↔ Truncated bs := by
  rw [read]
  split
  · next d hd =>
      constructor
      · intro h
        cases h
      · intro h
        rw [h.decode?_eq_none] at hd
        cases hd
  · split
    · next h => exact ⟨fun _ => h, fun _ => rfl⟩
    · next h => exact ⟨fun h' => Reading.noConfusion h', fun h' => absurd h' h⟩

theorem read_eq_invalid_iff {bs : List UInt8} :
    read bs = .invalid ↔ (∀ c, ¬ encode c <+: bs) ∧ ¬ Truncated bs := by
  constructor
  · intro h
    refine ⟨fun c hc => ?_, fun ht => ?_⟩
    · rw [read_eq_character_iff.mpr hc] at h
      cases h
    · rw [read_eq_truncated_iff.mpr ht] at h
      cases h
  · rintro ⟨hno, hnt⟩
    cases hread : read bs with
    | character c => exact absurd (read_eq_character_iff.mp hread) (hno c)
    | truncated => exact absurd (read_eq_truncated_iff.mp hread) hnt
    | invalid => rfl

/-! ### More bytes

What was read of the bytes in front is not changed by what comes behind, unless
the rest of a character was missing. -/

theorem Truncated.of_prefix {p q : List UInt8} (h : Truncated q) (hpq : p <+: q) : Truncated p := by
  obtain ⟨c, hpre, hne⟩ := h
  refine ⟨c, hpq.trans hpre, ?_⟩
  rintro rfl
  exact hne (hpre.eq_of_length (le_antisymm hpre.length_le hpq.length_le))

@[simp] theorem truncated_nil : Truncated [] := ⟨'a', List.nil_prefix, (encode_ne_nil 'a').symm⟩

theorem read_invalid_append {bs : List UInt8} (h : read bs = .invalid) (r : List UInt8) :
    read (bs ++ r) = .invalid := by
  obtain ⟨hno, hnt⟩ := read_eq_invalid_iff.mp h
  refine read_eq_invalid_iff.mpr ⟨fun c hc => ?_, fun ht => ?_⟩
  · rcases List.prefix_or_prefix_of_prefix hc (List.prefix_append bs r) with hcb | hbc
    · exact hno c hcb
    · refine hnt ⟨c, hbc, ?_⟩
      rintro rfl
      exact hno c List.prefix_rfl
  · exact hnt (ht.of_prefix (List.prefix_append bs r))

/-- The beginning of a character is a lead and continuations. -/
theorem Truncated.shape {bs : List UInt8} (h : Truncated bs) (hne : bs ≠ []) :
    ∃ b t, bs = b :: t ∧ IsLead b = true ∧ IsContinuation b = false
      ∧ (∀ x ∈ t, IsContinuation x = true) ∧ t.length ≤ 2 := by
  obtain ⟨c, ⟨r, hr⟩, hbs⟩ := h
  obtain ⟨b, t, henc, hb, ht, hlen, hlead⟩ := encode_shape c
  obtain ⟨b', t', rfl⟩ := List.exists_cons_of_ne_nil hne
  rw [henc, List.cons_append] at hr
  obtain ⟨rfl, rfl⟩ := List.cons.inj hr
  have hr : r ≠ [] := by
    rintro rfl
    exact hbs (by rw [henc, List.append_nil])
  have hrpos := List.length_pos_of_ne_nil hr
  rw [List.length_append] at hlen
  refine ⟨b', t', rfl, hlead ?_, hb, fun x hx => ht x (List.mem_append_left r hx), by omega⟩
  exact fun hnil => hr (List.append_eq_nil_iff.mp hnil).2

/-- No character begins with a continuation. -/
theorem read_continuation {b : UInt8} (hb : IsContinuation b = true) (r : List UInt8) :
    read (b :: r) = .invalid := by
  refine read_eq_invalid_iff.mpr ⟨fun c hc => ?_, fun ht => ?_⟩
  · obtain ⟨b', t, henc, hb', -⟩ := encode_shape c
    rw [henc, List.cons_prefix_cons] at hc
    rw [hc.1, hb] at hb'
    cases hb'
  · obtain ⟨b', t, heq, -, hb', -⟩ := ht.shape (List.cons_ne_nil b r)
    rw [← (List.cons.inj heq).1, hb] at hb'
    cases hb'

/-- The beginning of a character does not decode where something else than a
continuation follows. -/
theorem Truncated.read_append {bs : List UInt8} (h : Truncated bs) (hne : bs ≠ []) {y : UInt8}
    (hy : IsContinuation y = false) (r : List UInt8) : read (bs ++ y :: r) = .invalid := by
  obtain ⟨b, t, rfl, -⟩ := h.shape hne
  -- `y` would be one of the continuations of the character
  have hinside : ∀ c, ¬ (b :: t ++ [y]) <+: encode c := by
    rintro c ⟨r', hr'⟩
    obtain ⟨b', t', henc, -, ht', -⟩ := encode_shape c
    rw [henc, List.cons_append, List.cons_append] at hr'
    have hy' := ht' y (by rw [← (List.cons.inj hr').2]; simp)
    rw [hy] at hy'
    cases hy'
  have hsplit : b :: t ++ y :: r = (b :: t ++ [y]) ++ r := List.append_cons _ _ _
  refine read_eq_invalid_iff.mpr ⟨fun c hc => ?_, fun ht => ?_⟩
  · rcases List.prefix_or_prefix_of_prefix hc (List.prefix_append (b :: t) (y :: r)) with hcb | hbc
    · have hnone := h.decode?_eq_none
      rw [decode?_eq_some_iff.mpr hcb] at hnone
      cases hnone
    · -- the character is longer than what is there, so it has `y`
      rw [hsplit] at hc
      rcases List.prefix_or_prefix_of_prefix hc (List.prefix_append (b :: t ++ [y]) r) with hcy | hyc
      · have hlen := hcy.length_le
        rw [List.length_append, List.length_singleton] at hlen
        have hle := hbc.length_le
        rcases Nat.lt_or_eq_of_le hle with hlt | heq
        · have hfull := hcy.eq_of_length (by
            rw [List.length_append, List.length_singleton]
            omega)
          exact hinside c (hfull ▸ List.prefix_rfl)
        · have hself : encode c <+: b :: t := by rw [hbc.eq_of_length heq]
          have hnone := h.decode?_eq_none
          rw [decode?_eq_some_iff.mpr hself] at hnone
          cases hnone
      · exact hinside c hyc
  · obtain ⟨c, hc, -⟩ := ht
    rw [hsplit] at hc
    exact hinside c ((List.prefix_append _ r).trans hc)

/-- **Induction over what is read**: an unfinished character or nothing, a
character and the rest, a byte that does not decode and the rest. -/
theorem read_induction {P : List UInt8 → Prop} (truncated : ∀ bs, Truncated bs → P bs)
    (character : ∀ c r, P r → P (encode c ++ r))
    (invalid : ∀ b r, read (b :: r) = .invalid → P r → P (b :: r)) (bs : List UInt8) : P bs := by
  induction hn : bs.length using Nat.strong_induction_on generalizing bs with
  | _ n ih =>
      cases hread : read bs with
      | character c =>
          obtain ⟨r, rfl⟩ := read_eq_character_iff.mp hread
          have hpos := encode_length_pos c
          rw [List.length_append] at hn
          exact character c r (ih r.length (by omega) r rfl)
      | truncated => exact truncated bs (read_eq_truncated_iff.mp hread)
      | invalid =>
          cases bs with
          | nil =>
              rw [read_eq_truncated_iff.mpr truncated_nil] at hread
              cases hread
          | cons b r =>
              rw [List.length_cons] at hn
              exact invalid b r hread (ih r.length (by omega) r rfl)

/-! ## Width -/

/-- The columns of a text, characters with the columns that `w` gives. -/
def width (w : Char → ℤ) (bs : List UInt8) : ℤ :=
  match h : read bs with
  | .character c => w c + width w (bs.drop c.utf8Size)
  | .truncated => 0
  | .invalid => 1 + width w bs.tail
termination_by bs.length
decreasing_by
  · have hpre := (read_eq_character_iff.mp h).length_le
    have hpos := encode_length_pos c
    rw [length_encode] at hpre hpos
    rw [List.length_drop]
    omega
  · have hne : bs ≠ [] := by
      rintro rfl
      rw [read_eq_truncated_iff.mpr truncated_nil] at h
      cases h
    have hpos := List.length_pos_of_ne_nil hne
    rw [List.length_tail]
    omega

section Width

variable {w : Char → ℤ}

theorem width_character (c : Char) (r : List UInt8) :
    width w (encode c ++ r) = w c + width w r := by
  have hread : read (encode c ++ r) = .character c :=
    read_eq_character_iff.mpr (List.prefix_append _ _)
  rw [width]
  split
  · next d hd =>
      rw [hread] at hd
      cases hd
      rw [← length_encode, List.drop_left]
  · next hd =>
      rw [hread] at hd
      cases hd
  · next hd =>
      rw [hread] at hd
      cases hd

theorem width_truncated {bs : List UInt8} (h : Truncated bs) : width w bs = 0 := by
  have hread := read_eq_truncated_iff.mpr h
  rw [width]
  split
  · next d hd =>
      rw [hread] at hd
      cases hd
  · rfl
  · next hd =>
      rw [hread] at hd
      cases hd

theorem width_invalid {b : UInt8} {r : List UInt8} (h : read (b :: r) = .invalid) :
    width w (b :: r) = 1 + width w r := by
  rw [width]
  split
  · next d hd =>
      rw [h] at hd
      cases hd
  · next hd =>
      rw [h] at hd
      cases hd
  · rfl

@[simp] theorem width_nil : width w [] = 0 := width_truncated truncated_nil

/-- A text is as wide as its characters. -/
theorem width_text (cs : List Char) : width w (text cs) = (cs.map w).sum := by
  induction cs with
  | nil => exact width_nil
  | cons c cs ih => rw [text_cons, width_character, ih, List.map_cons, List.sum_cons]

theorem width_continuations {t : List UInt8} (ht : ∀ x ∈ t, IsContinuation x = true)
    (r : List UInt8) : width w (t ++ r) = t.length + width w r := by
  induction t with
  | nil => simp
  | cons x t ih =>
      rw [List.cons_append, width_invalid (read_continuation (ht x List.mem_cons_self) _),
        ih fun y hy => ht y (List.mem_cons_of_mem _ hy), List.length_cons]
      push_cast
      omega

variable (hw : ∀ c, 0 ≤ w c)
include hw

theorem width_nonneg (bs : List UInt8) : 0 ≤ width w bs := by
  induction bs using read_induction with
  | truncated bs h =>
      exact Int.le_of_eq (width_truncated h).symm
  | character c r ih =>
      rw [width_character]
      have hc := hw c
      omega
  | invalid b r h ih =>
      rw [width_invalid h]
      omega

/-- **A text is at least as wide as each of its beginnings.** -/
theorem width_mono {p s : List UInt8} (h : p <+: s) : width w p ≤ width w s := by
  induction s using read_induction generalizing p with
  | truncated s hs =>
      exact Int.le_of_eq ((width_truncated (hs.of_prefix h)).trans (width_truncated hs).symm)
  | character c r ih =>
      rw [width_character]
      rcases List.prefix_or_prefix_of_prefix h (List.prefix_append (encode c) r) with hpc | hcp
      · by_cases hpeq : p = encode c
        · have hnil := width_character (w := w) c []
          rw [List.append_nil, width_nil] at hnil
          rw [hpeq, hnil]
          have hr := width_nonneg hw r
          omega
        · -- the beginning ends within the character, and is not counted
          rw [width_truncated ⟨c, hpc, hpeq⟩]
          have hc := hw c
          have hr := width_nonneg hw r
          omega
      · obtain ⟨p', rfl⟩ := hcp
        rw [width_character]
        have hp' := ih ((List.prefix_append_right_inj (encode c)).mp h)
        omega
  | invalid b r hread ih =>
      have hr := width_nonneg hw r
      rw [width_invalid hread]
      cases p with
      | nil =>
          rw [width_nil]
          omega
      | cons b' p =>
          obtain ⟨rfl, hpr⟩ := List.cons_prefix_cons.mp h
          have hp := ih hpr
          cases hreadp : read (b' :: p) with
          | character d =>
              exact absurd ((read_eq_character_iff.mp hreadp).trans h)
                ((read_eq_invalid_iff.mp hread).1 d)
          | truncated =>
              rw [width_truncated (read_eq_truncated_iff.mp hreadp)]
              omega
          | invalid =>
              rw [width_invalid hreadp]
              omega

end Width

/-! ## Texts that do not end within a character -/

/-- The text can be read to its end. -/
inductive Closed : List UInt8 → Prop
  | nil : Closed []
  | character (c : Char) {r : List UInt8} : Closed r → Closed (encode c ++ r)
  | invalid {b : UInt8} {r : List UInt8} : read (b :: r) = .invalid → Closed r → Closed (b :: r)

theorem closed_text (cs : List Char) : Closed (text cs) := by
  induction cs with
  | nil => exact Closed.nil
  | cons c cs ih => exact Closed.character c ih

theorem closed_continuations {t : List UInt8} (ht : ∀ x ∈ t, IsContinuation x = true) :
    Closed t := by
  induction t with
  | nil => exact Closed.nil
  | cons x t ih =>
      exact Closed.invalid (read_continuation (ht x List.mem_cons_self) t)
        (ih fun y hy => ht y (List.mem_cons_of_mem _ hy))

/-- A byte and continuations behind it: the beginning of a character, or read to
the end. -/
theorem closed_or_truncated (b : UInt8) {t : List UInt8} (ht : ∀ x ∈ t, IsContinuation x = true) :
    Closed (b :: t) ∨ Truncated (b :: t) := by
  cases hread : read (b :: t) with
  | character c =>
      obtain ⟨r, hr⟩ := read_eq_character_iff.mp hread
      obtain ⟨b', t', henc, -⟩ := encode_shape c
      rw [henc, List.cons_append] at hr
      left
      rw [← hr, ← List.cons_append, ← henc]
      apply Closed.character
      apply closed_continuations
      intro x hx
      exact ht x ((List.cons.inj hr).2 ▸ List.mem_append_right t' hx)
  | truncated => exact Or.inr (read_eq_truncated_iff.mp hread)
  | invalid => exact Or.inl (Closed.invalid hread (closed_continuations ht))

theorem Closed.append {p q : List UInt8} (hp : Closed p) (hq : Closed q) : Closed (p ++ q) := by
  induction hp with
  | nil => exact hq
  | character c _ ih =>
      rw [List.append_assoc]
      exact Closed.character c ih
  | invalid hread _ ih => exact Closed.invalid (read_invalid_append hread q) ih

/-- **The width of two parts**, the first of which can be read to its end. -/
theorem Closed.width_append {p : List UInt8} (hp : Closed p) (w : Char → ℤ) (r : List UInt8) :
    width w (p ++ r) = width w p + width w r := by
  induction hp with
  | nil => rw [List.nil_append, width_nil, Int.zero_add]
  | character c _ ih =>
      rw [List.append_assoc, width_character, width_character, ih]
      omega
  | invalid hread _ ih =>
      have hread' := read_invalid_append hread r
      rw [List.cons_append] at hread' ⊢
      rw [width_invalid hread', width_invalid hread, ih]
      omega

end Lib.Utf8
