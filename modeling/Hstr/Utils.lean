/-
`src/hstr_utils.c`: what the other files use of it.

The pattern is edited in place by `hstr_chop`, `hstr_strcat_char_fitting` and
`toggle_case`; widths are those of the current locale, which is a parameter.
`zsh_unmetafy` undoes the encoding that zsh puts on its history file.
-/
import Hstr.Strings
import Mathlib.Data.List.DropRight

set_option autoImplicit false

namespace Hstr.Utils

open Hstr.Strings

/-- A string where every byte is replaced and no NUL arises. -/
def mapBytes (f : Byte → Byte) (hf : ∀ c, f c = 0 ↔ c = 0) (s : CString) : CString where
  bytes := s.bytes.map f
  nonul := by
    intro h
    obtain ⟨c, hc, hc0⟩ := List.mem_map.mp h
    exact s.nonul ((hf c).mp hc0 ▸ hc)

/-- `s + n`, the string from its byte `n` on. -/
def advance (s : CString) (n : ℕ) : CString := ⟨s.bytes.drop n, fun h => s.nonul (List.mem_of_mem_drop h)⟩

/-- The first `n` bytes of a string. -/
def truncate (s : CString) (n : ℕ) : CString := ⟨s.bytes.take n, fun h => s.nonul (List.mem_of_mem_take h)⟩

/-! ## Display width

`mbrtowc` of the locale gets the bytes that are left, and is called in the
initial conversion state: the loop stops or resets the state wherever a
conversion leaves another one. -/

/-- What `mbrtowc` returns: `(size_t)-2`, `0`, `(size_t)-1`, or the length of
the character it stores. -/
inductive MbResult
  | incomplete
  | nul
  | invalid
  | char (wc length : ℕ)

/-- `LC_CTYPE`. -/
structure LcCtype where
  mbrtowc : List Byte → MbResult
  wcwidth : ℕ → ℤ

/-- The loop of `hstr_strnwidth` over the bytes left; every round consumes at
least one, so their number is fuel enough. -/
def strnwidthLoop (locale : LcCtype) : ℕ → List Byte → ℤ
  | _, [] => 0
  | 0, _ => 0
  | fuel + 1, c :: rest =>
      match locale.mbrtowc (c :: rest) with
      | .incomplete => 0
      | .nul => 0
      | .invalid => 1 + strnwidthLoop locale fuel rest
      | .char wc length =>
          let charWidth := locale.wcwidth wc
          (if charWidth < 0 then 1 else charWidth)
            + strnwidthLoop locale fuel ((c :: rest).drop length)

def hstr_strnwidth (locale : LcCtype) (s : CString) (n : ℕ) : ℤ :=
  strnwidthLoop locale (s.bytes.take n).length (s.bytes.take n)

def hstr_strwidth (locale : LcCtype) (s : CString) : ℤ := hstr_strnwidth locale s (strlen s)

/-! ## Editing the pattern -/

def UTF8_MAX_BYTES : ℕ := 4

/-- The bytes `10xxxxxx`. -/
def IS_UTF8_CONTINUATION (c : Byte) : Bool := (c &&& 0xC0) == 0x80

/-- The bytes `11xxxxxx`. -/
def IS_UTF8_LEAD (c : Byte) : Bool := (c &&& 0xC0) == 0xC0

/-- The loop of `hstr_chop` that moves `last` to the start of a character. -/
def chopStart (s : List Byte) : ℕ → ℕ
  | 0 => 0
  | last + 1 =>
      if s.length - (last + 1) < UTF8_MAX_BYTES ∧ IS_UTF8_CONTINUATION (s.getD (last + 1) 0) then
        chopStart s last
      else last + 1

/-- `hstr_chop`: the string without its last character. -/
def hstr_chop (s : CString) : CString :=
  let length := strlen s
  if length ≠ 0 then
    let last := chopStart s.bytes (length - 1)
    -- no lead byte in front: the string does not end in a UTF-8 character
    let last := if last ≠ length - 1 ∧ !IS_UTF8_LEAD (s.bytes.getD last 0) then length - 1 else last
    truncate s last
  else s

/-- `hstr_strcat_char` on a string in a buffer of the given size: `none` where
nothing is appended. -/
def hstr_strcat_char (s : CString) (size : ℕ) (c : ℤ) : Option CString :=
  if h : c ≤ 0 ∨ c > 255 then none
  else if strlen s + 1 ≥ size then none
  else some ⟨s.bytes ++ [c.toNat.toUInt8], by
    intro hmem
    rcases List.mem_append.mp hmem with hs | hc
    · exact s.nonul hs
    · -- a value from 1 to 255 is not the terminator
      have hz : (0 : Byte) = c.toNat.toUInt8 := List.mem_singleton.mp hc
      have hn := congrArg UInt8.toNat hz
      simp at hn
      omega⟩

/-- `hstr_strcat_char_fitting`: the string after the call, and its result. -/
def hstr_strcat_char_fitting (locale : LcCtype) (s : CString) (size : ℕ) (c maxWidth : ℤ) :
    CString × Bool :=
  match hstr_strcat_char s size c with
  | none => (s, false)
  | some s =>
      if hstr_strwidth locale s > maxWidth then (hstr_chop s, false)
      else (s, true)

/-- `toggle_case`. -/
def toggle_case (str : CString) (lowercase : Bool) : CString :=
  if lowercase then mapBytes tolower tolower_eq_zero_iff str
  else mapBytes toupper toupper_eq_zero_iff str

/-- Toggling the case is invisible to comparisons that ignore case. -/
theorem map_tolower_toggle_case (str : CString) (lowercase : Bool) :
    (toggle_case str lowercase).bytes.map tolower = str.bytes.map tolower := by
  cases lowercase with
  | true => simp [toggle_case, mapBytes, Function.comp_def, tolower_tolower]
  | false => simp [toggle_case, mapBytes, Function.comp_def, tolower_toupper]

/-! ## Metafied zsh history

A byte that zsh keeps for itself is stored as the byte `ZSH_META` and the byte
xor 32. The decoder trusts that pairing: where a string ends in a `ZSH_META`
that has no second byte, it takes the terminator for one and goes on in the
memory behind the string. The model reads a fresh copy of a string, and what
lies behind that copy is a parameter, so two copies of one string need not
decode alike. What the decoder then writes behind the copy hits nothing that the
program uses. -/

def ZSH_META : Byte := 0x83

/-- The second loop of `zsh_unmetafy`, the bytes it writes to `t`. -/
def unmetafyLoop : List Byte → List Byte
  | [] => []
  -- the memory ends behind a `ZSH_META`: the second byte is read as NUL
  | [c] => if c = 0 then [] else if c = ZSH_META then [32] else [c]
  | c :: d :: rest =>
      if c = 0 then []
      else if c = ZSH_META then (d ^^^ 32) :: unmetafyLoop rest
      else c :: unmetafyLoop (d :: rest)

/-- `zsh_unmetafy` on a fresh copy of `s` with the bytes `beyond` behind its
terminator: the string it returns. -/
def zsh_unmetafy (beyond : List Byte) (s : CString) : CString :=
  let p := s.bytes.takeWhile (fun c => c != ZSH_META)
  let rest := s.bytes.dropWhile (fun c => c != ZSH_META)
  ofBuffer (p ++ unmetafyLoop (rest ++ 0 :: beyond))

end Hstr.Utils
