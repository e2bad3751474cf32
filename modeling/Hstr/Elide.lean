/-
`hstr_strelide` and its helpers, as the source computes them.

The functions get the memory of a string, with its terminator and nothing
behind it: a read behind the terminator is a fault, and so are a write behind
the buffer, a difference of sizes that wraps around, a loop that does not end,
and a count of columns that does not fit an `int`. `s + i` is the memory from
the offset `i` on.

The locale is any: `mbrtowc` may keep a conversion state and may decode as it
likes. `measure` are the columns of some bytes on their own, without the loop
over offsets and without an `int`; in a UTF-8 locale it is the width of the bytes.
-/
import Hstr.Columns
import Hstr.Lib.Checked
import Mathlib.Algebra.Group.Nat.Defs

set_option autoImplicit false

namespace Hstr.Elide

open Lib.Checked Lib.Utf8 Hstr.Strings Hstr.Utils

/-- `LC_CTYPE` of a locale with conversion states of type `σ`. -/
structure Locale (σ : Type) where
  initial : σ
  mbrtowc : σ → List Byte → MbResult × σ
  wcwidth : ℕ → ℤ

/-- A locale that needs no conversion state. -/
def stateless (locale : LcCtype) : Locale Unit where
  initial := ()
  mbrtowc := fun _ bs => (locale.mbrtowc bs, ())
  wcwidth := locale.wcwidth

variable {σ : Type} (locale : Locale σ)

/-- `mbrtowc` consumes some of the bytes it is offered, and no others. -/
def Consumes : Prop :=
  ∀ state bs wc length state', locale.mbrtowc state bs = (.char wc length, state') →
    1 ≤ length ∧ length ≤ bs.length

def INT_MAX : ℕ := 2 ^ 31 - 1

/-- The bytes of `"..."`. -/
def dots : List Byte := [46, 46, 46]

/-! ## The functions -/

/-- `strlen` of the string at the beginning of the memory. -/
def strlen_at (s : List Byte) : Except Fault ℕ :=
  match s.findIdx? (fun c => c == 0) with
  | some n => .ok n
  | none => .error .outOfBounds

/-- One round of `hstr_strnwidth`, on `width`, `i` and `state`. -/
def strnwidthTurn (s : List Byte) (n : ℕ) (v : ℤ × ℕ × σ) :
    Except Fault (Turn ℤ (ℤ × ℕ × σ)) :=
  match v with
  | (width, i, state) =>
      if i < n then do
        let c ← load s i
        if c = 0 then return .leave width
        else do
          let left ← sub n i
          let offered ← loadRange s i left
          match locale.mbrtowc state offered with
          | (.incomplete, _) => return .leave width
          | (.nul, _) => return .leave width
          | (.invalid, _) => do
              let width ← add INT_MAX width 1
              return .again (width, i + 1, locale.initial)
          | (.char wc length, state) => do
              let charWidth := locale.wcwidth wc
              let width ← add INT_MAX width (if charWidth < 0 then 1 else charWidth)
              return .again (width, i + length, state)
      else return .leave width

/-- A round of `hstr_strnwidth` in front of a byte that is not the terminator. -/
theorem strnwidthTurn_cons (front : List Byte) {c : Byte} (hc : c ≠ 0) (rest tail : List Byte)
    (width : ℤ) (state : σ) :
    strnwidthTurn locale (front ++ c :: rest ++ tail) (front ++ c :: rest).length
        (width, front.length, state) = match locale.mbrtowc state (c :: rest) with
      | (.incomplete, _) => .ok (.leave width)
      | (.nul, _) => .ok (.leave width)
      | (.invalid, _) => do
          let width ← add INT_MAX width 1
          return .again (width, front.length + 1, locale.initial)
      | (.char wc length, state) => do
          let width ← add INT_MAX width (if locale.wcwidth wc < 0 then 1 else locale.wcwidth wc)
          return .again (width, front.length + length, state) := by
  have hload : load (front ++ c :: rest ++ tail) front.length = .ok c := by
    rw [List.append_assoc, List.cons_append]
    exact load_append_cons _ _ _
  have hsub : sub (front ++ c :: rest).length front.length = .ok (c :: rest).length := by
    rw [sub_eq (by rw [List.length_append]; omega), List.length_append, Nat.add_sub_cancel_left]
  have hrange : loadRange (front ++ c :: rest ++ tail) front.length (c :: rest).length
      = .ok (c :: rest) := loadRange_append _ _ _
  simp only [strnwidthTurn]
  rw [if_pos (by rw [List.length_append, List.length_cons]; omega), hload, Lib.Results.ok_bind,
    if_neg hc, hsub, Lib.Results.ok_bind, hrange, Lib.Results.ok_bind]
  rfl

def hstr_strnwidth (s : List Byte) (n : ℕ) : Except Fault ℤ :=
  loop (strnwidthTurn locale s n) (n + 1) (0, 0, locale.initial)

def hstr_strwidth (s : List Byte) : Except Fault ℤ := do
  let length ← strlen_at s
  hstr_strnwidth locale s length

def nextCharTurn (s : List Byte) (start length next : ℕ) : Except Fault (Turn ℕ ℕ) :=
  if next < length then do
    let taken ← sub next start
    if taken < UTF8_MAX_BYTES then do
      let c ← load s next
      if IS_UTF8_CONTINUATION c then return .again (next + 1) else return .leave next
    else return .leave next
  else return .leave next

def next_char_offset (s : List Byte) (start length : ℕ) : Except Fault ℕ :=
  loop (nextCharTurn s start length) (UTF8_MAX_BYTES + 1) (start + 1)

/-- One round of `prefix_fitting`, on `end` and `width`. -/
def prefixTurn (s : List Byte) (maxWidth : ℤ) (maxBytes length : ℕ) (v : ℕ × ℤ) :
    Except Fault (Turn ℕ (ℕ × ℤ)) :=
  match v with
  | (stop, width) =>
      if stop < length then do
        let next ← next_char_offset s stop length
        let n ← sub next stop
        let charWidth ← hstr_strnwidth locale (s.drop stop) n
        let width ← add INT_MAX width charWidth
        if width > maxWidth ∨ next > maxBytes then return .leave stop
        else return .again (next, width)
      else return .leave stop

def prefix_fitting (s : List Byte) (maxWidth : ℤ) (maxBytes : ℕ) : Except Fault ℕ := do
  let length ← strlen_at s
  loop (prefixTurn locale s maxWidth maxBytes length) (length + 1) (0, 0)

/-- One round of the loop of `suffix_fitting` that looks for the start of a
character. -/
def charStartTurn (s : List Byte) (start charStart : ℕ) : Except Fault (Turn ℕ ℕ) :=
  if charStart > 0 then do
    let taken ← sub start charStart
    if taken < UTF8_MAX_BYTES then do
      let c ← load s charStart
      if IS_UTF8_CONTINUATION c then do
        let charStart ← sub charStart 1
        return .again charStart
      else return .leave charStart
    else return .leave charStart
  else return .leave charStart

/-- One round of the outer loop of `suffix_fitting`, on `start` and `width`. -/
def suffixTurn (s : List Byte) (maxWidth : ℤ) (maxBytes length : ℕ) (v : ℕ × ℤ) :
    Except Fault (Turn ℕ (ℕ × ℤ)) :=
  match v with
  | (start, width) =>
      if start > 0 then do
        let last ← sub start 1
        let charStart ← loop (charStartTurn s start) (UTF8_MAX_BYTES + 1) last
        let n ← sub start charStart
        let charWidth ← hstr_strnwidth locale (s.drop charStart) n
        let width ← add INT_MAX width charWidth
        if width > maxWidth then return .leave start
        else do
          let taken ← sub length charStart
          if taken > maxBytes then return .leave start
          else return .again (charStart, width)
      else return .leave start

/-- One round of the loop of `suffix_fitting` that drops zero width
characters. -/
def zeroWidthTurn (s : List Byte) (length start : ℕ) : Except Fault (Turn ℕ ℕ) :=
  if start < length then do
    let next ← next_char_offset s start length
    let n ← sub next start
    let charWidth ← hstr_strnwidth locale (s.drop start) n
    if charWidth ≠ 0 then return .leave start else return .again next
  else return .leave start

def suffix_fitting (s : List Byte) (maxWidth : ℤ) (maxBytes : ℕ) : Except Fault ℕ := do
  let length ← strlen_at s
  let start ← loop (suffixTurn locale s maxWidth maxBytes length) (length + 1) (length, 0)
  let start ← loop (zeroWidthTurn locale s length) (length + 1) start
  sub length start

/-- `maxColumns` of `hstr_strelide`. -/
def maxColumns (maxWidth : ℕ) : ℤ := if maxWidth > INT_MAX then INT_MAX else maxWidth

/-- What `hstr_strelide` leaves: the buffer, and what it has put into it. -/
structure Elided where
  buffer : List Byte
  prefixLength : ℕ
  suffixLength : ℕ
  elide : Bool

/-- `hstr_strelide`; `bufferSize` is the length of the buffer. -/
def hstr_strelide (buffer s : List Byte) (maxWidth : ℕ) : Except Fault Elided :=
  if buffer.length = 0 then return ⟨buffer, 0, 0, false⟩
  else do
    let buffer ← store buffer 0 0
    let maxBytes ← sub buffer.length 1
    let maxColumns := maxColumns maxWidth
    let sWidth ← hstr_strwidth locale s
    if sWidth > maxColumns ∧ maxColumns > dots.length ∧ maxBytes ≥ dots.length then do
      let room ← sub maxBytes dots.length
      let prefixLength ← prefix_fitting locale s (maxColumns / 2 - 1) room
      let prefixWidth ← hstr_strnwidth locale s prefixLength
      let room ← sub room prefixLength
      -- between two counts, so it does not overflow
      let suffixLength ← suffix_fitting locale s (maxColumns - prefixWidth - dots.length) room
      let front ← loadRange s 0 prefixLength
      let buffer ← storeRange buffer 0 front
      let buffer ← storeRange buffer prefixLength dots
      let length ← strlen_at s
      let start ← sub length suffixLength
      let back ← loadRange s start suffixLength
      let buffer ← storeRange buffer (prefixLength + dots.length) back
      let buffer ← store buffer (prefixLength + dots.length + suffixLength) 0
      return ⟨buffer, prefixLength, suffixLength, true⟩
    else do
      -- fits or no space for "..." - the longest fitting prefix
      let prefixLength ← prefix_fitting locale s maxColumns maxBytes
      let front ← loadRange s 0 prefixLength
      let buffer ← storeRange buffer 0 front
      let buffer ← store buffer prefixLength 0
      return ⟨buffer, prefixLength, 0, false⟩

/-! ## The columns of a piece on its own -/

/-- The loop of `hstr_strnwidth` on the bytes that are left. -/
def measureFrom : ℕ → σ → List Byte → ℤ
  | _, _, [] => 0
  | 0, _, _ => 0
  | fuel + 1, state, c :: rest =>
      match locale.mbrtowc state (c :: rest) with
      | (.incomplete, _) => 0
      | (.nul, _) => 0
      | (.invalid, _) => 1 + measureFrom fuel locale.initial rest
      | (.char wc length, state) =>
          let charWidth := locale.wcwidth wc
          (if charWidth < 0 then 1 else charWidth)
            + measureFrom fuel state ((c :: rest).drop length)

/-- The columns of some bytes, measured from the initial state. -/
def measure (bs : List Byte) : ℤ := measureFrom locale bs.length locale.initial bs

theorem measureFrom_nonneg (fuel : ℕ) : ∀ (state : σ) (bs : List Byte),
    0 ≤ measureFrom locale fuel state bs := by
  induction fuel with
  | zero =>
      intro state bs
      cases bs <;> exact Int.le_refl 0
  | succ fuel ih =>
      intro state bs
      cases bs with
      | nil => exact Int.le_refl 0
      | cons c rest =>
          rw [measureFrom]
          split
          · exact Int.le_refl 0
          · exact Int.le_refl 0
          · have hrest := ih locale.initial rest
            omega
          · next wc length state' _ =>
              have hrest := ih state' ((c :: rest).drop length)
              dsimp only
              split <;> omega

theorem measure_nonneg (bs : List Byte) : 0 ≤ measure locale bs := measureFrom_nonneg locale _ _ _

/-- Without a conversion state this is `Utils.hstr_strnwidth`. -/
theorem measureFrom_stateless (locale : LcCtype) (fuel : ℕ) : ∀ bs : List Byte,
    measureFrom (stateless locale) fuel () bs = strnwidthLoop locale fuel bs := by
  induction fuel with
  | zero =>
      intro bs
      cases bs <;> rfl
  | succ fuel ih =>
      intro bs
      cases bs with
      | nil => rfl
      | cons c rest =>
          rw [measureFrom, strnwidthLoop]
          simp only [stateless]
          cases locale.mbrtowc (c :: rest) with
          | incomplete => rfl
          | nul => rfl
          | invalid =>
              dsimp only
              rw [← ih]
              rfl
          | char wc length =>
              dsimp only
              rw [← ih]
              rfl

/-- In a UTF-8 locale it is the width of the bytes. -/
theorem measure_utf8 (wcwidth : ℕ → ℤ) {bs : List Byte} (h0 : (0 : Byte) ∉ bs) :
    measure (stateless (Columns.utf8 wcwidth)) bs = width (Columns.charWidth wcwidth) bs := by
  rw [measure, measureFrom_stateless,
    Columns.strnwidthLoop_utf8 wcwidth _ bs h0 (Nat.le_refl _)]

/-- A UTF-8 locale consumes the bytes of a character. -/
theorem consumes_utf8 (wcwidth : ℕ → ℤ) : Consumes (stateless (Columns.utf8 wcwidth)) := by
  intro state bs wc length state' h
  obtain ⟨hresult, -⟩ := Prod.mk.inj h
  have hchar : Columns.mbrtowc bs = .char wc length := hresult
  rw [Columns.mbrtowc] at hchar
  cases hread : read bs with
  | character c =>
      rw [hread] at hchar
      dsimp only at hchar
      split at hchar
      · cases hchar
      · cases hchar
        rw [← length_encode]
        exact ⟨encode_length_pos c, (read_eq_character_iff.mp hread).length_le⟩
  | truncated =>
      rw [hread] at hchar
      cases hchar
  | invalid =>
      rw [hread] at hchar
      cases hchar

end Hstr.Elide
