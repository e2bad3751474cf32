/-
Cutting a string into characters by the class of its bytes.

`hstr_strelide` does not decode a string to find its characters. From the start,
a character is a byte and up to three continuations behind it; from the end, it
is a byte and up to three bytes before it, back over continuations. `pieces` and
`backPieces` are these two ways to cut. For UTF-8 text both are the characters.
For other bytes they need not be, and need not agree.
-/
import Hstr.Columns

set_option autoImplicit false

namespace Hstr.Pieces

open Lib.Utf8 Hstr.Strings Hstr.Utils

/-! ## From the start -/

/-- The continuations that belong to the byte in front. -/
def following (rest : List Byte) : List Byte :=
  (rest.take (UTF8_MAX_BYTES - 1)).takeWhile IsContinuation

theorem following_isPrefix (rest : List Byte) : following rest <+: rest :=
  (List.takeWhile_prefix _).trans (List.take_prefix _ _)

theorem following_continuations {rest : List Byte} {x : Byte} (hx : x ∈ following rest) :
    IsContinuation x = true := List.mem_takeWhile_imp hx

/-- The string cut from its start. -/
def pieces : List Byte → List (List Byte)
  | [] => []
  | b :: rest => (b :: following rest) :: pieces (rest.drop (following rest).length)
termination_by bs => bs.length
decreasing_by
  rw [List.length_drop, List.length_cons]
  omega

@[simp] theorem pieces_nil : pieces [] = [] := by rw [pieces]

theorem pieces_cons (b : Byte) (rest : List Byte) :
    pieces (b :: rest) = (b :: following rest) :: pieces (rest.drop (following rest).length) := by
  rw [pieces]

/-- **Induction over the pieces** of a string, by what is left of it. -/
theorem pieces_induction {P : List Byte → Prop} (nil : P [])
    (cons : ∀ b rest, P (rest.drop (following rest).length) → P (b :: rest)) (bs : List Byte) :
    P bs := by
  induction hn : bs.length using Nat.strong_induction_on generalizing bs with
  | _ n ih =>
      cases bs with
      | nil => exact nil
      | cons b rest =>
          apply cons
          apply ih _ _ _ rfl
          rw [← hn, List.length_cons, List.length_drop]
          omega

theorem following_append_drop (rest : List Byte) :
    following rest ++ rest.drop (following rest).length = rest := by
  conv_lhs => rw [List.prefix_iff_eq_take.mp (following_isPrefix rest)]
  rw [List.length_take_of_le (following_isPrefix rest).length_le, List.take_append_drop]

/-- The first piece behind some bytes, and what is left. -/
theorem exists_next_piece (front : List Byte) (b : Byte) (rest : List Byte) :
    ∃ piece left, piece = b :: following rest ∧ left <:+ rest
      ∧ front ++ piece ++ left = front ++ b :: rest ∧ pieces (b :: rest) = piece :: pieces left := by
  refine ⟨_, _, rfl, List.drop_suffix (following rest).length rest, ?_, pieces_cons b rest⟩
  rw [List.append_assoc, List.cons_append, following_append_drop]

/-- A piece ends at its fourth byte, at the end, or where no continuation is. -/
theorem following_ends (rest : List Byte) :
    (following rest).length = 3 ∨ rest.drop (following rest).length = []
      ∨ ∃ y r, rest.drop (following rest).length = y :: r ∧ IsContinuation y = false := by
  have key : ∀ (n : ℕ) (l : List Byte), ((l.take n).takeWhile IsContinuation).length = n
      ∨ l.drop ((l.take n).takeWhile IsContinuation).length = []
      ∨ ∃ y r, l.drop ((l.take n).takeWhile IsContinuation).length = y :: r
        ∧ IsContinuation y = false := by
    intro n
    induction n with
    | zero =>
        intro l
        exact Or.inl rfl
    | succ n ih =>
        intro l
        cases l with
        | nil => exact Or.inr (Or.inl rfl)
        | cons x l =>
            rw [List.take_succ_cons]
            by_cases hx : IsContinuation x = true
            · rw [List.takeWhile_cons_of_pos hx, List.length_cons, List.drop_succ_cons]
              rcases ih l with hlen | hrest
              · exact Or.inl (by rw [hlen])
              · exact Or.inr hrest
            · rw [List.takeWhile_cons_of_neg hx]
              exact Or.inr (Or.inr ⟨x, l, rfl, by simpa using hx⟩)
  exact key 3 rest

theorem flatten_pieces (bs : List Byte) : (pieces bs).flatten = bs := by
  induction bs using pieces_induction with
  | nil => rw [pieces_nil, List.flatten_nil]
  | cons b rest ih =>
      rw [pieces_cons, List.flatten_cons, ih, List.cons_append, following_append_drop]

/-- Continuations belong to the byte in front, four bytes at most. -/
theorem following_append {t rest : List Byte} (ht : ∀ x ∈ t, IsContinuation x = true)
    (hlen : t.length ≤ 3) (hrest : ∀ y r, rest = y :: r → IsContinuation y = false) :
    following (t ++ rest) = t := by
  rw [following, UTF8_MAX_BYTES, List.take_append, List.take_of_length_le hlen,
    List.takeWhile_append_of_pos ht]
  have hnil : (rest.take (4 - 1 - t.length)).takeWhile IsContinuation = [] := by
    cases rest with
    | nil => rw [List.take_nil, List.takeWhile_nil]
    | cons y r =>
        cases 4 - 1 - t.length with
        | zero => rfl
        | succ n =>
            rw [List.take_succ_cons, List.takeWhile_cons_of_neg]
            rw [hrest y r rfl]
            exact Bool.false_ne_true
  rw [hnil, List.append_nil]

/-- A text begins with no continuation. -/
theorem text_head (cs : List Char) {y : Byte} {r : List Byte} (h : text cs = y :: r) :
    IsContinuation y = false := by
  cases cs with
  | nil => cases h
  | cons c cs =>
      obtain ⟨b, t, henc, hb, -⟩ := encode_shape c
      rw [text_cons, henc, List.cons_append] at h
      rw [← (List.cons.inj h).1]
      exact hb

/-- **The pieces of a text are its characters.** -/
theorem pieces_text (cs : List Char) : pieces (text cs) = cs.map encode := by
  induction cs with
  | nil => rw [text_nil, pieces_nil, List.map_nil]
  | cons c cs ih =>
      obtain ⟨b, t, henc, -, ht, hlen, -⟩ := encode_shape c
      have hfollow : following (t ++ text cs) = t :=
        following_append ht hlen fun y r h => text_head cs h
      rw [text_cons, henc, List.cons_append, pieces_cons, hfollow, List.drop_left, ih,
        List.map_cons, henc]

/-! ## From the end

The bytes are given from the last one on. -/

/-- How far a character goes back. -/
def backLength (r : List Byte) : ℕ :=
  ((r.take (UTF8_MAX_BYTES - 1)).takeWhile IsContinuation).length + 1

/-- The string cut from its end, its last piece first. -/
def backPieces : List Byte → List (List Byte)
  | [] => []
  | b :: r => ((b :: r).take (backLength (b :: r))).reverse
      :: backPieces ((b :: r).drop (backLength (b :: r)))
termination_by r => r.length
decreasing_by
  rw [List.length_drop, List.length_cons, backLength]
  omega

@[simp] theorem backPieces_nil : backPieces [] = [] := by rw [backPieces]

theorem backPieces_of_ne_nil {r : List Byte} (h : r ≠ []) :
    backPieces r = (r.take (backLength r)).reverse :: backPieces (r.drop (backLength r)) := by
  obtain ⟨b, r, rfl⟩ := List.exists_cons_of_ne_nil h
  rw [backPieces]

/-- **Induction over the pieces from the end.** -/
theorem backPieces_induction {P : List Byte → Prop} (nil : P [])
    (cons : ∀ r, r ≠ [] → P (r.drop (backLength r)) → P r) (r : List Byte) : P r := by
  induction hn : r.length using Nat.strong_induction_on generalizing r with
  | _ n ih =>
      by_cases h : r = []
      · rw [h]
        exact nil
      · apply cons r h
        apply ih _ _ _ rfl
        have hpos := List.length_pos_of_ne_nil h
        rw [List.length_drop, backLength]
        omega

theorem flatten_backPieces (r : List Byte) : (backPieces r).reverse.flatten = r.reverse := by
  induction r using backPieces_induction with
  | nil => rw [backPieces_nil, List.reverse_nil, List.flatten_nil, List.reverse_nil]
  | cons r h ih =>
      rw [backPieces_of_ne_nil h, List.reverse_cons, List.flatten_append, ih, List.flatten_cons,
        List.flatten_nil, List.append_nil, ← List.reverse_append, List.take_append_drop]

/-- A piece from the end is a byte and up to three continuations. -/
theorem backPiece_shape {r : List Byte} (h : r ≠ []) :
    ∃ b t, (r.take (backLength r)).reverse = b :: t ∧ (∀ x ∈ t, IsContinuation x = true)
      ∧ t.length ≤ 3 := by
  have hne : (r.take (backLength r)).reverse ≠ [] := by
    rw [Ne, List.reverse_eq_nil_iff, List.take_eq_nil_iff, not_or]
    exact ⟨Nat.succ_ne_zero _, h⟩
  obtain ⟨b, t, hbt⟩ := List.exists_cons_of_ne_nil hne
  refine ⟨b, t, hbt, ?_, ?_⟩
  · -- `t` reversed is a beginning of the continuations
    have htake : t.reverse <+: (r.take (UTF8_MAX_BYTES - 1)).takeWhile IsContinuation := by
      have hrev : t.reverse ++ [b] = r.take (backLength r) := by
        rw [← List.reverse_cons, ← hbt, List.reverse_reverse]
      have hpre : t.reverse <+: r := (hrev ▸ List.prefix_append _ _ : t.reverse <+: _).trans
        (List.take_prefix _ _)
      have hlen := congrArg List.length hrev
      rw [List.length_append, List.length_singleton, List.length_take, backLength] at hlen
      have hwhile : (r.take (UTF8_MAX_BYTES - 1)).takeWhile IsContinuation <+: r :=
        (List.takeWhile_prefix _).trans (List.take_prefix _ _)
      exact List.prefix_of_prefix_length_le hpre hwhile (by omega)
    intro x hx
    exact List.mem_takeWhile_imp (htake.subset (List.mem_reverse.mpr hx))
  · have hlen := congrArg List.length hbt
    have hwhile := (List.takeWhile_prefix (l := r.take (UTF8_MAX_BYTES - 1)) IsContinuation).length_le
    rw [List.length_take, UTF8_MAX_BYTES] at hwhile
    rw [List.length_reverse, List.length_take, List.length_cons, backLength, UTF8_MAX_BYTES] at hlen
    omega

/-- **The pieces of a text from its end are its characters.** -/
theorem backPieces_text (cs : List Char) :
    backPieces (text cs).reverse = (cs.map encode).reverse := by
  induction cs using List.reverseRecOn with
  | nil => rw [text_nil, List.reverse_nil, backPieces_nil, List.map_nil, List.reverse_nil]
  | append_singleton cs c ih =>
      obtain ⟨b, t, henc, hb, ht, hlen, -⟩ := encode_shape c
      have hrev : (text (cs ++ [c])).reverse = t.reverse ++ b :: (text cs).reverse := by
        rw [text_append, text_cons, text_nil, List.append_nil, List.reverse_append, henc,
          List.reverse_cons, List.append_assoc, List.singleton_append]
      have hfollow : following (t.reverse ++ b :: (text cs).reverse) = t.reverse := by
        apply following_append
        · exact fun x hx => ht x (List.mem_reverse.mp hx)
        · rwa [List.length_reverse]
        · intro y r hyr
          rw [← (List.cons.inj hyr).1]
          exact hb
      have hback : backLength (t.reverse ++ b :: (text cs).reverse) = (encode c).reverse.length := by
        rw [backLength, ← following, hfollow, henc, List.length_reverse, List.length_reverse,
          List.length_cons]
      have hsplit : t.reverse ++ b :: (text cs).reverse = (encode c).reverse ++ (text cs).reverse := by
        rw [henc, List.reverse_cons, List.append_assoc, List.singleton_append]
      rw [hrev, backPieces_of_ne_nil (by simp), hback, hsplit, List.take_left, List.drop_left, ih,
        List.reverse_reverse, List.map_append, List.reverse_append, List.map_cons, List.map_nil,
        List.reverse_singleton, List.singleton_append]

end Hstr.Pieces
