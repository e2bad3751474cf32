/-
Searching a text, and the words of a text.

A search for a piece of a text walks along the text and looks at what is left of
it: `firstOccurrence` is the walk, and its lemmas say for which texts it ends at
once, and for which it finds anything. A word is a piece between separators that
holds none; `IsWord` says so without a walk, and `mem_words_iff` that cutting the
text at the separators gives exactly the words. `nextWord` is the step of a
tokenizer that keeps a position in the text, and `wordsFrom` its loop.
-/
import Hstr.Lib.Lines
import Mathlib.Data.List.Infix
import Mathlib.Data.List.TakeWhile

set_option autoImplicit false

namespace Lib.Search

open Lib.Lines

variable {α : Type*} [DecidableEq α]

/-! ## The first occurrence -/

/-- The offset of the first occurrence of a piece in a text. -/
def firstOccurrence (text piece : List α) : Option ℕ :=
  text.tails.findIdx? fun rest => piece.isPrefixOf rest

/-- The search ends where it starts for a beginning of the text. -/
theorem firstOccurrence_eq_zero_iff {text piece : List α} :
    firstOccurrence text piece = some 0 ↔ piece <+: text := by
  unfold firstOccurrence
  have htails : ∃ rest, text.tails = text :: rest := by
    cases text with
    | nil => exact ⟨[], rfl⟩
    | cons c text => exact ⟨text.tails, rfl⟩
  obtain ⟨rest, hrest⟩ := htails
  rw [hrest, List.findIdx?_cons]
  by_cases hp : piece <+: text
  · simp [List.isPrefixOf_iff_prefix.mpr hp, hp]
  · have hno : piece.isPrefixOf text = false := by
      rw [Bool.eq_false_iff, Ne, List.isPrefixOf_iff_prefix]
      exact hp
    simp [hno, hp]

/-- The search finds what is somewhere in the text. -/
theorem firstOccurrence_isSome_iff {text piece : List α} :
    (firstOccurrence text piece).isSome ↔ piece <:+: text := by
  unfold firstOccurrence
  rw [List.findIdx?_isSome, List.any_eq_true, List.infix_iff_prefix_suffix]
  simp only [List.mem_tails, List.isPrefixOf_iff_prefix, and_comm]

omit [DecidableEq α] in
/-- A piece without the separator lies on one side of it. -/
theorem infix_append_cons_iff {sep : α} {piece : List α} (hsep : sep ∉ piece) {a b : List α} :
    piece <:+: a ++ sep :: b ↔ piece <:+: a ∨ piece <:+: b := by
  constructor
  · rintro ⟨s, t, h⟩
    rcases List.append_eq_append_iff.mp h with ⟨u, rfl, -⟩ | ⟨u, hu, hb⟩
    · exact Or.inl ⟨s, u, rfl⟩
    · cases u with
      | nil =>
          rw [List.append_nil] at hu
          exact Or.inl ⟨s, [], by rw [List.append_nil, hu]⟩
      | cons c u =>
          obtain ⟨rfl, rfl⟩ := List.cons.inj hb
          -- the separator is in front of the piece, or it would be in it
          rcases List.append_eq_append_iff.mp hu with ⟨v, -, rfl⟩ | ⟨v, -, hv⟩
          · exact absurd (List.mem_append_right v List.mem_cons_self) hsep
          · cases v with
            | nil =>
                rw [List.nil_append] at hv
                exact absurd (hv ▸ List.mem_cons_self) hsep
            | cons c v =>
                obtain ⟨-, rfl⟩ := List.cons.inj hv
                exact Or.inr ⟨v, t, rfl⟩
  · rintro (h | h)
    · exact h.trans (List.prefix_append _ _).isInfix
    · exact h.trans ((List.suffix_cons _ _).trans (List.suffix_append _ _)).isInfix

/-! ## Words -/

/-- A word of a text: a piece that is not empty, holds no separator, and has one,
or an end of the text, on both sides. -/
def IsWord (sep : α) (text w : List α) : Prop :=
  w ≠ [] ∧ sep ∉ w ∧ ∃ before after, text = before ++ w ++ after
    ∧ (before = [] ∨ before.getLast? = some sep) ∧ (after = [] ∨ after.head? = some sep)

/-- The pieces between separators that are not empty. -/
def words (sep : α) (text : List α) : List (List α) :=
  (text.splitOn sep).filter fun w => decide (w.length ≠ 0)

/-- **The words split at a separator.** -/
theorem words_append_cons (sep : α) (text rest : List α) :
    words sep (text ++ sep :: rest) = words sep text ++ words sep rest := by
  rw [words, List.splitOn_append_cons_self, List.filter_append]
  rfl

theorem words_nil (sep : α) : words sep [] = [] := by
  simp [words]

/-- A separator at the front belongs to no word. -/
theorem words_cons_sep (sep : α) (rest : List α) : words sep (sep :: rest) = words sep rest := by
  have h := words_append_cons sep [] rest
  rwa [words_nil, List.nil_append, List.nil_append] at h

/-- A piece without separators is one word, if it is not empty. -/
theorem words_of_not_mem {sep : α} {w : List α} (hw : sep ∉ w) (hne : w ≠ []) :
    words sep w = [w] := by
  rw [words, List.splitOn_eq_singleton hw, List.filter_cons_of_pos]
  · rfl
  · simpa using hne

/-- What stands before a word adds words in front of it, if it ends in a
separator. -/
theorem words_before {sep : α} {before : List α}
    (h : before = [] ∨ before.getLast? = some sep) (rest : List α) :
    words sep (before ++ rest) = words sep before ++ words sep rest := by
  rcases h with rfl | h
  · rw [words_nil, List.nil_append, List.nil_append]
  · obtain ⟨front, rfl⟩ := List.getLast?_eq_some_iff.mp h
    have hfront := words_append_cons sep front []
    rw [words_nil, List.append_nil] at hfront
    rw [hfront, List.append_assoc, List.singleton_append, words_append_cons]

/-- What stands behind a word adds words behind it, if it starts with a
separator. -/
theorem words_after {sep : α} {after : List α} (h : after = [] ∨ after.head? = some sep)
    (text : List α) : words sep (text ++ after) = words sep text ++ words sep after := by
  rcases h with rfl | h
  · rw [words_nil, List.append_nil, List.append_nil]
  · obtain ⟨rest, rfl⟩ := List.head?_eq_some_iff.mp h
    rw [words_append_cons, words_cons_sep]

omit [DecidableEq α] in
/-- A piece of printed lines and an open line has terminators, or an end of the
text, on both sides. -/
theorem isWord_of_mem {sep : α} {ls : List (List α)} {last w : List α} (hw : w ∈ ls ++ [last])
    (hne : w ≠ []) (hsep : sep ∉ w) : IsWord sep (unlines sep ls ++ last) w := by
  refine ⟨hne, hsep, ?_⟩
  have hend : ∀ front : List (List α),
      unlines sep front = [] ∨ (unlines sep front).getLast? = some sep := by
    intro front
    rcases List.eq_nil_or_concat' front with rfl | ⟨front, l, rfl⟩
    · exact Or.inl rfl
    · refine Or.inr ?_
      simp [unlines]
  rcases List.mem_append.mp hw with hw | hw
  · obtain ⟨front, back, rfl⟩ := List.append_of_mem hw
    refine ⟨unlines sep front, sep :: (unlines sep back ++ last), ?_, hend front, Or.inr rfl⟩
    simp [unlines]
  · obtain rfl := List.mem_singleton.mp hw
    exact ⟨unlines sep ls, [], by simp, hend ls, Or.inl rfl⟩

/-- **Cutting at the separators gives the words**, and nothing else. -/
theorem mem_words_iff {sep : α} {text w : List α} : w ∈ words sep text ↔ IsWord sep text w := by
  constructor
  · intro hw
    obtain ⟨hpiece, hne⟩ := List.mem_filter.mp hw
    have hsep := not_mem_of_mem_splitOn sep hpiece
    obtain ⟨ls, last, rfl, hls, hlast⟩ := exists_unlines_append sep text
    rw [splitOn_unlines_append sep hls hlast] at hpiece
    exact isWord_of_mem hpiece (by simpa using hne) hsep
  · rintro ⟨hne, hsep, before, after, rfl, hbefore, hafter⟩
    rw [words_after hafter, words_before hbefore, words_of_not_mem hsep hne]
    simp

/-- **A word goes on in a longer text**: it is the beginning of a word of it. -/
theorem IsWord.of_prefix {sep : α} {text text' w : List α} (hw : IsWord sep text w)
    (hlonger : text <+: text') : ∃ w', IsWord sep text' w' ∧ w <+: w' := by
  obtain ⟨hne, hsep, before, after, rfl, hbefore, hafter⟩ := hw
  obtain ⟨rest, rfl⟩ := hlonger
  rcases hafter with rfl | hafter
  · -- the word ends with the text, and takes in what follows up to a separator
    refine ⟨w ++ rest.takeWhile fun c => decide (c ≠ sep), ⟨?_, ?_, before,
      rest.dropWhile fun c => decide (c ≠ sep), ?_, hbefore, ?_⟩, List.prefix_append _ _⟩
    · simp [hne]
    · intro hmem
      rcases List.mem_append.mp hmem with hmem | hmem
      · exact hsep hmem
      · have hno := List.mem_takeWhile_imp hmem
        simp at hno
    · simp only [List.append_assoc, List.nil_append, List.takeWhile_append_dropWhile]
    · have hhead := List.head?_dropWhile_not (fun c => decide (c ≠ sep)) rest
      cases hrest : rest.dropWhile fun c => decide (c ≠ sep) with
      | nil => exact Or.inl rfl
      | cons c rest =>
          rw [hrest] at hhead
          have hc : c = sep := by simpa using hhead
          exact Or.inr (congrArg some hc)
  · refine ⟨w, ⟨hne, hsep, before, after ++ rest, by rw [List.append_assoc _ after], hbefore, ?_⟩,
      List.prefix_rfl⟩
    obtain ⟨tail, rfl⟩ := List.head?_eq_some_iff.mp hafter
    exact Or.inr rfl

/-! ## A tokenizer -/

/-- The next word from a position on, and what is left behind the separator that
ends it. -/
def nextWord (sep : α) (text : List α) : Option (List α × List α) :=
  let text := text.dropWhile fun c => decide (c = sep)
  if text = [] then none
  else some (text.takeWhile fun c => decide (c ≠ sep),
    (text.dropWhile fun c => decide (c ≠ sep)).drop 1)

/-- The word, and what is left, are pieces of the text. -/
theorem nextWord_infix {sep : α} {text w rest : List α} (h : nextWord sep text = some (w, rest)) :
    w <:+: text ∧ rest <:+: text := by
  simp only [nextWord] at h
  split at h
  · cases h
  · obtain ⟨rfl, rfl⟩ := Prod.mk.inj (Option.some.inj h)
    have hleft := List.dropWhile_suffix (l := text) fun c => decide (c = sep)
    generalize (text.dropWhile fun c => decide (c = sep)) = left at hleft ⊢
    refine ⟨(List.takeWhile_prefix _).isInfix.trans hleft.isInfix, ?_⟩
    exact ((List.drop_suffix _ _).trans (List.dropWhile_suffix _)).isInfix.trans hleft.isInfix

theorem words_dropWhile (sep : α) (text : List α) :
    words sep (text.dropWhile fun c => decide (c = sep)) = words sep text := by
  induction text with
  | nil => rfl
  | cons c text ih =>
      by_cases hc : c = sep
      · subst hc
        rw [List.dropWhile_cons_of_pos (by simp), ih, words_cons_sep]
      · rw [List.dropWhile_cons_of_neg (by simpa using hc)]

/-- Where the tokenizer stops, there are no more words. -/
theorem words_of_nextWord_none {sep : α} {text : List α} (h : nextWord sep text = none) :
    words sep text = [] := by
  simp only [nextWord] at h
  split at h
  · next hnil => rw [← words_dropWhile, hnil, words_nil]
  · cases h

/-- **The tokenizer gives the first word**, and leaves the others. -/
theorem words_of_nextWord_some {sep : α} {text w rest : List α}
    (h : nextWord sep text = some (w, rest)) :
    words sep text = w :: words sep rest ∧ rest.length < text.length := by
  simp only [nextWord] at h
  split at h
  · cases h
  · next hne =>
      obtain ⟨rfl, rfl⟩ := Prod.mk.inj (Option.some.inj h)
      have hlen := (List.dropWhile_suffix (l := text) fun c => decide (c = sep)).length_le
      rw [← words_dropWhile sep text]
      have hhead : ∀ c, (text.dropWhile fun c => decide (c = sep)).head? = some c → c ≠ sep := by
        intro c hc
        have hnot := List.head?_dropWhile_not (fun c => decide (c = sep)) text
        rw [hc] at hnot
        simpa using hnot
      generalize (text.dropWhile fun c => decide (c = sep)) = left at hne hlen hhead ⊢
      obtain ⟨c, left, rfl⟩ := List.exists_cons_of_ne_nil hne
      have hc : c ≠ sep := hhead c rfl
      rw [List.takeWhile_cons_of_pos (by simpa using hc),
        List.dropWhile_cons_of_pos (by simpa using hc)]
      have hcut := List.takeWhile_append_dropWhile (p := fun c => decide (c ≠ sep)) (l := left)
      have hfree : sep ∉ c :: left.takeWhile fun c => decide (c ≠ sep) := by
        intro hmem
        rcases List.mem_cons.mp hmem with rfl | hmem
        · exact hc rfl
        · have hno := List.mem_takeWhile_imp hmem
          simp at hno
      have hword := words_of_not_mem hfree (List.cons_ne_nil _ _)
      have hnot := List.head?_dropWhile_not (fun c => decide (c ≠ sep)) left
      -- the word ends at the end of the text, or at a separator
      cases hrest : left.dropWhile fun c => decide (c ≠ sep) with
      | nil =>
          rw [hrest, List.append_nil] at hcut
          rw [hcut] at hword
          refine ⟨?_, ?_⟩
          · rw [hcut, hword]
            rfl
          · simp only [List.drop_nil, List.length_nil, List.length_cons] at hlen ⊢
            omega
      | cons d rest =>
          rw [hrest] at hcut hnot
          have hd : d = sep := by simpa using hnot
          subst hd
          refine ⟨?_, ?_⟩
          · conv_lhs => rw [← hcut]
            rw [← List.cons_append, words_append_cons, hword]
            rfl
          · have hcount := congrArg List.length hcut
            simp only [List.length_append, List.length_cons, List.drop_one, List.tail_cons] at hlen hcount ⊢
            omega

end Lib.Search
