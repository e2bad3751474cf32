/-
Text files as lists of lines: splitting at a terminator and printing back.

A text is a list over any alphabet, a line ends at the terminator `nl`. The
split is `List.splitOn`: its last piece is the text after the last terminator,
the **open** line, which is empty when the text ends in a terminator, and the
pieces before it are the **complete** lines. `unlines` prints complete lines.
The round trip `completeLines_unlines` is what a program that rewrites its file
from the lines it loaded rests on.
-/
import Mathlib.Data.List.Basic

set_option autoImplicit false

namespace Lib.Lines

variable {α : Type*} [DecidableEq α] (nl : α)

/-- The lines of a text that end in the terminator, without it. -/
def completeLines (text : List α) : List (List α) := (text.splitOn nl).dropLast

/-- What follows the last terminator of a text. -/
def openLine (text : List α) : List α :=
  (text.splitOn nl).getLast (List.splitOn_ne_nil nl text)

/-- All lines of a text: the complete ones, and the open one unless it is
empty. -/
def lines (text : List α) : List (List α) :=
  completeLines nl text ++ if openLine nl text = [] then [] else [openLine nl text]

omit [DecidableEq α] in
/-- Print lines, each with its terminator. -/
def unlines (ls : List (List α)) : List α := ls.flatMap (fun l => l ++ [nl])

omit [DecidableEq α] in
@[simp] theorem unlines_nil : unlines nl [] = [] := rfl

omit [DecidableEq α] in
@[simp] theorem unlines_cons (l : List α) (ls : List (List α)) :
    unlines nl (l :: ls) = l ++ nl :: unlines nl ls := by
  simp only [unlines, List.flatMap_cons, List.append_assoc, List.singleton_append]

/-- Splitting printed lines and an open line gives them back. -/
theorem splitOn_unlines_append {ls : List (List α)} {last : List α}
    (hls : ∀ l ∈ ls, nl ∉ l) (hlast : nl ∉ last) :
    (unlines nl ls ++ last).splitOn nl = ls ++ [last] := by
  induction ls with
  | nil => simpa using List.splitOn_eq_singleton hlast
  | cons l ls ih =>
      have hl : nl ∉ l := hls l List.mem_cons_self
      have hrest : ∀ m ∈ ls, nl ∉ m := fun m hm => hls m (List.mem_cons_of_mem l hm)
      rw [unlines_cons, List.append_assoc, List.cons_append,
        List.splitOn_append_cons_self_of_not_mem hl, ih hrest, List.cons_append]

/-- Every text is its complete lines printed, then its open line, and none of
these holds a terminator. -/
theorem exists_unlines_append (text : List α) :
    ∃ ls last, text = unlines nl ls ++ last ∧ (∀ l ∈ ls, nl ∉ l) ∧ nl ∉ last := by
  induction text with
  | nil => exact ⟨[], [], by simp⟩
  | cons c text ih =>
      obtain ⟨ls, last, rfl, hls, hlast⟩ := ih
      by_cases hc : c = nl
      · subst hc
        refine ⟨[] :: ls, last, by simp, ?_, hlast⟩
        intro l hl
        rcases List.mem_cons.mp hl with rfl | hl
        · exact List.not_mem_nil
        · exact hls l hl
      · have hne : nl ≠ c := fun h => hc h.symm
        rcases ls with _ | ⟨l, ls⟩
        · exact ⟨[], c :: last, by simp, by simp, by simp [hne, hlast]⟩
        · refine ⟨(c :: l) :: ls, last, by simp, ?_, hlast⟩
          intro m hm
          rcases List.mem_cons.mp hm with rfl | hm
          · have hl : nl ∉ l := hls l List.mem_cons_self
            simp [hne, hl]
          · exact hls m (List.mem_cons_of_mem l hm)

omit [DecidableEq α] in
/-- What is on a printed line is in the text. -/
theorem mem_unlines_of_mem {ls : List (List α)} {l : List α} (hl : l ∈ ls) {c : α} (hc : c ∈ l) :
    c ∈ unlines nl ls :=
  List.mem_flatMap.mpr ⟨l, hl, List.mem_append_left _ hc⟩

/-- A piece of a text holds nothing but elements of the text. -/
theorem subset_of_mem_splitOn {text l : List α} (h : l ∈ text.splitOn nl) : l ⊆ text := by
  intro c hc
  obtain ⟨ls, last, rfl, hls, hlast⟩ := exists_unlines_append nl text
  rw [splitOn_unlines_append nl hls hlast, List.mem_append, List.mem_singleton] at h
  rcases h with h | rfl
  · exact List.mem_append_left _ (mem_unlines_of_mem nl h hc)
  · exact List.mem_append_right _ hc

/-- A piece of a text holds no terminator. -/
theorem not_mem_of_mem_splitOn {text l : List α} (h : l ∈ text.splitOn nl) : nl ∉ l := by
  obtain ⟨ls, last, rfl, hls, hlast⟩ := exists_unlines_append nl text
  rw [splitOn_unlines_append nl hls hlast, List.mem_append, List.mem_singleton] at h
  rcases h with h | rfl
  · exact hls l h
  · exact hlast

/-- The round trip: the complete lines of printed lines are these lines. -/
theorem completeLines_unlines {ls : List (List α)} (hls : ∀ l ∈ ls, nl ∉ l) :
    completeLines nl (unlines nl ls) = ls := by
  have h := splitOn_unlines_append nl hls (List.not_mem_nil (a := nl))
  rw [List.append_nil] at h
  rw [completeLines, h, List.dropLast_concat]

/-- Printed lines leave no open line. -/
theorem openLine_unlines {ls : List (List α)} (hls : ∀ l ∈ ls, nl ∉ l) :
    openLine nl (unlines nl ls) = [] := by
  have h := splitOn_unlines_append nl hls (List.not_mem_nil (a := nl))
  rw [List.append_nil] at h
  simp only [openLine, h, List.getLast_append_singleton]

/-- All lines of printed lines are these lines. -/
theorem lines_unlines {ls : List (List α)} (hls : ∀ l ∈ ls, nl ∉ l) :
    lines nl (unlines nl ls) = ls := by
  rw [lines, completeLines_unlines nl hls, openLine_unlines nl hls, if_pos rfl,
    List.append_nil]

/-- The pieces of a text, printed, are the text with one more terminator. -/
theorem unlines_splitOn (text : List α) : unlines nl (text.splitOn nl) = text ++ [nl] := by
  obtain ⟨ls, last, rfl, hls, hlast⟩ := exists_unlines_append nl text
  rw [splitOn_unlines_append nl hls hlast]
  simp [unlines]

/-- All lines of printed texts: a terminator inside a text splits it further. -/
theorem lines_unlines_flatMap (ls : List (List α)) :
    lines nl (unlines nl ls) = ls.flatMap (fun l => l.splitOn nl) := by
  have hpieces : unlines nl (ls.flatMap fun l => l.splitOn nl) = unlines nl ls := by
    rw [unlines, List.flatMap_assoc, unlines]
    exact List.flatMap_congr fun l _ => unlines_splitOn nl l
  rw [← hpieces, lines_unlines]
  intro piece hpiece
  obtain ⟨l, -, hl⟩ := List.mem_flatMap.mp hpiece
  exact not_mem_of_mem_splitOn nl hl

/-- A line without a terminator is a line of the text it is printed to. -/
theorem mem_lines_unlines {ls : List (List α)} {l : List α} (hl : l ∈ ls) (hnl : nl ∉ l) :
    l ∈ lines nl (unlines nl ls) := by
  rw [lines_unlines_flatMap]
  refine List.mem_flatMap.mpr ⟨l, hl, ?_⟩
  rw [List.splitOn_eq_singleton hnl]
  exact List.mem_singleton_self l

/-- A text is its complete lines printed, then its open line. -/
theorem unlines_completeLines_append (text : List α) :
    unlines nl (completeLines nl text) ++ openLine nl text = text := by
  obtain ⟨ls, last, rfl, hls, hlast⟩ := exists_unlines_append nl text
  have h := splitOn_unlines_append nl hls hlast
  simp only [completeLines, openLine, h, List.dropLast_concat, List.getLast_append_singleton]

/-- A complete line holds no terminator. -/
theorem not_mem_of_mem_completeLines {text l : List α} (h : l ∈ completeLines nl text) :
    nl ∉ l :=
  not_mem_of_mem_splitOn nl (List.dropLast_subset _ h)

/-- No line of a text holds a terminator. -/
theorem not_mem_of_mem_lines {text l : List α} (h : l ∈ lines nl text) : nl ∉ l := by
  rcases List.mem_append.mp h with h | h
  · exact not_mem_of_mem_completeLines nl h
  · have hopen : l = openLine nl text := by
      by_cases hnil : openLine nl text = []
      · simp [hnil] at h
      · simpa [hnil] using h
    rw [hopen]
    exact not_mem_of_mem_splitOn nl (List.getLast_mem _)

/-- The empty text is the only one without lines. -/
theorem lines_eq_nil_iff {text : List α} : lines nl text = [] ↔ text = [] := by
  constructor
  · intro h
    obtain ⟨hcomplete, hopen⟩ := List.append_eq_nil_iff.mp h
    have hnil : openLine nl text = [] := by
      by_contra hne
      rw [if_neg hne] at hopen
      cases hopen
    rw [← unlines_completeLines_append nl text, hcomplete, hnil]
    rfl
  · rintro rfl
    simp [lines, completeLines, openLine]

/-- Every element of a text but the terminators is in one of its lines. -/
theorem mem_lines_of_mem {text : List α} {c : α} (hc : c ∈ text) (hne : c ≠ nl) :
    ∃ l ∈ lines nl text, c ∈ l := by
  rw [← unlines_completeLines_append nl text, List.mem_append] at hc
  rcases hc with hc | hc
  · obtain ⟨l, hl, hcl⟩ := List.mem_flatMap.mp hc
    rw [List.mem_append, List.mem_singleton] at hcl
    exact ⟨l, List.mem_append_left _ hl, hcl.resolve_right hne⟩
  · have hopen : openLine nl text ≠ [] := List.ne_nil_of_mem hc
    exact ⟨openLine nl text, by simp [lines, hopen], hc⟩

/-- Splitting commutes with a map of the alphabet under which nothing else
becomes the terminator. -/
theorem splitOn_map {β : Type*} [DecidableEq β] (f : α → β) (hf : ∀ c, f c = f nl ↔ c = nl)
    (text : List α) : (text.map f).splitOn (f nl) = (text.splitOn nl).map (List.map f) := by
  induction text with
  | nil => simp
  | cons c text ih =>
      rw [List.map_cons, List.splitOn_cons_eq_if_modifyHead, List.splitOn_cons_eq_if_modifyHead, ih]
      by_cases hc : c = nl
      · subst hc
        simp
      · have hfc : f c ≠ f nl := fun h => hc ((hf c).mp h)
        rw [if_neg (by simpa using hfc), if_neg (by simpa using hc)]
        -- the character goes to the first piece, and there is one
        obtain ⟨l, ls, hls⟩ := List.exists_cons_of_ne_nil (List.splitOn_ne_nil nl text)
        rw [hls]
        rfl

end Lib.Lines
