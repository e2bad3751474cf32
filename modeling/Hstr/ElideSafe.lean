/-
What `hstr_strelide` writes, and that it does no harm.

It writes a beginning that fits, or a beginning, dots and an end; which of the
two, and which pieces they have, is said here for any locale. All offsets are
lengths of parts of the string, so the safety of the function is read off.
`Narrow` collects the counts that have to fit an `int`.
-/
import Hstr.ElideLoops

set_option autoImplicit false

namespace Hstr.Elide

open Lib.Checked Lib.Fitting Lib.Utf8 Hstr.Strings Hstr.Utils Hstr.Pieces

variable {σ : Type} (locale : Locale σ)

/-- The middle of the string is replaced. -/
def Elides (bufferSize maxWidth : ℕ) (bs : List Byte) : Prop :=
  measure locale bs > maxColumns maxWidth ∧ maxColumns maxWidth > dots.length
    ∧ bufferSize - 1 ≥ dots.length

instance (bufferSize maxWidth : ℕ) (bs : List Byte) :
    Decidable (Elides locale bufferSize maxWidth bs) :=
  inferInstanceAs (Decidable (_ ∧ _ ∧ _))

/-- No count of columns is too large for an `int`, in whatever way the string is
measured: a beginning of it, its pieces from the start, its pieces from the end,
and a piece of the end that fits. -/
structure Narrow (bs : List Byte) : Prop where
  front : ∀ p, p <+: bs → measure locale p ≤ INT_MAX
  fromStart : measureAll locale (pieces bs) ≤ INT_MAX
  fromEnd : measureAll locale (backPieces bs.reverse) ≤ INT_MAX
  piece : ∀ maxWidth maxBytes, ∀ p ∈ pieces (fittingSuffix locale maxWidth maxBytes bs),
    measure locale p ≤ INT_MAX

/-- What is in front of the dots. -/
def elidedPrefix (bufferSize maxWidth : ℕ) (bs : List Byte) : List Byte :=
  fittingPrefix locale (maxColumns maxWidth / 2 - 1) (bufferSize - 1 - dots.length) bs

/-- What is behind the dots. -/
def elidedSuffix (bufferSize maxWidth : ℕ) (bs : List Byte) : List Byte :=
  trimZeroWidth locale (fittingSuffix locale
    (maxColumns maxWidth - measure locale (elidedPrefix locale bufferSize maxWidth bs) - dots.length)
    (bufferSize - 1 - dots.length - (elidedPrefix locale bufferSize maxWidth bs).length) bs)

variable {locale}

/-! ## Strings that are not too wide -/

theorem hstr_strwidth_yields (hlocale : Consumes locale) {bs : List Byte} (h0 : (0 : Byte) ∉ bs)
    (rest : List Byte) :
    Yields (hstr_strwidth locale (bs ++ 0 :: rest)) (measure locale bs)
      (INT_MAX < measure locale bs) := by
  rw [hstr_strwidth, strlen_at_eq h0, Lib.Results.ok_bind]
  exact hstr_strnwidth_yields hlocale h0 _

/-- What `Utils` counts in an unbounded number. -/
theorem hstr_strwidth_yields_stateless {locale : LcCtype} (hlocale : Consumes (stateless locale))
    (s : CString) :
    Yields (hstr_strwidth (stateless locale) (s.bytes ++ [0])) (Utils.hstr_strwidth locale s)
      (INT_MAX < Utils.hstr_strwidth locale s) := by
  have hmeasure : measure (stateless locale) s.bytes = Utils.hstr_strwidth locale s := by
    rw [Utils.hstr_strwidth, Utils.hstr_strnwidth, strlen, List.take_length, measure]
    exact measureFrom_stateless locale _ _
  rw [← hmeasure]
  exact hstr_strwidth_yields hlocale s.nonul []

/-- The string is not too wide as a whole. -/
theorem Narrow.whole {bs : List Byte} (h : Narrow locale bs) : ¬ INT_MAX < measure locale bs := by
  have hle := h.front bs List.prefix_rfl
  omega

/-! ## What is written -/

/-- The string in the buffer ends where the terminator is written. -/
theorem bytes_ofBuffer {w : List Byte} (h0 : (0 : Byte) ∉ w) (rest : List Byte) :
    (ofBuffer (w ++ 0 :: rest)).bytes = w := by
  rw [ofBuffer_append_nul, ofBuffer_bytes h0]

/-- **Without dots**: the longest beginning that fits. -/
theorem hstr_strelide_fitting (hlocale : Consumes locale) {buffer bs : List Byte} {maxWidth : ℕ}
    (h0 : (0 : Byte) ∉ bs) (hbuffer : 0 < buffer.length)
    (helide : ¬ Elides locale buffer.length maxWidth bs) :
    ∃ p rest, p = fittingPrefix locale (maxColumns maxWidth) (buffer.length - 1) bs
      ∧ Yields (hstr_strelide locale buffer (bs ++ [0]) maxWidth)
        ⟨p ++ 0 :: rest, p.length, 0, false⟩ (¬ Narrow locale bs)
      ∧ (p ++ 0 :: rest).length = buffer.length := by
  obtain ⟨p, hp⟩ : ∃ p, p = fittingPrefix locale (maxColumns maxWidth) (buffer.length - 1) bs :=
    ⟨_, rfl⟩
  have hple : p.length ≤ buffer.length - 1 := hp ▸ fittingPrefix_length_le locale _ _ _
  obtain ⟨r, hr⟩ : p <+: bs := hp ▸ fittingPrefix_isPrefix locale _ _ _
  obtain ⟨mem, hmem⟩ : ∃ mem, mem = buffer.set 0 0 := ⟨_, rfl⟩
  have hmemlen : mem.length = buffer.length := by rw [hmem, List.length_set]
  have hwhole : INT_MAX < measure locale bs → ¬ Narrow locale bs := fun hlarge hnarrow =>
    hnarrow.whole hlarge
  have hfits : Yields (prefix_fitting locale (bs ++ [0]) (maxColumns maxWidth) (buffer.length - 1))
      p.length (¬ Narrow locale bs) := by
    rw [hp]
    refine (prefix_fitting_yields hlocale _ _ h0).mono fun hlarge hnarrow => ?_
    have hle := hnarrow.fromStart
    omega
  have hfront : loadRange (bs ++ [0]) 0 p.length = .ok p := by
    rw [← hr, List.append_assoc]
    exact loadRange_append [] p _
  have hcopy : storeRange mem 0 p = .ok (p ++ mem.drop p.length) :=
    storeRange_append (by omega) []
  have hterminate : store (p ++ mem.drop p.length) p.length 0
      = .ok (p ++ 0 :: mem.drop (p.length + 1)) := by
    rw [store_append (by rw [List.length_drop]; omega), List.drop_drop]
  have hcond : ¬ (measure locale bs > maxColumns maxWidth ∧ maxColumns maxWidth > dots.length
      ∧ buffer.length - 1 ≥ dots.length) := helide
  have hone : 1 ≤ buffer.length := hbuffer
  refine ⟨p, mem.drop (p.length + 1), hp, ?_, ?_⟩
  · rw [hstr_strelide, if_neg (by omega), store_eq_set hbuffer, ← hmem, Lib.Results.ok_bind, hmemlen,
      sub_eq hone, Lib.Results.ok_bind]
    refine Yields.bind ((hstr_strwidth_yields hlocale h0 []).mono hwhole) ?_
    rw [if_neg hcond]
    refine Yields.bind hfits ?_
    rw [hfront, Lib.Results.ok_bind, hcopy, Lib.Results.ok_bind, hterminate]
    exact Or.inl rfl
  · rw [List.length_append, List.length_cons, List.length_drop]
    omega

/-- **With dots**: a beginning and an end that fit. -/
theorem hstr_strelide_elided (hlocale : Consumes locale) {buffer bs : List Byte} {maxWidth : ℕ}
    (h0 : (0 : Byte) ∉ bs) (helide : Elides locale buffer.length maxWidth bs) :
    ∃ p q rest, p = elidedPrefix locale buffer.length maxWidth bs
      ∧ q = elidedSuffix locale buffer.length maxWidth bs
      ∧ Yields (hstr_strelide locale buffer (bs ++ [0]) maxWidth)
        ⟨p ++ dots ++ q ++ 0 :: rest, p.length, q.length, true⟩ (¬ Narrow locale bs)
      ∧ (p ++ dots ++ q ++ 0 :: rest).length = buffer.length := by
  obtain ⟨p, hp⟩ : ∃ p, p = elidedPrefix locale buffer.length maxWidth bs := ⟨_, rfl⟩
  obtain ⟨q, hq⟩ : ∃ q, q = elidedSuffix locale buffer.length maxWidth bs := ⟨_, rfl⟩
  have hroom : dots.length ≤ buffer.length - 1 := helide.2.2
  have hdots : dots.length = 3 := rfl
  have hple : p.length ≤ buffer.length - 1 - dots.length :=
    hp ▸ fittingPrefix_length_le locale _ _ _
  have hqle : q.length ≤ buffer.length - 1 - dots.length - p.length := by
    rw [hq, hp, elidedSuffix]
    exact (trimZeroWidth_isSuffix locale _).length_le.trans (fittingSuffix_length_le locale _ _ _)
  obtain ⟨r, hr⟩ : p <+: bs := hp ▸ fittingPrefix_isPrefix locale _ _ _
  obtain ⟨r', hr'⟩ : q <:+ bs := hq ▸
    (trimZeroWidth_isSuffix locale _).trans (fittingSuffix_isSuffix locale _ _ _)
  obtain ⟨mem, hmem⟩ : ∃ mem, mem = buffer.set 0 0 := ⟨_, rfl⟩
  have hmemlen : mem.length = buffer.length := by rw [hmem, List.length_set]
  have hwhole : INT_MAX < measure locale bs → ¬ Narrow locale bs := fun hlarge hnarrow =>
    hnarrow.whole hlarge
  have hprefix_fitting : Yields (prefix_fitting locale (bs ++ [0]) (maxColumns maxWidth / 2 - 1)
      (buffer.length - 1 - dots.length)) p.length (¬ Narrow locale bs) := by
    rw [hp]
    refine (prefix_fitting_yields hlocale _ _ h0).mono fun hlarge hnarrow => ?_
    have hle := hnarrow.fromStart
    omega
  have hwidth : Yields (hstr_strnwidth locale (bs ++ [0]) p.length) (measure locale p)
      (¬ Narrow locale bs) := by
    have hp0 : (0 : Byte) ∉ p := fun h => h0 (hr ▸ List.mem_append_left r h)
    rw [← hr, List.append_assoc]
    refine (hstr_strnwidth_yields hlocale hp0 (r ++ [0])).mono fun hlarge hnarrow => ?_
    have hle := hnarrow.front p (List.prefix_append p r)
    omega
  have hsuffix_fitting : Yields (suffix_fitting locale (bs ++ [0])
      (maxColumns maxWidth - measure locale p - dots.length)
      (buffer.length - 1 - dots.length - p.length)) q.length (¬ Narrow locale bs) := by
    rw [hq, elidedSuffix, ← hp]
    refine (suffix_fitting_yields hlocale _ _ h0).mono ?_
    rintro (hlarge | ⟨piece, hpiece, hlarge⟩) hnarrow
    · have hle := hnarrow.fromEnd
      omega
    · have hle := hnarrow.piece _ _ piece hpiece
      omega
  have hfront : loadRange (bs ++ [0]) 0 p.length = .ok p := by
    rw [← hr, List.append_assoc]
    exact loadRange_append [] p _
  have hback : loadRange (bs ++ [0]) r'.length q.length = .ok q := by
    rw [← hr']
    exact loadRange_append _ _ _
  have hstart : sub bs.length q.length = .ok r'.length := by
    rw [← hr', List.length_append, sub_eq (Nat.le_add_left _ _), Nat.add_sub_cancel]
  -- the four writes into the buffer
  have hcopy : storeRange mem 0 p = .ok (p ++ mem.drop p.length) :=
    storeRange_append (by omega) []
  have hcopydots : storeRange (p ++ mem.drop p.length) p.length dots
      = .ok (p ++ dots ++ mem.drop (p.length + dots.length)) := by
    rw [storeRange_append (by rw [List.length_drop]; omega), List.drop_drop]
  have hcopyback : storeRange (p ++ dots ++ mem.drop (p.length + dots.length))
      (p.length + dots.length) q
        = .ok (p ++ dots ++ q ++ mem.drop (p.length + dots.length + q.length)) := by
    rw [← List.length_append, storeRange_append (by rw [List.length_drop, List.length_append]; omega),
      List.drop_drop]
  have hterminate : store (p ++ dots ++ q ++ mem.drop (p.length + dots.length + q.length))
      (p.length + dots.length + q.length) 0
        = .ok (p ++ dots ++ q ++ 0 :: mem.drop (p.length + dots.length + q.length + 1)) := by
    rw [← List.length_append, ← List.length_append,
      store_append (by simp only [List.length_drop, List.length_append]; omega), List.drop_drop]
  have hcond : measure locale bs > maxColumns maxWidth ∧ maxColumns maxWidth > dots.length
      ∧ buffer.length - 1 ≥ dots.length := helide
  refine ⟨p, q, mem.drop (p.length + dots.length + q.length + 1), hp, hq, ?_, ?_⟩
  · rw [hstr_strelide, if_neg (by omega), store_eq_set (by omega), ← hmem, Lib.Results.ok_bind,
      hmemlen, sub_eq (by omega), Lib.Results.ok_bind]
    refine Yields.bind ((hstr_strwidth_yields hlocale h0 []).mono hwhole) ?_
    rw [if_pos hcond, sub_eq hroom, Lib.Results.ok_bind]
    refine Yields.bind hprefix_fitting (Yields.bind hwidth ?_)
    rw [sub_eq hple, Lib.Results.ok_bind]
    refine Yields.bind hsuffix_fitting ?_
    rw [hfront, Lib.Results.ok_bind, hcopy, Lib.Results.ok_bind, hcopydots, Lib.Results.ok_bind,
      strlen_at_eq h0, Lib.Results.ok_bind, hstart, Lib.Results.ok_bind, hback,
      Lib.Results.ok_bind, hcopyback, Lib.Results.ok_bind, hterminate]
    exact Or.inl rfl
  · simp only [List.length_append, List.length_cons, List.length_drop]
    omega

/-! ## No harm -/

/-- **`hstr_strelide` does no harm**, with whatever `mbrtowc` and `wcwidth` there
are: no read outside the string and its terminator, no write outside the buffer,
no difference that wraps around, and an end of all loops. The one thing that is
left is a count of columns that does not fit an `int`. -/
theorem hstr_strelide_safe (hlocale : Consumes locale) (s : CString) (buffer : List Byte)
    (hbuffer : 0 < buffer.length) (maxWidth : ℕ) :
    match hstr_strelide locale buffer (s.bytes ++ [0]) maxWidth with
    | .ok r => r.prefixLength ≤ strlen s ∧ r.suffixLength ≤ strlen s
        ∧ r.prefixLength + (if r.elide then dots.length else 0) + r.suffixLength < buffer.length
        ∧ r.buffer.length = buffer.length
    | .error fault => fault = .overflow ∧ ¬ Narrow locale s.bytes := by
  by_cases helide : Elides locale buffer.length maxWidth s.bytes
  · obtain ⟨p, q, rest, hp, hq, hrun | ⟨hrun, hlarge⟩, hlen⟩ :=
      hstr_strelide_elided hlocale s.nonul helide
    · have hpre : p <+: s.bytes := hp ▸ fittingPrefix_isPrefix locale _ _ _
      have hsuf : q <:+ s.bytes := hq ▸
        (trimZeroWidth_isSuffix locale _).trans (fittingSuffix_isSuffix locale _ _ _)
      rw [hrun]
      refine ⟨hpre.length_le, hsuf.length_le, ?_, hlen⟩
      rw [List.length_append, List.length_append, List.length_append, List.length_cons] at hlen
      rw [if_pos rfl]
      dsimp only
      omega
    · rw [hrun]
      exact ⟨rfl, hlarge⟩
  · obtain ⟨p, rest, hp, hrun | ⟨hrun, hlarge⟩, hlen⟩ :=
      hstr_strelide_fitting hlocale s.nonul hbuffer helide
    · have hpre : p <+: s.bytes := hp ▸ fittingPrefix_isPrefix locale _ _ _
      rw [hrun]
      refine ⟨hpre.length_le, Nat.zero_le _, ?_, hlen⟩
      rw [List.length_append, List.length_cons] at hlen
      rw [if_neg Bool.false_ne_true]
      dsimp only
      omega
    · rw [hrun]
      exact ⟨rfl, hlarge⟩

/-- A buffer and a terminal that are too narrow for the string. -/
theorem hstr_strelide_safe_narrow :
    match hstr_strelide (stateless (Columns.utf8 fun _ => 1)) [0, 0, 0, 0, 0]
        ((lit "cat file").bytes ++ [0]) 7 with
    | .ok r => r.prefixLength ≤ strlen (lit "cat file") ∧ r.suffixLength ≤ strlen (lit "cat file")
        ∧ r.prefixLength + (if r.elide then dots.length else 0) + r.suffixLength < 5
        ∧ r.buffer.length = 5
    | .error fault => fault = .overflow
        ∧ ¬ Narrow (stateless (Columns.utf8 fun _ => 1)) (lit "cat file").bytes :=
  hstr_strelide_safe (consumes_utf8 fun _ => 1) (lit "cat file") [0, 0, 0, 0, 0] (by decide) 7

end Hstr.Elide
