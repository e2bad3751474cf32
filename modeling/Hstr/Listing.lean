/-
`src/hstr.c`: what is printed without the suggest box.

`stdout_history_and_return` selects the lines that match the command line and prints
them. It has no screen to take a capacity from, and gives `hstr_make_selection` the
size of the raw view, whichever view is configured. The ranking view is never
longer than that; the favorites are a list of their own.
-/
import Hstr.Lookup
import Hstr.Main
import Hstr.RawView

set_option autoImplicit false

namespace Hstr.Listing

open Lib.Dedup Lib.Results Hstr.Strings Hstr.Hashset Hstr.Radixsort Hstr.Favorites Hstr.History
open Hstr.Coherence Hstr.Regexp Hstr.RawView Hstr.Box Hstr.Lookup Hstr.Main

variable {R : Type}

/-! ## The sizes of the views -/

section Sizes

variable {sh : Shell} {f : RankingFunction} {blacklist : HashSet CString}

theorem size_ensureSlot (rs : RadixSorter ℕ) (topIndex : ℕ) :
    (ensureSlot rs topIndex).size = rs.size := by
  unfold ensureSlot
  split <;> rfl

theorem size_fileItem {rs rs' : RadixSorter ℕ} {item : RadixItem ℕ}
    (h : fileItem rs item = .ok rs') : rs'.size = rs.size + 1 := by
  unfold fileItem at h
  simp only at h
  split at h
  · split at h
    · rw [← Except.ok.inj h]
      exact congrArg (· + 1) (size_ensureSlot rs _)
    · cases h
  · cases h

theorem size_radixsort_add {rs rs' : RadixSorter ℕ} {item : RadixItem ℕ}
    (h : radixsort_add rs item = .ok rs') : rs'.size ≤ rs.size + 1 := by
  unfold radixsort_add at h
  split at h
  · cases hoption : rs.optionBigKeys with
    | FLOOR =>
        rw [hoption] at h
        exact (size_fileItem h).le
    | SKIP =>
        rw [hoption] at h
        rw [← Except.ok.inj h]
        exact Nat.le_succ _
    | EXIT =>
        rw [hoption] at h
        cases h
  · exact (size_fileItem h).le

theorem size_radix_cut {rs rs' : RadixSorter ℕ} {key data : ℕ} {item : Option (RadixItem ℕ)}
    (h : radix_cut rs key data = .ok (item, rs')) : rs'.size ≤ rs.size := by
  unfold radix_cut at h
  simp only at h
  split at h
  · split at h
    · split at h
      · rw [← (Prod.mk.inj (Except.ok.inj h)).2]
      · split at h
        · cases h
        · split at h
          · rw [← (Prod.mk.inj (Except.ok.inj h)).2]
          · split at h
            · cases h
            · rw [← (Prod.mk.inj (Except.ok.inj h)).2]
              exact Nat.sub_le _ _
    · cases h
  · rw [← (Prod.mk.inj (Except.ok.inj h)).2]

/-- An occurrence of a command adds at most one item to the sorter. -/
theorem size_rankLine {st st' : CreateState} {i : ℕ} {line : CString}
    (h : rankLine f st i line = .ok st') : st'.rs.size ≤ st.rs.size + 1 := by
  unfold rankLine at h
  split at h
  · simp only [bind_eq_ok, pure_eq_ok] at h
    obtain ⟨rs, hadd, rfl⟩ := h
    exact size_radixsort_add hadd
  · split at h
    · cases h
    · simp only [bind_eq_ok] at h
      obtain ⟨⟨radixItem, rs⟩, hcut, h⟩ := h
      have hle := size_radix_cut hcut
      cases radixItem with
      | none =>
          rw [pure_eq_ok] at h
          subst h
          exact hle.trans (Nat.le_succ _)
      | some radixItem =>
          simp only [bind_eq_ok, pure_eq_ok] at h
          obtain ⟨rs', hadd, rfl⟩ := h
          exact (size_radixsort_add hadd).trans (Nat.succ_le_succ hle)

theorem size_indexEntry {st st' : CreateState} {i : ℕ} {entry : HistEntry}
    (h : indexEntry sh f blacklist st i entry = .ok st') :
    st'.rs.size ≤ st.rs.size + (commandEntries [entry]).length := by
  cases hcmd : isCommand entry with
  | false =>
      have hsame : st'.rs = st.rs := by
        rcases indexEntry_not_command sh f blacklist st i hcmd with ⟨-, hbody⟩ | ⟨-, hbody⟩
        · rw [hbody] at h
          rw [← Except.ok.inj h]
        · rw [hbody] at h
          rw [← Except.ok.inj h]
      rw [hsame]
      exact Nat.le_add_right _ _
  | true =>
      obtain ⟨source, more, -, hbody⟩ := indexEntry_command sh f blacklist st i hcmd
      have hone : (commandEntries [entry]).length = 1 := by
        rw [commandEntries, List.filter_cons_of_pos hcmd, List.filter_nil, List.length_singleton]
      rw [hbody] at h
      rw [hone]
      simp only at h
      split at h
      · rw [← Except.ok.inj h]
        exact Nat.le_succ _
      · have hsize := size_rankLine h
        exact hsize

theorem size_indexEntries {st st' : CreateState} {i : ℕ} {entries : List HistEntry}
    (h : indexEntries sh f blacklist i entries st = .ok st') :
    st'.rs.size ≤ st.rs.size + (commandEntries entries).length := by
  induction entries generalizing i st with
  | nil =>
      rw [← Except.ok.inj h]
      exact Nat.le_add_right _ _
  | cons entry entries ih =>
      rw [indexEntries, bind_eq_ok] at h
      obtain ⟨st1, hstep, hrun⟩ := h
      have hone := size_indexEntry hstep
      have hrest := ih hrun
      have hsplit : (commandEntries (entry :: entries)).length
          = (commandEntries [entry]).length + (commandEntries entries).length := by
        rw [commandEntries, List.filter_cons]
        unfold commandEntries
        split <;> simp_all [Nat.add_comm]
      omega

/-- **The ranking view is not longer than the raw one.** -/
theorem length_items_le {optionBigKeys : BigKeys} {historyState : Option HistoryState}
    {history : HistoryItems}
    (h : prioritized_history_create sh f optionBigKeys blacklist historyState = .ok (some history)) :
    history.items.length ≤ history.rawItems.length := by
  cases historyState with
  | none => cases h
  | some historyState =>
      have hraw := length_of_rawView (rawView_of_create h)
      have hcount := rawCount_eq sh historyState.entries
      simp only [prioritized_history_create] at h
      split at h
      · simp only [bind_eq_ok, pure_eq_ok] at h
        obtain ⟨st, hst, rawHistory, -, out, -, rawItems, -, items, hitems, hres⟩ := h
        obtain rfl := Option.some.inj hres
        have hsize := size_indexEntries hst
        have hzero : (createState (keyLimitOf historyState) optionBigKeys).rs.size = 0 := rfl
        have hlength : (List.range st.rs.size).length = items.length :=
          (mapM_eq_ok_iff.mp hitems).length_eq
        rw [List.length_range] at hlength
        simp only at hraw ⊢
        omega
      · cases h

end Sizes

/-! ## The lines that match -/

/-- A line matches a pattern: every line matches the empty one. -/
def Matches (lib : RegexLib R) (hstr : Hstr R) (pattern line : CString) : Prop :=
  strlen pattern = 0 ∨
    match hstr.matching with
    | .SUBSTRING => Contains hstr.caseSensitive pattern line
    | .REGEXP => (hstr_regexp_match lib hstr.regexp pattern line CMDLINE_LNG).1.ret = true
    | .KEYWORDS => ContainsTokens hstr.caseSensitive pattern line

/-- The passes of `hstr_make_selection` look for the lines that match. -/
theorem matches_iff {lib : RegexLib R} {hstr : Hstr R} {pattern line : CString} :
    Matches lib hstr pattern line
      ↔ (matchesFirst lib hstr pattern line || matchesSecond hstr pattern line) = true := by
  unfold Matches matchesFirst matchesSecond
  by_cases hlen : strlen pattern = 0
  · simp [hlen]
  · simp only [hlen, false_or, if_false]
    cases hstr.matching with
    | SUBSTRING =>
        simp only [Bool.or_eq_true, decide_eq_true_eq, ← search_ne_none_iff]
        constructor
        · intro hfound
          by_cases hstart : search hstr.caseSensitive line pattern = some 0
          · exact Or.inl hstart
          · exact Or.inr ⟨hfound, hstart⟩
        · rintro (hstart | ⟨hfound, -⟩)
          · rw [hstart]
            exact Option.some_ne_none 0
          · exact hfound
    | REGEXP => simp
    | KEYWORDS => simp [keywordsAllMatch_iff]

instance (lib : RegexLib R) (hstr : Hstr R) (pattern line : CString) :
    Decidable (Matches lib hstr pattern line) :=
  decidable_of_iff _ matches_iff.symm

/-- No line is looked for twice. -/
theorem matchesSecond_of_matchesFirst {lib : RegexLib R} {hstr : Hstr R} {pattern line : CString}
    (h : matchesFirst lib hstr pattern line = true) : matchesSecond hstr pattern line = false := by
  by_cases hlen : strlen pattern = 0
  · rw [strlen_eq_zero_iff.mp hlen, matchesSecond_empty]
  · unfold matchesFirst at h
    unfold matchesSecond
    rw [if_neg hlen] at h
    cases hmode : hstr.matching with
    | SUBSTRING =>
        rw [hmode, decide_eq_true_eq] at h
        simp [h]
    | REGEXP => rfl
    | KEYWORDS => rfl

/-- The lines of the view that match. -/
def wanted (lib : RegexLib R) (hstr : Hstr R) (history : HistoryItems) : List CString :=
  (source hstr history).filter (Matches lib hstr hstr.cmdline ·)

theorem candidates_perm (lib : RegexLib R) (hstr : Hstr R) (history : HistoryItems) :
    (candidates lib hstr hstr.cmdline history).Perm (wanted lib hstr history) := by
  apply filter_append_filter_perm
  · intro line _
    apply Bool.eq_iff_iff.mpr
    rw [decide_eq_true_eq]
    exact matches_iff
  · intro line _
    exact matchesSecond_of_matchesFirst

/-! ## The listing -/

/-- The listing has what it should have. -/
structure Complete (lib : RegexLib R) (hstr : Hstr R) (history : HistoryItems)
    (printed : List CString) : Prop where
  /-- Every line of the view that matches is printed, and no other line. -/
  lines : ∀ line, line ∈ printed ↔ line ∈ wanted lib hstr history
  /-- Where repetitions are dropped, it is printed once. -/
  once : hstr.noRawHistoryDuplicates = true → hstr.matching ≠ .REGEXP → printed.Nodup
  /-- Where they are kept, and where a regexp is matched, it is printed as often as it
  is in the view. -/
  repeated : hstr.noRawHistoryDuplicates = false ∨ (hstr.matching = .REGEXP ∧ strlen hstr.cmdline ≠ 0) →
    printed.Perm (wanted lib hstr history)
  /-- No capacity gives more lines. -/
  uncut : ∀ n, (hstr_make_selection lib hstr (some hstr.cmdline) history n).selection.length
    ≤ printed.length

/-- The listing is a beginning of the lines that match. -/
theorem printed_eq (lib : RegexLib R) (hstr : Hstr R) (history : HistoryItems) :
    (stdout_history_and_return lib hstr history).2
      = (distinct (dropsDuplicates hstr hstr.cmdline)
          (candidates lib hstr hstr.cmdline history)).take history.rawItems.length :=
  selection_make_selection lib hstr (some hstr.cmdline) history history.rawItems.length

/-- It is complete where nothing is cut off. -/
theorem complete_iff_length_le (lib : RegexLib R) (hstr : Hstr R) (history : HistoryItems) :
    Complete lib hstr history (stdout_history_and_return lib hstr history).2
      ↔ (distinct (dropsDuplicates hstr hstr.cmdline) (wanted lib hstr history)).length
        ≤ history.rawItems.length := by
  have hperm := distinct_perm (candidates_perm lib hstr history) (dropsDuplicates hstr hstr.cmdline)
  rw [printed_eq, ← hperm.length_eq]
  constructor
  · intro h
    have huncut := h.uncut (distinct (dropsDuplicates hstr hstr.cmdline)
      (candidates lib hstr hstr.cmdline history)).length
    rw [selection_make_selection, Option.getD_some, List.take_length, List.length_take] at huncut
    omega
  · intro hle
    rw [List.take_of_length_le hle]
    refine ⟨fun line => ?_, fun hdrop hmode => ?_, fun hkeep => ?_, fun n => ?_⟩
    · rw [hperm.mem_iff, mem_distinct]
    · rw [dropsDuplicates_of_ne_REGEXP hmode, hdrop]
      exact nodup_distinct _
    · have hkeeps : dropsDuplicates hstr hstr.cmdline = false := by
        unfold dropsDuplicates
        rcases hkeep with hkeep | ⟨hmode, hlen⟩
        · rw [hkeep, Bool.false_and]
        · simp [hmode, hlen]
      rw [hkeeps, distinct, if_neg Bool.false_ne_true]
      exact candidates_perm lib hstr history
    · rw [selection_make_selection, Option.getD_some]
      exact List.length_take_le' _ _

/-- **When the listing is complete**: in the ranking and the raw view always, in the
favorites view where no more favorites match than there are raw history items. -/
theorem listing_complete_iff {sh : Shell} {f : RankingFunction} {optionBigKeys : BigKeys}
    {blacklist : HashSet CString} {historyState : Option HistoryState} {history : HistoryItems}
    (hcreate : prioritized_history_create sh f optionBigKeys blacklist historyState
      = .ok (some history)) (lib : RegexLib R) (hstr : Hstr R) :
    Complete lib hstr history (stdout_history_and_return lib hstr history).2
      ↔ (hstr.view = .FAVORITES →
          (distinct (dropsDuplicates hstr hstr.cmdline)
            (hstr.favorites.items.filter (Matches lib hstr hstr.cmdline ·))).length
            ≤ history.rawItems.length) := by
  have hview : (distinct (dropsDuplicates hstr hstr.cmdline) (wanted lib hstr history)).length
      ≤ (source hstr history).length :=
    (length_distinct_le _ _).trans (List.length_filter_le _ _)
  rw [complete_iff_length_le]
  cases hmode : hstr.view with
  | HISTORY =>
      have hsource : source hstr history = history.rawItems.map RawItem.text := by
        rw [source, hmode]
      rw [hsource, List.length_map] at hview
      simp only [reduceCtorEq, false_implies, iff_true]
      exact hview
  | FAVORITES =>
      have hsource : source hstr history = hstr.favorites.items := by rw [source, hmode]
      rw [wanted, hsource]
      simp only [forall_const]
  | RANKING =>
      have hsource : source hstr history = history.items := by rw [source, hmode]
      rw [hsource] at hview
      simp only [reduceCtorEq, false_implies, iff_true]
      exact hview.trans (length_items_le hcreate)

/-- Ranks that grow. -/
def growingRank : RankingFunction := fun rank index length => rank + index + length

/-- One command in the history. -/
def oneCommand : HistoryState := ⟨[⟨0, some (lit "ls")⟩], 1, by decide⟩

def oneItem : HistoryItems := ⟨[lit "ls"], [⟨.line 0, lit "ls"⟩], []⟩

/-- Two favorites, in the view of the favorites. -/
def twoFavorites : Hstr (CString × Bool) :=
  { plainBox .KEYWORDS with
    view := .FAVORITES
    favorites := favorites_get favorites_init (some (printLines [lit "git status", lit "make"])) }

theorem create_oneCommand :
    prioritized_history_create bash growingRank .SKIP hashset_init (some oneCommand)
      = .ok (some oneItem) := rfl

/-- One favorite of the two is asked for. -/
theorem listing_complete_iff_make :
    Complete literalRegex { twoFavorites with cmdline := lit "make" } oneItem
        (stdout_history_and_return literalRegex { twoFavorites with cmdline := lit "make" } oneItem).2
      ↔ (View.FAVORITES = .FAVORITES →
          (distinct (dropsDuplicates { twoFavorites with cmdline := lit "make" } (lit "make"))
            (twoFavorites.favorites.items.filter
              (Matches literalRegex { twoFavorites with cmdline := lit "make" } (lit "make") ·))).length
            ≤ 1) :=
  listing_complete_iff create_oneCommand literalRegex { twoFavorites with cmdline := lit "make" }

/-- Without a pattern both favorites match, and one is printed. -/
theorem favorites_listing_cut :
    prioritized_history_create bash growingRank .SKIP hashset_init (some oneCommand)
        = .ok (some oneItem)
      ∧ (stdout_history_and_return literalRegex twoFavorites oneItem).2 = [lit "git status"]
      ∧ lit "make" ∈ wanted literalRegex twoFavorites oneItem
      ∧ ¬ Complete literalRegex twoFavorites oneItem
        (stdout_history_and_return literalRegex twoFavorites oneItem).2 := by
  have hprinted : (stdout_history_and_return literalRegex twoFavorites oneItem).2
      = [lit "git status"] := by decide
  have hwanted : lit "make" ∈ wanted literalRegex twoFavorites oneItem := by decide
  refine ⟨rfl, hprinted, hwanted, fun h => ?_⟩
  rw [hprinted] at h
  exact absurd ((h.lines (lit "make")).mpr hwanted) (by decide)

end Hstr.Listing
