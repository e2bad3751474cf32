/-
What the ranking view shows.

`prioritized_history_create` keeps three things about a command that is not
blacklisted: a `RankedHistoryItem` with its last rank, the rank map's pointer to
it, and an item in the radix sorter under that rank. They part when a rank goes
over the key limit. The item is then skipped, or filed under the last key, while
the remembered rank stays over the limit, so that every later `radix_cut` misses
and the command is ranked no more.

The specification follows one command through its occurrences. The invariant
`Ranks` carries, next to the three structures, a `tally`: the command, its last
rank and the index of its last insertion, for each pointer in turn.
-/
import Hstr.Coherence

set_option autoImplicit false

namespace Hstr.Ranking

open Lib.Results Hstr.Strings Hstr.Hashset Hstr.Radixsort Hstr.Utils Hstr.History Hstr.Coherence

/-! ## The rank of a command -/

/-- One more occurrence, at the index `i`, of a command of the given length:
its last rank and the index it comes from. After a rank over the limit the
occurrences count no more. -/
def rankStep (f : RankingFunction) (keyLimit length : ℕ) :
    Option (ℕ × ℕ) → ℕ → Option (ℕ × ℕ)
  | none, i => some (f 0 i length, i)
  | some (rank, last), i =>
      if rank > keyLimit then some (rank, last) else some (f rank i length, i)

/-- The indices at which a command occurs in a history list. -/
def occurrences (sh : Shell) (entries : List HistEntry) (c : CString) : List ℕ :=
  (entries.zipIdx.filter fun e => isCommand e.1 && decide (decodeEntry sh e.1 = c)).map Prod.snd

/-- The last rank of a command, with the index it comes from; `none` if the
command does not occur. -/
def commandRank (sh : Shell) (f : RankingFunction) (keyLimit : ℕ) (entries : List HistEntry)
    (c : CString) : Option (ℕ × ℕ) :=
  (occurrences sh entries c).foldl (rankStep f keyLimit (strlen c)) none

/-- The key by which a command is shown: its last rank, or the last key of the
table for a rank over the limit. -/
def shownKey (keyLimit rank : ℕ) : ℕ := if rank > keyLimit then keyLimit - 1 else rank

/-- The ranking view of a history list. -/
structure RankingView (sh : Shell) (f : RankingFunction) (optionBigKeys : BigKeys)
    (blacklist : HashSet CString) (keyLimit : ℕ) (entries : List HistEntry)
    (items : List CString) : Prop where
  /-- No command is shown twice. -/
  nodup : items.Nodup
  /-- The commands that are not blacklisted are shown, unless they are skipped
  for a rank over the limit. -/
  mem : ∀ c, c ∈ items ↔ hashset_contains blacklist c = false ∧
    ∃ r, commandRank sh f keyLimit entries c = some r ∧ ¬ (optionBigKeys = .SKIP ∧ r.1 > keyLimit)
  /-- The keys do not increase, and of two commands with the same key the one
  inserted last comes first. -/
  ordered : items.Pairwise fun c d => ∀ r s, commandRank sh f keyLimit entries c = some r →
    commandRank sh f keyLimit entries d = some s →
    shownKey keyLimit s.1 < shownKey keyLimit r.1
      ∨ shownKey keyLimit s.1 = shownKey keyLimit r.1 ∧ s.2 < r.2

theorem occurrences_concat (sh : Shell) (entries : List HistEntry) (entry : HistEntry)
    (c : CString) :
    occurrences sh (entries ++ [entry]) c = occurrences sh entries c ++
      if isCommand entry && decide (decodeEntry sh entry = c) then [entries.length] else [] := by
  rw [occurrences, List.zipIdx_append, List.filter_append, List.map_append, occurrences]
  cases h : isCommand entry && decide (decodeEntry sh entry = c) <;> simp [h]

/-- An entry that is another command, or none, does not change the rank. -/
theorem commandRank_concat_of_ne {sh : Shell} {f : RankingFunction} {keyLimit : ℕ}
    {entries : List HistEntry} {entry : HistEntry} {c : CString}
    (h : isCommand entry = true → decodeEntry sh entry ≠ c) :
    commandRank sh f keyLimit (entries ++ [entry]) c = commandRank sh f keyLimit entries c := by
  have hnot : (isCommand entry && decide (decodeEntry sh entry = c)) = false := by
    cases hcmd : isCommand entry with
    | false => rfl
    | true => simpa using h hcmd
  rw [commandRank, occurrences_concat, hnot, commandRank]
  simp

/-- An entry that is the command is one more occurrence. -/
theorem commandRank_concat_self (sh : Shell) (f : RankingFunction) (keyLimit : ℕ)
    (entries : List HistEntry) {entry : HistEntry} (h : isCommand entry = true) :
    commandRank sh f keyLimit (entries ++ [entry]) (decodeEntry sh entry)
      = rankStep f keyLimit (strlen (decodeEntry sh entry))
          (commandRank sh f keyLimit entries (decodeEntry sh entry)) entries.length := by
  rw [commandRank, occurrences_concat, commandRank]
  simp [h]

/-- Ranks come from the ranking function. -/
theorem commandRank_eq_some {sh : Shell} {f : RankingFunction} {keyLimit : ℕ}
    {entries : List HistEntry} {c : CString} {r : ℕ × ℕ}
    (h : commandRank sh f keyLimit entries c = some r) :
    ∃ rank i, r.1 = f rank i (strlen c) := by
  unfold commandRank at h
  generalize occurrences sh entries c = is at h
  induction is using List.reverseRecOn generalizing r with
  | nil => cases h
  | append_singleton is i ih =>
      rw [List.foldl_append, List.foldl_cons, List.foldl_nil] at h
      cases hprev : is.foldl (rankStep f keyLimit (strlen c)) none with
      | none =>
          rw [hprev] at h
          obtain rfl := Option.some.inj h
          exact ⟨0, i, rfl⟩
      | some prev =>
          rw [hprev] at h
          simp only [rankStep] at h
          split at h
          · exact Option.some.inj h ▸ ih hprev
          · obtain rfl := Option.some.inj h
            exact ⟨prev.1, i, rfl⟩

/-! ## The three structures in step -/

/-- What is known of a ranked command. -/
structure Tally where
  command : CString
  rank : ℕ
  insertedAt : ℕ

/-- The live items of the sorter tell the tally: the item of a pointer is there
under the key its rank is stored under, and the items are in the order of their
insertion, the newest first. -/
structure Stored (optionBigKeys : BigKeys) (keyLimit : ℕ) (tally : List Tally)
    (live : List (RadixItem ℕ)) : Prop where
  mem : ∀ x, x ∈ live ↔
    ∃ t, tally[x.data]? = some t ∧ storedKey optionBigKeys keyLimit t.rank = some x.key
  recent : live.Pairwise fun x y => ∀ t u, tally[x.data]? = some t → tally[y.data]? = some u →
    u.insertedAt < t.insertedAt

/-- The invariant of the indexing loop after the entries `processed`. -/
structure Ranks (sh : Shell) (f : RankingFunction) (optionBigKeys : BigKeys)
    (blacklist : HashSet CString) (keyLimit : ℕ) (processed : List HistEntry) (st : CreateState)
    (tally : List Tally) (live : List (RadixItem ℕ)) : Prop where
  ranked : st.ranked = tally.map fun t => ⟨t.command, t.rank⟩
  rankmap : ∀ c p, hashset_get st.rankmap c = some p ↔ ∃ t, tally[p]? = some t ∧ t.command = c
  tallied : ∀ t ∈ tally, hashset_contains blacklist t.command = false
    ∧ commandRank sh f keyLimit processed t.command = some (t.rank, t.insertedAt)
  complete : ∀ c r, hashset_contains blacklist c = false →
    commandRank sh f keyLimit processed c = some r → ∃ t ∈ tally, t.command = c
  before : ∀ t ∈ tally, t.insertedAt < processed.length
  limit : st.rs.keyLimit = keyLimit
  option : st.rs.optionBigKeys = optionBigKeys
  represents : Represents st.rs live
  stored : Stored optionBigKeys keyLimit tally live

/-- The data of a live item is a pointer that was given out. -/
theorem Stored.data_lt {optionBigKeys : BigKeys} {keyLimit : ℕ} {tally : List Tally}
    {live : List (RadixItem ℕ)} (h : Stored optionBigKeys keyLimit tally live) {x : RadixItem ℕ}
    (hx : x ∈ live) : x.data < tally.length := by
  obtain ⟨t, ht, -⟩ := (h.mem x).mp hx
  exact (List.getElem?_eq_some_iff.mp ht).1

/-- Storing the pointer `p` again, or for the first time: what is left of the
other items, with an item for `p` in front if its rank is stored. -/
theorem Stored.update {optionBigKeys : BigKeys} {keyLimit : ℕ} {tally tally' : List Tally}
    {live rest : List (RadixItem ℕ)} (h : Stored optionBigKeys keyLimit tally live) {p : ℕ}
    {t' : Tally} (hself : tally'[p]? = some t') (hother : ∀ q, q ≠ p → tally'[q]? = tally[q]?)
    (hrest : rest.Sublist live) (hmem : ∀ x, x ∈ rest ↔ x ∈ live ∧ x.data ≠ p)
    (hlast : ∀ t ∈ tally, t.insertedAt < t'.insertedAt) :
    Stored optionBigKeys keyLimit tally' (liveAdd optionBigKeys keyLimit ⟨t'.rank, p⟩ rest) := by
  have hold : ∀ x ∈ rest, tally'[x.data]? = tally[x.data]? :=
    fun x hx => hother x.data ((hmem x).mp hx).2
  have hrecent : rest.Pairwise fun x y => ∀ t u, tally'[x.data]? = some t →
      tally'[y.data]? = some u → u.insertedAt < t.insertedAt := by
    refine (h.recent.sublist hrest).imp_of_mem fun {x y} hx hy hxy => ?_
    rw [hold x hx, hold y hy]
    exact hxy
  -- an item is one of the others, or it is the item of `p`
  have hone : ∀ x, x.data ≠ p → (x ∈ rest ↔ ∃ t, tally'[x.data]? = some t
      ∧ storedKey optionBigKeys keyLimit t.rank = some x.key) := by
    intro x hx
    rw [hmem, hother x.data hx, h.mem x]
    exact and_iff_left hx
  unfold liveAdd
  cases hkey : storedKey optionBigKeys keyLimit t'.rank with
  | none =>
      refine ⟨fun x => ?_, hrecent⟩
      by_cases hx : x.data = p
      · constructor
        · exact fun hin => absurd hx ((hmem x).mp hin).2
        · rintro ⟨t, ht, hk⟩
          rw [hx, hself] at ht
          rw [← Option.some.inj ht, hkey] at hk
          cases hk
      · exact hone x hx
  | some key =>
      refine ⟨fun x => ?_, List.pairwise_cons.mpr ⟨?_, hrecent⟩⟩
      · rw [List.mem_cons]
        by_cases hx : x.data = p
        · constructor
          · rintro (rfl | hin)
            · exact ⟨t', hself, hkey⟩
            · exact absurd hx ((hmem x).mp hin).2
          · rintro ⟨t, ht, hk⟩
            rw [hx, hself] at ht
            rw [← Option.some.inj ht, hkey] at hk
            obtain ⟨k, data⟩ := x
            subst hx
            rw [Option.some.inj hk]
            exact Or.inl rfl
        · rw [← hone x hx]
          constructor
          · rintro (rfl | hin)
            · exact absurd rfl hx
            · exact hin
          · exact Or.inr
      · intro y hy t u ht hu
        rw [hself] at ht
        rw [hold y hy] at hu
        rw [← Option.some.inj ht]
        exact hlast u (List.mem_of_getElem? hu)

/-- The map after one command got the pointer `p`. -/
theorem rankmap_update {rankmap rankmap' : HashSet ℕ} {tally tally' : List Tally}
    (h : ∀ c p, hashset_get rankmap c = some p ↔ ∃ t, tally[p]? = some t ∧ t.command = c)
    {p : ℕ} {t' : Tally} (hself : tally'[p]? = some t')
    (hother : ∀ q, q ≠ p → tally'[q]? = tally[q]?)
    (hmine : ∀ q t, tally[q]? = some t → (t.command = t'.command ↔ q = p))
    (hmap : ∀ d, hashset_get rankmap' d
      = if d = t'.command then some p else hashset_get rankmap d) (c : CString) (q : ℕ) :
    hashset_get rankmap' c = some q ↔ ∃ t, tally'[q]? = some t ∧ t.command = c := by
  rw [hmap]
  by_cases hc : c = t'.command
  · rw [if_pos hc, Option.some.injEq]
    constructor
    · rintro rfl
      exact ⟨t', hself, hc.symm⟩
    · rintro ⟨t, ht, htc⟩
      by_contra hq
      rw [hother q (Ne.symm hq)] at ht
      exact hq ((hmine q t ht).mp (htc.trans hc)).symm
  · rw [if_neg hc, h]
    constructor
    · rintro ⟨t, ht, rfl⟩
      have hq : q ≠ p := fun hq => hc ((hmine q t ht).mpr hq)
      exact ⟨t, by rwa [hother q hq], rfl⟩
    · rintro ⟨t, ht, rfl⟩
      have hq : q ≠ p := by
        rintro rfl
        rw [hself] at ht
        exact hc (congrArg Tally.command (Option.some.inj ht)).symm
      exact ⟨t, by rwa [← hother q hq], rfl⟩

/-- The tally of one command is renewed, or begun, at the pointer `p`; the other
commands keep theirs. -/
theorem Ranks.update {sh : Shell} {f : RankingFunction} {optionBigKeys : BigKeys}
    {blacklist : HashSet CString} {keyLimit : ℕ} {processed : List HistEntry}
    {st st' : CreateState} {tally tally' : List Tally} {live : List (RadixItem ℕ)}
    (h : Ranks sh f optionBigKeys blacklist keyLimit processed st tally live)
    {rest : List (RadixItem ℕ)} {entry : HistEntry} {rank : ℕ} (p : ℕ)
    (hblack : hashset_contains blacklist (decodeEntry sh entry) = false)
    (hrank : commandRank sh f keyLimit (processed ++ [entry]) (decodeEntry sh entry)
      = some (rank, processed.length))
    (hself : tally'[p]? = some ⟨decodeEntry sh entry, rank, processed.length⟩)
    (hother : ∀ q, q ≠ p → tally'[q]? = tally[q]?)
    (hmine : ∀ q t, tally[q]? = some t → (t.command = decodeEntry sh entry ↔ q = p))
    (hranked : st'.ranked = tally'.map fun t => ⟨t.command, t.rank⟩)
    (hmap : ∀ d, hashset_get st'.rankmap d
      = if d = decodeEntry sh entry then some p else hashset_get st.rankmap d)
    (hrest : rest.Sublist live) (hmem : ∀ x, x ∈ rest ↔ x ∈ live ∧ x.data ≠ p)
    (hlimit : st'.rs.keyLimit = keyLimit) (hoption : st'.rs.optionBigKeys = optionBigKeys)
    (hrep : Represents st'.rs (liveAdd optionBigKeys keyLimit ⟨rank, p⟩ rest)) :
    Ranks sh f optionBigKeys blacklist keyLimit (processed ++ [entry]) st' tally'
      (liveAdd optionBigKeys keyLimit ⟨rank, p⟩ rest) := by
  have hlength : (processed ++ [entry]).length = processed.length + 1 := by simp
  -- the tally of another pointer is an old one, of another command
  have hold : ∀ q t, q ≠ p → tally'[q]? = some t →
      t ∈ tally ∧ t.command ≠ decodeEntry sh entry := by
    intro q t hq ht
    rw [hother q hq] at ht
    exact ⟨List.mem_of_getElem? ht, fun hc => hq ((hmine q t ht).mp hc)⟩
  have hkeep : ∀ c, c ≠ decodeEntry sh entry →
      commandRank sh f keyLimit (processed ++ [entry]) c = commandRank sh f keyLimit processed c :=
    fun c hc => commandRank_concat_of_ne fun _ => Ne.symm hc
  refine ⟨hranked, rankmap_update h.rankmap hself hother hmine hmap, ?_, ?_, ?_, hlimit, hoption,
    hrep, ?_⟩
  · intro t ht
    obtain ⟨q, hq⟩ := List.mem_iff_getElem?.mp ht
    by_cases hqp : q = p
    · subst hqp
      rw [hself] at hq
      rw [← Option.some.inj hq]
      exact ⟨hblack, hrank⟩
    · obtain ⟨hmem, hne⟩ := hold q t hqp hq
      rw [hkeep t.command hne]
      exact h.tallied t hmem
  · intro c r hc hr
    by_cases hce : c = decodeEntry sh entry
    · exact ⟨_, List.mem_of_getElem? hself, hce.symm⟩
    · rw [hkeep c hce] at hr
      obtain ⟨t, ht, rfl⟩ := h.complete c r hc hr
      obtain ⟨q, hq⟩ := List.mem_iff_getElem?.mp ht
      have hqp : q ≠ p := fun hqp => hce ((hmine q t hq).mpr hqp)
      rw [← hother q hqp] at hq
      exact ⟨t, List.mem_of_getElem? hq, rfl⟩
  · intro t ht
    obtain ⟨q, hq⟩ := List.mem_iff_getElem?.mp ht
    rw [hlength]
    by_cases hqp : q = p
    · subst hqp
      rw [hself] at hq
      rw [← Option.some.inj hq]
      exact Nat.lt_succ_self _
    · exact Nat.lt_succ_of_lt (h.before t (hold q t hqp hq).1)
  · exact h.stored.update hself hother hrest hmem h.before

/-- An entry that changes nothing about the ranked commands. -/
theorem Ranks.skip {sh : Shell} {f : RankingFunction} {optionBigKeys : BigKeys}
    {blacklist : HashSet CString} {keyLimit : ℕ} {processed : List HistEntry}
    {st st' : CreateState} {tally : List Tally} {live : List (RadixItem ℕ)}
    (h : Ranks sh f optionBigKeys blacklist keyLimit processed st tally live) {entry : HistEntry}
    (hkeep : ∀ c, hashset_contains blacklist c = false →
      commandRank sh f keyLimit (processed ++ [entry]) c = commandRank sh f keyLimit processed c)
    (hranked : st'.ranked = st.ranked) (hmap : st'.rankmap = st.rankmap) (hrs : st'.rs = st.rs) :
    Ranks sh f optionBigKeys blacklist keyLimit (processed ++ [entry]) st' tally live := by
  refine ⟨hranked.trans h.ranked, hmap ▸ h.rankmap, ?_, ?_, ?_, hrs ▸ h.limit, hrs ▸ h.option,
    hrs ▸ h.represents, h.stored⟩
  · intro t ht
    obtain ⟨hblack, hrank⟩ := h.tallied t ht
    exact ⟨hblack, (hkeep t.command hblack).trans hrank⟩
  · intro c r hc hr
    exact h.complete c r hc ((hkeep c hc).symm.trans hr)
  · intro t ht
    rw [List.length_append, List.length_singleton]
    exact Nat.lt_succ_of_lt (h.before t ht)

/-- A key limit made of whole slots. -/
structure WholeLimit (keyLimit : ℕ) : Prop where
  dvd : RADIX_SLOT_SIZE ∣ keyLimit
  pos : 0 < keyLimit

/-- Filing a pointer under its new rank, which is not the limit itself. -/
theorem radixsort_add_pointer {optionBigKeys : BigKeys} {keyLimit : ℕ} (hkl : WholeLimit keyLimit)
    (hopt : optionBigKeys ≠ .EXIT) {rs : RadixSorter ℕ} {rest : List (RadixItem ℕ)}
    (hrep : Represents rs rest) (hk : rs.keyLimit = keyLimit)
    (ho : rs.optionBigKeys = optionBigKeys) {p rank : ℕ} (hnew : p ∉ rest.map RadixItem.data)
    (hne : rank ≠ keyLimit) :
    ∃ rs', radixsort_add rs ⟨rank, p⟩ = .ok rs'
      ∧ Represents rs' (liveAdd optionBigKeys keyLimit ⟨rank, p⟩ rest)
      ∧ rs'.keyLimit = keyLimit ∧ rs'.optionBigKeys = optionBigKeys := by
  obtain ⟨rs', hadd, hrep', hk', ho'⟩ := hrep.radixsort_add_any (x := ⟨rank, p⟩) hnew
    (hk ▸ hkl.dvd) (hk ▸ hkl.pos) (ho ▸ hopt) (hk ▸ hne)
  rw [hk, ho] at hrep'
  exact ⟨rs', hadd, hrep', hk'.trans hk, ho'.trans ho⟩

/-- A command that the map does not have is not tallied, and has no rank. -/
theorem Ranks.of_get_none {sh : Shell} {f : RankingFunction} {optionBigKeys : BigKeys}
    {blacklist : HashSet CString} {keyLimit : ℕ} {processed : List HistEntry}
    {st : CreateState} {tally : List Tally} {live : List (RadixItem ℕ)}
    (h : Ranks sh f optionBigKeys blacklist keyLimit processed st tally live) {c : CString}
    (hget : hashset_get st.rankmap c = none) :
    (∀ (q : ℕ) (t : Tally), tally[q]? = some t → t.command ≠ c)
      ∧ (hashset_contains blacklist c = false → commandRank sh f keyLimit processed c = none) := by
  have hno : ∀ (q : ℕ) (t : Tally), tally[q]? = some t → t.command ≠ c := by
    intro q t ht hc
    have hsome := (h.rankmap _ q).mpr ⟨t, ht, hc⟩
    rw [hget] at hsome
    cases hsome
  refine ⟨hno, fun hblack => ?_⟩
  rw [Option.eq_none_iff_forall_not_mem]
  intro r hr
  obtain ⟨t, ht, hc⟩ := h.complete _ r hblack hr
  obtain ⟨q, hq⟩ := List.mem_iff_getElem?.mp ht
  exact hno q t hq hc

/-- A command that the map has is tallied under its pointer. -/
theorem Ranks.of_get_some {sh : Shell} {f : RankingFunction} {optionBigKeys : BigKeys}
    {blacklist : HashSet CString} {keyLimit : ℕ} {processed : List HistEntry}
    {st : CreateState} {tally : List Tally} {live : List (RadixItem ℕ)}
    (h : Ranks sh f optionBigKeys blacklist keyLimit processed st tally live) {c : CString} {p : ℕ}
    (hget : hashset_get st.rankmap c = some p) :
    ∃ t, tally[p]? = some t ∧ t.command = c
      ∧ commandRank sh f keyLimit processed c = some (t.rank, t.insertedAt)
      ∧ st.ranked[p]? = some ⟨c, t.rank⟩ := by
  obtain ⟨t, ht, htc⟩ := (h.rankmap _ p).mp hget
  have hrank := (h.tallied t (List.mem_of_getElem? ht)).2
  rw [htc] at hrank
  refine ⟨t, ht, htc, hrank, ?_⟩
  rw [h.ranked, List.getElem?_map, ht, ← htc]
  rfl

section Occurrence

/-! One occurrence of a command that is not blacklisted, whose new rank is not
the limit itself. -/

variable {sh : Shell} {f : RankingFunction} {optionBigKeys : BigKeys}
    {blacklist : HashSet CString} {keyLimit : ℕ} {processed : List HistEntry}
    {st : CreateState} {tally : List Tally} {live : List (RadixItem ℕ)}
    (h : Ranks sh f optionBigKeys blacklist keyLimit processed st tally live)
    (hkl : WholeLimit keyLimit) (hopt : optionBigKeys ≠ .EXIT) {entry : HistEntry}
    (hcmd : isCommand entry = true)
    (hblack : hashset_contains blacklist (decodeEntry sh entry) = false)
    (hlimit : ∀ r, commandRank sh f keyLimit (processed ++ [entry]) (decodeEntry sh entry) = some r →
      r.1 ≠ keyLimit)
include h hkl hopt hcmd hblack hlimit

/-- **The first occurrence** of a command: the next free pointer is filed. -/
theorem Ranks.rankLine_first
    (hget : hashset_get st.rankmap (decodeEntry sh entry) = none) :
    ∃ st' tally' live', rankLine f st processed.length (decodeEntry sh entry) = .ok st'
      ∧ Ranks sh f optionBigKeys blacklist keyLimit (processed ++ [entry]) st' tally' live' := by
  obtain ⟨hno, hprev⟩ := h.of_get_none hget
  have hnext := commandRank_concat_self sh f keyLimit processed hcmd
  rw [hprev hblack] at hnext
  have hlen : st.ranked.length = tally.length := by rw [h.ranked, List.length_map]
  have hnew : st.ranked.length ∉ live.map RadixItem.data := by
    intro hmem
    obtain ⟨x, hx, hxd⟩ := List.mem_map.mp hmem
    have := h.stored.data_lt hx
    omega
  obtain ⟨rs', hok, hrep, hk, ho⟩ :=
    radixsort_add_pointer hkl hopt h.represents h.limit h.option hnew (hlimit _ hnext)
  unfold History.rankLine
  simp only [hget, hok, ok_bind]
  refine ⟨_, tally ++ [⟨decodeEntry sh entry,
    f 0 processed.length (strlen (decodeEntry sh entry)), processed.length⟩],
    liveAdd optionBigKeys keyLimit ⟨f 0 processed.length (strlen (decodeEntry sh entry)),
      st.ranked.length⟩ live, rfl, ?_⟩
  refine h.update st.ranked.length hblack hnext ?_ ?_ ?_ ?_ ?_
    (List.Sublist.refl _) ?_ hk ho hrep
  · rw [hlen, List.getElem?_append_right (Nat.le_refl _), Nat.sub_self]
    rfl
  · intro q hq
    by_cases hlt : q < tally.length
    · rw [List.getElem?_append_left hlt]
    · have hlast : (tally ++ [(⟨decodeEntry sh entry,
          f 0 processed.length (strlen (decodeEntry sh entry)), processed.length⟩ : Tally)]).length
          ≤ q := by
        rw [List.length_append, List.length_singleton]
        omega
      rw [List.getElem?_eq_none hlast, List.getElem?_eq_none (by omega)]
  · intro q t ht
    have hlt := (List.getElem?_eq_some_iff.mp ht).1
    constructor
    · exact fun hc => absurd hc (hno q t ht)
    · intro hq
      omega
  · rw [h.ranked, List.map_append]
    rfl
  · intro d
    rw [hashset_get_put, hget, Option.getD_none]
  · intro x
    refine ⟨fun hx => ⟨hx, ?_⟩, fun hx => hx.1⟩
    have := h.stored.data_lt hx
    omega

/-- **Another occurrence** of a command whose rank is within the limit: the cut
finds its item under the rank the map remembers, and it is filed again. -/
theorem Ranks.rankLine_again {p : ℕ}
    (hget : hashset_get st.rankmap (decodeEntry sh entry) = some p)
    {t : Tally} (ht : tally[p]? = some t) (hwithin : ¬ t.rank > keyLimit) :
    ∃ st' tally' live', rankLine f st processed.length (decodeEntry sh entry) = .ok st'
      ∧ Ranks sh f optionBigKeys blacklist keyLimit (processed ++ [entry]) st' tally' live' := by
  obtain ⟨u, hu, htc, hprev, hitem⟩ := h.of_get_some hget
  obtain rfl := Option.some.inj (ht.symm.trans hu)
  have hnext := commandRank_concat_self sh f keyLimit processed hcmd
  rw [hprev] at hnext
  simp only [rankStep, if_neg hwithin] at hnext
  have hlive : (⟨t.rank, p⟩ : RadixItem ℕ) ∈ live := by
    refine (h.stored.mem _).mpr ⟨t, ht, ?_⟩
    unfold storedKey
    rw [if_neg hwithin]
  obtain ⟨rs1, hcut, hrep1, hk1, ho1⟩ := h.represents.radix_cut hlive
  have hnew : p ∉ (without live p).map RadixItem.data := by
    intro hmem
    obtain ⟨x, hx, hxd⟩ := List.mem_map.mp hmem
    simp [without, hxd] at hx
  obtain ⟨rs', hok, hrep, hk, ho⟩ := radixsort_add_pointer hkl hopt hrep1 (hk1.trans h.limit)
    (ho1.trans h.option) hnew (hlimit _ hnext)
  unfold History.rankLine
  simp only at hcut
  simp only [hget, hitem, hcut, ok_bind, hok]
  have hlt : p < tally.length := (List.getElem?_eq_some_iff.mp ht).1
  refine ⟨_, tally.set p ⟨decodeEntry sh entry,
    f t.rank processed.length (strlen (decodeEntry sh entry)), processed.length⟩,
    liveAdd optionBigKeys keyLimit
      ⟨f t.rank processed.length (strlen (decodeEntry sh entry)), p⟩ (without live p), rfl, ?_⟩
  refine h.update p hblack hnext ?_ ?_ ?_ ?_ ?_ List.filter_sublist ?_ hk ho hrep
  · exact List.getElem?_set_self hlt
  · intro q hq
    exact List.getElem?_set_ne (Ne.symm hq)
  · intro q v hv
    constructor
    · intro hc
      have hq := (h.rankmap _ q).mpr ⟨v, hv, hc⟩
      rw [hget] at hq
      exact (Option.some.inj hq).symm
    · rintro rfl
      rw [ht] at hv
      rw [← Option.some.inj hv, htc]
  · rw [h.ranked, List.map_set]
  · intro d
    by_cases hd : d = decodeEntry sh entry
    · rw [if_pos hd, hd, hget]
    · rw [if_neg hd]
  · intro x
    simp [without]

/-- **Ranking one occurrence** of a command that is not blacklisted, whose new
rank is not the limit itself. -/
theorem Ranks.rankLine :
    ∃ st' tally' live', rankLine f st processed.length (decodeEntry sh entry) = .ok st'
      ∧ Ranks sh f optionBigKeys blacklist keyLimit (processed ++ [entry]) st' tally' live' := by
  cases hget : hashset_get st.rankmap (decodeEntry sh entry) with
  | none => exact h.rankLine_first hkl hopt hcmd hblack hlimit hget
  | some p =>
      obtain ⟨t, ht, -, hprev, hitem⟩ := h.of_get_some hget
      by_cases hbig : t.rank > keyLimit
      · -- the rank went over the limit before: the cut misses
        have hlimit' : st.rs.keyLimit < t.rank := by rw [h.limit]; exact hbig
        have hcut := h.represents.radix_cut_of_gt hlimit' p
        unfold History.rankLine
        simp only [hget, hitem, hcut, ok_bind]
        refine ⟨_, tally, live, rfl, h.skip ?_ rfl rfl rfl⟩
        intro c _
        by_cases hc : c = decodeEntry sh entry
        · rw [hc, commandRank_concat_self sh f keyLimit processed hcmd, hprev]
          simp only [rankStep, if_pos hbig]
        · exact commandRank_concat_of_ne fun _ => Ne.symm hc
      · exact h.rankLine_again hkl hopt hcmd hblack hlimit hget ht hbig

end Occurrence

/-- One round of the indexing loop. -/
theorem Ranks.indexEntry {sh : Shell} {f : RankingFunction} {optionBigKeys : BigKeys}
    {blacklist : HashSet CString} {keyLimit : ℕ} {processed : List HistEntry}
    {st : CreateState} {tally : List Tally} {live : List (RadixItem ℕ)}
    (h : Ranks sh f optionBigKeys blacklist keyLimit processed st tally live)
    (hkl : WholeLimit keyLimit) (hopt : optionBigKeys ≠ .EXIT) (entry : HistEntry)
    (hlimit : ∀ c r, hashset_contains blacklist c = false →
      commandRank sh f keyLimit (processed ++ [entry]) c = some r → r.1 ≠ keyLimit) :
    ∃ st' tally' live', indexEntry sh f blacklist st processed.length entry = .ok st'
      ∧ Ranks sh f optionBigKeys blacklist keyLimit (processed ++ [entry]) st' tally' live' := by
  cases hcmd : isCommand entry with
  | false =>
      have hkeep : ∀ c, commandRank sh f keyLimit (processed ++ [entry]) c
          = commandRank sh f keyLimit processed c :=
        fun c => commandRank_concat_of_ne fun ht => absurd ht (by simp [hcmd])
      rcases indexEntry_not_command sh f blacklist st processed.length hcmd with ⟨-, hbody⟩ | ⟨-, hbody⟩
      · exact ⟨_, tally, live, hbody, h.skip (fun c _ => hkeep c) rfl rfl rfl⟩
      · exact ⟨_, tally, live, hbody, h.skip (fun c _ => hkeep c) rfl rfl rfl⟩
  | true =>
      obtain ⟨source, more, -, hbody⟩ := indexEntry_command sh f blacklist st processed.length hcmd
      simp only at hbody
      cases hblack : hashset_contains blacklist (decodeEntry sh entry) with
      | true =>
          -- a blacklisted command is shown by the raw view only
          rw [hblack, if_pos rfl] at hbody
          refine ⟨_, tally, live, hbody, h.skip (fun c hc => ?_) rfl rfl rfl⟩
          refine commandRank_concat_of_ne fun _ heq => ?_
          rw [← heq, hblack] at hc
          cases hc
      | false =>
          rw [hblack, if_neg Bool.false_ne_true] at hbody
          rw [hbody]
          have hst : Ranks sh f optionBigKeys blacklist keyLimit processed
              { st with
                rawHistory := .item ⟨source, decodeEntry sh entry⟩ :: st.rawHistory
                unmetafiedHistory := st.unmetafiedHistory ++ more } tally live :=
            ⟨h.ranked, h.rankmap, h.tallied, h.complete, h.before, h.limit, h.option,
              h.represents, h.stored⟩
          exact hst.rankLine hkl hopt hcmd hblack fun r hr => hlimit _ r hblack hr

/-- The whole indexing loop. -/
theorem Ranks.indexEntries {sh : Shell} {f : RankingFunction} {optionBigKeys : BigKeys}
    {blacklist : HashSet CString} {keyLimit : ℕ} {processed entries : List HistEntry}
    {st : CreateState} {tally : List Tally} {live : List (RadixItem ℕ)}
    (h : Ranks sh f optionBigKeys blacklist keyLimit processed st tally live)
    (hkl : WholeLimit keyLimit) (hopt : optionBigKeys ≠ .EXIT)
    (hlimit : ∀ c, hashset_contains blacklist c = false → ∀ pre, pre <+: processed ++ entries →
      ∀ r, commandRank sh f keyLimit pre c = some r → r.1 ≠ keyLimit) :
    ∃ st' tally' live', indexEntries sh f blacklist processed.length entries st = .ok st'
      ∧ Ranks sh f optionBigKeys blacklist keyLimit (processed ++ entries) st' tally' live' := by
  -- the index of an entry is the number of entries before it
  induction entries generalizing processed st tally live with
  | nil =>
      rw [List.append_nil]
      exact ⟨st, tally, live, rfl, h⟩
  | cons entry entries ih =>
      rw [List.append_cons] at hlimit ⊢
      have hpre : processed ++ [entry] <+: processed ++ [entry] ++ entries := List.prefix_append _ _
      obtain ⟨st1, tally1, live1, hstep, h1⟩ := h.indexEntry hkl hopt entry
        fun c r hc hr => hlimit c hc _ hpre r hr
      obtain ⟨st2, tally2, live2, hrun, h2⟩ := ih h1 hlimit
      rw [List.length_append, List.length_singleton] at hrun
      refine ⟨st2, tally2, live2, ?_, h2⟩
      rw [History.indexEntries, hstep, ok_bind, hrun]

theorem ranks_createState (sh : Shell) (f : RankingFunction) (optionBigKeys : BigKeys)
    (blacklist : HashSet CString) (keyLimit : ℕ) :
    Ranks sh f optionBigKeys blacklist keyLimit [] (createState keyLimit optionBigKeys) [] [] where
  ranked := rfl
  rankmap := by simp [createState]
  tallied := by simp
  complete := by simp [commandRank, occurrences]
  before := by simp
  limit := rfl
  option := rfl
  represents :=
    let h := represents_init (α := ℕ) keyLimit
    ⟨h.limit, h.size, h.nodup, h.inTable, h.maxKey, h.maxKeyInTable, h.table⟩
  stored := ⟨by simp, List.Pairwise.nil⟩

/-! ## The view -/

/-- The command of a pointer. -/
def commandAt (tally : List Tally) (p : ℕ) : CString := ((tally[p]?).map Tally.command).getD empty

/-- The loop over the dumped items writes a command for each. -/
theorem Ranks.items {sh : Shell} {f : RankingFunction} {optionBigKeys : BigKeys}
    {blacklist : HashSet CString} {keyLimit : ℕ} {entries : List HistEntry}
    {st : CreateState} {tally : List Tally} {live out : List (RadixItem ℕ)}
    (h : Ranks sh f optionBigKeys blacklist keyLimit entries st tally live)
    (hout : ByPriority live out) (hlen : out.length = st.rs.size) :
    (List.range st.rs.size).mapM (rankedItem st.ranked out)
      = .ok (out.map fun x => commandAt tally x.data) := by
  rw [mapM_eq_ok_iff, List.forall₂_iff_get]
  refine ⟨by rw [List.length_range, List.length_map, hlen], fun u hu hu' => ?_⟩
  rw [List.length_map] at hu'
  have hget : out[u]? = some out[u] := List.getElem?_eq_getElem hu'
  obtain ⟨t, ht, -⟩ := (h.stored.mem _).mp (hout.perm.mem_iff.mp (List.getElem_mem hu'))
  simp only [List.get_eq_getElem, List.getElem_range, List.getElem_map, rankedItem, hget,
    h.ranked, List.getElem?_map, ht, commandAt, Option.map_some, Option.getD_some]

/-- The key a command is stored under is the one it is ordered by. -/
theorem shownKey_of_storedKey {optionBigKeys : BigKeys} {keyLimit rank key : ℕ}
    (hk : storedKey optionBigKeys keyLimit rank = some key) : shownKey keyLimit rank = key := by
  unfold storedKey at hk
  unfold shownKey
  by_cases hbig : rank > keyLimit
  · rw [if_pos hbig] at hk ⊢
    cases optionBigKeys with
    | FLOOR => exact Option.some.inj hk
    | SKIP => cases hk
    | EXIT => cases hk
  · rw [if_neg hbig] at hk ⊢
    exact Option.some.inj hk

/-- Big keys are skipped, and all others are stored. -/
theorem exists_storedKey_iff {optionBigKeys : BigKeys} (hopt : optionBigKeys ≠ .EXIT)
    {keyLimit rank : ℕ} : (∃ key, storedKey optionBigKeys keyLimit rank = some key)
      ↔ ¬ (optionBigKeys = .SKIP ∧ rank > keyLimit) := by
  unfold storedKey
  by_cases hbig : rank > keyLimit
  · rw [if_pos hbig]
    cases optionBigKeys with
    | FLOOR => simp
    | SKIP => simp [hbig]
    | EXIT => exact absurd rfl hopt
  · rw [if_neg hbig]
    simp [hbig]

/-- **The items of the view**, read off the invariant at the end of the loop. -/
theorem Ranks.rankingView {sh : Shell} {f : RankingFunction} {optionBigKeys : BigKeys}
    {blacklist : HashSet CString} {keyLimit : ℕ} {entries : List HistEntry}
    {st : CreateState} {tally : List Tally} {live out : List (RadixItem ℕ)}
    (h : Ranks sh f optionBigKeys blacklist keyLimit entries st tally live)
    (hopt : optionBigKeys ≠ .EXIT) (hout : ByPriority live out) :
    RankingView sh f optionBigKeys blacklist keyLimit entries
      (out.map fun x => commandAt tally x.data) := by
  -- every dumped item is that of a tallied command
  have htally : ∀ x ∈ out, ∃ t, tally[x.data]? = some t ∧ t.command = commandAt tally x.data
      ∧ storedKey optionBigKeys keyLimit t.rank = some x.key := by
    intro x hx
    obtain ⟨t, ht, hk⟩ := (h.stored.mem x).mp (hout.perm.mem_iff.mp hx)
    exact ⟨t, ht, by simp [commandAt, ht], hk⟩
  refine ⟨?_, ?_, ?_⟩
  · have hnd : (out.map RadixItem.data).Nodup :=
      (hout.perm.map RadixItem.data).nodup_iff.mpr h.represents.nodup
    -- equal commands have equal pointers, and a pointer is dumped once
    rw [List.nodup_map_iff_inj_on (List.Nodup.of_map _ hnd)]
    intro x hx y hy hxy
    obtain ⟨t, ht, htc, -⟩ := htally x hx
    obtain ⟨u, hu, huc, -⟩ := htally y hy
    have hx' := (h.rankmap t.command x.data).mpr ⟨t, ht, rfl⟩
    have hy' := (h.rankmap t.command y.data).mpr ⟨u, hu, by rw [huc, ← hxy, ← htc]⟩
    rw [hx'] at hy'
    exact List.inj_on_of_nodup_map hnd hx hy (Option.some.inj hy')
  · intro c
    rw [List.mem_map]
    constructor
    · rintro ⟨x, hx, rfl⟩
      obtain ⟨t, ht, htc, hk⟩ := htally x hx
      obtain ⟨hblack, hrank⟩ := h.tallied t (List.mem_of_getElem? ht)
      rw [← htc]
      exact ⟨hblack, _, hrank, (exists_storedKey_iff hopt).mp ⟨_, hk⟩⟩
    · rintro ⟨hblack, r, hr, hstored⟩
      obtain ⟨t, ht, rfl⟩ := h.complete c r hblack hr
      obtain ⟨p, hp⟩ := List.mem_iff_getElem?.mp ht
      rw [(h.tallied t ht).2, Option.some.injEq] at hr
      subst hr
      obtain ⟨key, hk⟩ := (exists_storedKey_iff hopt).mpr hstored
      have hlive := (h.stored.mem ⟨key, p⟩).mpr ⟨t, hp, hk⟩
      exact ⟨⟨key, p⟩, hout.perm.mem_iff.mpr hlive, by simp [commandAt, hp]⟩
  · rw [List.pairwise_map]
    -- equal keys come most recent first, which is the later last occurrence
    refine (hout.pairwise h.stored.recent).imp_of_mem fun {x y} hx hy hxy r s hr hs => ?_
    obtain ⟨t, ht, htc, htk⟩ := htally x hx
    obtain ⟨u, hu, huc, huk⟩ := htally y hy
    rw [← htc, (h.tallied t (List.mem_of_getElem? ht)).2, Option.some.injEq] at hr
    rw [← huc, (h.tallied u (List.mem_of_getElem? hu)).2, Option.some.injEq] at hs
    subst hr
    subst hs
    rw [shownKey_of_storedKey htk, shownKey_of_storedKey huk]
    rcases hxy with hlt | ⟨heq, hrecent⟩
    · exact Or.inl hlt
    · exact Or.inr ⟨heq, hrecent t u ht hu⟩

/-- Where the product does not overflow, the key limit is made of whole
slots. -/
theorem wholeLimit_keyLimitOf {historyState : HistoryState}
    (hsize : historyState.size * 1000 < 2 ^ 31) : WholeLimit (keyLimitOf historyState) := by
  have hmod : historyState.size * 1000 % 2 ^ 32 = historyState.size * 1000 :=
    Nat.mod_eq_of_lt (by omega)
  unfold keyLimitOf
  simp only [hmod]
  refine ⟨?_, ?_⟩
  · split
    · exact ⟨100, rfl⟩
    · exact Dvd.intro_left _ rfl
  · split
    · decide
    · omega

/-- **The ranking view.** For any history list of non-empty lines, any blacklist
and any ranking function, `prioritized_history_create` does not fault, and shows
every command that is not blacklisted once, ordered by its rank, unless the rank
went over the limit and such ranks are skipped. -/
theorem prioritized_history_ranking_view (sh : Shell) (f : RankingFunction)
    (optionBigKeys : BigKeys) (hopt : optionBigKeys ≠ .EXIT) (blacklist : HashSet CString)
    (historyState : HistoryState)
    (hne : ∀ e ∈ historyState.entries, ∃ l, e.line = some l ∧ strlen l ≠ 0)
    (hsize : historyState.size * 1000 < 2 ^ 31)
    (hlimit : ∀ c, hashset_contains blacklist c = false → ∀ pre, pre <+: historyState.entries →
      ∀ r, commandRank sh f (keyLimitOf historyState) pre c = some r →
        r.1 ≠ keyLimitOf historyState) :
    ∃ result, prioritized_history_create sh f optionBigKeys blacklist (some historyState)
        = .ok result
      ∧ (result = none ↔ historyState.entries = [])
      ∧ ∀ history ∈ result, RankingView sh f optionBigKeys blacklist (keyLimitOf historyState)
        historyState.entries history.items := by
  unfold prioritized_history_create
  by_cases hlen : historyState.entries.length > 0
  · have hnil : historyState.entries ≠ [] := List.length_pos_iff.mp hlen
    obtain ⟨st, tally, live, hrun, hranks⟩ :=
      (ranks_createState sh f optionBigKeys blacklist (keyLimitOf historyState)).indexEntries
        (wholeLimit_keyLimitOf hsize) hopt hlimit
    have hindexed :=
      (indexed_createState sh (keyLimitOf historyState) optionBigKeys).indexEntries hrun
    rw [List.nil_append] at hranks hindexed
    obtain ⟨rawHistory, rawItems, hraw, hitems, -, -⟩ := hindexed.rawItems hne
    obtain ⟨out, hdump, hout, hprio⟩ := hranks.represents.radixsort_dump
    simp only [List.length_nil] at hrun
    simp only [if_pos hlen, hrun, ok_bind, hraw, hdump, hitems, hranks.items hprio hout]
    refine ⟨_, rfl, by simp [hnil], fun history hmem => ?_⟩
    obtain rfl := Option.some.inj hmem
    exact hranks.rankingView hopt hprio
  · have hnil : historyState.entries = [] := by
      rw [← List.length_eq_zero_iff]
      omega
    simp only [if_neg hlen]
    exact ⟨none, rfl, by simp [hnil], by simp⟩

/-- A list with a repeated command, a timestamp, and a rank over the limit. -/
def repeatedHistory : HistoryState where
  entries := [⟨0, some (lit "ls")⟩, ⟨1, some (lit "#1420549651")⟩, ⟨2, some (lit "cd")⟩,
    ⟨3, some (lit "ls")⟩]
  size := 4
  distinct := by decide

/-- The view of this list under ranks that grow with the index, so that the
second `ls` goes over the limit of 100000 and is filed under the last key. -/
theorem prioritized_history_ranking_view_floor :
    ∃ result, prioritized_history_create bash
        (fun rank i length => 2 * (rank + 40000 * i + length) + 1) .FLOOR hashset_init
        (some repeatedHistory) = .ok result
      ∧ (result = none ↔ repeatedHistory.entries = [])
      ∧ ∀ history ∈ result, RankingView bash
        (fun rank i length => 2 * (rank + 40000 * i + length) + 1) .FLOOR hashset_init
        (keyLimitOf repeatedHistory) repeatedHistory.entries history.items := by
  refine prioritized_history_ranking_view bash
    (fun rank i length => 2 * (rank + 40000 * i + length) + 1) .FLOOR (by decide) hashset_init
    repeatedHistory ?_ (by decide) ?_
  · intro e he
    simp only [repeatedHistory, List.mem_cons, List.not_mem_nil, or_false] at he
    rcases he with rfl | rfl | rfl | rfl <;> exact ⟨_, rfl, by decide⟩
  · -- the ranks are odd and the limit is not
    intro c _ pre _ r hr
    obtain ⟨rank, i, hrank⟩ := commandRank_eq_some hr
    have hlimit : keyLimitOf repeatedHistory = 100000 := by decide
    rw [hlimit, hrank]
    omega

end Hstr.Ranking
