/-
`src/hstr_history.c`: the raw view, for any history list.

The indexing loop has two halves that do not touch each other: it ranks the
commands, and it fills the array of the raw view. This file is about the second
one. The array is filled from its end with an offset that also moves over
entries without a line, which leaves a slot that nothing writes, while the count
of the view leaves out the timestamps only.
-/
import Hstr.Coherence

set_option autoImplicit false

namespace Hstr.RawView

open Lib.Results Hstr.Strings Hstr.Hashset Hstr.Radixsort Hstr.Utils Hstr.History Hstr.Coherence

/-! ## The half of the loop that fills the array -/

/-- The variables of the loop that the raw view is made from. -/
structure RawState where
  rawHistory : List RawSlot
  rawTimestamps : ℕ
  unmetafiedHistory : List CString

def rawState (st : CreateState) : RawState where
  rawHistory := st.rawHistory
  rawTimestamps := st.rawTimestamps
  unmetafiedHistory := st.unmetafiedHistory

/-- The loop body, without the ranking. -/
def rawEntry (sh : Shell) (st : RawState) (entry : HistEntry) : RawState :=
  match entry.line with
  | none => { st with rawHistory := .uninitialised :: st.rawHistory }
  | some l =>
      if strlen l = 0 then { st with rawHistory := .uninitialised :: st.rawHistory }
      else if is_hist_timestamp l then
        { st with
          rawHistory := .null :: st.rawHistory
          rawTimestamps := st.rawTimestamps + 1 }
      else
        let line := parse_history_line sh.isZsh l
        if isMetafied sh.isZsh line then
          let unmetafied := zsh_unmetafy (sh.beyond entry.id) line
          { st with
            rawHistory := .item ⟨.copy st.unmetafiedHistory.length, unmetafied⟩ :: st.rawHistory
            unmetafiedHistory := st.unmetafiedHistory ++ [unmetafied] }
        else { st with rawHistory := .item ⟨.line entry.id, line⟩ :: st.rawHistory }

/-- The array after the loop. -/
def rawEntries (sh : Shell) (entries : List HistEntry) : RawState :=
  entries.foldl (rawEntry sh) ⟨[], 0, []⟩

/-- `rawCount`. -/
def rawCount (sh : Shell) (entries : List HistEntry) : ℕ :=
  entries.length - (rawEntries sh entries).rawTimestamps

/-- `rawItems[0..rawCount)`: the array is compacted, and its first slots are used as
strings. -/
def rawView (sh : Shell) (entries : List HistEntry) : Except Fault (List RawItem) := do
  let rawHistory ← compactRaw (rawEntries sh entries).rawTimestamps
    (rawEntries sh entries).rawHistory
  (rawHistory.take (rawCount sh entries)).mapM rawItem

/-- Where the ranking does not fail, the loop body fills the array like this. -/
theorem rawState_indexEntry {sh : Shell} {f : RankingFunction} {blacklist : HashSet CString}
    {st st' : CreateState} {i : ℕ} {entry : HistEntry}
    (h : indexEntry sh f blacklist st i entry = .ok st') :
    rawState st' = rawEntry sh (rawState st) entry := by
  have hranked : ∀ {st1 : CreateState} {line : CString},
      (if hashset_contains blacklist line then .ok st1 else rankLine f st1 i line) = .ok st' →
      rawState st' = rawState st1 := by
    intro st1 line h
    split at h
    · rw [Except.ok.inj h]
    · obtain ⟨h1, h2, h3, -⟩ := rankLine_spec h
      simp only [rawState, h1, h2, h3]
  unfold indexEntry at h
  unfold rawEntry
  cases hline : entry.line with
  | none =>
      simp only [hline] at h
      obtain rfl := Except.ok.inj h
      rfl
  | some l =>
      simp only [hline] at h ⊢
      by_cases hlen : strlen l = 0
      · simp only [hlen, if_true] at h ⊢
        obtain rfl := Except.ok.inj h
        rfl
      by_cases hts : is_hist_timestamp l = true
      · simp only [hlen, hts, if_true, if_false] at h ⊢
        obtain rfl := Except.ok.inj h
        rfl
      simp only [hlen, hts, if_false, Bool.false_eq_true] at h ⊢
      -- a command, which is ranked after its slot is written
      by_cases hmeta : isMetafied sh.isZsh (parse_history_line sh.isZsh l) = true
      · simp only [hmeta, if_true] at h ⊢
        exact hranked h
      · simp only [hmeta, if_false, Bool.false_eq_true] at h ⊢
        exact hranked h

theorem rawState_indexEntries {sh : Shell} {f : RankingFunction} {blacklist : HashSet CString}
    {st st' : CreateState} {i : ℕ} {entries : List HistEntry}
    (h : indexEntries sh f blacklist i entries st = .ok st') :
    rawState st' = entries.foldl (rawEntry sh) (rawState st) := by
  induction entries generalizing i st with
  | nil => rw [Except.ok.inj h, List.foldl_nil]
  | cons entry entries ih =>
      rw [indexEntries, bind_eq_ok] at h
      obtain ⟨st1, hstep, hrun⟩ := h
      rw [List.foldl_cons, ← rawState_indexEntry hstep]
      exact ih hrun

/-- **The raw view of `prioritized_history_create`** is this half of it. -/
theorem rawView_of_create {sh : Shell} {f : RankingFunction} {optionBigKeys : BigKeys}
    {blacklist : HashSet CString} {historyState : HistoryState} {history : HistoryItems}
    (h : prioritized_history_create sh f optionBigKeys blacklist (some historyState)
      = .ok (some history)) :
    rawView sh historyState.entries = .ok history.rawItems := by
  simp only [prioritized_history_create] at h
  split at h
  · simp only [bind_eq_ok, pure_eq_ok] at h
    obtain ⟨st, hst, rawHistory, hraw, out, -, rawItems, hitems, items, -, hres⟩ := h
    obtain rfl := Option.some.inj hres
    have hstate : rawState st = rawEntries sh historyState.entries := rawState_indexEntries hst
    simp only [rawView, rawCount, ← hstate, bind_eq_ok]
    exact ⟨rawHistory, hraw, hitems⟩
  · cases h

/-! ## Slots that are written and slots that are not -/

/-- An entry that the loop skips: `NULL` or an empty line. -/
def isSkipped (entry : HistEntry) : Bool := (entry.line.map fun l => decide (strlen l = 0)).getD true

theorem isSkipped_eq_false_iff {entry : HistEntry} :
    isSkipped entry = false ↔ ∃ l, entry.line = some l ∧ strlen l ≠ 0 := by
  unfold isSkipped
  cases entry.line with
  | none => simp
  | some l => simp

theorem strlen_of_is_hist_timestamp {l : CString} (h : is_hist_timestamp l = true) :
    strlen l ≠ 0 := by
  intro h0
  rw [strlen, List.length_eq_zero_iff] at h0
  simp [is_hist_timestamp, h0] at h

/-- The slot of one entry, and the copy that may be made for it. -/
theorem rawEntry_spec (sh : Shell) (st : RawState) (entry : HistEntry) :
    ∃ slot more, (rawEntry sh st entry).rawHistory = slot :: st.rawHistory
      ∧ (rawEntry sh st entry).unmetafiedHistory = st.unmetafiedHistory ++ more
      ∧ SlotOf sh (st.unmetafiedHistory ++ more) slot entry
      ∧ (rawEntry sh st entry).rawTimestamps
        = st.rawTimestamps + (if slot matches .null then 1 else 0) := by
  unfold rawEntry
  cases hline : entry.line with
  | none => exact ⟨.uninitialised, [], rfl, (List.append_nil _).symm, by simp [SlotOf, hline], rfl⟩
  | some l =>
      by_cases hlen : strlen l = 0
      · simp only [hlen, if_true]
        exact ⟨.uninitialised, [], rfl, (List.append_nil _).symm, by simp [SlotOf, hline, hlen], rfl⟩
      by_cases hts : is_hist_timestamp l = true
      · simp only [hlen, hts, if_true, if_false]
        exact ⟨.null, [], rfl, (List.append_nil _).symm, ⟨l, hline, hts⟩, rfl⟩
      have hcmd : isCommand entry = true := by simp [isCommand, hline, hlen, hts]
      simp only [hlen, hts, if_false, Bool.false_eq_true]
      by_cases hmeta : isMetafied sh.isZsh (parse_history_line sh.isZsh l) = true
      · simp only [hmeta, if_true]
        refine ⟨_, _, rfl, rfl, ⟨hcmd, ?_, ?_⟩, rfl⟩
        · simp [decodeEntry, hline, decode, hmeta]
        · simp
      · simp only [hmeta, if_false, Bool.false_eq_true]
        refine ⟨_, [], rfl, (List.append_nil _).symm, ⟨hcmd, ?_, rfl⟩, rfl⟩
        simp [decodeEntry, hline, decode, hmeta]

/-- The loop fills a slot for each entry, the newest first, and counts the
timestamps. -/
theorem slots_rawEntries (sh : Shell) (entries : List HistEntry) :
    List.Forall₂ (SlotOf sh (rawEntries sh entries).unmetafiedHistory)
        (rawEntries sh entries).rawHistory entries.reverse
      ∧ (rawEntries sh entries).rawTimestamps
        = (rawEntries sh entries).rawHistory.countP (fun slot => slot matches .null) := by
  induction entries using List.reverseRecOn with
  | nil => exact ⟨List.Forall₂.nil, rfl⟩
  | append_singleton entries entry ih =>
      obtain ⟨hslots, hts⟩ := ih
      obtain ⟨slot, more, hraw, hcopies, hslot, hcount⟩ :=
        rawEntry_spec sh (rawEntries sh entries) entry
      have hstep : rawEntries sh (entries ++ [entry]) = rawEntry sh (rawEntries sh entries) entry := by
        rw [rawEntries, List.foldl_append]
        rfl
      rw [hstep, hraw, hcopies, hcount, hts, List.reverse_append, List.countP_cons]
      exact ⟨List.Forall₂.cons hslot (hslots.imp fun _ _ hs => hs.mono), rfl⟩

/-! ## The count of the view -/

/-- Every entry is a command, a timestamp or skipped. -/
theorem length_of_slots {sh : Shell} {copies : List CString} {slots : List RawSlot}
    {entries : List HistEntry} (h : List.Forall₂ (SlotOf sh copies) slots entries) :
    entries.length = (commandEntries entries).length
      + slots.countP (fun slot => slot matches .null) + entries.countP isSkipped := by
  induction h with
  | nil => rfl
  | @cons slot entry slots entries hslot _ ih =>
      rw [commandEntries] at ih ⊢
      simp only [List.length_cons, List.countP_cons, List.filter_cons]
      cases slot with
      | uninitialised =>
          have hskip : isSkipped entry = true := by
            rw [← Bool.not_eq_false, isSkipped_eq_false_iff]
            rintro ⟨l, hl, hlen⟩
            exact hlen (hslot l hl)
          have hcmd : isCommand entry = false := by
            unfold isCommand
            split
            · rfl
            · next l hl => simp [hslot l hl]
          simp only [hskip, hcmd, Bool.false_eq_true, if_true, if_false]
          omega
      | null =>
          obtain ⟨l, hl, hts⟩ := hslot
          have hskip : isSkipped entry = false :=
            isSkipped_eq_false_iff.mpr ⟨l, hl, strlen_of_is_hist_timestamp hts⟩
          have hcmd : isCommand entry = false := by simp [isCommand, hl, hts]
          simp only [hskip, hcmd, Bool.false_eq_true, if_true, if_false]
          omega
      | item r =>
          have hcmd := hslot.1
          have hskip : isSkipped entry = false := by
            unfold isCommand at hcmd
            split at hcmd
            · cases hcmd
            · next l hl =>
                rw [Bool.and_eq_true, decide_eq_true_eq] at hcmd
                exact isSkipped_eq_false_iff.mpr ⟨l, hl, hcmd.1⟩
          simp only [hskip, hcmd, Bool.false_eq_true, if_true, if_false, List.length_cons]
          omega

/-- **`rawCount` also counts the entries that were skipped.** -/
theorem rawCount_eq (sh : Shell) (entries : List HistEntry) :
    rawCount sh entries = (commandEntries entries).length + entries.countP isSkipped := by
  obtain ⟨hslots, hts⟩ := slots_rawEntries sh entries
  have hlength := length_of_slots hslots
  rw [← hts, List.length_reverse, List.countP_reverse, commandEntries, List.filter_reverse,
    List.length_reverse, ← commandEntries] at hlength
  unfold rawCount
  omega

/-- The compacting loop never moves a slot to its right. -/
theorem length_of_movedSlots {slots moved : List RawSlot} (h : movedSlots slots = .ok moved) :
    moved.length ≤ slots.length := by
  induction slots generalizing moved with
  | nil =>
      obtain rfl := Except.ok.inj h
      exact Nat.le_refl _
  | cons slot slots ih =>
      cases slot with
      | uninitialised => cases h
      | null => exact (ih h).trans (Nat.le_succ _)
      | item r =>
          simp only [movedSlots, bind_eq_ok, pure_eq_ok] at h
          obtain ⟨rest, hrest, rfl⟩ := h
          exact Nat.succ_le_succ (ih hrest)

/-- The view has as many items as it counts. -/
theorem length_of_rawView {sh : Shell} {entries : List HistEntry} {rawItems : List RawItem}
    (h : rawView sh entries = .ok rawItems) : rawItems.length = rawCount sh entries := by
  simp only [rawView, bind_eq_ok, mapM_eq_ok_iff] at h
  obtain ⟨compacted, hcompact, hitems⟩ := h
  have hslots := (slots_rawEntries sh entries).1.length_eq
  rw [List.length_reverse] at hslots
  have hlength : compacted.length = entries.length := by
    rw [← hslots]
    unfold compactRaw at hcompact
    split at hcompact
    · simp only [bind_eq_ok, pure_eq_ok] at hcompact
      obtain ⟨moved, hmoved, rfl⟩ := hcompact
      have := length_of_movedSlots hmoved
      rw [List.length_append, List.length_drop]
      omega
    · rw [Except.ok.inj hcompact]
  have hle : rawCount sh entries ≤ entries.length := Nat.sub_le _ _
  rw [← hitems.length_eq, List.length_take, hlength]
  omega

/-- **When the raw view is complete**: where no entry of the list is `NULL` or an
empty line. Else already its count is not that of the commands. -/
theorem raw_view_complete_iff (sh : Shell) (entries : List HistEntry) :
    ((∃ rawItems, rawView sh entries = .ok rawItems
        ∧ rawItems.map RawItem.text = (commandEntries entries).reverse.map (decodeEntry sh))
      ↔ ∀ e ∈ entries, ∃ l, e.line = some l ∧ strlen l ≠ 0)
    ∧ (rawCount sh entries = (commandEntries entries).length
      ↔ ∀ e ∈ entries, ∃ l, e.line = some l ∧ strlen l ≠ 0)
    ∧ ∀ f optionBigKeys blacklist historyState history, historyState.entries = entries →
      prioritized_history_create sh f optionBigKeys blacklist (some historyState)
          = .ok (some history) →
      rawView sh entries = .ok history.rawItems := by
  have hcount : rawCount sh entries = (commandEntries entries).length
      ↔ ∀ e ∈ entries, ∃ l, e.line = some l ∧ strlen l ≠ 0 := by
    have hzero : entries.countP isSkipped = 0
        ↔ ∀ e ∈ entries, ∃ l, e.line = some l ∧ strlen l ≠ 0 := by
      rw [List.countP_eq_zero]
      refine forall₂_congr fun e _ => ?_
      rw [Bool.not_eq_true, isSkipped_eq_false_iff]
    rw [← hzero, rawCount_eq]
    omega
  refine ⟨⟨?_, fun hne => ?_⟩, hcount, ?_⟩
  · -- the view would be longer than the list of the commands
    rintro ⟨rawItems, hview, htexts⟩
    rw [← hcount, ← length_of_rawView hview]
    have hlength := congrArg List.length htexts
    rwa [List.length_map, List.length_map, List.length_reverse] at hlength
  · obtain ⟨hslots, hts⟩ := slots_rawEntries sh entries
    obtain ⟨compacted, rawItems, hcompact, hitems, hpts, -⟩ := rawItems_of_slots hslots hts hne
    refine ⟨rawItems, ?_, map_text_of_pointsTo hpts⟩
    rw [rawView, hcompact, ok_bind]
    exact hitems
  · rintro f optionBigKeys blacklist historyState history rfl hcreate
    exact rawView_of_create hcreate

/-- An empty line in front of a command: the slot behind the command's is used and
was never written. -/
theorem raw_view_with_empty_line :
    (rawEntries bash [⟨0, some empty⟩, ⟨1, some (lit "ls")⟩]).rawHistory
        = [.item ⟨.line 1, lit "ls"⟩, .uninitialised]
      ∧ rawCount bash [⟨0, some empty⟩, ⟨1, some (lit "ls")⟩] = 2
      ∧ rawView bash [⟨0, some empty⟩, ⟨1, some (lit "ls")⟩]
        = .error .uninitialised
      ∧ prioritized_history_create bash
          (fun rank index length => rank + index + length) .SKIP hashset_init
          (some ⟨[⟨0, some empty⟩, ⟨1, some (lit "ls")⟩], 2, by decide⟩)
        = .error .uninitialised :=
  ⟨rfl, rfl, rfl, rfl⟩

end Hstr.RawView
