/-
The raw view, the ranking view and the history list stay in step.

The three are pruned by three comparisons: `strcmp` on the raw view, `strcmp` on
the ranking view, and on the list a comparison that parses and unmetafies the
line again, removes a timestamp along with its command, and closes the gap while
it walks the list backwards. What ties them together is one relation,
`PointsTo`, between an item of the raw view and the entry it was made from.

A zsh line is decoded in one copy when the views are made, and in another one
whenever something is deleted. The two agree where the decoder stays in the line
(`Closed`); a line that it gets past is read with what lies behind each copy.
-/
import Hstr.Lib.Results
import Hstr.Metafied
import Hstr.RemovalLoop

set_option autoImplicit false

namespace Hstr.Coherence

open Lib.Prune Lib.Runs Lib.Results Hstr.Strings Hstr.Hashset Hstr.Radixsort Hstr.Utils
open Hstr.History Hstr.Metafied Hstr.Removal

/-! ## What the indexing loop leaves in the raw view -/

/-- What a slot of the raw view says about its entry. -/
def SlotOf (sh : Shell) (copies : List CString) (slot : RawSlot) (entry : HistEntry) : Prop :=
  match slot with
  | .uninitialised => ∀ l, entry.line = some l → strlen l = 0
  | .null => ∃ l, entry.line = some l ∧ is_hist_timestamp l = true
  | .item r => isCommand entry = true ∧ PointsTo sh copies r entry

theorem SlotOf.mono {sh : Shell} {copies more : List CString} {slot : RawSlot} {entry : HistEntry}
    (h : SlotOf sh copies slot entry) : SlotOf sh (copies ++ more) slot entry := by
  cases slot with
  | uninitialised => exact h
  | null => exact h
  | item r => exact ⟨h.1, h.2.mono⟩

/-- The loop's variables after the entries `done`: a slot for each entry, the
newest first, and no ranked command that is not in the raw view. -/
structure Indexed (sh : Shell) (st : CreateState) (done : List HistEntry) : Prop where
  slots : List.Forall₂ (SlotOf sh st.unmetafiedHistory) st.rawHistory done.reverse
  timestamps : st.rawTimestamps = st.rawHistory.countP (fun slot => slot matches .null)
  ranked : ∀ x ∈ st.ranked, ∃ r, RawSlot.item r ∈ st.rawHistory ∧ r.text = x.item

theorem indexed_createState (sh : Shell) (keyLimit : ℕ) (optionBigKeys : BigKeys) :
    Indexed sh (createState keyLimit optionBigKeys) [] where
  slots := List.Forall₂.nil
  timestamps := rfl
  ranked := by simp [createState]

/-- Ranking an occurrence leaves the raw view alone, and the command is the only
one that can be new among the ranked. -/
theorem rankLine_spec {f : RankingFunction} {st st' : CreateState} {i : ℕ} {line : CString}
    (h : rankLine f st i line = .ok st') :
    st'.rawHistory = st.rawHistory ∧ st'.rawTimestamps = st.rawTimestamps
    ∧ st'.unmetafiedHistory = st.unmetafiedHistory
    ∧ ∀ x ∈ st'.ranked, x.item = line ∨ ∃ y ∈ st.ranked, y.item = x.item := by
  unfold rankLine at h
  split at h
  · simp only [bind_eq_ok, pure_eq_ok] at h
    obtain ⟨rs, -, rfl⟩ := h
    refine ⟨rfl, rfl, rfl, fun x hx => ?_⟩
    rcases List.mem_append.mp hx with hx | hx
    · exact Or.inr ⟨x, hx, rfl⟩
    · exact Or.inl (by rw [List.mem_singleton.mp hx])
  · split at h
    · cases h
    · next item hitem =>
        simp only [bind_eq_ok] at h
        obtain ⟨⟨radixItem, rs⟩, -, h⟩ := h
        cases radixItem with
        | none =>
            rw [pure_eq_ok] at h
            subst h
            exact ⟨rfl, rfl, rfl, fun x hx => Or.inr ⟨x, hx, rfl⟩⟩
        | some radixItem =>
            simp only [bind_eq_ok, pure_eq_ok] at h
            obtain ⟨rs', -, rfl⟩ := h
            refine ⟨rfl, rfl, rfl, fun x hx => Or.inr ?_⟩
            rcases List.mem_or_eq_of_mem_set hx with hx | rfl
            · exact ⟨x, hx, rfl⟩
            · exact ⟨item, List.mem_of_getElem? hitem, rfl⟩

/-- The slot that the loop body writes, with the copy it may have made. -/
theorem indexEntry_spec {sh : Shell} {f : RankingFunction} {blacklist : HashSet CString}
    {st st' : CreateState} {i : ℕ} {entry : HistEntry}
    (h : indexEntry sh f blacklist st i entry = .ok st') :
    ∃ slot more, st'.rawHistory = slot :: st.rawHistory
      ∧ st'.unmetafiedHistory = st.unmetafiedHistory ++ more
      ∧ SlotOf sh st'.unmetafiedHistory slot entry
      ∧ st'.rawTimestamps = st.rawTimestamps + (if slot matches .null then 1 else 0)
      ∧ ∀ x ∈ st'.ranked, (∃ r, slot = .item r ∧ r.text = x.item)
          ∨ ∃ y ∈ st.ranked, y.item = x.item := by
  cases hcmd : isCommand entry with
  | false =>
      rcases indexEntry_not_command sh f blacklist st i hcmd with ⟨hslot, hbody⟩ | ⟨hslot, hbody⟩
      · obtain rfl := Except.ok.inj (hbody.symm.trans h)
        exact ⟨.uninitialised, [], rfl, (List.append_nil _).symm, hslot, rfl,
          fun x hx => Or.inr ⟨x, hx, rfl⟩⟩
      · obtain rfl := Except.ok.inj (hbody.symm.trans h)
        exact ⟨.null, [], rfl, (List.append_nil _).symm, hslot, rfl,
          fun x hx => Or.inr ⟨x, hx, rfl⟩⟩
  | true =>
      obtain ⟨source, more, hpt, hbody⟩ := indexEntry_command sh f blacklist st i hcmd
      rw [hbody] at h
      refine ⟨.item ⟨source, decodeEntry sh entry⟩, more, ?_⟩
      split at h
      · obtain rfl := Except.ok.inj h
        exact ⟨rfl, rfl, ⟨hcmd, hpt⟩, rfl, fun x hx => Or.inr ⟨x, hx, rfl⟩⟩
      · obtain ⟨h1, h2, h3, h4⟩ := rankLine_spec h
        refine ⟨h1, h3, ⟨hcmd, by rw [h3]; exact hpt⟩, h2, fun x hx => ?_⟩
        rcases h4 x hx with hx | hx
        · exact Or.inl ⟨_, rfl, hx.symm⟩
        · exact Or.inr hx

/-- One round of the loop. -/
theorem Indexed.indexEntry {sh : Shell} {f : RankingFunction} {blacklist : HashSet CString}
    {st st' : CreateState} {i : ℕ} {entry : HistEntry} {processed : List HistEntry}
    (h : Indexed sh st processed)
    (hstep : indexEntry sh f blacklist st i entry = .ok st') :
    Indexed sh st' (processed ++ [entry]) := by
  obtain ⟨slot, more, hraw, hcopies, hslot, hts, hranked⟩ := indexEntry_spec hstep
  refine ⟨?_, ?_, ?_⟩
  · rw [hraw, List.reverse_append]
    refine List.Forall₂.cons hslot (h.slots.imp fun slot entry hs => ?_)
    rw [hcopies]
    exact hs.mono
  · rw [hraw, hts, h.timestamps, List.countP_cons]
  · intro x hx
    rw [hraw]
    rcases hranked x hx with ⟨r, rfl, hr⟩ | ⟨y, hy, hyx⟩
    · exact ⟨r, List.mem_cons_self, hr⟩
    · obtain ⟨r, hr, hry⟩ := h.ranked y hy
      exact ⟨r, List.mem_cons_of_mem _ hr, hry.trans hyx⟩

/-- The whole loop. -/
theorem Indexed.indexEntries {sh : Shell} {f : RankingFunction} {blacklist : HashSet CString}
    {st st' : CreateState} {i : ℕ} {entries processed : List HistEntry}
    (h : Indexed sh st processed)
    (hrun : indexEntries sh f blacklist i entries st = .ok st') :
    Indexed sh st' (processed ++ entries) := by
  induction entries generalizing i st processed with
  | nil =>
      obtain rfl := Except.ok.inj hrun
      rwa [List.append_nil]
  | cons entry entries ih =>
      rw [History.indexEntries, bind_eq_ok] at hrun
      obtain ⟨st1, hstep, hrun⟩ := hrun
      rw [List.append_cons]
      exact ih (h.indexEntry hstep) hrun

/-- Where no line is empty, the loop that closes the slots of timestamps moves
exactly the items of the commands, and there is nothing to close where there are
no timestamps. -/
theorem movedSlots_spec {sh : Shell} {copies : List CString} {slots : List RawSlot}
    {entries : List HistEntry} (h : List.Forall₂ (SlotOf sh copies) slots entries)
    (hne : ∀ e ∈ entries, ∃ l, e.line = some l ∧ strlen l ≠ 0) :
    ∃ rawItems, movedSlots slots = .ok (rawItems.map RawSlot.item)
      ∧ List.Forall₂ (PointsTo sh copies) rawItems (commandEntries entries)
      ∧ rawItems.length + slots.countP (fun slot => slot matches .null) = entries.length
      ∧ (slots.countP (fun slot => slot matches .null) = 0 → slots = rawItems.map RawSlot.item)
      ∧ ∀ r, RawSlot.item r ∈ slots → r ∈ rawItems := by
  induction h with
  | nil => exact ⟨[], rfl, List.Forall₂.nil, rfl, fun _ => rfl, by simp⟩
  | @cons slot entry slots entries hslot _ ih =>
      obtain ⟨rawItems, hmoved, hpts, hlen, hnone, hmem⟩ :=
        ih fun e he => hne e (List.mem_cons_of_mem _ he)
      obtain ⟨l, hl, hl0⟩ := hne entry List.mem_cons_self
      cases slot with
      | uninitialised => exact absurd (hslot l hl) hl0
      | null =>
          obtain ⟨l', hl', hts⟩ := hslot
          have hcmd : isCommand entry = false := by simp [isCommand, hl', hts]
          refine ⟨rawItems, hmoved, ?_, ?_, ?_, ?_⟩
          · rwa [commandEntries, List.filter_cons_of_neg (by simp [hcmd]), ← commandEntries]
          · simp only [List.countP_cons, List.length_cons, if_true]
            omega
          · simp
          · intro r hr
            exact hmem r (by simpa using hr)
      | item r =>
          refine ⟨r :: rawItems, ?_, ?_, ?_, ?_, ?_⟩
          · rw [movedSlots, hmoved]
            rfl
          · rw [commandEntries, List.filter_cons_of_pos hslot.1, ← commandEntries]
            exact List.Forall₂.cons hslot.2 hpts
          · simp only [List.countP_cons, List.length_cons, Bool.false_eq_true, if_false]
            omega
          · intro h0
            rw [List.map_cons, ← hnone (by simpa using h0)]
          · intro r' hr'
            rcases List.mem_cons.mp hr' with hr' | hr'
            · rw [RawSlot.item.inj hr']
              exact List.mem_cons_self
            · exact List.mem_cons_of_mem r (hmem r' hr')

theorem mapM_rawItem (rawItems : List RawItem) :
    (rawItems.map RawSlot.item).mapM rawItem = .ok rawItems := by
  rw [mapM_eq_ok_iff, List.forall₂_map_left_iff]
  exact List.forall₂_same.mpr fun r _ => rfl

theorem mem_of_rankedItem {ranked : List RankedHistoryItem} {out : List (RadixItem ℕ)} {u : ℕ}
    {c : CString} (h : rankedItem ranked out u = .ok c) : ∃ x ∈ ranked, x.item = c := by
  unfold rankedItem at h
  split at h
  · cases h
  · split at h
    · cases h
    · next x hx => exact ⟨x, List.mem_of_getElem? hx, Except.ok.inj h⟩

/-- The raw view that is made from an array with the slots of a list. -/
theorem rawItems_of_slots {sh : Shell} {copies : List CString} {rawHistory : List RawSlot}
    {rawTimestamps : ℕ} {entries : List HistEntry}
    (hslots : List.Forall₂ (SlotOf sh copies) rawHistory entries.reverse)
    (hts : rawTimestamps = rawHistory.countP (fun slot => slot matches .null))
    (hne : ∀ e ∈ entries, ∃ l, e.line = some l ∧ strlen l ≠ 0) :
    ∃ compacted rawItems, compactRaw rawTimestamps rawHistory = .ok compacted
      ∧ (compacted.take (entries.length - rawTimestamps)).mapM rawItem = .ok rawItems
      ∧ List.Forall₂ (PointsTo sh copies) rawItems (commandEntries entries).reverse
      ∧ ∀ r, RawSlot.item r ∈ rawHistory → r ∈ rawItems := by
  obtain ⟨moved, hmoved, hpts, hlen, hnone, hmem⟩ := movedSlots_spec hslots
    fun e he => hne e (List.mem_reverse.mp he)
  rw [← hts, List.length_reverse] at hlen
  rw [commandEntries, List.filter_reverse] at hpts
  have hcount : entries.length - rawTimestamps = (moved.map RawSlot.item).length := by
    rw [List.length_map]
    omega
  rw [hcount]
  unfold compactRaw
  -- the first `rawCount` slots are the moved ones
  by_cases h0 : rawTimestamps = 0
  · have hall := hnone (by rw [← hts]; exact h0)
    refine ⟨rawHistory, moved, by simp [h0], ?_, hpts, hmem⟩
    rw [hall, List.take_length, mapM_rawItem]
  · refine ⟨moved.map RawSlot.item ++ rawHistory.drop (moved.map RawSlot.item).length, moved,
      ?_, ?_, hpts, hmem⟩
    · rw [if_pos h0, hmoved]
      rfl
    · rw [List.take_left, mapM_rawItem]

/-- The raw view that is made from the loop's array. -/
theorem Indexed.rawItems {sh : Shell} {st : CreateState} {entries : List HistEntry}
    (h : Indexed sh st entries) (hne : ∀ e ∈ entries, ∃ l, e.line = some l ∧ strlen l ≠ 0) :
    ∃ rawHistory rawItems, compactRaw st.rawTimestamps st.rawHistory = .ok rawHistory
      ∧ (rawHistory.take (entries.length - st.rawTimestamps)).mapM rawItem = .ok rawItems
      ∧ List.Forall₂ (PointsTo sh st.unmetafiedHistory) rawItems (commandEntries entries).reverse
      ∧ ∀ r, RawSlot.item r ∈ st.rawHistory → r ∈ rawItems :=
  rawItems_of_slots h.slots h.timestamps hne

/-- Items that read entries show their commands. -/
theorem map_text_of_pointsTo {sh : Shell} {copies : List CString} {rawItems : List RawItem}
    {entries : List HistEntry} (h : List.Forall₂ (PointsTo sh copies) rawItems entries) :
    rawItems.map RawItem.text = entries.map (decodeEntry sh) := by
  rw [← List.forall₂_eq_eq_eq, List.forall₂_map_left_iff, List.forall₂_map_right_iff]
  exact h.imp fun r e hpt => hpt.1

/-- **What `prioritized_history_create` gives.** The raw items read the commands
of the list, the newest first, and every ranked command is one of them. -/
theorem prioritized_history_create_spec {sh : Shell} {f : RankingFunction}
    {optionBigKeys : BigKeys} {blacklist : HashSet CString} {historyState : HistoryState}
    (hne : ∀ e ∈ historyState.entries, ∃ l, e.line = some l ∧ strlen l ≠ 0) {history : HistoryItems}
    (h : prioritized_history_create sh f optionBigKeys blacklist (some historyState)
      = .ok (some history)) :
    List.Forall₂ (PointsTo sh history.unmetafiedItems) history.rawItems
      (commandEntries historyState.entries).reverse
    ∧ ∀ c ∈ history.items, c ∈ history.rawItems.map RawItem.text := by
  simp only [prioritized_history_create] at h
  split at h
  · simp only [bind_eq_ok, pure_eq_ok] at h
    obtain ⟨st, hst, rawHistory, hraw, out, -, rawItems, hitems, items, hranked, hres⟩ := h
    obtain rfl := Option.some.inj hres
    have hidx := (indexed_createState sh _ optionBigKeys).indexEntries hst
    rw [List.nil_append] at hidx
    -- the run is deterministic, so these are the ones of the invariant
    obtain ⟨rawHistory', rawItems', hraw', hitems', hpts, hmem⟩ := hidx.rawItems hne
    obtain rfl := Except.ok.inj (hraw'.symm.trans hraw)
    obtain rfl := Except.ok.inj (hitems'.symm.trans hitems)
    refine ⟨hpts, fun c hc => ?_⟩
    obtain ⟨u, -, hu⟩ := exists_of_mem_mapM hranked hc
    obtain ⟨x, hx, rfl⟩ := mem_of_rankedItem hu
    obtain ⟨r, hr, hrx⟩ := hidx.ranked x hx
    rw [← hrx]
    exact List.mem_map_of_mem (hmem r hr)
  · cases h

/-! ## Lines that every copy decodes alike -/

/-- The decoder of zsh stays in the line, or what it reads behind the line comes
after the end of the string. -/
def Closed (isZsh : Bool) (line : CString) : Prop :=
  isZsh = true → overrun (parse_history_line isZsh line).bytes = none

instance (isZsh : Bool) (line : CString) : Decidable (Closed isZsh line) :=
  inferInstanceAs (Decidable (_ → _))

/-- Every line of the list is. -/
def ClosedEntries (isZsh : Bool) (entries : List HistEntry) : Prop :=
  ∀ e ∈ entries, ∀ line, e.line = some line → Closed isZsh line

/-- Where the bytes `ZSH_META` at the end of a command are even in number, it is
closed. -/
theorem closed_of_even {isZsh : Bool} {line : CString}
    (h : Even (metaRun (parse_history_line isZsh line).bytes)) : Closed isZsh line :=
  fun _ => overrun_eq_none_of_even (parse_history_line isZsh line).nonul h

/-- A shell that is not zsh decodes nothing. -/
theorem closedEntries_of_not_zsh {isZsh : Bool} (h : isZsh = false) (entries : List HistEntry) :
    ClosedEntries isZsh entries :=
  fun _ _ _ _ hzsh => absurd (h.symm.trans hzsh) Bool.false_ne_true

theorem ClosedEntries.sublist {isZsh : Bool} {entries more : List HistEntry}
    (h : ClosedEntries isZsh more) (hsub : entries.Sublist more) : ClosedEntries isZsh entries :=
  fun e he => h e (hsub.subset he)

theorem decode_of_closed {isZsh : Bool} {line : CString} (h : Closed isZsh line)
    (beyond beyond' : List Byte) : decode isZsh beyond line = decode isZsh beyond' line := by
  unfold decode
  cases isZsh with
  | false => rfl
  | true => simp only [zsh_unmetafy_of_closed (h rfl) beyond beyond']

theorem decodeEntry_of_closed {sh : Shell} {entries : List HistEntry}
    (h : ClosedEntries sh.isZsh entries) (beyond : Beyond) {e : HistEntry} (he : e ∈ entries) :
    decodeEntry { sh with beyond } e = decodeEntry sh e := by
  unfold decodeEntry
  cases hline : e.line with
  | none => rfl
  | some line =>
      rw [Option.map_some, Option.map_some]
      exact decode_of_closed (h e he line hline) _ _

theorem equalsCommand_of_closed {sh : Shell} {entries : List HistEntry}
    (h : ClosedEntries sh.isZsh entries) (beyond : Beyond) (cmd : CString) {e : HistEntry}
    (he : e ∈ entries) : equalsCommand { sh with beyond } cmd e = equalsCommand sh cmd e := by
  rw [Bool.eq_iff_iff, equalsCommand_eq_true_iff, equalsCommand_eq_true_iff,
    decodeEntry_of_closed h beyond he]

/-! ## Removal from the history list -/

/-- The commands of the list after the removal. -/
theorem commandEntries_remove_from_system_history (sh : Shell) (cmd : CString)
    (historyState : HistoryState) :
    commandEntries (history_mgmt_remove_from_system_history sh cmd historyState).1.entries
      = (commandEntries historyState.entries).filter fun e => decide (decodeEntry sh e ≠ cmd) := by
  have hstays : ∀ q ∈ withNext none historyState.entries.reverse.reverse, isCommand q.1 = true →
      (isTimestamp q.1 && q.2.any (equalsCommand sh cmd)) = false := by
    intro q _ hcmd
    rw [isTimestamp_of_isCommand hcmd, Bool.false_and]
  rw [(history_mgmt_remove_from_system_history_eq sh cmd historyState).1, commandEntries,
    List.filter_reverse, filter_prune (fun h => absurd h Bool.noConfusion) _ hstays,
    List.filter_reverse, List.reverse_reverse, commandEntries, List.filter_filter]
  refine List.filter_congr fun e _ => ?_
  cases hcmd : isCommand e with
  | false => rw [Bool.false_and, Bool.and_false]
  | true => rw [Bool.true_and, Bool.and_true, equalsCommand_of_isCommand hcmd, decide_not]

/-! ## Any sequence of removals -/

/-- The views, the history list, and the commands deleted so far. -/
structure Views where
  history : HistoryItems
  historyState : HistoryState
  deleted : List CString

/-- A deletion: the command, and what is behind the copies it makes. -/
structure Deletion where
  cmd : CString
  beyond : Beyond

def removeStep (sh : Shell) (m : Views) (d : Deletion) : Views :=
  let (history, historyState, _) :=
    removeFromHistory { sh with beyond := d.beyond } d.cmd m.history m.historyState
  ⟨history, historyState, d.cmd :: m.deleted⟩

/-- The views have what they had without what was deleted: the ranked commands
are those of `created` without the deleted ones, all in the raw view, and no view
has a deleted command. -/
structure Pruned (created : HistoryItems) (m : Views) : Prop where
  ranked : m.history.items = created.items.filter fun c => decide (c ∉ m.deleted)
  rankedInRaw : ∀ c ∈ m.history.items, c ∈ m.history.rawItems.map RawItem.text
  gone : ∀ c ∈ m.deleted, c ∉ m.history.items ∧ c ∉ m.history.rawItems.map RawItem.text

/-- The views show the history list: besides, the raw items read the commands of
the list, the newest first, each in a line of the list or in a copy of its
own. -/
structure Coherent (sh : Shell) (created : HistoryItems) (m : Views) : Prop
    extends Pruned created m where
  raw : List.Forall₂ (PointsTo sh m.history.unmetafiedItems) m.history.rawItems
    (commandEntries m.historyState.entries).reverse

/-- The views after a removal. -/
theorem removeStep_views (sh : Shell) (m : Views) (d : Deletion) :
    (removeStep sh m d).history.rawItems
        = m.history.rawItems.filter (fun r => decide (d.cmd ≠ r.text))
      ∧ (removeStep sh m d).history.items
        = m.history.items.filter (fun c => decide (d.cmd ≠ c))
      ∧ (removeStep sh m d).history.unmetafiedItems = m.history.unmetafiedItems := by
  simp only [removeStep, removeFromHistory]
  split
  · exact ⟨rfl, rfl, rfl⟩
  · exact ⟨rfl, rfl, rfl⟩

/-- The list after a removal has entries of the list before. -/
theorem removeStep_entries_sublist (sh : Shell) (m : Views) (d : Deletion) :
    (removeStep sh m d).historyState.entries.Sublist m.historyState.entries := by
  simp only [removeStep, removeFromHistory]
  split
  · exact removeLoop_sublist _ _ _ _
  · exact List.Sublist.refl _

/-- A text is in the raw view afterwards if it was before and is not the
command. -/
theorem mem_removeStep_texts {sh : Shell} {m : Views} {d : Deletion} {c : CString} :
    c ∈ (removeStep sh m d).history.rawItems.map RawItem.text
      ↔ c ∈ m.history.rawItems.map RawItem.text ∧ c ≠ d.cmd := by
  rw [(removeStep_views sh m d).1]
  simp only [List.mem_map, List.mem_filter, decide_eq_true_eq]
  constructor
  · rintro ⟨r, ⟨hr, hne⟩, rfl⟩
    exact ⟨⟨r, hr, rfl⟩, Ne.symm hne⟩
  · rintro ⟨⟨r, hr, rfl⟩, hne⟩
    exact ⟨r, ⟨hr, Ne.symm hne⟩, rfl⟩

/-- One removal keeps the views pruned. -/
theorem Pruned.removeStep {sh : Shell} {created : HistoryItems} {m : Views}
    (h : Pruned created m) (d : Deletion) : Pruned created (removeStep sh m d) := by
  obtain ⟨-, hitems, -⟩ := removeStep_views sh m d
  have hdeleted : (Coherence.removeStep sh m d).deleted = d.cmd :: m.deleted := rfl
  have hmem : ∀ c, c ∈ (Coherence.removeStep sh m d).history.items ↔
      c ∈ m.history.items ∧ c ≠ d.cmd := by
    intro c
    rw [hitems, List.mem_filter, decide_eq_true_eq, ne_comm]
  refine ⟨?_, ?_, ?_⟩
  · rw [hitems, h.ranked, List.filter_filter, hdeleted]
    refine List.filter_congr fun c _ => ?_
    rw [← Bool.decide_and]
    refine decide_eq_decide.mpr ?_
    rw [List.mem_cons, not_or, ne_comm]
  · intro c hc
    rw [hmem] at hc
    exact mem_removeStep_texts.mpr ⟨h.rankedInRaw c hc.1, hc.2⟩
  · intro c hc
    rw [hmem, mem_removeStep_texts]
    rw [hdeleted, List.mem_cons] at hc
    rcases hc with rfl | hc
    · exact ⟨fun hin => hin.2 rfl, fun hin => hin.2 rfl⟩
    · exact ⟨fun hin => (h.gone c hc).1 hin.1, fun hin => (h.gone c hc).2 hin.1⟩

/-- The commands of the list after a removal. Removing a command that the raw view
does not have would leave the list as it is, and there is nothing to remove from
it either. -/
theorem Coherent.commandEntries_removeStep {sh : Shell} {created : HistoryItems} {m : Views}
    (h : Coherent sh created m) (hclosed : ClosedEntries sh.isZsh m.historyState.entries)
    (d : Deletion) :
    commandEntries (Coherence.removeStep sh m d).historyState.entries
      = (commandEntries m.historyState.entries).filter
        (fun e => decide (decodeEntry sh e ≠ d.cmd)) := by
  simp only [Coherence.removeStep, removeFromHistory]
  split
  · rw [commandEntries_remove_from_system_history]
    refine List.filter_congr fun e he => ?_
    rw [decodeEntry_of_closed hclosed d.beyond (List.mem_of_mem_filter he)]
  · next h0 =>
      -- no raw item was removed, so no entry reads as the command
      have hlen := List.length_filter_le (fun r => decide (d.cmd ≠ r.text)) m.history.rawItems
      simp only [history_mgmt_remove_from_raw] at h0
      have hall := List.length_filter_eq_length_iff.mp
        (show (m.history.rawItems.filter fun r => decide (d.cmd ≠ r.text)).length
          = m.history.rawItems.length by omega)
      rw [eq_comm, List.filter_eq_self]
      intro e he
      obtain ⟨r, hr, hpt⟩ := exists_mem_left_of_forall₂ h.raw (List.mem_reverse.mpr he)
      have hr' := hall r hr
      rw [decide_eq_true_eq] at hr' ⊢
      rw [← hpt.1]
      exact Ne.symm hr'

/-- One removal keeps the views coherent, where every copy of a line decodes
alike. -/
theorem Coherent.removeStep {sh : Shell} {created : HistoryItems} {m : Views}
    (h : Coherent sh created m) (hclosed : ClosedEntries sh.isZsh m.historyState.entries)
    (d : Deletion) : Coherent sh created (removeStep sh m d) where
  toPruned := h.toPruned.removeStep d
  raw := by
    obtain ⟨hraw, -, hcopies⟩ := removeStep_views sh m d
    rw [hraw, hcopies, h.commandEntries_removeStep hclosed d, ← List.filter_reverse]
    -- the same filter on both sides of `PointsTo`
    refine List.rel_filter (R := PointsTo sh m.history.unmetafiedItems) ?_ h.raw
    intro r e hpt
    simp only [decide_eq_true_eq, hpt.1, ne_comm]

/-- No raw item refers to an entry that was removed. -/
theorem Coherent.source_mem {sh : Shell} {created : HistoryItems} {m : Views}
    (h : Coherent sh created m) {r : RawItem} (hr : r ∈ m.history.rawItems) {id : ℕ}
    (hsource : r.source = .line id) : id ∈ m.historyState.entries.map HistEntry.id := by
  obtain ⟨e, he, hpt⟩ := exists_mem_left_of_forall₂ h.raw.flip hr
  have hid := hpt.2
  rw [hsource] at hid
  subst hid
  exact List.mem_map_of_mem (List.mem_of_mem_filter (List.mem_reverse.mp he))

/-- **The views stay coherent with the history list** of lines that every copy
decodes alike. After `prioritized_history_create` on any such list of non-empty
lines, and any sequence of removals, with anything behind the copies, the raw view
is the newest first list of the commands of what remains of the list, and refers
to nothing that was removed. -/
theorem history_views_coherent (sh : Shell) (f : RankingFunction) (optionBigKeys : BigKeys)
    (blacklist : HashSet CString) (historyState : HistoryState)
    (hne : ∀ e ∈ historyState.entries, ∃ l, e.line = some l ∧ strlen l ≠ 0)
    (hclosed : ClosedEntries sh.isZsh historyState.entries)
    (created : HistoryItems)
    (hcreate : prioritized_history_create sh f optionBigKeys blacklist (some historyState)
      = .ok (some created))
    (deletions : List Deletion) :
    Always (removeStep sh)
      (fun m => Coherent sh created m ∧ ∀ r ∈ m.history.rawItems, ∀ id, r.source = .line id →
        id ∈ m.historyState.entries.map HistEntry.id)
      ⟨created, historyState, []⟩ deletions := by
  obtain ⟨hraw, hranked⟩ := prioritized_history_create_spec hne hcreate
  have hstart : Coherent sh created ⟨created, historyState, []⟩ :=
    ⟨⟨by simp, hranked, by simp⟩, hraw⟩
  have hrun : Always (removeStep sh)
      (fun m => Coherent sh created m ∧ ClosedEntries sh.isZsh m.historyState.entries)
      ⟨created, historyState, []⟩ deletions :=
    always_of_step
      (fun m d h => ⟨h.1.removeStep h.2 d, h.2.sublist (removeStep_entries_sublist sh m d)⟩)
      ⟨hstart, hclosed⟩ deletions
  exact hrun.mono fun m h => ⟨h.1, fun r hr id hid => h.1.source_mem hr hid⟩

/-- A history file of zsh: a timestamp, an extended entry and the same command
without its prefix, a metafied command. -/
def zshHistory : HistoryState where
  entries := [⟨0, some (lit "#1420549651")⟩, ⟨1, some (lit ": 1420549651:0;ls")⟩,
    ⟨2, some ⟨[112, 0x83, 0xa3], by decide⟩⟩, ⟨3, some (lit "ls")⟩]
  size := 4
  distinct := by decide

/-- The views of this file, with both commands removed one after the other. -/
theorem history_views_coherent_zsh :
    Always (removeStep zsh)
      (fun m => Coherent zsh
          ⟨[lit "ls", ⟨[112, 0x83], by decide⟩],
            [⟨.line 3, lit "ls"⟩, ⟨.copy 0, ⟨[112, 0x83], by decide⟩⟩, ⟨.line 1, lit "ls"⟩],
            [⟨[112, 0x83], by decide⟩]⟩ m
        ∧ ∀ r ∈ m.history.rawItems, ∀ id, r.source = .line id →
          id ∈ m.historyState.entries.map HistEntry.id)
      ⟨⟨[lit "ls", ⟨[112, 0x83], by decide⟩],
          [⟨.line 3, lit "ls"⟩, ⟨.copy 0, ⟨[112, 0x83], by decide⟩⟩, ⟨.line 1, lit "ls"⟩],
          [⟨[112, 0x83], by decide⟩]⟩, zshHistory, []⟩
      [⟨lit "ls", fun _ => [1]⟩, ⟨⟨[112, 0x83], by decide⟩, fun _ => [2]⟩] := by
  refine history_views_coherent zsh (fun rank index length => rank + index + length)
    .SKIP hashset_init zshHistory ?_ ?_ _ rfl _
  · intro e he
    simp only [zshHistory, List.mem_cons, List.not_mem_nil, or_false] at he
    rcases he with rfl | rfl | rfl | rfl <;> exact ⟨_, rfl, by decide⟩
  · intro e he line hline
    simp only [zshHistory, List.mem_cons, List.not_mem_nil, or_false] at he
    rcases he with rfl | rfl | rfl | rfl <;> obtain rfl := Option.some.inj hline <;>
      exact closed_of_even (by decide)

/-- The history `ls` of zsh, with half a pair at its end. -/
def openHistory : HistoryState where
  entries := [⟨0, some cutLine⟩]
  size := 1
  distinct := by decide

/-- Its views, where the byte behind the first copy is a NUL. -/
def openViews : HistoryItems := ⟨[lit "ls "], [⟨.copy 0, lit "ls "⟩], [lit "ls "]⟩

/-- An `x` is behind the second copy: the command leaves both views, and its line
stays in the list. -/
theorem open_line_stays :
    prioritized_history_create zsh (fun rank index length => rank + index + length) .SKIP
        hashset_init (some openHistory)
      = .ok (some openViews)
    ∧ lit "ls " ∈ openViews.rawItems.map RawItem.text
    ∧ ¬ Always (removeStep zsh) (Coherent zsh openViews) ⟨openViews, openHistory, []⟩
        [⟨lit "ls ", fun _ => [120]⟩]
    ∧ (removeStep zsh ⟨openViews, openHistory, []⟩ ⟨lit "ls ", fun _ => [120]⟩).history.rawItems = []
    ∧ (removeStep zsh ⟨openViews, openHistory, []⟩
        ⟨lit "ls ", fun _ => [120]⟩).historyState.entries = [⟨0, some cutLine⟩] := by
  have hraw : (removeStep zsh ⟨openViews, openHistory, []⟩
      ⟨lit "ls ", fun _ => [120]⟩).history.rawItems = [] := rfl
  have hlist : (removeStep zsh ⟨openViews, openHistory, []⟩
      ⟨lit "ls ", fun _ => [120]⟩).historyState.entries = [⟨0, some cutLine⟩] := rfl
  refine ⟨rfl, by decide, ?_, hraw, hlist⟩
  intro hall
  -- an empty raw view of a list with a command
  have hlength := hall.last.raw.length_eq
  revert hlength
  decide

end Hstr.Coherence
