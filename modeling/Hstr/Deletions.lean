/-
Many deletions.

A deletion filters the two views, and it takes entries out of the history list by a
pass from its end, which looks at what stands in front of a match. The passes for
two commands see different lists in the one order and in the other. Where each
timestamp belongs to a command, as Bash writes them, and no command looks like a
timestamp, this makes no difference: any number of deletions leave what one pass for
all the commands would leave, in the views, in the list and in the file.
-/
import Hstr.Session

set_option autoImplicit false

namespace Hstr.Deletions

open Lib.Runs Lib.Prune Hstr.Strings Hstr.Utils Hstr.Readline Hstr.History Hstr.Coherence
open Hstr.Removal Hstr.Loop Hstr.Stores Hstr.Session

/-! ## One deletion -/

section One

variable {sh : Shell} {t₀ t : Storage} {c : CString}

/-- What the views do not have, the list does not have. -/
theorem equalsCommand_of_not_mem_raw (h : Sound t₀ t) (hreads : Reads sh t)
    (hc : is_hist_timestamp c = false) (hraw : c ∉ t.history.history.rawItems.map RawItem.text)
    {e : HistEntry} (he : e ∈ t.history.historyState.entries) : equalsCommand sh c e = false := by
  by_cases hstamp : isTimestamp e = true
  · exact equalsCommand_of_isTimestamp hc hstamp
  · have hcommand : isCommand e = true := by
      rw [isCommand_eq_not_isTimestamp (h.nonempty e he)]
      simpa using hstamp
    rw [equalsCommand_of_isCommand hcommand, decide_eq_false_iff_not]
    intro heq
    have hmem : e ∈ (commandEntries t.history.historyState.entries).reverse :=
      List.mem_reverse.mpr (List.mem_filter.mpr ⟨he, hcommand⟩)
    obtain ⟨r, hr, hpt⟩ := Lib.Results.exists_mem_left_of_forall₂ hreads.raw hmem
    exact hraw (List.mem_map.mpr ⟨r, hr, hpt.1.trans heq⟩)

theorem remove_from_raw_eq_zero_iff (history : HistoryItems) :
    (history_mgmt_remove_from_raw c history).2 = 0 ↔ c ∉ history.rawItems.map RawItem.text := by
  rw [history_mgmt_remove_from_raw_count, List.countP_eq_zero]
  constructor
  · intro h hmem
    exact h c hmem (decide_eq_true rfl)
  · intro h d hd heq
    rw [decide_eq_true_eq] at heq
    exact h (heq ▸ hd)

/-- A command that the views do not have is not deleted. -/
theorem delete_of_not_mem_raw (sh : Shell) (beyond : Beyond)
    (hraw : c ∉ t.history.history.rawItems.map RawItem.text) :
    let t' := storageStep sh t (.delete c beyond)
    t'.history.historyState = t.history.historyState ∧ t'.historyFile = t.historyFile
      ∧ t'.history.dirty = t.history.dirty := by
  have hnone := (remove_from_raw_eq_zero_iff t.history.history).mpr hraw
  simp only [storageStep, Sharing.removeFromHistoryFile]
  rw [if_neg (not_not_intro hnone)]
  exact ⟨rfl, rfl, rfl⟩

/-- **What a deletion leaves of the history list**, told on the list as it was. -/
theorem entries_delete_eq (h : Sound t₀ t) (hreads : Reads sh t)
    (hc : is_hist_timestamp c = false) (beyond : Beyond) :
    (storageStep sh t (.delete c beyond)).history.historyState.entries
      = survivors (equalsCommand sh c) isTimestamp none t.history.historyState.entries := by
  by_cases hraw : c ∈ t.history.history.rawItems.map RawItem.text
  · have hentries := (history_mgmt_remove_from_system_history_eq { sh with beyond } c
      t.history.historyState).1
    rw [prune_congr fun e he =>
      equalsCommand_of_closed hreads.closed beyond c (List.mem_reverse.mp he)] at hentries
    have hdisjoint : ∀ e, isTimestamp e = true → equalsCommand sh c e = false :=
      fun _ hstamp => equalsCommand_of_isTimestamp hc hstamp
    have hprune := prune_eq_survivors hdisjoint none t.history.historyState.entries.reverse
    rw [Option.any_none, List.reverse_reverse] at hprune
    rw [hprune, List.reverse_reverse] at hentries
    have hfound : (history_mgmt_remove_from_raw c t.history.history).2 ≠ 0 :=
      fun h0 => (remove_from_raw_eq_zero_iff t.history.history).mp h0 hraw
    simp only [storageStep, Sharing.removeFromHistoryFile, SystemHistory.remove]
    rw [if_pos hfound]
    split
    · exact hentries
    · exact hentries
  · rw [(delete_of_not_mem_raw sh beyond hraw).1,
      survivors_eq_self (fun _ he => equalsCommand_of_not_mem_raw h hreads hc hraw he) rfl]

/-- A deletion sets the flag if there is something to delete. -/
theorem dirty_delete_iff (h : Sound t₀ t) (hreads : Reads sh t) (c : CString) (beyond : Beyond) :
    (storageStep sh t (.delete c beyond)).history.dirty = true
      ↔ t.history.dirty = true ∨ c ∈ t.history.history.rawItems.map RawItem.text := by
  by_cases hraw : c ∈ t.history.history.rawItems.map RawItem.text
  · have hlisted : c ∈ listed t.history.history := List.mem_append_right _ hraw
    exact iff_of_true (hreads.delete h hlisted beyond).2.2.2.2 (Or.inr hraw)
  · rw [or_iff_left hraw, (delete_of_not_mem_raw sh beyond hraw).2.2]

end One

/-! ## A history with timestamps -/

def stampedHistory : HistoryFile :=
  ⟨[lit "make", lit "#1420549651", lit "git", lit "#1420549652", lit "vim", lit "git"], 0⟩

def stampedSession : Sharing.Session where
  history :=
    ⟨[lit "git", lit "vim", lit "make"],
      [⟨.line 5, lit "git"⟩, ⟨.line 4, lit "vim"⟩, ⟨.line 2, lit "git"⟩, ⟨.line 0, lit "make"⟩], []⟩
  historyState := read_history gnuReadline 502 stampedHistory
  dirty := false

theorem stampedLoaded :
    Loaded plainEnv plainHstr true false (some plainFavorites) stampedHistory stampedSession where
  favorites := rfl
  history := ⟨fun rank index length => rank + index + length, .SKIP, Hashset.hashset_init, 502, rfl⟩
  reads := gnuReadline_readsHistory
  overwrites := gnuReadline_overwrites
  newlineFree := by decide

/-- The stores with this history. -/
def stamped : Storage :=
  stored plainHstr stampedSession.history stampedSession.historyState (some plainFavorites)
    stampedHistory

/-! ## Any number of deletions -/

/-- Commands are deleted one after another. -/
def deleteAll (sh : Shell) (t : Storage) (ds : List Deletion) : Storage :=
  run (storageStep sh) t (ds.map fun d => .delete d.cmd d.beyond)

section Many

variable {sh : Shell} {t₀ t : Storage}

theorem deleteAll_cons (sh : Shell) (t : Storage) (d : Deletion) (ds : List Deletion) :
    deleteAll sh t (d :: ds) = deleteAll sh (storageStep sh t (.delete d.cmd d.beyond)) ds := rfl

theorem entries_deleteAll (hwrite : Overwrites sh.readline) (h : Sound t₀ t) (hreads : Reads sh t)
    {ds : List Deletion} (hds : ∀ d ∈ ds, is_hist_timestamp d.cmd = false) :
    (deleteAll sh t ds).history.historyState.entries
      = ds.foldl (fun entries d => survivors (equalsCommand sh d.cmd) isTimestamp none entries)
        t.history.historyState.entries := by
  induction ds generalizing t with
  | nil => rfl
  | cons d ds ih =>
      rw [deleteAll_cons, ih (h.deleted hwrite d.cmd d.beyond) (hreads.deleted h d.cmd d.beyond)
          fun d' hd' => hds d' (List.mem_cons_of_mem d hd'),
        entries_delete_eq h hreads (hds d List.mem_cons_self), List.foldl_cons]

theorem keeps_cons (c d : CString) (cs : List CString) :
    (decide (d ∉ cs) && decide (c ≠ d)) = decide (d ∉ c :: cs) := by
  rw [Bool.eq_iff_iff]
  simp only [Bool.and_eq_true, decide_eq_true_eq, List.mem_cons, not_or, ne_eq]
  constructor
  · rintro ⟨hcs, hc⟩
    exact ⟨fun heq => hc heq.symm, hcs⟩
  · rintro ⟨hc, hcs⟩
    exact ⟨hcs, fun heq => hc heq.symm⟩

theorem views_deleteAll (sh : Shell) (t : Storage) (ds : List Deletion) :
    (deleteAll sh t ds).history.history.rawItems
        = t.history.history.rawItems.filter (fun r => decide (r.text ∉ ds.map Deletion.cmd))
      ∧ (deleteAll sh t ds).history.history.items
        = t.history.history.items.filter (fun d => decide (d ∉ ds.map Deletion.cmd)) := by
  induction ds generalizing t with
  | nil =>
      constructor
      · exact (List.filter_eq_self.mpr fun _ _ => by simp).symm
      · exact (List.filter_eq_self.mpr fun _ _ => by simp).symm
  | cons d ds ih =>
      obtain ⟨hraw, hitems⟩ := ih (storageStep sh t (.delete d.cmd d.beyond))
      obtain ⟨hraw1, hitems1⟩ := views_delete_eq sh t d.cmd d.beyond
      rw [deleteAll_cons, hraw, hitems, hraw1, hitems1, List.filter_filter, List.filter_filter]
      constructor
      · exact List.filter_congr fun r _ => keeps_cons d.cmd r.text (ds.map Deletion.cmd)
      · exact List.filter_congr fun c _ => keeps_cons d.cmd c (ds.map Deletion.cmd)

/-- There is something to delete. -/
def Finds (t : Storage) (cs : List CString) : Prop :=
  ∃ c ∈ cs, c ∈ t.history.history.rawItems.map RawItem.text

/-- What the first deletion leaves for the others to find. -/
theorem finds_cons_iff (sh : Shell) (t : Storage) (d : Deletion) (cs : List CString) :
    Finds t (d.cmd :: cs)
      ↔ d.cmd ∈ t.history.history.rawItems.map RawItem.text
        ∨ Finds (storageStep sh t (.delete d.cmd d.beyond)) cs := by
  unfold Finds
  rw [(views_delete_eq sh t d.cmd d.beyond).1]
  simp only [List.mem_cons, exists_eq_or_imp, List.mem_map, List.mem_filter, decide_eq_true_eq]
  apply or_congr_right'
  intro hraw
  constructor
  · rintro ⟨c, hc, r, hr, heq⟩
    exact ⟨c, hc, r, ⟨hr, fun hd => hraw ⟨r, hr, hd.symm⟩⟩, heq⟩
  · rintro ⟨c, hc, r, ⟨hr, -⟩, heq⟩
    exact ⟨c, hc, r, hr, heq⟩

theorem dirty_deleteAll_iff (hwrite : Overwrites sh.readline) (h : Sound t₀ t)
    (hreads : Reads sh t) (ds : List Deletion) :
    (deleteAll sh t ds).history.dirty = true
      ↔ t.history.dirty = true ∨ Finds t (ds.map Deletion.cmd) := by
  induction ds generalizing t with
  | nil => simp [deleteAll, Finds]
  | cons d ds ih =>
      rw [deleteAll_cons, ih (h.deleted hwrite d.cmd d.beyond) (hreads.deleted h d.cmd d.beyond),
        dirty_delete_iff h hreads, List.map_cons, finds_cons_iff sh, or_assoc]

theorem historyOnDisk_deleteAll (hwrite : Overwrites sh.readline) (t : Storage)
    (ds : List Deletion) : HistoryOnDisk t (deleteAll sh t ds) := by
  induction ds generalizing t with
  | nil => exact Or.inl ⟨rfl, rfl⟩
  | cons d ds ih => exact (written_or_same hwrite t d.cmd d.beyond).trans (ih _)

/-- The file after many deletions: that of the list, if there was something to
delete. -/
theorem written_deleteAll (hwrite : Overwrites sh.readline) (h : Sound t₀ t) (hreads : Reads sh t)
    {ds : List Deletion} (hfinds : Finds t (ds.map Deletion.cmd)) :
    Written (deleteAll sh t ds) := by
  induction ds generalizing t with
  | nil =>
      obtain ⟨c, hc, -⟩ := hfinds
      cases hc
  | cons d ds ih =>
      rw [List.map_cons, finds_cons_iff sh] at hfinds
      rw [deleteAll_cons]
      rcases hfinds with hraw | hrest
      · -- the first one writes the file, and the others keep it so
        obtain ⟨-, -, -, hfile, -⟩ := hreads.delete h (List.mem_append_right _ hraw) d.beyond
        apply (historyOnDisk_deleteAll hwrite _ ds).written
        rw [Written, hfile]
        exact hwrite _
      · exact ih (h.deleted hwrite d.cmd d.beyond) (hreads.deleted h d.cmd d.beyond) hrest

theorem unwritten_deleteAll {ds : List Deletion} (hnone : ¬ Finds t (ds.map Deletion.cmd)) :
    (deleteAll sh t ds).historyFile = t.historyFile := by
  induction ds generalizing t with
  | nil => rfl
  | cons d ds ih =>
      rw [List.map_cons, finds_cons_iff sh, not_or] at hnone
      rw [deleteAll_cons, ih hnone.2, (delete_of_not_mem_raw sh d.beyond hnone.1).2.1]

theorem favorites_deleteAll (ds : List Deletion) :
    (deleteAll sh t ds).favorites = t.favorites := by
  induction ds generalizing t with
  | nil => rfl
  | cons d ds ih => exact ih

/-- What can be seen of the stores. -/
structure SameStores (t t' : Storage) : Prop where
  favorites : t.favorites = t'.favorites
  rawItems : t.history.history.rawItems = t'.history.history.rawItems
  items : t.history.history.items = t'.history.history.items
  entries : t.history.historyState.entries = t'.history.historyState.entries
  dirty : t.history.dirty = t'.history.dirty
  historyFile : t.historyFile.lines = t'.historyFile.lines

/-- What is left without the commands `cs`: in the views the items of other commands,
and in the list the entries that are no occurrence of one of them and no timestamp
right in front of one, as the list was at first. The file has the lines of the list
then, and is as it was if there is nothing to delete. -/
structure Leaves (sh : Shell) (t : Storage) (cs : List CString) (t' : Storage) : Prop where
  rawItems : t'.history.history.rawItems
    = t.history.history.rawItems.filter fun r => decide (r.text ∉ cs)
  items : t'.history.history.items = t.history.history.items.filter fun d => decide (d ∉ cs)
  entries : t'.history.historyState.entries
    = survivors (fun e => cs.any fun c => equalsCommand sh c e) isTimestamp none
      t.history.historyState.entries
  written : Finds t cs → Written t'
  unwritten : ¬ Finds t cs → t'.historyFile = t.historyFile

/-- **Many deletions are one pass, and their order does not matter**, in stores as the
loop keeps them, with no two timestamps in a row and for commands that do not look
like one: deleting the same commands in another order, or more often, leaves the
same. -/
theorem deletions_in_any_order (hwrite : Overwrites sh.readline) (h : Sound t₀ t)
    (hreads : Reads sh t) (hspaced : Spaced isTimestamp t.history.historyState.entries)
    (ds : List Deletion) (hds : ∀ d ∈ ds, is_hist_timestamp d.cmd = false) :
    Leaves sh t (ds.map Deletion.cmd) (deleteAll sh t ds)
      ∧ ∀ ds', (∀ c, c ∈ ds'.map Deletion.cmd ↔ c ∈ ds.map Deletion.cmd) →
        SameStores (deleteAll sh t ds') (deleteAll sh t ds) := by
  have hentries : ∀ ds : List Deletion, (∀ d ∈ ds, is_hist_timestamp d.cmd = false) →
      (deleteAll sh t ds).history.historyState.entries
        = survivors (fun e => (ds.map Deletion.cmd).any fun c => equalsCommand sh c e) isTimestamp
          none t.history.historyState.entries := by
    intro ds hds
    rw [entries_deleteAll hwrite h hreads hds,
      foldl_survivors (fun d : Deletion => equalsCommand sh d.cmd) hspaced ds]
    simp only [List.any_map, Function.comp_def]
  obtain ⟨hraw, hitems⟩ := views_deleteAll sh t ds
  refine ⟨⟨hraw, hitems, hentries ds hds, written_deleteAll hwrite h hreads, unwritten_deleteAll⟩,
    fun ds' hsame => ?_⟩
  obtain ⟨hraw', hitems'⟩ := views_deleteAll sh t ds'
  have hds' : ∀ d ∈ ds', is_hist_timestamp d.cmd = false := by
    intro d hd
    obtain ⟨d', hd', heq⟩ := List.mem_map.mp ((hsame d.cmd).mp (List.mem_map_of_mem hd))
    rw [← heq]
    exact hds d' hd'
  have hany : (fun e => (ds'.map Deletion.cmd).any fun c => equalsCommand sh c e)
      = fun e => (ds.map Deletion.cmd).any fun c => equalsCommand sh c e := by
    funext e
    rw [Bool.eq_iff_iff, List.any_eq_true, List.any_eq_true]
    simp only [hsame]
  have hfinds : Finds t (ds'.map Deletion.cmd) ↔ Finds t (ds.map Deletion.cmd) := by
    unfold Finds
    simp only [hsame]
  have hlist : (deleteAll sh t ds').history.historyState.entries
      = (deleteAll sh t ds).history.historyState.entries := by
    rw [hentries ds' hds', hentries ds hds, hany]
  exact {
    favorites := (favorites_deleteAll ds').trans (favorites_deleteAll ds).symm
    rawItems := by
      rw [hraw', hraw]
      simp only [hsame]
    items := by
      rw [hitems', hitems]
      simp only [hsame]
    entries := hlist
    dirty := by
      rw [Bool.eq_iff_iff, dirty_deleteAll_iff hwrite h hreads,
        dirty_deleteAll_iff hwrite h hreads, hfinds]
    historyFile := by
      by_cases hfound : Finds t (ds.map Deletion.cmd)
      · rw [written_deleteAll hwrite h hreads (hfinds.mpr hfound), hlist]
        exact (written_deleteAll hwrite h hreads hfound).symm
      · rw [unwritten_deleteAll (hfinds.not.mpr hfound), unwritten_deleteAll hfound] }

/-- Two commands are deleted, one of them with its timestamps. -/
theorem deletions_in_any_order_stamped :
    let ds : List Deletion := [⟨lit "git", fun _ => []⟩, ⟨lit "make", fun _ => []⟩]
    Leaves plainEnv.shell stamped (ds.map Deletion.cmd) (deleteAll plainEnv.shell stamped ds)
      ∧ ∀ ds', (∀ c, c ∈ ds'.map Deletion.cmd ↔ c ∈ ds.map Deletion.cmd) →
        SameStores (deleteAll plainEnv.shell stamped ds')
          (deleteAll plainEnv.shell stamped ds) := by
  intro ds
  have hspaced : Spaced isTimestamp stamped.history.historyState.entries := by
    unfold Spaced
    decide
  exact deletions_in_any_order gnuReadline_overwrites (sound_start stampedLoaded)
    (reads_start stampedLoaded (closedEntries_of_not_zsh rfl _)) hspaced ds
    (by decide)

end Many

end Hstr.Deletions
