/-
`src/radixsort.c`: the indices into the tables of the sorter.

`radixsort_init` makes tables of `keyLimit/RADIX_SLOT_SIZE` slots, and
`radixsort_add` accepts keys up to `keyLimit` and floors the others to
`keyLimit-1`. Three expressions of one limit: they fit together where the limit
is made of whole slots, but for a key that is the limit itself. All other
functions take their indices from `maxKey`, so they stay in the tables as long
as the additions do.
-/
import Hstr.Ranking

set_option autoImplicit false

namespace Hstr.Bounds

open Lib.Runs Lib.Results Hstr.Radixsort Hstr.History Hstr.Ranking

/-- The greatest `int`. -/
def INT_MAX : ℕ := 2147483647

section Sorter

variable {α : Type*}

/-! ## `radixsort_destroy` -/

/-- One round of the loop: the slot and its descriptor are freed. -/
def destroySlot (rs : RadixSorter α) (t : ℕ) : Except Fault Unit :=
  if t < rs._topIndexLimit then
    match rs.topDigits t with
    | none => .ok ()
    | some _ =>
        match rs._slotDescriptors t with
        | none => .error .uninitialised
        | some _ => .ok ()
  else .error .outOfBounds

/-- The loop from `topIndex` down to 0. -/
def destroySlots (rs : RadixSorter α) : ℕ → Except Fault Unit
  | 0 => destroySlot rs 0
  | topIndex + 1 => do
      destroySlot rs (topIndex + 1)
      destroySlots rs topIndex

/-- `radixsort_destroy`. -/
def radixsort_destroy (rs : RadixSorter α) : Except Fault Unit :=
  destroySlots rs (GET_TOP_INDEX rs.maxKey)

/-! ## Indices in the tables -/

/-- A sorter with the tables for a limit, whose greatest key is in them. -/
structure InTables (keyLimit : ℕ) (optionBigKeys : BigKeys) (rs : RadixSorter α) : Prop where
  keyLimit_eq : rs.keyLimit = keyLimit
  topIndexLimit_eq : rs._topIndexLimit = GET_TOP_INDEX keyLimit
  optionBigKeys_eq : rs.optionBigKeys = optionBigKeys
  maxKey_lt : GET_TOP_INDEX rs.maxKey < rs._topIndexLimit

/-- The sorter before the indexing loop. -/
def sorterFor (keyLimit : ℕ) (optionBigKeys : BigKeys) : RadixSorter α :=
  { radixsort_init keyLimit with optionBigKeys }

/-- A limit of whole slots: the keys below it are those with a slot. -/
theorem top_lt_iff_of_wholeLimit {keyLimit : ℕ} (h : WholeLimit keyLimit) (key : ℕ) :
    GET_TOP_INDEX key < GET_TOP_INDEX keyLimit ↔ key < keyLimit := by
  refine ⟨lt_keyLimit_of_top, fun hlt => ?_⟩
  obtain ⟨n, rfl⟩ := h.dvd
  simp only [GET_TOP_INDEX, RADIX_SLOT_SIZE] at *
  omega

theorem inTables_sorterFor {keyLimit : ℕ} (h : WholeLimit keyLimit) (optionBigKeys : BigKeys) :
    InTables keyLimit optionBigKeys (sorterFor keyLimit optionBigKeys : RadixSorter α) := by
  refine ⟨rfl, rfl, rfl, ?_⟩
  show GET_TOP_INDEX 0 < GET_TOP_INDEX keyLimit
  exact (top_lt_iff_of_wholeLimit h 0).mpr h.pos

/-- Filing an item fails this way exactly if its slot is not in the table. -/
theorem fileItem_eq_outOfBounds_iff {rs : RadixSorter α} {item : RadixItem α} :
    fileItem rs item = .error .outOfBounds ↔ rs._topIndexLimit ≤ GET_TOP_INDEX item.key := by
  unfold fileItem
  by_cases hlt : GET_TOP_INDEX item.key < rs._topIndexLimit
  · simp only [if_pos hlt]
    refine iff_of_false ?_ (by omega)
    split <;> simp
  · simp only [if_neg hlt]
    exact iff_of_true trivial (by omega)

/-- So does an addition, for the key the item is stored under. -/
theorem radixsort_add_eq_outOfBounds_iff {rs : RadixSorter α} {item : RadixItem α} :
    radixsort_add rs item = .error .outOfBounds
      ↔ ∃ key, storedKey rs.optionBigKeys rs.keyLimit item.key = some key
        ∧ rs._topIndexLimit ≤ GET_TOP_INDEX key := by
  unfold radixsort_add storedKey
  by_cases hbig : item.key > rs.keyLimit
  · rw [if_pos hbig, if_pos hbig]
    cases rs.optionBigKeys with
    | SKIP => simp
    | FLOOR => simp [fileItem_eq_outOfBounds_iff]
    | EXIT => simp
  · rw [if_neg hbig, if_neg hbig]
    simp [fileItem_eq_outOfBounds_iff]

/-- **An addition stays in the tables** exactly if its key is not the limit. -/
theorem InTables.radixsort_add_iff {keyLimit : ℕ} {optionBigKeys : BigKeys} {rs : RadixSorter α}
    (h : InTables keyLimit optionBigKeys rs) (hwhole : WholeLimit keyLimit)
    (hopt : optionBigKeys ≠ .EXIT) (item : RadixItem α) :
    radixsort_add rs item ≠ .error .outOfBounds ↔ item.key ≠ keyLimit := by
  rw [Ne, radixsort_add_eq_outOfBounds_iff, h.keyLimit_eq, h.optionBigKeys_eq,
    h.topIndexLimit_eq, not_iff_not]
  have htop : ∀ key, GET_TOP_INDEX keyLimit ≤ GET_TOP_INDEX key ↔ keyLimit ≤ key := by
    intro key
    have := top_lt_iff_of_wholeLimit hwhole key
    omega
  simp only [htop]
  have hpos := hwhole.pos
  unfold storedKey
  by_cases hbig : item.key > keyLimit
  · -- a floored key is below the limit, a skipped one is not stored
    rw [if_pos hbig]
    refine iff_of_false ?_ (by omega)
    rintro ⟨key, hkey, hle⟩
    cases optionBigKeys with
    | SKIP => cases hkey
    | FLOOR =>
        obtain rfl := Option.some.inj hkey
        omega
    | EXIT => exact hopt rfl
  · rw [if_neg hbig]
    constructor
    · rintro ⟨key, hkey, hle⟩
      obtain rfl := Option.some.inj hkey
      omega
    · intro heq
      exact ⟨item.key, rfl, heq.ge⟩

/-! ## What the calls leave -/

/-- A filed item leaves the tables as they are, and its key is in them. -/
theorem InTables.fileItem {keyLimit : ℕ} {optionBigKeys : BigKeys} {rs rs' : RadixSorter α}
    (h : InTables keyLimit optionBigKeys rs) {item : RadixItem α}
    (hfile : fileItem rs item = .ok rs') : InTables keyLimit optionBigKeys rs' := by
  unfold Radixsort.fileItem at hfile
  by_cases hlt : GET_TOP_INDEX item.key < rs._topIndexLimit
  · simp only [if_pos hlt] at hfile
    have hkeep : (ensureSlot rs (GET_TOP_INDEX item.key)).keyLimit = rs.keyLimit
        ∧ (ensureSlot rs (GET_TOP_INDEX item.key))._topIndexLimit = rs._topIndexLimit
        ∧ (ensureSlot rs (GET_TOP_INDEX item.key)).optionBigKeys = rs.optionBigKeys
        ∧ (ensureSlot rs (GET_TOP_INDEX item.key)).maxKey = rs.maxKey := by
      rw [ensureSlot_eq]
      split <;> exact ⟨rfl, rfl, rfl, rfl⟩
    obtain ⟨hkl, htl, hop, hmk⟩ := hkeep
    split at hfile
    · obtain rfl := Except.ok.inj hfile
      refine ⟨hkl.trans h.keyLimit_eq, htl.trans h.topIndexLimit_eq, hop.trans h.optionBigKeys_eq,
        ?_⟩
      -- `maxKey` is one of the two keys
      simp only [hmk, htl]
      rcases Nat.le_total rs.maxKey item.key with hle | hle
      · rwa [show Nat.max rs.maxKey item.key = item.key from Nat.max_eq_right hle]
      · rw [show Nat.max rs.maxKey item.key = rs.maxKey from Nat.max_eq_left hle]
        exact h.maxKey_lt
    · cases hfile
  · rw [if_neg hlt] at hfile
    cases hfile

theorem InTables.radixsort_add {keyLimit : ℕ} {optionBigKeys : BigKeys} {rs rs' : RadixSorter α}
    (h : InTables keyLimit optionBigKeys rs) {item : RadixItem α}
    (hadd : radixsort_add rs item = .ok rs') : InTables keyLimit optionBigKeys rs' := by
  unfold Radixsort.radixsort_add at hadd
  split at hadd
  · split at hadd
    · exact h.fileItem hadd
    · obtain rfl := Except.ok.inj hadd
      exact h
    · cases hadd
  · exact h.fileItem hadd

/-- A cut looks up keys up to `maxKey` only, whatever key and data it is asked
for. -/
theorem InTables.radix_cut [DecidableEq α] {keyLimit : ℕ} {optionBigKeys : BigKeys}
    {rs : RadixSorter α} (h : InTables keyLimit optionBigKeys rs) (key : ℕ) (data : α) :
    radix_cut rs key data ≠ .error .outOfBounds
      ∧ ∀ r, radix_cut rs key data = .ok r → InTables keyLimit optionBigKeys r.2 := by
  unfold Radixsort.radix_cut
  by_cases hle : key ≤ rs.maxKey
  · have hlt : GET_TOP_INDEX key < rs._topIndexLimit :=
      lt_of_le_of_lt (GET_TOP_INDEX_mono hle) h.maxKey_lt
    simp only [if_pos hle, if_pos hlt]
    constructor
    · repeat' split
      all_goals simp
    · intro r hr
      -- a cut touches the slot, its descriptor and `size` only
      repeat' split at hr
      all_goals cases hr
      all_goals exact ⟨h.keyLimit_eq, h.topIndexLimit_eq, h.optionBigKeys_eq, h.maxKey_lt⟩
  · rw [if_neg hle]
    refine ⟨by simp, fun r hr => ?_⟩
    obtain rfl := Except.ok.inj hr
    exact h

/-- The loop of the dump starts at a slot of the table. -/
theorem dumpSlots_ne_outOfBounds {rs : RadixSorter α} {t : ℕ} (ht : t < rs._topIndexLimit) :
    dumpSlots rs t ≠ .error .outOfBounds := by
  have hslot : ∀ t, t < rs._topIndexLimit → dumpSlot rs t ≠ .error .outOfBounds := by
    intro t ht
    rw [dumpSlot, if_pos ht]
    repeat' split
    all_goals simp
  induction t with
  | zero => exact hslot 0 ht
  | succ t ih =>
      rw [dumpSlots]
      refine bind_ne_error (hslot _ ht) fun here _ => ?_
      refine bind_ne_error (ih (by omega)) fun rest _ => ?_
      exact fun h => absurd h (by simp [pure, Except.pure])

theorem destroySlots_ne_outOfBounds {rs : RadixSorter α} {t : ℕ} (ht : t < rs._topIndexLimit) :
    destroySlots rs t ≠ .error .outOfBounds := by
  have hslot : ∀ t, t < rs._topIndexLimit → destroySlot rs t ≠ .error .outOfBounds := by
    intro t ht
    rw [destroySlot, if_pos ht]
    repeat' split
    all_goals simp
  induction t with
  | zero => exact hslot 0 ht
  | succ t ih =>
      rw [destroySlots]
      exact bind_ne_error (hslot _ ht) fun _ _ => ih (by omega)

/-- A state of a run whose calls stayed in the tables, and in which a dump and the
final `radixsort_destroy` would. -/
def Safe (keyLimit : ℕ) (optionBigKeys : BigKeys) : Except Fault (RadixSorter α) → Prop
  | .ok rs => InTables keyLimit optionBigKeys rs
      ∧ radixsort_dump rs ≠ .error .outOfBounds ∧ radixsort_destroy rs ≠ .error .outOfBounds
  | .error fault => fault ≠ .outOfBounds

theorem InTables.safe {keyLimit : ℕ} {optionBigKeys : BigKeys} {rs : RadixSorter α}
    (h : InTables keyLimit optionBigKeys rs) : Safe keyLimit optionBigKeys (.ok rs) := by
  refine ⟨h, ?_, destroySlots_ne_outOfBounds h.maxKey_lt⟩
  unfold radixsort_dump
  split
  · exact dumpSlots_ne_outOfBounds h.maxKey_lt
  · simp

variable [DecidableEq α]

/-- One call that does not add the limit itself. -/
theorem Safe.sorterStep {keyLimit : ℕ} {optionBigKeys : BigKeys} (hwhole : WholeLimit keyLimit)
    (hopt : optionBigKeys ≠ .EXIT) {state : Except Fault (RadixSorter α)}
    (h : Safe keyLimit optionBigKeys state) {op : SorterOp α}
    (hop : ∀ item, op = .add item → item.key ≠ keyLimit) :
    Safe keyLimit optionBigKeys (sorterStep state op) := by
  cases state with
  | error fault =>
      cases op with
      | add item => exact h
      | cut key data => exact h
  | ok rs =>
      obtain ⟨hin, -⟩ := h
      cases op with
      | add item =>
          have hadd := (hin.radixsort_add_iff hwhole hopt item).mpr (hop item rfl)
          show Safe keyLimit optionBigKeys (Radixsort.radixsort_add rs item)
          cases hres : Radixsort.radixsort_add rs item with
          | error fault =>
              intro hfault
              exact hadd (by rw [hres, hfault])
          | ok rs' => exact (hin.radixsort_add hres).safe
      | cut key data =>
          obtain ⟨hcut, hkeeps⟩ := hin.radix_cut key data
          show Safe keyLimit optionBigKeys ((Radixsort.radix_cut rs key data).map Prod.snd)
          cases hres : Radixsort.radix_cut rs key data with
          | error fault =>
              intro hfault
              exact hcut (by rw [hres, hfault])
          | ok r => exact (hkeeps r hres).safe

/-- **Every run stays in the tables** whose additions are not of the limit itself. -/
theorem sorterRun_safe {keyLimit : ℕ} {optionBigKeys : BigKeys} (hwhole : WholeLimit keyLimit)
    (hopt : optionBigKeys ≠ .EXIT) (ops : List (SorterOp α))
    (hops : ∀ item, SorterOp.add item ∈ ops → item.key ≠ keyLimit) :
    Always sorterStep (Safe keyLimit optionBigKeys) (.ok (sorterFor keyLimit optionBigKeys))
      ops := by
  refine always_of_guarded
    (G := fun _ op => ∀ item, op = .add item → item.key ≠ keyLimit)
    (fun state op h hop => h.sorterStep hwhole hopt hop)
    (inTables_sorterFor hwhole optionBigKeys).safe
    (guarded_of_forall_mem fun op hmem _ item heq => hops item (heq ▸ hmem))

/-- **When the sorter stays inside its tables**: for a history whose limit does not
overflow, for all ranks but the one that is the limit. Then no call of any run
leaves the tables. -/
theorem sorter_stays_in_tables_iff (historyState : HistoryState) (optionBigKeys : BigKeys)
    (hopt : optionBigKeys ≠ .EXIT) :
    (∀ (rs : RadixSorter α), InTables (keyLimitOf historyState) optionBigKeys rs →
        ∀ rank data,
          (historyState.size * 1000 ≤ INT_MAX
              ∧ Radixsort.radixsort_add rs ⟨rank, data⟩ ≠ .error .outOfBounds)
            ↔ historyState.size ≤ 2147483 ∧ rank ≠ keyLimitOf historyState)
      ∧ (historyState.size ≤ 2147483 → ∀ ops : List (SorterOp α),
        (∀ item, SorterOp.add item ∈ ops → item.key ≠ keyLimitOf historyState) →
        Always sorterStep (Safe (keyLimitOf historyState) optionBigKeys)
          (.ok (sorterFor (keyLimitOf historyState) optionBigKeys)) ops) := by
  have hfits : historyState.size * 1000 ≤ INT_MAX ↔ historyState.size ≤ 2147483 := by
    simp only [INT_MAX]
    omega
  have hwhole : historyState.size ≤ 2147483 → WholeLimit (keyLimitOf historyState) :=
    fun hle => wholeLimit_keyLimitOf (by omega)
  constructor
  · intro rs hin rank data
    rw [hfits]
    exact and_congr_right fun hle => hin.radixsort_add_iff (hwhole hle) hopt ⟨rank, data⟩
  · exact fun hle ops hops => sorterRun_safe (hwhole hle) hopt ops hops

end Sorter

/-- A history for which readline allocated its first 502 elements. -/
def smallHistory : HistoryState where
  entries := []
  size := 502
  distinct := List.nodup_nil

theorem sorter_stays_in_tables_iff_small :
    (∀ (rs : RadixSorter ℕ), InTables (keyLimitOf smallHistory) .SKIP rs →
        ∀ rank data,
          (smallHistory.size * 1000 ≤ INT_MAX
              ∧ radixsort_add rs ⟨rank, data⟩ ≠ .error .outOfBounds)
            ↔ smallHistory.size ≤ 2147483 ∧ rank ≠ keyLimitOf smallHistory)
      ∧ (smallHistory.size ≤ 2147483 → ∀ ops : List (SorterOp ℕ),
        (∀ item, SorterOp.add item ∈ ops → item.key ≠ keyLimitOf smallHistory) →
        Always sorterStep (Safe (keyLimitOf smallHistory) .SKIP)
          (.ok (sorterFor (keyLimitOf smallHistory) .SKIP)) ops) :=
  sorter_stays_in_tables_iff smallHistory .SKIP (by decide)

/-- The rank 502000 is accepted, and its slot is the one behind the table. -/
theorem limit_key_out_of_bounds :
    keyLimitOf smallHistory = 502000
      ∧ radixsort_add (sorterFor (keyLimitOf smallHistory) .SKIP) (⟨502000, 0⟩ : RadixItem ℕ)
        = .error .outOfBounds :=
  ⟨by decide, radixsort_add_eq_outOfBounds_iff.mpr ⟨502000, by decide, by decide⟩⟩

end Hstr.Bounds
