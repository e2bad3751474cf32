/-
`src/radixsort.c`: the radix sorter behind the ranking view.

Items are filed in a two level table: the top index of a key selects a slot of
`RADIX_SLOT_SIZE` buckets, allocated when its first item comes, and the low
index selects the bucket, a chain with the newest item at its head. Next to the
table there is a descriptor for each slot with bounds on the keys in it and
their number. `radixsort_dump` does not look at all buckets: it goes down from
`maxKey` and trusts the descriptors. `radix_cut` maintains the descriptors only
in part, so what they still say after any history of additions and cuts is the
point of this file.

A dereference of a `NULL` bucket or slot, a descriptor never written, an index
past a table and the `exit(0)` of `RADIX_BIG_KEYS_EXIT` are faults of the model, so that "no
fault" is something the theorems below have to prove. Counters and keys are
natural numbers. `_debug` only writes warnings and is left out.
-/
import Hstr.Lib.Buckets
import Hstr.Lib.Runs
import Mathlib.Data.List.Range
import Mathlib.Tactic.Ring

set_option autoImplicit false

namespace Hstr.Radixsort

open Lib.Buckets Lib.Runs

/-! ## The sorter -/

/-- The number of buckets of a slot. -/
def RADIX_SLOT_SIZE : ℕ := 1000

/-- What to do with keys over the limit: `RADIX_BIG_KEYS_SKIP`, `..._FLOOR`,
`..._EXIT`. -/
inductive BigKeys
  | SKIP
  | FLOOR
  | EXIT
  deriving DecidableEq

/-- How a call can end other than by returning. -/
inductive Fault
  | nullDereference
  | outOfBounds
  | uninitialised
  | exit
  deriving DecidableEq

def GET_TOP_INDEX (key : ℕ) : ℕ := key / RADIX_SLOT_SIZE

def GET_LOW_INDEX (key : ℕ) : ℕ := key % RADIX_SLOT_SIZE

/-- `RadixItem`: an item is followed in its bucket by its `next`. -/
structure RadixItem (α : Type*) where
  key : ℕ
  /-- The `void*` the caller attached; items are told apart by it. -/
  data : α
  deriving DecidableEq

/-- `RadixSlot`: the descriptor of a slot. -/
structure RadixSlot where
  min : ℕ
  max : ℕ
  size : ℕ

/-- `RadixSorter`. A slot is a function of the low index, `none` in `topDigits`
is `NULL`, and `none` in `_slotDescriptors` is memory never written. -/
structure RadixSorter (α : Type*) where
  size : ℕ
  maxKey : ℕ
  keyLimit : ℕ
  topDigits : ℕ → Option (ℕ → List (RadixItem α))
  optionBigKeys : BigKeys
  _slotDescriptors : ℕ → Option RadixSlot
  _slotsCount : ℕ
  _topIndexLimit : ℕ

variable {α : Type*}

/-- `radixsort_init`. -/
def radixsort_init (keyLimit : ℕ) : RadixSorter α where
  size := 0
  maxKey := 0
  keyLimit := keyLimit
  topDigits := fun _ => none
  optionBigKeys := .SKIP
  _slotDescriptors := fun _ => none
  _slotsCount := 0
  _topIndexLimit := GET_TOP_INDEX keyLimit

/-- `rs->topDigits[topIndex]=radixsort_get_slot(rs, topIndex)`: an empty slot
with the descriptor of an empty slot. -/
def radixsort_get_slot (rs : RadixSorter α) (topIndex : ℕ) : RadixSorter α :=
  { rs with
    topDigits := Function.update rs.topDigits topIndex (some fun _ => [])
    _slotDescriptors := Function.update rs._slotDescriptors topIndex (some ⟨rs.keyLimit, 0, 0⟩)
    _slotsCount := rs._slotsCount + 1 }

/-- The slot of `topIndex`, allocated if it is not there yet. -/
def ensureSlot (rs : RadixSorter α) (topIndex : ℕ) : RadixSorter α :=
  match rs.topDigits topIndex with
  | some _ => rs
  | none => radixsort_get_slot rs topIndex

/-- The second half of `radixsort_add`: file an accepted item. -/
def fileItem (rs : RadixSorter α) (item : RadixItem α) : Except Fault (RadixSorter α) :=
  let topIndex := GET_TOP_INDEX item.key
  let lowIndex := GET_LOW_INDEX item.key
  if topIndex < rs._topIndexLimit then
    let rs := ensureSlot rs topIndex
    match rs.topDigits topIndex, rs._slotDescriptors topIndex with
    | some slot, some d =>
        .ok { rs with
          topDigits := Function.update rs.topDigits topIndex
            (some (Function.update slot lowIndex (item :: slot lowIndex)))
          size := rs.size + 1
          maxKey := Nat.max rs.maxKey item.key
          _slotDescriptors := Function.update rs._slotDescriptors topIndex
            (some ⟨Nat.min d.min item.key, Nat.max d.max item.key, d.size + 1⟩) }
    | _, _ => .error .nullDereference
  else .error .outOfBounds

/-- `radixsort_add`. -/
def radixsort_add (rs : RadixSorter α) (item : RadixItem α) : Except Fault (RadixSorter α) :=
  if item.key > rs.keyLimit then
    match rs.optionBigKeys with
    | .FLOOR => fileItem rs { item with key := rs.keyLimit - 1 }
    | .SKIP => .ok rs
    | .EXIT => .error .exit
  else fileItem rs item

/-- `radix_dec_slot_descriptor_size`: the descriptor after one item left the
slot, where `slot` is the slot without it. -/
def radix_dec_slot_descriptor_size (keyLimit : ℕ) (slot : ℕ → List (RadixItem α))
    (descriptor : RadixSlot) : RadixSlot :=
  let size := descriptor.size - 1
  if size = 0 then ⟨keyLimit, 0, size⟩
  else if size = 1 then
    if slot (GET_LOW_INDEX descriptor.max) ≠ [] then ⟨descriptor.max, descriptor.max, size⟩
    else if slot (GET_LOW_INDEX descriptor.min) ≠ [] then ⟨descriptor.min, descriptor.min, size⟩
    else ⟨descriptor.min, descriptor.max, size⟩
  else ⟨descriptor.min, descriptor.max, size⟩

/-- The walk of `radix_cut` along a bucket: the first item with the data, and
the bucket without it. -/
def unlink [DecidableEq α] (data : α) :
    List (RadixItem α) → Option (RadixItem α × List (RadixItem α))
  | [] => none
  | ri :: rest =>
      if ri.data = data then some (ri, rest)
      else (unlink data rest).map fun r => (r.1, ri :: r.2)

/-- `radix_cut`: the item cut out, `none` for `NULL`, and the sorter without
it. -/
def radix_cut [DecidableEq α] (rs : RadixSorter α) (key : ℕ) (data : α) :
    Except Fault (Option (RadixItem α) × RadixSorter α) :=
  if key ≤ rs.maxKey then
    let topIndex := GET_TOP_INDEX key
    let lowIndex := GET_LOW_INDEX key
    if topIndex < rs._topIndexLimit then
      match rs.topDigits topIndex with
      | none => .ok (none, rs)
      | some slot =>
          -- `while(ri->data!=data)` reads the head before it tests anything
          if slot lowIndex = [] then .error .nullDereference
          else match unlink data (slot lowIndex) with
            | none => .ok (none, rs)
            | some (ri, rest) =>
                let slot := Function.update slot lowIndex rest
                match rs._slotDescriptors topIndex with
                | none => .error .uninitialised
                | some d =>
                    .ok (some ri, { rs with
                      topDigits := Function.update rs.topDigits topIndex (some slot)
                      size := rs.size - 1
                      _slotDescriptors := Function.update rs._slotDescriptors topIndex
                        (some (radix_dec_slot_descriptor_size rs.keyLimit slot d)) })
    else .error .outOfBounds
  else .ok (none, rs)

/-- The inner loop of `radixsort_dump`: the buckets of a slot from `l` down, as
long as `--l>=slotMin && slotCount<slotSize`. -/
def dumpBuckets (slot : ℕ → List (RadixItem α)) (slotMin slotSize : ℕ) :
    ℕ → ℕ → List (RadixItem α)
  | 0, _ => slot 0
  | l + 1, slotCount =>
      let slotCount := slotCount + (slot (l + 1)).length
      slot (l + 1) ++
        if slotMin ≤ l ∧ slotCount < slotSize then dumpBuckets slot slotMin slotSize l slotCount
        else []

/-- One round of the outer loop of `radixsort_dump`: what slot `t` adds to the
result. -/
def dumpSlot (rs : RadixSorter α) (t : ℕ) : Except Fault (List (RadixItem α)) :=
  if t < rs._topIndexLimit then
    match rs.topDigits t with
    | none => .ok []
    | some slot =>
        match rs._slotDescriptors t with
        | none => .error .uninitialised
        | some d =>
            if d.size > 0 then
              .ok (dumpBuckets slot (GET_LOW_INDEX d.min) d.size (GET_LOW_INDEX d.max) 0)
            else .ok []
  else .error .outOfBounds

/-- The outer loop of `radixsort_dump`: the slots from `t` down to 0. -/
def dumpSlots (rs : RadixSorter α) : ℕ → Except Fault (List (RadixItem α))
  | 0 => dumpSlot rs 0
  | t + 1 => do
      let here ← dumpSlot rs (t + 1)
      let rest ← dumpSlots rs t
      return here ++ rest

/-- `radixsort_dump`: the entries the loops write to the result, in order. -/
def radixsort_dump (rs : RadixSorter α) : Except Fault (List (RadixItem α)) :=
  if rs.size > 0 then dumpSlots rs (GET_TOP_INDEX rs.maxKey) else .ok []

/-! ## Keys and their two indices -/

theorem key_eq_iff {key t l : ℕ} (hl : l < RADIX_SLOT_SIZE) :
    key = t * RADIX_SLOT_SIZE + l ↔ GET_TOP_INDEX key = t ∧ GET_LOW_INDEX key = l := by
  simp only [GET_TOP_INDEX, GET_LOW_INDEX, RADIX_SLOT_SIZE] at *
  omega

theorem key_eq_top_low (key : ℕ) :
    GET_TOP_INDEX key * RADIX_SLOT_SIZE + GET_LOW_INDEX key = key := by
  simp only [GET_TOP_INDEX, GET_LOW_INDEX, RADIX_SLOT_SIZE]
  omega

theorem GET_LOW_INDEX_lt (key : ℕ) : GET_LOW_INDEX key < RADIX_SLOT_SIZE :=
  Nat.mod_lt _ (by decide)

theorem GET_TOP_INDEX_mono {k m : ℕ} (h : k ≤ m) : GET_TOP_INDEX k ≤ GET_TOP_INDEX m :=
  Nat.div_le_div_right h

/-- A key whose slot is in the table is below the limit the table was made
for. -/
theorem lt_keyLimit_of_top {key keyLimit : ℕ} (h : GET_TOP_INDEX key < GET_TOP_INDEX keyLimit) :
    key < keyLimit := by
  simp only [GET_TOP_INDEX, RADIX_SLOT_SIZE] at h
  omega

/-! ## What the table says about the live items

`live` lists the items that were added and not cut since, the newest first. -/

/-- The live items of one slot. -/
def slotItems (live : List (RadixItem α)) (t : ℕ) : List (RadixItem α) :=
  fiber (fun x => GET_TOP_INDEX x.key) live t

theorem mem_slotItems {live : List (RadixItem α)} {t : ℕ} {x : RadixItem α} :
    x ∈ slotItems live t ↔ x ∈ live ∧ GET_TOP_INDEX x.key = t := mem_fiber

/-- What a slot and its descriptor say. The bounds are bounds, not the least and
the greatest key: a cut may leave them behind. They are exact again when the
slot runs empty. -/
structure SlotOk (keyLimit : ℕ) (live : List (RadixItem α)) (t : ℕ)
    (slot : ℕ → List (RadixItem α)) (d : RadixSlot) : Prop where
  /-- A bucket holds the live items of its key, the newest first. -/
  buckets : ∀ l < RADIX_SLOT_SIZE, slot l = fiber RadixItem.key live (t * RADIX_SLOT_SIZE + l)
  /-- The descriptor counts the live items of the slot. -/
  counts : d.size = (slotItems live t).length
  /-- All of them lie within its bounds. -/
  bounds : ∀ x ∈ slotItems live t, d.min ≤ x.key ∧ x.key ≤ d.max
  /-- The bounds of a slot that is not empty are keys of the slot. -/
  inSlot : slotItems live t ≠ [] → GET_TOP_INDEX d.min = t ∧ GET_TOP_INDEX d.max = t
  /-- The bounds of an empty slot are the initial ones. -/
  reset : slotItems live t = [] → d.min = keyLimit ∧ d.max = 0

/-- What the two tables say: a slot that is not there has no live items, and
one that is there has a descriptor. -/
def TableOk (keyLimit : ℕ) (live : List (RadixItem α))
    (top : ℕ → Option (ℕ → List (RadixItem α))) (desc : ℕ → Option RadixSlot) : Prop :=
  ∀ t, (top t = none → slotItems live t = []) ∧
    ∀ slot, top t = some slot → ∃ d, desc t = some d ∧ SlotOk keyLimit live t slot d

/-- **The representation invariant**: the sorter holds exactly the live
items. -/
structure Represents (rs : RadixSorter α) (live : List (RadixItem α)) : Prop where
  limit : rs._topIndexLimit = GET_TOP_INDEX rs.keyLimit
  size : rs.size = live.length
  /-- Items are told apart by their data. -/
  nodup : (live.map RadixItem.data).Nodup
  inTable : ∀ x ∈ live, GET_TOP_INDEX x.key < rs._topIndexLimit
  /-- `maxKey` is an upper bound: it is never lowered. -/
  maxKey : ∀ x ∈ live, x.key ≤ rs.maxKey
  maxKeyInTable : rs.maxKey = 0 ∨ GET_TOP_INDEX rs.maxKey < rs._topIndexLimit
  table : TableOk rs.keyLimit live rs.topDigits rs._slotDescriptors

theorem represents_init (keyLimit : ℕ) :
    Represents (radixsort_init keyLimit : RadixSorter α) [] where
  limit := rfl
  size := rfl
  nodup := List.nodup_nil
  inTable := by simp
  maxKey := by simp
  maxKeyInTable := Or.inl rfl
  table := fun t => ⟨fun _ => rfl, by simp [radixsort_init]⟩

/-- The live items of a key are found in its slot. -/
theorem fiber_key_eq (live : List (RadixItem α)) (t : ℕ) {l : ℕ} (hl : l < RADIX_SLOT_SIZE) :
    fiber RadixItem.key live (t * RADIX_SLOT_SIZE + l)
      = fiber RadixItem.key (slotItems live t) (t * RADIX_SLOT_SIZE + l) := by
  rw [slotItems, fiber, fiber, fiber, List.filter_filter]
  refine List.filter_congr fun x _ => ?_
  by_cases hx : x.key = t * RADIX_SLOT_SIZE + l
  · rw [decide_eq_true hx, decide_eq_true ((key_eq_iff hl).mp hx).1, Bool.and_self]
  · rw [decide_eq_false hx, Bool.false_and]

/-- What a slot says depends on its own items only. -/
theorem SlotOk.congr {keyLimit t : ℕ} {live live' : List (RadixItem α)}
    {slot : ℕ → List (RadixItem α)} {d : RadixSlot} (h : SlotOk keyLimit live t slot d)
    (hitems : slotItems live' t = slotItems live t) : SlotOk keyLimit live' t slot d where
  buckets := fun l hl => by rw [h.buckets l hl, fiber_key_eq live t hl, fiber_key_eq live' t hl,
    hitems]
  counts := by rw [hitems]; exact h.counts
  bounds := by rw [hitems]; exact h.bounds
  inSlot := by rw [hitems]; exact h.inSlot
  reset := by rw [hitems]; exact h.reset

/-- Writing one slot and its descriptor, where the items of the other slots stay
what they were. -/
theorem TableOk.update {keyLimit t : ℕ} {live live' : List (RadixItem α)}
    {top : ℕ → Option (ℕ → List (RadixItem α))} {desc : ℕ → Option RadixSlot}
    {slot : ℕ → List (RadixItem α)} {d : RadixSlot} (h : TableOk keyLimit live top desc)
    (hself : SlotOk keyLimit live' t slot d)
    (hother : ∀ u, u ≠ t → slotItems live' u = slotItems live u) :
    TableOk keyLimit live' (Function.update top t (some slot))
      (Function.update desc t (some d)) := by
  intro u
  by_cases hut : u = t
  · subst hut
    simp only [Function.update_self]
    refine ⟨fun hnone => absurd hnone (Option.some_ne_none slot), fun slot' hslot' => ?_⟩
    rw [← Option.some.inj hslot']
    exact ⟨d, rfl, hself⟩
  · simp only [Function.update_of_ne hut]
    refine ⟨fun hnone => by rw [hother u hut]; exact (h u).1 hnone, fun slot' hslot' => ?_⟩
    obtain ⟨d', hd', hok⟩ := (h u).2 slot' hslot'
    exact ⟨d', hd', hok.congr (hother u hut)⟩

/-! ## `radixsort_add` -/

theorem slotItems_cons_self (x : RadixItem α) (live : List (RadixItem α)) :
    slotItems (x :: live) (GET_TOP_INDEX x.key) = x :: slotItems live (GET_TOP_INDEX x.key) :=
  fiber_cons_self (fun x : RadixItem α => GET_TOP_INDEX x.key) x live

theorem slotItems_cons_of_ne {x : RadixItem α} {t : ℕ} (live : List (RadixItem α))
    (h : GET_TOP_INDEX x.key ≠ t) : slotItems (x :: live) t = slotItems live t :=
  fiber_cons_of_ne (fun x : RadixItem α => GET_TOP_INDEX x.key) live h

/-- Filing an item in a slot: its bucket, the bounds and the counter. A slot
that was empty has the initial bounds, so the new ones are the key twice. -/
theorem SlotOk.cons_self {keyLimit : ℕ} {live : List (RadixItem α)}
    {slot : ℕ → List (RadixItem α)} {d : RadixSlot} {x : RadixItem α}
    (h : SlotOk keyLimit live (GET_TOP_INDEX x.key) slot d) (hx : x.key < keyLimit) :
    SlotOk keyLimit (x :: live) (GET_TOP_INDEX x.key)
      (Function.update slot (GET_LOW_INDEX x.key) (x :: slot (GET_LOW_INDEX x.key)))
      ⟨Nat.min d.min x.key, Nat.max d.max x.key, d.size + 1⟩ := by
  have hitems := slotItems_cons_self x live
  -- buckets, counter, bounds, the slot of the bounds, the empty slot
  refine ⟨?_, ?_, ?_, ?_, ?_⟩
  · intro l hl
    by_cases hlow : l = GET_LOW_INDEX x.key
    · subst hlow
      rw [Function.update_self, h.buckets _ hl, key_eq_top_low,
        fiber_cons_self RadixItem.key x live]
    · rw [Function.update_of_ne hlow, h.buckets l hl]
      have hkey : x.key ≠ GET_TOP_INDEX x.key * RADIX_SLOT_SIZE + l :=
        fun hk => hlow ((key_eq_iff hl).mp hk).2.symm
      rw [fiber_cons_of_ne RadixItem.key live hkey]
  · rw [hitems, List.length_cons]
    exact congrArg (· + 1) h.counts
  · intro y hy
    rw [hitems, List.mem_cons] at hy
    rcases hy with rfl | hy
    · exact ⟨Nat.min_le_right _ _, Nat.le_max_right _ _⟩
    · have hb := h.bounds y hy
      exact ⟨le_trans (Nat.min_le_left _ _) hb.1, le_trans hb.2 (Nat.le_max_left _ _)⟩
  · intro _
    -- the initial bounds are no keys of the slot, so this case is its own
    by_cases hempty : slotItems live (GET_TOP_INDEX x.key) = []
    · obtain ⟨hmin, hmax⟩ := h.reset hempty
      have h1 : Nat.min d.min x.key = x.key := by rw [hmin]; exact Nat.min_eq_right hx.le
      have h2 : Nat.max d.max x.key = x.key := by rw [hmax]; exact Nat.max_eq_right (Nat.zero_le _)
      exact ⟨by rw [h1], by rw [h2]⟩
    · obtain ⟨hmin, hmax⟩ := h.inSlot hempty
      constructor
      · rcases Nat.le_total d.min x.key with hle | hle
        · rw [show Nat.min d.min x.key = d.min from Nat.min_eq_left hle, hmin]
        · rw [show Nat.min d.min x.key = x.key from Nat.min_eq_right hle]
      · rcases Nat.le_total d.max x.key with hle | hle
        · rw [show Nat.max d.max x.key = x.key from Nat.max_eq_right hle]
        · rw [show Nat.max d.max x.key = d.max from Nat.max_eq_left hle, hmax]
  · intro hnil
    rw [hitems] at hnil
    exact absurd hnil (List.cons_ne_nil _ _)

theorem ensureSlot_eq (rs : RadixSorter α) (t : ℕ) :
    ensureSlot rs t = if rs.topDigits t = none then radixsort_get_slot rs t else rs := by
  unfold ensureSlot
  split
  · next slot h => rw [if_neg (by rw [h]; exact Option.some_ne_none slot)]
  · next h => rw [if_pos h]

/-- Allocating an empty slot changes nothing about the live items. -/
theorem Represents.ensureSlot {rs : RadixSorter α} {live : List (RadixItem α)}
    (h : Represents rs live) (t : ℕ) :
    Represents (ensureSlot rs t) live ∧ (ensureSlot rs t).topDigits t ≠ none
      ∧ (Radixsort.ensureSlot rs t).keyLimit = rs.keyLimit
      ∧ (Radixsort.ensureSlot rs t)._topIndexLimit = rs._topIndexLimit
      ∧ (Radixsort.ensureSlot rs t).optionBigKeys = rs.optionBigKeys := by
  rw [ensureSlot_eq]
  by_cases hnone : rs.topDigits t = none
  · rw [if_pos hnone]
    have hempty : slotItems live t = [] := (h.table t).1 hnone
    -- the new slot and the initial descriptor agree: there are no items
    have hslot : SlotOk rs.keyLimit live t (fun _ => []) ⟨rs.keyLimit, 0, 0⟩ := by
      refine ⟨fun l hl => ?_, by rw [hempty]; rfl, ?_, fun hne => absurd hempty hne,
        fun _ => ⟨rfl, rfl⟩⟩
      · rw [fiber_key_eq live t hl, hempty, fiber_nil]
      · rw [hempty]
        exact fun x hx => absurd hx List.not_mem_nil
    refine ⟨⟨h.limit, h.size, h.nodup, h.inTable, h.maxKey, h.maxKeyInTable, ?_⟩, ?_, rfl,
      rfl, rfl⟩
    · exact h.table.update hslot fun _ _ => rfl
    · simp [radixsort_get_slot]
  · rw [if_neg hnone]
    exact ⟨h, hnone, rfl, rfl, rfl⟩

/-- **Filing an item** whose data is new and whose slot is in the table. -/
theorem Represents.fileItem {rs : RadixSorter α} {live : List (RadixItem α)}
    (h : Represents rs live) {x : RadixItem α} (hnew : x.data ∉ live.map RadixItem.data)
    (hx : GET_TOP_INDEX x.key < rs._topIndexLimit) :
    ∃ rs', fileItem rs x = .ok rs' ∧ Represents rs' (x :: live) ∧ rs'.keyLimit = rs.keyLimit
      ∧ rs'.optionBigKeys = rs.optionBigKeys := by
  obtain ⟨h1, hsome, hkl, htl, hopt⟩ := h.ensureSlot (GET_TOP_INDEX x.key)
  rw [Radixsort.fileItem, if_pos hx]
  generalize Radixsort.ensureSlot rs (GET_TOP_INDEX x.key) = rs1 at h1 hsome hkl htl hopt ⊢
  obtain ⟨slot, hslot⟩ := Option.ne_none_iff_exists'.mp hsome
  obtain ⟨d, hd, hok⟩ := (h1.table _).2 _ hslot
  rw [← htl] at hx
  have hlt : x.key < rs1.keyLimit := lt_keyLimit_of_top (h1.limit ▸ hx)
  simp only [hslot, hd]
  -- what changed: `size`, `maxKey`, and the two tables at the top index
  refine ⟨_, rfl, ⟨h1.limit, ?_, ?_, ?_, ?_, ?_, ?_⟩, hkl, hopt⟩
  · exact congrArg (· + 1) h1.size
  · exact List.nodup_cons.mpr ⟨hnew, h1.nodup⟩
  · intro y hy
    rcases List.mem_cons.mp hy with rfl | hy
    · exact hx
    · exact h1.inTable y hy
  · intro y hy
    rcases List.mem_cons.mp hy with rfl | hy
    · exact Nat.le_max_right _ _
    · exact le_trans (h1.maxKey y hy) (Nat.le_max_left _ _)
  · refine Or.inr ?_
    have hzero : GET_TOP_INDEX 0 < rs1._topIndexLimit :=
      lt_of_le_of_lt (GET_TOP_INDEX_mono (Nat.zero_le x.key)) hx
    rcases Nat.le_total rs1.maxKey x.key with hle | hle
    · rw [show Nat.max rs1.maxKey x.key = x.key from Nat.max_eq_right hle]
      exact hx
    · rw [show Nat.max rs1.maxKey x.key = rs1.maxKey from Nat.max_eq_left hle]
      rcases h1.maxKeyInTable with h0 | h0
      · rw [h0]; exact hzero
      · exact h0
  · exact h1.table.update (hok.cons_self hlt) fun u hu => slotItems_cons_of_ne live (Ne.symm hu)

/-- `radixsort_add` accepts an item whose slot is in the table. -/
theorem Represents.radixsort_add {rs : RadixSorter α} {live : List (RadixItem α)}
    (h : Represents rs live) {x : RadixItem α} (hnew : x.data ∉ live.map RadixItem.data)
    (hx : GET_TOP_INDEX x.key < rs._topIndexLimit) :
    ∃ rs', radixsort_add rs x = .ok rs' ∧ Represents rs' (x :: live)
      ∧ rs'.keyLimit = rs.keyLimit ∧ rs'.optionBigKeys = rs.optionBigKeys := by
  have hle : ¬ x.key > rs.keyLimit := by
    have := lt_keyLimit_of_top (h.limit ▸ hx)
    omega
  rw [Radixsort.radixsort_add, if_neg hle]
  exact h.fileItem hnew hx

/-! ## `radix_cut` -/

/-- Two different items of a slot with one item left over do not exist. -/
theorem mem_eq_of_length_one {live : List (RadixItem α)} (h : live.length = 1)
    {x y : RadixItem α} (hx : x ∈ live) (hy : y ∈ live) : x = y := by
  obtain ⟨z, rfl⟩ := List.length_eq_one_iff.mp h
  rw [List.mem_singleton.mp hx, List.mem_singleton.mp hy]

section Cut

variable [DecidableEq α]

/-- The live items after the one with `data` is cut. -/
def without (live : List (RadixItem α)) (data : α) : List (RadixItem α) :=
  live.filter fun x => x.data ≠ data

/-- The walk finds the item with the data and takes it out. -/
theorem unlink_eq {chain : List (RadixItem α)} {x : RadixItem α}
    (hnd : (chain.map RadixItem.data).Nodup) (hx : x ∈ chain) :
    unlink x.data chain = some (x, without chain x.data) := by
  induction chain with
  | nil => exact absurd hx List.not_mem_nil
  | cons y rest ih =>
      rw [List.map_cons, List.nodup_cons] at hnd
      obtain ⟨hy, hnd⟩ := hnd
      rcases List.mem_cons.mp hx with rfl | hx
      · have hself : without rest x.data = rest := by
          rw [without, List.filter_eq_self]
          intro z hz
          have hne : z.data ≠ x.data := fun h => hy (h ▸ List.mem_map_of_mem hz)
          simpa using hne
        -- the walk stops at the first match, and there is no second one
        rw [unlink, if_pos rfl, without, List.filter_cons_of_neg (by simp), ← without, hself]
      · have hne : y.data ≠ x.data := fun h => hy (h ▸ List.mem_map_of_mem hx)
        rw [unlink, if_neg hne, ih hnd hx, without, without,
          List.filter_cons_of_pos (by simpa using hne)]
        rfl

theorem slotItems_without (live : List (RadixItem α)) (data : α) (t : ℕ) :
    slotItems (without live data) t = without (slotItems live t) data := fiber_filter _ live t

/-- A cut does not touch the items of other slots. -/
theorem slotItems_without_of_ne {live : List (RadixItem α)} {x : RadixItem α}
    (hnd : (live.map RadixItem.data).Nodup) (hx : x ∈ live) {t : ℕ}
    (ht : GET_TOP_INDEX x.key ≠ t) : slotItems (without live x.data) t = slotItems live t := by
  rw [slotItems_without, without, List.filter_eq_self]
  intro y hy
  obtain ⟨hy, hyt⟩ := mem_slotItems.mp hy
  have hne : y.data ≠ x.data := by
    intro h
    exact ht (List.inj_on_of_nodup_map hnd hy hx h ▸ hyt)
  simpa using hne

/-- The buckets after an item of the slot is unlinked from its bucket. -/
theorem SlotOk.buckets_cut {keyLimit t : ℕ} {live : List (RadixItem α)}
    {slot : ℕ → List (RadixItem α)} {d : RadixSlot} (h : SlotOk keyLimit live t slot d)
    {x : RadixItem α} (hnd : (live.map RadixItem.data).Nodup) (hx : x ∈ live) :
    ∀ l < RADIX_SLOT_SIZE,
      Function.update slot (GET_LOW_INDEX x.key) (without (slot (GET_LOW_INDEX x.key)) x.data) l
        = fiber RadixItem.key (without live x.data) (t * RADIX_SLOT_SIZE + l) := by
  intro l hl
  have hfiber : fiber RadixItem.key (without live x.data) (t * RADIX_SLOT_SIZE + l)
      = (slot l).filter fun y => decide (y.data ≠ x.data) := by
    rw [without, fiber_filter, ← h.buckets l hl]
  rw [hfiber]
  by_cases hlow : l = GET_LOW_INDEX x.key
  · rw [hlow, Function.update_self, without]
  · rw [Function.update_of_ne hlow, eq_comm, List.filter_eq_self]
    intro y hy
    rw [h.buckets l hl, mem_fiber, key_eq_iff hl] at hy
    have hne : y.data ≠ x.data := by
      intro hd
      exact hlow (List.inj_on_of_nodup_map hnd hy.1 hx hd ▸ hy.2.2.symm)
    simpa using hne

omit [DecidableEq α] in
/-- A bucket found through a key of the slot holds a live item with that key. -/
theorem exists_of_bucket_ne_nil {t : ℕ} {live : List (RadixItem α)} {slot : ℕ → List (RadixItem α)}
    (hbuckets : ∀ l < RADIX_SLOT_SIZE, slot l = fiber RadixItem.key live (t * RADIX_SLOT_SIZE + l))
    {k : ℕ} (hk : GET_TOP_INDEX k = t) (hne : slot (GET_LOW_INDEX k) ≠ []) :
    ∃ y ∈ slotItems live t, y.key = k := by
  rw [hbuckets _ (GET_LOW_INDEX_lt k), ← hk, key_eq_top_low] at hne
  obtain ⟨y, hy⟩ := List.exists_mem_of_ne_nil _ hne
  rw [mem_fiber] at hy
  exact ⟨y, mem_slotItems.mpr ⟨hy.1, by rw [hy.2, hk]⟩, hy.2⟩

omit [DecidableEq α] in
/-- The key of the only item is both bounds. -/
theorem key_bounds_of_length_one {t k : ℕ} {live : List (RadixItem α)}
    (hone : (slotItems live t).length = 1) (hk : ∃ y ∈ slotItems live t, y.key = k) :
    ∀ z ∈ slotItems live t, k ≤ z.key ∧ z.key ≤ k := by
  obtain ⟨y, hy, rfl⟩ := hk
  intro z hz
  rw [mem_eq_of_length_one hone hz hy]
  exact ⟨le_refl _, le_refl _⟩

/-- **What a cut leaves of a slot.** The bounds stay bounds: an empty slot gets
the initial ones back; where one item is left, its bucket is found through a
bound, and then that bound is its key; otherwise they are not touched. -/
theorem SlotOk.cut {keyLimit t : ℕ} {live : List (RadixItem α)}
    {slot : ℕ → List (RadixItem α)} {d : RadixSlot} (h : SlotOk keyLimit live t slot d)
    {x : RadixItem α} (hnd : (live.map RadixItem.data).Nodup) (hx : x ∈ slotItems live t) :
    SlotOk keyLimit (without live x.data) t
      (Function.update slot (GET_LOW_INDEX x.key) (without (slot (GET_LOW_INDEX x.key)) x.data))
      (radix_dec_slot_descriptor_size keyLimit
        (Function.update slot (GET_LOW_INDEX x.key) (without (slot (GET_LOW_INDEX x.key)) x.data))
        d) := by
  obtain ⟨hxl, hxt⟩ := mem_slotItems.mp hx
  have hndt : ((slotItems live t).map RadixItem.data).Nodup :=
    hnd.sublist (List.filter_sublist.map _)
  have hcount : (slotItems (without live x.data) t).length + 1 = (slotItems live t).length := by
    rw [slotItems_without, (perm_cons_filter_ne hndt hx).length_eq, List.length_cons, without]
  have hbuckets := h.buckets_cut hnd hxl
  generalize Function.update slot (GET_LOW_INDEX x.key)
    (without (slot (GET_LOW_INDEX x.key)) x.data) = slot' at hbuckets ⊢
  have hsub : ∀ y ∈ slotItems (without live x.data) t, y ∈ slotItems live t := by
    intro y hy
    rw [slotItems_without] at hy
    exact List.mem_of_mem_filter hy
  have hbounds : ∀ y ∈ slotItems (without live x.data) t, d.min ≤ y.key ∧ y.key ≤ d.max :=
    fun y hy => h.bounds y (hsub y hy)
  have hin := h.inSlot (List.ne_nil_of_mem hx)
  have hsize : d.size - 1 = (slotItems (without live x.data) t).length := by
    have := h.counts
    omega
  -- the three cases of the function: no item is left, one, more
  unfold radix_dec_slot_descriptor_size
  by_cases h0 : d.size - 1 = 0
  · have hnil : slotItems (without live x.data) t = [] := by
      rw [← List.length_eq_zero_iff]
      omega
    simp only [if_pos h0]
    refine ⟨hbuckets, hsize, ?_, fun hne => absurd hnil hne, fun _ => ⟨rfl, rfl⟩⟩
    rw [hnil]
    exact fun y hy => absurd hy List.not_mem_nil
  · have hne : slotItems (without live x.data) t ≠ [] := by
      rw [← List.length_pos_iff]
      omega
    simp only [if_neg h0]
    by_cases h1 : d.size - 1 = 1
    · rw [if_pos h1]
      have hone : (slotItems (without live x.data) t).length = 1 := by omega
      by_cases hmax : slot' (GET_LOW_INDEX d.max) ≠ []
      · rw [if_pos hmax]
        exact ⟨hbuckets, hsize,
          key_bounds_of_length_one hone (exists_of_bucket_ne_nil hbuckets hin.2 hmax),
          fun _ => ⟨hin.2, hin.2⟩, fun hnil => absurd hnil hne⟩
      · rw [if_neg hmax]
        by_cases hmin : slot' (GET_LOW_INDEX d.min) ≠ []
        · rw [if_pos hmin]
          exact ⟨hbuckets, hsize,
            key_bounds_of_length_one hone (exists_of_bucket_ne_nil hbuckets hin.1 hmin),
            fun _ => ⟨hin.1, hin.1⟩, fun hnil => absurd hnil hne⟩
        · rw [if_neg hmin]
          exact ⟨hbuckets, hsize, hbounds, fun _ => hin, fun hnil => absurd hnil hne⟩
    · rw [if_neg h1]
      exact ⟨hbuckets, hsize, hbounds, fun _ => hin, fun hnil => absurd hnil hne⟩

/-- **`radix_cut` of a live item** under its key returns it and leaves the other
live items. The bucket is not empty, so no `NULL` is read. -/
theorem Represents.radix_cut {rs : RadixSorter α} {live : List (RadixItem α)}
    (h : Represents rs live) {x : RadixItem α} (hx : x ∈ live) :
    ∃ rs', radix_cut rs x.key x.data = .ok (some x, rs') ∧ Represents rs' (without live x.data)
      ∧ rs'.keyLimit = rs.keyLimit ∧ rs'.optionBigKeys = rs.optionBigKeys := by
  have hitem : x ∈ slotItems live (GET_TOP_INDEX x.key) := mem_slotItems.mpr ⟨hx, rfl⟩
  have hsome : rs.topDigits (GET_TOP_INDEX x.key) ≠ none := by
    intro hnone
    rw [(h.table _).1 hnone] at hitem
    exact List.not_mem_nil hitem
  obtain ⟨slot, hslot⟩ := Option.ne_none_iff_exists'.mp hsome
  obtain ⟨d, hd, hok⟩ := (h.table _).2 slot hslot
  -- the walk starts in the bucket of the key, where the item is
  have hbucket : slot (GET_LOW_INDEX x.key) = fiber RadixItem.key live x.key := by
    rw [hok.buckets _ (GET_LOW_INDEX_lt _), key_eq_top_low]
  have hmem : x ∈ slot (GET_LOW_INDEX x.key) := by
    rw [hbucket]
    exact mem_fiber.mpr ⟨hx, rfl⟩
  have hndb : ((slot (GET_LOW_INDEX x.key)).map RadixItem.data).Nodup := by
    rw [hbucket]
    exact h.nodup.sublist (List.filter_sublist.map _)
  have hperm := perm_cons_filter_ne h.nodup hx
  rw [Radixsort.radix_cut, if_pos (h.maxKey x hx)]
  simp only [if_pos (h.inTable x hx), hslot, if_neg (List.ne_nil_of_mem hmem), unlink_eq hndb hmem,
    hd]
  refine ⟨_, rfl, ⟨h.limit, ?_, ?_, ?_, ?_, h.maxKeyInTable, ?_⟩, rfl, rfl⟩
  · rw [h.size, hperm.length_eq, List.length_cons]
    rfl
  · exact h.nodup.sublist (List.filter_sublist.map _)
  · exact fun y hy => h.inTable y (List.mem_of_mem_filter hy)
  · exact fun y hy => h.maxKey y (List.mem_of_mem_filter hy)
  · exact h.table.update (hok.cut h.nodup hitem)
      fun u hu => slotItems_without_of_ne h.nodup hx (Ne.symm hu)

end Cut

/-! ## Keys over the limit

The limit of a sorter with whole slots is a multiple of the slot size. A key
over it is skipped, or filed under the last key of the table; either way no
live item has a key that a later cut of the original key could find. -/

/-- The key an item is stored under, `none` if it is not stored. -/
def storedKey (optionBigKeys : BigKeys) (keyLimit key : ℕ) : Option ℕ :=
  if key > keyLimit then
    match optionBigKeys with
    | .FLOOR => some (keyLimit - 1)
    | _ => none
  else some key

/-- The live items after an addition: the item is in front, under the key it is
stored under, if it is stored. -/
def liveAdd (optionBigKeys : BigKeys) (keyLimit : ℕ) (x : RadixItem α)
    (live : List (RadixItem α)) : List (RadixItem α) :=
  match storedKey optionBigKeys keyLimit x.key with
  | some key => { x with key } :: live
  | none => live

/-- `radixsort_add` of any key but the limit itself. -/
theorem Represents.radixsort_add_any {rs : RadixSorter α} {live : List (RadixItem α)}
    (h : Represents rs live) {x : RadixItem α} (hnew : x.data ∉ live.map RadixItem.data)
    (hwhole : RADIX_SLOT_SIZE ∣ rs.keyLimit) (hpos : 0 < rs.keyLimit)
    (hopt : rs.optionBigKeys ≠ .EXIT) (hkey : x.key ≠ rs.keyLimit) :
    ∃ rs', Radixsort.radixsort_add rs x = .ok rs'
      ∧ Represents rs' (liveAdd rs.optionBigKeys rs.keyLimit x live)
      ∧ rs'.keyLimit = rs.keyLimit ∧ rs'.optionBigKeys = rs.optionBigKeys := by
  -- below a limit of whole slots every key has its slot in the table
  have htop : ∀ key, key < rs.keyLimit → GET_TOP_INDEX key < rs._topIndexLimit := by
    intro key hlt
    obtain ⟨n, hn⟩ := hwhole
    rw [h.limit]
    simp only [GET_TOP_INDEX, RADIX_SLOT_SIZE] at *
    omega
  unfold liveAdd storedKey
  by_cases hbig : x.key > rs.keyLimit
  · rw [Radixsort.radixsort_add, if_pos hbig, if_pos hbig]
    cases ho : rs.optionBigKeys with
    | SKIP => exact ⟨rs, rfl, h, rfl, ho⟩
    | FLOOR =>
        have hlast : GET_TOP_INDEX (rs.keyLimit - 1) < rs._topIndexLimit :=
          htop _ (Nat.sub_lt hpos Nat.one_pos)
        obtain ⟨rs', hfile, hrep, hkl, hopt'⟩ :=
          h.fileItem (x := { x with key := rs.keyLimit - 1 }) hnew hlast
        exact ⟨rs', hfile, hrep, hkl, hopt'.trans ho⟩
    | EXIT => exact absurd ho hopt
  · rw [if_neg hbig]
    exact h.radixsort_add hnew (htop _ (by omega))

/-- `radix_cut` of a key over the limit finds nothing. -/
theorem Represents.radix_cut_of_gt [DecidableEq α] {rs : RadixSorter α}
    {live : List (RadixItem α)} (h : Represents rs live) {key : ℕ} (hkey : rs.keyLimit < key)
    (data : α) : Radixsort.radix_cut rs key data = .ok (none, rs) := by
  -- `maxKey` never goes over the limit, so the first test fails
  have hmax : ¬ key ≤ rs.maxKey := by
    rcases h.maxKeyInTable with h0 | htop
    · omega
    · rw [h.limit] at htop
      have := lt_keyLimit_of_top htop
      omega
  rw [Radixsort.radix_cut, if_neg hmax]

/-! ## `radixsort_dump`

The loops visit the buckets in descending order of their keys. Read without
their shortcuts they list the fibers of the live items over the descending
keys, and the shortcuts skip empty buckets only. -/

/-- The indices `n`, `n - 1`, ..., 0. -/
def down (n : ℕ) : List ℕ := (List.range (n + 1)).reverse

theorem down_zero : down 0 = [0] := rfl

theorem down_succ (n : ℕ) : down (n + 1) = (n + 1) :: down n := by
  simp [down, List.range_succ]

theorem mem_down {n i : ℕ} : i ∈ down n ↔ i ≤ n := by
  rw [down, List.mem_reverse, List.mem_range]
  omega

theorem down_pairwise (n : ℕ) : (down n).Pairwise (· > ·) := by
  rw [down, List.pairwise_reverse]
  exact List.pairwise_lt_range

/-- Indices above the last bucket with items add nothing. -/
theorem listing_down_of_le {b : ℕ → List α} {m n : ℕ} (hmn : m ≤ n)
    (hb : ∀ i, m < i → i ≤ n → b i = []) : listing (down n) b = listing (down m) b := by
  induction n, hmn using Nat.le_induction with
  | base => rfl
  | succ n hmn ih =>
      rw [down_succ, listing_cons, hb (n + 1) (by omega) le_rfl, List.nil_append]
      exact ih fun i h1 h2 => hb i h1 (by omega)

/-- The inner loop lists all buckets from `l` down: below `slotMin` there are
no items, and once all items of the slot are counted there are no more. -/
theorem dumpBuckets_eq {slot : ℕ → List (RadixItem α)} {slotMin slotSize : ℕ}
    (hmin : ∀ i, i < slotMin → slot i = []) (l slotCount : ℕ)
    (hcount : slotCount + (listing (down l) slot).length = slotSize) :
    dumpBuckets slot slotMin slotSize l slotCount = listing (down l) slot := by
  induction l generalizing slotCount with
  | zero =>
      rw [dumpBuckets, down_zero, listing_cons, listing_nil, List.append_nil]
  | succ l ih =>
      rw [down_succ, listing_cons, List.length_append] at hcount
      rw [dumpBuckets, down_succ, listing_cons]
      by_cases hgo : slotMin ≤ l ∧ slotCount + (slot (l + 1)).length < slotSize
      · rw [if_pos hgo, ih _ (by omega)]
      -- the loop ends here: the buckets below are empty, for one of the two reasons
      · rw [if_neg hgo]
        have hnil : listing (down l) slot = [] := by
          by_cases hle : slotMin ≤ l
          · rw [← List.length_eq_zero_iff]
            omega
          · refine List.flatMap_eq_nil_iff.mpr fun i hi => hmin i ?_
            have := mem_down.mp hi
            omega
        rw [hnil]

/-- The buckets of slot `t`, from the last down, as the live items have them. -/
def slotListing (live : List (RadixItem α)) (t : ℕ) : List (RadixItem α) :=
  listing (down (RADIX_SLOT_SIZE - 1))
    (fun l => fiber RadixItem.key live (t * RADIX_SLOT_SIZE + l))

theorem slotListing_perm (live : List (RadixItem α)) (t : ℕ) :
    (slotListing live t).Perm (slotItems live t) := by
  have hlow : slotListing live t
      = listing (down (RADIX_SLOT_SIZE - 1))
          (fiber (fun x => GET_LOW_INDEX x.key) (slotItems live t)) := by
    refine listing_congr fun l hl => ?_
    have hlt : l < RADIX_SLOT_SIZE := by
      have := mem_down.mp hl
      simp only [RADIX_SLOT_SIZE] at *
      omega
    rw [fiber_key_eq live t hlt]
    refine List.filter_congr fun x hx => ?_
    have htop := (mem_slotItems.mp hx).2
    simp only [key_eq_iff hlt, htop, true_and]
  rw [hlow]
  refine listing_fiber_perm ((down_pairwise _).imp fun h => ne_of_gt h) fun x _ => ?_
  have := GET_LOW_INDEX_lt x.key
  rw [mem_down]
  omega

/-- A slot without live items lists nothing. -/
theorem slotListing_eq_nil {live : List (RadixItem α)} {t : ℕ} (h : slotItems live t = []) :
    slotListing live t = [] := by
  have hperm := slotListing_perm live t
  rw [h] at hperm
  exact hperm.eq_nil

/-- One round of the outer loop, with all the shortcuts its descriptor gives. -/
theorem Represents.dumpSlot {rs : RadixSorter α} {live : List (RadixItem α)}
    (h : Represents rs live) {t : ℕ} (ht : t < rs._topIndexLimit) :
    dumpSlot rs t = .ok (slotListing live t) := by
  rw [Radixsort.dumpSlot, if_pos ht]
  cases htop : rs.topDigits t with
  | none => rw [slotListing_eq_nil ((h.table t).1 htop)]
  | some slot =>
      obtain ⟨d, hd, hok⟩ := (h.table t).2 slot htop
      simp only [hd]
      by_cases hsize : d.size > 0
      · rw [if_pos hsize]
        have hne : slotItems live t ≠ [] := by
          rw [← List.length_pos_iff, ← hok.counts]
          exact hsize
        obtain ⟨hmin, hmax⟩ := hok.inSlot hne
        -- a bucket with an item has its low index between those of the bounds
        have hitem : ∀ l, l < RADIX_SLOT_SIZE → slot l ≠ [] →
            GET_LOW_INDEX d.min ≤ l ∧ l ≤ GET_LOW_INDEX d.max := by
          intro l hl hne
          rw [hok.buckets l hl] at hne
          obtain ⟨x, hx⟩ := List.exists_mem_of_ne_nil _ hne
          obtain ⟨hx, hkey⟩ := mem_fiber.mp hx
          have hidx := (key_eq_iff hl).mp hkey
          have hb := hok.bounds x (mem_slotItems.mpr ⟨hx, hidx.1⟩)
          have hmin' := key_eq_top_low d.min
          have hmax' := key_eq_top_low d.max
          rw [hmin] at hmin'
          rw [hmax] at hmax'
          omega
        have hlow := GET_LOW_INDEX_lt d.max
        -- the buckets above that of `max` are empty too
        have hall : listing (down (GET_LOW_INDEX d.max)) slot = slotListing live t := by
          have hslot : slotListing live t = listing (down (RADIX_SLOT_SIZE - 1)) slot := by
            refine listing_congr fun l hl => (hok.buckets l ?_).symm
            have := mem_down.mp hl
            simp only [RADIX_SLOT_SIZE] at *
            omega
          rw [hslot]
          refine (listing_down_of_le (by omega) fun i h1 h2 => ?_).symm
          by_contra hne
          have := (hitem i (by omega) hne).2
          omega
        rw [dumpBuckets_eq, hall]
        · intro i hi
          by_contra hne
          have hmin' := GET_LOW_INDEX_lt d.min
          have := (hitem i (by omega) hne).1
          omega
        · rw [hall, (slotListing_perm live t).length_eq, ← hok.counts, Nat.zero_add]
      · rw [if_neg hsize]
        have hnil : slotItems live t = [] := by
          rw [← List.length_eq_zero_iff, ← hok.counts]
          omega
        rw [slotListing_eq_nil hnil]

theorem Represents.dumpSlots {rs : RadixSorter α} {live : List (RadixItem α)}
    (h : Represents rs live) {t : ℕ} (ht : t < rs._topIndexLimit) :
    dumpSlots rs t = .ok (listing (down t) (slotListing live)) := by
  induction t with
  | zero =>
      rw [Radixsort.dumpSlots, h.dumpSlot ht, down_zero, listing_cons, listing_nil,
        List.append_nil]
  | succ t ih =>
      rw [Radixsort.dumpSlots, h.dumpSlot ht, ih (by omega), down_succ, listing_cons]
      rfl

/-- The keys of the slots `T` down to 0, descending. -/
def keysDown (T : ℕ) : List ℕ :=
  (down T).flatMap fun t => (down (RADIX_SLOT_SIZE - 1)).map fun l => t * RADIX_SLOT_SIZE + l

theorem mem_keysDown {T key : ℕ} (h : GET_TOP_INDEX key ≤ T) : key ∈ keysDown T := by
  refine List.mem_flatMap.mpr ⟨GET_TOP_INDEX key, mem_down.mpr h, List.mem_map.mpr ?_⟩
  have hlt := GET_LOW_INDEX_lt key
  exact ⟨GET_LOW_INDEX key, mem_down.mpr (by omega), key_eq_top_low key⟩

theorem keysDown_pairwise (T : ℕ) : (keysDown T).Pairwise (· > ·) := by
  refine List.pairwise_flatMap.mpr ⟨fun t _ => ?_, (down_pairwise T).imp ?_⟩
  · exact List.pairwise_map.mpr ((down_pairwise _).imp fun h => by omega)
  · intro t u htu x hx y hy
    obtain ⟨l, hl, rfl⟩ := List.mem_map.mp hx
    obtain ⟨m, hm, rfl⟩ := List.mem_map.mp hy
    rw [mem_down] at hl hm
    simp only [RADIX_SLOT_SIZE] at *
    omega

theorem listing_slotListing (live : List (RadixItem α)) (T : ℕ) :
    listing (down T) (slotListing live) = listing (keysDown T) (fiber RadixItem.key live) := by
  simp only [listing, keysDown, List.flatMap_assoc, List.flatMap_map]
  rfl

/-- `out` lists the live items by priority: every one exactly once, the keys
non-increasing, and among equal keys the most recently added first. -/
structure ByPriority (live out : List (RadixItem α)) : Prop where
  perm : out.Perm live
  ordered : out.Pairwise fun x y => y.key ≤ x.key
  recent : ∀ key, (out.filter fun x => x.key = key) = live.filter fun x => x.key = key

/-- In the listing, of two items with the same key the more recent comes
first. -/
theorem ByPriority.pairwise {live out : List (RadixItem α)} (h : ByPriority live out)
    {R : RadixItem α → RadixItem α → Prop} (hR : live.Pairwise R) :
    out.Pairwise fun x y => y.key < x.key ∨ y.key = x.key ∧ R x y := by
  have hties : out.Pairwise fun x y => y.key = x.key → R x y := by
    refine pairwise_of_fibers (k := RadixItem.key) fun key => ?_
    rw [fiber, h.recent key]
    exact hR.sublist List.filter_sublist
  refine (h.ordered.and hties).imp fun {x y} hxy => ?_
  rcases Nat.lt_or_eq_of_le hxy.1 with hlt | heq
  · exact Or.inl hlt
  · exact Or.inr ⟨heq, hxy.2 heq⟩

/-- **`radixsort_dump` lists the live items by priority.** -/
theorem Represents.radixsort_dump {rs : RadixSorter α} {live : List (RadixItem α)}
    (h : Represents rs live) :
    ∃ out, radixsort_dump rs = .ok out ∧ out.length = rs.size ∧ ByPriority live out := by
  by_cases hsize : rs.size > 0
  · have hlive : live ≠ [] := by
      rw [← List.length_pos_iff, ← h.size]
      exact hsize
    -- the first slot of the loop is in the table, also when `maxKey` is still 0
    have hmax : GET_TOP_INDEX rs.maxKey < rs._topIndexLimit := by
      rcases h.maxKeyInTable with h0 | h0
      · obtain ⟨x, hx⟩ := List.exists_mem_of_ne_nil _ hlive
        rw [h0]
        exact lt_of_le_of_lt (GET_TOP_INDEX_mono (Nat.zero_le x.key)) (h.inTable x hx)
      · exact h0
    have hkeys := keysDown_pairwise (GET_TOP_INDEX rs.maxKey)
    have hnd : (keysDown (GET_TOP_INDEX rs.maxKey)).Nodup := hkeys.imp fun h => ne_of_gt h
    have hcover : ∀ x ∈ live, x.key ∈ keysDown (GET_TOP_INDEX rs.maxKey) :=
      fun x hx => mem_keysDown (GET_TOP_INDEX_mono (h.maxKey x hx))
    have hperm := listing_fiber_perm hnd hcover
    rw [Radixsort.radixsort_dump, if_pos hsize, h.dumpSlots hmax, listing_slotListing]
    refine ⟨_, rfl, by rw [hperm.length_eq, h.size], hperm, ?_, ?_⟩
    · refine (listing_fiber_pairwise hkeys live).imp ?_
      rintro x y (heq | hgt)
      · exact heq.ge
      · exact hgt.le
    · intro key
      by_cases hkey : key ∈ keysDown (GET_TOP_INDEX rs.maxKey)
      · exact filter_listing_fiber hnd live hkey
      -- the loop never comes to the key, and no live item has it
      · have hnone : ∀ x ∈ live, x.key ≠ key := fun x hx hk => hkey (hk ▸ hcover x hx)
        have hlive : live.filter (fun x => x.key = key) = [] := by
          simpa [List.filter_eq_nil_iff] using hnone
        rw [hlive, List.filter_eq_nil_iff]
        intro x hx
        simpa using hnone x (hperm.mem_iff.mp hx)
  · have hnil : live = [] := by
      rw [← List.length_eq_zero_iff, ← h.size]
      omega
    subst hnil
    rw [Radixsort.radixsort_dump, if_neg hsize]
    exact ⟨[], rfl, h.size.symm, List.Perm.refl _, List.Pairwise.nil, fun _ => rfl⟩

/-! ## The sorter refines a priority list

The abstract component is the list of live items alone: an addition puts an
item at its head, a cut takes one out. -/

section Refinement

variable [DecidableEq α]

/-- A call of the sorter. -/
inductive SorterOp (α : Type*)
  | add (item : RadixItem α)
  | cut (key : ℕ) (data : α)

/-- The abstract step: the live items, the most recently added first. -/
def liveStep (live : List (RadixItem α)) : SorterOp α → List (RadixItem α)
  | .add item => item :: live
  | .cut _ data => without live data

/-- The concrete step: the call, as a client that ignores the cut item. -/
def sorterStep (rs : Except Fault (RadixSorter α)) : SorterOp α → Except Fault (RadixSorter α)
  | .add item => rs.bind fun rs => radixsort_add rs item
  | .cut key data => rs.bind fun rs => (radix_cut rs key data).map Prod.snd

/-- What a client promises of a call: an added item has data that no live item
has and a key below `RADIX_SLOT_SIZE*(keyLimit/RADIX_SLOT_SIZE)`; a cut item is
stored under the key it is cut from. -/
def Promised (keyLimit : ℕ) (live : List (RadixItem α)) : SorterOp α → Prop
  | .add item => item.data ∉ live.map RadixItem.data
      ∧ item.key < RADIX_SLOT_SIZE * (keyLimit / RADIX_SLOT_SIZE)
  | .cut key data => ⟨key, data⟩ ∈ live

theorem top_lt_of_key_lt {key keyLimit : ℕ}
    (h : key < RADIX_SLOT_SIZE * (keyLimit / RADIX_SLOT_SIZE)) :
    GET_TOP_INDEX key < GET_TOP_INDEX keyLimit := Nat.div_lt_of_lt_mul h

/-- One promised call keeps the invariant. -/
theorem Represents.sorterStep {rs : RadixSorter α} {live : List (RadixItem α)}
    (h : Represents rs live) {op : SorterOp α} (hop : Promised rs.keyLimit live op) :
    ∃ rs', sorterStep (.ok rs) op = .ok rs' ∧ Represents rs' (liveStep live op)
      ∧ rs'.keyLimit = rs.keyLimit := by
  cases op with
  | add item =>
      have htop : GET_TOP_INDEX item.key < rs._topIndexLimit := by
        rw [h.limit]
        exact top_lt_of_key_lt hop.2
      obtain ⟨rs', hadd, hrep, hkl, -⟩ := h.radixsort_add hop.1 htop
      exact ⟨rs', hadd, hrep, hkl⟩
  | cut key data =>
      obtain ⟨rs', hcut, hrep, hkl, -⟩ := h.radix_cut hop
      refine ⟨rs', ?_, hrep, hkl⟩
      change (Radixsort.radix_cut rs key data).map Prod.snd = .ok rs'
      rw [hcut]
      rfl

/-- A promised run keeps the invariant. -/
theorem Represents.sorterRun {rs : RadixSorter α} {live : List (RadixItem α)}
    (h : Represents rs live) {ops : List (SorterOp α)}
    (hops : Guarded liveStep (Promised rs.keyLimit) live ops) :
    ∃ rs', run Radixsort.sorterStep (.ok rs) ops = .ok rs'
      ∧ Represents rs' (run liveStep live ops) := by
  -- the promise of the next call is about the live items at that time
  induction ops generalizing rs live with
  | nil => exact ⟨rs, rfl, h⟩
  | cons op ops ih =>
      obtain ⟨rs1, hstep, hrep, hkl⟩ := h.sorterStep hops.1
      rw [run_cons, run_cons, hstep]
      exact ih hrep (hkl ▸ hops.2)

/-- **The radix sorter refines a priority list.** After any promised sequence
of additions and cuts nothing faulted, `size` counts the live items, and the
dump fills `size` entries with the live items by priority. -/
theorem radixsort_refines_priority_list (keyLimit : ℕ) (ops : List (SorterOp α))
    (hops : Guarded liveStep (Promised keyLimit) [] ops) :
    ∃ rs, run sorterStep (.ok (radixsort_init keyLimit)) ops = .ok rs
      ∧ rs.size = (run liveStep [] ops).length
      ∧ ∃ out, radixsort_dump rs = .ok out ∧ out.length = rs.size
        ∧ ByPriority (run liveStep [] ops) out := by
  obtain ⟨rs, hrun, hrep⟩ := (represents_init (α := α) keyLimit).sorterRun hops
  exact ⟨rs, hrun, hrep.size, hrep.radixsort_dump⟩

end Refinement

/-- The refinement for a run that ties two items, cuts the older one and files
it again under a smaller key. -/
theorem radixsort_refines_priority_list_tie_cut_add :
    ∃ rs, run sorterStep (.ok (radixsort_init 2000))
        [.add ⟨1500, 0⟩, .add ⟨1500, 1⟩, .cut 1500 0, .add ⟨7, 0⟩] = .ok rs
      ∧ rs.size = 2
      ∧ ∃ out, radixsort_dump rs = .ok out ∧ out.length = rs.size
        ∧ ByPriority [⟨7, 0⟩, ⟨1500, 1⟩] out :=
  radixsort_refines_priority_list (α := ℕ) 2000
    [.add ⟨1500, 0⟩, .add ⟨1500, 1⟩, .cut 1500 0, .add ⟨7, 0⟩]
    (by simp [Guarded, Promised, liveStep, without, RADIX_SLOT_SIZE])

end Hstr.Radixsort
