/-
The hash set over whole runs: a finite map where the first write of a key wins.

`hashset_put` and `hashset_add` are the only operations that change a table.
What a table holds after any sequence of them is a function of the log of
writes alone: a key has the value of the first entry of the log that is for it.
`Represents` says so of a table and a log, one lemma shows that an operation
keeps it, and the run theorem is its induction over the log.

A value is a pointer, so the values are of any type, and `hashset_add` stores
the one pointer to its literal `"nil"`.
-/
import Hstr.Hashset
import Hstr.Lib.Runs
import Mathlib.Algebra.Group.Nat.Defs
import Mathlib.Data.Finset.Card
import Mathlib.Data.Finset.Dedup

set_option autoImplicit false

namespace Hstr.FirstWrite

open Lib.Runs Hstr.Strings Hstr.Hashset

/-! ## The index of a chain

The source computes the hash in `unsigned int` and stores it in an `int`. -/

/-- `int listNum = hashmap_hash(key)`, in the types of the source. -/
def listNum (key : CString) : Int32 :=
  let result := key.bytes.foldl (fun result c => result * 33 + charToUnsigned c) (5381 : UInt32)
  let result := result ^^^ (result >>> 16)
  (result % UInt32.ofNat HASH_MAP_SIZE).toInt32

/-- A remainder by a divisor below `2^31` survives the conversion to `int`. -/
theorem toInt_toInt32_mod (r : UInt32) {m : ℕ} (hm0 : 0 < m) (hm : m < 2 ^ 31) :
    (r % UInt32.ofNat m).toInt32.toInt = ((r.toNat % m : ℕ) : ℤ) := by
  have hofNat : (UInt32.ofNat m).toNat = m := by
    rw [UInt32.toNat_ofNat']
    exact Nat.mod_eq_of_lt (by omega)
  have hnat : (r % UInt32.ofNat m).toNat = r.toNat % m := by
    rw [UInt32.toNat_mod, hofNat]
  have hlt : r.toNat % m < m := Nat.mod_lt _ hm0
  rw [← Int32.toInt_toBitVec, UInt32.toBitVec_toInt32, BitVec.toInt_eq_toNat_of_lt]
  · rw [UInt32.toNat_toBitVec, hnat]
  · rw [UInt32.toNat_toBitVec, hnat]
    omega

/-- The index is the chain of the key. -/
theorem toInt_listNum (key : CString) : (listNum key).toInt = ((hashmap_hash key).val : ℤ) :=
  toInt_toInt32_mod _ (by decide) (by decide)

/-- **No string has an index outside the table**, bytes above 127 included. -/
theorem listNum_mem_table (key : CString) :
    0 ≤ (listNum key).toInt ∧ (listNum key).toInt < HASH_MAP_SIZE := by
  rw [toInt_listNum]
  have hlt := (hashmap_hash key).isLt
  omega

/-! ## Operations and their log -/

variable {V : Type*}

/-- A call that may change a table. -/
inductive SetOp (V : Type*)
  | put (key : CString) (value : V)
  | add (key : CString)

/-- The entry of a call in the log: its key and the value it would store. -/
def SetOp.entry (nil : V) : SetOp V → CString × V
  | .put key value => (key, value)
  | .add key => (key, nil)

/-- One call: the table and the result. `nil` is the value that `hashset_add`
stores. -/
def perform (nil : V) (hs : HashSet V) : SetOp V → HashSet V × ℕ
  | .put key value => hashset_put hs key value
  | .add key => hashset_put hs key nil

/-- Where the values are strings, an `add` is `hashset_add`. -/
theorem perform_add (hs : HashSet CString) (key : CString) :
    perform (lit "nil") hs (.add key) = hashset_add hs key := rfl

theorem perform_eq_put (nil : V) (hs : HashSet V) (op : SetOp V) :
    perform nil hs op = hashset_put hs (op.entry nil).1 (op.entry nil).2 := by
  cases op <;> rfl

/-- The table after a sequence of calls. -/
def performAll (nil : V) (hs : HashSet V) (ops : List (SetOp V)) : HashSet V :=
  run (fun hs op => (perform nil hs op).1) hs ops

/-- The value of the first entry for a key: what the log says of the key. -/
def firstWrite (log : List (CString × V)) (key : CString) : Option V :=
  (log.find? fun w => decide (w.1 = key)).map Prod.snd

/-- The keys of a log, each once. -/
def writtenKeys (log : List (CString × V)) : Finset CString := (log.map Prod.fst).toFinset

theorem firstWrite_append (log : List (CString × V)) (w : CString × V) (k : CString) :
    firstWrite (log ++ [w]) k
      = if k = w.1 then some ((firstWrite log k).getD w.2) else firstWrite log k := by
  unfold firstWrite
  rw [List.find?_append]
  cases hfind : log.find? fun w => decide (w.1 = k) with
  | some w' => by_cases hk : k = w.1 <;> simp [hk]
  | none =>
      by_cases hk : k = w.1
      · simp [hk]
      · simp [hk, Ne.symm hk]

theorem mem_writtenKeys {log : List (CString × V)} {k : CString} :
    k ∈ writtenKeys log ↔ (firstWrite log k).isSome := by
  rw [writtenKeys, List.mem_toFinset, List.mem_map, firstWrite, Option.isSome_map,
    List.find?_isSome]
  simp only [decide_eq_true_eq]

/-! ## The table represents its log -/

/-- A table holds what its log says, for every key. -/
def Represents (hs : HashSet V) (log : List (CString × V)) : Prop :=
  ∀ k, hashset_get hs k = firstWrite log k

theorem represents_init : Represents (hashset_init : HashSet V) [] := fun _ => rfl

/-- **An operation keeps the representation.** -/
theorem Represents.put {hs : HashSet V} {log : List (CString × V)} (h : Represents hs log)
    (key : CString) (value : V) :
    Represents (hashset_put hs key value).1 (log ++ [(key, value)]) := by
  intro k
  rw [hashset_get_put, firstWrite_append, h k]
  by_cases hk : k = key
  · rw [if_pos hk, if_pos hk, h key, hk]
  · rw [if_neg hk, if_neg hk]

/-- The result of a write tells whether the key is new. -/
theorem hashset_put_result (hs : HashSet V) (key : CString) (value : V) :
    (hashset_put hs key value).2 = if hashset_contains hs key then 0 else 1 := by
  unfold hashset_put
  split
  · next v hv =>
      have hold : hashset_contains hs key = true := by rw [hashset_contains, hv, Option.isSome_some]
      rw [if_pos hold]
  · next hnone =>
      have hnew : ¬ hashset_contains hs key = true := by
        rw [hashset_contains, hnone, Option.isSome_none]
        exact Bool.false_ne_true
      rw [if_neg hnew]

theorem Represents.contains_iff {hs : HashSet V} {log : List (CString × V)}
    (h : Represents hs log) (k : CString) :
    hashset_contains hs k = true ↔ k ∈ writtenKeys log := by
  rw [hashset_contains, h k, mem_writtenKeys]

/-- The listed keys are those of the log. -/
theorem Represents.toFinset_keys {hs : HashSet V} {log : List (CString × V)}
    (h : Represents hs log) : (hashset_keys hs).toFinset = writtenKeys log := by
  ext k
  rw [List.mem_toFinset, mem_hashset_keys, h.contains_iff]

/-- The table counts the distinct keys of the log. -/
theorem Represents.size_eq {hs : HashSet V} {log : List (CString × V)} (h : Represents hs log) :
    hashset_size hs = (writtenKeys log).card := by
  rw [← hashset_keys_length, ← h.toFinset_keys,
    List.toFinset_card_of_nodup (hashset_keys_nodup hs)]

/-- The table after a run represents the log of the run. -/
theorem represents_performAll (nil : V) {hs : HashSet V} {log : List (CString × V)}
    (h : Represents hs log) (ops : List (SetOp V)) :
    Represents (performAll nil hs ops) (log ++ ops.map (SetOp.entry nil)) := by
  induction ops generalizing hs log with
  | nil =>
      rw [List.map_nil, List.append_nil]
      exact h
  | cons op ops ih =>
      rw [performAll, run_cons, List.map_cons, List.append_cons]
      refine ih ?_
      rw [perform_eq_put]
      exact h.put _ _

/-- **The hash set is a finite map where the first write wins.** After any
sequence of calls, the table answers as the log of the calls does, the next
call tells whether its key is new, and the keys are listed once each in an
array of the right size. -/
theorem hashset_refines_first_write (nil : V) (ops : List (SetOp V)) :
    let hs := performAll nil hashset_init ops
    let log := ops.map (SetOp.entry nil)
    (∀ k, hashset_get hs k = firstWrite log k)
      ∧ (∀ k, hashset_contains hs k = true ↔ k ∈ writtenKeys log)
      ∧ (∀ op, (perform nil hs op).2 = if (op.entry nil).1 ∈ writtenKeys log then 0 else 1)
      ∧ hashset_size hs = (writtenKeys log).card
      ∧ (hashset_keys hs).Nodup
      ∧ (∀ k, k ∈ hashset_keys hs ↔ k ∈ writtenKeys log)
      ∧ (hashset_keys hs).length = hashset_size hs
      ∧ ∀ k, (listNum k).toInt = ((hashmap_hash k).val : ℤ)
          ∧ 0 ≤ (listNum k).toInt ∧ (listNum k).toInt < HASH_MAP_SIZE := by
  intro hs log
  have hrep : Represents hs log := represents_performAll nil represents_init ops
  refine ⟨hrep, hrep.contains_iff, ?_, hrep.size_eq, hashset_keys_nodup hs, ?_,
    hashset_keys_length hs, fun k => ⟨toInt_listNum k, listNum_mem_table k⟩⟩
  · intro op
    rw [perform_eq_put, hashset_put_result]
    simp only [hrep.contains_iff]
  · intro k
    rw [mem_hashset_keys, hrep.contains_iff]

/-- The second write of a key is refused, and the first value stays. -/
example : (perform 0 (performAll 0 hashset_init [.put (lit "a") 1]) (.put (lit "a") 2)).2 = 0 :=
  by decide +kernel

end Hstr.FirstWrite
