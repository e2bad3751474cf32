/-
`src/hashset.c`: a hash set of strings with values.

The table is an array of chains, one for each of the `HASH_MAP_SIZE` hash
values, and a new node goes to the head of its chain. `HashSet` carries the
table's invariant: a node is in the chain of its key's hash, no chain holds a
key twice, and `currentSize` counts the nodes. `hashset_put` is the only
operation that changes a table, so it is the only one that has to keep them.

What callers need is in the second half: `hashset_get` after `hashset_put` is
lookup in a map where the first write of a key wins, and `hashset_keys` lists
each key of that map once. `malloc` is taken to succeed.
-/
import Hstr.Lib.Buckets
import Hstr.Strings
import Mathlib.Data.List.FinRange

set_option autoImplicit false

namespace Hstr.Hashset

open Lib.Buckets Hstr.Strings

/-- The number of chains. -/
def HASH_MAP_SIZE : ℕ := 10007

/-- A `char` of a string in unsigned arithmetic: `char` is signed, so it is
sign extended before it is added. -/
def charToUnsigned (c : Byte) : UInt32 := c.toInt8.toInt32.toUInt32

/-- The chain a key belongs to. The arithmetic is that of `unsigned int`. -/
def hashmap_hash (str : CString) : Fin HASH_MAP_SIZE :=
  let result := str.bytes.foldl (fun result c => result * 33 + charToUnsigned c) (5381 : UInt32)
  -- the high bits are mixed in before the table size is divided out
  let result := result ^^^ (result >>> 16)
  ⟨result.toNat % HASH_MAP_SIZE, Nat.mod_lt _ (by decide)⟩

/-- `struct HashSetNode`: a node is followed in its chain by its `next`. -/
structure HashSetNode (V : Type*) where
  /-- The key, a copy owned by the node. -/
  key : CString
  /-- The value, a pointer that is never `NULL`. -/
  value : V

/-- `HashSet`: the chains, the number of nodes, and the table's invariant. -/
structure HashSet (V : Type*) where
  /-- The chain of each hash value, from its head. -/
  lists : Fin HASH_MAP_SIZE → List (HashSetNode V)
  /-- The number of nodes. -/
  currentSize : ℕ
  /-- A node is in the chain of its key. -/
  filed : ∀ i, ∀ p ∈ lists i, hashmap_hash p.key = i
  /-- A chain holds no key twice. -/
  distinct : ∀ i, ((lists i).map HashSetNode.key).Nodup
  /-- `currentSize` is the number of nodes. -/
  counted : currentSize = (listing (List.finRange HASH_MAP_SIZE) lists).length

variable {V : Type*}

/-- `hashset_init`: all chains are empty. -/
def hashset_init : HashSet V where
  lists := fun _ => []
  currentSize := 0
  filed := by simp
  distinct := by simp
  counted := by simp [listing]

/-- `hashset_get`: walk the chain of the key to the first node with it. `none`
is `NULL`. -/
def hashset_get (hs : HashSet V) (key : CString) : Option V :=
  ((hs.lists (hashmap_hash key)).find? fun p => decide (p.key = key)).map HashSetNode.value

/-- `hashset_contains`. -/
def hashset_contains (hs : HashSet V) (key : CString) : Bool := (hashset_get hs key).isSome

/-- A key that `hashset_get` does not find is on no node of its chain. -/
theorem hashset_get_eq_none_iff {hs : HashSet V} {key : CString} :
    hashset_get hs key = none ↔ ∀ p ∈ hs.lists (hashmap_hash key), p.key ≠ key := by
  simp [hashset_get]

/-- The table with a new node at the head of its chain. -/
def pushNode (hs : HashSet V) (key : CString) (value : V) (hnew : hashset_get hs key = none) :
    HashSet V where
  lists := Function.update hs.lists (hashmap_hash key)
    (⟨key, value⟩ :: hs.lists (hashmap_hash key))
  currentSize := hs.currentSize + 1
  filed := by
    intro i p hp
    by_cases hi : i = hashmap_hash key
    · subst hi
      rw [Function.update_self, List.mem_cons] at hp
      rcases hp with rfl | hp
      · rfl
      · exact hs.filed _ p hp
    · rw [Function.update_of_ne hi] at hp
      exact hs.filed i p hp
  distinct := by
    intro i
    by_cases hi : i = hashmap_hash key
    · subst hi
      rw [Function.update_self, List.map_cons, List.nodup_cons]
      refine ⟨?_, hs.distinct _⟩
      intro hmem
      obtain ⟨p, hp, hpk⟩ := List.mem_map.mp hmem
      exact hashset_get_eq_none_iff.mp hnew p hp hpk
    · rw [Function.update_of_ne hi]
      exact hs.distinct i
  counted := by
    have hperm := listing_push_perm (b := hs.lists) (x := HashSetNode.mk key value)
      (List.nodup_finRange HASH_MAP_SIZE) (List.mem_finRange (hashmap_hash key))
    rw [hperm.length_eq, List.length_cons, hs.counted]

/-- `hashset_put`: the table and the result, 0 where the key is there already
and 1 where a node was added. -/
def hashset_put (hs : HashSet V) (key : CString) (value : V) : HashSet V × ℕ :=
  match h : hashset_get hs key with
  | some _ => (hs, 0)
  | none => (pushNode hs key value h, 1)

/-- `hashset_add`: a set member has the value `"nil"`. -/
def hashset_add (hs : HashSet CString) (key : CString) : HashSet CString × ℕ :=
  hashset_put hs key (lit "nil")

/-- `hashset_size`. -/
def hashset_size (hs : HashSet V) : ℕ := hs.currentSize

/-- The keys of one chain: a loop over the nodes that have a `next`, then the
last node. -/
def keysOfChain : List (HashSetNode V) → List CString
  | [] => []
  | [p] => [p.key]
  | p :: q :: rest => p.key :: keysOfChain (q :: rest)

/-- `hashset_keys`: the array `result[0..j)` that the loop fills, the chains in
the order of the table. `[]` is `NULL`. -/
def hashset_keys (hs : HashSet V) : List CString :=
  if hs.currentSize ≠ 0 then
    listing (List.finRange HASH_MAP_SIZE) (fun i => keysOfChain (hs.lists i))
  else []

/-! ## The table is a map where the first write of a key wins -/

@[simp] theorem hashset_get_init (key : CString) :
    hashset_get (hashset_init : HashSet V) key = none := rfl

@[simp] theorem hashset_contains_init (key : CString) :
    hashset_contains (hashset_init : HashSet V) key = false := rfl

theorem hashset_get_pushNode {hs : HashSet V} {key : CString} {value : V}
    (hnew : hashset_get hs key = none) (k : CString) :
    hashset_get (pushNode hs key value hnew) k
      = if k = key then some value else hashset_get hs k := by
  by_cases hk : k = key
  · subst hk
    simp [hashset_get, pushNode]
  · rw [if_neg hk]
    -- another key of the same chain is found behind the new node
    by_cases hi : hashmap_hash k = hashmap_hash key
    · have hne : key ≠ k := fun h => hk h.symm
      simp [hashset_get, pushNode, hi, hne]
    · simp only [hashset_get, pushNode]
      rw [Function.update_of_ne hi]

/-- **Lookup after a write.** The written key has its first value, every other
key is untouched. -/
theorem hashset_get_put (hs : HashSet V) (key : CString) (value : V) (k : CString) :
    hashset_get (hashset_put hs key value).1 k
      = if k = key then some ((hashset_get hs key).getD value) else hashset_get hs k := by
  unfold hashset_put
  split
  · next v hv =>
      by_cases hk : k = key
      · rw [if_pos hk, hk, hv, Option.getD_some]
      · rw [if_neg hk]
  · next hnew =>
      rw [hashset_get_pushNode hnew k, hnew, Option.getD_none]

/-- Membership after a write. -/
theorem hashset_contains_put (hs : HashSet V) (key : CString) (value : V) (k : CString) :
    hashset_contains (hashset_put hs key value).1 k
      = (decide (k = key) || hashset_contains hs k) := by
  rw [hashset_contains, hashset_get_put]
  by_cases hk : k = key
  · simp [hk]
  · simp [hk, hashset_contains]

/-- Membership after `hashset_add`. -/
@[simp] theorem hashset_contains_add (hs : HashSet CString) (key k : CString) :
    hashset_contains (hashset_add hs key).1 k
      = (decide (k = key) || hashset_contains hs k) :=
  hashset_contains_put hs key (lit "nil") k

/-! ## The keys -/

theorem keysOfChain_eq_map (chain : List (HashSetNode V)) :
    keysOfChain chain = chain.map HashSetNode.key := by
  induction chain with
  | nil => rfl
  | cons p rest ih =>
      cases rest with
      | nil => rfl
      | cons q rest => simp only [keysOfChain, ih, List.map_cons]

/-- The split loop lists all keys, also those of an empty table. -/
theorem hashset_keys_eq (hs : HashSet V) :
    hashset_keys hs = listing (List.finRange HASH_MAP_SIZE)
      (fun i => (hs.lists i).map HashSetNode.key) := by
  unfold hashset_keys
  split
  · exact listing_congr fun i _ => keysOfChain_eq_map (hs.lists i)
  · next hsize =>
      -- an empty table has no nodes, so there are no keys to list
      have hlen := hs.counted
      have hnil : listing (List.finRange HASH_MAP_SIZE) hs.lists = [] := by
        rw [← List.length_eq_zero_iff]
        omega
      rw [listing, List.flatMap_eq_nil_iff] at hnil
      rw [eq_comm, listing, List.flatMap_eq_nil_iff]
      intro i hi
      rw [hnil i hi, List.map_nil]

/-- The keys are the members. -/
theorem mem_hashset_keys {hs : HashSet V} {k : CString} :
    k ∈ hashset_keys hs ↔ hashset_contains hs k = true := by
  rw [hashset_keys_eq, mem_listing, hashset_contains, ← Option.ne_none_iff_isSome, Ne,
    hashset_get_eq_none_iff]
  push Not
  constructor
  · rintro ⟨i, -, hmem⟩
    obtain ⟨p, hp, rfl⟩ := List.mem_map.mp hmem
    exact ⟨p, by rwa [hs.filed i p hp], rfl⟩
  · rintro ⟨p, hp, rfl⟩
    exact ⟨hashmap_hash p.key, List.mem_finRange _, List.mem_map_of_mem hp⟩

/-- Each key is listed once. -/
theorem hashset_keys_nodup (hs : HashSet V) : (hashset_keys hs).Nodup := by
  rw [hashset_keys_eq]
  refine nodup_listing (k := hashmap_hash) (List.nodup_finRange _) ?_ fun i _ => hs.distinct i
  intro i _ k hk
  obtain ⟨p, hp, rfl⟩ := List.mem_map.mp hk
  exact hs.filed i p hp

/-- The array has `hashset_size` entries. -/
theorem hashset_keys_length (hs : HashSet V) : (hashset_keys hs).length = hashset_size hs := by
  have hmap : hashset_keys hs
      = (listing (List.finRange HASH_MAP_SIZE) hs.lists).map HashSetNode.key := by
    rw [hashset_keys_eq, listing, listing, List.map_flatMap]
  rw [hmap, List.length_map, hashset_size, hs.counted]

/-- A table is empty exactly when it has no members. -/
theorem hashset_size_eq_zero_iff {hs : HashSet V} :
    hashset_size hs = 0 ↔ ∀ k, hashset_contains hs k = false := by
  rw [← hashset_keys_length, List.length_eq_zero_iff, List.eq_nil_iff_forall_not_mem]
  simp [mem_hashset_keys]

end Hstr.Hashset
