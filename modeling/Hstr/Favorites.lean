/-
`src/hstr_favorites.c`: favorite commands and the file that keeps them.

Memory and file are updated by different code: `favorites_get` filters the
lines of the file into `items`, and an operation that changes `items` rewrites
the whole file from them. The two questions of this file are what a later
`favorites_get` reads back, and what a rewrite does to the lines that the loader
never put into `items`.

A file is `none` where it does not exist, and file operations succeed.
-/
import Hstr.Hashset
import Hstr.Lib.Dedup
import Hstr.Lib.Runs

set_option autoImplicit false

namespace Hstr.Favorites

open Lib.Runs Lib.Lines Lib.Dedup Hstr.Strings Hstr.Hashset

/-- `FavoriteItems`: `items` is the array `items[0..count)`. -/
structure FavoriteItems where
  items : List CString
  loaded : Bool
  reorderOnChoice : Bool
  skipComments : Bool
  set : HashSet CString

def favorites_init : FavoriteItems where
  items := []
  loaded := false
  reorderOnChoice := true
  skipComments := false
  set := hashset_init

/-- The byte `'#'` that starts a comment. -/
def HASH : Byte := 35

/-- The test `!skipComments || !(strlen(pb) && pb[0]=='#')`. -/
def visible (skipComments : Bool) (pb : CString) : Bool :=
  !skipComments || !(pb.bytes.head? == some HASH)

/-- The body of the loop of `favorites_get`, for the line `pb`. -/
def favorites_get_line (favorites : FavoriteItems) (pb : CString) : FavoriteItems :=
  if !hashset_contains favorites.set pb then
    if visible favorites.skipComments pb then
      { favorites with
        items := favorites.items ++ [pb]
        set := (hashset_add favorites.set pb).1 }
    else favorites
  else favorites

def favorites_get (favorites : FavoriteItems) (file : Option (List Byte)) : FavoriteItems :=
  if favorites.loaded then favorites
  -- only a missing file marks the favorites as loaded
  else match file with
    | some content =>
        let fileContent := ofBuffer content
        if strlen fileContent ≠ 0 then
          (fileLines fileContent).foldl favorites_get_line { favorites with items := [] }
        else favorites
    | none => { favorites with loaded := true }

/-- The file after `favorites_save`. -/
def favorites_save (favorites : FavoriteItems) (file : Option (List Byte)) :
    Option (List Byte) :=
  if favorites.items.length ≠ 0 then some (printLines favorites.items)
  -- an empty list truncates the file, but does not create one
  else if file.isSome then some [] else none

/-- `none` is the result -1. -/
def favorites_index_of (favorites : FavoriteItems) (favorite : CString) : Option ℕ :=
  favorites.items.idxOf? favorite

def favorites_move_to_head (favorites : FavoriteItems) (index : ℕ) : FavoriteItems :=
  match favorites.items[index]? with
  | some item =>
      { favorites with
        items := item :: (favorites.items.take index ++ favorites.items.drop (index + 1)) }
  | none => favorites

def favorites_choose (favorites : FavoriteItems) (file : Option (List Byte))
    (choice : Option CString) : FavoriteItems × Option (List Byte) :=
  match favorites.reorderOnChoice, choice with
  | true, some choice =>
      match favorites_index_of favorites choice with
      | some index =>
          -- the head of the list is at its place already
          if index > 0 then
            let favorites := favorites_move_to_head favorites index
            (favorites, favorites_save favorites file)
          else (favorites, file)
      | none => (favorites, file)
  | _, _ => (favorites, file)

def favorites_add (favorites : FavoriteItems) (file : Option (List Byte))
    (newFavorite : Option CString) : FavoriteItems × Option (List Byte) :=
  match newFavorite with
  | none => (favorites, file)
  | some item =>
      if (favorites_index_of favorites item).isSome then
        -- already a favorite: adding it again is choosing it
        favorites_choose favorites file (some item)
      else
        let favorites := { favorites with items := favorites.items ++ [item] }
        let favorites :=
          if favorites.reorderOnChoice then
            favorites_move_to_head favorites (favorites.items.length - 1)
          else favorites
        ({ favorites with set := (hashset_add favorites.set item).1 },
          favorites_save favorites file)

/-- The last component is the result of the function. -/
def favorites_remove (favorites : FavoriteItems) (file : Option (List Byte))
    (almostDead : Option CString) : FavoriteItems × Option (List Byte) × Bool :=
  match almostDead.bind (favorites_index_of favorites) with
  | none => (favorites, file, false)
  | some index =>
      let favorites :=
        { favorites with
          items := favorites.items.take index ++ favorites.items.drop (index + 1) }
      (favorites, favorites_save favorites file, true)

/-! ## A session

What the interactive loop does with the favorites, in any order. `removed`
records the commands for which `favorites_remove` reported success; no function
of the source reads it. -/

inductive FavoritesOp
  | add (newFavorite : Option CString)
  | choose (choice : Option CString)
  | remove (almostDead : Option CString)
  deriving DecidableEq

structure Session where
  favorites : FavoriteItems
  file : Option (List Byte)
  removed : List CString

def favoritesStep (s : Session) : FavoritesOp → Session
  | .add c =>
      let (favorites, file) := favorites_add s.favorites s.file c
      { s with favorites, file }
  | .choose c =>
      let (favorites, file) := favorites_choose s.favorites s.file c
      { s with favorites, file }
  | .remove c =>
      let (favorites, file, ret) := favorites_remove s.favorites s.file c
      { favorites, file, removed := if ret then c.toList ++ s.removed else s.removed }

/-- The session after `favorites_init`, the configuration and `favorites_get`. -/
def startSession (reorderOnChoice skipComments : Bool) (file : Option (List Byte)) : Session where
  favorites := favorites_get { favorites_init with reorderOnChoice, skipComments } file
  file := file
  removed := []

/-! ## What the operations do to the list

The list as such knows nothing of indices, of the hash set or of the file. An
operation saves exactly when it changes the list. -/

def moved (reorderOnChoice : Bool) (items : List CString) (c : CString) : List CString :=
  if reorderOnChoice ∧ c ∈ items then c :: items.erase c else items

/-- The list after an operation. -/
def itemsStep (reorderOnChoice : Bool) (items : List CString) : FavoritesOp → List CString
  | .add (some c) =>
      if c ∈ items then moved reorderOnChoice items c
      else if reorderOnChoice then c :: items else items ++ [c]
  | .choose (some c) => moved reorderOnChoice items c
  | .remove (some c) => items.erase c
  | _ => items

/-- The operations that change the list: a new command, a choice that is not the
head yet, the removal of a favorite. -/
def Changes (reorderOnChoice : Bool) (items : List CString) : FavoritesOp → Prop
  | .add (some c) => c ∉ items ∨ reorderOnChoice ∧ items.head? ≠ some c
  | .choose (some c) => reorderOnChoice ∧ c ∈ items ∧ items.head? ≠ some c
  | .remove (some c) => c ∈ items
  | _ => False

instance (reorderOnChoice : Bool) (items : List CString) (op : FavoritesOp) :
    Decidable (Changes reorderOnChoice items op) := by
  unfold Changes
  split <;> infer_instance

/-- The commands an operation removes. -/
def removedBy (items : List CString) : FavoritesOp → List CString
  | .remove (some c) => if c ∈ items then [c] else []
  | _ => []

theorem take_append_drop_idxOf {items : List CString} {c : CString} {index : ℕ}
    (h : items.idxOf? c = some index) :
    items[index]? = some c ∧ items.take index ++ items.drop (index + 1) = items.erase c := by
  induction items generalizing index with
  | nil => simp at h
  | cons item items ih =>
      rw [List.idxOf?_cons] at h
      by_cases hitem : item = c
      · subst hitem
        have h0 : index = 0 := by simpa [eq_comm] using h
        subst h0
        simp
      · have hbeq : (item == c) = false := by simpa using hitem
        rw [hbeq] at h
        obtain ⟨i, hi, rfl⟩ := Option.map_eq_some_iff.mp h
        obtain ⟨hget, herase⟩ := ih hi
        refine ⟨by simpa using hget, ?_⟩
        rw [List.take_succ_cons, List.drop_succ_cons, List.cons_append, herase,
          List.erase_cons_tail (by simpa using hitem)]

theorem idxOf?_eq_zero_iff {items : List CString} {c : CString} :
    items.idxOf? c = some 0 ↔ items.head? = some c := by
  cases items with
  | nil => simp
  | cons item items =>
      rw [List.idxOf?_cons]
      by_cases hitem : item = c <;> simp [hitem]

/-- `favorites_choose` by what it does to the list. -/
theorem favorites_choose_eq (favorites : FavoriteItems) (file : Option (List Byte))
    (c : CString) :
    favorites_choose favorites file (some c)
      = let favorites' := { favorites with
          items := moved favorites.reorderOnChoice favorites.items c }
        (favorites', if favorites.reorderOnChoice ∧ c ∈ favorites.items
          ∧ favorites.items.head? ≠ some c then favorites_save favorites' file else file) := by
  obtain ⟨items, loaded, reorderOnChoice, skipComments, set⟩ := favorites
  cases reorderOnChoice with
  | false => simp [favorites_choose, moved]
  | true =>
      simp only [favorites_choose, moved, favorites_index_of, true_and]
      cases hidx : items.idxOf? c with
      | none =>
          have hc : c ∉ items := List.idxOf?_eq_none_iff.mp hidx
          simp [hc]
      | some index =>
          obtain ⟨hget, herase⟩ := take_append_drop_idxOf hidx
          have hc : c ∈ items := List.mem_of_getElem? hget
          by_cases h0 : index = 0
          · -- the head is chosen: it stays where it is, and nothing is saved
            subst h0
            have hhead := idxOf?_eq_zero_iff.mp hidx
            cases items with
            | nil => simp at hhead
            | cons item items =>
                rw [List.head?_cons, Option.some.injEq] at hhead
                subst hhead
                simp
          · have hhead : items.head? ≠ some c := by
              intro hhead
              rw [idxOf?_eq_zero_iff.mpr hhead, Option.some.injEq] at hidx
              exact h0 hidx.symm
            have hpos : 0 < index := Nat.pos_of_ne_zero h0
            simp [hpos, hc, hhead, favorites_move_to_head, hget, herase]

/-- `favorites_add` by what it does to the list. A command that is new to the list is
put into the set. -/
theorem favorites_add_eq (favorites : FavoriteItems) (file : Option (List Byte)) (c : CString) :
    favorites_add favorites file (some c)
      = let favorites' := { favorites with
          items := itemsStep favorites.reorderOnChoice favorites.items (.add (some c))
          set := if c ∈ favorites.items then favorites.set else (hashset_add favorites.set c).1 }
        (favorites', if Changes favorites.reorderOnChoice favorites.items (.add (some c))
          then favorites_save favorites' file else file) := by
  obtain ⟨items, loaded, reorderOnChoice, skipComments, set⟩ := favorites
  by_cases hc : c ∈ items
  · have hidx : (items.idxOf? c).isSome = true := List.isSome_idxOf?.mpr hc
    simp only [favorites_add, favorites_index_of, hidx, if_true, itemsStep, hc, Changes,
      not_true_eq_false, false_or]
    rw [favorites_choose_eq]
    simp only [hc, true_and]
  · have hidx : (items.idxOf? c).isSome = false := by
      rw [List.idxOf?_eq_none_iff.mpr hc, Option.isSome_none]
    simp only [favorites_add, favorites_index_of, hidx, itemsStep, hc, Changes,
      not_false_eq_true, true_or, if_true, if_false, Bool.false_eq_true]
    cases reorderOnChoice with
    | false => simp [favorites_save]
    | true =>
        -- the new item is the last one, so it moves over all others
        simp [favorites_move_to_head, favorites_save]

/-- `favorites_remove` by what it does to the list. -/
theorem favorites_remove_eq (favorites : FavoriteItems) (file : Option (List Byte))
    (c : CString) :
    favorites_remove favorites file (some c)
      = let favorites' := { favorites with items := favorites.items.erase c }
        if c ∈ favorites.items then (favorites', favorites_save favorites' file, true)
        else (favorites', file, false) := by
  obtain ⟨items, loaded, reorderOnChoice, skipComments, set⟩ := favorites
  simp only [favorites_remove, favorites_index_of, Option.bind_some]
  -- `favorites_remove` looks the command up, and cuts its index out
  cases hidx : items.idxOf? c with
  | none =>
      have hc : c ∉ items := List.idxOf?_eq_none_iff.mp hidx
      simp [hc, List.erase_of_not_mem hc]
  | some index =>
      obtain ⟨hget, herase⟩ := take_append_drop_idxOf hidx
      have hc : c ∈ items := List.mem_of_getElem? hget
      simp [hc, herase]

/-- **What one operation does to the session.** The list takes its step, and the
file is rewritten exactly where the list changes. -/
theorem favoritesStep_spec (s : Session) (op : FavoritesOp) :
    let s' := favoritesStep s op
    s'.favorites.items = itemsStep s.favorites.reorderOnChoice s.favorites.items op
    ∧ s'.favorites.reorderOnChoice = s.favorites.reorderOnChoice
    ∧ s'.removed = removedBy s.favorites.items op ++ s.removed
    ∧ s'.file = if Changes s.favorites.reorderOnChoice s.favorites.items op
        then favorites_save s'.favorites s.file else s.file := by
  rcases op with (_ | c) | (_ | c) | (_ | c)
  · exact ⟨rfl, rfl, rfl, rfl⟩
  · have hadd := favorites_add_eq s.favorites s.file c
    simp only [favoritesStep, hadd]
    exact ⟨trivial, trivial, rfl, trivial⟩
  · refine ⟨?_, ?_, rfl, ?_⟩ <;> simp [favoritesStep, favorites_choose, itemsStep, Changes]
  · simp only [favoritesStep, favorites_choose_eq]
    exact ⟨rfl, trivial, rfl, rfl⟩
  · exact ⟨rfl, rfl, rfl, rfl⟩
  · simp only [favoritesStep, favorites_remove_eq]
    by_cases hc : c ∈ s.favorites.items
    · simp [hc, itemsStep, removedBy, Changes]
    · simp [hc, itemsStep, removedBy, Changes]

/-! ## What `favorites_get` reads

The set that the loop fills beside the list keeps out every line the list has,
so the loop drops repetitions; comments go where the configuration says so. -/

/-- The lines of a file that `favorites_get` makes favorites. -/
def loadedLines (skipComments : Bool) : Option (List Byte) → List CString
  | some content => ((fileLines (ofBuffer content)).filter (visible skipComments)).eraseDups
  | none => []

/-- One line, with the invariant that ties the set to the list. -/
theorem favorites_get_line_spec {favorites : FavoriteItems}
    (hset : ∀ c, hashset_contains favorites.set c = decide (c ∈ favorites.items))
    (pb : CString) :
    let favorites' := favorites_get_line favorites pb
    (∀ c, hashset_contains favorites'.set c = decide (c ∈ favorites'.items))
    ∧ favorites'.items = (if visible favorites.skipComments pb
        then addNew favorites.items pb else favorites.items)
    ∧ favorites'.skipComments = favorites.skipComments
    ∧ favorites'.reorderOnChoice = favorites.reorderOnChoice := by
  unfold favorites_get_line addNew
  rw [hset pb]
  by_cases hpb : pb ∈ favorites.items
  · simp [hpb, hset]
  · cases visible favorites.skipComments pb with
    | false => simp [hset]
    | true =>
        simp only [hpb, decide_false, Bool.not_false, if_true, if_false, and_self, and_true]
        intro c
        simp [hset, or_comm]

theorem foldl_favorites_get_line (ls : List CString) (favorites : FavoriteItems)
    (hset : ∀ c, hashset_contains favorites.set c = decide (c ∈ favorites.items)) :
    let favorites' := ls.foldl favorites_get_line favorites
    favorites'.items = (ls.filter (visible favorites.skipComments)).foldl addNew favorites.items
    ∧ favorites'.skipComments = favorites.skipComments
    ∧ favorites'.reorderOnChoice = favorites.reorderOnChoice := by
  -- the set follows the list, so the test of the set is one of the list
  induction ls generalizing favorites with
  | nil => simp
  | cons pb ls ih =>
      obtain ⟨hset', hitems, hskip, hre⟩ := favorites_get_line_spec hset pb
      obtain ⟨ihitems, ihskip, ihre⟩ := ih _ hset'
      refine ⟨?_, ihskip.trans hskip, ihre.trans hre⟩
      rw [List.foldl_cons, ihitems, hskip, hitems, List.filter_cons]
      split <;> simp_all

/-- **The loader.** A fresh `favorites_get` makes the visible lines favorites,
each once, and leaves the configuration alone. -/
theorem favorites_get_spec (favorites : FavoriteItems) (hloaded : favorites.loaded = false)
    (hitems : favorites.items = []) (hset : ∀ c, hashset_contains favorites.set c = false)
    (file : Option (List Byte)) :
    let favorites' := favorites_get favorites file
    favorites'.items = loadedLines favorites.skipComments file
    ∧ favorites'.reorderOnChoice = favorites.reorderOnChoice := by
  cases file with
  | none => simp [favorites_get, hloaded, hitems, loadedLines]
  | some content =>
      simp only [favorites_get, hloaded, loadedLines, Bool.false_eq_true, if_false]
      by_cases hlen : strlen (ofBuffer content) = 0
      · -- an empty file has no lines either
        rw [if_neg (not_not_intro hlen), strlen_eq_zero_iff.mp hlen, hitems]
        exact ⟨rfl, rfl⟩
      · rw [if_pos hlen, ← foldl_addNew, ← hloaded]
        have hempty : ∀ c, hashset_contains favorites.set c = decide (c ∈ ([] : List CString)) := by
          simpa using hset
        obtain ⟨h, -, hre⟩ := foldl_favorites_get_line (fileLines (ofBuffer content))
          { favorites with items := [] } hempty
        exact ⟨h, hre⟩

theorem startSession_spec (reorderOnChoice skipComments : Bool) (file : Option (List Byte)) :
    let s := startSession reorderOnChoice skipComments file
    s.favorites.items = loadedLines skipComments file
    ∧ s.favorites.reorderOnChoice = reorderOnChoice :=
  favorites_get_spec { favorites_init with reorderOnChoice, skipComments } rfl rfl (fun _ => rfl) file

theorem newline_notMem_of_mem_loadedLines {skipComments : Bool} {file : Option (List Byte)}
    {c : CString} (hc : c ∈ loadedLines skipComments file) : NEWLINE ∉ c.bytes := by
  cases file with
  | none => simp [loadedLines] at hc
  | some content =>
      rw [loadedLines, List.mem_eraseDups] at hc
      exact newline_notMem_of_mem_fileLines (List.mem_of_mem_filter hc)

/-- A saved list is read back, repetitions apart. -/
theorem loadedLines_favorites_save {favorites : FavoriteItems} {file : Option (List Byte)}
    (hnl : ∀ c ∈ favorites.items, NEWLINE ∉ c.bytes) :
    loadedLines false (favorites_save favorites file) = favorites.items.eraseDups := by
  unfold favorites_save
  split
  · have hall : visible false = fun _ => true := rfl
    rw [loadedLines, fileLines_printLines hnl, hall, List.filter_true]
  · next hlen =>
      have hitems : favorites.items = [] := by simpa using hlen
      rw [hitems]
      cases file <;> rfl

/-! ## Memory and file agree -/

/-- The command of an operation holds no newline. -/
def NewlineFree : FavoritesOp → Prop
  | .add (some c) | .choose (some c) | .remove (some c) => NEWLINE ∉ c.bytes
  | _ => True

instance (op : FavoritesOp) : Decidable (NewlineFree op) := by
  unfold NewlineFree
  split <;> infer_instance

/-- The commands an operation brings into the list. -/
def addedBy : FavoritesOp → List CString
  | .add (some c) => [c]
  | _ => []

theorem newline_notMem_of_mem_addedBy {op : FavoritesOp} (hop : NewlineFree op) {c : CString}
    (hc : c ∈ addedBy op) : NEWLINE ∉ c.bytes := by
  rcases op with (_ | d) | d | d
  · simp [addedBy] at hc
  · obtain rfl := List.mem_singleton.mp hc
    exact hop
  all_goals simp [addedBy] at hc

theorem mem_moved {reorderOnChoice : Bool} {items : List CString} {c d : CString} :
    d ∈ moved reorderOnChoice items c ↔ d ∈ items := by
  unfold moved
  split
  · next h => rw [← (List.perm_cons_erase h.2).mem_iff]
  · rfl

theorem nodup_moved {reorderOnChoice : Bool} {items : List CString} (h : items.Nodup)
    (c : CString) : (moved reorderOnChoice items c).Nodup := by
  unfold moved
  split
  · next hc => exact (List.perm_cons_erase hc.2).nodup_iff.mp h
  · exact h

theorem nodup_itemsStep {reorderOnChoice : Bool} {items : List CString} (h : items.Nodup)
    (op : FavoritesOp) : (itemsStep reorderOnChoice items op).Nodup := by
  rcases op with (_ | c) | (_ | c) | (_ | c)
  · exact h
  · simp only [itemsStep]
    split
    · exact nodup_moved h c
    · next hc =>
        cases reorderOnChoice with
        | true => exact List.nodup_cons.mpr ⟨hc, h⟩
        | false =>
            have hperm : (items ++ [c]).Perm (c :: items) := List.perm_append_singleton c items
            exact hperm.nodup_iff.mpr (List.nodup_cons.mpr ⟨hc, h⟩)
  · exact h
  · exact nodup_moved h c
  · exact h
  · exact h.erase c

/-- What a step can have in the list. -/
theorem mem_of_mem_itemsStep {reorderOnChoice : Bool} {items : List CString} {op : FavoritesOp}
    {c : CString} (hc : c ∈ itemsStep reorderOnChoice items op) : c ∈ items ++ addedBy op := by
  rw [List.mem_append]
  rcases op with (_ | d) | (_ | d) | (_ | d)
  · exact Or.inl hc
  · simp only [itemsStep] at hc
    split at hc
    · exact Or.inl (mem_moved.mp hc)
    · cases reorderOnChoice <;> simpa [addedBy, or_comm] using hc
  · exact Or.inl hc
  · exact Or.inl (mem_moved.mp hc)
  · exact Or.inl hc
  · exact Or.inl (List.mem_of_mem_erase hc)

/-- A command leaves the list only by being removed. -/
theorem mem_itemsStep_or_removedBy (reorderOnChoice : Bool) {items : List CString}
    (op : FavoritesOp) {c : CString} (hc : c ∈ items ++ addedBy op) :
    c ∈ itemsStep reorderOnChoice items op ∨ c ∈ removedBy items op := by
  rw [List.mem_append] at hc
  rcases op with (_ | d) | (_ | d) | (_ | d)
  · exact Or.inl (by simpa [addedBy, itemsStep] using hc)
  · refine Or.inl ?_
    simp only [itemsStep]
    split
    · next hd =>
        rw [mem_moved]
        rcases hc with hc | hc
        · exact hc
        · rwa [List.mem_singleton.mp hc]
    · cases reorderOnChoice <;> simpa [addedBy, or_comm] using hc
  · exact Or.inl (by simpa [addedBy, itemsStep] using hc)
  · exact Or.inl (mem_moved.mpr (by simpa [addedBy] using hc))
  · exact Or.inl (by simpa [addedBy, itemsStep] using hc)
  · have hmem : c ∈ items := by simpa [addedBy] using hc
    by_cases hcd : c = d
    · subst hcd
      exact Or.inr (by simp [removedBy, hmem])
    · exact Or.inl ((List.mem_erase_of_ne hcd).mpr hmem)

theorem mem_of_mem_removedBy {items : List CString} {op : FavoritesOp} {c : CString}
    (hc : c ∈ removedBy items op) : c ∈ items := by
  rcases op with d | d | (_ | d)
  · simp [removedBy] at hc
  · simp [removedBy] at hc
  · simp [removedBy] at hc
  · simp only [removedBy] at hc
    split at hc
    · rwa [List.mem_singleton.mp hc]
    · simp at hc

/-- An operation that changes nothing. -/
theorem itemsStep_eq_of_not_changes {reorderOnChoice : Bool} {items : List CString}
    {op : FavoritesOp} (h : ¬ Changes reorderOnChoice items op) :
    itemsStep reorderOnChoice items op = items ∧ removedBy items op = [] := by
  have hmoved : ∀ c, ¬ (reorderOnChoice ∧ c ∈ items ∧ items.head? ≠ some c) →
      moved reorderOnChoice items c = items := by
    intro c hc
    unfold moved
    split
    · next hre =>
        cases items with
        | nil => simp at hre
        | cons item items => simp_all
    · rfl
  rcases op with (_ | c) | (_ | c) | (_ | c)
  · exact ⟨rfl, rfl⟩
  · simp only [Changes, not_or, not_not] at h
    refine ⟨?_, rfl⟩
    simp only [itemsStep, h.1, if_true]
    exact hmoved c fun hc => h.2 ⟨hc.1, hc.2.2⟩
  · exact ⟨rfl, rfl⟩
  · exact ⟨hmoved c h, rfl⟩
  · exact ⟨rfl, rfl⟩
  · have hc : c ∉ items := h
    simp [itemsStep, removedBy, hc, List.erase_of_not_mem]

/-- The favorites are distinct lines. -/
structure Distinct (s : Session) : Prop where
  nodup : s.favorites.items.Nodup
  newlineFree : ∀ c ∈ s.favorites.items, NEWLINE ∉ c.bytes

theorem Distinct.favoritesStep {s : Session} (h : Distinct s) {op : FavoritesOp}
    (hop : NewlineFree op) : Distinct (favoritesStep s op) := by
  obtain ⟨hitems, -⟩ := favoritesStep_spec s op
  refine ⟨?_, ?_⟩
  · rw [hitems]
    exact nodup_itemsStep h.nodup op
  · intro c hc
    rw [hitems] at hc
    rcases List.mem_append.mp (mem_of_mem_itemsStep hc) with hc | hc
    · exact h.newlineFree c hc
    · exact newline_notMem_of_mem_addedBy hop hc

theorem distinct_startSession (reorderOnChoice skipComments : Bool) (file : Option (List Byte)) :
    Distinct (startSession reorderOnChoice skipComments file) := by
  obtain ⟨hitems, -⟩ := startSession_spec reorderOnChoice skipComments file
  refine ⟨?_, ?_⟩
  · rw [hitems]
    cases file with
    | none => exact List.nodup_nil
    | some content => exact nodup_eraseDups _
  · intro c hc
    rw [hitems] at hc
    exact newline_notMem_of_mem_loadedLines hc

/-- A step that changes the list saves it, comments included. -/
theorem Distinct.saved_of_changes {s : Session} (h : Distinct s) {op : FavoritesOp}
    (hop : NewlineFree op) (hch : Changes s.favorites.reorderOnChoice s.favorites.items op) :
    loadedLines false (Favorites.favoritesStep s op).file
      = (Favorites.favoritesStep s op).favorites.items := by
  have hdistinct := h.favoritesStep hop
  obtain ⟨-, -, -, hfile⟩ := favoritesStep_spec s op
  rw [hfile, if_pos hch, loadedLines_favorites_save hdistinct.newlineFree,
    eraseDups_eq_self hdistinct.nodup]

/-- A step changes neither the list nor the file, or it saves the list. -/
theorem Distinct.same_or_saved {s : Session} (h : Distinct s) {op : FavoritesOp}
    (hop : NewlineFree op) :
    let s' := Favorites.favoritesStep s op
    (s'.file = s.file ∧ s'.favorites.items = s.favorites.items)
      ∨ loadedLines false s'.file = s'.favorites.items := by
  intro s'
  by_cases hch : Changes s.favorites.reorderOnChoice s.favorites.items op
  · exact Or.inr (h.saved_of_changes hop hch)
  · obtain ⟨hitems, -, -, hfile⟩ := favoritesStep_spec s op
    rw [if_neg hch] at hfile
    exact Or.inl ⟨hfile, hitems.trans (itemsStep_eq_of_not_changes hch).1⟩

/-- Besides, the file is what `favorites_get` would make them from. -/
structure Persistent (s : Session) : Prop extends Distinct s where
  onDisk : loadedLines false s.file = s.favorites.items

/-- One operation keeps memory and file in step. -/
theorem Persistent.favoritesStep {s : Session} (h : Persistent s) {op : FavoritesOp}
    (hop : NewlineFree op) : Persistent (favoritesStep s op) := by
  refine ⟨h.toDistinct.favoritesStep hop, ?_⟩
  rcases h.toDistinct.same_or_saved hop with ⟨hfile, hitems⟩ | hsaved
  · -- nothing was saved, so the old file still tells the list
    rw [hfile, hitems, h.onDisk]
  · exact hsaved

theorem persistent_startSession (reorderOnChoice : Bool) (file : Option (List Byte)) :
    Persistent (startSession reorderOnChoice false file) where
  toDistinct := distinct_startSession reorderOnChoice false file
  onDisk := (startSession_spec reorderOnChoice false file).1.symm

/-- **Favorites are persistent at every step.** Whatever newline-free commands
are added, chosen and removed, the items stay distinct and a fresh
`favorites_get` on the file as it is yields them in their order. -/
theorem favorites_persistent (reorderOnChoice : Bool) (file : Option (List Byte))
    (ops : List FavoritesOp) (hops : ∀ op ∈ ops, NewlineFree op) :
    Always favoritesStep
      (fun s => s.favorites.items.Nodup ∧
        (favorites_get { favorites_init with reorderOnChoice } s.file).items = s.favorites.items)
      (startSession reorderOnChoice false file) ops := by
  have hrun : Always favoritesStep Persistent (startSession reorderOnChoice false file) ops := by
    refine always_of_guarded (fun s op hs (hop : NewlineFree op) => hs.favoritesStep hop)
      (persistent_startSession reorderOnChoice file) ?_
    exact guarded_of_forall_mem fun op hop _ => hops op hop
  refine hrun.mono fun s hs => ⟨hs.nodup, ?_⟩
  obtain ⟨hget, -⟩ :=
    favorites_get_spec { favorites_init with reorderOnChoice } rfl rfl (fun _ => rfl) s.file
  exact hget.trans hs.onDisk

/-- A file with a repetition, a favorite moved, one added, all removed again. -/
theorem favorites_persistent_session :
    Always favoritesStep
      (fun s => s.favorites.items.Nodup ∧
        (favorites_get { favorites_init with reorderOnChoice := true } s.file).items
          = s.favorites.items)
      (startSession true false (some (printLines [lit "ls", lit "cd", lit "ls"])))
      [.choose (some (lit "cd")), .add (some (lit "#x")), .remove (some (lit "ls")),
        .remove (some (lit "cd")), .remove (some (lit "#x")), .remove none] :=
  favorites_persistent true _ _ (by decide)

/-! ## What a rewrite does to the lines of the file

`favorites_save` writes the items and nothing else. A line that `favorites_get`
skipped (a comment under `skipComments`, a last line without its newline, what
follows a NUL) is not an item, so the first operation that changes the list
drops it from the file, unless that operation is the one that adds it. -/

/-- The lines of a file, the open one included. -/
def linesOf (file : Option (List Byte)) : List (List Byte) :=
  match file with
  | some content => lines NEWLINE content
  | none => []

/-- Every line of the file the session started with is still a line of the file,
or was removed. -/
def NoLoss (original : Option (List Byte)) (s : Session) : Prop :=
  ∀ l ∈ linesOf original, l ∈ s.removed.map CString.bytes ∨ l ∈ linesOf s.file

instance (original : Option (List Byte)) (s : Session) : Decidable (NoLoss original s) := by
  unfold NoLoss
  infer_instance

/-- The first operation that changes the favorites finds every line of the file
loaded, or adds it. -/
def FirstChangeKeeps (reorderOnChoice skipComments : Bool) (file : Option (List Byte))
    (ops : List FavoritesOp) : Prop :=
  ∀ op ∈ ops.find? (fun op => decide (Changes reorderOnChoice (loadedLines skipComments file) op)),
    ∀ l ∈ linesOf file, l ∈ (loadedLines skipComments file ++ addedBy op).map CString.bytes

theorem newline_notMem_of_mem_linesOf {file : Option (List Byte)} {l : List Byte}
    (h : l ∈ linesOf file) : NEWLINE ∉ l := by
  cases file with
  | none => simp [linesOf] at h
  | some content => exact not_mem_of_mem_lines NEWLINE h

/-- A saved file has the items as lines. -/
theorem mem_linesOf_favorites_save {favorites : FavoriteItems} {file : Option (List Byte)}
    {l : List Byte} (hl : l ∈ favorites.items.map CString.bytes) (hnl : NEWLINE ∉ l) :
    l ∈ linesOf (favorites_save favorites file) := by
  have hlen : favorites.items.length ≠ 0 := by
    intro h0
    rw [List.length_eq_zero_iff.mp h0] at hl
    simp at hl
  rw [favorites_save, if_pos hlen]
  exact mem_lines_unlines NEWLINE hl hnl

/-- It has no others where the items hold no newline. -/
theorem linesOf_favorites_save {favorites : FavoriteItems} {file : Option (List Byte)}
    (hnl : ∀ c ∈ favorites.items, NEWLINE ∉ c.bytes) {l : List Byte}
    (hl : l ∈ linesOf (favorites_save favorites file)) : l ∈ favorites.items.map CString.bytes := by
  unfold favorites_save at hl
  split at hl
  · have hlines : lines NEWLINE (printLines favorites.items)
        = favorites.items.map CString.bytes := by
      refine lines_unlines NEWLINE ?_
      intro l hl
      obtain ⟨c, hc, rfl⟩ := List.mem_map.mp hl
      exact hnl c hc
    rwa [← hlines]
  · cases file <;> simp [linesOf, lines, completeLines, openLine] at hl

/-- Every line of the original file is an item or was removed, and the file
shows it. This is what the session keeps once the list has changed. -/
structure Covered (original : Option (List Byte)) (s : Session) : Prop where
  items : ∀ l ∈ linesOf original,
    l ∈ s.removed.map CString.bytes ∨ l ∈ s.favorites.items.map CString.bytes
  noLoss : NoLoss original s

/-- A line that is an item before the step, or is added by it, is an item after
it or was removed. -/
theorem mem_items_or_removed_favoritesStep {s : Session} {op : FavoritesOp} {l : List Byte}
    (hl : l ∈ s.removed.map CString.bytes ∨
      l ∈ (s.favorites.items ++ addedBy op).map CString.bytes) :
    l ∈ (favoritesStep s op).removed.map CString.bytes ∨
      l ∈ (favoritesStep s op).favorites.items.map CString.bytes := by
  obtain ⟨hitems, -, hremoved, -⟩ := favoritesStep_spec s op
  rw [hitems, hremoved, List.map_append, List.mem_append]
  rcases hl with hl | hl
  · exact Or.inl (Or.inr hl)
  · obtain ⟨c, hc, rfl⟩ := List.mem_map.mp hl
    rcases mem_itemsStep_or_removedBy s.favorites.reorderOnChoice op hc with hc | hc
    · exact Or.inr (List.mem_map_of_mem hc)
    · exact Or.inl (Or.inl (List.mem_map_of_mem hc))

/-- After a change the file shows every line that is an item. -/
theorem covered_of_changes {original : Option (List Byte)} {s : Session} {op : FavoritesOp}
    (hch : Changes s.favorites.reorderOnChoice s.favorites.items op)
    (hl : ∀ l ∈ linesOf original, l ∈ s.removed.map CString.bytes ∨
      l ∈ (s.favorites.items ++ addedBy op).map CString.bytes) :
    Covered original (favoritesStep s op) := by
  have hitems := fun l h => mem_items_or_removed_favoritesStep (hl l h)
  obtain ⟨-, -, -, hfile⟩ := favoritesStep_spec s op
  refine ⟨hitems, fun l h => ?_⟩
  -- the file was saved in this step
  rw [hfile, if_pos hch]
  rcases hitems l h with hr | hi
  · exact Or.inl hr
  · exact Or.inr (mem_linesOf_favorites_save hi (newline_notMem_of_mem_linesOf h))

/-- Nothing is lost by a step from a covered state. -/
theorem Covered.favoritesStep {original : Option (List Byte)} {s : Session}
    (h : Covered original s) (op : FavoritesOp) : Covered original (favoritesStep s op) := by
  by_cases hch : Changes s.favorites.reorderOnChoice s.favorites.items op
  · refine covered_of_changes hch fun l hl => ?_
    rw [List.map_append, List.mem_append]
    rcases h.items l hl with hr | hi
    · exact Or.inl hr
    · exact Or.inr (Or.inl hi)
  · obtain ⟨hitems, -, hremoved, hfile⟩ := favoritesStep_spec s op
    obtain ⟨hsame, hnone⟩ := itemsStep_eq_of_not_changes hch
    rw [if_neg hch] at hfile
    rw [hnone, List.nil_append] at hremoved
    refine ⟨?_, ?_⟩
    · rw [hitems, hremoved, hsame]
      exact h.items
    · unfold NoLoss
      rw [hremoved, hfile]
      exact h.noLoss

/-- The first change writes the items to the file. If no line is lost, each one
was loaded, or is added by the change. -/
theorem loaded_or_added_of_noLoss {skipComments : Bool} {file : Option (List Byte)} {s : Session}
    {op : FavoritesOp} (hop : NewlineFree op)
    (hloaded : s.favorites.items = loadedLines skipComments file) (hremoved : s.removed = [])
    (hch : Changes s.favorites.reorderOnChoice s.favorites.items op)
    (hkept : NoLoss file (favoritesStep s op)) :
    ∀ l ∈ linesOf file, l ∈ (s.favorites.items ++ addedBy op).map CString.bytes := by
  obtain ⟨hitems', -, hremoved', hfile'⟩ := favoritesStep_spec s op
  rw [hremoved, List.append_nil] at hremoved'
  intro l hl
  have hnl : ∀ c ∈ (favoritesStep s op).favorites.items, NEWLINE ∉ c.bytes := by
    intro c hc
    rw [hitems'] at hc
    rcases List.mem_append.mp (mem_of_mem_itemsStep hc) with hc | hc
    · rw [hloaded] at hc
      exact newline_notMem_of_mem_loadedLines hc
    · exact newline_notMem_of_mem_addedBy hop hc
  rcases hkept l hl with hr | hf
  · -- the line was removed by this very operation, so it was an item
    rw [hremoved'] at hr
    obtain ⟨c, hc, rfl⟩ := List.mem_map.mp hr
    exact List.mem_map_of_mem (List.mem_append_left _ (mem_of_mem_removedBy hc))
  · rw [hfile', if_pos hch] at hf
    obtain ⟨c, hc, rfl⟩ := List.mem_map.mp (linesOf_favorites_save hnl hf)
    rw [hitems'] at hc
    exact List.mem_map_of_mem (mem_of_mem_itemsStep hc)

/-- **When using favorites loses no line.** No line is lost where the first
operation that changes the list finds each line loaded or adds it; and where the
commands hold no newline, a run that loses no line is of this kind. -/
theorem favorites_no_loss_iff (reorderOnChoice skipComments : Bool) (file : Option (List Byte))
    (ops : List FavoritesOp) :
    (FirstChangeKeeps reorderOnChoice skipComments file ops →
      Always favoritesStep (NoLoss file) (startSession reorderOnChoice skipComments file) ops) ∧
    ((∀ op ∈ ops, NewlineFree op) →
      Always favoritesStep (NoLoss file) (startSession reorderOnChoice skipComments file) ops →
      FirstChangeKeeps reorderOnChoice skipComments file ops) := by
  obtain ⟨hitems, hre⟩ := startSession_spec reorderOnChoice skipComments file
  have hremoved : (startSession reorderOnChoice skipComments file).removed = [] := rfl
  have hfile : (startSession reorderOnChoice skipComments file).file = file := rfl
  -- the operations before the first change leave list, file and removals as they are
  generalize startSession reorderOnChoice skipComments file = s at *
  have hstart : NoLoss file s := fun l hl => Or.inr (hfile ▸ hl)
  unfold FirstChangeKeeps
  induction ops generalizing s with
  | nil => exact ⟨fun _ => hstart, by simp⟩
  | cons op ops ih =>
      obtain ⟨hitems', hre', hremoved', hfile'⟩ := favoritesStep_spec s op
      rw [hitems, hre] at hitems' hfile'
      rw [hitems, hremoved, List.append_nil] at hremoved'
      by_cases hch : Changes reorderOnChoice (loadedLines skipComments file) op
      · have hfind : (op :: ops).find?
            (fun op => decide (Changes reorderOnChoice (loadedLines skipComments file) op))
            = some op := by simp [hch]
        rw [hfind]
        simp only [Option.mem_some_iff, forall_eq']
        constructor
        · intro hkeeps
          -- from the change on, every line is an item or was removed
          have hcov : Covered file (favoritesStep s op) := by
            refine covered_of_changes (by rwa [hitems, hre]) fun l hl => Or.inr ?_
            rw [hitems]
            exact hkeeps l hl
          refine ⟨hstart, ?_⟩
          exact (always_of_step (fun s op h => h.favoritesStep op) hcov ops).mono
            fun s h => h.noLoss
        · intro hops hrun
          have hkept := loaded_or_added_of_noLoss (hops op List.mem_cons_self) hitems hremoved
            (by rwa [hitems, hre]) hrun.2.first
          rwa [hitems] at hkept
      · have hfind : (op :: ops).find?
            (fun op => decide (Changes reorderOnChoice (loadedLines skipComments file) op))
            = ops.find?
              (fun op => decide (Changes reorderOnChoice (loadedLines skipComments file) op)) := by
          simp [hch]
        obtain ⟨hsame, hnone⟩ := itemsStep_eq_of_not_changes hch
        rw [if_neg hch] at hfile'
        have hfile'' := hfile'.trans hfile
        rw [hfind]
        -- nothing has changed yet, so the induction goes on from the same session
        have hrest := ih (favoritesStep s op) (hitems'.trans hsame) (hre'.trans hre)
          (hremoved'.trans hnone) hfile'' fun l hl => Or.inr (hfile'' ▸ hl)
        constructor
        · exact fun hkeeps => ⟨hstart, hrest.1 hkeeps⟩
        · exact fun hops hrun => hrest.2 (fun op hop => hops op (List.mem_cons_of_mem _ hop)) hrun.2

/-- A file with a comment and a last line without its newline, comments skipped
on load: adding a command leaves only `ls` of its three lines. -/
theorem favorites_add_loses_lines :
    ¬ Always favoritesStep (NoLoss (some (lit "#t\nls\npwd").bytes))
        (startSession true true (some (lit "#t\nls\npwd").bytes)) [.add (some (lit "cd"))] := by
  intro h
  have hlast : NoLoss (some (lit "#t\nls\npwd").bytes)
      (favoritesStep (startSession true true (some (lit "#t\nls\npwd").bytes))
        (.add (some (lit "cd")))) := h.2
  revert hlast
  decide

end Hstr.Favorites
