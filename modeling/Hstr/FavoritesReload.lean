/-
`src/hstr_favorites.c`: `favorites_get` called again.

The flag `loaded` is there to make a second call do nothing, and only the branch
for a missing file sets it. Where the file exists, every call reads it from the
start: the list is emptied, and the lines that the set has are left out, which the
first call and `favorites_add` put into it.
-/
import Hstr.Favorites

set_option autoImplicit false

namespace Hstr.FavoritesReload

open Lib.Runs Lib.Lines Lib.Dedup Hstr.Strings Hstr.Hashset Hstr.Favorites

/-- A call that reads the favorites, or one that changes them. -/
inductive FavoritesCall
  | favorites_get
  | op (op : FavoritesOp)
  deriving DecidableEq

def callStep (s : Session) : FavoritesCall → Session
  | .favorites_get => { s with favorites := favorites_get s.favorites s.file }
  | .op op => favoritesStep s op

/-- The call does not change the list, if it is a `favorites_get`. -/
def Idempotent (s : Session) (call : FavoritesCall) : Prop :=
  call = .favorites_get → (callStep s call).favorites.items = s.favorites.items

/-- The list is empty when `favorites_get` is called. -/
def CalledOnEmpty (s : Session) (call : FavoritesCall) : Prop :=
  call = .favorites_get → s.favorites.items = []

/-! ## Reading lines into a set that is not empty -/

/-- What reading lines makes of the favorites. -/
structure ReadLines (ls : List CString) (favorites favorites' : FavoriteItems) : Prop where
  loaded : favorites'.loaded = favorites.loaded
  skipComments : favorites'.skipComments = favorites.skipComments
  grows : ∀ c, hashset_contains favorites.set c = true → hashset_contains favorites'.set c = true
  /-- A new item was not in the set, and is. -/
  items : ∀ c ∈ favorites'.items, c ∈ favorites.items
    ∨ (hashset_contains favorites.set c = false ∧ hashset_contains favorites'.set c = true)
  /-- The visible lines are in the set afterwards. -/
  seen : ∀ l ∈ ls, visible favorites.skipComments l = true → hashset_contains favorites'.set l = true
  /-- If they were before, nothing is read. -/
  nothingNew : (∀ l ∈ ls, visible favorites.skipComments l = true →
    hashset_contains favorites.set l = true) → favorites'.items = favorites.items

theorem readLines_line (favorites : FavoriteItems) (pb : CString) :
    ReadLines [pb] favorites (favorites_get_line favorites pb) := by
  unfold favorites_get_line
  cases hin : hashset_contains favorites.set pb with
  | true =>
      refine ⟨rfl, rfl, fun _ h => h, fun _ hc => Or.inl hc, fun l hl _ => ?_, fun _ => rfl⟩
      rw [List.mem_singleton.mp hl]
      exact hin
  | false =>
      cases hvisible : visible favorites.skipComments pb with
      | false =>
          refine ⟨rfl, rfl, fun _ h => h, fun _ hc => Or.inl hc, fun l hl hyes => ?_, fun _ => rfl⟩
          rw [List.mem_singleton.mp hl, hvisible] at hyes
          cases hyes
      | true =>
          refine ⟨rfl, rfl, fun c hc => ?_, fun c hc => ?_, fun l hl _ => ?_, fun hall => ?_⟩
          · simp [hc]
          · -- the line is the new item
            rcases List.mem_append.mp hc with hc | hc
            · exact Or.inl hc
            · rw [List.mem_singleton.mp hc]
              exact Or.inr ⟨hin, by simp⟩
          · simp [List.mem_singleton.mp hl]
          · have hthere := hall pb (List.mem_singleton_self pb) hvisible
            rw [hin] at hthere
            cases hthere

theorem ReadLines.trans {ls ls' : List CString} {f f' f'' : FavoriteItems} (h : ReadLines ls f f')
    (h' : ReadLines ls' f' f'') : ReadLines (ls ++ ls') f f'' := by
  refine ⟨h'.loaded.trans h.loaded, h'.skipComments.trans h.skipComments,
    fun c hc => h'.grows c (h.grows c hc), fun c hc => ?_, fun l hl hvisible => ?_, fun hall => ?_⟩
  · rcases h'.items c hc with hc | ⟨hout, hin⟩
    · rcases h.items c hc with hc | ⟨hout, hin⟩
      · exact Or.inl hc
      · exact Or.inr ⟨hout, h'.grows c hin⟩
    · refine Or.inr ⟨?_, hin⟩
      rw [Bool.eq_false_iff] at hout ⊢
      exact fun hc => hout (h.grows c hc)
  · rcases List.mem_append.mp hl with hl | hl
    · exact h'.grows l (h.seen l hl hvisible)
    · apply h'.seen l hl
      rwa [h.skipComments]
  · rw [h'.nothingNew, h.nothingNew]
    · exact fun l hl => hall l (List.mem_append_left ls' hl)
    · intro l hl hvisible
      rw [h.skipComments] at hvisible
      exact h.grows l (hall l (List.mem_append_right ls hl) hvisible)

theorem readLines_foldl (ls : List CString) (favorites : FavoriteItems) :
    ReadLines ls favorites (ls.foldl favorites_get_line favorites) := by
  induction ls generalizing favorites with
  | nil => exact ⟨rfl, rfl, fun _ h => h, fun _ hc => Or.inl hc, fun _ hl => absurd hl
      List.not_mem_nil, fun _ => rfl⟩
  | cons pb ls ih => exact (readLines_line favorites pb).trans (ih (favorites_get_line favorites pb))

/-! ## One call -/

/-- The text that `favorites_get` reads. -/
def fileText (file : Option (List Byte)) : CString := (file.map ofBuffer).getD empty

theorem favorites_get_eq {favorites : FavoriteItems} (hloaded : favorites.loaded = false)
    {file : Option (List Byte)} (hfile : file ≠ none) :
    favorites_get favorites file
      = if strlen (fileText file) ≠ 0 then
          (fileLines (fileText file)).foldl favorites_get_line { favorites with items := [] }
        else favorites := by
  obtain ⟨content, rfl⟩ := Option.ne_none_iff_exists'.mp hfile
  simp only [favorites_get, hloaded, Bool.false_eq_true, if_false]
  rfl

/-- The file exists, so it is read again by every `favorites_get`. -/
structure Reloadable (s : Session) : Prop where
  loaded : s.favorites.loaded = false
  file : s.file ≠ none
  /-- The set never loses what is in the list. -/
  inSet : ∀ c ∈ s.favorites.items, hashset_contains s.favorites.set c = true
  /-- An empty file keeps no favorites. -/
  emptyFile : strlen (fileText s.file) = 0 → s.favorites.items = []
  /-- An empty list comes from a file without a line that is new to the set. -/
  emptyList : s.favorites.items = [] → ∀ l ∈ fileLines (fileText s.file),
    visible s.favorites.skipComments l = true → hashset_contains s.favorites.set l = true

theorem not_mem_fileLines {text : CString} (h : strlen text = 0) (l : CString) : l ∉ fileLines text := by
  rw [strlen_eq_zero_iff.mp h]
  intro hl
  have hmem := List.mem_map_of_mem (f := CString.bytes) hl
  rw [map_bytes_fileLines] at hmem
  exact absurd hmem List.not_mem_nil

/-- Reading an existing file again leaves a state from which it can be read again. -/
theorem reloadable_get {s : Session} (hloaded : s.favorites.loaded = false) (hfile : s.file ≠ none)
    (hin : ∀ c ∈ s.favorites.items, hashset_contains s.favorites.set c = true)
    (hempty : strlen (fileText s.file) = 0 → s.favorites.items = []) :
    Reloadable (callStep s .favorites_get) := by
  have hget := favorites_get_eq hloaded hfile
  by_cases hlen : strlen (fileText s.file) = 0
  · rw [if_neg (not_not_intro hlen)] at hget
    have hsame : callStep s .favorites_get = s :=
      congrArg (fun favorites => { s with favorites }) hget
    rw [hsame]
    exact ⟨hloaded, hfile, hin, hempty, fun _ l hl => absurd hl (not_mem_fileLines hlen l)⟩
  · rw [if_pos hlen] at hget
    have hread := readLines_foldl (fileLines (fileText s.file)) { s.favorites with items := [] }
    rw [← hget] at hread
    have hskip : (callStep s .favorites_get).favorites.skipComments = s.favorites.skipComments :=
      hread.skipComments
    refine ⟨hread.loaded.trans hloaded, hfile, fun c hc => ?_, fun h0 => absurd h0 hlen,
      fun _ l hl hvisible => ?_⟩
    · rcases hread.items c hc with hnil | ⟨-, hset⟩
      · exact absurd hnil List.not_mem_nil
      · exact hset
    · apply hread.seen l hl
      rwa [hskip] at hvisible

/-- **Reading again keeps an empty list and loses any other**: what is in the list
is in the set, and what is in the set is not read. -/
theorem Reloadable.get_iff {s : Session} (h : Reloadable s) :
    (favorites_get s.favorites s.file).items = s.favorites.items ↔ s.favorites.items = [] := by
  rw [favorites_get_eq h.loaded h.file]
  have hread := readLines_foldl (fileLines (fileText s.file)) { s.favorites with items := [] }
  constructor
  · intro hsame
    by_contra hne
    have hlen : strlen (fileText s.file) ≠ 0 := fun h0 => hne (h.emptyFile h0)
    rw [if_pos hlen] at hsame
    obtain ⟨c, hc⟩ := List.exists_mem_of_ne_nil _ hne
    rcases hread.items c (hsame ▸ hc) with hnil | ⟨hout, -⟩
    · exact absurd hnil List.not_mem_nil
    · have hin := h.inSet c hc
      rw [hout] at hin
      cases hin
  · intro hnil
    split
    · rw [hread.nothingNew (h.emptyList hnil), hnil]
    · rfl

/-! ## A run -/

/-- An operation keeps the flags, and what it adds to the list is in the set. -/
theorem favoritesStep_set (s : Session) (op : FavoritesOp) :
    (favoritesStep s op).favorites.loaded = s.favorites.loaded
      ∧ (favoritesStep s op).favorites.skipComments = s.favorites.skipComments
      ∧ (∀ c, hashset_contains s.favorites.set c = true →
          hashset_contains (favoritesStep s op).favorites.set c = true)
      ∧ ∀ c ∈ addedBy op, c ∈ s.favorites.items
          ∨ hashset_contains (favoritesStep s op).favorites.set c = true := by
  rcases op with (_ | c) | (_ | c) | (_ | c)
  · exact ⟨rfl, rfl, fun _ h => h, fun _ hc => absurd hc List.not_mem_nil⟩
  · have hadd := favorites_add_eq s.favorites s.file c
    refine ⟨?_, ?_, fun d hd => ?_, fun d hd => ?_⟩
    · simp only [favoritesStep, hadd]
    · simp only [favoritesStep, hadd]
    · simp only [favoritesStep, hadd]
      split
      · exact hd
      · simp [hd]
    · rw [List.mem_singleton.mp hd]
      simp only [favoritesStep, hadd]
      split
      · next hc => exact Or.inl hc
      · exact Or.inr (by simp)
  · refine ⟨?_, ?_, fun _ h => ?_, fun _ hc => absurd hc List.not_mem_nil⟩
    · simp [favoritesStep, favorites_choose]
    · simp [favoritesStep, favorites_choose]
    · simpa [favoritesStep, favorites_choose] using h
  · simp only [favoritesStep, favorites_choose_eq]
    exact ⟨trivial, trivial, fun _ h => h, fun _ hc => absurd hc List.not_mem_nil⟩
  · exact ⟨rfl, rfl, fun _ h => h, fun _ hc => absurd hc List.not_mem_nil⟩
  · simp only [favoritesStep, favorites_remove_eq]
    split <;> exact ⟨rfl, rfl, fun _ h => h, fun _ hc => absurd hc List.not_mem_nil⟩

/-- A saved list that is not empty leaves a file that is not empty. -/
theorem strlen_fileText_favorites_save {favorites : FavoriteItems} {file : Option (List Byte)}
    (hne : favorites.items ≠ []) : strlen (fileText (favorites_save favorites file)) ≠ 0 := by
  have hlen : favorites.items.length ≠ 0 := fun h0 => hne (List.length_eq_zero_iff.mp h0)
  rw [favorites_save, if_pos hlen, fileText, Option.map_some, Option.getD_some, strlen,
    bytes_ofBuffer_printLines, printLines]
  obtain ⟨item, items, hitems⟩ := List.exists_cons_of_ne_nil hne
  rw [hitems, List.map_cons, unlines_cons]
  simp

theorem favorites_save_ne_none {favorites : FavoriteItems} {file : Option (List Byte)}
    (hfile : file ≠ none) : favorites_save favorites file ≠ none := by
  obtain ⟨content, rfl⟩ := Option.ne_none_iff_exists'.mp hfile
  unfold favorites_save
  split
  · exact Option.some_ne_none _
  · exact Option.some_ne_none _

/-- An operation leaves a state from which the file can be read again. -/
theorem Reloadable.op {s : Session} (h : Reloadable s) (op : FavoritesOp) :
    Reloadable (callStep s (.op op)) := by
  obtain ⟨hitems, -, -, hfile⟩ := favoritesStep_spec s op
  obtain ⟨hloaded, hskip, hgrows, hadded⟩ := favoritesStep_set s op
  have hin : ∀ c ∈ (favoritesStep s op).favorites.items,
      hashset_contains (favoritesStep s op).favorites.set c = true := by
    intro c hc
    rw [hitems] at hc
    rcases List.mem_append.mp (mem_of_mem_itemsStep hc) with hc | hc
    · exact hgrows c (h.inSet c hc)
    · rcases hadded c hc with hc | hc
      · exact hgrows c (h.inSet c hc)
      · exact hc
  by_cases hch : Changes s.favorites.reorderOnChoice s.favorites.items op
  · -- the list is saved
    rw [if_pos hch] at hfile
    refine ⟨hloaded.trans h.loaded, ?_, hin, fun h0 => ?_, fun hnil l hl => ?_⟩
    · rw [callStep, hfile]
      exact favorites_save_ne_none h.file
    · by_contra hne
      rw [callStep, hfile] at h0
      exact strlen_fileText_favorites_save hne h0
    · have hempty : strlen (fileText (callStep s (.op op)).file) = 0 := by
        obtain ⟨content, hcontent⟩ := Option.ne_none_iff_exists'.mp h.file
        have hlength : ¬ (favoritesStep s op).favorites.items.length ≠ 0 := by
          rw [not_not]
          exact List.length_eq_zero_iff.mpr hnil
        rw [callStep, hfile, favorites_save, if_neg hlength, hcontent]
        rfl
      exact absurd hl (not_mem_fileLines hempty l)
  · rw [if_neg hch] at hfile
    rw [(itemsStep_eq_of_not_changes hch).1] at hitems
    refine ⟨hloaded.trans h.loaded, ?_, hin, ?_, ?_⟩
    · rw [callStep, hfile]
      exact h.file
    · rw [callStep, hfile, hitems]
      exact h.emptyFile
    · rw [callStep, hfile, hitems, hskip]
      exact fun hnil l hl hvisible => hgrows l (h.emptyList hnil l hl hvisible)

theorem Reloadable.callStep {s : Session} (h : Reloadable s) (call : FavoritesCall) :
    Reloadable (callStep s call) := by
  cases call with
  | favorites_get => exact reloadable_get h.loaded h.file h.inSet h.emptyFile
  | op op => exact h.op op

theorem reloadable_startSession (reorderOnChoice skipComments : Bool) {file : Option (List Byte)}
    (hfile : file ≠ none) : Reloadable (startSession reorderOnChoice skipComments file) := by
  apply reloadable_get
    (s := ⟨{ favorites_init with reorderOnChoice, skipComments }, file, []⟩) rfl hfile
  · exact fun c hc => absurd hc List.not_mem_nil
  · exact fun _ => rfl

/-- Where the file is missing the flag is set, and no call clears it. -/
theorem loaded_callStep {s : Session} (h : s.favorites.loaded = true) (call : FavoritesCall) :
    (callStep s call).favorites.loaded = true := by
  cases call with
  | favorites_get => simp [callStep, favorites_get, h]
  | op op => exact (favoritesStep_set s op).1.trans h

/-- **When `favorites_get` is idempotent**: in the runs where the file was missing
at first, and in those where the list is empty whenever it is called again. -/
theorem favorites_get_idempotent_iff (reorderOnChoice skipComments : Bool)
    (file : Option (List Byte)) (calls : List FavoritesCall) :
    Guarded callStep Idempotent (startSession reorderOnChoice skipComments file) calls
      ↔ file = none
        ∨ Guarded callStep CalledOnEmpty (startSession reorderOnChoice skipComments file) calls := by
  by_cases hfile : file = none
  · subst hfile
    refine iff_of_true ?_ (Or.inl rfl)
    apply guarded_of_guarded (I := fun s => s.favorites.loaded = true) (G := fun _ _ => True)
    · exact fun s call hs _ => loaded_callStep hs call
    · rintro s call hs - rfl
      simp [callStep, favorites_get, hs]
    · rfl
    · exact guarded_of_forall_mem fun _ _ _ => trivial
  · rw [or_iff_right hfile]
    apply guarded_iff_guarded (I := Reloadable)
    · exact fun s call hs _ => hs.callStep call
    · intro s call hs
      apply imp_congr_right
      rintro rfl
      exact hs.get_iff
    · exact reloadable_startSession reorderOnChoice skipComments hfile

/-- A second `favorites_get` empties the list of `ls` and `cd`, and the next
command that is added is the only one in the file. -/
theorem favorites_get_twice :
    let calls : List FavoritesCall := [.favorites_get, .op (.add (some (lit "make")))]
    let s := startSession true false (some (printLines [lit "ls", lit "cd"]))
    ¬ Guarded callStep Idempotent s calls
      ∧ s.favorites.items = [lit "ls", lit "cd"]
      ∧ (callStep s .favorites_get).favorites.items = []
      ∧ (run callStep s calls).file = some (printLines [lit "make"]) := by
  refine ⟨fun h => ?_, by decide, by decide, by decide⟩
  exact absurd (h.1 rfl) (by decide)

end Hstr.FavoritesReload
