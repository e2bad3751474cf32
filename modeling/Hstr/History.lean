/-
`src/hstr_history.c`: the history list of readline and the three views of it.

`prioritized_history_create` walks the history list once. Every command goes to
the raw view, which points into the list, and every command that is not
blacklisted goes through a rank map and the radix sorter to the ranking view.
`history_mgmt_remove_from_*` take a command out of the views and of the list.

`RankedHistoryItem`s are allocated one after another and never freed while the
loop runs, so a pointer to one is its index. A line of the list is read where it
lies, or from an unmetafied copy; `RawSource` tells which, since lines of
removed entries are freed and copies are not. `malloc` succeeds.
-/
import Hstr.Radixsort
import Hstr.Hashset
import Hstr.Readline

set_option autoImplicit false

namespace Hstr.History

open Hstr.Strings Hstr.Hashset Hstr.Radixsort Hstr.Utils Hstr.Readline

/-- What is behind the copies that a walk over the history list makes of its
lines, by the entry; a walk copies each line at most once. -/
abbrev Beyond := ℕ → List Byte

/-- What the program finds outside: `is_zsh_parent_shell()`, the memory behind the
copies it makes, readline, and what the lines of the history file are after
another shell has appended one. -/
structure Shell where
  isZsh : Bool
  beyond : Beyond
  readline : HistoryLibrary
  append_history : List CString → CString → List CString

/-- A Bash with nothing behind its copies, whose `history -a` adds a line. -/
def bash : Shell where
  isZsh := false
  beyond := fun _ => []
  readline := gnuReadline
  append_history lines line := lines ++ [line]

/-- The same for zsh. -/
def zsh : Shell := { bash with isZsh := true }

/-- `HIST_ENTRY`, with the identity of its allocation. -/
structure HistEntry where
  id : ℕ
  line : Option CString

/-- `HISTORY_STATE`: `entries` has `length` elements, `size` is what is
allocated for them. -/
structure HistoryState where
  entries : List HistEntry
  size : ℕ
  /-- No entry is in the list twice. -/
  distinct : (entries.map HistEntry.id).Nodup

/-- What a pointer of the raw view points to. -/
inductive RawSource
  | line (id : ℕ)
  | copy (index : ℕ)

structure RawItem where
  source : RawSource
  text : CString

/-- A slot of the array behind the raw view, which comes from `malloc`. -/
inductive RawSlot
  | uninitialised
  | null
  | item (r : RawItem)

/-- `HistoryItems`: the arrays with as many elements as their counts say. -/
structure HistoryItems where
  items : List CString
  rawItems : List RawItem
  unmetafiedItems : List CString

structure RankedHistoryItem where
  item : CString
  rank : ℕ

/-- `history_ranking_function`, which is floating point arithmetic: any function
of the rank so far, the index and the length. -/
abbrev RankingFunction := ℕ → ℕ → ℕ → ℕ

/-! ## Lines -/

def ZSH_HISTORY_EXT_DIGITS : ℕ := 10

def COLON : Byte := 58

def SEMICOLON : Byte := 59

def is_hist_timestamp (line : CString) : Bool :=
  match line.bytes with
  | [] => false
  | c :: digits => c == 35 && digits.all isdigit && decide (1 + digits.length ≥ 11)

/-- The loop over the duration, a digit at a time: what it consumes up to and
with the `';'`. -/
def skipDuration : List Byte → Option ℕ
  | [] => none
  | c :: rest =>
      if isdigit c then
        if rest.head? = some SEMICOLON then some 2 else (skipDuration rest).map (· + 1)
      else none

def parse_history_line (isZsh : Bool) (l : CString) : CString :=
  if !isZsh || l.bytes.getD 0 0 != COLON || l.bytes.getD 1 0 != SPACE then l
  else
    let pt := l.bytes.drop 2
    -- `: 1420549651:0;ls`: ten digits, a colon, the duration, a semicolon
    let u := ((pt.take ZSH_HISTORY_EXT_DIGITS).takeWhile isdigit).length
    if u = ZSH_HISTORY_EXT_DIGITS ∧ pt.getD u 0 = COLON then
      match skipDuration (pt.drop (u + 1)) with
      | some n => advance l (2 + u + 1 + n)
      | none => l
    else l

/-- The test `isZsh && strchr(line, ZSH_META)`. -/
def isMetafied (isZsh : Bool) (line : CString) : Bool := isZsh && (strchr line ZSH_META).isSome

/-- `history_line_equals` of a line and a command, neither `NULL`, with the memory
behind the copy it makes. -/
def history_line_equals (isZsh : Bool) (beyond : List Byte) (line cmd : CString) : Bool :=
  let command := parse_history_line isZsh line
  if isMetafied isZsh command then decide (zsh_unmetafy beyond command = cmd)
  else decide (command = cmd)

/-! ## `prioritized_history_create` -/

/-- The variables of the indexing loop. `rawHistory` is the part of the array
behind `rawOffset`, which the loop fills from the end. -/
structure CreateState where
  rankmap : HashSet ℕ
  rs : RadixSorter ℕ
  ranked : List RankedHistoryItem
  rawHistory : List RawSlot
  rawTimestamps : ℕ
  unmetafiedHistory : List CString

/-- The end of the loop body: rank the occurrence of `line` at index `i`. -/
def rankLine (history_ranking_function : RankingFunction) (st : CreateState) (i : ℕ)
    (line : CString) : Except Fault CreateState :=
  match hashset_get st.rankmap line with
  | none => do
      let rank := history_ranking_function 0 i (strlen line)
      let r := st.ranked.length
      let rs ← radixsort_add st.rs ⟨rank, r⟩
      return { st with
        rankmap := (hashset_put st.rankmap line r).1
        ranked := st.ranked ++ [⟨line, rank⟩]
        rs }
  | some r =>
      match st.ranked[r]? with
      | none => .error .nullDereference
      | some item => do
          let (radixItem, rs) ← radix_cut st.rs item.rank r
          -- the sorter does not have the item: it keeps its old rank
          match radixItem with
          | none => return { st with rs }
          | some radixItem =>
              let rank := history_ranking_function item.rank i (strlen line)
              let rs ← radixsort_add rs { radixItem with key := rank }
              return { st with rs, ranked := st.ranked.set r { item with rank } }

/-- The loop body for the entry at index `i`. -/
def indexEntry (sh : Shell) (history_ranking_function : RankingFunction)
    (blacklist : HashSet CString) (st : CreateState) (i : ℕ) (entry : HistEntry) :
    Except Fault CreateState :=
  match entry.line with
  | none => .ok { st with rawHistory := .uninitialised :: st.rawHistory }
  | some l =>
      if strlen l = 0 then .ok { st with rawHistory := .uninitialised :: st.rawHistory }
      else if is_hist_timestamp l then
        .ok { st with
          rawHistory := .null :: st.rawHistory
          rawTimestamps := st.rawTimestamps + 1 }
      else
        let line := parse_history_line sh.isZsh l
        -- the raw view points into the entry, or to a copy where the line was decoded
        let (line, source, unmetafiedHistory) :=
          if isMetafied sh.isZsh line then
            let unmetafied := zsh_unmetafy (sh.beyond entry.id) line
            (unmetafied, RawSource.copy st.unmetafiedHistory.length,
              st.unmetafiedHistory ++ [unmetafied])
          else (line, RawSource.line entry.id, st.unmetafiedHistory)
        let st := { st with
          rawHistory := .item ⟨source, line⟩ :: st.rawHistory
          unmetafiedHistory }
        if hashset_contains blacklist line then .ok st
        else rankLine history_ranking_function st i line

/-- The indexing loop, from index `i` on. -/
def indexEntries (sh : Shell) (history_ranking_function : RankingFunction)
    (blacklist : HashSet CString) : ℕ → List HistEntry → CreateState → Except Fault CreateState
  | _, [], st => .ok st
  | i, entry :: entries, st => do
      let st ← indexEntry sh history_ranking_function blacklist st i entry
      indexEntries sh history_ranking_function blacklist (i + 1) entries st

/-- The slots that the compacting loop moves to the front. -/
def movedSlots : List RawSlot → Except Fault (List RawSlot)
  | [] => .ok []
  | .uninitialised :: _ => .error .uninitialised
  | .null :: rest => movedSlots rest
  | .item r :: rest => do
      let moved ← movedSlots rest
      return .item r :: moved

/-- The array after the slots of timestamps, if there are any, are closed. -/
def compactRaw (rawTimestamps : ℕ) (rawHistory : List RawSlot) : Except Fault (List RawSlot) :=
  if rawTimestamps ≠ 0 then do
    let moved ← movedSlots rawHistory
    return moved ++ rawHistory.drop moved.length
  else .ok rawHistory

/-- A slot that is used as a string. -/
def rawItem : RawSlot → Except Fault RawItem
  | .uninitialised => .error .uninitialised
  | .null => .error .nullDereference
  | .item r => .ok r

/-- `((RankedHistoryItem*)(prioritizedRadix[u]->data))->item`. -/
def rankedItem (ranked : List RankedHistoryItem) (prioritizedRadix : List (RadixItem ℕ)) (u : ℕ) :
    Except Fault CString :=
  match prioritizedRadix[u]? with
  | none => .error .uninitialised
  | some ri =>
      match ranked[ri.data]? with
      | none => .error .nullDereference
      | some r => .ok r.item

/-- The key limit of the sorter, in `unsigned` arithmetic. -/
def keyLimitOf (historyState : HistoryState) : ℕ :=
  let radixMaxKeyEstimate := historyState.size * 1000 % 2 ^ 32
  if radixMaxKeyEstimate < 100000 then 100000 else radixMaxKeyEstimate

/-- The variables before the loop. -/
def createState (keyLimit : ℕ) (optionBigKeys : BigKeys) : CreateState where
  rankmap := hashset_init
  rs := { radixsort_init keyLimit with optionBigKeys }
  ranked := []
  rawHistory := []
  rawTimestamps := 0
  unmetafiedHistory := []

/-- `prioritized_history_create`, where `historyState` is `none` if the history
file cannot be read. A slot of the raw view that was never written is a fault
here already, and not when the view is first read. -/
def prioritized_history_create (sh : Shell) (history_ranking_function : RankingFunction)
    (optionBigKeys : BigKeys) (blacklist : HashSet CString)
    (historyState : Option HistoryState) : Except Fault (Option HistoryItems) :=
  match historyState with
  | none => .ok none
  | some historyState =>
      if historyState.entries.length > 0 then do
        let st ← indexEntries sh history_ranking_function blacklist 0 historyState.entries
          (createState (keyLimitOf historyState) optionBigKeys)
        let rawHistory ← compactRaw st.rawTimestamps st.rawHistory
        let prioritizedRadix ← radixsort_dump st.rs
        -- `rawCount` is the number of entries without the timestamps
        let rawItems ← (rawHistory.take (historyState.entries.length - st.rawTimestamps)).mapM rawItem
        let items ← (List.range st.rs.size).mapM (rankedItem st.ranked prioritizedRadix)
        return some ⟨items, rawItems, st.unmetafiedHistory⟩
      else .ok none

/-! ## Removing commands -/

/-- `history_mgmt_remove_from_raw`: the views, and the number of items it
removed. -/
def history_mgmt_remove_from_raw (cmd : CString) (history : HistoryItems) : HistoryItems × ℕ :=
  let kept := history.rawItems.filter fun r => decide (cmd ≠ r.text)
  ({ history with rawItems := kept }, history.rawItems.length - kept.length)

def history_mgmt_remove_from_ranked (cmd : CString) (history : HistoryItems) : HistoryItems × ℕ :=
  let kept := history.items.filter fun item => decide (cmd ≠ item)
  ({ history with items := kept }, history.items.length - kept.length)

/-- Is there a timestamp at this position of the list? -/
def timestampAt (entries : List HistEntry) (offset : ℕ) : Bool :=
  match entries[offset]? with
  | some entry => (entry.line.map is_hist_timestamp).getD false
  | none => false

/-- The loop of `history_mgmt_remove_from_system_history` from `offset - 1` down
to 0: the entries that remain, and the occurrences it counted. `remove_history`
closes the gap. -/
def removeLoop (sh : Shell) (cmd : CString) : ℕ → List HistEntry → List HistEntry × ℕ
  | 0, entries => (entries, 0)
  | offset + 1, entries =>
      match entries[offset]? with
      | none | some ⟨_, none⟩ => removeLoop sh cmd offset entries
      | some ⟨id, some line⟩ =>
          if history_line_equals sh.isZsh (sh.beyond id) line cmd then
            let entries := entries.eraseIdx offset
            let result :=
              match offset with
              | 0 => (entries, 0)
              | offset + 1 =>
                  -- the entry before it is its timestamp
                  if timestampAt entries offset then
                    removeLoop sh cmd offset (entries.eraseIdx offset)
                  else removeLoop sh cmd (offset + 1) entries
            (result.1, result.2 + 1)
          else removeLoop sh cmd offset entries

theorem removeLoop_sublist (sh : Shell) (cmd : CString) (offset : ℕ) (entries : List HistEntry) :
    (removeLoop sh cmd offset entries).1.Sublist entries := by
  induction offset using Nat.strong_induction_on generalizing entries with
  | _ n ih =>
      cases n with
      | zero => exact List.Sublist.refl _
      | succ offset =>
          rw [removeLoop]
          split
          · exact ih offset (by omega) entries
          · exact ih offset (by omega) entries
          · split
            · have herase := List.eraseIdx_sublist entries offset
              cases offset with
              | zero => exact herase
              | succ offset =>
                  -- the timestamp before the entry goes as well, or it stays
                  simp only
                  split
                  · exact (ih offset (by omega) _).trans
                      ((List.eraseIdx_sublist _ _).trans herase)
                  · exact (ih (offset + 1) (by omega) _).trans herase
            · exact ih offset (by omega) entries

/-- `history_mgmt_remove_from_system_history`: the list afterwards, and the
result. The history file is rewritten from the list. -/
def history_mgmt_remove_from_system_history (sh : Shell) (cmd : CString)
    (historyState : HistoryState) : HistoryState × ℕ :=
  let result := removeLoop sh cmd historyState.entries.length historyState.entries
  ({ historyState with
      entries := result.1
      distinct := historyState.distinct.sublist ((removeLoop_sublist sh cmd _ _).map _) },
    result.2)

/-- `remove_from_history_model` in the ranking and the raw view: the views, the
history list and the result. -/
def removeFromHistory (sh : Shell) (almostDead : CString) (history : HistoryItems)
    (historyState : HistoryState) : HistoryItems × HistoryState × ℕ :=
  let (history, rawOccurences) := history_mgmt_remove_from_raw almostDead history
  let (history, _) := history_mgmt_remove_from_ranked almostDead history
  if rawOccurences ≠ 0 then
    let (historyState, systemOccurences) :=
      history_mgmt_remove_from_system_history sh almostDead historyState
    (history, historyState, systemOccurences)
  else (history, historyState, 0)

/-! ## Commands of the history list -/

/-- The command of a history line: without the prefix of zsh, unmetafied for
zsh. -/
def decode (isZsh : Bool) (beyond : List Byte) (l : CString) : CString :=
  let line := parse_history_line isZsh l
  if isMetafied isZsh line then zsh_unmetafy beyond line else line

/-- An entry that is indexed: its line is not empty and no timestamp. -/
def isCommand (entry : HistEntry) : Bool :=
  match entry.line with
  | none => false
  | some l => decide (strlen l ≠ 0) && !is_hist_timestamp l

def decodeEntry (sh : Shell) (entry : HistEntry) : CString :=
  (entry.line.map (decode sh.isZsh (sh.beyond entry.id))).getD empty

/-- The entries of a history list that are commands. -/
def commandEntries (entries : List HistEntry) : List HistEntry := entries.filter isCommand

/-- A raw item reads an entry: it has the entry's command, and it lies in the
entry's line or in a copy the views own. -/
def PointsTo (sh : Shell) (copies : List CString) (r : RawItem) (entry : HistEntry) : Prop :=
  r.text = decodeEntry sh entry ∧
    match r.source with
    | .line id => id = entry.id
    | .copy index => copies[index]? = some r.text

theorem history_line_equals_eq (isZsh : Bool) (beyond : List Byte) (line cmd : CString) :
    history_line_equals isZsh beyond line cmd = decide (decode isZsh beyond line = cmd) := by
  unfold history_line_equals decode
  simp only
  split <;> rfl

theorem PointsTo.mono {sh : Shell} {copies more : List CString} {r : RawItem} {entry : HistEntry}
    (h : PointsTo sh copies r entry) : PointsTo sh (copies ++ more) r entry := by
  refine ⟨h.1, ?_⟩
  have hsource := h.2
  cases hr : r.source with
  | line id => simpa [hr] using hsource
  | copy index =>
      simp only [hr] at hsource ⊢
      obtain ⟨hlt, -⟩ := List.getElem?_eq_some_iff.mp hsource
      rw [List.getElem?_append_left hlt]
      exact hsource

/-- The loop body for an entry that is no command: its slot is left as it is, or
it is a timestamp's. -/
theorem indexEntry_not_command (sh : Shell) (f : RankingFunction) (blacklist : HashSet CString)
    (st : CreateState) (i : ℕ) {entry : HistEntry} (hcmd : isCommand entry = false) :
    (∀ l, entry.line = some l → strlen l = 0)
      ∧ indexEntry sh f blacklist st i entry
        = .ok { st with rawHistory := .uninitialised :: st.rawHistory }
    ∨ (∃ l, entry.line = some l ∧ is_hist_timestamp l = true)
      ∧ indexEntry sh f blacklist st i entry
        = .ok { st with
          rawHistory := .null :: st.rawHistory
          rawTimestamps := st.rawTimestamps + 1 } := by
  unfold indexEntry
  cases hline : entry.line with
  | none => exact Or.inl ⟨by simp, rfl⟩
  | some l =>
      by_cases hlen : strlen l = 0
      · exact Or.inl ⟨by simpa using hlen, by simp [hlen]⟩
      · have hts : is_hist_timestamp l = true := by simpa [isCommand, hline, hlen] using hcmd
        exact Or.inr ⟨⟨l, rfl, hts⟩, by simp [hlen, hts]⟩

/-- The loop body for a command: it goes to the raw view, and is ranked unless it
is blacklisted. -/
theorem indexEntry_command (sh : Shell) (f : RankingFunction) (blacklist : HashSet CString)
    (st : CreateState) (i : ℕ) {entry : HistEntry} (hcmd : isCommand entry = true) :
    ∃ source more,
      PointsTo sh (st.unmetafiedHistory ++ more) ⟨source, decodeEntry sh entry⟩ entry
      ∧ indexEntry sh f blacklist st i entry
        = let st' := { st with
            rawHistory := .item ⟨source, decodeEntry sh entry⟩ :: st.rawHistory
            unmetafiedHistory := st.unmetafiedHistory ++ more }
          if hashset_contains blacklist (decodeEntry sh entry) then .ok st'
          else rankLine f st' i (decodeEntry sh entry) := by
  unfold isCommand at hcmd
  split at hcmd
  · cases hcmd
  · next l hline =>
      rw [Bool.and_eq_true, decide_eq_true_eq, Bool.not_eq_true'] at hcmd
      obtain ⟨hlen, hts⟩ := hcmd
      have hdec : decodeEntry sh entry = decode sh.isZsh (sh.beyond entry.id) l := by
        simp [decodeEntry, hline]
      rw [hdec]
      -- a metafied command is a copy at the end of the copies
      by_cases hmeta : isMetafied sh.isZsh (parse_history_line sh.isZsh l) = true
      · have hl : decode sh.isZsh (sh.beyond entry.id) l
            = zsh_unmetafy (sh.beyond entry.id) (parse_history_line sh.isZsh l) := by
          simp [decode, hmeta]
        refine ⟨.copy st.unmetafiedHistory.length, [decode sh.isZsh (sh.beyond entry.id) l],
          ⟨hdec.symm, by simp⟩, ?_⟩
        simp only [indexEntry, hline, hlen, hts, hmeta, if_false, if_true, Bool.false_eq_true, hl]
      · have hl : decode sh.isZsh (sh.beyond entry.id) l = parse_history_line sh.isZsh l := by
          simp [decode, hmeta]
        refine ⟨.line entry.id, [], ⟨hdec.symm, rfl⟩, ?_⟩
        simp only [indexEntry, hline, hlen, hts, hmeta, if_false, Bool.false_eq_true, hl,
          List.append_nil]

end Hstr.History
