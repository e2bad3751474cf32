/-
`parse_history_line` with its pointer, and the grammar it accepts.

A line of the extended history of zsh is `: 1420549651:0;ls /tmp/b`: a time of
ten digits, a duration, a command. `ExtendedLine` is that grammar. The function
scans with a pointer that moves before the byte behind it is tested, so here
every read is checked against the end of the line, and the two loops are the
loops of the source. `History.parse_history_line` is the same function on the
bytes that are left; both are shown to agree, and the grammar is read off the
latter.
-/
import Hstr.History
import Hstr.Lib.Checked
import Mathlib.Data.List.GetD

set_option autoImplicit false

namespace Hstr.ZshLine

open Lib.Checked Hstr.Strings Hstr.Utils Hstr.History

/-! ## The function -/

/-- `for(u=0; u<ZSH_HISTORY_EXT_DIGITS && isdigit(*pt); u++, pt++);` on `u` and
`pt`. -/
def timestampTurn (l : List Byte) (v : ℕ × ℕ) : Except Fault (Turn (ℕ × ℕ) (ℕ × ℕ)) :=
  if v.1 < ZSH_HISTORY_EXT_DIGITS then do
    let c ← load l v.2
    if isdigit c then return .again (v.1 + 1, v.2 + 1) else return .leave v
  else return .leave v

/-- The loop over the duration, which returns from the function behind the
`';'`. -/
def durationTurn (l : List Byte) (pt : ℕ) : Except Fault (Turn (Option ℕ) ℕ) := do
  let c ← load l pt
  if isdigit c then
    let c ← load l (pt + 1)
    if c = SEMICOLON then return .leave (some (pt + 2)) else return .again (pt + 1)
  else return .leave none

/-- `parse_history_line` on the memory of a line: the pointer it returns, as an
offset from `l`. -/
def parse_history_line_at (isZsh : Bool) (l : List Byte) : Except Fault ℕ :=
  if !isZsh then return 0
  else do
    let c0 ← load l 0
    if c0 ≠ COLON then return 0
    else do
      let c1 ← load l 1
      if c1 ≠ SPACE then return 0
      else do
        let (u, pt) ← loop (timestampTurn l) (ZSH_HISTORY_EXT_DIGITS + 1) (0, 2)
        if u = ZSH_HISTORY_EXT_DIGITS then do
          let c ← load l pt
          if c = COLON then do
            match ← loop (durationTurn l) l.length (pt + 1) with
            | some pt => return pt
            | none => return 0
          else return 0
        else return 0

/-! ## The grammar -/

/-- `': ' d{10} ':' d+ ';' cmd`. -/
inductive ExtendedLine : List Byte → List Byte → Prop
  | mk {timestamp duration : List Byte} (cmd : List Byte)
      (hlength : timestamp.length = ZSH_HISTORY_EXT_DIGITS)
      (htimestamp : ∀ c ∈ timestamp, isdigit c = true)
      (hduration : ∀ c ∈ duration, isdigit c = true) (hne : duration ≠ []) :
      ExtendedLine (COLON :: SPACE :: timestamp ++ COLON :: duration ++ SEMICOLON :: cmd) cmd

/-- The duration that is skipped: digits up to the first `';'`. -/
theorem skipDuration_eq_some_iff {bs : List Byte} {n : ℕ} :
    skipDuration bs = some n ↔ ∃ duration cmd, bs = duration ++ SEMICOLON :: cmd
      ∧ (∀ c ∈ duration, isdigit c = true) ∧ duration ≠ [] ∧ n = duration.length + 1 := by
  induction bs generalizing n with
  | nil => simp [skipDuration]
  | cons c rest ih =>
      rw [skipDuration]
      split
      · next hc =>
          split
          · next hsemi =>
              obtain ⟨cmd, rfl⟩ : ∃ cmd, rest = SEMICOLON :: cmd := by
                cases rest with
                | nil => cases hsemi
                | cons d rest =>
                    cases hsemi
                    exact ⟨rest, rfl⟩
              constructor
              · intro h
                cases h
                exact ⟨[c], cmd, rfl, by simpa using hc, List.cons_ne_nil _ _, rfl⟩
              · rintro ⟨duration, cmd', hbs, hdigits, hne, rfl⟩
                obtain ⟨d, duration, rfl⟩ := List.exists_cons_of_ne_nil hne
                obtain ⟨rfl, hrest⟩ := List.cons.inj hbs
                -- a second digit would stand where the semicolon is
                cases duration with
                | nil => rfl
                | cons e duration =>
                    obtain ⟨rfl, -⟩ := List.cons.inj hrest
                    exact absurd (hdigits SEMICOLON (by simp)) (by decide)
          · next hsemi =>
              rw [Option.map_eq_some_iff]
              constructor
              · rintro ⟨m, hm, rfl⟩
                obtain ⟨duration, cmd, rfl, hdigits, -, rfl⟩ := ih.mp hm
                exact ⟨c :: duration, cmd, rfl, by simpa [hc] using hdigits,
                  List.cons_ne_nil _ _, rfl⟩
              · rintro ⟨duration, cmd, hbs, hdigits, hne, rfl⟩
                obtain ⟨d, duration, rfl⟩ := List.exists_cons_of_ne_nil hne
                obtain ⟨rfl, rfl⟩ := List.cons.inj hbs
                have hne' : duration ≠ [] := by
                  rintro rfl
                  exact hsemi rfl
                exact ⟨duration.length + 1, ih.mpr ⟨duration, cmd, rfl,
                  fun e he => hdigits e (List.mem_cons_of_mem _ he), hne', rfl⟩, rfl⟩
      · next hc =>
          refine ⟨fun h => absurd h (by simp), ?_⟩
          rintro ⟨duration, cmd, hbs, hdigits, hne, -⟩
          obtain ⟨d, duration, rfl⟩ := List.exists_cons_of_ne_nil hne
          obtain ⟨rfl, -⟩ := List.cons.inj hbs
          exact absurd (hdigits c List.mem_cons_self) hc

/-- The offset of the command behind the time and the duration, 0 for a line of
another form. -/
def commandOffset (bs : List Byte) : ℕ :=
  if bs.getD 0 0 != COLON || bs.getD 1 0 != SPACE then 0
  else
    let pt := bs.drop 2
    let u := ((pt.take ZSH_HISTORY_EXT_DIGITS).takeWhile isdigit).length
    if u = ZSH_HISTORY_EXT_DIGITS ∧ pt.getD u 0 = COLON then
      (skipDuration (pt.drop (u + 1))).elim 0 fun n => 2 + u + 1 + n
    else 0

theorem advance_zero (l : CString) : advance l 0 = l := rfl

theorem parse_history_line_eq (l : CString) :
    parse_history_line true l = advance l (commandOffset l.bytes) := by
  simp only [parse_history_line, commandOffset, Bool.not_true, Bool.false_or]
  split
  · rfl
  · split
    · split
      · next n hn => rw [hn, Option.elim_some]
      · next hn => rw [hn, Option.elim_none, advance_zero]
    · rfl

/-- Ten digits and a colon, read off a list. -/
theorem timestamp_of_takeWhile {pt : List Byte}
    (hu : ((pt.take ZSH_HISTORY_EXT_DIGITS).takeWhile isdigit).length = ZSH_HISTORY_EXT_DIGITS)
    (hcolon : pt.getD ZSH_HISTORY_EXT_DIGITS 0 = COLON) :
    ∃ timestamp, timestamp.length = ZSH_HISTORY_EXT_DIGITS ∧ (∀ c ∈ timestamp, isdigit c = true)
      ∧ pt = timestamp ++ COLON :: pt.drop (ZSH_HISTORY_EXT_DIGITS + 1) := by
  have hlt : ZSH_HISTORY_EXT_DIGITS < pt.length := by
    by_contra hge
    rw [List.getD_eq_default _ _ (Nat.le_of_not_lt hge)] at hcolon
    exact absurd hcolon (by decide)
  have hlength : (pt.take ZSH_HISTORY_EXT_DIGITS).length = ZSH_HISTORY_EXT_DIGITS := by
    rw [List.length_take]
    omega
  have hall : (pt.take ZSH_HISTORY_EXT_DIGITS).takeWhile isdigit = pt.take ZSH_HISTORY_EXT_DIGITS :=
    (List.takeWhile_prefix isdigit).eq_of_length (hu.trans hlength.symm)
  refine ⟨pt.take ZSH_HISTORY_EXT_DIGITS, hlength, List.takeWhile_eq_self_iff.mp hall, ?_⟩
  rw [← hcolon, List.getD_eq_getElem _ _ hlt, List.getElem_cons_drop, List.take_append_drop]

/-- A line of the format has its command at the offset. -/
theorem ExtendedLine.drop_commandOffset {bs cmd : List Byte} (h : ExtendedLine bs cmd) :
    commandOffset bs ≠ 0 ∧ bs.drop (commandOffset bs) = cmd := by
  obtain @⟨timestamp, duration, cmd, hlength, htimestamp, hduration, hne⟩ := h
  have hskip : skipDuration (duration ++ SEMICOLON :: cmd) = some (duration.length + 1) :=
    skipDuration_eq_some_iff.mpr ⟨duration, cmd, rfl, hduration, hne, rfl⟩
  have htake : ((timestamp ++ COLON :: (duration ++ SEMICOLON :: cmd)).take
      ZSH_HISTORY_EXT_DIGITS).takeWhile isdigit = timestamp := by
    rw [List.take_left' hlength, List.takeWhile_eq_self_iff]
    exact htimestamp
  have hdrop : (timestamp ++ COLON :: (duration ++ SEMICOLON :: cmd)).drop (timestamp.length + 1)
      = duration ++ SEMICOLON :: cmd := by
    rw [List.append_cons]
    exact List.drop_left' List.length_append
  have hoffset : commandOffset
      (COLON :: SPACE :: (timestamp ++ COLON :: (duration ++ SEMICOLON :: cmd)))
        = 2 + timestamp.length + 1 + (duration.length + 1) := by
    simp only [commandOffset, List.drop_succ_cons, List.drop_zero, htake, hdrop, hskip,
      Option.elim_some]
    simp [hlength]
  simp only [List.cons_append, List.append_assoc]
  rw [hoffset]
  refine ⟨by omega, ?_⟩
  rw [show COLON :: SPACE :: (timestamp ++ COLON :: (duration ++ SEMICOLON :: cmd))
    = (COLON :: SPACE :: (timestamp ++ COLON :: (duration ++ [SEMICOLON]))) ++ cmd by simp]
  apply List.drop_left'
  simp only [List.length_cons, List.length_append, List.length_nil]
  omega

/-- Only lines of the format have an offset. -/
theorem extendedLine_of_commandOffset {bs : List Byte} (h : commandOffset bs ≠ 0) :
    ∃ cmd, ExtendedLine bs cmd := by
  unfold commandOffset at h
  split at h
  · exact absurd rfl h
  · next hhead =>
      rw [Bool.or_eq_true, not_or, bne_iff_ne, bne_iff_ne, not_not, not_not] at hhead
      dsimp only at h
      split at h
      · next hstamp =>
          rw [hstamp.1] at h
          have hcolon := hstamp.2
          rw [hstamp.1] at hcolon
          obtain ⟨timestamp, hlength, hdigits, hpt⟩ := timestamp_of_takeWhile hstamp.1 hcolon
          cases hskip : skipDuration ((bs.drop 2).drop (ZSH_HISTORY_EXT_DIGITS + 1)) with
          | none =>
              rw [hskip] at h
              exact absurd rfl h
          | some n =>
              obtain ⟨duration, cmd, hrest, hduration, hne, -⟩ := skipDuration_eq_some_iff.mp hskip
              refine ⟨cmd, ?_⟩
              have hbs : bs = COLON :: SPACE :: bs.drop 2 := by
                obtain ⟨h0, h1⟩ := hhead
                match bs with
                | [] => exact absurd h0 (by decide)
                | [c] => exact absurd (show (0 : Byte) = SPACE from h1) (by decide)
                | c :: d :: rest =>
                    rw [show c = COLON from h0, show d = SPACE from h1]
                    rfl
              rw [hbs, hpt, hrest]
              have hline := ExtendedLine.mk cmd hlength hdigits hduration hne
              simpa only [List.cons_append, List.append_assoc] using hline
      · exact absurd rfl h

/-- **The grammar of the offset.** -/
theorem extendedLine_iff {bs cmd : List Byte} :
    ExtendedLine bs cmd ↔ commandOffset bs ≠ 0 ∧ bs.drop (commandOffset bs) = cmd := by
  constructor
  · exact fun h => h.drop_commandOffset
  · rintro ⟨hne, rfl⟩
    obtain ⟨cmd, hline⟩ := extendedLine_of_commandOffset hne
    rw [hline.drop_commandOffset.2]
    exact hline

/-! ## The pointer -/

/-- The byte at the pointer, the terminator behind the last one. -/
theorem load_line (a rest : List Byte) : load (a ++ rest ++ [0]) a.length = .ok (rest.headD 0) := by
  rw [List.append_assoc]
  cases rest with
  | nil => exact load_append_cons a [] 0
  | cons c rest => exact load_append_cons a (rest ++ [0]) c

/-- The first loop counts the digits, ten at most. -/
theorem timestampLoop_eq (fuel : ℕ) : ∀ (u : ℕ) (a rest : List Byte),
    ZSH_HISTORY_EXT_DIGITS - u < fuel →
    loop (timestampTurn (a ++ rest ++ [0])) fuel (u, a.length)
      = .ok (u + ((rest.take (ZSH_HISTORY_EXT_DIGITS - u)).takeWhile isdigit).length,
          a.length + ((rest.take (ZSH_HISTORY_EXT_DIGITS - u)).takeWhile isdigit).length) := by
  induction fuel with
  | zero =>
      intro u a rest hfuel
      omega
  | succ fuel ih =>
      intro u a rest hfuel
      by_cases hu : u < ZSH_HISTORY_EXT_DIGITS
      · obtain ⟨k, hk⟩ : ∃ k, ZSH_HISTORY_EXT_DIGITS - u = k + 1 :=
          ⟨ZSH_HISTORY_EXT_DIGITS - u - 1, by omega⟩
        rw [hk]
        cases rest with
        | nil =>
            apply loop_leave
            rw [timestampTurn, if_pos hu, load_line]
            rfl
        | cons c rest =>
            by_cases hc : isdigit c = true
            · have hturn : timestampTurn (a ++ c :: rest ++ [0]) (u, a.length)
                  = .ok (.again (u + 1, (a ++ [c]).length)) := by
                rw [timestampTurn, if_pos hu, load_line, List.length_append]
                simp only [Lib.Results.ok_bind, List.headD_cons]
                rw [if_pos hc]
                rfl
              rw [loop_again hturn, List.append_cons a c rest, ih (u + 1) (a ++ [c]) rest (by omega),
                show ZSH_HISTORY_EXT_DIGITS - (u + 1) = k by omega, List.take_succ_cons,
                List.takeWhile_cons_of_pos hc, List.length_cons, List.length_append,
                List.length_singleton]
              congr 2 <;> omega
            · apply loop_leave
              rw [timestampTurn, if_pos hu, load_line]
              simp only [Lib.Results.ok_bind, List.headD_cons]
              rw [if_neg hc, List.take_succ_cons, List.takeWhile_cons_of_neg hc]
              rfl
      · rw [show ZSH_HISTORY_EXT_DIGITS - u = 0 by omega]
        apply loop_leave
        rw [timestampTurn, if_neg hu]
        rfl

/-- The second loop is `skipDuration`. -/
theorem durationLoop_eq (fuel : ℕ) : ∀ a rest : List Byte, rest.length < fuel →
    loop (durationTurn (a ++ rest ++ [0])) fuel a.length
      = .ok ((skipDuration rest).map fun n => a.length + n) := by
  induction fuel with
  | zero =>
      intro a rest hfuel
      omega
  | succ fuel ih =>
      intro a rest hfuel
      cases rest with
      | nil =>
          apply loop_leave
          rw [durationTurn, load_line]
          rfl
      | cons c rest =>
          have hfirst : load (a ++ c :: rest ++ [0]) a.length = .ok c := load_line a (c :: rest)
          have hsecond : load (a ++ c :: rest ++ [0]) (a.length + 1) = .ok (rest.headD 0) := by
            rw [List.append_cons a c rest, ← List.length_singleton (a := c), ← List.length_append]
            exact load_line (a ++ [c]) rest
          rw [skipDuration]
          by_cases hc : isdigit c = true
          · by_cases hsemi : rest.head? = some SEMICOLON
            · rw [if_pos hc, if_pos hsemi]
              apply loop_leave
              rw [durationTurn, hfirst, Lib.Results.ok_bind, if_pos hc, hsecond,
                Lib.Results.ok_bind, List.headD_eq_head?_getD, hsemi]
              rfl
            · have hne : rest.headD 0 ≠ SEMICOLON := by
                cases rest with
                | nil => decide
                | cons d rest =>
                    rintro rfl
                    exact hsemi rfl
              have hturn : durationTurn (a ++ c :: rest ++ [0]) a.length
                  = .ok (.again (a ++ [c]).length) := by
                rw [durationTurn, hfirst, Lib.Results.ok_bind, if_pos hc, hsecond,
                  Lib.Results.ok_bind, if_neg hne, List.length_append]
                rfl
              rw [if_pos hc, if_neg hsemi, loop_again hturn, List.append_cons a c rest,
                ih (a ++ [c]) rest (by rw [List.length_cons] at hfuel; omega), Option.map_map]
              congr 2
              funext n
              simp only [Function.comp_apply, List.length_append, List.length_singleton]
              omega
          · rw [if_neg hc]
            apply loop_leave
            rw [durationTurn, hfirst, Lib.Results.ok_bind, if_neg hc]
            rfl

/-- A byte of the line, or its terminator. -/
theorem load_getD {bs : List Byte} {i : ℕ} (hi : i ≤ bs.length) :
    load (bs ++ [0]) i = .ok (bs.getD i 0) := by
  have hload := load_line (bs.take i) (bs.drop i)
  rw [List.take_append_drop, List.length_take_of_le hi] at hload
  rw [hload, List.headD_eq_head?_getD, List.head?_drop, List.getD_eq_getElem?_getD]

/-- A byte that is not the terminator lies in the line. -/
theorem lt_length_of_getD {bs : List Byte} {i : ℕ} {c : Byte} (h : bs.getD i 0 = c) (hc : c ≠ 0) :
    i < bs.length := by
  by_contra hge
  rw [List.getD_eq_default _ _ (Nat.le_of_not_lt hge)] at h
  exact hc h.symm

/-- The part of the function behind the two bytes that every such line begins
with. -/
theorem timestamp_at_eq {bs : List Byte} (hlen : 2 ≤ bs.length) :
    loop (timestampTurn (bs ++ [0])) (ZSH_HISTORY_EXT_DIGITS + 1) (0, 2)
      = .ok ((((bs.drop 2).take ZSH_HISTORY_EXT_DIGITS).takeWhile isdigit).length,
          2 + (((bs.drop 2).take ZSH_HISTORY_EXT_DIGITS).takeWhile isdigit).length) := by
  have hloop := timestampLoop_eq (ZSH_HISTORY_EXT_DIGITS + 1) 0 (bs.take 2) (bs.drop 2) (by omega)
  rw [List.take_append_drop, List.length_take_of_le hlen, Nat.sub_zero, Nat.zero_add] at hloop
  exact hloop

theorem duration_at_eq {bs : List Byte} {i : ℕ} (hi : i ≤ bs.length) :
    loop (durationTurn (bs ++ [0])) (bs ++ [0]).length i
      = .ok ((skipDuration (bs.drop i)).map fun n => i + n) := by
  have hloop := durationLoop_eq (bs ++ [0]).length (bs.take i) (bs.drop i) (by
    rw [List.length_drop, List.length_append, List.length_singleton]
    omega)
  rw [List.take_append_drop, List.length_take_of_le hi] at hloop
  exact hloop

/-- The function stays in the line, and returns the pointer to its command. -/
theorem parse_history_line_at_eq (bs : List Byte) :
    parse_history_line_at true (bs ++ [0]) = .ok (commandOffset bs) := by
  simp only [parse_history_line_at, commandOffset, Bool.not_true, Bool.false_eq_true, if_false,
    Bool.or_eq_true, bne_iff_ne]
  rw [load_getD (Nat.zero_le _), Lib.Results.ok_bind]
  by_cases h0 : bs.getD 0 0 = COLON
  · have hlen0 := lt_length_of_getD h0 (by decide)
    rw [if_neg (not_not.mpr h0), load_getD hlen0, Lib.Results.ok_bind]
    by_cases h1 : bs.getD 1 0 = SPACE
    · have hlen1 := lt_length_of_getD h1 (by decide)
      rw [if_neg (not_not.mpr h1), if_neg (not_or.mpr ⟨not_not.mpr h0, not_not.mpr h1⟩),
        timestamp_at_eq hlen1, Lib.Results.ok_bind]
      dsimp only
      generalize hu : (((bs.drop 2).take ZSH_HISTORY_EXT_DIGITS).takeWhile isdigit).length = u
      by_cases hten : u = ZSH_HISTORY_EXT_DIGITS
      · -- ten digits are there, so the byte behind them is the terminator at the latest
        have hle : 2 + u ≤ bs.length := by
          have hpre := (List.takeWhile_prefix (l := (bs.drop 2).take ZSH_HISTORY_EXT_DIGITS)
            isdigit).length_le
          rw [hu, List.length_take, List.length_drop] at hpre
          omega
        have hat : bs.getD (2 + u) 0 = (bs.drop 2).getD u 0 := by
          rw [List.getD_eq_getElem?_getD, List.getD_eq_getElem?_getD, List.getElem?_drop]
        rw [if_pos hten, load_getD hle, Lib.Results.ok_bind, hat]
        by_cases hcolon : (bs.drop 2).getD u 0 = COLON
        · have hlt := lt_length_of_getD (hat.trans hcolon) (by decide)
          rw [if_pos hcolon, if_pos ⟨hten, hcolon⟩, duration_at_eq hlt, Lib.Results.ok_bind,
            List.drop_drop, Nat.add_assoc]
          cases skipDuration (bs.drop (2 + (u + 1))) with
          | none => rfl
          | some n => rfl
        · rw [if_neg hcolon, if_neg fun h => hcolon h.2]
          rfl
      · rw [if_neg hten, if_neg fun h => hten h.1]
        rfl
    · rw [if_pos h1, if_pos (Or.inr h1)]
      rfl
  · rw [if_pos h0, if_pos (Or.inl h0)]
    rfl

/-- **`parse_history_line` accepts exactly the grammar.** It reads no byte behind
the terminator, and returns the pointer to the command of a line of the format,
and the line itself for every other line. -/
theorem parse_history_line_grammar (l : CString) :
    ∃ k, parse_history_line_at true (l.bytes ++ [0]) = .ok k
      ∧ parse_history_line true l = advance l k
      ∧ (∀ cmd, ExtendedLine l.bytes cmd ↔ k ≠ 0 ∧ (advance l k).bytes = cmd)
      ∧ ((¬ ∃ cmd, ExtendedLine l.bytes cmd) → k = 0 ∧ parse_history_line true l = l) := by
  refine ⟨commandOffset l.bytes, parse_history_line_at_eq l.bytes, parse_history_line_eq l,
    fun cmd => extendedLine_iff, fun hno => ?_⟩
  have hzero : commandOffset l.bytes = 0 := by
    by_contra hne
    exact hno (extendedLine_of_commandOffset hne)
  refine ⟨hzero, ?_⟩
  rw [parse_history_line_eq, hzero, advance_zero]

/-- A command that looks like another prefix is left as it is. -/
example : parse_history_line true (lit ": 1420549651:0;: 1420549651:0;ls")
    = lit ": 1420549651:0;ls" := by decide +kernel

end Hstr.ZshLine
