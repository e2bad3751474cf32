/-
`zsh_unmetafy` in place, with its two pointers.

The function decodes a string in the memory it lies in. One pointer reads and
one writes, and both move inside the conditions of the loop, so the model is a
machine: a turn is one read of the code with what is written right after it,
and a state says what the code does next. An access outside the memory is a
fault.

The memory behind the read position decides the rest of the run. `PairedUp` says
that the reading meets the terminator, and not the byte after a `ZSH_META`; a
run from such a memory ends with the bytes of `unmetafyLoop`, and a run from
any other memory goes outside.
-/
import Hstr.History
import Hstr.Lib.Checked
import Mathlib.Algebra.Group.Nat.Even

set_option autoImplicit false

namespace Hstr.Metafied

open Lib.Checked Hstr.Strings Hstr.Utils

/-- What `zsh_unmetafy` does next. -/
inductive Control
  /-- `for (p = s; *p && *p != ZSH_META; p++)` -/
  | scan
  /-- `(*t = *p++)` -/
  | copy
  /-- `*t++ == ZSH_META` -/
  | test
  /-- `t[-1] = *p++ ^ 32` -/
  | pair

/-- The variables of `zsh_unmetafy`: the memory from `s` on, and the pointers as
offsets in it. -/
structure Unmetafier where
  control : Control
  mem : List Byte
  p : ℕ
  t : ℕ

/-- One turn. The function leaves with the memory and with `t - s`, the value
of `*len`. -/
def unmetafyTurn (u : Unmetafier) : Except Fault (Turn (List Byte × ℕ) Unmetafier) :=
  match u.control with
  | .scan => do
      let c ← load u.mem u.p
      if c ≠ 0 ∧ c ≠ ZSH_META then return .again { u with p := u.p + 1 }
      else return .again { u with control := .copy, t := u.p }
  | .copy => do
      let c ← load u.mem u.p
      let mem ← store u.mem u.t c
      if c = 0 then return .leave (mem, u.t)
      else return .again { control := .test, mem, p := u.p + 1, t := u.t }
  | .test => do
      let c ← load u.mem u.t
      return .again { u with control := if c = ZSH_META then .pair else .copy, t := u.t + 1 }
  | .pair => do
      let d ← load u.mem u.p
      let last ← sub u.t 1
      let mem ← store u.mem last (d ^^^ 32)
      return .again { control := .copy, mem, p := u.p + 1, t := u.t }

/-- The start of `zsh_unmetafy(s, len)`; `t` is not set yet. -/
def unmetafyStart (mem : List Byte) : Unmetafier := ⟨.scan, mem, 0, 0⟩

/-- The encoder of zsh: a byte it keeps for itself is written as a pair. -/
def metafy (s : List Byte) : List Byte :=
  s.flatMap fun b => if 0x83 ≤ b ∧ b ≤ 0xA2 then [ZSH_META, b ^^^ 32] else [b]

/-- The terminator is read as such, not as the second byte of a pair. -/
def PairedUp : List Byte → Bool
  | [] => false
  | [c] => c == 0
  | c :: d :: rest =>
      if c = 0 then true else if c = ZSH_META then PairedUp rest else PairedUp (d :: rest)

/-- The function reads and writes only the given memory, and returns. -/
def Safe (mem : List Byte) : Prop := Halts unmetafyTurn (unmetafyStart mem) fun _ => True

/-! ## One byte of the rest

The function copies from `rest` to the end of `w`; what lies between the two is
garbage, and its bytes change while it grows. -/

/-- The state before a byte is copied. -/
def copyState (w gap rest : List Byte) : Unmetafier :=
  ⟨.copy, w ++ (gap ++ rest), w.length + gap.length, w.length⟩

theorem load_rest (w gap r : List Byte) (c : Byte) :
    load (w ++ (gap ++ c :: r)) (w.length + gap.length) = .ok c := by
  rw [← List.append_assoc, ← List.length_append]
  exact load_append_cons _ _ _

theorem load_nothing (w gap : List Byte) :
    load (w ++ (gap ++ [])) (w.length + gap.length) = .error .outOfBounds := by
  apply load_eq_error
  rw [List.append_nil, List.length_append]

/-- A write at the end of `w` moves the garbage by one byte. -/
theorem store_at_end (w gap r : List Byte) (c x : Byte) :
    ∃ gap', gap'.length = gap.length
      ∧ store (w ++ (gap ++ c :: r)) w.length x = .ok (w ++ [x] ++ (gap' ++ r)) := by
  simp only [List.append_assoc, List.singleton_append]
  cases gap with
  | nil => exact ⟨[], rfl, store_append_cons w r c x⟩
  | cons g gs =>
      refine ⟨gs ++ [c], List.length_append, ?_⟩
      simp only [List.append_assoc, List.singleton_append]
      exact store_append_cons w (gs ++ c :: r) g x

variable {Q : List Byte × ℕ → Prop}

/-- The terminator is copied, and the function returns. -/
theorem halts_copy_nul (w gap r : List Byte) :
    ∃ tail, Halts unmetafyTurn (copyState w gap (0 :: r)) Q ↔ Q (w ++ 0 :: tail, w.length) := by
  obtain ⟨gap', -, hstore⟩ := store_at_end w gap r 0 0
  refine ⟨gap' ++ r, ?_⟩
  rw [List.append_cons]
  apply halts_leave_iff
  simp only [unmetafyTurn, copyState, load_rest, Lib.Results.ok_bind]
  rw [hstore]
  rfl

/-- Any other byte is copied, and looked at again. -/
theorem halts_copy_test (w gap r : List Byte) {c : Byte} (hc : c ≠ 0) :
    ∃ gap', gap'.length = gap.length
      ∧ (Halts unmetafyTurn (copyState w gap (c :: r)) Q
        ↔ Halts unmetafyTurn ⟨if c = ZSH_META then .pair else .copy, w ++ [c] ++ (gap' ++ r),
            w.length + gap.length + 1, w.length + 1⟩ Q) := by
  obtain ⟨gap', hlen, hstore⟩ := store_at_end w gap r c c
  refine ⟨gap', hlen, ?_⟩
  have hcopy : unmetafyTurn (copyState w gap (c :: r))
      = .ok (.again ⟨.test, w ++ [c] ++ (gap' ++ r), w.length + gap.length + 1, w.length⟩) := by
    simp only [unmetafyTurn, copyState, load_rest, Lib.Results.ok_bind]
    rw [hstore, Lib.Results.ok_bind, if_neg hc]
    rfl
  have htest : unmetafyTurn ⟨.test, w ++ [c] ++ (gap' ++ r), w.length + gap.length + 1, w.length⟩
      = .ok (.again ⟨if c = ZSH_META then .pair else .copy, w ++ [c] ++ (gap' ++ r),
          w.length + gap.length + 1, w.length + 1⟩) := by
    simp only [unmetafyTurn]
    rw [List.append_assoc, List.singleton_append, load_append_cons]
    rfl
  rw [halts_again_iff hcopy, halts_again_iff htest]

/-- A plain byte is copied. -/
theorem halts_copy_plain (w gap r : List Byte) {c : Byte} (hc : c ≠ 0) (hmeta : c ≠ ZSH_META) :
    ∃ gap', Halts unmetafyTurn (copyState w gap (c :: r)) Q
      ↔ Halts unmetafyTurn (copyState (w ++ [c]) gap' r) Q := by
  obtain ⟨gap', hlen, hiff⟩ := halts_copy_test (Q := Q) w gap r hc
  refine ⟨gap', ?_⟩
  rw [hiff, if_neg hmeta, copyState, List.length_append, List.length_singleton, hlen,
    Nat.add_right_comm]

/-- The state in which the second byte of a pair is read. -/
theorem halts_copy_meta (w gap r : List Byte) :
    ∃ gap', gap'.length = gap.length
      ∧ (Halts unmetafyTurn (copyState w gap (ZSH_META :: r)) Q
        ↔ Halts unmetafyTurn ⟨.pair, w ++ (ZSH_META :: gap' ++ r),
            w.length + (ZSH_META :: gap').length, w.length + 1⟩ Q) := by
  obtain ⟨gap', hlen, hiff⟩ := halts_copy_test (Q := Q) w gap r (c := ZSH_META) (by decide)
  refine ⟨gap', hlen, ?_⟩
  rw [hiff, if_pos rfl, List.length_cons, hlen, List.append_assoc, List.singleton_append,
    List.cons_append, Nat.add_assoc]

/-- A pair is decoded, and the garbage grows by one byte. -/
theorem halts_copy_pair (w gap r : List Byte) (d : Byte) :
    ∃ gap', Halts unmetafyTurn (copyState w gap (ZSH_META :: d :: r)) Q
      ↔ Halts unmetafyTurn (copyState (w ++ [d ^^^ 32]) gap' r) Q := by
  obtain ⟨gap₁, hlen₁, hmeta⟩ := halts_copy_meta (Q := Q) w gap (d :: r)
  obtain ⟨gap₂, hlen₂, hstore⟩ := store_at_end w (ZSH_META :: gap₁) r d (d ^^^ 32)
  refine ⟨gap₂, ?_⟩
  rw [hmeta]
  apply halts_again_iff
  simp only [unmetafyTurn]
  rw [load_rest, Lib.Results.ok_bind, sub_eq (Nat.le_add_left 1 w.length), Lib.Results.ok_bind,
    Nat.add_sub_cancel, hstore, Lib.Results.ok_bind, copyState, hlen₂, List.length_append,
    List.length_singleton]
  rw [Nat.add_right_comm]
  rfl

/-- A `ZSH_META` that ends the memory has no second byte to read. -/
theorem not_halts_copy_meta (w gap : List Byte) :
    ¬ Halts unmetafyTurn (copyState w gap [ZSH_META]) Q := by
  obtain ⟨gap', -, hmeta⟩ := halts_copy_meta (Q := Q) w gap []
  rw [hmeta]
  apply not_halts_of_error (e := .outOfBounds)
  simp only [unmetafyTurn]
  rw [load_nothing]
  rfl

theorem not_halts_copy_nil (w gap : List Byte) :
    ¬ Halts unmetafyTurn (copyState w gap []) Q := by
  apply not_halts_of_error (e := .outOfBounds)
  simp only [unmetafyTurn, copyState]
  rw [load_nothing]
  rfl

/-! ## The whole rest -/

theorem unmetafyLoop_plain {c : Byte} (hc : c ≠ 0) (hmeta : c ≠ ZSH_META) (rest : List Byte) :
    unmetafyLoop (c :: rest) = c :: unmetafyLoop rest := by
  cases rest with
  | nil => simp [unmetafyLoop, hc, hmeta]
  | cons d rest => rw [unmetafyLoop, if_neg hc, if_neg hmeta]

theorem pairedUp_plain {c : Byte} (hc : c ≠ 0) (hmeta : c ≠ ZSH_META) (rest : List Byte) :
    PairedUp (c :: rest) = PairedUp rest := by
  cases rest with
  | nil => simp [PairedUp, hc]
  | cons d rest => rw [PairedUp, if_neg hc, if_neg hmeta]

/-- From where the writing begins: the bytes of `unmetafyLoop` and a terminator,
or an access outside the memory. -/
theorem halts_copy (rest : List Byte) : ∀ w gap : List Byte,
    (PairedUp rest = true → ∃ tail, Halts unmetafyTurn (copyState w gap rest) Q
      ↔ Q (w ++ unmetafyLoop rest ++ 0 :: tail, (w ++ unmetafyLoop rest).length))
    ∧ (PairedUp rest = false → ¬ Halts unmetafyTurn (copyState w gap rest) Q) := by
  induction rest using PairedUp.induct with
  | case1 =>
      intro w gap
      exact ⟨fun h => absurd h Bool.false_ne_true, fun _ => not_halts_copy_nil w gap⟩
  | case2 c =>
      intro w gap
      by_cases hc : c = 0
      · subst hc
        refine ⟨fun _ => ?_, fun h => absurd h (by decide)⟩
        rw [show unmetafyLoop [0] = [] from rfl, List.append_nil]
        exact halts_copy_nul w gap []
      · refine ⟨fun h => absurd h (by simp [PairedUp, hc]), fun _ => ?_⟩
        by_cases hmeta : c = ZSH_META
        · subst hmeta
          exact not_halts_copy_meta w gap
        · obtain ⟨gap', hiff⟩ := halts_copy_plain (Q := Q) w gap [] hc hmeta
          rw [hiff]
          exact not_halts_copy_nil _ _
  | case3 d rest =>
      intro w gap
      refine ⟨fun _ => ?_, fun h => absurd h (by simp [PairedUp])⟩
      rw [show unmetafyLoop (0 :: d :: rest) = [] by rw [unmetafyLoop, if_pos rfl],
        List.append_nil]
      exact halts_copy_nul w gap (d :: rest)
  | case4 d rest hmeta ih =>
      intro w gap
      obtain ⟨gap', hiff⟩ := halts_copy_pair (Q := Q) w gap rest d
      rw [hiff, show PairedUp (ZSH_META :: d :: rest) = PairedUp rest by
          rw [PairedUp, if_neg hmeta, if_pos rfl],
        show unmetafyLoop (ZSH_META :: d :: rest) = [d ^^^ 32] ++ unmetafyLoop rest by
          rw [unmetafyLoop, if_neg hmeta, if_pos rfl, List.singleton_append],
        ← List.append_assoc]
      exact ih _ _
  | case5 c d rest hc hmeta ih =>
      intro w gap
      obtain ⟨gap', hiff⟩ := halts_copy_plain (Q := Q) w gap (d :: rest) hc hmeta
      rw [hiff, pairedUp_plain hc hmeta, unmetafyLoop_plain hc hmeta,
        List.append_cons w c (unmetafyLoop (d :: rest))]
      exact ih _ _

/-- From the start: the first loop copies plain bytes to where they are. -/
theorem halts_scan (rest : List Byte) : ∀ w : List Byte,
    (PairedUp rest = true → ∃ tail, Halts unmetafyTurn ⟨.scan, w ++ rest, w.length, 0⟩ Q
      ↔ Q (w ++ unmetafyLoop rest ++ 0 :: tail, (w ++ unmetafyLoop rest).length))
    ∧ (PairedUp rest = false → ¬ Halts unmetafyTurn ⟨.scan, w ++ rest, w.length, 0⟩ Q) := by
  induction rest with
  | nil =>
      intro w
      refine ⟨fun h => absurd h Bool.false_ne_true, fun _ => ?_⟩
      apply not_halts_of_error (e := .outOfBounds)
      simp only [unmetafyTurn]
      rw [List.append_nil, load_eq_error (Nat.le_refl _)]
      rfl
  | cons c rest ih =>
      intro w
      by_cases hplain : c ≠ 0 ∧ c ≠ ZSH_META
      · have hturn : unmetafyTurn ⟨.scan, w ++ c :: rest, w.length, 0⟩
            = .ok (.again ⟨.scan, w ++ [c] ++ rest, (w ++ [c]).length, 0⟩) := by
          simp only [unmetafyTurn]
          rw [load_append_cons, Lib.Results.ok_bind, if_pos hplain, List.length_append,
            List.append_assoc, List.singleton_append]
          rfl
        rw [halts_again_iff hturn, pairedUp_plain hplain.1 hplain.2,
          unmetafyLoop_plain hplain.1 hplain.2, List.append_cons w c (unmetafyLoop rest)]
        exact ih _
      · have hturn : unmetafyTurn ⟨.scan, w ++ c :: rest, w.length, 0⟩
            = .ok (.again (copyState w [] (c :: rest))) := by
          simp only [unmetafyTurn]
          rw [load_append_cons, Lib.Results.ok_bind, if_neg hplain]
          rfl
        rw [halts_again_iff hturn]
        exact halts_copy (c :: rest) w []

/-- What a run from a memory does. -/
theorem halts_start {mem : List Byte} (h : PairedUp mem = true) :
    ∃ tail, Halts unmetafyTurn (unmetafyStart mem) Q
      ↔ Q (unmetafyLoop mem ++ 0 :: tail, (unmetafyLoop mem).length) :=
  (halts_scan mem []).1 h

/-- The function stays in its memory exactly where the reading meets the
terminator. -/
theorem safe_iff_pairedUp (mem : List Byte) : Safe mem ↔ PairedUp mem = true := by
  cases hp : PairedUp mem with
  | true =>
      obtain ⟨tail, hiff⟩ := halts_start (Q := fun _ => True) hp
      exact ⟨fun _ => rfl, fun _ => hiff.mpr trivial⟩
  | false => exact ⟨fun h => absurd h ((halts_scan mem []).2 hp), fun h => absurd h Bool.false_ne_true⟩

/-- **The write position never passes the read position.** -/
theorem write_le_read {mem : List Byte} {u : Unmetafier}
    (h : Visits unmetafyTurn (unmetafyStart mem) u) : u.t ≤ u.p := by
  -- between `copy` and `test` the write position is behind by one
  have hinv : u.t ≤ u.p ∧ (u.control = .test → u.t < u.p) := by
    apply h.invariant (I := fun u => u.t ≤ u.p ∧ (u.control = .test → u.t < u.p))
    · rintro ⟨control, mem, p, t⟩ u' ⟨hle, hlt⟩ hturn
      cases control with
      | scan =>
          obtain ⟨c, -, hturn⟩ := Lib.Results.bind_eq_ok.mp hturn
          split at hturn
          · cases hturn
            exact ⟨Nat.le_succ_of_le hle, fun h => by cases h⟩
          · cases hturn
            exact ⟨Nat.le_refl p, fun h => by cases h⟩
      | copy =>
          obtain ⟨c, -, hturn⟩ := Lib.Results.bind_eq_ok.mp hturn
          obtain ⟨mem', -, hturn⟩ := Lib.Results.bind_eq_ok.mp hturn
          split at hturn
          · cases hturn
          · cases hturn
            exact ⟨Nat.le_succ_of_le hle, fun _ => Nat.lt_succ_of_le hle⟩
      | test =>
          obtain ⟨c, -, hturn⟩ := Lib.Results.bind_eq_ok.mp hturn
          cases hturn
          refine ⟨hlt rfl, fun h => ?_⟩
          dsimp only at h
          split at h <;> cases h
      | pair =>
          obtain ⟨d, -, hturn⟩ := Lib.Results.bind_eq_ok.mp hturn
          obtain ⟨last, -, hturn⟩ := Lib.Results.bind_eq_ok.mp hturn
          obtain ⟨mem', -, hturn⟩ := Lib.Results.bind_eq_ok.mp hturn
          cases hturn
          exact ⟨Nat.le_succ_of_le hle, fun h => by cases h⟩
    · exact ⟨Nat.le_refl 0, fun h => by cases h⟩
  exact hinv.1

/-! ## The round trip -/

theorem unmetafyLoop_nul (rest : List Byte) : unmetafyLoop (0 :: rest) = [] := by
  cases rest with
  | nil => rfl
  | cons d rest => rw [unmetafyLoop, if_pos rfl]

theorem unmetafyLoop_pair (d : Byte) (rest : List Byte) :
    unmetafyLoop (ZSH_META :: d :: rest) = (d ^^^ 32) :: unmetafyLoop rest := by
  rw [unmetafyLoop, if_neg (by decide), if_pos rfl]

theorem pairedUp_nul (rest : List Byte) : PairedUp (0 :: rest) = true := by
  cases rest with
  | nil => rfl
  | cons d rest => rw [PairedUp, if_pos rfl]

theorem pairedUp_pair (d : Byte) (rest : List Byte) :
    PairedUp (ZSH_META :: d :: rest) = PairedUp rest := by
  rw [PairedUp, if_neg (by decide), if_pos rfl]

/-- Decoding undoes encoding, and meets the terminator. -/
theorem unmetafyLoop_metafy (s beyond : List Byte) (h0 : (0 : Byte) ∉ s) :
    unmetafyLoop (metafy s ++ 0 :: beyond) = s ∧ PairedUp (metafy s ++ 0 :: beyond) = true := by
  induction s with
  | nil => exact ⟨unmetafyLoop_nul beyond, pairedUp_nul beyond⟩
  | cons b s ih =>
      obtain ⟨hb, hs⟩ := List.ne_and_not_mem_of_not_mem_cons h0
      obtain ⟨hloop, hpaired⟩ := ih hs
      rw [metafy, List.flatMap_cons, ← metafy, List.append_assoc]
      split
      · -- the second byte of the pair is never looked at, only flipped back
        rw [List.cons_append, List.singleton_append, unmetafyLoop_pair, pairedUp_pair, hloop,
          UInt8.xor_assoc, UInt8.xor_self, UInt8.xor_zero]
        exact ⟨rfl, hpaired⟩
      · next hrange =>
          have hmeta : b ≠ ZSH_META := by
            rintro rfl
            exact hrange (by decide)
          rw [List.singleton_append, unmetafyLoop_plain (Ne.symm hb) hmeta,
            pairedUp_plain (Ne.symm hb) hmeta, hloop]
          exact ⟨rfl, hpaired⟩

/-- **`zsh_unmetafy` undoes the encoding in place.** It leaves the string with
its terminator, sets `*len` to its length, and never writes behind what it
reads. -/
theorem zsh_unmetafy_metafy (s : CString) (beyond : List Byte) :
    (∃ tail, Halts unmetafyTurn (unmetafyStart (metafy s.bytes ++ 0 :: beyond))
        fun r => r = (s.bytes ++ 0 :: tail, strlen s))
      ∧ ∀ u, Visits unmetafyTurn (unmetafyStart (metafy s.bytes ++ 0 :: beyond)) u →
          u.t ≤ u.p := by
  refine ⟨?_, fun u hu => write_le_read hu⟩
  obtain ⟨hloop, hpaired⟩ := unmetafyLoop_metafy s.bytes beyond s.nonul
  obtain ⟨tail, hiff⟩ := halts_start
    (Q := fun r => ∃ tail, r = (s.bytes ++ 0 :: tail, strlen s)) hpaired
  obtain ⟨fuel, r, hrun, tail', hr⟩ := hiff.mpr ⟨tail, by rw [hloop, strlen]⟩
  exact ⟨tail', fuel, r, hrun, hr⟩

/-! ## Lines that are not metafied -/

/-- The plain bytes in front are those the first loop leaves where they are. -/
theorem zsh_unmetafy_eq (beyond : List Byte) (s : CString) :
    zsh_unmetafy beyond s = ofBuffer (unmetafyLoop (s.bytes ++ 0 :: beyond)) := by
  have hplain : ∀ (p rest : List Byte), (0 : Byte) ∉ p → (∀ c ∈ p, (c != ZSH_META) = true) →
      unmetafyLoop (p ++ rest) = p ++ unmetafyLoop rest := by
    intro p rest h0 hmeta
    induction p with
    | nil => rfl
    | cons c p ih =>
        obtain ⟨hc, hp⟩ := List.ne_and_not_mem_of_not_mem_cons h0
        have hcm : c ≠ ZSH_META := bne_iff_ne.mp (hmeta c List.mem_cons_self)
        rw [List.cons_append, unmetafyLoop_plain (Ne.symm hc) hcm,
          ih hp fun c hc => hmeta c (List.mem_cons_of_mem _ hc), List.cons_append]
  have hsplit : unmetafyLoop (s.bytes ++ 0 :: beyond)
      = s.bytes.takeWhile (fun c => c != ZSH_META)
        ++ unmetafyLoop (s.bytes.dropWhile (fun c => c != ZSH_META) ++ 0 :: beyond) := by
    conv_lhs => rw [← List.takeWhile_append_dropWhile (p := fun c => c != ZSH_META) (l := s.bytes)]
    rw [List.append_assoc]
    apply hplain
    · exact fun h => s.nonul (List.takeWhile_subset _ h)
    · exact fun c hc => List.mem_takeWhile_imp (p := fun c : Byte => c != ZSH_META) hc
  rw [hsplit, zsh_unmetafy]

/-- A run that stays in the copy of a string leaves the string that
`Utils.zsh_unmetafy` gives, whatever is behind the copy. -/
theorem halts_eq_zsh_unmetafy {s : CString} {beyond : List Byte}
    (h : PairedUp (s.bytes ++ 0 :: beyond) = true) :
    Halts unmetafyTurn (unmetafyStart (s.bytes ++ 0 :: beyond))
      fun r => ofBuffer r.1 = zsh_unmetafy beyond s := by
  obtain ⟨tail, hiff⟩ := halts_start
    (Q := fun r => ofBuffer r.1 = zsh_unmetafy beyond s) h
  apply hiff.mpr
  rw [zsh_unmetafy_eq, ofBuffer_append_nul]

/-- The number of bytes `ZSH_META` at the end of a line. -/
def metaRun (bs : List Byte) : ℕ := (bs.rtakeWhile fun c => c == ZSH_META).length

theorem metaRun_cons (c : Byte) (bs : List Byte) :
    metaRun (c :: bs)
      = if metaRun bs = bs.length ∧ c = ZSH_META then bs.length + 1 else metaRun bs := by
  simp only [metaRun, List.rtakeWhile, List.length_reverse, List.reverse_cons,
    List.takeWhile_append, List.takeWhile_cons, List.takeWhile_nil]
  by_cases hall : (bs.reverse.takeWhile fun c => c == ZSH_META).length = bs.length
  · by_cases hc : c = ZSH_META <;> simp [hall, hc]
  · simp [hall]

theorem metaRun_le (bs : List Byte) : metaRun bs ≤ bs.length := by
  have hle := (List.takeWhile_prefix (l := bs.reverse) fun c => c == ZSH_META).length_le
  rw [List.length_reverse] at hle
  rw [metaRun, List.rtakeWhile, List.length_reverse]
  exact hle

/-- A plain byte in front does not change the run. -/
theorem metaRun_plain {c : Byte} (hc : c ≠ ZSH_META) (bs : List Byte) :
    metaRun (c :: bs) = metaRun bs := by
  rw [metaRun_cons, if_neg fun h => hc h.2]

/-- A pair in front does not change the parity of the run. -/
theorem even_metaRun_pair (d : Byte) (bs : List Byte) :
    Even (metaRun (ZSH_META :: d :: bs)) ↔ Even (metaRun bs) := by
  have hle := metaRun_le bs
  rw [metaRun_cons, metaRun_cons, List.length_cons]
  by_cases hall : metaRun bs = bs.length ∧ d = ZSH_META
  · rw [if_pos hall, if_pos ⟨rfl, rfl⟩, hall.1, Nat.even_add_one, Nat.even_add_one, not_not]
  · rw [if_neg hall, if_neg]
    rintro ⟨hlen, -⟩
    omega

/-- A line and its terminator pair up exactly where the `ZSH_META` bytes that
end it do. -/
theorem pairedUp_iff_even (bs : List Byte) (h0 : (0 : Byte) ∉ bs) :
    PairedUp (bs ++ [0]) = true ↔ Even (metaRun bs) := by
  induction bs using PairedUp.induct with
  | case1 => exact ⟨fun _ => Even.zero, fun _ => rfl⟩
  | case2 c =>
      have hc : c ≠ 0 := Ne.symm (List.ne_of_not_mem_cons h0)
      by_cases hmeta : c = ZSH_META
      · subst hmeta
        decide
      · rw [List.singleton_append, pairedUp_plain hc hmeta, metaRun_plain hmeta]
        decide
  | case3 d rest => exact absurd List.mem_cons_self h0
  | case4 d rest hmeta ih =>
      have hrest := List.not_mem_of_not_mem_cons (List.not_mem_of_not_mem_cons h0)
      rw [List.cons_append, List.cons_append, pairedUp_pair, even_metaRun_pair]
      exact ih hrest
  | case5 c d rest hc hmeta ih =>
      rw [List.cons_append, pairedUp_plain hc hmeta, metaRun_plain hmeta]
      exact ih (List.not_mem_of_not_mem_cons h0)

/-- **Decoding a line stays in the line exactly where the `ZSH_META` bytes that
end it pair up**, an even number of them. -/
theorem zsh_unmetafy_safe_iff (s : CString) :
    Safe (s.bytes ++ [0]) ↔ Even (metaRun s.bytes) := by
  rw [safe_iff_pairedUp, pairedUp_iff_even s.bytes s.nonul]

/-! ## Reading behind a string

Two copies of a string decode alike unless the decoder gets past the terminator
with the string still open: what it has written so far is then followed by what
it finds. -/

/-- What the decoder has written when it reads behind the terminator, where it
does and has not ended the string with a decoded NUL before; `inPair` is behind a
`ZSH_META`. -/
def overrunFrom (inPair : Bool) : List Byte → Option (List Byte)
  -- the terminator is the second byte of the pair
  | [] => if inPair then some [SPACE] else none
  | c :: rest =>
      if inPair then
        if c = SPACE then none else (overrunFrom false rest).map fun front => (c ^^^ 32) :: front
      else if c = ZSH_META then overrunFrom true rest
      else (overrunFrom false rest).map fun front => c :: front

def overrun (bs : List Byte) : Option (List Byte) := overrunFrom false bs

theorem overrun_plain {c : Byte} (hc : c ≠ ZSH_META) (rest : List Byte) :
    overrun (c :: rest) = (overrun rest).map fun front => c :: front := by
  simp [overrun, overrunFrom, hc]

theorem overrun_pair {d : Byte} (hd : d ≠ SPACE) (rest : List Byte) :
    overrun (ZSH_META :: d :: rest) = (overrun rest).map fun front => (d ^^^ 32) :: front := by
  simp [overrun, overrunFrom, hd]

theorem xor_space_eq_zero_iff {d : Byte} : d ^^^ 32 = 0 ↔ d = SPACE := UInt8.xor_eq_zero_iff

/-- The cases of the decoder: the end, half a pair, a decoded NUL, a pair, a plain
byte. -/
@[elab_as_elim]
theorem decoder_induction {P : List Byte → Prop} (nil : P []) (half : P [ZSH_META])
    (nul : ∀ rest, P (ZSH_META :: SPACE :: rest))
    (pair : ∀ d rest, d ≠ SPACE → P rest → P (ZSH_META :: d :: rest))
    (plain : ∀ c rest, c ≠ ZSH_META → P rest → P (c :: rest)) : ∀ bs, P bs
  | [] => nil
  | [c] => by
      by_cases hc : c = ZSH_META
      · exact hc ▸ half
      · exact plain c [] hc nil
  | c :: d :: rest => by
      by_cases hc : c = ZSH_META
      · by_cases hd : d = SPACE
        · exact hc ▸ hd ▸ nul rest
        · exact hc ▸ pair d rest hd (decoder_induction nil half nul pair plain rest)
      · exact plain c (d :: rest) hc (decoder_induction nil half nul pair plain (d :: rest))

/-- Where the decoder gets past the terminator, the memory behind it decides how
the string goes on. -/
theorem unmetafyLoop_of_overrun {bs front : List Byte} (h : overrun bs = some front)
    (h0 : (0 : Byte) ∉ bs) (beyond : List Byte) :
    unmetafyLoop (bs ++ 0 :: beyond) = front ++ unmetafyLoop beyond := by
  induction bs using decoder_induction generalizing front with
  | nil => cases h
  | half =>
      obtain rfl := Option.some.inj h
      rw [List.singleton_append, unmetafyLoop_pair]
      rfl
  | nul rest => cases h
  | pair d rest hd ih =>
      rw [overrun_pair hd, Option.map_eq_some_iff] at h
      obtain ⟨front, hfront, rfl⟩ := h
      have hrest := List.not_mem_of_not_mem_cons (List.not_mem_of_not_mem_cons h0)
      rw [List.cons_append, List.cons_append, unmetafyLoop_pair, ih hfront hrest, List.cons_append]
  | plain c rest hmeta ih =>
      rw [overrun_plain hmeta, Option.map_eq_some_iff] at h
      obtain ⟨front, hfront, rfl⟩ := h
      obtain ⟨hc, hrest⟩ := List.ne_and_not_mem_of_not_mem_cons h0
      rw [List.cons_append, unmetafyLoop_plain (Ne.symm hc) hmeta, ih hfront hrest,
        List.cons_append]

/-- What was written so far is open, and its last byte is the blank that the
terminator was taken for. -/
theorem overrun_open {bs front : List Byte} (h : overrun bs = some front) (h0 : (0 : Byte) ∉ bs) :
    (0 : Byte) ∉ front ∧ SPACE ∈ front := by
  induction bs using decoder_induction generalizing front with
  | nil => cases h
  | half =>
      obtain rfl := Option.some.inj h
      decide
  | nul rest => cases h
  | pair d rest hd ih =>
      rw [overrun_pair hd, Option.map_eq_some_iff] at h
      obtain ⟨front, hfront, rfl⟩ := h
      have hrest := List.not_mem_of_not_mem_cons (List.not_mem_of_not_mem_cons h0)
      obtain ⟨hnonul, hblank⟩ := ih hfront hrest
      refine ⟨List.not_mem_cons_of_ne_of_not_mem ?_ hnonul, List.mem_cons_of_mem _ hblank⟩
      exact fun hnul => hd (xor_space_eq_zero_iff.mp hnul.symm)
  | plain c rest hmeta ih =>
      rw [overrun_plain hmeta, Option.map_eq_some_iff] at h
      obtain ⟨front, hfront, rfl⟩ := h
      obtain ⟨hc, hrest⟩ := List.ne_and_not_mem_of_not_mem_cons h0
      obtain ⟨hnonul, hblank⟩ := ih hfront hrest
      exact ⟨List.not_mem_cons_of_ne_of_not_mem hc hnonul, List.mem_cons_of_mem _ hblank⟩

/-- Where it does not, the memory does not matter. -/
theorem ofBuffer_unmetafyLoop_of_closed {bs : List Byte} (h : overrun bs = none)
    (h0 : (0 : Byte) ∉ bs) (beyond beyond' : List Byte) :
    ofBuffer (unmetafyLoop (bs ++ 0 :: beyond)) = ofBuffer (unmetafyLoop (bs ++ 0 :: beyond')) := by
  induction bs using decoder_induction with
  | nil => rw [List.nil_append, List.nil_append, unmetafyLoop_nul, unmetafyLoop_nul]
  | half => cases h
  | nul rest =>
      -- the decoded NUL ends the string
      rw [List.cons_append, List.cons_append, List.cons_append, List.cons_append,
        unmetafyLoop_pair, unmetafyLoop_pair, xor_space_eq_zero_iff.mpr rfl]
      exact (ofBuffer_append_nul [] _).trans (ofBuffer_append_nul [] _).symm
  | pair d rest hd ih =>
      rw [overrun_pair hd, Option.map_eq_none_iff] at h
      have hrest := List.not_mem_of_not_mem_cons (List.not_mem_of_not_mem_cons h0)
      rw [List.cons_append, List.cons_append, List.cons_append, List.cons_append,
        unmetafyLoop_pair, unmetafyLoop_pair]
      exact ofBuffer_cons_congr _ (ih h hrest)
  | plain c rest hmeta ih =>
      rw [overrun_plain hmeta, Option.map_eq_none_iff] at h
      obtain ⟨hc, hrest⟩ := List.ne_and_not_mem_of_not_mem_cons h0
      rw [List.cons_append, List.cons_append, unmetafyLoop_plain (Ne.symm hc) hmeta,
        unmetafyLoop_plain (Ne.symm hc) hmeta]
      exact ofBuffer_cons_congr _ (ih h hrest)

/-- Two copies of a string that the decoder does not get past decode alike. -/
theorem zsh_unmetafy_of_closed {s : CString} (h : overrun s.bytes = none)
    (beyond beyond' : List Byte) : zsh_unmetafy beyond s = zsh_unmetafy beyond' s := by
  rw [zsh_unmetafy_eq, zsh_unmetafy_eq, ofBuffer_unmetafyLoop_of_closed h s.nonul]

/-- Any string can lie behind the others. -/
theorem zsh_unmetafy_of_overrun {s : CString} {front : List Byte} (h : overrun s.bytes = some front)
    (t : CString) : (zsh_unmetafy (metafy t.bytes ++ [0]) s).bytes = front ++ t.bytes := by
  have hnonul : (0 : Byte) ∉ front ++ t.bytes := by
    rw [List.mem_append, not_or]
    exact ⟨(overrun_open h s.nonul).1, t.nonul⟩
  rw [zsh_unmetafy_eq, unmetafyLoop_of_overrun h s.nonul, (unmetafyLoop_metafy t.bytes [] t.nonul).1,
    ofBuffer_bytes hnonul]

/-- What is read of a string that the decoder gets past starts with what it has
written. -/
theorem prefix_of_overrun {s : CString} {front : List Byte} (h : overrun s.bytes = some front)
    (beyond : List Byte) : front <+: (zsh_unmetafy beyond s).bytes := by
  rw [zsh_unmetafy_eq, unmetafyLoop_of_overrun h s.nonul]
  exact prefix_ofBuffer_append (overrun_open h s.nonul).1 _

/-- A string without a `ZSH_META` has no pairs. -/
theorem overrun_eq_none_of_plain {bs : List Byte} (h : ZSH_META ∉ bs) : overrun bs = none := by
  induction bs with
  | nil => rfl
  | cons c bs ih =>
      obtain ⟨hc, hbs⟩ := List.ne_and_not_mem_of_not_mem_cons h
      rw [overrun_plain (Ne.symm hc), ih hbs, Option.map_none]

/-- A run that stays in a string does not get past it. -/
theorem overrun_eq_none_of_even {bs : List Byte} (h0 : (0 : Byte) ∉ bs) (h : Even (metaRun bs)) :
    overrun bs = none := by
  rw [← pairedUp_iff_even bs h0] at h
  induction bs using decoder_induction with
  | nil => rfl
  | half => exact absurd h (by decide)
  | nul rest => rfl
  | pair d rest hd ih =>
      rw [List.cons_append, List.cons_append, pairedUp_pair] at h
      have hrest := List.not_mem_of_not_mem_cons (List.not_mem_of_not_mem_cons h0)
      rw [overrun_pair hd, ih hrest h, Option.map_none]
  | plain c rest hmeta ih =>
      obtain ⟨hc, hrest⟩ := List.ne_and_not_mem_of_not_mem_cons h0
      rw [List.cons_append, pairedUp_plain (Ne.symm hc) hmeta] at h
      rw [overrun_plain hmeta, ih hrest h, Option.map_none]

/-- A line of a history file that was cut in the middle of a pair. -/
def cutLine : CString := ⟨[0x6C, 0x73, 0x83], by decide⟩

/-- The terminator of the cut line is taken for the second byte of the pair, and
the reading goes on behind it. -/
theorem zsh_unmetafy_overruns :
    (strchr (History.parse_history_line true cutLine) ZSH_META).isSome = true
      ∧ ¬ Safe ((History.parse_history_line true cutLine).bytes ++ [0]) := by
  have hline : History.parse_history_line true cutLine = cutLine := by decide
  rw [hline]
  refine ⟨by decide, ?_⟩
  rw [safe_iff_pairedUp]
  decide

end Hstr.Metafied
