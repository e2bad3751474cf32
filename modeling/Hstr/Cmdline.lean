/-
`src/hstr.c`: the pattern that is assembled from the command line.

`hstr_assemble_cmdline_pattern` copies the arguments into `hstr->cmdline`, a space
behind each but the last, and stops at the first that has no room with its space
and the terminator. Here it works on the memory of `cmdline`: `strcpy` writes the
bytes and a terminator, and writing behind the buffer is a fault. Sizes are `size_t`.

What it leaves is the string of the model that the process uses, and that string is
told without the loop: all arguments joined by spaces, or the longest beginning of
them with a space behind each.
-/
import Hstr.ElideLoops
import Hstr.Lib.Fitting
import Hstr.Main

set_option autoImplicit false

namespace Hstr.Cmdline

open Lib.Checked Lib.Lines Lib.Fitting Hstr.Strings Hstr.Box Hstr.Elide Hstr.Main

/-! ## The function on its buffer -/

/-- The sum of two `size_t`. -/
def addSize (a b : ℕ) : ℕ := (a + b) % 2 ^ 64

/-- An element of `argv`: no object is larger than `PTRDIFF_MAX`. -/
structure Argument where
  string : CString
  lt_max : strlen string < 2 ^ 63

/-- `strcpy(cmdline + offset, arg)`. -/
def strcpy_at (cmdline : List Byte) (offset : ℕ) (arg : CString) : Except Fault (List Byte) :=
  storeRange cmdline offset (arg.bytes ++ [0])

/-- The loop over the arguments that are left; `i+1<argc` where there are more. -/
def assembleArgs (cmdline : List Byte) (cmdlineLen : ℕ) : List Argument → Except Fault (List Byte)
  | [] => .ok cmdline
  | arg :: args =>
      let argLen := strlen arg.string
      let spaceNeeded := if args.length > 0 then 1 else 0
      if addSize (addSize (addSize cmdlineLen argLen) spaceNeeded) 1 > CMDLINE_LNG then .ok cmdline
      else do
        let cmdline ← strcpy_at cmdline cmdlineLen arg.string
        let cmdlineLen := addSize cmdlineLen argLen
        if args.length > 0 then do
          let cmdline ← store cmdline cmdlineLen SPACE
          let cmdlineLen := addSize cmdlineLen 1
          let cmdline ← store cmdline cmdlineLen 0
          assembleArgs cmdline cmdlineLen args
        else assembleArgs cmdline cmdlineLen args

/-- `hstr_assemble_cmdline_pattern` on the memory of `cmdline`. -/
def hstr_assemble_cmdline_pattern (cmdline : List Byte) (argv : List Argument) (startIndex : ℕ) :
    Except Fault (List Byte) :=
  if argv.length > 0 then do
    let cmdlineLen ← strlen_at cmdline
    assembleArgs cmdline cmdlineLen (argv.drop startIndex)
  else .ok cmdline

/-! ## The buffer holds the string -/

/-- The buffer holds a string, with its terminator. -/
def Holds (s : CString) (cmdline : List Byte) : Prop :=
  cmdline.length = CMDLINE_LNG ∧ ∃ rest, cmdline = s.bytes ++ 0 :: rest

theorem addSize_eq {a b : ℕ} (h : a + b < 2 ^ 64) : addSize a b = a + b := Nat.mod_eq_of_lt h

/-- No sum of the test wraps around. -/
theorem size_needed {cmdlineLen : ℕ} (hlen : cmdlineLen ≤ CMDLINE_LNG) (arg : Argument)
    {spaceNeeded : ℕ} (hspace : spaceNeeded ≤ 1) :
    addSize cmdlineLen (strlen arg.string) = cmdlineLen + strlen arg.string
      ∧ addSize (addSize (addSize cmdlineLen (strlen arg.string)) spaceNeeded) 1
        = cmdlineLen + strlen arg.string + spaceNeeded + 1 := by
  have hmax := arg.lt_max
  have hlng : CMDLINE_LNG < 2 ^ 62 := by decide
  have harg : addSize cmdlineLen (strlen arg.string) = cmdlineLen + strlen arg.string :=
    addSize_eq (by omega)
  have hspaced : addSize (cmdlineLen + strlen arg.string) spaceNeeded
      = cmdlineLen + strlen arg.string + spaceNeeded := addSize_eq (by omega)
  refine ⟨harg, ?_⟩
  rw [harg, hspaced, addSize_eq (by omega)]

theorem addSize_one {cmdlineLen : ℕ} (hlen : cmdlineLen ≤ CMDLINE_LNG) :
    addSize cmdlineLen 1 = cmdlineLen + 1 := by
  have hlng : CMDLINE_LNG < 2 ^ 62 := by decide
  exact addSize_eq (by omega)

/-- Copying a string behind another, where there is room for both. -/
theorem Holds.strcpy_at {s : CString} {cmdline : List Byte} (h : Holds s cmdline) {arg : CString}
    (hroom : strlen s + strlen arg + 1 ≤ CMDLINE_LNG) :
    Returns (Cmdline.strcpy_at cmdline (strlen s) arg) (Holds (append s arg)) := by
  obtain ⟨hlength, rest, rfl⟩ := h
  rw [List.length_append] at hlength
  unfold strlen at *
  have hfits : (arg.bytes ++ [0]).length ≤ (0 :: rest).length := by
    rw [List.length_append, List.length_singleton]
    omega
  rw [Cmdline.strcpy_at, storeRange_append hfits]
  apply Returns.ok
  constructor
  · simp only [List.length_append, List.length_drop, List.length_singleton]
    omega
  · exact ⟨(0 :: rest).drop (arg.bytes ++ [0]).length, by simp [append]⟩

/-- A space behind the string, and the terminator behind the space. -/
theorem Holds.space {s : CString} {cmdline : List Byte} (h : Holds s cmdline)
    (hroom : strlen s + 2 ≤ CMDLINE_LNG) :
    Returns (do
      let cmdline ← store cmdline (strlen s) SPACE
      store cmdline (strlen s + 1) 0) (Holds (append s (lit " "))) := by
  obtain ⟨hlength, rest, rfl⟩ := h
  rw [List.length_append, List.length_cons] at hlength
  unfold strlen at *
  obtain ⟨b, rest, rfl⟩ := List.exists_cons_of_length_pos (show 0 < rest.length by omega)
  have hspace : store (s.bytes ++ 0 :: b :: rest) s.bytes.length SPACE
      = .ok ((s.bytes ++ [SPACE]) ++ b :: rest) := by
    rw [store_append_cons, List.append_assoc]
    rfl
  have hnul : store ((s.bytes ++ [SPACE]) ++ b :: rest) (s.bytes.length + 1) 0
      = .ok ((s.bytes ++ [SPACE]) ++ 0 :: rest) := by
    have hwrite := store_append_cons (s.bytes ++ [SPACE]) rest b 0
    rwa [List.length_append, List.length_singleton] at hwrite
  rw [hspace, Lib.Results.ok_bind, hnul]
  apply Returns.ok
  constructor
  · simp only [List.length_append, List.length_cons, List.length_nil] at hlength ⊢
    omega
  · exact ⟨rest, rfl⟩

/-- **The loop never leaves the buffer**, and what it holds afterwards is the string
that the process goes on with. -/
theorem Holds.assembleArgs (args : List Argument) {s : CString} {cmdline : List Byte}
    (h : Holds s cmdline) :
    Returns (Cmdline.assembleArgs cmdline (strlen s) args)
      (Holds (assembleLoop s (args.map Argument.string))) := by
  induction args generalizing s cmdline with
  | nil => exact Returns.ok h
  | cons arg args ih =>
      have hs : strlen s + 1 ≤ CMDLINE_LNG := by
        obtain ⟨hlength, rest, rfl⟩ := h
        rw [List.length_append, List.length_cons] at hlength
        unfold strlen
        omega
      rw [Cmdline.assembleArgs, List.map_cons, assembleLoop, List.length_map]
      obtain ⟨harg, hneeded⟩ := size_needed (show strlen s ≤ CMDLINE_LNG by omega) arg
        (show (if args.length > 0 then 1 else 0) ≤ 1 by split <;> omega)
      simp only [hneeded]
      simp only [harg]
      by_cases hfull : strlen s + strlen arg.string + (if args.length > 0 then 1 else 0) + 1
          > CMDLINE_LNG
      · rw [if_pos hfull, if_pos hfull]
        exact Returns.ok h
      · rw [if_neg hfull, if_neg hfull]
        apply (h.strcpy_at (by omega)).bind
        intro copied hcopied
        have hlength : strlen (append s arg.string) = strlen s + strlen arg.string := by
          simp [strlen, append]
        by_cases hmore : args.length > 0
        · -- not the last argument: a space, and the next one
          rw [if_pos hmore] at hfull
          rw [if_pos hmore, if_pos hmore]
          have hspace := hcopied.space (by omega)
          rw [hlength] at hspace
          have hlast : strlen (append (append s arg.string) (lit " "))
              = strlen s + strlen arg.string + 1 := by
            rw [← hlength]
            exact List.length_append
          rw [addSize_one (by omega), ← bind_assoc]
          apply hspace.bind
          intro spaced hspaced
          rw [← hlast]
          exact ih hspaced
        · rw [if_neg hmore, if_neg hmore, ← hlength]
          exact ih hcopied

/-- The function on a buffer that holds a string. -/
theorem Holds.assembled {s : CString} {cmdline : List Byte} (h : Holds s cmdline)
    (argv : List Argument) (startIndex : ℕ) :
    Returns (Cmdline.hstr_assemble_cmdline_pattern cmdline argv startIndex)
      (Holds (assembleLoop s ((argv.drop startIndex).map Argument.string))) := by
  rw [Cmdline.hstr_assemble_cmdline_pattern]
  by_cases hargc : argv.length > 0
  · have hlen : strlen_at cmdline = .ok (strlen s) := by
      obtain ⟨-, rest, rfl⟩ := h
      exact strlen_at_eq s.nonul rest
    rw [if_pos hargc, hlen, Lib.Results.ok_bind]
    exact h.assembleArgs _
  · obtain rfl := List.eq_nil_of_length_eq_zero (Nat.eq_zero_of_not_pos hargc)
    rw [if_neg hargc, List.drop_nil]
    exact Returns.ok h

/-- **The function on its buffer refines the function of the process.** -/
theorem Holds.hstr_assemble_cmdline_pattern {R : Type} {hstr : Hstr R} {cmdline : List Byte}
    (h : Holds hstr.cmdline cmdline) (argv : List Argument) (startIndex : ℕ) :
    Returns (Cmdline.hstr_assemble_cmdline_pattern cmdline argv startIndex)
      (Holds (Main.hstr_assemble_cmdline_pattern hstr (argv.map Argument.string)
        startIndex).cmdline) := by
  apply (h.assembled argv startIndex).mono
  intro cmdline' hcmdline'
  rw [Main.hstr_assemble_cmdline_pattern, List.length_map, ← List.map_drop]
  by_cases hargc : argv.length > 0
  · rwa [if_pos hargc]
  · obtain rfl := List.eq_nil_of_length_eq_zero (Nat.eq_zero_of_not_pos hargc)
    rw [List.drop_nil] at hcmdline'
    rwa [if_neg hargc]

/-! ## The text that is assembled -/

/-- The arguments with single spaces between them. -/
def joined (args : List CString) : List Byte := [SPACE].intercalate (args.map CString.bytes)

/-- The arguments, each with a space behind it. -/
def spaced (args : List CString) : List Byte := unlines SPACE (args.map CString.bytes)

/-- The bytes that an argument needs behind what is written: with its separator, where
there are more arguments, and the terminator. -/
def needed (arg : CString) (args : List CString) : ℕ :=
  strlen arg + (if args.length > 0 then 1 else 0) + 1

/-- The text of the arguments in a buffer of `size` bytes: all of them joined, where this
and its terminator fit, and otherwise the arguments before the first that does not fit,
each with a space, which are the longest beginning of them that fits so. -/
def Assembles (size : ℕ) (args : List CString) (text : List Byte) : Prop :=
  if (joined args).length + 1 ≤ size then text = joined args
  else ∃ accepted arg rest, args = accepted ++ arg :: rest
    ∧ size < (spaced accepted).length + needed arg rest
    ∧ LongestPrefix (fun p => (spaced p).length + 1 ≤ size) args accepted
    ∧ text = spaced accepted

theorem joined_cons {args : List CString} (hargs : args ≠ []) (arg : CString) :
    joined (arg :: args) = arg.bytes ++ SPACE :: joined args := by
  obtain ⟨next, args, rfl⟩ := List.exists_cons_of_ne_nil hargs
  unfold joined
  rw [List.map_cons, List.map_cons, List.intercalate_cons_cons, List.append_assoc]
  rfl

theorem length_spaced_cons (arg : CString) (args : List CString) :
    (spaced (arg :: args)).length = strlen arg + 1 + (spaced args).length := by
  rw [spaced, List.map_cons, unlines_cons, List.length_append, List.length_cons, strlen, spaced]
  omega

/-- What an argument needs, the text that begins with it has. -/
theorem needed_le_joined (arg : CString) (args : List CString) :
    needed arg args ≤ (joined (arg :: args)).length + 1 := by
  unfold needed
  split
  · next hmore =>
      rw [joined_cons (List.ne_nil_of_length_pos hmore), List.length_append, List.length_cons,
        strlen]
      omega
  · next hlast =>
      obtain rfl := List.eq_nil_of_length_eq_zero (Nat.eq_zero_of_not_pos hlast)
      have hjoined : joined [arg] = arg.bytes := List.intercalate_singleton
      rw [hjoined, strlen]

/-- The first argument does not fit. -/
theorem Assembles.full {size : ℕ} (hsize : 1 ≤ size) {arg : CString} {args : List CString}
    (hfull : size < needed arg args) : Assembles size (arg :: args) [] := by
  have hjoined := needed_le_joined arg args
  have hneeded : needed arg args ≤ strlen arg + 2 := by
    unfold needed
    split <;> omega
  rw [Assembles, if_neg (by omega)]
  refine ⟨[], arg, args, rfl, ?_, ?_, rfl⟩
  · rwa [show (spaced []).length = 0 from rfl, Nat.zero_add]
  · apply longestPrefix_nil
    · exact hsize
    · intro p
      rw [length_spaced_cons]
      omega

/-- The last argument fits. -/
theorem Assembles.last {size : ℕ} {arg : CString} (hroom : strlen arg + 1 ≤ size) :
    Assembles size [arg] arg.bytes := by
  have hjoined : joined [arg] = arg.bytes := List.intercalate_singleton
  rw [Assembles, hjoined]
  rw [if_pos (show arg.bytes.length + 1 ≤ size from hroom)]

/-- The first argument fits and is not the last. -/
theorem Assembles.cons {size : ℕ} {arg : CString} {args : List CString} (hargs : args ≠ [])
    (hroom : strlen arg + 2 ≤ size) {text : List Byte}
    (h : Assembles (size - (strlen arg + 1)) args text) :
    Assembles size (arg :: args) (arg.bytes ++ SPACE :: text) := by
  have hlength : (joined (arg :: args)).length = strlen arg + 1 + (joined args).length := by
    rw [joined_cons hargs, List.length_append, List.length_cons, strlen]
    omega
  unfold Assembles at h ⊢
  by_cases hfits : (joined args).length + 1 ≤ size - (strlen arg + 1)
  · rw [if_pos hfits] at h
    rw [if_pos (by omega), joined_cons hargs, h]
  · rw [if_neg hfits] at h
    rw [if_neg (by omega)]
    obtain ⟨accepted, next, rest, rfl, hnext, hlongest, rfl⟩ := h
    refine ⟨arg :: accepted, next, rest, rfl, ?_, ?_, ?_⟩
    · rw [length_spaced_cons]
      omega
    · apply LongestPrefix.cons hlongest
      intro p
      rw [length_spaced_cons]
      omega
    · rw [spaced, spaced, List.map_cons, unlines_cons]

/-- **The loop assembles the text** behind the string that is there. -/
theorem assembles_assembleLoop (args : List CString) {s : CString}
    (hs : strlen s + 1 ≤ CMDLINE_LNG) :
    ∃ text, (assembleLoop s args).bytes = s.bytes ++ text
      ∧ Assembles (CMDLINE_LNG - strlen s) args text := by
  induction args generalizing s with
  | nil =>
      refine ⟨[], (List.append_nil _).symm, ?_⟩
      rw [Assembles]
      exact (if_pos (show 0 + 1 ≤ _ by omega)).mpr rfl
  | cons arg args ih =>
      rw [assembleLoop]
      by_cases hfull : strlen s + strlen arg + (if args.length > 0 then 1 else 0) + 1 > CMDLINE_LNG
      · rw [if_pos hfull]
        refine ⟨[], (List.append_nil _).symm, Assembles.full (by omega) ?_⟩
        rw [needed]
        omega
      · rw [if_neg hfull]
        dsimp only
        by_cases hmore : args.length > 0
        · rw [if_pos hmore] at hfull ⊢
          have hlength : strlen (append (append s arg) (lit " ")) = strlen s + (strlen arg + 1) := by
            rw [strlen, append, append, List.length_append, List.length_append, Nat.add_assoc]
            rfl
          obtain ⟨text, htext, hassembles⟩ := ih
            (show strlen (append (append s arg) (lit " ")) + 1 ≤ CMDLINE_LNG by omega)
          rw [hlength, Nat.sub_add_eq] at hassembles
          refine ⟨arg.bytes ++ SPACE :: text, ?_,
            Assembles.cons (List.ne_nil_of_length_pos hmore) (by omega) hassembles⟩
          rw [htext, append, append, List.append_assoc, List.append_assoc]
          rfl
        · rw [if_neg hmore] at hfull ⊢
          obtain rfl := List.eq_nil_of_length_eq_zero (Nat.eq_zero_of_not_pos hmore)
          exact ⟨arg.bytes, rfl, Assembles.last (by omega)⟩

/-- **What is assembled from the command line.** On a buffer that holds the empty string
the function stays within the buffer and leaves a string with its terminator, whose text
is all arguments joined by spaces, or the longest beginning of them that has room. -/
theorem cmdline_assembled (argv : List Argument) (startIndex : ℕ) {beyond : List Byte}
    (hsize : (0 :: beyond).length = CMDLINE_LNG) :
    Returns (hstr_assemble_cmdline_pattern (0 :: beyond) argv startIndex) fun cmdline =>
      cmdline.length = CMDLINE_LNG ∧ ∃ text rest, cmdline = text ++ 0 :: rest ∧ (0 : Byte) ∉ text
        ∧ Assembles CMDLINE_LNG ((argv.drop startIndex).map Argument.string) text := by
  have hempty : Holds empty (0 :: beyond) := ⟨hsize, beyond, rfl⟩
  apply (hempty.assembled argv startIndex).mono
  rintro cmdline ⟨hlength, rest, rfl⟩
  obtain ⟨text, htext, hassembles⟩ :=
    assembles_assembleLoop ((argv.drop startIndex).map Argument.string)
      (show strlen empty + 1 ≤ CMDLINE_LNG by decide)
  rw [show empty.bytes = [] from rfl, List.nil_append] at htext
  refine ⟨hlength, text, rest, by rw [htext], ?_, hassembles⟩
  rw [← htext]
  exact CString.nonul _

/-- `hstr ls -la`. -/
theorem cmdline_assembled_ls :
    (0 :: List.replicate 8191 (0 : Byte)).length = CMDLINE_LNG
      ∧ Returns (hstr_assemble_cmdline_pattern (0 :: List.replicate 8191 0)
          [⟨lit "hstr", by decide⟩, ⟨lit "ls", by decide⟩, ⟨lit "-la", by decide⟩] 1)
        fun cmdline => ∃ rest, cmdline = (lit "ls -la").bytes ++ 0 :: rest := by
  have hsize : (0 :: List.replicate 8191 (0 : Byte)).length = CMDLINE_LNG := by
    rw [List.length_cons, List.length_replicate]
    rfl
  refine ⟨hsize, (cmdline_assembled _ 1 hsize).mono ?_⟩
  rintro cmdline ⟨-, text, rest, rfl, -, hassembles⟩
  have hfits : (joined [lit "ls", lit "-la"]).length + 1 ≤ CMDLINE_LNG := by decide
  obtain rfl : text = joined [lit "ls", lit "-la"] := by
    have htext : Assembles CMDLINE_LNG [lit "ls", lit "-la"] text := hassembles
    rwa [Assembles, if_pos hfits] at htext
  exact ⟨rest, rfl⟩

end Hstr.Cmdline
