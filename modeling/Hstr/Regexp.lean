/-
`src/hstr_regexp.c`: regular expression matching with a cache.

`hstr_regexp_match` compiles a regexp once and keeps the compiled object in a
hash set under the regexp's text. The flags of the compilation come from
`caseSensitive`, which the user toggles while the cache lives on, so the text
does not determine the compiled object. The theorem below says for which
sequences of calls and toggles the cache can nevertheless not be seen.

The regex library of the C standard is a parameter: `regcomp`, `regexec` and
`regerror` are deterministic functions of what they are given.
-/
import Hstr.Hashset
import Hstr.Lib.Runs
import Mathlib.Data.List.Pairwise

set_option autoImplicit false

namespace Hstr.Regexp

open Lib.Runs Hstr.Strings Hstr.Hashset

/-- The flag that makes a compiled regexp ignore case. -/
def REG_ICASE : ℕ := 2

/-- `regmatch_t`: the offsets of a match. -/
structure RegMatch where
  rm_so : ℤ
  rm_eo : ℤ
  deriving DecidableEq

/-- `<regex.h>` as far as it is used, with compiled objects in `R`. -/
structure RegexLib (R : Type*) where
  /-- The compiled object for a pattern and flags, or an error code. -/
  regcomp : CString → ℕ → Except ℕ R
  /-- `matchPtr[0]` where the status is 0. -/
  regexec : R → CString → Option RegMatch
  /-- The text for an error code in a buffer of the given size. -/
  regerror : ℕ → ℕ → CString

/-- `HstrRegexp`. -/
structure HstrRegexp (R : Type*) where
  caseSensitive : Bool
  cache : HashSet R

/-- What a call of `hstr_regexp_match` gives back: its result, `*match` where it
was written, and the text in `errorMessage` where that was written. -/
structure MatchResult where
  ret : Bool
  offsets : Option RegMatch
  errorMessage : Option CString
  deriving DecidableEq

variable {R : Type*}

/-- `hstr_regexp_init` on the memory of an `HstrRegexp`: only the cache is
initialised. -/
def hstr_regexp_init (memory : HstrRegexp R) : HstrRegexp R :=
  { memory with cache := hashset_init }

/-- The compilation flags of a case mode. -/
def compilationFlags (caseSensitive : Bool) : ℕ := if caseSensitive then 0 else REG_ICASE

/-- The part of `hstr_regexp_match` after the compiled object is there. -/
def matchCompiled (lib : RegexLib R) (compiled : R) (text : CString) : MatchResult :=
  match lib.regexec compiled text with
  | some m => if m.rm_so ≠ -1 then ⟨true, some m, none⟩ else ⟨false, none, none⟩
  | none => ⟨false, none, none⟩

/-- `hstr_regexp_match`. `hashset_contains` and the `hashset_get` behind it are
one lookup. -/
def hstr_regexp_match (lib : RegexLib R) (re : HstrRegexp R) (regexp text : CString)
    (errorMessageSize : ℕ) : MatchResult × HstrRegexp R :=
  match hashset_get re.cache regexp with
  | some compiled => (matchCompiled lib compiled text, re)
  | none =>
      match lib.regcomp regexp (compilationFlags re.caseSensitive) with
      | .ok compiled =>
          (matchCompiled lib compiled text,
            { re with cache := (hashset_put re.cache regexp compiled).1 })
      | .error status => (⟨false, none, some (lib.regerror status errorMessageSize)⟩, re)

/-! ## The cache-less matcher, and when the cache cannot be seen -/

/-- A call without a cache: compile with the flags of the current case mode and
run. -/
def matchFresh (lib : RegexLib R) (caseSensitive : Bool) (regexp text : CString)
    (errorMessageSize : ℕ) : MatchResult :=
  match lib.regcomp regexp (compilationFlags caseSensitive) with
  | .ok compiled => matchCompiled lib compiled text
  | .error status => ⟨false, none, some (lib.regerror status errorMessageSize)⟩

/-- What happens to an `HstrRegexp` in a session. -/
inductive RegexpOp
  | setCase (caseSensitive : Bool)
  | matchLine (regexp text : CString) (errorMessageSize : ℕ)

/-- The state after one step of a session. -/
def regexpStep (lib : RegexLib R) (re : HstrRegexp R) : RegexpOp → HstrRegexp R
  | .setCase b => { re with caseSensitive := b }
  | .matchLine regexp text n => (hstr_regexp_match lib re regexp text n).2

/-- The step gives the result and the offsets of a cache-less call. -/
def AgreesWithFresh (lib : RegexLib R) (re : HstrRegexp R) : RegexpOp → Prop
  | .setCase _ => True
  | .matchLine regexp text n =>
      let cached := (hstr_regexp_match lib re regexp text n).1
      let fresh := matchFresh lib re.caseSensitive regexp text n
      cached.ret = fresh.ret ∧ cached.offsets = fresh.offsets

/-- No step of the session shows that there is a cache. -/
def Transparent (lib : RegexLib R) (re : HstrRegexp R) (ops : List RegexpOp) : Prop :=
  Guarded (regexpStep lib) (AgreesWithFresh lib) re ops

/-- The regexps a session matches, in order, each with the case mode it is
matched in. -/
def calls : Bool → List RegexpOp → List (CString × Bool)
  | _, [] => []
  | _, .setCase b :: ops => calls b ops
  | b, .matchLine regexp _ _ :: ops => (regexp, b) :: calls b ops

/-- Where the earlier call's regexp compiles and the later call has the same
regexp, the later call's case mode compiles it to the same object. -/
def RecompilesAlike (regcomp : CString → ℕ → Except ℕ R) (earlier later : CString × Bool) : Prop :=
  earlier.1 = later.1 → ∀ compiled, regcomp earlier.1 (compilationFlags earlier.2) = .ok compiled →
    regcomp later.1 (compilationFlags later.2) = .ok compiled

/-- The state after a call does not depend on `regexec` or on the text. -/
theorem regexpStep_matchLine (lib : RegexLib R) (re : HstrRegexp R) (regexp text : CString)
    (n : ℕ) :
    regexpStep lib re (.matchLine regexp text n)
      = match hashset_get re.cache regexp, lib.regcomp regexp (compilationFlags re.caseSensitive) with
        | none, .ok compiled => { re with cache := (hashset_put re.cache regexp compiled).1 }
        | _, _ => re := by
  rw [regexpStep, hstr_regexp_match]
  cases hashset_get re.cache regexp with
  | some c => rfl
  | none => cases lib.regcomp regexp (compilationFlags re.caseSensitive) <;> rfl

theorem regexpStep_congr (lib lib' : RegexLib R) (h : lib.regcomp = lib'.regcomp)
    (re : HstrRegexp R) (op : RegexpOp) : regexpStep lib re op = regexpStep lib' re op := by
  cases op with
  | setCase b => rfl
  | matchLine regexp text n => rw [regexpStep_matchLine, regexpStep_matchLine, h]

@[simp] theorem regexpStep_caseSensitive (lib : RegexLib R) (re : HstrRegexp R)
    (regexp text : CString) (n : ℕ) :
    (regexpStep lib re (.matchLine regexp text n)).caseSensitive = re.caseSensitive := by
  rw [regexpStep_matchLine]
  split <;> rfl

/-- The cache after a call: the regexp is there once it compiled, nothing else
changes. -/
theorem hashset_get_regexpStep (lib : RegexLib R) (re : HstrRegexp R) (regexp text : CString)
    (n : ℕ) (r : CString) (c : R) :
    hashset_get (regexpStep lib re (.matchLine regexp text n)).cache r = some c ↔
      hashset_get re.cache r = some c ∨ r = regexp ∧ hashset_get re.cache regexp = none
        ∧ lib.regcomp regexp (compilationFlags re.caseSensitive) = .ok c := by
  rw [regexpStep_matchLine]
  cases hget : hashset_get re.cache regexp with
  | some d => simp
  | none =>
      cases hcomp : lib.regcomp regexp (compilationFlags re.caseSensitive) with
      | error e => simp
      | ok d =>
          simp only [hashset_get_put, hget, Option.getD_none, Except.ok.injEq, true_and]
          by_cases hr : r = regexp
          · subst hr
            simp [hget]
          · simp [hr]

/-- **Soundness of the condition.** Where every cached object is what the calls
to come would compile, and the calls recompile alike among themselves, the
session is transparent. -/
theorem transparent_of_recompilesAlike (lib : RegexLib R) {re : HstrRegexp R}
    {ops : List RegexpOp}
    (hcache : ∀ r c, hashset_get re.cache r = some c → ∀ call ∈ calls re.caseSensitive ops,
      call.1 = r → lib.regcomp r (compilationFlags call.2) = .ok c)
    (hcalls : (calls re.caseSensitive ops).Pairwise (RecompilesAlike lib.regcomp)) :
    Transparent lib re ops := by
  -- `hcache` and `hcalls` are about the calls to come, so both shrink with the session
  induction ops generalizing re with
  | nil => trivial
  | cons op ops ih =>
      cases op with
      | setCase b => exact ⟨trivial, ih hcache hcalls⟩
      | matchLine regexp text n =>
          rw [calls] at hcache hcalls
          obtain ⟨hhead, hcalls⟩ := List.pairwise_cons.mp hcalls
          refine ⟨?_, ih ?_ ?_⟩
          · cases hget : hashset_get re.cache regexp with
            | some c =>
                have hc := hcache regexp c hget _ List.mem_cons_self rfl
                simp only [AgreesWithFresh, hstr_regexp_match, matchFresh, hget, hc, and_self]
            | none =>
                simp only [AgreesWithFresh, hstr_regexp_match, matchFresh, hget]
                cases lib.regcomp regexp (compilationFlags re.caseSensitive) <;> simp
          -- a cached object is an old one, or the one this call compiled
          · intro r c hget call hcall hr
            rw [regexpStep_caseSensitive] at hcall
            rcases (hashset_get_regexpStep lib re regexp text n r c).mp hget with hold | ⟨rfl, -, hc⟩
            · exact hcache r c hold call (List.mem_cons_of_mem _ hcall) hr
            · rw [← hr] at hc ⊢
              exact hhead call hcall hr.symm c (hr ▸ hc)
          · rw [regexpStep_caseSensitive]
            exact hcalls

/-- The matcher that accepts exactly the runs of one compiled object. -/
noncomputable def onlyMatches (c : R) : R → CString → Option RegMatch :=
  open Classical in fun x _ => if x = c then some ⟨0, 0⟩ else none

/-- With such a matcher the result tells whether the object was that one. -/
theorem matchCompiled_onlyMatches (regcomp : CString → ℕ → Except ℕ R)
    (regerror : ℕ → ℕ → CString) (c x : R) (text : CString) :
    (matchCompiled ⟨regcomp, onlyMatches c, regerror⟩ x text).ret = true ↔ x = c := by
  by_cases hx : x = c <;> simp [matchCompiled, onlyMatches, hx]

/-- **Necessity of the condition.** A session that is transparent whatever
`regexec` does recompiles alike. -/
theorem recompilesAlike_of_transparent {regcomp : CString → ℕ → Except ℕ R}
    {regerror : ℕ → ℕ → CString} {re : HstrRegexp R} {ops : List RegexpOp}
    (h : ∀ regexec, Transparent ⟨regcomp, regexec, regerror⟩ re ops) :
    (∀ r c, hashset_get re.cache r = some c → ∀ call ∈ calls re.caseSensitive ops,
      call.1 = r → regcomp r (compilationFlags call.2) = .ok c)
    ∧ (calls re.caseSensitive ops).Pairwise (RecompilesAlike regcomp) := by
  induction ops generalizing re with
  | nil => exact ⟨by simp [calls], List.Pairwise.nil⟩
  | cons op ops ih =>
      cases op with
      | setCase b => exact ih fun regexec => (h regexec).2
      | matchLine regexp text n =>
          let lib : RegexLib R := ⟨regcomp, fun _ _ => none, regerror⟩
          -- the state after the call is the same for all matchers
          have hrest : ∀ regexec, Transparent ⟨regcomp, regexec, regerror⟩
              (regexpStep lib re (.matchLine regexp text n)) ops := by
            intro regexec
            have hstate : regexpStep lib re (.matchLine regexp text n)
                = regexpStep ⟨regcomp, regexec, regerror⟩ re (.matchLine regexp text n) :=
              regexpStep_congr lib ⟨regcomp, regexec, regerror⟩ rfl re _
            rw [hstate]
            exact (h regexec).2
          obtain ⟨hcache, hcalls⟩ := ih hrest
          rw [regexpStep_caseSensitive] at hcache hcalls
          -- a cached object shows unless the call itself would compile it
          have hhead : ∀ c, hashset_get re.cache regexp = some c →
              regcomp regexp (compilationFlags re.caseSensitive) = .ok c := by
            intro c hget
            have hret := (h (onlyMatches c)).1.1
            simp only [hstr_regexp_match, matchFresh, hget] at hret
            rw [(matchCompiled_onlyMatches regcomp regerror c c text).mpr rfl] at hret
            cases hcomp : regcomp regexp (compilationFlags re.caseSensitive) with
            | error e => simp [hcomp] at hret
            | ok d =>
                rw [hcomp] at hret
                rw [(matchCompiled_onlyMatches regcomp regerror c d text).mp hret.symm]
          rw [calls]
          constructor
          · intro r c hget call hcall hr
            rcases List.mem_cons.mp hcall with rfl | hcall
            · subst hr
              exact hhead c hget
            · exact hcache r c ((hashset_get_regexpStep lib re regexp text n r c).mpr (Or.inl hget))
                call hcall hr
          -- after the call its regexp is cached, and the later calls see it
          · refine List.pairwise_cons.mpr ⟨?_, hcalls⟩
            intro call hcall hr c hc
            have hget : hashset_get (regexpStep lib re (.matchLine regexp text n)).cache regexp
                = some c := by
              rw [hashset_get_regexpStep]
              cases hold : hashset_get re.cache regexp with
              | none => exact Or.inr ⟨rfl, rfl, hc⟩
              | some d =>
                  have hd := hhead d hold
                  rw [show regcomp regexp (compilationFlags re.caseSensitive) = .ok c from hc] at hd
                  exact Or.inl (by rw [Except.ok.inj hd])
            have hlater := hcache regexp c hget call hcall hr.symm
            exact hr ▸ hlater

/-- **When the cache is transparent.** From `hstr_regexp_init` on, a session is
indistinguishable from one without a cache, whatever `regexec` does, exactly
when every later call of a regexp that compiled compiles it to the same object
under the case mode of that call. -/
theorem hstr_regexp_match_transparent_iff (regcomp : CString → ℕ → Except ℕ R)
    (regerror : ℕ → ℕ → CString) (memory : HstrRegexp R) (ops : List RegexpOp) :
    (∀ regexec, Transparent ⟨regcomp, regexec, regerror⟩ (hstr_regexp_init memory) ops) ↔
      (calls memory.caseSensitive ops).Pairwise (RecompilesAlike regcomp) := by
  constructor
  · exact fun h => (recompilesAlike_of_transparent h).2
  · intro h regexec
    refine transparent_of_recompilesAlike _ ?_ h
    intro r c hget
    simp [hstr_regexp_init] at hget

/-! ## What a call gives, by what its regexp compiles to -/

/-- The compiled object that the next call for a regexp uses, or the error it
reports. -/
def compiledFor (lib : RegexLib R) (re : HstrRegexp R) (regexp : CString) : Except ℕ R :=
  match hashset_get re.cache regexp with
  | some compiled => .ok compiled
  | none => lib.regcomp regexp (compilationFlags re.caseSensitive)

theorem hstr_regexp_match_fst (lib : RegexLib R) (re : HstrRegexp R) (regexp text : CString)
    (n : ℕ) :
    (hstr_regexp_match lib re regexp text n).1
      = match compiledFor lib re regexp with
        | .ok compiled => matchCompiled lib compiled text
        | .error status => ⟨false, none, some (lib.regerror status n)⟩ := by
  unfold hstr_regexp_match compiledFor
  cases hashset_get re.cache regexp with
  | some compiled => rfl
  | none => cases lib.regcomp regexp (compilationFlags re.caseSensitive) <;> rfl

/-- A call leaves its own regexp compiled as it was. -/
theorem compiledFor_hstr_regexp_match (lib : RegexLib R) (re : HstrRegexp R)
    (regexp text : CString) (n : ℕ) :
    compiledFor lib (hstr_regexp_match lib re regexp text n).2 regexp
      = compiledFor lib re regexp := by
  unfold hstr_regexp_match
  cases hget : hashset_get re.cache regexp with
  | some compiled => rfl
  | none =>
      cases hcomp : lib.regcomp regexp (compilationFlags re.caseSensitive) with
      | error status => rfl
      | ok compiled => simp [compiledFor, hashset_get_put, hget, hcomp]

/-! ## A session that shows the cache

On patterns without special characters a regex library does substring search,
case sensitive or not by the flag. -/

/-- `<regex.h>` for patterns without special characters. -/
def literalRegex : RegexLib (CString × Bool) where
  regcomp := fun pattern cflags => .ok (pattern, decide (cflags = REG_ICASE))
  regexec := fun compiled text =>
    (if compiled.2 then strcasestr text compiled.1 else strstr text compiled.1).map
      fun i => ⟨i, i + strlen compiled.1⟩
  regerror := fun _ _ => empty

/-- Searching `A` in `a` without case, switching to case sensitive matching and
searching again: the second search still ignores case. -/
theorem hstr_regexp_match_not_transparent :
    ¬ Transparent literalRegex (hstr_regexp_init ⟨false, hashset_init⟩)
        [.matchLine (lit "A") (lit "a") 8192, .setCase true,
          .matchLine (lit "A") (lit "a") 8192] := by
  intro h
  have hret := h.2.2.1.1
  revert hret
  decide

end Hstr.Regexp
