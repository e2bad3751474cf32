/-
`src/hstr.c`: the value of `HSTR_CONFIG`.

The value is documented as a list of keywords with commas between them, and is read
by a `strstr` for each keyword, without a look at the commas. No keyword occurs in
another one, and none has a comma, so this makes no difference: each option is on
exactly where its keyword is in the list, whatever the order of the list is and
however often a keyword is repeated.
-/
import Hstr.Box
import Hstr.Lib.Search

set_option autoImplicit false

namespace Hstr.Config

open Lib.Search Hstr.Strings Hstr.Box

variable {R : Type}

/-! ## Keywords -/

/-- The keywords `HSTR_CONFIG_...`. -/
inductive Keyword
  | THEME_MONOCHROMATIC
  | THEME_HICOLOR
  | STATIC_FAVORITES
  | SKIP_FAVORITES_COMMENTS
  | FAVORITES
  | SORTING
  | CASE
  | REGEXP
  | SUBSTRING
  | KEYWORDS
  | NO_CONFIRM
  | VERBOSE_KILL
  | PROMPT_BOTTOM
  | HELP_ON_OPPOSITE_SIDE
  | HIDE_BASIC_HELP
  | HIDE_HELP
  | BLACKLIST
  | KEEP_PAGE
  | DEBUG
  | WARN
  | BIG_KEYS_SKIP
  | BIG_KEYS_FLOOR
  | BIG_KEYS_EXIT
  | DUPLICATES
  deriving DecidableEq

def Keyword.name : Keyword → CString
  | .THEME_MONOCHROMATIC => lit "monochromatic"
  | .THEME_HICOLOR => lit "hicolor"
  | .STATIC_FAVORITES => lit "static-favorites"
  | .SKIP_FAVORITES_COMMENTS => lit "skip-favorites-comments"
  | .FAVORITES => lit "favorites-view"
  | .SORTING => lit "raw-history-view"
  | .CASE => lit "case-sensitive"
  | .REGEXP => lit "regexp-matching"
  | .SUBSTRING => lit "substring-matching"
  | .KEYWORDS => lit "keywords-matching"
  | .NO_CONFIRM => lit "no-confirm"
  | .VERBOSE_KILL => lit "verbose-kill"
  | .PROMPT_BOTTOM => lit "prompt-bottom"
  | .HELP_ON_OPPOSITE_SIDE => lit "help-on-opposite-side"
  | .HIDE_BASIC_HELP => lit "hide-basic-help"
  | .HIDE_HELP => lit "hide-help"
  | .BLACKLIST => lit "blacklist"
  | .KEEP_PAGE => lit "keep-page"
  | .DEBUG => lit "debug"
  | .WARN => lit "warning"
  | .BIG_KEYS_SKIP => lit "big-keys-skip"
  | .BIG_KEYS_FLOOR => lit "big-keys-floor"
  | .BIG_KEYS_EXIT => lit "big-keys-exit"
  | .DUPLICATES => lit "duplicates"

def Keyword.all : List Keyword :=
  [.THEME_MONOCHROMATIC, .THEME_HICOLOR, .STATIC_FAVORITES, .SKIP_FAVORITES_COMMENTS, .FAVORITES,
    .SORTING, .CASE, .REGEXP, .SUBSTRING, .KEYWORDS, .NO_CONFIRM, .VERBOSE_KILL, .PROMPT_BOTTOM,
    .HELP_ON_OPPOSITE_SIDE, .HIDE_BASIC_HELP, .HIDE_HELP, .BLACKLIST, .KEEP_PAGE, .DEBUG, .WARN,
    .BIG_KEYS_SKIP, .BIG_KEYS_FLOOR, .BIG_KEYS_EXIT, .DUPLICATES]

theorem Keyword.mem_all (k : Keyword) : k ∈ Keyword.all := by
  cases k <;> decide

/-- The separator `','`. -/
def COMMA : Byte := 44

/-- No keyword occurs in another one. -/
theorem configHas_name (k k' : Keyword) : configHas k'.name k.name = decide (k' = k) := by
  have hall : ∀ k ∈ Keyword.all, ∀ k' ∈ Keyword.all,
      configHas k'.name k.name = decide (k' = k) := by
    decide +kernel
  exact hall k k.mem_all k' k'.mem_all

theorem comma_not_mem_name (k : Keyword) : COMMA ∉ k.name.bytes := by
  cases k <;> decide

/-! ## The list -/

/-- Values with commas between them. -/
def joined : List CString → CString
  | [] => empty
  | [v] => v
  | v :: w :: vs => append v (append (lit ",") (joined (w :: vs)))

theorem configHas_iff {hstr_config keyword : CString} :
    configHas hstr_config keyword = true ↔ keyword.bytes <:+: hstr_config.bytes :=
  firstOccurrence_isSome_iff

/-- A keyword occurs in a list where it occurs in one of the values. -/
theorem configHas_joined {keyword : CString} (hcomma : COMMA ∉ keyword.bytes)
    (hne : keyword.bytes ≠ []) (vs : List CString) :
    configHas (joined vs) keyword = true ↔ ∃ v ∈ vs, configHas v keyword = true := by
  induction vs using joined.induct with
  | case1 =>
      rw [joined, configHas_iff]
      constructor
      · exact fun h => absurd (List.infix_nil.mp h) hne
      · rintro ⟨v, hv, -⟩
        cases hv
  | case2 v => simp only [joined, List.mem_singleton, exists_eq_left]
  | case3 v w vs ih =>
      have hbytes : (joined (v :: w :: vs)).bytes = v.bytes ++ COMMA :: (joined (w :: vs)).bytes :=
        rfl
      rw [configHas_iff, hbytes, infix_append_cons_iff hcomma, ← configHas_iff, ← configHas_iff, ih]
      simp only [List.mem_cons, exists_eq_or_imp]

/-! ## The configuration -/

/-- The configuration, by the options that are on. -/
def configured (hstr : Hstr R) (on : Keyword → Bool) : Hstr R :=
  recalculate_max_history_items (-1) { hstr with
    theme :=
      if on .THEME_MONOCHROMATIC then .MONO else if on .THEME_HICOLOR then .DARK else hstr.theme
    caseSensitive := if on .CASE then HSTR_CASE_SENSITIVE else hstr.caseSensitive
    matching :=
      if on .REGEXP then .REGEXP
      else if on .SUBSTRING then .SUBSTRING
      else if on .KEYWORDS then .KEYWORDS
      else hstr.matching
    view := if on .SORTING then .HISTORY else if on .FAVORITES then .FAVORITES else hstr.view
    bigKeys := if on .BIG_KEYS_EXIT then .EXIT else if on .BIG_KEYS_FLOOR then .FLOOR else .SKIP
    verboseKill := on .VERBOSE_KILL || hstr.verboseKill
    blacklist := { hstr.blacklist with useFile := on .BLACKLIST || hstr.blacklist.useFile }
    keepPage := on .KEEP_PAGE || hstr.keepPage
    noConfirm := on .NO_CONFIRM || hstr.noConfirm
    favorites := { hstr.favorites with
      reorderOnChoice := !on .STATIC_FAVORITES && hstr.favorites.reorderOnChoice
      skipComments := on .SKIP_FAVORITES_COMMENTS || hstr.favorites.skipComments }
    debugLevel := if on .DEBUG then .DEBUG else if on .WARN then .WARN else hstr.debugLevel
    noRawHistoryDuplicates := !on .DUPLICATES && hstr.noRawHistoryDuplicates
    promptBottom := on .PROMPT_BOTTOM
    helpOnOppositeSide := on .HELP_ON_OPPOSITE_SIDE
    hideBasicHelp := on .HIDE_HELP || on .HIDE_BASIC_HELP
    hideHistoryHelp := on .HIDE_HELP }

/-- **The configuration is a set of options**: a list of keywords turns on those
that are in it, and no others. -/
theorem configuration_of_keywords (hstr : Hstr R) {ks : List Keyword} (hne : ks ≠ []) :
    hstr_get_env_configuration hstr (some (joined (ks.map Keyword.name)))
      = configured hstr fun k => decide (k ∈ ks) := by
  have hnames : ∀ k : Keyword, k.name.bytes ≠ [] := by
    intro k
    cases k <;> decide
  have hhas : ∀ k, configHas (joined (ks.map Keyword.name)) k.name = decide (k ∈ ks) := by
    intro k
    rw [Bool.eq_iff_iff, configHas_joined (comma_not_mem_name k) (hnames k), decide_eq_true_eq]
    constructor
    · rintro ⟨v, hv, hk⟩
      obtain ⟨k', hk', rfl⟩ := List.mem_map.mp hv
      rw [configHas_name, decide_eq_true_eq] at hk
      exact hk ▸ hk'
    · intro hk
      refine ⟨k.name, List.mem_map_of_mem hk, ?_⟩
      rw [configHas_name]
      exact decide_eq_true rfl
  obtain ⟨k, hk⟩ := List.exists_mem_of_ne_nil ks hne
  have hpos : strlen (joined (ks.map Keyword.name)) > 0 := by
    have hinfix := configHas_iff.mp ((hhas k).trans (decide_eq_true hk))
    exact Nat.lt_of_lt_of_le (List.length_pos_of_ne_nil (hnames k)) hinfix.length_le
  unfold hstr_get_env_configuration configured
  simp only [← hhas]
  exact if_pos hpos

/-- Three keywords, one of them twice. -/
theorem configuration_of_keywords_three :
    hstr_get_env_configuration (zeroed : Hstr Unit)
        (some (joined ([Keyword.REGEXP, .HIDE_BASIC_HELP, .REGEXP, .DUPLICATES].map Keyword.name)))
      = configured zeroed
          fun k => decide (k ∈ [Keyword.REGEXP, .HIDE_BASIC_HELP, .REGEXP, .DUPLICATES]) :=
  configuration_of_keywords zeroed (by decide)

end Hstr.Config
