/-
Every row in its place, in every state of the loop.

What one function prints on its rows is told by one lemma each; a key prints with
several of them, and what is left in the end is what belongs there. The label alone
may be behind: at the top of the screen it is not printed again with the selection,
and the key that adds a favorite prints no label. One key breaks the prompt: a byte
that completes a character too wide for its row takes the bytes before it out of the
pattern, and a prompt at the top is not printed again.
-/
import Hstr.ItemRows

set_option autoImplicit false

namespace Hstr.InPlace

open Lib.Runs Hstr.Strings Hstr.Utils Hstr.History Hstr.Favorites Hstr.Selection Hstr.Columns
open Hstr.Box Hstr.Loop Hstr.Layout Hstr.Notification Hstr.Screen Hstr.LineEditor Hstr.Window
open Hstr.Painting Hstr.Display Hstr.Session Hstr.Stores Hstr.ItemRows
open Hstr.Labels (historyLabel)

variable {R : Type}

/-! ## What belongs on the rows -/

/-- The label is that of the state; at the top of the screen the number of favorites
may be an old one. -/
def Labelled (hstr : Hstr R) (history : HistoryItems) (c : RowContent) : Prop :=
  if labelsAreOnBottom hstr then c = .label (historyLabel hstr history)
  else ∃ favorites, c = .label (historyLabel { hstr with favorites } history)

/-- What belongs on the rows for the prompt and the labels; a notification stays until
the next key. -/
def expected (s : LoopState R) (hideNotificationOnNextTick : Bool) : Expected where
  prompt c := c = .prompt s.pattern
  help c := c = .help ∨ hideNotificationOnNextTick = true ∧ ∃ text, c = .notification text
  label := Labelled s.hstr s.history

theorem labelled_fresh (hstr : Hstr R) (history : HistoryItems) :
    Labelled hstr history (.label (historyLabel hstr history)) := by
  unfold Labelled
  split
  · rfl
  · exact ⟨hstr.favorites, rfl⟩

/-- Two states with the same label, but for the numbers of lines. -/
structure SameSummary (h h' : Hstr R) : Prop where
  view : h'.view = h.view
  matching : h'.matching = h.matching
  caseSensitive : h'.caseSensitive = h.caseSensitive

theorem historyLabel_congr {h h' : Hstr R} (hsame : SameSummary h h')
    (hfavorites : h'.favorites = h.favorites) (history : HistoryItems) :
    historyLabel h' history = historyLabel h history := by
  unfold historyLabel
  rw [hsame.view, hsame.matching, hsame.caseSensitive, hfavorites]

theorem sameSummary_recalculate (n : ℤ) (hstr : Hstr R) :
    SameSummary hstr (recalculate_max_history_items n hstr) :=
  ⟨recalculate_view n hstr, recalculate_matching n hstr, recalculate_caseSensitive n hstr⟩

theorem sameSummary_reprint (env : Env R) (s : LoopState R) :
    SameSummary s.hstr (reprint env s).hstr := by
  have h := sameSummary_recalculate s.maxy (hstr_make_selection env.lib s.hstr (some s.pattern)
    s.history (toUnsigned s.maxHistoryItems))
  exact ⟨h.view, h.matching, h.caseSensitive⟩

/-- The label at the top stays right, whatever happens to the favorites. -/
theorem labelled_of_sameSummary {h h' : Hstr R} (hsame : SameSummary h h')
    (hbottom : labelsAreOnBottom h' = labelsAreOnBottom h) {history : HistoryItems} {c : RowContent}
    (hc : if labelsAreOnBottom h' then c = .label (historyLabel h' history)
      else Labelled h history c) : Labelled h' history c := by
  unfold Labelled
  split at hc
  · next hbelow =>
      rw [if_pos hbelow]
      exact hc
  · next habove =>
      rw [Labelled, ← hbottom, if_neg habove] at hc
      rw [if_neg habove]
      obtain ⟨favorites, rfl⟩ := hc
      have hsame' : SameSummary { h' with favorites } { h with favorites } :=
        ⟨hsame.view.symm, hsame.matching.symm, hsame.caseSensitive.symm⟩
      exact ⟨favorites, congrArg RowContent.label (historyLabel_congr hsame' rfl history)⟩

theorem Labelled.recalculate {hstr : Hstr R} {history : HistoryItems} {c : RowContent}
    (h : Labelled hstr history c) (n : ℤ) :
    Labelled (recalculate_max_history_items n hstr) history c := by
  have hbottom := (sameLayout_recalculate n hstr).labelsAreOnBottom
  apply labelled_of_sameSummary (sameSummary_recalculate n hstr) hbottom
  split
  · next hbelow =>
      rw [hbottom] at hbelow
      rw [Labelled, if_pos hbelow] at h
      rw [historyLabel_congr (sameSummary_recalculate n hstr) (recalculate_favorites n hstr)]
      exact h
  · exact h

/-! ## A round -/

/-- The state of a round between two prints. -/
structure Steady (config : Hstr R) (s : LoopState R) (x : Expected) (rows : RowMap) : Prop where
  painted : Painted s
  same : SameLayout config s.hstr
  laidOut : PlacesOf s.maxy config (places s.hstr)
  shown : Shown (places s.hstr) s.screen x rows

section Round

variable {config : Hstr R} {env : Env R} {x : Expected} {rows : RowMap}

theorem Steady.apart {s : LoopState R} (h : Steady config s x rows)
    (hbasic : config.hideBasicHelp = false) : (places s.hstr).Apart :=
  h.laidOut.apart hbasic h.painted.placed.height.1

theorem Steady.basic {s : LoopState R} (h : Steady config s x rows)
    (hbasic : config.hideBasicHelp = false) : s.hstr.hideBasicHelp = false :=
  h.same.hideBasicHelp.trans hbasic

/-- The same layout at other places of memory. -/
theorem shown_relaid {n : ℤ} {p p' : Places} {screen : ℤ → Option SelectionRow}
    (h : Shown p screen x rows) (hp : PlacesOf n config p) (hp' : PlacesOf n config p') :
    Shown p' screen x rows := by
  have hstart : p'.promptYItemsStart = p.promptYItemsStart :=
    hp'.promptYItemsStart.trans hp.promptYItemsStart.symm
  have hend : p'.promptYItemsEnd = p.promptYItemsEnd :=
    hp'.promptYItemsEnd.trans hp.promptYItemsEnd.symm
  have hitems : p'.OnItems = p.OnItems := by
    unfold Places.OnItems
    rw [hstart, hend]
  refine ⟨?_, h.item, ?_, ?_, ?_, fun hhide => ?_⟩
  · rw [hitems]
    exact h.within
  · rw [hitems]
    exact h.blank
  · rw [hp'.promptY, ← hp.promptY]
    exact h.prompt
  · rw [hp'.promptYHelp, ← hp.promptYHelp]
    exact h.help
  · have hhistory := hp'.hideHistoryHelp.symm.trans hhide
    rw [hp'.promptYHistory hhistory, ← hp.promptYHistory hhistory]
    exact h.label (hp.hideHistoryHelp.trans hhistory)

/-- Laying out again for the same height moves nothing. -/
theorem Steady.recalculated {s : LoopState R} (h : Steady config s x rows)
    (hbasic : config.hideBasicHelp = false) : Steady config (recalculate s) x rows := by
  have hplaces := placesOf_recalculate s.maxy h.same hbasic
  exact ⟨h.painted.recalculate, h.same.trans (sameLayout_recalculate s.maxy s.hstr), hplaces,
    shown_relaid h.shown h.laidOut hplaces⟩

/-- The selection is printed for a state that differs in the query, the stores or the
height. -/
theorem Steady.reprinted {s t : LoopState R} (h : Steady config s x rows)
    (hbasic : config.hideBasicHelp = false) (hn : 3 ≤ t.maxy ∧ t.maxy < 2 ^ 31)
    (hscreen : t.screen = s.screen) (hsame : SameLayout config t.hstr)
    (hfits : 0 ≤ columnsLeft env t.pattern t.maxx) :
    PlacesOf t.maxy config (places (reprint env t).hstr)
      ∧ Shown (places (reprint env t).hstr) (reprint env t).screen
        (x.printed (reprint env t).hstr t.history (some t.pattern))
        (hstr_print_selection env t (some t.pattern) rows) := by
  have hselected : SameLayout config (hstr_make_selection env.lib t.hstr (some t.pattern) t.history
      (toUnsigned t.maxHistoryItems)) :=
    ⟨hsame.promptBottom, hsame.helpOnOppositeSide, hsame.hideBasicHelp, hsame.hideHistoryHelp⟩
  have habove : ∀ y < itemsStart t.hstr, t.screen y = none := by
    rw [hsame.itemsStart, ← h.same.itemsStart, hscreen]
    exact h.painted.above
  have hpattern : ∀ p, some t.pattern = some p → 0 ≤ columnsLeft env p t.maxx :=
    fun p hp => Option.some.inj hp ▸ hfits
  exact ⟨placesOf_recalculate t.maxy hselected hbasic,
    h.shown.selection_printed h.laidOut hbasic env hsame hn habove hpattern⟩

/-- The prompt at the top has to show the pattern already. -/
theorem Steady.printed {s t : LoopState R} (h : Steady config s x rows)
    (hbasic : config.hideBasicHelp = false) (hn : 3 ≤ t.maxy ∧ t.maxy < 2 ^ 31)
    (hscreen : t.screen = s.screen) (hsame : SameLayout config t.hstr)
    (hfits : 0 ≤ columnsLeft env t.pattern t.maxx)
    (hprompt : t.hstr.promptBottom = false → ∀ c, x.prompt c → c = .prompt t.pattern)
    (hhelp : x.help .help) :
    PlacesOf t.maxy config (places (reprint env t).hstr)
      ∧ Shown (places (reprint env t).hstr) (reprint env t).screen
        { prompt := fun c => c = .prompt t.pattern
          help := x.help
          label := (x.printed (reprint env t).hstr t.history (some t.pattern)).label }
        (hstr_print_selection env t (some t.pattern) rows) := by
  obtain ⟨hplaces, hprinted⟩ := h.reprinted hbasic hn hscreen hsame hfits
  have hbottom : (reprint env t).hstr.promptBottom = t.hstr.promptBottom :=
    recalculate_promptBottom t.maxy _
  refine ⟨hplaces, hprinted.mono ?_ ?_ fun _ hc => hc⟩
  · intro c hc
    simp only [Expected.printed, Option.getD_some] at hc
    split at hc
    · exact hc
    · next htop => exact hprompt (hbottom.symm.trans (Bool.eq_false_iff.mpr htop)) c hc
  · intro c hc
    simp only [Expected.printed] at hc
    split at hc
    · exact hc ▸ hhelp
    · exact hc

/-- The end of a round. -/
structure Settled (config : Hstr R) (s : LoopState R) (hide : Bool) (rows : RowMap) : Prop where
  laidOut : PlacesOf s.maxy config (places s.hstr)
  shown : Shown (places s.hstr) s.screen (expected s hide) rows

/-- A key that prints nothing. -/
theorem Steady.settled {s t : LoopState R} (h : Steady config s (expected s false) rows)
    (hmaxy : t.maxy = s.maxy) (hhstr : t.hstr = s.hstr) (hhistory : t.history = s.history)
    (hscreen : t.screen = s.screen) (hpattern : t.pattern = s.pattern) :
    Settled config t false rows := by
  have hexpected : expected t false = expected s false := by
    unfold expected
    rw [hpattern, hhstr, hhistory]
  refine ⟨?_, ?_⟩
  · rw [hmaxy, hhstr]
    exact h.laidOut
  · rw [hhstr, hscreen, hexpected]
    exact h.shown

theorem shown_printPatternIfFree (env : Env R) {s : LoopState R}
    {screen : ℤ → Option SelectionRow} (h : Shown (places s.hstr) screen x rows)
    (hp : (places s.hstr).Apart) (hfits : 0 ≤ columnsLeft env s.pattern s.maxx)
    (hprompt : ∀ c, x.prompt c → c = .prompt s.pattern) :
    Shown (places s.hstr) screen { x with prompt := fun c => c = .prompt s.pattern }
      (printPatternIfFree env s rows) := by
  have hrow : rows s.hstr.promptY = .prompt s.pattern := hprompt _ h.prompt
  unfold printPatternIfFree
  split
  · exact h.pattern_printed hp env hfits ⟨s.pattern, hrow⟩
  · exact ⟨h.within, h.item, h.blank, hrow, h.help, h.label⟩

/-- The keys that change the query. -/
theorem Steady.settled_printQuery {s t : LoopState R} (h : Steady config s (expected s false) rows)
    (hbasic : config.hideBasicHelp = false) (hmaxy : t.maxy = s.maxy)
    (hscreen : t.screen = s.screen) (hsame : SameLayout config t.hstr)
    (hpattern : t.pattern = s.pattern)
    (hfits : 0 ≤ columnsLeft env t.pattern t.maxx) :
    Settled config { reprint env t with selectionCursorPosition := SELECTION_CURSOR_IN_PROMPT }
      false (printQuery env t rows) := by
  obtain ⟨hplaces, hprinted⟩ := h.printed hbasic (hmaxy ▸ h.painted.placed.height) hscreen hsame
    hfits (fun _ c hc => hpattern ▸ hc) (Or.inl rfl)
  have hp : (places (reprint env t).hstr).Apart :=
    hplaces.apart hbasic (hmaxy ▸ h.painted.placed.height.1)
  have hshown := shown_printPatternIfFree env (s := reprint env t)
    (hprinted.label_printed hp t.history) hp hfits fun _ hc => hc
  refine ⟨hplaces, hshown.mono (fun _ hc => hc) (fun _ hc => hc) ?_⟩
  rintro c rfl
  exact labelled_fresh _ _

/-- The keys that change the pattern, and the one for favorites, print no label. -/
theorem Steady.settled_reprint {s t : LoopState R} (h : Steady config s x rows) (env : Env R)
    (hbasic : config.hideBasicHelp = false) (hmaxy : t.maxy = s.maxy)
    (hscreen : t.screen = s.screen) (hsame : SameLayout config t.hstr)
    (hsummary : SameSummary s.hstr t.hstr)
    (hfits : 0 ≤ columnsLeft env t.pattern t.maxx)
    (hprompt : t.hstr.promptBottom = false → ∀ c, x.prompt c → c = .prompt t.pattern)
    (hhelp : ∀ c, x.help c ↔ c = .help) (hlabel : x.label = Labelled s.hstr t.history) :
    Settled config (reprint env t) false (hstr_print_selection env t (some t.pattern) rows) := by
  obtain ⟨hplaces, hprinted⟩ := h.printed hbasic (hmaxy ▸ h.painted.placed.height) hscreen hsame
    hfits hprompt ((hhelp .help).mpr rfl)
  have hreprint := sameSummary_reprint env t
  have hsummary' : SameSummary s.hstr (reprint env t).hstr :=
    ⟨hreprint.view.trans hsummary.view, hreprint.matching.trans hsummary.matching,
      hreprint.caseSensitive.trans hsummary.caseSensitive⟩
  have hkeep : labelsAreOnBottom (reprint env t).hstr = labelsAreOnBottom t.hstr :=
    (sameLayout_recalculate t.maxy (hstr_make_selection env.lib t.hstr (some t.pattern) t.history
      (toUnsigned t.maxHistoryItems))).labelsAreOnBottom
  have hbottom : labelsAreOnBottom (reprint env t).hstr = labelsAreOnBottom s.hstr :=
    hkeep.trans (hsame.labelsAreOnBottom.trans h.same.labelsAreOnBottom.symm)
  refine ⟨hplaces, hprinted.mono (fun _ hc => hc) (fun c hc => Or.inl ((hhelp c).mp hc))
    fun c hc => ?_⟩
  simp only [Expected.printed, hlabel] at hc
  exact labelled_of_sameSummary hsummary' hbottom hc

theorem Steady.settled_addFavorite {s : LoopState R} (h : Steady config s (expected s false) rows)
    (hbasic : config.hideBasicHelp = false) (hfits : 0 ≤ columnsLeft env s.pattern s.maxx) :
    Settled config (Loop.addFavorite env s) (Window.addFavorite env s rows).2
      (Window.addFavorite env s rows).1 := by
  unfold Loop.addFavorite Window.addFavorite
  cases getResultFromSelection s.hstr s.selectionCursorPosition with
  | none => exact h.settled rfl rfl rfl rfl rfl
  | some favorite =>
      simp only
      generalize (if s.hstr.view = .FAVORITES then
        favorites_choose s.hstr.favorites s.favoritesFile (some favorite)
        else favorites_add s.hstr.favorites s.favoritesFile (some favorite)) = changed
      obtain ⟨favorites, file⟩ := changed
      simp only
      generalize ht : ({ s with
        hstr := { s.hstr with favorites }, favoritesFile := file } : LoopState R) = t
      have hsame : SameLayout config t.hstr := by
        rw [← ht]
        exact ⟨h.same.promptBottom, h.same.helpOnOppositeSide, h.same.hideBasicHelp,
          h.same.hideHistoryHelp⟩
      have hsummary : SameSummary s.hstr t.hstr := by
        rw [← ht]
        exact ⟨rfl, rfl, rfl⟩
      have hpattern : t.pattern = s.pattern := by rw [← ht]
      have hhistory : t.history = s.history := by rw [← ht]
      have hmaxy : t.maxy = s.maxy := by rw [← ht]
      have hscreen : t.screen = s.screen := by rw [← ht]
      have hmaxx : t.maxx = s.maxx := by rw [← ht]
      rw [← hpattern, ← hmaxx] at hfits
      rw [← hpattern]
      have hsettled := h.settled_reprint env hbasic hmaxy hscreen hsame hsummary hfits
        (fun _ c hc => hpattern ▸ hc) (fun c => by simp [expected]) (by rw [hhistory]; rfl)
      have hp : (places (reprint env t).hstr).Apart :=
        hsettled.laidOut.apart hbasic (hmaxy ▸ h.painted.placed.height.1)
      refine ⟨hsettled.laidOut, ?_⟩
      by_cases hadded : (reprint env t).hstr.view ≠ .FAVORITES
      · rw [if_pos hadded, decide_eq_true hadded]
        have hshown := shown_printPatternIfFree env (hsettled.shown.notification_printed hp
          (print_cmd_added_favorite_label (reprint env t).hstr (reprint env t).maxx.toNat favorite)
          rfl) hp hfits fun _ hc => hc
        exact hshown.mono (fun _ hc => hc) (fun c hc => Or.inr ⟨rfl, _, hc⟩) fun _ hc => hc
      · rw [if_neg hadded, decide_eq_false hadded]
        exact shown_printPatternIfFree env hsettled.shown hp hfits fun _ hc => hc

/-- A cursor with an item is on a row for items. -/
theorem onItems_cursor {hstr : Hstr R} {cursor : ℤ} {text : CString}
    (hend : hstr.promptYItemsEnd = hstr.promptYItemsStart + hstr.promptItems - 1)
    (hcursor : CursorPlaced hstr cursor) (htext : getResultFromSelection hstr cursor = some text) :
    (places hstr).OnItems (hstr.promptYItemsStart + cursor) := by
  rcases hcursor with rfl | ⟨h0, hfirst, hlast⟩
  · rw [Highlight.getResultFromSelection_prompt] at htext
    cases htext
  · show hstr.promptYItemsStart ≤ hstr.promptYItemsStart + cursor
      ∧ hstr.promptYItemsStart + cursor ≤ hstr.promptYItemsEnd
    split at hfirst <;> split at hlast <;> omega

/-- **The cursor moves on both screens.** -/
theorem shown_highlight_selection {s : LoopState R}
    (h : Shown (places s.hstr) s.screen x rows) (hp : (places s.hstr).Apart)
    (hend : s.hstr.promptYItemsEnd = s.hstr.promptYItemsStart + s.hstr.promptItems - 1)
    {cursor previous : ℤ} (hcursor : CursorPlaced s.hstr cursor)
    (hprevious : CursorPlaced s.hstr previous) :
    Shown (places s.hstr) (Loop.highlight_selection s cursor previous).screen x
      (Window.highlight_selection s cursor previous rows) := by
  unfold Loop.highlight_selection Window.highlight_selection
  simp only
  -- the old row first, then the new one
  cases hold : getResultFromSelection s.hstr previous with
  | none =>
      cases hnew : getResultFromSelection s.hstr cursor with
      | none => exact h
      | some text => exact h.update_item hp (onItems_cursor hend hcursor hnew) ⟨text, true⟩
  | some old =>
      have hfirst := h.update_item hp (onItems_cursor hend hprevious hold) ⟨old, false⟩
      cases hnew : getResultFromSelection s.hstr cursor with
      | none => exact hfirst
      | some text => exact hfirst.update_item hp (onItems_cursor hend hcursor hnew) ⟨text, true⟩

theorem Steady.settled_move {s : LoopState R} (h : Steady config s (expected s false) rows)
    (hbasic : config.hideBasicHelp = false) {cursor : ℤ} (hcursor : CursorPlaced s.hstr cursor) :
    Settled config
      (Loop.highlight_selection { s with selectionCursorPosition := cursor } cursor
        s.selectionCursorPosition) false
      (Window.highlight_selection s cursor s.selectionCursorPosition rows) :=
  ⟨h.laidOut, shown_highlight_selection h.shown (h.apart hbasic) h.painted.placed.promptYItemsEnd
    hcursor h.painted.cursor⟩

/-- The question, where it is asked. -/
theorem shown_printQuestion {s : LoopState R} (h : Shown (places s.hstr) s.screen x rows)
    (hp : (places s.hstr).Apart) (msg : CString) :
    Shown (places s.hstr) s.screen { x with help := fun _ => True }
      (printQuestion s msg rows) := by
  unfold printQuestion
  split
  · exact h.mono (fun _ hc => hc) (fun _ _ => trivial) fun _ hc => hc
  · exact (h.notification_printed hp (print_confirm_delete s.hstr s.maxx.toNat msg)
      rfl).mono (fun _ hc => hc) (fun _ _ => trivial) fun _ hc => hc

/-- The answer takes the question away. -/
theorem Steady.printDeleted {s : LoopState R} (h : Steady config s x rows)
    (hbasic : config.hideBasicHelp = false) (hfits : 0 ≤ columnsLeft env s.pattern s.maxx)
    (hprompt : ∀ c, x.prompt c → c = .prompt s.pattern) (hhelp : x.help .help) (e : Event)
    (msg : CString) :
    PlacesOf s.maxy config (places (deleteConfirmed env s e msg).hstr)
      ∧ Shown (places (deleteConfirmed env s e msg).hstr) (deleteConfirmed env s e msg).screen
        { prompt := fun c => c = .prompt s.pattern
          help := fun c => c = .help ∨ ∃ text, c = .notification text
          label := fun _ => True }
        (printDeleted env s e msg rows) := by
  unfold deleteConfirmed Window.printDeleted
  by_cases hyes : s.hstr.noConfirm ∨ e.cc = 121
  · rw [if_pos hyes, if_pos hyes]
    obtain ⟨hscreen, -⟩ := Highlight.shown_remove env s msg e.beyond
    have hmaxy : (remove_from_history_model env s msg e.beyond).1.maxy = s.maxy := by
      unfold remove_from_history_model
      split <;> rfl
    have hpattern : (remove_from_history_model env s msg e.beyond).1.pattern = s.pattern := by
      unfold remove_from_history_model
      split <;> rfl
    have hsame : SameLayout config (remove_from_history_model env s msg e.beyond).1.hstr := by
      unfold remove_from_history_model
      split
      · exact ⟨h.same.promptBottom, h.same.helpOnOppositeSide, h.same.hideBasicHelp,
          h.same.hideHistoryHelp⟩
      · exact h.same
    rw [← hpattern, ← maxx_remove env s msg e.beyond] at hfits
    obtain ⟨hplaces, hprinted⟩ := h.printed hbasic (hmaxy ▸ h.painted.placed.height) hscreen hsame
      hfits (fun _ c hc => hpattern ▸ hprompt c hc) hhelp
    have hp := hplaces.apart hbasic (hmaxy ▸ h.painted.placed.height.1)
    refine ⟨hmaxy ▸ hplaces, ?_⟩
    have hshown := hprinted.notification_printed hp
      (print_cmd_deleted_label (reprint env (remove_from_history_model env s msg e.beyond).1).hstr
        (reprint env (remove_from_history_model env s msg e.beyond).1).maxx.toNat msg
        (remove_from_history_model env s msg e.beyond).2) rfl
    exact hshown.mono (fun c hc => hpattern ▸ hc) (fun c hc => Or.inr ⟨_, hc⟩) fun _ _ => trivial
  · rw [if_neg hyes, if_neg hyes]
    refine ⟨h.laidOut, ?_⟩
    exact (h.shown.notification_hidden (h.apart hbasic) (h.basic hbasic) s.history).mono hprompt
      (fun c hc => Or.inl hc) fun _ _ => trivial

theorem Steady.settled_deleteItem {s : LoopState R} (h : Steady config s (expected s false) rows)
    (hbasic : config.hideBasicHelp = false) (hfits : 0 ≤ columnsLeft env s.pattern s.maxx)
    {e : Event} (hrows : e.cc = KEY_RESIZE → e.rows = s.maxy)
    (hcolumns : e.cc = KEY_RESIZE → e.columns = s.maxx) :
    Settled config (Loop.deleteItem env s e) (Window.deleteItem env s e rows).2
      (Window.deleteItem env s e rows).1 := by
  unfold Loop.deleteItem Window.deleteItem
  cases getResultFromSelection s.hstr s.selectionCursorPosition with
  | none => exact h.settled rfl rfl rfl rfl rfl
  | some msg =>
      simp only [confirmDelete_of_kept hrows hcolumns]
      generalize ht : ({ s with almostDead := some msg } : LoopState R) = t
      have hsteady : Steady config t { expected s false with help := fun _ => True }
          (printQuestion s msg rows) := by
        rw [← ht]
        exact ⟨h.painted.of_same rfl rfl rfl h.painted.cursor, h.same, h.laidOut,
          shown_printQuestion h.shown (h.apart hbasic) msg⟩
      have hpattern : t.pattern = s.pattern := by rw [← ht]
      have hmaxy : t.maxy = s.maxy := by rw [← ht]
      have hmaxx : t.maxx = s.maxx := by rw [← ht]
      rw [← hpattern, ← hmaxx] at hfits
      obtain ⟨hplaces, hdeleted⟩ := hsteady.printDeleted hbasic hfits
        (fun c hc => hpattern ▸ hc) trivial e msg
      obtain ⟨hend, hkept, hmaxy'⟩ : (deleteConfirmed env t e msg).hstr.promptYItemsEnd
            = (deleteConfirmed env t e msg).hstr.promptYItemsStart
              + (deleteConfirmed env t e msg).hstr.promptItems - 1
          ∧ (deleteConfirmed env t e msg).pattern = t.pattern
          ∧ (deleteConfirmed env t e msg).maxy = t.maxy := by
        unfold deleteConfirmed
        split
        · refine ⟨(rows_recalculate _ _).promptYItemsEnd, ?_, ?_⟩ <;>
            · unfold remove_from_history_model
              split <;> rfl
        · exact ⟨hsteady.painted.placed.promptYItemsEnd, rfl, rfl⟩
      have hp := hplaces.apart hbasic (hmaxy ▸ h.painted.placed.height.1)
      generalize deleteConfirmed env t e msg = u at *
      have hlabel := hdeleted.label_printed hp u.history
      have hmoved := shown_highlight_selection (s := { u with
          selectionCursorPosition := selection_cursor_move u.hstr u.selectionCursorPosition 0 })
        hlabel hp hend (cursorPlaced_move u.hstr u.selectionCursorPosition 0) (Or.inl rfl)
      refine ⟨hmaxy' ▸ hplaces, hmoved.mono (fun c hc => ?_) (fun c hc => ?_) fun c hc => ?_⟩
      · exact hc.trans (congrArg RowContent.prompt hkept.symm)
      · exact hc.imp id fun htext => ⟨rfl, htext⟩
      · rw [hc]
        exact labelled_fresh u.hstr u.history

/-- A pattern that is printed, with the rows of a selection that is printed behind
it. -/
theorem Steady.pattern_printed {s : LoopState R} (h : Steady config s (expected s false) rows)
    (hbasic : config.hideBasicHelp = false) {pattern : CString}
    (hfits : 0 ≤ columnsLeft env pattern s.maxx) :
    Steady config s { expected s false with prompt := fun c => c = .prompt pattern }
      (print_pattern env s.maxx (some pattern) s.hstr.promptY rows) :=
  ⟨h.painted, h.same, h.laidOut,
    h.shown.pattern_printed (h.apart hbasic) env hfits ⟨s.pattern, h.shown.prompt⟩⟩

theorem Steady.settled_deleteCharacter {s : LoopState R}
    (h : Steady config s (expected s false) rows) (hbasic : config.hideBasicHelp = false)
    (hfits : 0 ≤ columnsLeft env (Loop.deleteCharacter env s).pattern s.maxx) :
    Settled config (Loop.deleteCharacter env s) false (Window.deleteCharacter env s rows) := by
  unfold Loop.deleteCharacter Window.deleteCharacter at *
  simp only at hfits ⊢
  generalize hchopped : (if strlen s.pattern > 0 then hstr_chop s.pattern else s.pattern) = chopped
    at *
  have hsteady : Steady config s { expected s false with prompt := fun c => c = .prompt chopped }
      (if strlen s.pattern > 0 then print_pattern env s.maxx (some chopped) s.hstr.promptY rows
      else rows) := by
    split
    · exact h.pattern_printed hbasic hfits
    · next hempty =>
        rw [if_neg hempty] at hchopped
        rw [← hchopped]
        exact h
  generalize ht : ({ s with
    pattern := chopped
    hstr := hstr_make_selection env.lib s.hstr (if strlen chopped > 0 then some chopped else none)
      s.history (toUnsigned s.maxHistoryItems) } : LoopState R) = t
  have hsame : SameLayout config t.hstr := by
    rw [← ht]
    exact ⟨h.same.promptBottom, h.same.helpOnOppositeSide, h.same.hideBasicHelp,
      h.same.hideHistoryHelp⟩
  have hsummary : SameSummary s.hstr t.hstr := by
    rw [← ht]
    exact ⟨rfl, rfl, rfl⟩
  have hpattern : t.pattern = chopped := by rw [← ht]
  have hmaxx : t.maxx = s.maxx := by rw [← ht]
  have hfits : 0 ≤ columnsLeft env chopped s.maxx := hfits
  rw [← hpattern, ← hmaxx] at hfits
  rw [← hpattern] at hsteady ⊢
  have hsettled := hsteady.settled_reprint env hbasic (by rw [← ht]) (by rw [← ht]) hsame
    hsummary hfits (fun _ _ hc => hc) (fun c => by simp [expected]) (by rw [← ht]; rfl)
  exact ⟨hsettled.laidOut, hsettled.shown⟩

/-- A byte that is not appended, but takes bytes of the pattern with it: with it a
character was complete, and too wide. -/
def TurnedDown (env : Env R) (pattern : CString) (c : ℤ) : Prop :=
  c > K_CTRL_Z
    ∧ (hstr_strcat_char_fitting env.locale pattern PATTERN_BUFFER_LNG c (promptColumns env)).2 = false
    ∧ (hstr_strcat_char_fitting env.locale pattern PATTERN_BUFFER_LNG c (promptColumns env)).1
      ≠ pattern

/-- A key that belongs to the pattern, unless the pattern at the top of the screen is
cut without being printed. -/
theorem Steady.settled_typeCharacter {s : LoopState R}
    (h : Steady config s (expected s false) rows) (hbasic : config.hideBasicHelp = false) {c : ℤ}
    (hfits : 0 ≤ columnsLeft env (Loop.typeCharacter env s c).pattern s.maxx)
    (hkept : s.hstr.promptBottom = false → ¬ TurnedDown env s.pattern c) :
    Settled config (Loop.typeCharacter env s c) false (Window.typeCharacter env s c rows) := by
  unfold Loop.typeCharacter Window.typeCharacter at *
  unfold TurnedDown promptColumns at hkept
  split
  · next htyped =>
      simp only [htyped, if_true, true_and, not_and, not_not] at hfits hkept ⊢
      generalize hstr_strcat_char_fitting env.locale s.pattern PATTERN_BUFFER_LNG c
        (env.width - env.basex - 1) = typed at *
      obtain ⟨pattern, appended⟩ := typed
      simp only at hfits hkept ⊢
      generalize ht : ({ s with
        selectionCursorPosition := SELECTION_CURSOR_IN_PROMPT, pattern := pattern }
          : LoopState R) = t
      have hsame : SameLayout config t.hstr := by
        rw [← ht]
        exact h.same
      have hpattern : t.pattern = pattern := by rw [← ht]
      have hmaxx : t.maxx = s.maxx := by rw [← ht]
      have hnext : 0 ≤ columnsLeft env pattern s.maxx := hfits
      have hsteady := h.pattern_printed hbasic hnext
      rw [← hpattern, ← hmaxx] at hnext
      cases appended with
      | true =>
          rw [← hpattern] at hsteady ⊢
          exact hsteady.settled_reprint env hbasic (by rw [← ht]) (by rw [← ht]) hsame
            (by rw [← ht]; exact ⟨rfl, rfl, rfl⟩) hnext (fun _ _ hc => hc)
            (fun c => by simp [expected]) (by rw [← ht]; rfl)
      | false =>
          rw [← hpattern]
          refine h.settled_reprint env hbasic (by rw [← ht]) (by rw [← ht]) hsame
            (by rw [← ht]; exact ⟨rfl, rfl, rfl⟩) hnext ?_ (fun c => by simp [expected])
            (by rw [← ht]; rfl)
          -- at the top the pattern is what it was
          intro htop c hc
          have hsamePattern : t.pattern = s.pattern := by
            rw [hpattern]
            apply hkept _ rfl
            rw [← htop, ← ht]
          exact hsamePattern ▸ hc
  · exact h.settled rfl rfl rfl rfl rfl

/-- A key that cuts the pattern at the top of the screen leaves there what it cuts. -/
theorem Steady.cut_typeCharacter {s : LoopState R} (h : Steady config s (expected s false) rows)
    (hbasic : config.hideBasicHelp = false) {c : ℤ} (htop : s.hstr.promptBottom = false)
    (hfits : 0 ≤ columnsLeft env (Loop.typeCharacter env s c).pattern s.maxx)
    (hcut : TurnedDown env s.pattern c) :
    Window.typeCharacter env s c rows (Loop.typeCharacter env s c).hstr.promptY = .prompt s.pattern
      ∧ (Loop.typeCharacter env s c).pattern ≠ s.pattern := by
  obtain ⟨htyped, hturned, hchanged⟩ := hcut
  unfold Loop.typeCharacter Window.typeCharacter at *
  unfold promptColumns at hturned hchanged
  simp only [htyped, if_true, hturned, Bool.false_eq_true, if_false] at hfits ⊢
  refine ⟨?_, hchanged⟩
  generalize ht : ({ s with
    selectionCursorPosition := SELECTION_CURSOR_IN_PROMPT
    pattern := (hstr_strcat_char_fitting env.locale s.pattern PATTERN_BUFFER_LNG c
      (env.width - env.basex - 1)).1 } : LoopState R) = t
  have hsame : SameLayout config t.hstr := by
    rw [← ht]
    exact h.same
  have hpattern : t.pattern = (hstr_strcat_char_fitting env.locale s.pattern PATTERN_BUFFER_LNG c
      (env.width - env.basex - 1)).1 := by rw [← ht]
  have hmaxx : t.maxx = s.maxx := by rw [← ht]
  have hnext : 0 ≤ columnsLeft env (hstr_strcat_char_fitting env.locale s.pattern
      PATTERN_BUFFER_LNG c (env.width - env.basex - 1)).1 s.maxx := hfits
  rw [← hpattern, ← hmaxx] at hnext
  rw [← hpattern]
  obtain ⟨-, hprinted⟩ := h.reprinted hbasic (by rw [← ht]; exact h.painted.placed.height)
    (by rw [← ht]) hsame hnext
  have hprompt := hprinted.prompt
  have hbottom : (reprint env t).hstr.promptBottom = false := by
    rw [← htop, ← ht]
    exact recalculate_promptBottom _ _
  simp only [Expected.printed, hbottom, Bool.false_eq_true, if_false] at hprompt
  exact hprompt

/-- The screen has another height: the label is printed on its old row, and everything
below the first row for items on its new one. -/
theorem Steady.settled_resize {s t : LoopState R} (h : Steady config s (expected s false) rows)
    (hbasic : config.hideBasicHelp = false) (hn : 3 ≤ t.maxy ∧ t.maxy < 2 ^ 31)
    (hscreen : t.screen = s.screen) (hsame : SameLayout config t.hstr)
    (hpattern : t.pattern = s.pattern) (hfits : 0 ≤ columnsLeft env t.pattern t.maxx) :
    Settled config { reprint env t with selectionCursorPosition := SELECTION_CURSOR_IN_PROMPT }
      false
      (print_history_label (reprint env t).hstr (reprint env t).history
        (hstr_print_selection env t (some t.pattern)
          (print_history_label s.hstr s.history rows))) := by
  have hlabel : Steady config s
      { expected s false with label := fun c => c = .label (historyLabel s.hstr s.history) }
      (print_history_label s.hstr s.history rows) :=
    ⟨h.painted, h.same, h.laidOut, h.shown.label_printed (h.apart hbasic) s.history⟩
  obtain ⟨hplaces, hprinted⟩ := hlabel.printed hbasic hn hscreen hsame hfits
    (fun _ c hc => hpattern ▸ hc) (Or.inl rfl)
  refine ⟨hplaces, (hprinted.label_printed (hplaces.apart hbasic hn.1) t.history).mono
    (fun _ hc => hc) (fun _ hc => hc) ?_⟩
  rintro c rfl
  exact labelled_fresh _ _

/-- A notification is hidden before the key is handled. -/
theorem Settled.steady {s : LoopState R} {hide : Bool} (h : Settled config s hide rows)
    (hbasic : config.hideBasicHelp = false) (hpainted : Painted s)
    (hsame : SameLayout config s.hstr) :
    Steady config (recalculate s) (expected (recalculate s) false)
      (if hide then
        hide_notification (recalculate s).hstr (recalculate s).history rows
      else rows) := by
  have hsteady : Steady config s (expected s hide) rows := ⟨hpainted, hsame, h.laidOut, h.shown⟩
  have hready := hsteady.recalculated hbasic
  refine ⟨hready.painted, hready.same, hready.laidOut, ?_⟩
  cases hide with
  | true =>
      exact (hready.shown.notification_hidden (hready.apart hbasic) (hready.basic hbasic)
        (recalculate s).history).mono (fun _ hc => hc) (fun _ hc => Or.inl hc)
          fun _ hc => hc.recalculate s.maxy
  | false =>
      exact hready.shown.mono (fun _ hc => hc) (fun _ hc => hc) fun _ hc => hc.recalculate s.maxy

/-- **What a key prints leaves everything in its place.** -/
theorem Steady.settled_handle {s : LoopState R} (h : Steady config s (expected s false) rows)
    (hbasic : config.hideBasicHelp = false) {e : Event} {c : ℤ} (hresize : keyCase c ≠ .KEY_RESIZE)
    (hrows : e.cc = KEY_RESIZE → e.rows = s.maxy)
    (hcolumns : e.cc = KEY_RESIZE → e.columns = s.maxx)
    (hfits : 0 ≤ columnsLeft env s.pattern s.maxx)
    (hnext : 0 ≤ columnsLeft env (Loop.handle env s e c).pattern s.maxx)
    (hkept : s.hstr.promptBottom = false → keyCase c = .default → ¬ TurnedDown env s.pattern c)
    (hdone : (Loop.handle env s e c).done = false) :
    Settled config (Loop.handle env s e c) (Window.handle env s e c rows).2
      (Window.handle env s e c rows).1 := by
  unfold Loop.handle Window.handle at *
  have hsame : ∀ hstr : Hstr R, hstr.promptBottom = s.hstr.promptBottom →
      hstr.helpOnOppositeSide = s.hstr.helpOnOppositeSide →
      hstr.hideBasicHelp = s.hstr.hideBasicHelp → hstr.hideHistoryHelp = s.hstr.hideHistoryHelp →
      SameLayout config hstr := fun hstr h₁ h₂ h₃ h₄ => h.same.trans ⟨h₁, h₂, h₃, h₄⟩
  cases hkey : keyCase c with
  | KEY_END => exact h.settled rfl rfl rfl rfl rfl
  | KEY_DC => exact h.settled_deleteItem hbasic hfits hrows hcolumns
  | K_CTRL_E => exact h.settled_printQuery hbasic rfl rfl (hsame _ rfl rfl rfl rfl) rfl hfits
  | K_CTRL_T => exact h.settled_printQuery hbasic rfl rfl (hsame _ rfl rfl rfl rfl) rfl hfits
  | K_CTRL_SLASH => exact h.settled_printQuery hbasic rfl rfl (hsame _ rfl rfl rfl rfl) rfl hfits
  | K_CTRL_F => exact h.settled_addFavorite hbasic hfits
  | KEY_RESIZE => exact absurd hkey hresize
  | K_CTRL_U =>
      rw [hkey] at hnext
      exact ⟨h.laidOut, (h.pattern_printed hbasic hnext).shown⟩
  | K_CTRL_L =>
      rw [hkey] at hnext
      exact ⟨h.laidOut, (h.pattern_printed hbasic hnext).shown⟩
  | KEY_BACKSPACE =>
      rw [hkey] at hnext
      exact h.settled_deleteCharacter hbasic hnext
  | KEY_NPAGE => exact h.settled_move hbasic (cursorPlaced_move _ _ _)
  | KEY_ENTER | KEY_LEFT | KEY_RIGHT | K_ESC | K_CTRL_X =>
      rw [hkey] at hdone
      cases hdone
  | default =>
      rw [hkey] at hnext
      exact h.settled_typeCharacter hbasic hnext fun htop => hkept htop hkey

end Round

/-! ## The loop -/

/-- The invariant of the loop, where the command line is `first`. -/
structure Kept (env : Env R) (wcwidth : ℕ → ℤ) (config : Hstr R) (first : CString)
    (v : Visible R) : Prop where
  painted : Painted v.loop
  same : SameLayout config v.loop.hstr
  line : FitsRow env first (prompt v.loop)
  text : Printable wcwidth v.loop.pattern
  columns : v.loop.maxx = env.width
  settled : v.loop.done = false → Settled config v.loop v.hideNotificationOnNextTick v.rows

/-- The key cuts the pattern of a prompt at the top of the screen, which is not printed
then. -/
def CutsPrompt (env : Env R) (s : LoopState R) (e : Event) : Prop :=
  s.done = false ∧ s.hstr.promptBottom = false ∧ keyCase e.c = .default
    ∧ TurnedDown env s.pattern e.c

section Loop

variable {env : Env R} {config : Hstr R} {first : CString}

theorem stable_sameLayout (env : Env R) (config : Hstr R) :
    Stable env (SameLayout config) where
  layout n hstr h := h.trans (sameLayout_recalculate n hstr)
  select _ _ _ _ h := ⟨h.promptBottom, h.helpOnOppositeSide, h.hideBasicHelp, h.hideHistoryHelp⟩
  matching _ _ h := ⟨h.promptBottom, h.helpOnOppositeSide, h.hideBasicHelp, h.hideHistoryHelp⟩
  view _ _ h := ⟨h.promptBottom, h.helpOnOppositeSide, h.hideBasicHelp, h.hideHistoryHelp⟩
  caseSensitive _ _ h := ⟨h.promptBottom, h.helpOnOppositeSide, h.hideBasicHelp, h.hideHistoryHelp⟩
  favorites _ _ h := ⟨h.promptBottom, h.helpOnOppositeSide, h.hideBasicHelp, h.hideHistoryHelp⟩

/-- A round that is not the last one keeps everything in its place, unless it cuts the
prompt. -/
theorem Kept.step {wcwidth : ℕ → ℤ} {v : Visible R} (h : Kept env wcwidth config first v)
    (hlocale : env.locale = utf8 wcwidth) (hw : AsciiColumns wcwidth)
    (hshows : ShowsPatterns wcwidth env) (hbasic : config.hideBasicHelp = false)
    (hfirst : hstr_strwidth env.locale first ≤ promptColumns env) {e : Event}
    (hkeep : KeepsScreen v.loop e) (hcolumns : KeepsColumns v.loop e)
    (htypes : TypesText wcwidth env v.loop e) (hcut : ¬ CutsPrompt env v.loop e) :
    Kept env wcwidth config first (Window.step env v e) := by
  by_cases hdone : v.loop.done = true
  · rw [Window.step_of_done hdone]
    exact h
  have hrun : v.loop.done = false := by simpa using hdone
  have hloop := step_loop env v e
  have hline : FitsRow env first (prompt (Loop.step env v.loop e)) := by
    rw [prompt_step]
    exact h.line.edit hlocale hw e.c
  refine ⟨?_, ?_, ?_, ?_, ?_, fun hnotdone => ?_⟩
  · rw [hloop]
    exact h.painted.step env hkeep
  · rw [hloop]
    exact (stable_sameLayout env config).step h.same e
  · rw [hloop]
    exact hline
  · rw [hloop]
    exact htypes.step
  · rw [hloop, maxx_step env hcolumns]
    exact h.columns
  have hsteady := (h.settled hrun).steady hbasic h.painted h.same
  have hfree := left_of_fitsRow hlocale hshows h.line h.text hfirst
  have hnext := left_of_fitsRow hlocale hshows hline htypes.step hfirst
  rw [← h.columns] at hfree hnext
  rw [hloop] at hnotdone
  unfold Window.step
  simp only [hdone, if_false, Bool.false_eq_true, ready_hstr, ready_history]
  rw [Loop.step_of_not_done hrun] at hnext hnotdone ⊢
  by_cases hresize : e.c = KEY_RESIZE
  · have hready : ready v.loop e = { recalculate v.loop with maxy := e.rows } := by
      unfold ready wgetch
      rw [if_pos hresize, hcolumns (Or.inl hresize)]
      rfl
    have hkey : keyCase (keyOf v.loop e) = .KEY_RESIZE := by
      rw [keyOf_eq v.loop (by rw [hresize]; decide), hresize]
      decide
    unfold Loop.handle Window.handle
    rw [hkey, hready]
    have hsame := hsteady.same.trans (sameLayout_recalculate e.rows (recalculate v.loop).hstr)
    exact hsteady.settled_resize (t := { recalculate v.loop with
      maxy := e.rows
      hstr := recalculate_max_history_items e.rows (recalculate v.loop).hstr
      maxHistoryItems :=
        (recalculate_max_history_items e.rows (recalculate v.loop).hstr).promptItems })
      hbasic (hkeep.1 hresize) rfl hsame rfl hfree
  · have hready : ready v.loop e = recalculate v.loop := by
      unfold ready wgetch
      rw [if_neg hresize]
    rw [hready] at hnext hnotdone ⊢
    apply hsteady.settled_handle hbasic _ hkeep.2 (fun hcc => hcolumns (Or.inr hcc)) hfree hnext _
      hnotdone
    · intro hkey
      rw [keyOf_eq_of_keyCase_ne (by simp [hkey])] at hkey
      simp only [keyCase, ite_eq_iff, reduceCtorEq, and_false, and_true, false_or, or_false] at hkey
      exact hresize (by tauto)
    · intro htop hkey hdown
      have hkeyOf : keyOf v.loop e = e.c := keyOf_eq_of_keyCase_ne (by simp [hkey])
      have hbottom : (recalculate v.loop).hstr.promptBottom = v.loop.hstr.promptBottom :=
        recalculate_promptBottom v.loop.maxy v.loop.hstr
      rw [hkeyOf] at hkey hdown
      exact hcut ⟨hrun, hbottom.symm.trans htop, hkey, hdown⟩

/-- A round that cuts the prompt leaves on the screen what it cuts. -/
theorem Kept.cut {wcwidth : ℕ → ℤ} {v : Visible R} (h : Kept env wcwidth config first v)
    (hbasic : config.hideBasicHelp = false) (hlocale : env.locale = utf8 wcwidth)
    (hw : AsciiColumns wcwidth) (hshows : ShowsPatterns wcwidth env)
    (hfirst : hstr_strwidth env.locale first ≤ promptColumns env) {e : Event}
    (htypes : TypesText wcwidth env v.loop e) (hcut : CutsPrompt env v.loop e) :
    (Window.step env v e).loop.done = false
      ∧ (Window.step env v e).rows (Window.step env v e).loop.hstr.promptY
        ≠ .prompt (Window.step env v e).loop.pattern := by
  obtain ⟨hrun, htop, hkey, hcut⟩ := hcut
  have hdone : ¬ v.loop.done = true := by simp [hrun]
  have hkeyOf : keyOf v.loop e = e.c := by
    apply keyOf_eq
    intro hr
    rw [hr] at hcut
    exact absurd hcut.1 (by decide)
  have hready : ready v.loop e = recalculate v.loop := by
    unfold ready wgetch
    apply if_neg
    intro hresize
    rw [hresize] at hkey
    exact absurd hkey (by decide)
  have hloop : Loop.step env v.loop e = Loop.typeCharacter env (recalculate v.loop) e.c := by
    rw [Loop.step_of_not_done hrun, hkeyOf, hready]
    unfold Loop.handle
    rw [hkey]
  have hstep : Window.step env v e = ⟨Loop.typeCharacter env (recalculate v.loop) e.c,
      Window.typeCharacter env (recalculate v.loop) e.c
        (if v.hideNotificationOnNextTick then
          hide_notification (recalculate v.loop).hstr (recalculate v.loop).history v.rows
        else v.rows), false⟩ := by
    rw [← hloop]
    unfold Window.step
    rw [if_neg hdone, hkeyOf, hready]
    unfold Window.handle
    rw [hkey]
  have hnext : FitsRow env first (prompt (Loop.step env v.loop e)) := by
    rw [prompt_step]
    exact h.line.edit hlocale hw e.c
  have hfits := left_of_fitsRow hlocale hshows hnext htypes.step hfirst
  rw [hloop, ← h.columns] at hfits
  have hbottom : (recalculate v.loop).hstr.promptBottom = false :=
    (recalculate_promptBottom v.loop.maxy v.loop.hstr).trans htop
  obtain ⟨hrow, hpattern⟩ := ((h.settled hrun).steady hbasic h.painted h.same).cut_typeCharacter
    hbasic hbottom hfits hcut
  rw [hstep]
  refine ⟨?_, ?_⟩
  · unfold Loop.typeCharacter
    rw [if_pos hcut.1]
    exact hrun
  · simp only
    rw [hrow]
    intro heq
    exact hpattern (RowContent.prompt.inj heq).symm

end Loop

section Loop

variable {env : Env R} {config : Hstr R} {first : CString} {wcwidth : ℕ → ℤ}

end Loop

end Hstr.InPlace
