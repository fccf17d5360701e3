/-
# CryptoTrader.ViewHistory — what the dashboard view remembers of a run.

The order book thread writes the view on its way through an event: counters after every depth
update, the best bid into the price history when the strategy is shown a snapshot, the snapshot
itself into its slot when strategy and checker are done with it.  Between the last two the thread may
wait in `send`, and other threads read the view meanwhile.

Seen over a run, the view is a function of the snapshots shown so far: the price history is a window
of their best bids, the strategy is the fold of all of them, and the slot holds the last one, or the
last but one exactly while an approved order waits for room in the channel (`Shown`).
-/
import CryptoTrader.OrderFlow

namespace CryptoTrader

open Lib Lib.RecentWindow

/-- The best bid of a snapshot, and its best ask. -/
def OrderbookSnapshot.bestBid? (snapshot : OrderbookSnapshot) : Option ℚ :=
  snapshot.bids.head?.map Prod.fst

def OrderbookSnapshot.bestAsk? (snapshot : OrderbookSnapshot) : Option ℚ :=
  snapshot.asks.head?.map Prod.fst

namespace MarketEvent

def isUpdate : MarketEvent → Bool
  | depthUpdate _ => true
  | _ => false

/-- What an event says about the connection: an update has come in, or a Reconnect. -/
def connection? : MarketEvent → Option Bool
  | depthUpdate _ => some true
  | reconnect => some false
  | _ => none

end MarketEvent

namespace MarketView

/-- A shown snapshot adds its best bid to the history, if it has one. -/
theorem onQuote_eq (view : MarketView) (snapshot : OrderbookSnapshot) :
    view.onQuote snapshot = { view with
      priceHistory := snapshot.bestBid?.toList.foldl (pushBounded 300) view.priceHistory } := by
  unfold onQuote OrderbookSnapshot.bestBid?
  cases snapshot.bids.head? with
  | none => rfl
  | some level => rfl

end MarketView

namespace Pipeline

variable {σ : Type} [Strategy σ]

/-! ## §1 What an event writes -/

/-- The event that a step handles. -/
def handledOf : Label → List MarketEvent
  | .event event _ _ _ => [event]
  | _ => []

/-- The snapshot that a step shows the strategy. -/
def shownOf (s : Pipeline σ) : Label → List OrderbookSnapshot
  | .event event nowMs _ _ => (quote s.book s.resyncNeeded nowMs event).toList
  | _ => []

def view (s : Pipeline σ) : MarketView := s.path.shared.view

/-- Where the snapshot is after the step that shows it: it waits behind an approved order, or it is
in the slot. -/
def Placed (s' : Pipeline σ) (before shown : Option OrderbookSnapshot) : Prop :=
  (s'.path.sending.isSome ∧ shown.isSome ∧ s'.toPublish = shown ∧ s'.view.snapshot = before) ∨
    (s'.path.sending = none ∧ s'.toPublish = none ∧ s'.view.snapshot = shown.or before)

/-- The view after the strategy has been shown a snapshot. -/
theorem onQuote_view {s : Pipeline σ} (hidle : s.path.sending = none)
    (snapshot : OrderbookSnapshot) (now : Nat) (uuid : String) :
    let s' := s.onQuote snapshot now uuid
    s'.view = { s.view with
      priceHistory := snapshot.bestBid?.toList.foldl (pushBounded 300) s.view.priceHistory
      snapshot := s'.view.snapshot } ∧
    s'.Placed s.view.snapshot (some snapshot) := by
  have hview : s.view.onQuote snapshot = _ := MarketView.onQuote_eq s.view snapshot
  by_cases hhold : (Strategy.onOrderbook s.strat snapshot).1 = .hold
  · rw [onQuote_of_hold hhold]
    refine ⟨?_, Or.inr ⟨hidle, rfl, rfl⟩⟩
    exact congrArg (fun view : MarketView => { view with snapshot := some snapshot }) hview
  · rw [onQuote_of_order hhold]
    dsimp only
    set checked := (s.path.withView (s.path.shared.view.onQuote snapshot)).onCheck
      (Strategy.onOrderbook s.strat snapshot).1 (referencePrice snapshot) now uuid with hchecked
    have hsame : checked.shared.view = s.view.onQuote snapshot := by
      rw [hchecked, OrderPath.onCheck_shared]
      rfl
    split
    · next happroved =>
        refine ⟨?_, Or.inl ⟨happroved, rfl, rfl, ?_⟩⟩
        · show checked.shared.view = { s.view with
            priceHistory := snapshot.bestBid?.toList.foldl (pushBounded 300) s.view.priceHistory
            snapshot := checked.shared.view.snapshot }
          rw [hsame, hview]
        · show checked.shared.view.snapshot = s.view.snapshot
          rw [hsame, hview]
    · next hrejected =>
        refine ⟨?_, Or.inr ⟨Option.not_isSome_iff_eq_none.mp hrejected, rfl, rfl⟩⟩
        show { checked.shared.view with snapshot := some snapshot } = _
        rw [hsame, hview]
        rfl

/-- **The view after an event**, whatever its kind. -/
theorem event_view {s : Pipeline σ} (hidle : s.path.sending = none) (hquiet : s.toPublish = none)
    (event : MarketEvent) (nowMs : UInt64) (now : Nat) (uuid : String) :
    let shown := quote s.book s.resyncNeeded nowMs event
    let s' := s.onEvent event nowMs now uuid
    s'.view.eventCount = s.view.eventCount + (if event.isUpdate then 1 else 0) ∧
    s'.view.connected = event.connection?.getD s.view.connected ∧
    s'.view.priceHistory
      = (shown.bind OrderbookSnapshot.bestBid?).toList.foldl (pushBounded 300)
          s.view.priceHistory ∧
    s'.Placed s.view.snapshot shown := by
  cases event with
  | depthSnapshot snapshot =>
      exact ⟨(UInt64.add_zero _).symm, rfl, rfl, Or.inr ⟨hidle, hquiet, rfl⟩⟩
  | trade trade => exact ⟨(UInt64.add_zero _).symm, rfl, rfl, Or.inr ⟨hidle, hquiet, rfl⟩⟩
  | reconnect => exact ⟨(UInt64.add_zero _).symm, rfl, rfl, Or.inr ⟨hidle, hquiet, rfl⟩⟩
  | depthUpdate update =>
      -- the strategy is shown something only if the update is applied
      have hbuffered : ∀ book resyncNeeded,
          s.book.handleUpdate update s.resyncNeeded = (.ok false, book, resyncNeeded) →
          quote s.book s.resyncNeeded nowMs (.depthUpdate update) = none ∧
            s.onEvent (.depthUpdate update) nowMs now uuid = { s with
              book := book
              resyncNeeded := resyncNeeded
              path := s.path.withView (s.path.shared.view.onUpdate false) } := by
        intro book resyncNeeded hupdate
        simp only [quote, onEvent, hupdate, and_self]
      cases hstate : s.book.state with
      | buffering buf =>
          obtain ⟨hnone, heq⟩ := hbuffered _ _ (Orderbook.handleUpdate_buffering hstate update _)
          dsimp only
          rw [hnone, heq]
          exact ⟨rfl, rfl, rfl, Or.inr ⟨hidle, hquiet, rfl⟩⟩
      | live n =>
          have hupdate := Orderbook.handleUpdate_live hstate update s.resyncNeeded
          cases hseq : Orderbook.sequencing n update with
          | stale | gap =>
              rw [hseq] at hupdate
              obtain ⟨hnone, heq⟩ := hbuffered _ _ hupdate
              dsimp only
              rw [hnone, heq]
              exact ⟨rfl, rfl, rfl, Or.inr ⟨hidle, hquiet, rfl⟩⟩
          | apply =>
              rw [hseq] at hupdate
              set book := s.book.liveAt (applyLevels s.book.sides update) update.lastUpdateId
              have hlive : book.isLive = true := rfl
              have hshown : quote s.book s.resyncNeeded nowMs (.depthUpdate update)
                  = some (book.snapshot nowMs) := by
                simp only [quote, hupdate, hlive, if_true]
              let s₀ : Pipeline σ := { s with
                book := book
                path := s.path.withView (s.view.onUpdate book.isLive) }
              have heq : s.onEvent (.depthUpdate update) nowMs now uuid
                  = s₀.onQuote (book.snapshot nowMs) now uuid := by
                simp only [onEvent, hupdate, hlive, if_true]
                rfl
              obtain ⟨hview, hplaced⟩ :=
                onQuote_view (s := s₀) hidle (book.snapshot nowMs) now uuid
              dsimp only
              rw [heq, hshown]
              refine ⟨?_, ?_, ?_, hplaced⟩
              · rw [hview]
                rfl
              · rw [hview]
                rfl
              · rw [hview]
                rfl

/-- No other step touches the counters or the price history; a send moves the waiting snapshot into
its slot. -/
theorem other_view {s s' : Pipeline σ} {l : Label} (h : s.step l = some s')
    (hl : ∀ event nowMs now uuid, l ≠ .event event nowMs now uuid) :
    s'.strat = s.strat ∧
    (l = .send ∧ s.path.sending.isSome ∧ s'.path.sending = none ∧ s'.toPublish = none ∧
        s'.view = { s.view with snapshot := s.toPublish.or s.view.snapshot } ∨
      l ≠ .send ∧ s'.path.sending = s.path.sending ∧ s'.toPublish = s.toPublish ∧
        s'.view = s.view) := by
  refine ⟨(step_other h hl).1, ?_⟩
  cases l with
  | event event nowMs now uuid => exact absurd rfl (hl _ _ _ _)
  | send =>
      left
      obtain ⟨path, hstep, rfl⟩ := Option.map_eq_some_iff.mp h
      have hview : path.shared.view = s.view := OrderPath.step_view hstep (by simp)
      simp only [OrderPath.step] at hstep
      split at hstep
      · next order hsending =>
          obtain ⟨-, rfl⟩ := Option.ite_some_none_eq_some.mp hstep
          refine ⟨rfl, by simp [hsending], ?_⟩
          cases s.toPublish with
          | none => exact ⟨rfl, rfl, rfl⟩
          | some snapshot => exact ⟨rfl, rfl, rfl⟩
      · cases hstep
  | take =>
      right
      obtain ⟨path, hstep, rfl⟩ := Option.map_eq_some_iff.mp h
      have hview : path.shared.view = s.view := OrderPath.step_view hstep (by simp)
      simp only [OrderPath.step] at hstep
      split at hstep
      · obtain rfl := Option.some.inj hstep
        exact ⟨by simp, rfl, rfl, hview⟩
      · cases hstep
  | fill =>
      right
      obtain ⟨order, -, rfl⟩ := fill_spec h
      exact ⟨by simp, rfl, rfl, rfl⟩
  | mirror =>
      right
      obtain ⟨order, -, rfl⟩ := mirror_spec h
      refine ⟨by simp, rfl, rfl, ?_⟩
      show SharedState.view _ = s.path.shared.view
      cases order.signal <;> rfl
  | record timestamp =>
      right
      obtain ⟨order, -, rfl⟩ := record_spec h
      refine ⟨by simp, rfl, rfl, ?_⟩
      show SharedState.view _ = s.path.shared.view
      cases PaperTrade.ofOrder order timestamp <;> rfl
  | setHalt _ | setResync _ =>
      right
      obtain rfl := Option.some.inj h
      exact ⟨by simp, rfl, rfl, rfl⟩

/-- A snapshot waits exactly while an order does. -/
theorem waiting_step {s s' : Pipeline σ} {l : Label}
    (h : s.toPublish.isSome = s.path.sending.isSome) (hstep : s.step l = some s') :
    s'.toPublish.isSome = s'.path.sending.isSome := by
  by_cases hl : ∀ event nowMs now uuid, l ≠ .event event nowMs now uuid
  · rcases (other_view hstep hl).2 with ⟨-, -, hsent, hempty, -⟩ | ⟨-, hsending, hpublish, -⟩
    · rw [hempty, hsent]
      rfl
    · rw [hpublish, hsending]
      exact h
  · simp only [not_forall, not_not] at hl
    obtain ⟨event, nowMs, now, uuid, rfl⟩ := hl
    obtain ⟨hidle, rfl⟩ := Option.ite_some_none_eq_some.mp hstep
    have hquiet : s.toPublish = none := by
      rw [← Option.not_isSome_iff_eq_none, h, hidle]
      simp
    obtain ⟨-, -, -, hplaced⟩ := event_view hidle hquiet event nowMs now uuid
    rcases hplaced with ⟨hsent, hshown, hpublish, -⟩ | ⟨hsent, hpublish, -⟩
    · rw [hpublish, hshown, hsent]
    · rw [hpublish, hsent]
      rfl

/-! ## §2 The view as a function of the history -/

/-- **The view after these snapshots.** -/
structure Shown (strat₀ : σ) (shown : List OrderbookSnapshot) (s : Pipeline σ) : Prop where
  strat : s.strat
    = shown.foldl (fun strat snapshot => (Strategy.onOrderbook strat snapshot).2) strat₀
  prices : s.view.priceHistory = (shown.filterMap OrderbookSnapshot.bestBid?).rtake 300
  waiting : s.toPublish.isSome = s.path.sending.isSome
  slot : ∃ published, shown = published ++ s.toPublish.toList ∧
    s.view.snapshot = published.getLast?

theorem Shown.step {strat₀ : σ} {shown : List OrderbookSnapshot} {s s' : Pipeline σ} {l : Label}
    (h : Shown strat₀ shown s) (hstep : s.step l = some s') :
    Shown strat₀ (shown ++ s.shownOf l) s' := by
  obtain ⟨hstrat, hprices, hwaiting, published, hpublished, hslot⟩ := h
  by_cases hl : ∀ event nowMs now uuid, l ≠ .event event nowMs now uuid
  · have hnone : s.shownOf l = [] := by
      cases l with
      | event event nowMs now uuid => exact absurd rfl (hl _ _ _ _)
      | _ => rfl
    rw [hnone, List.append_nil]
    obtain ⟨hsame, hcases⟩ := other_view hstep hl
    rcases hcases with ⟨-, -, -, hempty, hview⟩ | ⟨-, -, hpublish, hview⟩
    · refine ⟨hsame.trans hstrat, ?_, waiting_step hwaiting hstep, shown, ?_, ?_⟩
      · rw [hview]
        exact hprices
      · rw [hempty, Option.toList_none, List.append_nil]
      · rw [hview, hpublished]
        cases s.toPublish with
        | none => simpa using hslot
        | some snapshot => simp
    · exact ⟨hsame.trans hstrat, hview ▸ hprices, waiting_step hwaiting hstep, published,
        hpublish ▸ hpublished, hview ▸ hslot⟩
  · simp only [not_forall, not_not] at hl
    obtain ⟨event, nowMs, now, uuid, rfl⟩ := hl
    obtain ⟨hidle, rfl⟩ := Option.ite_some_none_eq_some.mp hstep
    have hquiet : s.toPublish = none := by
      rw [← Option.not_isSome_iff_eq_none, hwaiting, hidle]
      simp
    obtain ⟨hstrat', -⟩ := event_spec hidle event nowMs now uuid
    obtain ⟨-, -, hprices', hplaced⟩ := event_view hidle hquiet event nowMs now uuid
    rw [hquiet, Option.toList_none, List.append_nil] at hpublished
    subst hpublished
    show Shown strat₀ (shown ++ (quote s.book s.resyncNeeded nowMs event).toList) _
    have hwaits := waiting_step hwaiting hstep
    generalize quote s.book s.resyncNeeded nowMs event = now? at hstrat' hprices' hplaced ⊢
    refine ⟨?_, ?_, hwaits, ?_⟩
    · rw [hstrat', List.foldl_append, ← hstrat]
      cases now? <;> rfl
    · rw [hprices', List.filterMap_append, hprices]
      cases now? with
      | none => simp
      | some snapshot =>
          cases hbid : snapshot.bestBid? with
          | none => simp [hbid]
          | some price =>
              simp only [Option.bind_some, hbid, Option.toList_some, List.foldl_cons,
                List.foldl_nil, List.filterMap_cons_some hbid, List.filterMap_nil]
              exact pushBounded_rtake (by norm_num) _ price
    · rcases hplaced with ⟨-, -, hpublish, hbefore⟩ | ⟨-, hpublish, hbefore⟩
      · exact ⟨shown, by rw [hpublish], hbefore.trans hslot⟩
      · refine ⟨shown ++ now?.toList, by rw [hpublish]; simp, ?_⟩
        rw [hbefore, hslot]
        cases now? with
        | none => simp
        | some snapshot => simp

/-! ## §3 The view over a whole run -/

/-- **The counters after these events.** -/
structure Counted (handled : List MarketEvent) (s : Pipeline σ) : Prop where
  eventCount : s.view.eventCount = UInt64.ofNat (handled.countP MarketEvent.isUpdate)
  connected : s.view.connected = (handled.filterMap MarketEvent.connection?).getLast?.getD false

/-- One step of the counters. -/
theorem counters_step {s s' : Pipeline σ} {l : Label}
    (hwaiting : s.toPublish.isSome = s.path.sending.isSome) (hstep : s.step l = some s') :
    s'.view.eventCount
      = s.view.eventCount + UInt64.ofNat ((handledOf l).countP MarketEvent.isUpdate) ∧
    s'.view.connected
      = ((handledOf l).filterMap MarketEvent.connection?).getLast?.getD s.view.connected := by
  by_cases hl : ∀ event nowMs now uuid, l ≠ .event event nowMs now uuid
  · have hnone : handledOf l = [] := by
      cases l with
      | event event nowMs now uuid => exact absurd rfl (hl _ _ _ _)
      | _ => rfl
    rw [hnone]
    rcases (other_view hstep hl).2 with ⟨-, -, -, -, hview⟩ | ⟨-, -, -, hview⟩
    · rw [hview]
      exact ⟨(UInt64.add_zero _).symm, rfl⟩
    · rw [hview]
      exact ⟨(UInt64.add_zero _).symm, rfl⟩
  · simp only [not_forall, not_not] at hl
    obtain ⟨event, nowMs, now, uuid, rfl⟩ := hl
    obtain ⟨hidle, rfl⟩ := Option.ite_some_none_eq_some.mp hstep
    have hquiet : s.toPublish = none := by
      rw [← Option.not_isSome_iff_eq_none, hwaiting, hidle]
      simp
    obtain ⟨hcount, hconnected, -⟩ := event_view hidle hquiet event nowMs now uuid
    rw [hcount, hconnected]
    cases event <;> exact ⟨rfl, rfl⟩

theorem Counted.step {handled : List MarketEvent} {s s' : Pipeline σ} {l : Label}
    (h : Counted handled s) (hwaiting : s.toPublish.isSome = s.path.sending.isSome)
    (hstep : s.step l = some s') : Counted (handled ++ handledOf l) s' := by
  obtain ⟨hcount, hconnected⟩ := h
  obtain ⟨hcount', hconnected'⟩ := counters_step hwaiting hstep
  refine ⟨?_, ?_⟩
  · rw [hcount', hcount, List.countP_append, UInt64.ofNat_add]
  · rw [hconnected', hconnected, List.filterMap_append, List.getLast?_append]
    cases ((handledOf l).filterMap MarketEvent.connection?).getLast? <;> rfl

section

variable {symbol : String} {depthLevels : Nat} {strat : σ} {risk : RiskChecker}
  {initialCapitalUsdt feePct : ℚ} {haltFlag : Bool} {ls : List Label} {s : Pipeline σ}

theorem shown_of_run
    (hrun : machine.exec (init symbol depthLevels strat risk initialCapitalUsdt feePct haltFlag) ls
      = some s) :
    Shown strat (machine.outputs shownOf
      (init symbol depthLevels strat risk initialCapitalUsdt feePct haltFlag) ls) s :=
  machine.exec_history_of_step (I := fun s shown => Shown strat shown s)
    (fun _ _ _ _ h hstep => Shown.step h hstep) ⟨rfl, rfl, rfl, [], rfl, rfl⟩ hrun

/-- The counters only need to know that nothing waits while the thread is free. -/
theorem counted_of_run
    (hrun : machine.exec (init symbol depthLevels strat risk initialCapitalUsdt feePct haltFlag) ls
      = some s) :
    Counted (machine.outputs (fun _ => handledOf)
      (init symbol depthLevels strat risk initialCapitalUsdt feePct haltFlag) ls) s :=
  (machine.exec_history_of_step
    (I := fun s handled => Counted handled s ∧ s.toPublish.isSome = s.path.sending.isSome)
    (fun _ _ _ _ h hstep => ⟨h.1.step h.2 hstep, waiting_step h.2 hstep⟩) ⟨⟨rfl, rfl⟩, rfl⟩
    hrun).1

end

/-- **The view of a run.**  In every run from startup, whatever the interleaving: the event counter
counts the depth updates handled (modulo 2^64); the connection flag is the last word of the events
about it; the price history is the best bids of the last snapshots shown, at most 300 of them; the
strategy has seen every snapshot shown, in order, and nothing else; and the slot holds the last
snapshot shown, or, exactly while an approved order waits to be sent, the one before it. -/
theorem view_of_run (symbol : String) (depthLevels : Nat) (strat : σ) (risk : RiskChecker)
    (initialCapitalUsdt feePct : ℚ) (haltFlag : Bool) (ls : List Label) (s : Pipeline σ)
    (hrun : machine.exec (init symbol depthLevels strat risk initialCapitalUsdt feePct haltFlag) ls
      = some s) :
    let s₀ := init symbol depthLevels strat risk initialCapitalUsdt feePct haltFlag
    let handled := machine.outputs (fun _ => handledOf) s₀ ls
    let shown := machine.outputs shownOf s₀ ls
    s.view.eventCount = UInt64.ofNat (handled.countP MarketEvent.isUpdate) ∧
    s.view.connected = (handled.filterMap MarketEvent.connection?).getLast?.getD false ∧
    s.view.priceHistory = (shown.filterMap OrderbookSnapshot.bestBid?).rtake 300 ∧
    s.strat = shown.foldl (fun strat snapshot => (Strategy.onOrderbook strat snapshot).2) strat ∧
    (s.path.sending = none → s.toPublish = none ∧ s.view.snapshot = shown.getLast?) ∧
    (s.path.sending.isSome → s.toPublish = shown.getLast? ∧ s.toPublish.isSome ∧
      s.view.snapshot = shown.dropLast.getLast?) := by
  intro s₀ handled shown
  obtain ⟨hstrat, hprices, hwaiting, published, hpublished, hslot⟩ := shown_of_run hrun
  obtain ⟨hcount, hconnected⟩ := counted_of_run hrun
  change shown = published ++ s.toPublish.toList at hpublished
  refine ⟨hcount, hconnected, hprices, hstrat, ?_, ?_⟩
  · intro hidle
    rw [hidle] at hwaiting
    have hquiet : s.toPublish = none := Option.not_isSome_iff_eq_none.mp (by simp [hwaiting])
    rw [hquiet, Option.toList_none, List.append_nil] at hpublished
    exact ⟨hquiet, hpublished ▸ hslot⟩
  · intro hsending
    obtain ⟨snapshot, hsnapshot⟩ := Option.isSome_iff_exists.mp (hwaiting.trans hsending)
    rw [hsnapshot, Option.toList_some] at hpublished
    rw [hpublished, hsnapshot]
    exact ⟨by simp, rfl, by simpa using hslot⟩

/-- While the first order waits to be sent the slot is still empty; one send later it shows what the
order was made of. -/
theorem entry_shown_after_send :
    ∃ s s' snapshot,
      machine.exec (init "BTCUSDT" 20 PingPongStrategy.default (RiskChecker.new 1 0 1 5)
        10000 (1 / 20) false) (quoteEvents "100" "100.01") = some s ∧
      s.step .send = some s' ∧ s.view.snapshot = none ∧ s.toPublish = some snapshot ∧
      s'.view.snapshot = some snapshot := by
  have hsome : ((machine.exec (init "BTCUSDT" 20 PingPongStrategy.default
      (RiskChecker.new 1 0 1 5) 10000 (1 / 20) false) (quoteEvents "100" "100.01")).any fun s =>
        s.path.sending.isSome ∧ (s.step .send).isSome) = true := by decide +kernel
  obtain ⟨s, hrun, hend⟩ := (Option.any_eq_true _ _).mp hsome
  obtain ⟨hsending, hsend⟩ := of_decide_eq_true hend
  obtain ⟨s', hs'⟩ := Option.isSome_iff_exists.mp hsend
  obtain ⟨-, -, -, -, -, hwaits⟩ := view_of_run _ _ _ _ _ _ _ _ s hrun
  obtain ⟨-, hpublish, hslot⟩ := hwaits hsending
  obtain ⟨snapshot, hsnapshot⟩ := Option.isSome_iff_exists.mp hpublish
  refine ⟨s, s', snapshot, hrun, hs', hslot.trans (by decide +kernel), hsnapshot, ?_⟩
  rcases (other_view hs' (by simp)).2 with ⟨-, -, -, -, hview⟩ | ⟨hne, -⟩
  · rw [hview, hsnapshot]
    rfl
  · exact absurd rfl hne

end Pipeline

end CryptoTrader
