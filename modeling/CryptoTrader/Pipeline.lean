/-
# CryptoTrader.Pipeline — the order book thread in front of the order path.

The event loop of `main.rs`: one market event at a time goes through the book; an applied update
of a live book is shown to the strategy, and a Buy or Sell is checked against the best bid as the
reference price and sent if approved.  The snapshot moves into the dashboard slot after that, so
while the thread waits in `send` it is kept in `toPublish`.  The local event counter, which only
paces a log line, is not modelled.

`Decision` is what one call site of the risk checker hands to it: `main.rs` and the backtester
compute it alike.  `step_cases` says what a step of the thread does to the strategy and to the
settled account in terms of the decision it makes, and `exists_drain` that what is in flight can
always be worked off.
-/
import CryptoTrader.Orderbook
import CryptoTrader.OrderPath
import CryptoTrader.Strategy

namespace CryptoTrader

open Lib Lib.Deferred

/-! ## §1 Decisions -/

/-- The price the call sites pass as `mid_price`: the best bid, or zero without bids. -/
def referencePrice (snapshot : OrderbookSnapshot) : ℚ :=
  match snapshot.bids.head? with
  | some (price, _) => price
  | none => 0

/-- A Buy or Sell a strategy has made of a snapshot, and what the risk checker will see of it. -/
structure Decision where
  snapshot : OrderbookSnapshot
  signal : Signal
  risk : RiskChecker
  env : Readings

/-- The checker admits the order. -/
def Decision.Admitted (d : Decision) : Prop :=
  d.risk.Admits d.signal (referencePrice d.snapshot) d.env

instance (d : Decision) : Decidable d.Admitted := inferInstanceAs (Decidable (d.risk.Admits _ _ _))

/-- The decision, if there is one, is admitted. -/
def Decision.NoneRejected (d : Option Decision) : Prop := ∀ d' ∈ d, d'.Admitted

instance (d : Option Decision) : Decidable (Decision.NoneRejected d) :=
  inferInstanceAs (Decidable (∀ d' ∈ d, d'.Admitted))

/-- The decision a strategy makes of a snapshot; a Hold is none. -/
def decide? {σ : Type} [Strategy σ] (strat : σ) (snapshot : OrderbookSnapshot)
    (risk : RiskChecker) (env : Readings) : Option Decision :=
  match (Strategy.onOrderbook strat snapshot).1 with
  | .hold => none
  | signal => some ⟨snapshot, signal, risk, env⟩

section

variable {σ : Type} [Strategy σ] {strat : σ} {snapshot : OrderbookSnapshot}

theorem decide?_of_hold (h : (Strategy.onOrderbook strat snapshot).1 = .hold) (risk : RiskChecker)
    (env : Readings) : decide? strat snapshot risk env = none := by
  simp only [decide?, h]

theorem decide?_of_order (h : (Strategy.onOrderbook strat snapshot).1 ≠ .hold)
    (risk : RiskChecker) (env : Readings) :
    decide? strat snapshot risk env
      = some ⟨snapshot, (Strategy.onOrderbook strat snapshot).1, risk, env⟩ := by
  unfold decide?
  cases hsignal : (Strategy.onOrderbook strat snapshot).1 with
  | hold => exact absurd hsignal h
  | buy price qty => rfl
  | sell price qty => rfl

/-- The parts of a decision. -/
theorem decide?_eq_some {risk : RiskChecker} {env : Readings} {d : Decision}
    (h : decide? strat snapshot risk env = some d) :
    d.snapshot = snapshot ∧ d.signal = (Strategy.onOrderbook strat snapshot).1 ∧
      d.signal ≠ .hold ∧ d.risk = risk ∧ d.env = env := by
  by_cases hhold : (Strategy.onOrderbook strat snapshot).1 = .hold
  · rw [decide?_of_hold hhold] at h
    cases h
  · rw [decide?_of_order hhold] at h
    obtain rfl := Option.some.inj h
    exact ⟨rfl, rfl, hhold, rfl, rfl⟩

theorem decide?_eq_none {risk : RiskChecker} {env : Readings}
    (h : decide? strat snapshot risk env = none) :
    (Strategy.onOrderbook strat snapshot).1 = .hold := by
  by_contra horder
  rw [decide?_of_order horder] at h
  cases h

end

/-! ## §2 The thread -/

structure Pipeline (σ : Type) where
  book : Orderbook
  strat : σ
  resyncNeeded : Bool
  path : OrderPath
  /-- the snapshot to publish when the send returns -/
  toPublish : Option OrderbookSnapshot

namespace MarketView

/-- The counters after a depth update: applied to a live book, or not. -/
def onUpdate (view : MarketView) (isLive : Bool) : MarketView :=
  { view with eventCount := view.eventCount + 1, isLive := isLive, connected := true }

/-- The best bid goes into the price history. -/
def onQuote (view : MarketView) (snapshot : OrderbookSnapshot) : MarketView :=
  match snapshot.bids.head? with
  | some (price, _) => view.updatePriceHistory price
  | none => view

end MarketView

namespace OrderPath

/-- The order path under a new dashboard view. -/
def withView (path : OrderPath) (view : MarketView) : OrderPath :=
  { path with shared := { path.shared with view := view } }

@[simp] theorem withView_account (path : OrderPath) (view : MarketView) :
    (path.withView view).account = path.account := rfl

@[simp] theorem withView_pending (path : OrderPath) (view : MarketView) :
    (path.withView view).pending = path.pending := rfl

@[simp] theorem withView_settled (path : OrderPath) (view : MarketView) :
    (path.withView view).settled = path.settled := rfl

@[simp] theorem withView_risk (path : OrderPath) (view : MarketView) :
    (path.withView view).risk = path.risk := rfl

@[simp] theorem withView_readings (path : OrderPath) (view : MarketView) (now : Nat)
    (uuid : String) : (path.withView view).readings now uuid = path.readings now uuid := rfl

end OrderPath

namespace Pipeline

variable {σ : Type} [Strategy σ]

def init (symbol : String) (depthLevels : Nat) (strat : σ) (risk : RiskChecker)
    (initialCapitalUsdt feePct : ℚ) (haltFlag : Bool) : Pipeline σ where
  book := Orderbook.new symbol depthLevels
  strat := strat
  resyncNeeded := false
  path := OrderPath.init risk symbol initialCapitalUsdt feePct haltFlag
  toPublish := none

/-- The snapshot moves into the dashboard slot. -/
def publish (s : Pipeline σ) (snapshot : OrderbookSnapshot) : Pipeline σ :=
  { s with
    path := s.path.withView { s.path.shared.view with snapshot := some snapshot }
    toPublish := none }

/-- What follows an applied update of a live book. -/
def onQuote (s : Pipeline σ) (snapshot : OrderbookSnapshot) (now : Nat) (uuid : String) :
    Pipeline σ :=
  let path := s.path.withView (s.path.shared.view.onQuote snapshot)
  let mid := referencePrice snapshot
  let (signal, strat) := Strategy.onOrderbook s.strat snapshot
  match signal with
  | .hold => { s with strat := strat, path := path }.publish snapshot
  | signal =>
      let path := path.onCheck signal mid now uuid
      -- approved: the thread is in `send` now; rejected: a log line, and the strategy is not told
      if path.sending.isSome then
        { s with strat := strat, path := path, toPublish := some snapshot }
      else { s with strat := strat, path := path }.publish snapshot

/-- One pass of the event loop, up to the send of an approved order. -/
def onEvent (s : Pipeline σ) (event : MarketEvent) (nowMs : UInt64) (now : Nat) (uuid : String) :
    Pipeline σ :=
  match event with
  | .depthUpdate update =>
      match s.book.handleUpdate update s.resyncNeeded with
      | (.ok true, book, resyncNeeded) =>
          let s := { s with
            book := book
            resyncNeeded := resyncNeeded
            path := s.path.withView (s.path.shared.view.onUpdate book.isLive) }
          if book.isLive then s.onQuote (book.snapshot nowMs) now uuid else s
      | (.ok false, book, resyncNeeded) =>
          { s with
            book := book
            resyncNeeded := resyncNeeded
            path := s.path.withView (s.path.shared.view.onUpdate false) }
      -- never taken: `handle_update` has no error path
      | (.error _, book, resyncNeeded) =>
          { s with book := book.reset, resyncNeeded := resyncNeeded }
  | .depthSnapshot snapshot => { s with book := (s.book.handleSnapshot snapshot).2 }
  | .trade _ => s
  | .reconnect =>
      { s with
        book := s.book.reset
        path := s.path.withView
          { s.path.shared.view with connected := false, isLive := false } }

/-- The order book thread takes an event or finishes a send; the executor takes its four steps;
the flags of the kill switch and of the resync poller change at any time. -/
inductive Label where
  | event (event : MarketEvent) (nowMs : UInt64) (now : Nat) (uuid : String)
  | send
  | take
  | fill
  | mirror
  | record (timestamp : String)
  | setHalt (halted : Bool)
  | setResync (resyncNeeded : Bool)

def step (s : Pipeline σ) : Label → Option (Pipeline σ)
  | .event event nowMs now uuid =>
      if s.path.sending = none then some (s.onEvent event nowMs now uuid) else none
  | .send =>
      (s.path.step .send).map fun path =>
        match s.toPublish with
        | some snapshot => { s with path := path }.publish snapshot
        | none => { s with path := path }
  | .take => (s.path.step .take).map fun path => { s with path := path }
  | .fill => (s.path.step .fill).map fun path => { s with path := path }
  | .mirror => (s.path.step .mirror).map fun path => { s with path := path }
  | .record timestamp => (s.path.step (.record timestamp)).map fun path => { s with path := path }
  | .setHalt halted => (s.path.step (.setHalt halted)).map fun path => { s with path := path }
  | .setResync resyncNeeded => some { s with resyncNeeded := resyncNeeded }

def machine : Machine (Pipeline σ) Label := ⟨step⟩

/-! ## §3 What a step decides -/

/-- The snapshot the strategy is shown on an event, if it is shown one. -/
def quote (book : Orderbook) (resyncNeeded : Bool) (nowMs : UInt64) :
    MarketEvent → Option OrderbookSnapshot
  | .depthUpdate update =>
      match book.handleUpdate update resyncNeeded with
      | (.ok true, book, _) => if book.isLive then some (book.snapshot nowMs) else none
      | _ => none
  | _ => none

/-- The decision of a step. -/
def decision (s : Pipeline σ) : Label → Option Decision
  | .event event nowMs now uuid =>
      (quote s.book s.resyncNeeded nowMs event).bind fun snapshot =>
        decide? s.strat snapshot s.path.risk (s.path.readings now uuid)
  | _ => none

/-- `onQuote` on a Hold. -/
theorem onQuote_of_hold {s : Pipeline σ} {snapshot : OrderbookSnapshot}
    (h : (Strategy.onOrderbook s.strat snapshot).1 = .hold) (now : Nat) (uuid : String) :
    s.onQuote snapshot now uuid =
      { s with
        strat := (Strategy.onOrderbook s.strat snapshot).2
        path := s.path.withView (s.path.shared.view.onQuote snapshot) }.publish snapshot := by
  simp only [onQuote, h]

/-- `onQuote` on an order: the check, and then the send or the publication. -/
theorem onQuote_of_order {s : Pipeline σ} {snapshot : OrderbookSnapshot}
    (h : (Strategy.onOrderbook s.strat snapshot).1 ≠ .hold) (now : Nat) (uuid : String) :
    s.onQuote snapshot now uuid =
      let outcome := Strategy.onOrderbook s.strat snapshot
      let checked := (s.path.withView (s.path.shared.view.onQuote snapshot)).onCheck outcome.1
        (referencePrice snapshot) now uuid
      if checked.sending.isSome then
        { s with strat := outcome.2, path := checked, toPublish := some snapshot }
      else { s with strat := outcome.2, path := checked }.publish snapshot := by
  unfold onQuote
  generalize Strategy.onOrderbook s.strat snapshot = outcome at h ⊢
  obtain ⟨signal, strat⟩ := outcome
  cases signal with
  | hold => exact absurd rfl h
  | buy price qty => rfl
  | sell price qty => rfl

/-- **What the thread does with a decision.**  The strategy has moved on in any case; the order
joins the orders in flight exactly when the checker admits it. -/
theorem onQuote_cases (s : Pipeline σ) (hidle : s.path.sending = none)
    (snapshot : OrderbookSnapshot) (now : Nat) (uuid : String) :
    (s.onQuote snapshot now uuid).strat = (Strategy.onOrderbook s.strat snapshot).2 ∧
    (s.onQuote snapshot now uuid).path.account = s.path.account ∧
    (∀ d, decide? s.strat snapshot s.path.risk (s.path.readings now uuid) = some d →
      d.Admitted → (s.onQuote snapshot now uuid).path.pending
        = s.path.pending ++ [⟨d.signal, uuid⟩]) ∧
    ((∀ d, decide? s.strat snapshot s.path.risk (s.path.readings now uuid) = some d →
      ¬ d.Admitted) → (s.onQuote snapshot now uuid).path.pending = s.path.pending) := by
  by_cases hhold : (Strategy.onOrderbook s.strat snapshot).1 = .hold
  · rw [onQuote_of_hold hhold, decide?_of_hold hhold]
    refine ⟨rfl, rfl, ?_, fun _ => rfl⟩
    intro d hd
    cases hd
  · rw [onQuote_of_order hhold, decide?_of_order hhold]
    simp only [Option.some.injEq, forall_eq', Decision.Admitted]
    set path := s.path.withView (s.path.shared.view.onQuote snapshot) with hpath
    by_cases hadm : s.path.risk.Admits (Strategy.onOrderbook s.strat snapshot).1
        (referencePrice snapshot) (s.path.readings now uuid)
    · -- approved: the order waits in `sending`
      have hpathadm : path.risk.Admits (Strategy.onOrderbook s.strat snapshot).1
          (referencePrice snapshot) (path.readings now uuid) := hadm
      have hcheck := OrderPath.onCheck_of_admits hpathadm
      simp only [hcheck, Option.isSome_some, if_true, hadm, not_true_eq_false, false_implies,
        true_implies, and_true, true_and]
      refine ⟨rfl, ?_⟩
      simp [OrderPath.pending, hpath, OrderPath.withView, hidle]
    · -- rejected: only the checker's memory may have changed
      have hpathadm : ¬ path.risk.Admits (Strategy.onOrderbook s.strat snapshot).1
          (referencePrice snapshot) (path.readings now uuid) := hadm
      have hcheck := OrderPath.onCheck_of_not_admits hpathadm
      have hnone : path.sending = none := hidle
      simp only [hcheck, hnone, Option.isSome_none, Bool.false_eq_true, if_false, hadm,
        not_false_eq_true, false_implies, true_implies, true_and]
      refine ⟨rfl, rfl, ?_⟩
      simp [OrderPath.pending, hpath, OrderPath.withView, hidle, publish]

/-- An event that shows the strategy nothing leaves it alone, and the order path up to the
dashboard view. -/
theorem onEvent_of_quote_none {s : Pipeline σ} {event : MarketEvent} {nowMs : UInt64}
    (h : quote s.book s.resyncNeeded nowMs event = none) (now : Nat) (uuid : String) :
    (s.onEvent event nowMs now uuid).strat = s.strat ∧
      ∃ view, (s.onEvent event nowMs now uuid).path = s.path.withView view := by
  cases event with
  | depthUpdate update =>
      simp only [quote] at h
      simp only [onEvent]
      generalize s.book.handleUpdate update s.resyncNeeded = out at h ⊢
      obtain ⟨result, book, resyncNeeded⟩ := out
      cases result with
      | error _ => exact ⟨rfl, s.path.shared.view, rfl⟩
      | ok applied =>
          cases applied with
          | false => exact ⟨rfl, _, rfl⟩
          | true =>
              cases hlive : book.isLive with
              | true => simp [hlive] at h
              | false =>
                  refine ⟨?_, s.path.shared.view.onUpdate book.isLive, ?_⟩ <;>
                    simp only [hlive, Bool.false_eq_true, if_false]
  | depthSnapshot snapshot => exact ⟨rfl, s.path.shared.view, rfl⟩
  | trade trade => exact ⟨rfl, s.path.shared.view, rfl⟩
  | reconnect => exact ⟨rfl, _, rfl⟩

/-- An event that shows the strategy a snapshot is `onQuote` on it, after the book and the
dashboard view have moved on. -/
theorem onEvent_of_quote_some {s : Pipeline σ} {event : MarketEvent} {nowMs : UInt64}
    {snapshot : OrderbookSnapshot}
    (h : quote s.book s.resyncNeeded nowMs event = some snapshot) (now : Nat) (uuid : String) :
    ∃ (s₀ : Pipeline σ) (view : MarketView), s₀.strat = s.strat ∧
      s₀.path = s.path.withView view ∧
      s.onEvent event nowMs now uuid = s₀.onQuote snapshot now uuid := by
  cases event with
  | depthUpdate update =>
      simp only [quote] at h
      simp only [onEvent]
      generalize s.book.handleUpdate update s.resyncNeeded = out at h ⊢
      obtain ⟨result, book, resyncNeeded⟩ := out
      cases result with
      | error _ => simp at h
      | ok applied =>
          cases applied with
          | false => simp at h
          | true =>
              cases hlive : book.isLive with
              | false => simp [hlive] at h
              | true =>
                  simp only [hlive, if_true, Option.some.injEq] at h
                  subst h
                  exact ⟨{ s with
                    book := book
                    resyncNeeded := resyncNeeded
                    path := s.path.withView (s.path.shared.view.onUpdate book.isLive) },
                    _, rfl, rfl, if_pos hlive⟩
  | depthSnapshot snapshot => cases h
  | trade trade => cases h
  | reconnect => cases h

/-- The executor's and the other threads' steps leave the strategy alone and make no decision. -/
theorem step_other {s s' : Pipeline σ} {l : Label} (h : s.step l = some s')
    (hl : ∀ event nowMs now uuid, l ≠ .event event nowMs now uuid) :
    s'.strat = s.strat ∧ s'.path.settled = s.path.settled := by
  have hpath : ∀ {m : OrderPath.Label} {path : OrderPath}, s.path.step m = some path →
      (∀ signal mid now uuid, m ≠ .check signal mid now uuid) →
      path.settled = s.path.settled := by
    intro m path hm hne
    rcases OrderPath.settled_step hm with ⟨order, happ, -⟩ | ⟨-, hsame⟩
    · exact absurd happ (OrderPath.not_approves_of_ne_check hne order)
    · exact hsame
  cases l with
  | event event nowMs now uuid => exact absurd rfl (hl _ _ _ _)
  | send =>
      obtain ⟨path, hstep, rfl⟩ := Option.map_eq_some_iff.mp h
      have hsettled := hpath hstep (by simp)
      cases s.toPublish with
      | none => exact ⟨rfl, hsettled⟩
      | some snapshot => exact ⟨rfl, hsettled⟩
  | take | fill | mirror | record _ =>
      obtain ⟨path, hstep, rfl⟩ := Option.map_eq_some_iff.mp h
      exact ⟨rfl, hpath hstep (by simp)⟩
  | setHalt halted =>
      obtain rfl := Option.some.inj h
      exact ⟨rfl, rfl⟩
  | setResync resyncNeeded =>
      obtain rfl := Option.some.inj h
      exact ⟨rfl, rfl⟩

/-- **What a step does to the strategy and to the settled account.**  With a decision, the
strategy has emitted it and the account takes the order exactly when it is admitted.  Without one
the account is the same, and the strategy has at most answered Hold. -/
theorem step_cases {s s' : Pipeline σ} {l : Label} (h : s.step l = some s') :
    (∃ d, s.decision l = some d ∧ s'.strat = (Strategy.onOrderbook s.strat d.snapshot).2 ∧
      d.signal = (Strategy.onOrderbook s.strat d.snapshot).1 ∧ d.signal ≠ .hold ∧
      (d.Admitted → s'.path.settled = s.path.settled.applyOrder ⟨d.signal, d.env.uuid⟩) ∧
      (¬ d.Admitted → s'.path.settled = s.path.settled)) ∨
    (s.decision l = none ∧ s'.path.settled = s.path.settled ∧
      (s'.strat = s.strat ∨
        ∃ snapshot, Strategy.onOrderbook s.strat snapshot = (.hold, s'.strat))) := by
  by_cases hl : ∀ event nowMs now uuid, l ≠ .event event nowMs now uuid
  · right
    obtain ⟨hstrat, hsettled⟩ := step_other h hl
    refine ⟨?_, hsettled, Or.inl hstrat⟩
    cases l with
    | event event nowMs now uuid => exact absurd rfl (hl _ _ _ _)
    | _ => rfl
  · simp only [not_forall, not_not] at hl
    obtain ⟨event, nowMs, now, uuid, rfl⟩ := hl
    obtain ⟨hidle, rfl⟩ := Option.ite_some_none_eq_some.mp h
    cases hquote : quote s.book s.resyncNeeded nowMs event with
    | none =>
        right
        obtain ⟨hstrat, view, hpath⟩ := onEvent_of_quote_none hquote now uuid
        refine ⟨by simp [decision, hquote], ?_, Or.inl hstrat⟩
        rw [hpath, OrderPath.withView_settled]
    | some snapshot =>
        obtain ⟨s₀, view, hstrat₀, hpath₀, heq⟩ := onEvent_of_quote_some hquote now uuid
        have hcases := s₀.onQuote_cases (by rw [hpath₀]; exact hidle) snapshot now uuid
        rw [← heq, hstrat₀, hpath₀] at hcases
        simp only [OrderPath.withView_account, OrderPath.withView_pending,
          OrderPath.withView_risk, OrderPath.withView_readings] at hcases
        obtain ⟨hstrat, hacct, hyes, hno⟩ := hcases
        have hdecision : s.decision (.event event nowMs now uuid)
            = decide? s.strat snapshot s.path.risk (s.path.readings now uuid) := by
          simp only [decision, hquote, Option.bind_some]
        rw [hdecision]
        cases hd : decide? s.strat snapshot s.path.risk (s.path.readings now uuid) with
        | none =>
            right
            have hpend := hno fun d hd' => by rw [hd] at hd'; cases hd'
            refine ⟨rfl, ?_, Or.inr ⟨snapshot, ?_⟩⟩
            · rw [OrderPath.settled, OrderPath.settled, hacct, hpend]
            · rw [hstrat]
              exact Prod.ext (decide?_eq_none hd) rfl
        | some d =>
            left
            obtain ⟨rfl, hsignal, hne, -, henv⟩ := decide?_eq_some hd
            refine ⟨d, rfl, hstrat, hsignal, hne, ?_, ?_⟩
            · intro hadm
              rw [OrderPath.settled, OrderPath.settled, hacct, hyes d hd hadm, settle_concat, henv]
              rfl
            · intro hadm
              have hpend := hno fun d' hd' => by
                rw [hd] at hd'
                exact Option.some.inj hd' ▸ hadm
              rw [OrderPath.settled, OrderPath.settled, hacct, hpend]

/-! ## §4 Draining -/

/-- From every state there is a run without market events after which nothing is in flight, the
account is the settled one and the strategy is where it was. -/
theorem exists_drain (s : Pipeline σ) :
    ∃ ls s', machine.exec s ls = some s' ∧ s'.path.pending = [] ∧
      s'.path.account = s.path.settled ∧ s'.strat = s.strat := by
  induction hn : s.path.backlog using Nat.strong_induction_on generalizing s with
  | _ n ih =>
      by_cases hpend : s.path.pending = []
      · exact ⟨[], s, rfl, hpend, (OrderPath.settled_of_pending_nil hpend).symm, rfl⟩
      obtain ⟨m, path, hm, hstep, hless⟩ := OrderPath.exists_draining_step hpend
      -- the same step, taken by the pipeline
      obtain ⟨l, mid, hmid, hbacklog, hne⟩ : ∃ l mid, s.step l = some mid ∧
          mid.path.backlog = path.backlog ∧ ∀ event nowMs now uuid,
            l ≠ .event event nowMs now uuid := by
        cases m with
        | send =>
            cases hpub : s.toPublish with
            | none => exact ⟨.send, _, by simp only [step, hstep, hpub, Option.map_some]; rfl,
                rfl, by simp⟩
            | some snapshot => exact ⟨.send, _, by
                simp only [step, hstep, hpub, Option.map_some]; rfl, rfl, by simp⟩
        | take => exact ⟨.take, _, by simp only [step, hstep, Option.map_some]; rfl, rfl, by simp⟩
        | fill => exact ⟨.fill, _, by simp only [step, hstep, Option.map_some]; rfl, rfl, by simp⟩
        | mirror => exact ⟨.mirror, _, by simp only [step, hstep, Option.map_some]; rfl, rfl,
            by simp⟩
        | record timestamp => exact ⟨.record timestamp, _, by
            simp only [step, hstep, Option.map_some]; rfl, rfl, by simp⟩
        | check signal mid now uuid => exact hm.elim
        | setHalt halted => exact hm.elim
        | publish view => exact hm.elim
      obtain ⟨hstrat, hsettled⟩ := step_other hmid hne
      have hsmaller : mid.path.backlog < n := by
        rw [hbacklog]
        omega
      obtain ⟨ls, s', hrun, hnil, hacct, hstrat'⟩ := ih mid.path.backlog hsmaller mid rfl
      exact ⟨l :: ls, s', machine.exec_cons_eq_some.mpr ⟨mid, hmid, hrun⟩, hnil,
        hacct.trans hsettled, hstrat'.trans hstrat⟩

/-! ## §5 A market to run on -/

/-- A market with one level a side, and one update that leaves it as it is. -/
def singleQuote (bid ask : String) : List MarketEvent :=
  [.depthSnapshot ⟨10, [(bid, "1")], [(ask, "1")]⟩,
    .depthUpdate ⟨"depthUpdate", 0, "BTCUSDT", 11, 11, 10, [], []⟩]

/-- The events of that market, all handled at time zero. -/
def quoteEvents (bid ask : String) : List Label :=
  (singleQuote bid ask).map fun event => .event event 0 0 "a"

end Pipeline

end CryptoTrader
