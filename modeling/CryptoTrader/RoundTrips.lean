/-
# CryptoTrader.RoundTrips — both strategies trade in strict round trips.

A strategy is a transducer: a sequence of order book snapshots in, one signal each out.  What the
trades of a run look like is a grammar over its trace (`Lib.Episodes`): Holds while flat, a Buy
that opens a round trip, Holds while the exit is not due, a Sell of the same quantity that closes
it.  Each strategy has its own rule for the prices and for when the exit is due, counted from the
Buy and from nothing the strategy remembers; that the flag, the entry price, the entry quantity and
the tick counter of the strategy say the same is the invariant behind it.
-/
import CryptoTrader.Risk
import CryptoTrader.Strategy
import CryptoTrader.Lib.Episodes

namespace CryptoTrader

open Lib

/-! ## §1 Signals in order -/

/-- A strategy as a transducer of snapshots into signals. -/
def Strategy.transducer (σ : Type) [Strategy σ] : Transducer σ OrderbookSnapshot Signal :=
  ⟨Strategy.onOrderbook⟩

section

variable {σ : Type} [Strategy σ]

/-- The snapshots fed to a strategy with the signals it answers. -/
def trace (strat : σ) (snapshots : List OrderbookSnapshot) : List (OrderbookSnapshot × Signal) :=
  (Strategy.transducer σ).trace strat snapshots

/-- The strategy after a sequence of snapshots. -/
def afterAll (strat : σ) (snapshots : List OrderbookSnapshot) : σ :=
  (Strategy.transducer σ).after strat snapshots

/-- The answer to a snapshot after a sequence of others. -/
def signalAfter (strat : σ) (before : List OrderbookSnapshot) (snapshot : OrderbookSnapshot) :
    Signal :=
  (Strategy.onOrderbook (afterAll strat before) snapshot).1

theorem afterAll_append (strat : σ) (xs ys : List OrderbookSnapshot) :
    afterAll strat (xs ++ ys) = afterAll (afterAll strat xs) ys :=
  (Strategy.transducer σ).after_append strat xs ys

theorem trace_append (strat : σ) (xs ys : List OrderbookSnapshot) :
    trace strat (xs ++ ys) = trace strat xs ++ trace (afterAll strat xs) ys :=
  (Strategy.transducer σ).trace_append strat xs ys

end

/-- A signal that is not a Hold. -/
def Signal.order? : Signal → Option Signal
  | .hold => none
  | signal => some signal

/-- The signals of a trace that are not Holds. -/
def orders (trace : List (OrderbookSnapshot × Signal)) : List Signal :=
  trace.filterMap fun e => e.2.order?

theorem orders_append (xs ys : List (OrderbookSnapshot × Signal)) :
    orders (xs ++ ys) = orders xs ++ orders ys := List.filterMap_append

def Signal.IsEntry (signal : Signal) : Prop := ∃ price qty, signal = .buy price qty ∧ 0 < qty

/-- A Sell of exactly the quantity of the entry. -/
def Signal.IsExitOf (entry signal : Signal) : Prop :=
  ∃ entryPrice price qty, entry = .buy entryPrice qty ∧ signal = .sell price qty

/-- Buy, Sell, Buy, and so on: each Buy of a positive quantity, each Sell of the quantity bought
before it. -/
def RoundTrips (signals : List Signal) : Prop :=
  Alternating Signal.IsEntry Signal.IsExitOf signals

/-- The best bids and asks of the two-sided snapshots of a sequence. -/
def quotesOf (snapshots : List OrderbookSnapshot) : List (ℚ × ℚ) :=
  snapshots.filterMap OrderbookSnapshot.quote?

theorem quotesOf_append (xs ys : List OrderbookSnapshot) :
    quotesOf (xs ++ ys) = quotesOf xs ++ quotesOf ys :=
  List.filterMap_append

theorem order?_of_ne {signal : Signal} (h : signal ≠ .hold) : signal.order? = some signal := by
  cases signal with
  | hold => exact absurd rfl h
  | buy price qty => rfl
  | sell price qty => rfl

/-- In a grammar whose quiet events are Holds, and whose openings and closings are orders, the
orders alternate. -/
theorem alternating_orders {G : Grammar (OrderbookSnapshot × Signal)} {opens : Signal → Prop}
    {closes : Signal → Signal → Prop} (hidle : ∀ e, G.idle e → e.2 = .hold)
    (hopens : ∀ e, G.opens e → e.2 ≠ .hold ∧ opens e.2)
    (hwaits : ∀ o since e, G.waits o since e → e.2 = .hold)
    (hcloses : ∀ o since e, G.closes o since e → e.2 ≠ .hold ∧ closes o.2 e.2)
    {trace : List (OrderbookSnapshot × Signal)} (h : G.Episodes .outside trace) :
    Alternating opens closes (orders trace) := by
  have hhold : ∀ e : OrderbookSnapshot × Signal, e.2 = .hold → e.2.order? = none := by
    intro e he
    rw [he]
    rfl
  refine h.alternating (fun e he => hhold e (hidle e he)) ?_
    (fun o since e he => hhold e (hwaits o since e he)) ?_
  · intro e he
    obtain ⟨hne, hopen⟩ := hopens e he
    exact ⟨e.2, order?_of_ne hne, hopen⟩
  · intro o since e ho he
    obtain ⟨hne, hclose⟩ := hcloses o since e he
    exact ⟨o.2, e.2, order?_of_ne (hopens o ho).1, order?_of_ne hne, hclose⟩

/-! ## §2 `PingPongStrategy` -/

namespace PingPongStrategy

/-- A new strategy, with a budget if there is one. -/
def configured (qty minEdgePct stopPct : ℚ) (maxNotional : Option ℚ) : PingPongStrategy :=
  match maxNotional with
  | some budget => (new qty minEdgePct stopPct).withMaxNotional budget
  | none => new qty minEdgePct stopPct

theorem configured_flat (qty minEdgePct stopPct : ℚ) (maxNotional : Option ℚ) :
    (configured qty minEdgePct stopPct maxNotional).holding = false := by
  cases maxNotional <;> rfl

/-- The strategy in the course of a run: what it was set up with does not change. -/
structure SameSettings (strat strat' : PingPongStrategy) : Prop where
  qty : strat'.qty = strat.qty
  maxNotional : strat'.maxNotional = strat.maxNotional
  minEdgePct : strat'.minEdgePct = strat.minEdgePct
  stopPct : strat'.stopPct = strat.stopPct

theorem SameSettings.refl (strat : PingPongStrategy) : strat.SameSettings strat :=
  ⟨rfl, rfl, rfl, rfl⟩

theorem SameSettings.step {strat strat' : PingPongStrategy} (h : strat.SameSettings strat')
    {snapshot : OrderbookSnapshot} {outcome : Signal × PingPongStrategy}
    (hstep : strat'.Step snapshot outcome) : strat.SameSettings outcome.2 := by
  cases hstep <;> exact ⟨h.qty, h.maxNotional, h.minEdgePct, h.stopPct⟩

theorem settings_afterAll (strat : PingPongStrategy) (snapshots : List OrderbookSnapshot) :
    strat.SameSettings (afterAll strat snapshots) :=
  (Strategy.transducer PingPongStrategy).after_invariant
    (fun strat' snapshot h => h.step (strat'.onOrderbook_step snapshot)) (.refl strat) snapshots

theorem SameSettings.entryQtyAt_eq {strat strat' : PingPongStrategy} (h : strat.SameSettings strat')
    (price : ℚ) : strat'.entryQtyAt price = strat.entryQtyAt price := by
  unfold entryQtyAt
  rw [h.qty, h.maxNotional]

/-- The round trips of the strategy: in at the best bid, with the entry quantity at that price; out
at the best ask once it clears the entry by the edge, or at the best bid once it has dropped by the
stop. -/
def grammar (strat : PingPongStrategy) : Grammar (OrderbookSnapshot × Signal) where
  idle e := e.2 = .hold
  opens e := ∃ bestBid bestAsk, e.1.quote? = some (bestBid, bestAsk) ∧
    0 < strat.entryQtyAt bestBid ∧ e.2 = .buy bestBid (strat.entryQtyAt bestBid)
  waits _ _ e := e.2 = .hold
  closes o _ e := ∃ entry qty price bestBid bestAsk, o.2 = .buy entry qty ∧
    e.1.quote? = some (bestBid, bestAsk) ∧ e.2 = .sell price qty ∧
    (entry * (1 + strat.minEdgePct / 100) ≤ price ∧ price = bestAsk ∨
      price ≤ entry * (1 - strat.stopPct / 100) ∧ price = bestBid)

/-- What the strategy remembers in each phase. -/
structure Follows (strat : PingPongStrategy) (phase : Phase (OrderbookSnapshot × Signal))
    (strat' : PingPongStrategy) : Prop where
  settings : strat.SameSettings strat'
  view : match phase with
    | .outside => strat'.holding = false
    | .inside o _ => strat'.holding = true ∧ o.2 = .buy strat'.entryPrice strat'.entryQty

theorem Follows.step {strat : PingPongStrategy} {phase : Phase (OrderbookSnapshot × Signal)}
    {strat' : PingPongStrategy} (h : strat.Follows phase strat') {snapshot : OrderbookSnapshot}
    {outcome : Signal × PingPongStrategy} (hstep : strat'.Step snapshot outcome) :
    ∃ phase', strat.grammar.Moves phase (snapshot, outcome.1) phase' ∧
      strat.Follows phase' outcome.2 := by
  have hsettings := h.settings.step hstep
  have hview := h.view
  cases phase with
  | outside =>
      have hflat : strat'.holding = false := hview
      cases hstep with
      | oneSided _ => exact ⟨.outside, .idle rfl, hsettings, hflat⟩
      | tooSmall _ _ _ => exact ⟨.outside, .idle rfl, hsettings, hflat⟩
      | @entry bestBid bestAsk hquote _ hqty =>
          rw [h.settings.entryQtyAt_eq] at hqty hsettings ⊢
          exact ⟨.inside _ [], .opens ⟨bestBid, bestAsk, hquote, hqty, rfl⟩, hsettings, rfl, rfl⟩
      | takeProfit _ hholding _ => exact absurd (hflat.symm.trans hholding) (by decide)
      | stopOut _ hholding _ _ => exact absurd (hflat.symm.trans hholding) (by decide)
      | waiting _ hholding _ _ => exact absurd (hflat.symm.trans hholding) (by decide)
  | inside o since =>
      obtain ⟨hholding, hbuy⟩ := hview
      cases hstep with
      | oneSided _ => exact ⟨.inside o _, .waits rfl, hsettings, hholding, hbuy⟩
      | tooSmall _ hflat _ => exact absurd (hflat.symm.trans hholding) (by decide)
      | entry _ hflat _ => exact absurd (hflat.symm.trans hholding) (by decide)
      | takeProfit hquote _ hprofit =>
          rw [h.settings.minEdgePct] at hprofit
          exact ⟨.outside, .closes ⟨_, _, _, _, _, hbuy, hquote, rfl, Or.inl ⟨hprofit, rfl⟩⟩,
            hsettings, rfl⟩
      | stopOut hquote _ _ hstop =>
          rw [h.settings.stopPct] at hstop
          exact ⟨.outside, .closes ⟨_, _, _, _, _, hbuy, hquote, rfl, Or.inr ⟨hstop, rfl⟩⟩,
            hsettings, rfl⟩
      | waiting _ _ _ _ => exact ⟨.inside o _, .waits rfl, hsettings, hholding, hbuy⟩

/-- The trace of a flat strategy. -/
theorem episodes {strat : PingPongStrategy} (hflat : strat.holding = false)
    (snapshots : List OrderbookSnapshot) :
    strat.grammar.Episodes .outside (trace strat snapshots) := by
  have hstart : strat.Follows .outside strat := ⟨.refl strat, hflat⟩
  exact episodes_trace (fun _ strat' snapshot h => h.step (strat'.onOrderbook_step snapshot)) hstart
    snapshots

/-- The prices of a round trip. -/
def Priced (strat : PingPongStrategy) (entry signal : Signal) : Prop :=
  entry.price * (1 + strat.minEdgePct / 100) ≤ signal.price ∨
    signal.price ≤ entry.price * (1 - strat.stopPct / 100)

/-- The orders of a flat strategy alternate: an entry of the entry quantity at its price, and its
exit at a price that clears the edge or the stop. -/
theorem alternating {strat : PingPongStrategy} (hflat : strat.holding = false)
    (snapshots : List OrderbookSnapshot) :
    Alternating
      (fun o => ∃ price, 0 < strat.entryQtyAt price ∧ o = .buy price (strat.entryQtyAt price))
      (fun o c => o.IsExitOf c ∧ strat.Priced o c) (orders (trace strat snapshots)) := by
  have hepisodes := episodes hflat snapshots
  refine alternating_orders (fun e he => he) ?_ (fun _ _ e he => he) ?_ hepisodes
  · rintro e ⟨bestBid, bestAsk, _, hqty, hbuy⟩
    rw [hbuy]
    exact ⟨by simp, bestBid, hqty, rfl⟩
  · rintro o since e ⟨entry, qty, price, bestBid, bestAsk, hbuy, _, hsell, hprice⟩
    rw [hbuy, hsell]
    exact ⟨by simp, ⟨entry, price, qty, rfl, rfl⟩,
      hprice.imp (fun h => h.1) (fun h => h.1)⟩

theorem roundTrips {strat : PingPongStrategy} (hflat : strat.holding = false)
    (snapshots : List OrderbookSnapshot) : RoundTrips (orders (trace strat snapshots)) :=
  (alternating hflat snapshots).mono (fun _ ⟨price, hqty, hbuy⟩ => ⟨price, _, hbuy, hqty⟩)
    (fun _ _ _ hclose => hclose.1)

end PingPongStrategy

/-! ## §3 `MomentumScalpStrategy` -/

namespace MomentumScalpStrategy

/-- A new strategy, with a budget if there is one. -/
def configured (qty : ℚ) (lookbackTicks : Nat) (entryMomPct imbalanceMin tpPct stopPct : ℚ)
    (maxHoldTicks cooldownTicks : UInt32) (maxNotional : Option ℚ) : MomentumScalpStrategy :=
  let strat := new qty lookbackTicks entryMomPct imbalanceMin tpPct stopPct maxHoldTicks
    cooldownTicks
  match maxNotional with
  | some budget => strat.withMaxNotional budget
  | none => strat

theorem configured_flat (qty : ℚ) (lookbackTicks : Nat)
    (entryMomPct imbalanceMin tpPct stopPct : ℚ) (maxHoldTicks cooldownTicks : UInt32)
    (maxNotional : Option ℚ) :
    (configured qty lookbackTicks entryMomPct imbalanceMin tpPct stopPct maxHoldTicks
      cooldownTicks maxNotional).holding = false := by
  cases maxNotional <;> rfl

/-- The strategy in the course of a run: what it was set up with does not change. -/
structure SameSettings (strat strat' : MomentumScalpStrategy) : Prop where
  qty : strat'.qty = strat.qty
  maxNotional : strat'.maxNotional = strat.maxNotional
  lookbackTicks : strat'.lookbackTicks = strat.lookbackTicks
  entryMomPct : strat'.entryMomPct = strat.entryMomPct
  imbalanceMin : strat'.imbalanceMin = strat.imbalanceMin
  tpPct : strat'.tpPct = strat.tpPct
  stopPct : strat'.stopPct = strat.stopPct
  maxHoldTicks : strat'.maxHoldTicks = strat.maxHoldTicks
  cooldownTicks : strat'.cooldownTicks = strat.cooldownTicks

theorem SameSettings.refl (strat : MomentumScalpStrategy) : strat.SameSettings strat :=
  ⟨rfl, rfl, rfl, rfl, rfl, rfl, rfl, rfl, rfl⟩

theorem SameSettings.step {strat strat' : MomentumScalpStrategy} (h : strat.SameSettings strat')
    {snapshot : OrderbookSnapshot} {outcome : Signal × MomentumScalpStrategy}
    (hstep : strat'.Step snapshot outcome) : strat.SameSettings outcome.2 := by
  cases hstep <;>
    exact ⟨h.qty, h.maxNotional, h.lookbackTicks, h.entryMomPct, h.imbalanceMin, h.tpPct,
      h.stopPct, h.maxHoldTicks, h.cooldownTicks⟩

/-- The exit is due on a snapshot: it is two-sided and its best bid reaches the take profit or the
stop of the entry, or it is the `max_hold_ticks`-th two-sided snapshot since. -/
def ExitDue (strat : MomentumScalpStrategy) (entry : ℚ) (since : List OrderbookSnapshot)
    (snapshot : OrderbookSnapshot) : Prop :=
  ∃ bestBid bestAsk, snapshot.quote? = some (bestBid, bestAsk) ∧
    (entry * (1 + strat.tpPct / 100) ≤ bestBid ∨ bestBid ≤ entry * (1 - strat.stopPct / 100) ∨
      strat.maxHoldTicks.toNat ≤ (quotesOf since).length + 1)

theorem settings_afterAll (strat : MomentumScalpStrategy) (snapshots : List OrderbookSnapshot) :
    strat.SameSettings (afterAll strat snapshots) :=
  (Strategy.transducer MomentumScalpStrategy).after_invariant
    (fun strat' snapshot h => h.step (strat'.onOrderbook_step snapshot)) (.refl strat) snapshots

theorem SameSettings.entryQtyAt_eq {strat strat' : MomentumScalpStrategy}
    (h : strat.SameSettings strat') (price : ℚ) :
    strat'.entryQtyAt price = strat.entryQtyAt price := by
  unfold entryQtyAt
  rw [h.qty, h.maxNotional]

/-- The round trips of the strategy: in at the best ask, with the entry quantity at that price; out
at the best bid of the first snapshot on which the exit is due. -/
def grammar (strat : MomentumScalpStrategy) : Grammar (OrderbookSnapshot × Signal) where
  idle e := e.2 = .hold
  opens e := ∃ bestBid bestAsk, e.1.quote? = some (bestBid, bestAsk) ∧
    0 < strat.entryQtyAt bestAsk ∧ e.2 = .buy bestAsk (strat.entryQtyAt bestAsk)
  waits o since e := e.2 = .hold ∧ ∀ entry qty, o.2 = .buy entry qty →
    ¬ strat.ExitDue entry (since.map Prod.fst) e.1
  closes o since e := ∃ entry qty bestBid bestAsk, o.2 = .buy entry qty ∧
    e.1.quote? = some (bestBid, bestAsk) ∧ e.2 = .sell bestBid qty ∧
    strat.ExitDue entry (since.map Prod.fst) e.1

/-- `held_ticks` counts the two-sided snapshots since the entry, and is below the time stop (or
zero) while the position is held. -/
structure Holding (strat : MomentumScalpStrategy) (sinceEntry : Nat) : Prop where
  holding : strat.holding = true
  heldTicks : strat.heldTicks.toNat = sinceEntry
  inTime : sinceEntry < max 1 strat.maxHoldTicks.toNat

/-- The next tick does not overflow the counter. -/
theorem Holding.toNat_succ {strat : MomentumScalpStrategy} {sinceEntry : Nat}
    (h : strat.Holding sinceEntry) : (strat.heldTicks + 1).toNat = sinceEntry + 1 := by
  have hbound := strat.maxHoldTicks.toNat_lt
  have hheld := h.heldTicks
  have htime := h.inTime
  rw [UInt32.toNat_add, hheld, UInt32.toNat_one]
  exact Nat.mod_eq_of_lt (by omega)

/-- While holding, the exits the code tests are those that are due. -/
theorem Holding.exitHit_iff {strat : MomentumScalpStrategy} {sinceEntry : Nat}
    (h : strat.Holding sinceEntry) (bestBid : ℚ) :
    strat.ExitHit bestBid ↔ strat.entryPrice * (1 + strat.tpPct / 100) ≤ bestBid ∨
      bestBid ≤ strat.entryPrice * (1 - strat.stopPct / 100) ∨
      strat.maxHoldTicks.toNat ≤ sinceEntry + 1 := by
  unfold ExitHit
  rw [UInt32.le_iff_toNat_le, h.toNat_succ]

/-- A tick on which no exit is hit. -/
theorem Holding.tick {strat : MomentumScalpStrategy} {sinceEntry : Nat}
    (h : strat.Holding sinceEntry) {bestBid : ℚ} (hexit : ¬ strat.ExitHit bestBid) (mid : ℚ) :
    Holding { strat.pushPrice mid with heldTicks := strat.heldTicks + 1 } (sinceEntry + 1) where
  holding := h.holding
  heldTicks := h.toNat_succ
  inTime := by
    rw [h.exitHit_iff] at hexit
    show sinceEntry + 1 < max 1 strat.maxHoldTicks.toNat
    simp only [not_or, not_le] at hexit
    omega

/-- What the strategy remembers in each phase. -/
structure Follows (strat : MomentumScalpStrategy) (phase : Phase (OrderbookSnapshot × Signal))
    (strat' : MomentumScalpStrategy) : Prop where
  settings : strat.SameSettings strat'
  view : match phase with
    | .outside => strat'.holding = false
    | .inside o since => strat'.Holding (quotesOf (since.map Prod.fst)).length ∧
        o.2 = .buy strat'.entryPrice strat'.entryQty

theorem Follows.step {strat : MomentumScalpStrategy} {phase : Phase (OrderbookSnapshot × Signal)}
    {strat' : MomentumScalpStrategy} (h : strat.Follows phase strat')
    {snapshot : OrderbookSnapshot} {outcome : Signal × MomentumScalpStrategy}
    (hstep : strat'.Step snapshot outcome) :
    ∃ phase', strat.grammar.Moves phase (snapshot, outcome.1) phase' ∧
      strat.Follows phase' outcome.2 := by
  have hsettings := h.settings.step hstep
  have hview := h.view
  cases phase with
  | outside =>
      have hflat : strat'.holding = false := hview
      cases hstep with
      | oneSided _ => exact ⟨.outside, .idle rfl, hsettings, hflat⟩
      | exit _ hholding _ => exact absurd (hflat.symm.trans hholding) (by decide)
      | held _ hholding _ => exact absurd (hflat.symm.trans hholding) (by decide)
      | cooling _ _ _ => exact ⟨.outside, .idle rfl, hsettings, hflat⟩
      | quiet _ _ _ _ => exact ⟨.outside, .idle rfl, hsettings, hflat⟩
      | @entry bestBid bestAsk hquote _ _ _ _ hqty =>
          rw [h.settings.entryQtyAt_eq] at hqty hsettings ⊢
          refine ⟨.inside _ [], .opens ⟨bestBid, bestAsk, hquote, hqty, rfl⟩, hsettings, ?_, rfl⟩
          exact ⟨rfl, rfl, Nat.lt_of_lt_of_le Nat.zero_lt_one (Nat.le_max_left _ _)⟩
  | inside o since =>
      obtain ⟨hholding, hbuy⟩ := hview
      have hdue : ∀ bestBid bestAsk, snapshot.quote? = some (bestBid, bestAsk) →
          (strat'.ExitHit bestBid ↔
            strat.ExitDue strat'.entryPrice (since.map Prod.fst) snapshot) := by
        intro bestBid bestAsk hquote
        rw [hholding.exitHit_iff, h.settings.tpPct, h.settings.stopPct, h.settings.maxHoldTicks]
        constructor
        · exact fun hexit => ⟨bestBid, bestAsk, hquote, hexit⟩
        · rintro ⟨bid, ask, hquote', hexit⟩
          obtain ⟨rfl, rfl⟩ := Prod.mk.inj (Option.some.inj (hquote.symm.trans hquote'))
          exact hexit
      have hentry : ∀ entry qty, o.2 = .buy entry qty → entry = strat'.entryPrice := by
        intro entry qty hbuy'
        exact (Signal.buy.inj (hbuy'.symm.trans hbuy)).1
      cases hstep with
      | oneSided hquote =>
          refine ⟨.inside o _, .waits ⟨rfl, ?_⟩, hsettings, ?_, hbuy⟩
          · rintro entry qty _ ⟨bid, ask, hquote', _⟩
            exact absurd (hquote.symm.trans hquote') (by simp)
          · rw [List.map_append, quotesOf_append, List.length_append]
            simpa [quotesOf, hquote] using hholding
      | exit hquote _ hexit =>
          exact ⟨.outside, .closes ⟨_, _, _, _, hbuy, hquote, rfl, (hdue _ _ hquote).mp hexit⟩,
            hsettings, rfl⟩
      | @held bestBid bestAsk hquote _ hexit =>
          refine ⟨.inside o _, .waits ⟨rfl, ?_⟩, hsettings, ?_, hbuy⟩
          · intro entry qty hbuy'
            rw [hentry entry qty hbuy']
            exact fun hd => hexit ((hdue _ _ hquote).mpr hd)
          · rw [List.map_append, quotesOf_append, List.length_append]
            simpa [quotesOf, hquote] using hholding.tick hexit ((bestBid + bestAsk) / 2)
      | cooling _ hflat _ => exact absurd (hflat.symm.trans hholding.holding) (by decide)
      | quiet _ hflat _ _ => exact absurd (hflat.symm.trans hholding.holding) (by decide)
      | entry _ hflat _ _ _ _ => exact absurd (hflat.symm.trans hholding.holding) (by decide)

/-- The trace of a flat strategy. -/
theorem episodes {strat : MomentumScalpStrategy} (hflat : strat.holding = false)
    (snapshots : List OrderbookSnapshot) :
    strat.grammar.Episodes .outside (trace strat snapshots) := by
  have hstart : strat.Follows .outside strat := ⟨.refl strat, hflat⟩
  exact episodes_trace (fun _ strat' snapshot h => h.step (strat'.onOrderbook_step snapshot)) hstart
    snapshots

/-- The orders of a flat strategy alternate. -/
theorem alternating {strat : MomentumScalpStrategy} (hflat : strat.holding = false)
    (snapshots : List OrderbookSnapshot) :
    Alternating
      (fun o => ∃ price, 0 < strat.entryQtyAt price ∧ o = .buy price (strat.entryQtyAt price))
      Signal.IsExitOf (orders (trace strat snapshots)) := by
  have hepisodes := episodes hflat snapshots
  refine alternating_orders (fun e he => he) ?_ ?_ ?_ hepisodes
  · rintro e ⟨bestBid, bestAsk, _, hqty, hbuy⟩
    rw [hbuy]
    exact ⟨by simp, bestAsk, hqty, rfl⟩
  · rintro o since e ⟨hhold, _⟩
    exact hhold
  · rintro o since e ⟨entry, qty, bestBid, bestAsk, hbuy, _, hsell, _⟩
    rw [hbuy, hsell]
    exact ⟨by simp, entry, bestBid, qty, rfl, rfl⟩

theorem roundTrips {strat : MomentumScalpStrategy} (hflat : strat.holding = false)
    (snapshots : List OrderbookSnapshot) : RoundTrips (orders (trace strat snapshots)) :=
  (alternating hflat snapshots).mono (fun _ ⟨price, hqty, hbuy⟩ => ⟨price, _, hbuy, hqty⟩)
    (fun _ _ _ hclose => hclose)

end MomentumScalpStrategy

/-! ## §4 Every run of either strategy -/

/-- **Strict round trips.**  Whatever the parameters, the budget and the snapshots: the orders of a
new `PingPongStrategy` and of a new `MomentumScalpStrategy` alternate Buy, Sell, Buy, each Sell
with the quantity of the Buy before it; and the whole trace follows the strategy's own rule for
prices and exits. -/
theorem strict_round_trips (qty : ℚ) (maxNotional : Option ℚ)
    (snapshots : List OrderbookSnapshot) :
    (∀ minEdgePct stopPct,
      let strat := PingPongStrategy.configured qty minEdgePct stopPct maxNotional
      RoundTrips (orders (trace strat snapshots)) ∧
        strat.grammar.Episodes .outside (trace strat snapshots)) ∧
    (∀ lookbackTicks entryMomPct imbalanceMin tpPct stopPct maxHoldTicks cooldownTicks,
      let strat := MomentumScalpStrategy.configured qty lookbackTicks entryMomPct imbalanceMin
        tpPct stopPct maxHoldTicks cooldownTicks maxNotional
      RoundTrips (orders (trace strat snapshots)) ∧
        strat.grammar.Episodes .outside (trace strat snapshots)) := by
  refine ⟨?_, ?_⟩
  · intro minEdgePct stopPct strat
    have hflat := PingPongStrategy.configured_flat qty minEdgePct stopPct maxNotional
    exact ⟨PingPongStrategy.roundTrips hflat snapshots, PingPongStrategy.episodes hflat snapshots⟩
  · intro lookbackTicks entryMomPct imbalanceMin tpPct stopPct maxHoldTicks cooldownTicks strat
    have hflat := MomentumScalpStrategy.configured_flat qty lookbackTicks entryMomPct imbalanceMin
      tpPct stopPct maxHoldTicks cooldownTicks maxNotional
    exact ⟨MomentumScalpStrategy.roundTrips hflat snapshots,
      MomentumScalpStrategy.episodes hflat snapshots⟩

end CryptoTrader
