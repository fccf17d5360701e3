/-
# CryptoTrader.RoundTripBacktest — the profit of a backtest is the sum of its pairs.

A backtest joins the book, the strategy, the risk checker, the list of trades and the tracker.  When
the checker refuses nothing, what it records is what the strategy orders on the snapshots it is
shown (`trades_of_none_rejected`): no order is dropped, doubled or moved.  When the strategy trades
in round trips of multiples of the step, each Buy meets an empty queue and each Sell the one lot of
its Buy, so every pair realizes its own gain and leaves no residue (`realizedPnl_of_roundTrips`).
-/
import CryptoTrader.Sizing
import CryptoTrader.Reconciliation
import CryptoTrader.UnsyncedBacktest

namespace CryptoTrader

open Lib Lib.Deferred PnlLedger Reconciliation

/-! ## §1 Pairs -/

/-- Buy, Sell, Buy, and so on, in positive multiples of the step. -/
def SteppedTrips (signals : List Signal) : Prop :=
  Alternating (fun o => o.IsEntry ∧ Stepped o) Signal.IsExitOf signals

/-- What a completed pair earns. -/
def gain (pair : Signal × Signal) : ℚ := (pair.2.price - pair.1.price) * pair.1.qty

/-- **A round trip** leaves the queue empty and its gain realized. -/
theorem applySignal_pair {pnl : FifoPnl} (hflat : pnl.buyQueue = []) {entry exit : Signal}
    (hentry : entry.IsEntry ∧ Stepped entry) (hexit : entry.IsExitOf exit) :
    ((pnl.applySignal entry).applySignal exit).buyQueue = [] ∧
      ((pnl.applySignal entry).applySignal exit).realizedPnl
        = pnl.realizedPnl + gain (entry, exit) := by
  obtain ⟨entryPrice, price, qty, rfl, rfl⟩ := hexit
  have hqty : qtyStep ≤ qty := hentry.2.2.le_of_pos qtyStep_pos hentry.2.1
  have hqueue : (pnl.onBuy entryPrice qty).buyQueue = [(entryPrice, qty)] := by
    show pnl.buyQueue ++ [(entryPrice, qty)] = _
    rw [hflat, List.nil_append]
  simp only [FifoPnl.applySignal]
  rw [onSell_whole hqueue hqty price]
  exact ⟨rfl, rfl⟩

/-- **The profit of round trips** is the sum of the gains; a Buy still open adds nothing. -/
theorem realizedPnl_of_roundTrips {signals : List Signal} (h : SteppedTrips signals)
    {pnl : FifoPnl} (hflat : pnl.buyQueue = []) :
    (settle FifoPnl.applySignal pnl signals).realizedPnl
      = pnl.realizedPnl + ((pairs signals).map gain).sum := by
  unfold SteppedTrips at h
  induction h generalizing pnl with
  | nil => exact (add_zero _).symm
  | opened hopen =>
      obtain ⟨⟨price, qty, rfl, _⟩, _⟩ := hopen
      exact (add_zero _).symm
  | @pair entry exit rest hopen hclose _ ih =>
      obtain ⟨hflat', hgain⟩ := applySignal_pair hflat hopen hclose
      rw [settle_cons, settle_cons, ih hflat', hgain, add_assoc]
      rfl

/-! ## §2 What a backtest records -/

namespace Backtester

variable {σ : Type} [Strategy σ]

/-- The checker approves the order of this step, if there is one. -/
def Approves (bt : Backtester σ) (tick : Tick) : Prop := Decision.NoneRejected (bt.decision tick)

instance (bt : Backtester σ) (tick : Tick) : Decidable (bt.Approves tick) :=
  inferInstanceAs (Decidable (Decision.NoneRejected (bt.decision tick)))

theorem signals_ofSignal {signal : Signal} (timestampMs : UInt64) :
    (BacktestTrade.ofSignal signal timestampMs).map signalOf = signal.order?.toList := by
  cases signal <;> rfl

theorem orders_trace_singleton (strat : σ) (snapshot : OrderbookSnapshot) :
    orders (trace strat [snapshot]) = (Strategy.onOrderbook strat snapshot).1.order?.toList :=
  rfl

/-- What follows an applied update, if the checker approves. -/
theorem onQuote_recorded {bt : Backtester σ} {snapshot : OrderbookSnapshot} {env : Readings}
    (h : Decision.NoneRejected (decide? bt.strategy snapshot bt.risk env)) (timestampMs : UInt64) :
    (bt.onQuote snapshot env timestampMs).strategy = afterAll bt.strategy [snapshot] ∧
    (bt.onQuote snapshot env timestampMs).trades.map signalOf
      = bt.trades.map signalOf ++ orders (trace bt.strategy [snapshot]) := by
  rw [orders_trace_singleton]
  by_cases hhold : (Strategy.onOrderbook bt.strategy snapshot).1 = .hold
  · rw [onQuote_of_hold hhold, hhold]
    exact ⟨rfl, (List.append_nil _).symm⟩
  · rw [decide?_of_order hhold] at h
    have hadm : bt.risk.Admits (Strategy.onOrderbook bt.strategy snapshot).1
        (referencePrice snapshot) env := h _ rfl
    rw [onQuote_of_order hhold]
    simp only [RiskChecker.check_of_admits hadm, List.map_append, signals_ofSignal, and_true]
    rfl

/-- **One step**: the strategy sees the snapshot it is shown, if any, and what it orders is
recorded. -/
theorem onUpdate_recorded {bt : Backtester σ} {tick : Tick} (h : bt.Approves tick) :
    (bt.onUpdate tick).strategy = afterAll bt.strategy (bt.quote tick).toList ∧
    (bt.onUpdate tick).trades.map signalOf
      = bt.trades.map signalOf ++ orders (trace bt.strategy (bt.quote tick).toList) := by
  unfold Approves decision at h
  cases hquote : bt.quote tick with
  | none =>
      obtain ⟨orderbook, heq⟩ := onUpdate_of_quote_none hquote
      rw [heq]
      exact ⟨rfl, (List.append_nil _).symm⟩
  | some snapshot =>
      obtain ⟨orderbook, heq⟩ := onUpdate_of_quote_some hquote
      rw [hquote, Option.bind_some] at h
      rw [heq]
      exact @onQuote_recorded _ _ { bt with orderbook := orderbook } snapshot tick.env h
        tick.update.eventTime

/-- **The run**: the recorded trades are what the strategy orders on the snapshots it is shown. -/
theorem trades_of_none_rejected {bt : Backtester σ} {events : List Tick}
    (h : machine.Guarded Approves bt events) :
    (events.foldl onUpdate bt).trades.map signalOf
      = bt.trades.map signalOf ++ orders (trace bt.strategy (bt.shown events)) := by
  induction events generalizing bt with
  | nil => exact (List.append_nil _).symm
  | cons tick events ih =>
      obtain ⟨happroves, hrest⟩ := h
      obtain ⟨hstrat, htrades⟩ := onUpdate_recorded happroves
      rw [List.foldl_cons, ih (hrest _ rfl), htrades, hstrat, shown, trace_append, orders_append,
        List.append_assoc]

end Backtester

/-! ## §3 The report -/

/-- The report of a backtest over the orders of its strategy. -/
structure SumOfPairs (signals : List Signal) (result : BacktestResult) : Prop where
  recorded : result.trades.map signalOf = signals
  totalTrades : result.totalTrades = result.buyTrades + result.sellTrades
  one_open : result.buyTrades = result.sellTrades ∨ result.buyTrades = result.sellTrades + 1
  totalVolume : result.totalVolume = (signals.map Signal.qty).sum
  realizedPnl : result.realizedPnl = ((pairs signals).map gain).sum

/-- The counts of a report, by its signals. -/
theorem Backtester.counts {σ : Type} (bt : Backtester σ) :
    bt.result.totalTrades = (bt.trades.map signalOf).length ∧
    bt.result.buyTrades = (bt.trades.map signalOf).countP Signal.isBuy ∧
    bt.result.sellTrades = (bt.trades.map signalOf).countP (fun s => !s.isBuy) := by
  have hside : ∀ t : BacktestTrade, (signalOf t).isBuy = decide (t.side = .buy) ∧
      (!(signalOf t).isBuy) = decide (t.side = .sell) := by
    rintro ⟨side, price, qty, timestampMs⟩
    cases side <;> exact ⟨rfl, rfl⟩
  refine ⟨(List.length_map _).symm, ?_, ?_⟩
  · rw [List.countP_map, List.countP_eq_length_filter]
    exact congrArg List.length (List.filter_congr fun t _ => (hside t).1.symm)
  · rw [List.countP_map, List.countP_eq_length_filter]
    exact congrArg List.length (List.filter_congr fun t _ => (hside t).2.symm)

theorem Backtester.totalVolume_eq {σ : Type} (bt : Backtester σ) :
    bt.result.totalVolume = ((bt.trades.map signalOf).map Signal.qty).sum := by
  rw [List.map_map]
  refine congrArg List.sum (List.map_congr_left ?_)
  rintro ⟨side, price, qty, timestampMs⟩ _
  cases side <;> rfl

/-- The report of a backtester whose trades are round trips. -/
theorem Backtester.sumOfPairs {σ : Type} {bt : Backtester σ}
    (h : SteppedTrips (bt.trades.map signalOf)) :
    SumOfPairs (bt.trades.map signalOf) bt.result := by
  obtain ⟨htotal, hbuys, hsells⟩ := bt.counts
  refine ⟨rfl, ?_, ?_, bt.totalVolume_eq, ?_⟩
  · rw [htotal, hbuys, hsells]
    rw [List.length_eq_countP_add_countP Signal.isBuy]
    simp only [Bool.not_eq_true, Bool.decide_eq_false]
  · rw [hbuys, hsells]
    refine h.countP ?_ ?_
    · rintro _ ⟨⟨price, qty, rfl, _⟩, _⟩
      rfl
    · rintro _ _ _ ⟨entryPrice, price, qty, rfl, rfl⟩
      rfl
  · have hrealized := realizedPnl_of_roundTrips h (rfl : FifoPnl.new.buyQueue = [])
    rw [← foldl_applyTrade] at hrealized
    rw [← zero_add ((pairs _).map gain).sum]
    exact hrealized

/-! ## §4 The strategies -/

/-- A strategy that trades in round trips of positive multiples of the step, whatever it is
shown. -/
def TradesInSteps {σ : Type} [Strategy σ] (strat : σ) : Prop :=
  ∀ snapshots, SteppedTrips (orders (trace strat snapshots))

/-- An entry of the entry quantity is on the step. -/
theorem stepped_entry {qty : ℚ} {maxNotional : Option ℚ} {price : ℚ}
    (hpos : 0 < entryQtyAt qty maxNotional price) :
    (Signal.buy price (entryQtyAt qty maxNotional price)).IsEntry ∧
      Stepped (.buy price (entryQtyAt qty maxNotional price)) := by
  refine ⟨⟨price, _, rfl, hpos⟩, hpos, ?_⟩
  obtain ⟨n, hn⟩ := (entryQtyAt_isGreatest qty maxNotional price).1.1
  have hcast : (0 : ℚ) < n := by
    rw [hn] at hpos
    exact (pos_iff_pos_of_mul_pos hpos).mpr qtyStep_pos
  have hnonneg : 0 ≤ n := by exact_mod_cast hcast.le
  lift n to ℕ using hnonneg
  exact ⟨n, by exact_mod_cast hn⟩

theorem PingPongStrategy.tradesInSteps {strat : PingPongStrategy}
    (hflat : strat.holding = false) : TradesInSteps strat := by
  intro snapshots
  refine (alternating hflat snapshots).mono ?_ (fun _ _ _ hclose => hclose.1)
  rintro _ ⟨price, hpos, rfl⟩
  exact stepped_entry hpos

theorem MomentumScalpStrategy.tradesInSteps {strat : MomentumScalpStrategy}
    (hflat : strat.holding = false) : TradesInSteps strat := by
  intro snapshots
  refine (alternating hflat snapshots).mono ?_ (fun _ _ _ hclose => hclose)
  rintro _ ⟨price, hpos, rfl⟩
  exact stepped_entry hpos

/-- A pair that clears the edge, or was stopped out. -/
def PingPongStrategy.Earns (strat : PingPongStrategy) (pair : Signal × Signal) : Prop :=
  pair.1.price * pair.1.qty * strat.minEdgePct / 100 ≤ gain pair ∨
    gain pair ≤ -(pair.1.price * pair.1.qty * strat.stopPct / 100)

theorem PingPongStrategy.earns {strat : PingPongStrategy} (hflat : strat.holding = false)
    (snapshots : List OrderbookSnapshot) :
    ∀ p ∈ pairs (orders (trace strat snapshots)), strat.Earns p := by
  intro p hp
  obtain ⟨⟨price, hpos, hentry⟩, -, hpriced⟩ := (alternating hflat snapshots).of_mem_pairs p hp
  have hqty : 0 ≤ p.1.qty := by
    rw [hentry]
    exact hpos.le
  rcases hpriced with hedge | hstop
  · left
    have hdiff : p.1.price * strat.minEdgePct / 100 ≤ p.2.price - p.1.price := by linarith
    have hgain := mul_le_mul_of_nonneg_right hdiff hqty
    unfold gain
    linarith
  · right
    have hdiff : p.2.price - p.1.price ≤ -(p.1.price * strat.stopPct / 100) := by linarith
    have hgain := mul_le_mul_of_nonneg_right hdiff hqty
    unfold gain
    linarith

/-- **The profit is the sum of the pairs.**  Whatever the backtester, the snapshot and the events:
if the strategy trades in round trips of positive multiples of the step and the checker approves
every order, the report counts every order, and its profit is the sum over the completed pairs.
Both strategies trade so when they start flat, and every completed pair of `PingPongStrategy`
clears the edge or was stopped out. -/
theorem backtest_pnl_is_sum_of_pairs {σ : Type} [Strategy σ] (bt : Backtester σ)
    (events : List Tick) (snapshot : Option DepthSnapshot) :
    (TradesInSteps bt.strategy →
      Backtester.machine.Guarded Backtester.Approves (bt.start snapshot) events →
      SumOfPairs (orders (trace bt.strategy ((bt.start snapshot).shown events)))
        (bt.run events snapshot).1) ∧
    (∀ strat : PingPongStrategy, strat.holding = false → TradesInSteps strat ∧
      ∀ snapshots, ∀ p ∈ pairs (orders (trace strat snapshots)), strat.Earns p) ∧
    (∀ strat : MomentumScalpStrategy, strat.holding = false → TradesInSteps strat) := by
  refine ⟨?_, ?_, ?_⟩
  · intro htrips happroves
    have hstart : (bt.start snapshot).strategy = bt.strategy ∧ (bt.start snapshot).trades = [] := by
      cases snapshot <;> exact ⟨rfl, rfl⟩
    have hrun := Backtester.trades_of_none_rejected happroves
    rw [hstart.1, hstart.2, List.map_nil, List.nil_append] at hrun
    rw [← hrun]
    refine Backtester.sumOfPairs ?_
    rw [hrun]
    exact htrips _
  · intro strat hflat
    exact ⟨PingPongStrategy.tradesInSteps hflat, PingPongStrategy.earns hflat⟩
  · intro strat hflat
    exact MomentumScalpStrategy.tradesInSteps hflat

/-- The recording of two updates, from the empty snapshot: one round trip of 0.01, in at 100 and out
at 101. -/
theorem recordedTicks_pnl :
    ((Backtester.new "BTCUSDT" 20 PingPongStrategy.default (RiskChecker.new 1 0 100 5)).run
      Backtester.recordedTicks (some (Backtester.emptySnapshotAt 10))).1.realizedPnl = 1 / 100 := by
  have hsum := (backtest_pnl_is_sum_of_pairs
    (Backtester.new "BTCUSDT" 20 PingPongStrategy.default (RiskChecker.new 1 0 100 5))
    Backtester.recordedTicks (some (Backtester.emptySnapshotAt 10))).1
    (PingPongStrategy.tradesInSteps rfl) (by decide +kernel)
  rw [hsum.realizedPnl]
  decide +kernel

end CryptoTrader
