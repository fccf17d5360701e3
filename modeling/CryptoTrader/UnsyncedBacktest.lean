/-
# CryptoTrader.UnsyncedBacktest — a backtest that is given no snapshot.

A recorded file is replayed without an initial snapshot, on the promise that the book is built from
the first event on.  But a new book is buffering, and only a snapshot takes a book out of
buffering: `handle_update` stores every event of the file and applies none.  The strategy is never
called and the report shows zero trades.  Given the empty snapshot at the `pu` of the first event,
the same events would all be applied, one call of the strategy each.
-/
import CryptoTrader.Backtest

namespace CryptoTrader.Backtester

open Orderbook

/-- The events continue each other from the id `pu` on, and each moves it forward. -/
def Chained (pu : UInt64) : List Tick → Prop
  | [] => True
  | tick :: ticks =>
      tick.update.prevLastUpdateId = pu ∧ pu < tick.update.lastUpdateId ∧
        Chained tick.update.lastUpdateId ticks

/-- The snapshot without levels at an id. -/
def emptySnapshotAt (id : UInt64) : DepthSnapshot where
  lastUpdateId := id
  bids := []
  asks := []

variable {σ : Type} [Strategy σ]

/-- The order book snapshots that the strategy is called with, in order. -/
def shown (bt : Backtester σ) : List Tick → List OrderbookSnapshot
  | [] => []
  | tick :: ticks => (bt.quote tick).toList ++ (bt.onUpdate tick).shown ticks

/-- The backtest without a snapshot is the one that starts from the empty snapshot at `pu`: the
same calls of the strategy, one an event, and the same result. -/
structure SameAsFromEmpty (bt : Backtester σ) (pu : UInt64) (events : List Tick) : Prop where
  once_each : ((bt.start none).shown events).length = events.length
  calls : (bt.start none).shown events = (bt.start (some (emptySnapshotAt pu))).shown events
  trades : (bt.run events none).1.trades = (bt.run events (some (emptySnapshotAt pu))).1.trades
  realizedPnl : (bt.run events none).1.realizedPnl
    = (bt.run events (some (emptySnapshotAt pu))).1.realizedPnl

/-- A decision, or none, leaves the book as the update has left it. -/
theorem onQuote_orderbook (bt : Backtester σ) (snapshot : OrderbookSnapshot) (env : Readings)
    (timestampMs : UInt64) : (bt.onQuote snapshot env timestampMs).orderbook = bt.orderbook := by
  by_cases hhold : (Strategy.onOrderbook bt.strategy snapshot).1 = .hold
  · rw [onQuote_of_hold hhold]
  · rw [onQuote_of_order hhold]
    simp only
    cases (bt.risk.check (Strategy.onOrderbook bt.strategy snapshot).1
      (referencePrice snapshot) env).1 <;> rfl

theorem onUpdate_orderbook (bt : Backtester σ) (tick : Tick) :
    (bt.onUpdate tick).orderbook = (bt.orderbook.handleUpdate tick.update false).2.1 := by
  unfold onUpdate
  generalize bt.orderbook.handleUpdate tick.update false = out
  obtain ⟨result, orderbook, flag⟩ := out
  cases result with
  | error _ => rfl
  | ok applied =>
      cases applied with
      | false => rfl
      | true => exact onQuote_orderbook ..

/-- **A buffering book stays buffering.**  No event is shown to the strategy and nothing is
traded. -/
theorem shown_of_buffering {bt : Backtester σ} {buf : List DepthUpdate}
    (h : bt.orderbook.state = .buffering buf) (events : List Tick) :
    bt.shown events = [] ∧ (events.foldl onUpdate bt).trades = bt.trades := by
  induction events generalizing bt buf with
  | nil => exact ⟨rfl, rfl⟩
  | cons tick events ih =>
      have hupdate := handleUpdate_buffering h tick.update false
      have hquote : bt.quote tick = none := by
        unfold quote
        rw [hupdate]
      have hnext : bt.onUpdate tick = { bt with
          orderbook := { bt.orderbook with state := .buffering (buf ++ [tick.update]) } } := by
        unfold onUpdate
        rw [hupdate]
      have hstate : (bt.onUpdate tick).orderbook.state = .buffering (buf ++ [tick.update]) := by
        rw [hnext]
      obtain ⟨hshown, htrades⟩ := ih hstate
      refine ⟨?_, ?_⟩
      · rw [shown, hquote, hshown]
        rfl
      · rw [List.foldl_cons, htrades, hnext]

/-- **A synchronized book applies the whole chain**, and the strategy is called for every event. -/
theorem shown_of_live {bt : Backtester σ} {n : UInt64} (h : bt.orderbook.state = .live n)
    {events : List Tick} (hchain : Chained n events) :
    (bt.shown events).length = events.length := by
  induction events generalizing bt n with
  | nil => rfl
  | cons tick events ih =>
      obtain ⟨hpu, _, hrest⟩ := hchain
      have hseq : sequencing n tick.update = .apply := sequencing_eq_apply_iff.mpr (Or.inl hpu)
      have hupdate := handleUpdate_live h tick.update false
      rw [hseq] at hupdate
      have hquote : ∃ snapshot, bt.quote tick = some snapshot := by
        unfold quote
        rw [hupdate]
        exact ⟨_, rfl⟩
      have hlive : (bt.onUpdate tick).orderbook.state = .live tick.update.lastUpdateId := by
        rw [onUpdate_orderbook, hupdate]
        rfl
      obtain ⟨snapshot, hsome⟩ := hquote
      rw [shown, hsome, List.length_append, ih hlive hrest, List.length_cons, Nat.add_comm]
      rfl

/-- **A recording without an initial snapshot is never backtested.**  Take any strategy, any
checker and any non-empty chain of events, on a new backtester.  Without a snapshot the strategy is
not called at all and nothing is traded; from the empty snapshot at the first `pu` it is called once
for every event.  So the two runs are never the same. -/
theorem unsynced_backtest_never_runs (symbol : String) (depthLevels : Nat) (strategy : σ)
    (risk : RiskChecker) (pu : UInt64) (events : List Tick) (hne : events ≠ [])
    (hchain : Chained pu events) :
    let bt := Backtester.new symbol depthLevels strategy risk
    (bt.start none).shown events = [] ∧ (bt.run events none).1.trades = [] ∧
      ((bt.start (some (emptySnapshotAt pu))).shown events).length = events.length ∧
      ¬ SameAsFromEmpty bt pu events := by
  intro bt
  have hbuffering : (bt.start none).orderbook.state = .buffering [] := rfl
  have hlive : (bt.start (some (emptySnapshotAt pu))).orderbook.state = .live pu := rfl
  obtain ⟨hshown, htrades⟩ := shown_of_buffering hbuffering events
  refine ⟨hshown, htrades, shown_of_live hlive hchain, ?_⟩
  intro h
  have hlength := h.once_each
  rw [hshown, List.length_nil] at hlength
  exact hne (List.length_eq_zero_iff.mp hlength.symm)

/-! A recording of two events that quote 100 / 101 and then 99 / 102. -/

def recordedTicks : List Tick :=
  [⟨⟨"depthUpdate", 0, "BTCUSDT", 11, 11, 10, [("100", "1")], [("101", "1")]⟩, 0,
      ⟨false, 0, 0, "a"⟩⟩,
    ⟨⟨"depthUpdate", 1, "BTCUSDT", 12, 12, 11, [("99", "1")], [("102", "1")]⟩, 1,
      ⟨false, 0, 1, "b"⟩⟩]

theorem recordedTicks_not_backtested :
    Chained 10 recordedTicks ∧
      ¬ SameAsFromEmpty (Backtester.new "BTCUSDT" 20 PingPongStrategy.default
        (RiskChecker.new 1 0 100 5)) 10 recordedTicks := by
  have hchain : Chained 10 recordedTicks := ⟨rfl, by decide, rfl, by decide, trivial⟩
  exact ⟨hchain, (unsynced_backtest_never_runs "BTCUSDT" 20 PingPongStrategy.default
    (RiskChecker.new 1 0 100 5) 10 recordedTicks (by decide) hchain).2.2.2⟩

/-- The report without a snapshot shows no trade; from the empty snapshot it shows two. -/
theorem recordedTicks_reports :
    (((Backtester.new "BTCUSDT" 20 PingPongStrategy.default
        (RiskChecker.new 1 0 100 5)).run recordedTicks none).1.totalTrades = 0 ∧
      ((Backtester.new "BTCUSDT" 20 PingPongStrategy.default
        (RiskChecker.new 1 0 100 5)).run recordedTicks
          (some (emptySnapshotAt 10))).1.totalTrades = 2) ∧
    ¬ SameAsFromEmpty (Backtester.new "BTCUSDT" 20 PingPongStrategy.default
        (RiskChecker.new 1 0 100 5)) 10 recordedTicks := by
  refine ⟨by decide +kernel, ?_⟩
  intro h
  have htrades := h.trades
  exact absurd htrades (by decide +kernel)

end CryptoTrader.Backtester
