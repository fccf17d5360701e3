/-
# CryptoTrader.Backtest — the backtester.

`Backtester` of `backtest/mod.rs`.  `run` is a fold of `onUpdate` over the recorded updates,
followed by the summary.  What the code reads from outside at each event (the wall clock for the
snapshot, the monotonic clock and the order id for the check) comes with the event as a `Tick`.
`handle_update` gets a fresh flag every time.
-/
import CryptoTrader.Pipeline

namespace CryptoTrader

open Lib

inductive TradeSide where
  | buy
  | sell
  deriving DecidableEq

/-- `Trade` of the backtester. -/
structure BacktestTrade where
  side : TradeSide
  price : ℚ
  qty : ℚ
  timestampMs : UInt64
  deriving DecidableEq

structure BacktestResult where
  totalTrades : Nat
  buyTrades : Nat
  sellTrades : Nat
  totalVolume : ℚ
  realizedPnl : ℚ
  trades : List BacktestTrade
  deriving DecidableEq

/-- The recorded trade of an approved signal; a Hold records none. -/
def BacktestTrade.ofSignal (signal : Signal) (timestampMs : UInt64) : List BacktestTrade :=
  match signal with
  | .buy price qty => [⟨.buy, price, qty, timestampMs⟩]
  | .sell price qty => [⟨.sell, price, qty, timestampMs⟩]
  | .hold => []

/-- The backtester in the middle of a run: its three parts and the trades so far. -/
structure Backtester (σ : Type) where
  orderbook : Orderbook
  strategy : σ
  risk : RiskChecker
  trades : List BacktestTrade

/-- A recorded update with what the code reads while it handles it. -/
structure Tick where
  update : DepthUpdate
  nowMs : UInt64
  env : Readings

namespace FifoPnl

/-- What a signal does to the tracker once it is executed. -/
def applySignal (pnl : FifoPnl) : Signal → FifoPnl
  | .buy price qty => pnl.onBuy price qty
  | .sell price qty => (pnl.onSell price qty).2
  | .hold => pnl

/-- One pass of the loop that replays the trades. -/
def applyTrade (pnl : FifoPnl) (trade : BacktestTrade) : FifoPnl :=
  match trade.side with
  | .buy => pnl.onBuy trade.price trade.qty
  | .sell => (pnl.onSell trade.price trade.qty).2

/-- Replaying the recorded trade of a signal executes the signal. -/
theorem foldl_ofSignal (pnl : FifoPnl) (signal : Signal) (timestampMs : UInt64) :
    (BacktestTrade.ofSignal signal timestampMs).foldl applyTrade pnl = pnl.applySignal signal := by
  cases signal <;> rfl

end FifoPnl

/-- The tracker of the account takes the signal of an order. -/
theorem PaperAccount.applyOrder_pnl (acct : PaperAccount) (order : ValidatedOrder) :
    (acct.applyOrder order).pnl = acct.pnl.applySignal order.signal := by
  unfold applyOrder
  cases order.signal with
  | buy price qty => rfl
  | sell price qty => exact onSell_pnl acct price qty
  | hold => rfl

namespace Backtester

variable {σ : Type} [Strategy σ]

def new (symbol : String) (depthLevels : Nat) (strategy : σ) (risk : RiskChecker) :
    Backtester σ where
  orderbook := Orderbook.new symbol depthLevels
  strategy := strategy
  risk := risk
  trades := []

/-- The snapshot is applied first if there is one. -/
def start (bt : Backtester σ) (snapshot : Option DepthSnapshot) : Backtester σ :=
  match snapshot with
  | some snapshot => { bt with orderbook := (bt.orderbook.handleSnapshot snapshot).2, trades := [] }
  | none => { bt with trades := [] }

/-- What follows an applied update. -/
def onQuote (bt : Backtester σ) (snapshot : OrderbookSnapshot) (env : Readings)
    (timestampMs : UInt64) : Backtester σ :=
  let mid := referencePrice snapshot
  let (signal, strategy) := Strategy.onOrderbook bt.strategy snapshot
  match signal with
  | .hold => { bt with strategy := strategy }
  | signal =>
      let (result, risk) := bt.risk.check signal mid env
      match result with
      | .ok validated =>
          { bt with
            strategy := strategy
            risk := risk
            trades := bt.trades ++ BacktestTrade.ofSignal validated.signal timestampMs }
      -- a rejection is dropped: neither the result nor the strategy learns of it
      | _ => { bt with strategy := strategy, risk := risk }

/-- One pass of the event loop. -/
def onUpdate (bt : Backtester σ) (tick : Tick) : Backtester σ :=
  match bt.orderbook.handleUpdate tick.update false with
  | (.ok true, orderbook, _) =>
      { bt with orderbook := orderbook }.onQuote (orderbook.snapshot tick.nowMs) tick.env
        tick.update.eventTime
  | (.ok false, orderbook, _) => { bt with orderbook := orderbook }
  | (.error _, orderbook, _) => { bt with orderbook := orderbook }

def machine : Machine (Backtester σ) Tick := ⟨fun bt tick => some (bt.onUpdate tick)⟩

/-- The tracker the trades so far replay to. -/
def pnl (bt : Backtester σ) : FifoPnl := bt.trades.foldl FifoPnl.applyTrade FifoPnl.new

def result (bt : Backtester σ) : BacktestResult where
  totalTrades := bt.trades.length
  buyTrades := (bt.trades.filter fun t => t.side = .buy).length
  sellTrades := (bt.trades.filter fun t => t.side = .sell).length
  totalVolume := (bt.trades.map fun t => t.qty).sum
  realizedPnl := bt.pnl.realizedPnl
  trades := bt.trades

def run (bt : Backtester σ) (events : List Tick) (snapshot : Option DepthSnapshot) :
    BacktestResult × Backtester σ :=
  let bt := events.foldl onUpdate (bt.start snapshot)
  (bt.result, bt)

/-- The machine never stops, and its runs are the runs of the loop. -/
theorem exec_eq (bt : Backtester σ) (events : List Tick) :
    machine.exec bt events = some (events.foldl onUpdate bt) := by
  induction events generalizing bt with
  | nil => rfl
  | cons tick events ih => exact ih (bt.onUpdate tick)

/-! ## What a step decides -/

/-- The snapshot the strategy is shown on an update, if it is shown one. -/
def quote (bt : Backtester σ) (tick : Tick) : Option OrderbookSnapshot :=
  match bt.orderbook.handleUpdate tick.update false with
  | (.ok true, orderbook, _) => some (orderbook.snapshot tick.nowMs)
  | _ => none

/-- The decision of a step. -/
def decision (bt : Backtester σ) (tick : Tick) : Option Decision :=
  (bt.quote tick).bind fun snapshot => decide? bt.strategy snapshot bt.risk tick.env

/-- `onQuote` on a Hold. -/
theorem onQuote_of_hold {bt : Backtester σ} {snapshot : OrderbookSnapshot}
    (h : (Strategy.onOrderbook bt.strategy snapshot).1 = .hold) (env : Readings)
    (timestampMs : UInt64) :
    bt.onQuote snapshot env timestampMs
      = { bt with strategy := (Strategy.onOrderbook bt.strategy snapshot).2 } := by
  simp only [onQuote, h]

/-- `onQuote` on an order: the check, and then the record. -/
theorem onQuote_of_order {bt : Backtester σ} {snapshot : OrderbookSnapshot}
    (h : (Strategy.onOrderbook bt.strategy snapshot).1 ≠ .hold) (env : Readings)
    (timestampMs : UInt64) :
    bt.onQuote snapshot env timestampMs =
      let outcome := Strategy.onOrderbook bt.strategy snapshot
      let checked := bt.risk.check outcome.1 (referencePrice snapshot) env
      match checked.1 with
      | .ok validated =>
          { bt with
            strategy := outcome.2
            risk := checked.2
            trades := bt.trades ++ BacktestTrade.ofSignal validated.signal timestampMs }
      | _ => { bt with strategy := outcome.2, risk := checked.2 } := by
  unfold onQuote
  generalize Strategy.onOrderbook bt.strategy snapshot = outcome at h ⊢
  obtain ⟨signal, strategy⟩ := outcome
  cases signal with
  | hold => exact absurd rfl h
  | buy price qty => rfl
  | sell price qty => rfl

/-- What the loop does with a decision: the strategy has moved on in any case, and the trade is
recorded exactly when the checker admits it. -/
theorem onQuote_cases (bt : Backtester σ) (snapshot : OrderbookSnapshot) (env : Readings)
    (timestampMs : UInt64) :
    (bt.onQuote snapshot env timestampMs).strategy
      = (Strategy.onOrderbook bt.strategy snapshot).2 ∧
    (∀ d, decide? bt.strategy snapshot bt.risk env = some d → d.Admitted →
      (bt.onQuote snapshot env timestampMs).pnl = bt.pnl.applySignal d.signal) ∧
    ((∀ d, decide? bt.strategy snapshot bt.risk env = some d → ¬ d.Admitted) →
      (bt.onQuote snapshot env timestampMs).pnl = bt.pnl) := by
  by_cases hhold : (Strategy.onOrderbook bt.strategy snapshot).1 = .hold
  · rw [onQuote_of_hold hhold, decide?_of_hold hhold]
    refine ⟨rfl, ?_, fun _ => rfl⟩
    intro d hd
    cases hd
  · rw [onQuote_of_order hhold, decide?_of_order hhold]
    simp only [Option.some.injEq, forall_eq', Decision.Admitted]
    by_cases hadm : bt.risk.Admits (Strategy.onOrderbook bt.strategy snapshot).1
        (referencePrice snapshot) env
    · -- approved: one more trade to replay
      simp only [RiskChecker.check_of_admits hadm, hadm, not_true_eq_false, false_implies,
        true_implies, and_true, true_and]
      simp only [pnl, List.foldl_append, FifoPnl.foldl_ofSignal]
    · have hne := RiskChecker.check_ne_ok hadm
      simp only [hadm, false_implies, not_false_eq_true, true_implies, true_and]
      generalize bt.risk.check (Strategy.onOrderbook bt.strategy snapshot).1
        (referencePrice snapshot) env = checked at hne ⊢
      obtain ⟨result, risk⟩ := checked
      cases result with
      | ok order => exact absurd rfl (hne order)
      | err error => exact rfl
      | panicked => exact rfl

theorem onUpdate_of_quote_none {bt : Backtester σ} {tick : Tick} (h : bt.quote tick = none) :
    ∃ orderbook, bt.onUpdate tick = { bt with orderbook := orderbook } := by
  unfold quote at h
  unfold onUpdate
  generalize bt.orderbook.handleUpdate tick.update false = out at h ⊢
  obtain ⟨result, orderbook, flag⟩ := out
  cases result with
  | error _ => exact ⟨orderbook, rfl⟩
  | ok applied =>
      cases applied with
      | false => exact ⟨orderbook, rfl⟩
      | true => simp at h

theorem onUpdate_of_quote_some {bt : Backtester σ} {tick : Tick} {snapshot : OrderbookSnapshot}
    (h : bt.quote tick = some snapshot) :
    ∃ orderbook, bt.onUpdate tick = { bt with orderbook := orderbook }.onQuote snapshot tick.env
      tick.update.eventTime := by
  unfold quote at h
  unfold onUpdate
  generalize bt.orderbook.handleUpdate tick.update false = out at h ⊢
  obtain ⟨result, orderbook, flag⟩ := out
  cases result with
  | error _ => simp at h
  | ok applied =>
      cases applied with
      | false => simp at h
      | true =>
          obtain rfl := Option.some.inj h
          exact ⟨orderbook, rfl⟩

/-- **What a step does to the strategy and to the tracker**, in terms of the decision it makes. -/
theorem step_cases (bt : Backtester σ) (tick : Tick) :
    (∃ d, bt.decision tick = some d ∧
      (bt.onUpdate tick).strategy = (Strategy.onOrderbook bt.strategy d.snapshot).2 ∧
      d.signal = (Strategy.onOrderbook bt.strategy d.snapshot).1 ∧ d.signal ≠ .hold ∧
      (d.Admitted → (bt.onUpdate tick).pnl = bt.pnl.applySignal d.signal) ∧
      (¬ d.Admitted → (bt.onUpdate tick).pnl = bt.pnl)) ∨
    (bt.decision tick = none ∧ (bt.onUpdate tick).pnl = bt.pnl ∧
      ((bt.onUpdate tick).strategy = bt.strategy ∨
        ∃ snapshot, Strategy.onOrderbook bt.strategy snapshot
          = (.hold, (bt.onUpdate tick).strategy))) := by
  cases hquote : bt.quote tick with
  | none =>
      right
      obtain ⟨orderbook, heq⟩ := onUpdate_of_quote_none hquote
      rw [heq]
      exact ⟨by simp [decision, hquote], rfl, Or.inl rfl⟩
  | some snapshot =>
      obtain ⟨orderbook, heq⟩ := onUpdate_of_quote_some hquote
      obtain ⟨hstrat, hyes, hno⟩ := { bt with orderbook := orderbook }.onQuote_cases snapshot
        tick.env tick.update.eventTime
      rw [← heq] at hstrat hyes hno
      have hdecision : bt.decision tick = decide? bt.strategy snapshot bt.risk tick.env := by
        simp only [decision, hquote, Option.bind_some]
      rw [hdecision]
      cases hd : decide? bt.strategy snapshot bt.risk tick.env with
      | none =>
          right
          refine ⟨rfl, ?_, Or.inr ⟨snapshot, ?_⟩⟩
          · exact hno fun d hd' => by rw [hd] at hd'; cases hd'
          · rw [hstrat]
            exact Prod.ext (decide?_eq_none hd) rfl
      | some d =>
          left
          obtain ⟨rfl, hsignal, hne, -, -⟩ := decide?_eq_some hd
          refine ⟨d, rfl, hstrat, hsignal, hne, hyes d hd, ?_⟩
          intro hadm
          exact hno fun d' hd' => by
            rw [hd] at hd'
            exact Option.some.inj hd' ▸ hadm

end Backtester

end CryptoTrader
