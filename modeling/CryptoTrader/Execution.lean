/-
# CryptoTrader.Execution — the paper executor and the state it shares.

`PaperExecutor` of `execution.rs` and `SharedState` of `dashboard/mod.rs`.  The fields of
`SharedState` that only the order book thread writes are grouped as `MarketView`; the sampler's
fields and the start time, which no function here reads, are left out, and so is the log file.
Atomic counters wrap.  A fill is four moments of the source, kept apart here because the other
threads can run between them: `execute` (counters), `fill` (the account, under its lock),
`mirrorCash` (the balance the risk checker reads, under the same lock) and `addTrade` (after it).
-/
import CryptoTrader.Pnl

namespace CryptoTrader

/-! ## §1 `SharedState` -/

structure PaperTrade where
  timestamp : String
  side : String
  price : ℚ
  qty : ℚ
  clientId : String
  deriving DecidableEq

/-- The fields of `SharedState` that the order book thread writes. -/
structure MarketView where
  connected : Bool
  isLive : Bool
  eventCount : UInt64
  snapshot : Option OrderbookSnapshot
  priceHistory : List ℚ
  deriving DecidableEq

structure SharedState where
  symbol : String
  view : MarketView
  recentTrades : List PaperTrade
  buyCount : UInt64
  sellCount : UInt64
  account : PaperAccount
  /-- the value behind `cash_bits` -/
  cashBits : ℚ
  haltFlag : Bool
  deriving DecidableEq

/-- Append to a bounded `VecDeque`, the oldest entry making room. -/
def pushBounded {α : Type} (cap : Nat) (xs : List α) (x : α) : List α :=
  (if xs.length ≥ cap then xs.tail else xs) ++ [x]

namespace MarketView

def new : MarketView where
  connected := false
  isLive := false
  eventCount := 0
  snapshot := none
  priceHistory := []

def updatePriceHistory (view : MarketView) (price : ℚ) : MarketView :=
  { view with priceHistory := pushBounded 300 view.priceHistory price }

end MarketView

namespace PaperAccount

/-- What an order does to the account. -/
def applyOrder (acct : PaperAccount) (order : ValidatedOrder) : PaperAccount :=
  match order.signal with
  | .buy price qty => acct.onBuy price qty
  | .sell price qty => acct.onSell price qty
  | .hold => acct

theorem applyOrder_feePct (acct : PaperAccount) (order : ValidatedOrder) :
    (acct.applyOrder order).feePct = acct.feePct := by
  unfold applyOrder
  cases order.signal with
  | buy price qty => rfl
  | sell price qty => exact onSell_feePct acct price qty
  | hold => rfl

end PaperAccount

namespace SharedState

def new (symbol : String) (initialCapitalUsdt feePct : ℚ) (haltFlag : Bool) : SharedState where
  symbol := symbol
  view := MarketView.new
  recentTrades := []
  buyCount := 0
  sellCount := 0
  account := PaperAccount.new initialCapitalUsdt feePct
  cashBits := initialCapitalUsdt
  haltFlag := haltFlag

def addTrade (state : SharedState) (trade : PaperTrade) : SharedState :=
  { state with recentTrades := pushBounded 50 state.recentTrades trade }

/-- The account and its counters, under the write lock. -/
def fill (state : SharedState) (order : ValidatedOrder) : SharedState :=
  { state with
    account := state.account.applyOrder order
    buyCount := match order.signal with
      | .buy _ _ => state.buyCount + 1
      | _ => state.buyCount
    sellCount := match order.signal with
      | .sell _ _ => state.sellCount + 1
      | _ => state.sellCount }

/-- `cash_bits.store(acct.cash())` -/
def mirrorCash (state : SharedState) : SharedState :=
  { state with cashBits := state.account.cash }

end SharedState

/-- The trade record of an order. -/
def PaperTrade.ofOrder (order : ValidatedOrder) (timestamp : String) : Option PaperTrade :=
  match order.signal with
  | .buy price qty => some ⟨timestamp, "BUY", price, qty, order.clientOrderId⟩
  | .sell price qty => some ⟨timestamp, "SELL", price, qty, order.clientOrderId⟩
  | .hold => none

/-! ## §2 `PaperExecutor` -/

structure PaperExecutor where
  symbol : String
  buyCount : UInt64
  sellCount : UInt64
  buyVolume : ℚ
  sellVolume : ℚ
  deriving DecidableEq

namespace PaperExecutor

def new (symbol : String) : PaperExecutor where
  symbol := symbol
  buyCount := 0
  sellCount := 0
  buyVolume := 0
  sellVolume := 0

def execute (executor : PaperExecutor) (order : ValidatedOrder) : PaperExecutor :=
  match order.signal with
  | .buy _ qty =>
      { executor with buyCount := executor.buyCount + 1, buyVolume := executor.buyVolume + qty }
  | .sell _ qty =>
      { executor with sellCount := executor.sellCount + 1, sellVolume := executor.sellVolume + qty }
  | .hold => executor

/-- A whole fill, as the executor task makes it when nothing runs in between. -/
def executeWithState (executor : PaperExecutor) (order : ValidatedOrder) (state : SharedState)
    (timestamp : String) : PaperExecutor × SharedState :=
  let executor := executor.execute order
  match PaperTrade.ofOrder order timestamp with
  -- a Hold touches neither the account nor the mirrored cash
  | none => (executor, state)
  | some trade => (executor, ((state.fill order).mirrorCash).addTrade trade)

end PaperExecutor

end CryptoTrader
