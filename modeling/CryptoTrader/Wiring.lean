/-
# CryptoTrader.Wiring — what the two programs build from the configuration.

`config.rs`, and the checker and the strategy that `main.rs` and `bin/backtest.rs` set up.  The strategy is
a `Box<dyn Strategy>`, one of three, chosen by name.  Live, a name that is not known means no trading, and
an entry is capped at the budget; the backtest refuses such a name (`BacktestMain`) and sets no cap.
-/
import CryptoTrader.Sizing

namespace CryptoTrader

/-! ## §1 The configuration -/

structure PaperConfig where
  initialCapitalUsdt : ℚ
  feePct : ℚ
  deriving DecidableEq

structure RiskConfig where
  maxOrderQty : ℚ
  minFreeBalanceUsdt : ℚ
  priceBandPct : ℚ
  maxOrdersPerSec : UInt32
  deriving DecidableEq

structure OrderbookConfig where
  depthLevels : Nat
  deriving DecidableEq

structure WatchdogConfig where
  timeoutSecs : Nat
  deriving DecidableEq

/-- What of the configuration reaches the book, the strategy, the checker, the account and the watchdog. -/
structure Config where
  symbol : String
  strategy : String
  paper : PaperConfig
  risk : RiskConfig
  orderbook : OrderbookConfig
  watchdog : WatchdogConfig
  deriving DecidableEq

/-! ## §2 `Box<dyn Strategy>` -/

/-- One of the strategies that can be chosen by name. -/
inductive AnyStrategy where
  | noop (strat : NoOpStrategy)
  | pingpong (strat : PingPongStrategy)
  | momentum (strat : MomentumScalpStrategy)

instance : Strategy AnyStrategy where
  onOrderbook
    | .noop strat, snapshot =>
        let (signal, strat) := Strategy.onOrderbook strat snapshot
        (signal, .noop strat)
    | .pingpong strat, snapshot =>
        let (signal, strat) := strat.onOrderbook snapshot
        (signal, .pingpong strat)
    | .momentum strat, snapshot =>
        let (signal, strat) := strat.onOrderbook snapshot
        (signal, .momentum strat)

/-! ## §3 What is built -/

namespace Config

/-- The checker, in both programs. -/
def riskChecker (cfg : Config) : RiskChecker :=
  RiskChecker.new cfg.risk.maxOrderQty cfg.risk.minFreeBalanceUsdt cfg.risk.priceBandPct
    cfg.risk.maxOrdersPerSec

/-- The strategy of `main.rs`. -/
def liveStrategy (cfg : Config) : AnyStrategy :=
  let budget := strategyBudget cfg.paper.initialCapitalUsdt
  match cfg.strategy with
  | "momentum" => .momentum (MomentumScalpStrategy.default.withMaxNotional budget)
  | "pingpong" => .pingpong (PingPongStrategy.default.withMaxNotional budget)
  | "noop" => .noop .mk
  -- a warning is logged
  | _ => .noop .mk

end Config

end CryptoTrader
