import CryptoTrader.Lib.Machine
import CryptoTrader.Lib.Deferred
import CryptoTrader.Lib.WriteLog
import CryptoTrader.Lib.History
import CryptoTrader.Lib.FifoLedger
import CryptoTrader.Lib.SlidingWindow
import CryptoTrader.Lib.TopView
import CryptoTrader.Lib.Lockstep
import CryptoTrader.Lib.Episodes
import CryptoTrader.Lib.RingBuffer
import CryptoTrader.Lib.RecentWindow
import CryptoTrader.Lib.Outputs
import CryptoTrader.Lib.Refinement
import CryptoTrader.Types
import CryptoTrader.Orderbook
import CryptoTrader.Binary64
import CryptoTrader.Replica
import CryptoTrader.SnapshotTiming
import CryptoTrader.Pnl
import CryptoTrader.PnlLedger
import CryptoTrader.Strategy
import CryptoTrader.Risk
import CryptoTrader.KillSwitch
import CryptoTrader.Execution
import CryptoTrader.OrderPath
import CryptoTrader.AccountSafety
import CryptoTrader.Pipeline
import CryptoTrader.Backtest
import CryptoTrader.PositionAgreement
import CryptoTrader.PriceBand
import CryptoTrader.Recovery
import CryptoTrader.RateLimit
import CryptoTrader.TopOfBook
import CryptoTrader.BufferedReplay
import CryptoTrader.LevelData
import CryptoTrader.LateSnapshot
import CryptoTrader.Reconciliation
import CryptoTrader.UnsyncedBacktest
import CryptoTrader.DrainedLoop
import CryptoTrader.BacktestParity
import CryptoTrader.Decimal
import CryptoTrader.SyntheticData
import CryptoTrader.RoundTrips
import CryptoTrader.MomentumTiming
import CryptoTrader.Sizing
import CryptoTrader.RoundTripBacktest
import CryptoTrader.DuplicateIds
import CryptoTrader.LiveFlag
import CryptoTrader.Ingestion
import CryptoTrader.OrderFlow
import CryptoTrader.ViewHistory
import CryptoTrader.PositionDrift
import CryptoTrader.Dashboard
import CryptoTrader.Program
import CryptoTrader.Progress
import CryptoTrader.MarketFlow
import CryptoTrader.ExchangeView
import CryptoTrader.HaltedTrading
import CryptoTrader.SelfRecovery
import CryptoTrader.Mediation
import CryptoTrader.QuotedPrices
import CryptoTrader.SnapshotRequests
import CryptoTrader.DataLoader
import CryptoTrader.BacktestMain
import CryptoTrader.Lib.StaleReads
import CryptoTrader.LiveAccount
import CryptoTrader.MarketTime
