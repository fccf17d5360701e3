/-
# CryptoTrader.Reconciliation — the recorded trades against the position.

One order is written down in several places: the trade log and the volumes of the executor, the
trades and the total volume of a backtest, and the lots of the tracker.  The first ones take the
quantity of the order; the tracker sells what is open and no more.  So the books reconcile as long
as every sell finds the quantity it sells, and never again after one that does not: the excess of a
sell over the open position is recorded and was not sold.

Quantities are positive multiples of the exchange's step.  On them the matching loop is exact
(`PnlLedger.sellLoop_eq`), so what a sell really sold is the minimum of its quantity and the open
position.
-/
import CryptoTrader.PositionAgreement
import CryptoTrader.PnlLedger

namespace CryptoTrader.Reconciliation

open Lib Deferred FifoLedger PnlLedger

/-! ## §1 One signal -/

/-- What a signal is recorded to buy, or to sell. -/
def buyQty : Signal → ℚ
  | .buy _ qty => qty
  | _ => 0

def sellQty : Signal → ℚ
  | .sell _ qty => qty
  | _ => 0

/-- What the tracker really sells on a signal: the quantity `on_sell` matches. -/
def soldQty (pnl : FifoPnl) : Signal → ℚ
  | .sell price qty => (pnl.onSell price qty).1
  | _ => 0

/-- A sell finds the quantity it sells. -/
def Covered (pnl : FifoPnl) (signal : Signal) : Prop := sellQty signal ≤ pnl.positionQty

/-- The recorded quantity of a sell is what was really sold. -/
def Exact (pnl : FifoPnl) (signal : Signal) : Prop := soldQty pnl signal = sellQty signal

/-- An order of a positive multiple of the step. -/
def Stepped (signal : Signal) : Prop := 0 < signal.qty ∧ OnStep qtyStep signal.qty

/-- The open lots are positive multiples of the step. -/
def SteppedLots (pnl : FifoPnl) : Prop :=
  Open pnl.buyQueue ∧ ∀ l ∈ pnl.buyQueue, OnStep qtyStep l.2

theorem steppedLots_new : SteppedLots FifoPnl.new :=
  ⟨fun _ hl => absurd hl List.not_mem_nil, fun _ hl => absurd hl List.not_mem_nil⟩

/-- **A sell on the step**: it sells the smaller of its quantity and the open position. -/
theorem onSell_stepped {pnl : FifoPnl} (hlots : SteppedLots pnl) (price : ℚ) {qty : ℚ}
    (hqty : OnStep qtyStep qty) :
    (pnl.onSell price qty).1 = min qty pnl.positionQty ∧
    (pnl.onSell price qty).2.positionQty = pnl.positionQty - min qty pnl.positionQty ∧
    SteppedLots (pnl.onSell price qty).2 := by
  have hloop := sellLoop_eq qtyEpsilon_lt_qtyStep price hlots.1 hlots.2 hqty pnl.realizedPnl
  have hstep := (sellLoop_onStep qtyEpsilon_lt_qtyStep price hlots.2 hqty pnl.realizedPnl).1
  have hnonneg : 0 ≤ min qty (total pnl.buyQueue) :=
    le_min (hqty.nonneg qtyStep_pos) hlots.1.total_nonneg
  simp only at hloop
  rw [hloop] at hstep
  simp only [FifoPnl.positionQty_eq, FifoPnl.onSell, hloop, sub_sub_cancel, true_and]
  exact ⟨total_dropUnits hnonneg (min_le_right _ _), open_dropUnits hlots.1 _, hstep⟩

/-- **One signal moves the position** by what it buys and what is really sold; a sell never sells
more than recorded, and sells exactly that when it is covered. -/
theorem applySignal_stepped {pnl : FifoPnl} (hlots : SteppedLots pnl) {signal : Signal}
    (hs : Stepped signal) :
    (pnl.applySignal signal).positionQty
      = pnl.positionQty + buyQty signal - soldQty pnl signal ∧
    soldQty pnl signal ≤ sellQty signal ∧
    (Exact pnl signal ↔ Covered pnl signal) ∧
    SteppedLots (pnl.applySignal signal) := by
  obtain ⟨hpos, hstep⟩ := hs
  cases signal with
  | buy price qty =>
      have hq : 0 < qty := hpos
      refine ⟨?_, le_refl _, ?_, ?_, ?_⟩
      · simp [FifoPnl.applySignal, FifoPnl.onBuy, FifoPnl.positionQty, buyQty, soldQty]
      · have hcovered : (0 : ℚ) ≤ pnl.positionQty := hlots.1.total_nonneg
        exact iff_of_true rfl hcovered
      · exact open_append hlots.1 (open_singleton hq)
      · intro l hl
        rcases List.mem_append.mp hl with hl | hl
        · exact hlots.2 l hl
        · rw [List.mem_singleton.mp hl]
          exact hstep
  | sell price qty =>
      have hq : OnStep qtyStep qty := hstep
      obtain ⟨hsold, hposition, hlots'⟩ := onSell_stepped hlots price hq
      refine ⟨?_, ?_, ?_, hlots'⟩
      · show (pnl.onSell price qty).2.positionQty
          = pnl.positionQty + 0 - (pnl.onSell price qty).1
        rw [hposition, hsold, add_zero]
      · show (pnl.onSell price qty).1 ≤ qty
        rw [hsold]
        exact min_le_left _ _
      · show (pnl.onSell price qty).1 = qty ↔ qty ≤ pnl.positionQty
        rw [hsold]
        exact min_eq_left_iff
  | hold => exact absurd hpos (lt_irrefl 0)

/-! ## §2 Lists of signals -/

/-- What a list of signals is recorded to buy, and to sell. -/
def bought (signals : List Signal) : ℚ := (signals.map buyQty).sum

def recordedSold (signals : List Signal) : ℚ := (signals.map sellQty).sum

/-- What the tracker really sells over a list of signals. -/
def reallySold (pnl : FifoPnl) : List Signal → ℚ
  | [] => 0
  | signal :: signals => soldQty pnl signal + reallySold (pnl.applySignal signal) signals

/-- **The books of a list of signals**: the position moves by what was bought and really sold, no
more is sold than recorded, and the two are equal exactly when every sell is covered. -/
theorem books {signals : List Signal} (hs : ∀ s ∈ signals, Stepped s) {pnl : FifoPnl}
    (hlots : SteppedLots pnl) :
    (settle FifoPnl.applySignal pnl signals).positionQty
      = pnl.positionQty + bought signals - reallySold pnl signals ∧
    reallySold pnl signals ≤ recordedSold signals ∧
    (reallySold pnl signals = recordedSold signals ↔
      Along FifoPnl.applySignal Covered pnl signals) ∧
    (Along FifoPnl.applySignal Exact pnl signals ↔
      Along FifoPnl.applySignal Covered pnl signals) := by
  induction signals generalizing pnl with
  | nil => simp [bought, reallySold, recordedSold, Along]
  | cons signal signals ih =>
      obtain ⟨hmove, hle, hexact, hlots'⟩ :=
        applySignal_stepped hlots (hs signal List.mem_cons_self)
      obtain ⟨hmove', hle', hiff', hexact'⟩ :=
        ih (fun s hmem => hs s (List.mem_cons_of_mem signal hmem)) hlots'
      have hbought : bought (signal :: signals) = buyQty signal + bought signals := rfl
      have hrecorded : recordedSold (signal :: signals) = sellQty signal + recordedSold signals :=
        rfl
      rw [hbought, hrecorded, reallySold, settle_cons]
      refine ⟨by linarith, by linarith, ?_, and_congr hexact hexact'⟩
      constructor
      · intro h
        have hhead : soldQty pnl signal = sellQty signal := by linarith
        exact ⟨hexact.mp hhead, hiff'.mp (by linarith)⟩
      · rintro ⟨hcovered, hrest⟩
        have hhead : soldQty pnl signal = sellQty signal := hexact.mpr hcovered
        rw [hhead, hiff'.mpr hrest]

/-- At no point do the sells so far exceed the buys so far. -/
def NeverOversells (signals : List Signal) : Prop :=
  ∀ done rest, signals = done ++ rest → recordedSold done ≤ bought done

/-- Sells are covered along a list exactly when no part of it, from the start, sells more than is
open at the start and bought in it. -/
theorem along_covered_iff {signals : List Signal} (hs : ∀ s ∈ signals, Stepped s) {pnl : FifoPnl}
    (hlots : SteppedLots pnl) :
    Along FifoPnl.applySignal Covered pnl signals ↔
      ∀ done rest, signals = done ++ rest → recordedSold done ≤ pnl.positionQty + bought done := by
  induction signals generalizing pnl with
  | nil =>
      refine iff_of_true trivial ?_
      intro done rest hsplit
      obtain rfl := (List.append_eq_nil_iff.mp hsplit.symm).1
      have hopen : (0 : ℚ) ≤ pnl.positionQty := hlots.1.total_nonneg
      show 0 ≤ pnl.positionQty + 0
      rwa [add_zero]
  | cons signal signals ih =>
      have hsignal := hs signal List.mem_cons_self
      obtain ⟨hmove, hle, hexact, hlots'⟩ := applySignal_stepped hlots hsignal
      have hrest := ih (fun s hmem => hs s (List.mem_cons_of_mem signal hmem)) hlots'
      have hbought : ∀ done, bought (signal :: done) = buyQty signal + bought done := fun _ => rfl
      have hsold : ∀ done, recordedSold (signal :: done) = sellQty signal + recordedSold done :=
        fun _ => rfl
      constructor
      · rintro ⟨hcovered, hcoveredRest⟩ done rest hsplit
        have hhead : soldQty pnl signal = sellQty signal := hexact.mpr hcovered
        cases done with
        | nil => exact add_nonneg hlots.1.total_nonneg (le_refl 0)
        | cons s done =>
            obtain ⟨rfl, htail⟩ := List.cons.inj hsplit
            have hbound := hrest.mp hcoveredRest done rest htail
            rw [hbought, hsold]
            linarith
      · intro h
        have hcovered : Covered pnl signal := by
          have hfirst := h [signal] signals rfl
          rw [hbought, hsold] at hfirst
          cases signal with
          | sell price qty =>
              have hzero : buyQty (.sell price qty) = 0 := rfl
              have hnil : recordedSold [] = 0 ∧ bought [] = 0 := ⟨rfl, rfl⟩
              unfold Covered
              linarith [hnil.1, hnil.2]
          | buy price qty => exact hlots.1.total_nonneg
          | hold => exact hlots.1.total_nonneg
        have hhead : soldQty pnl signal = sellQty signal := hexact.mpr hcovered
        refine ⟨hcovered, hrest.mpr ?_⟩
        rintro done rest rfl
        have hbound := h (signal :: done) rest rfl
        rw [hbought, hsold] at hbound
        linarith

/-- **When the books are right.**  From an empty tracker, the net recorded quantity is the position,
everything recorded as sold was sold, and each sell of the list was sold as recorded, each of these
exactly when the list never oversells. -/
theorem books_right_iff {signals : List Signal} (hs : ∀ s ∈ signals, Stepped s) :
    (bought signals - recordedSold signals
        = (settle FifoPnl.applySignal FifoPnl.new signals).positionQty ↔
      NeverOversells signals) ∧
    (reallySold FifoPnl.new signals = recordedSold signals ↔ NeverOversells signals) ∧
    (Along FifoPnl.applySignal Exact FifoPnl.new signals ↔ NeverOversells signals) := by
  obtain ⟨hposition, _, hsold, hexact⟩ := books hs steppedLots_new
  have hzero : FifoPnl.new.positionQty = 0 := rfl
  have hnever : Along FifoPnl.applySignal Covered FifoPnl.new signals ↔ NeverOversells signals := by
    rw [along_covered_iff hs steppedLots_new]
    simp only [hzero, zero_add, NeverOversells]
  rw [← hnever]
  refine ⟨?_, hsold, hexact⟩
  rw [← hsold, hposition, hzero]
  constructor
  · intro h
    linarith
  · intro h
    linarith

/-! ## §3 The executor -/

/-- Orders with the time stamps of their records, executed one after the other. -/
def executeAll (executor : PaperExecutor) (state : SharedState)
    (orders : List (ValidatedOrder × String)) : PaperExecutor × SharedState :=
  orders.foldl (fun es o => es.1.executeWithState o.1 es.2 o.2) (executor, state)

/-- The trades that executing the orders passes to `add_trade`. -/
def pushed (orders : List (ValidatedOrder × String)) : List PaperTrade :=
  orders.filterMap fun o => PaperTrade.ofOrder o.1 o.2

/-- The quantity of the trades recorded for one side. -/
def tradedQty (side : String) (trades : List PaperTrade) : ℚ :=
  ((trades.filter fun t => t.side = side).map fun t => t.qty).sum

/-- One order in the executor's books: its record is pushed, its quantity goes to a volume, and the
tracker takes its signal. -/
theorem executeWithState_books (executor : PaperExecutor) (order : ValidatedOrder)
    (state : SharedState) (timestamp : String) :
    let out := executor.executeWithState order state timestamp
    out.2.recentTrades
      = (PaperTrade.ofOrder order timestamp).toList.foldl (pushBounded 50) state.recentTrades ∧
    out.1.buyVolume = executor.buyVolume + buyQty order.signal ∧
    out.1.sellVolume = executor.sellVolume + sellQty order.signal ∧
    out.2.account.pnl = state.account.pnl.applySignal order.signal := by
  have hpnl := state.account.applyOrder_pnl order
  obtain ⟨signal, clientOrderId⟩ := order
  cases signal with
  | buy price qty => exact ⟨rfl, rfl, (add_zero _).symm, hpnl⟩
  | sell price qty => exact ⟨rfl, (add_zero _).symm, rfl, hpnl⟩
  | hold => exact ⟨rfl, (add_zero _).symm, (add_zero _).symm, rfl⟩

/-- The trade log after a list of orders: the newest of what was pushed. -/
theorem executeAll_books (orders : List (ValidatedOrder × String)) (executor : PaperExecutor)
    (state : SharedState) :
    let out := executeAll executor state orders
    let signals := orders.map fun o => o.1.signal
    out.2.recentTrades = (pushed orders).foldl (pushBounded 50) state.recentTrades ∧
    out.1.buyVolume = executor.buyVolume + bought signals ∧
    out.1.sellVolume = executor.sellVolume + recordedSold signals ∧
    out.2.account.pnl = settle FifoPnl.applySignal state.account.pnl signals := by
  induction orders generalizing executor state with
  | nil => exact ⟨rfl, (add_zero _).symm, (add_zero _).symm, rfl⟩
  | cons o orders ih =>
      obtain ⟨hlog, hbuy, hsell, hpnl⟩ := executeWithState_books executor o.1 state o.2
      obtain ⟨hlog', hbuy', hsell', hpnl'⟩ :=
        ih (executor.executeWithState o.1 state o.2).1 (executor.executeWithState o.1 state o.2).2
      refine ⟨?_, ?_, ?_, ?_⟩
      · refine hlog'.trans ?_
        rw [hlog]
        unfold pushed
        rw [List.filterMap_cons]
        cases PaperTrade.ofOrder o.1 o.2 <;> rfl
      · refine hbuy'.trans ?_
        rw [hbuy, add_assoc]
        rfl
      · refine hsell'.trans ?_
        rw [hsell, add_assoc]
        rfl
      · refine hpnl'.trans ?_
        rw [hpnl]
        rfl

theorem tradedQty_append (side : String) (xs ys : List PaperTrade) :
    tradedQty side (xs ++ ys) = tradedQty side xs + tradedQty side ys := by
  unfold tradedQty
  rw [List.filter_append, List.map_append, List.sum_append]

theorem tradedQty_ofOrder (order : ValidatedOrder) (timestamp : String) :
    tradedQty "BUY" (PaperTrade.ofOrder order timestamp).toList = buyQty order.signal ∧
    tradedQty "SELL" (PaperTrade.ofOrder order timestamp).toList = sellQty order.signal := by
  obtain ⟨signal, clientOrderId⟩ := order
  cases signal with
  | buy price qty => exact ⟨add_zero qty, rfl⟩
  | sell price qty => exact ⟨rfl, add_zero qty⟩
  | hold => exact ⟨rfl, rfl⟩

/-- The two sides of the trade log are the recorded quantities. -/
theorem tradedQty_pushed (orders : List (ValidatedOrder × String)) :
    tradedQty "BUY" (pushed orders) = bought (orders.map fun o => o.1.signal) ∧
    tradedQty "SELL" (pushed orders) = recordedSold (orders.map fun o => o.1.signal) := by
  induction orders with
  | nil => exact ⟨rfl, rfl⟩
  | cons o orders ih =>
      have hpushed :
          pushed (o :: orders) = (PaperTrade.ofOrder o.1 o.2).toList ++ pushed orders := by
        unfold pushed
        rw [List.filterMap_cons]
        cases PaperTrade.ofOrder o.1 o.2 <;> rfl
      obtain ⟨hbuy, hsell⟩ := tradedQty_ofOrder o.1 o.2
      rw [hpushed, tradedQty_append, tradedQty_append, hbuy, hsell, ih.1, ih.2]
      exact ⟨rfl, rfl⟩

/-! ## §4 The backtester -/

/-- The signal that a recorded trade executes. -/
def signalOf (trade : BacktestTrade) : Signal :=
  match trade.side with
  | .buy => .buy trade.price trade.qty
  | .sell => .sell trade.price trade.qty

/-- The quantity of the trades of one side. -/
def sideQty (side : TradeSide) (trades : List BacktestTrade) : ℚ :=
  ((trades.filter fun t => t.side = side).map fun t => t.qty).sum

/-- The recorded trades of a backtest, by side and in total. -/
theorem sideQty_signals (trades : List BacktestTrade) :
    sideQty .buy trades = bought (trades.map signalOf) ∧
    sideQty .sell trades = recordedSold (trades.map signalOf) ∧
    (trades.map fun t => t.qty).sum
      = bought (trades.map signalOf) + recordedSold (trades.map signalOf) := by
  induction trades with
  | nil => exact ⟨rfl, rfl, (add_zero 0).symm⟩
  | cons t trades ih =>
      obtain ⟨hbuy, hsell, htotal⟩ := ih
      obtain ⟨side, price, qty, timestampMs⟩ := t
      unfold sideQty bought recordedSold at *
      simp only [List.map_cons, List.sum_cons, List.filter_cons]
      rw [← hbuy, ← hsell, htotal, ← hbuy, ← hsell]
      cases side with
      | buy =>
          refine ⟨rfl, (zero_add _).symm, ?_⟩
          show qty + _ = (qty + _) + (0 + _)
          ring
      | sell =>
          refine ⟨(zero_add _).symm, rfl, ?_⟩
          show qty + _ = (0 + _) + (qty + _)
          ring

/-- Replaying the trades is executing their signals. -/
theorem foldl_applyTrade (pnl : FifoPnl) (trades : List BacktestTrade) :
    trades.foldl FifoPnl.applyTrade pnl = settle FifoPnl.applySignal pnl (trades.map signalOf) := by
  unfold settle
  rw [List.foldl_map]
  refine congrFun (congrFun (congrArg List.foldl ?_) pnl) trades
  funext pnl t
  obtain ⟨side, price, qty, timestampMs⟩ := t
  cases side <;> rfl

/-! ## §5 When the records reconcile -/

/-- **The reported trades reconcile with the account exactly when nothing is oversold.**

For the executor, over any list of orders of positive multiples of the step: the trades passed to
`add_trade` net to the account's position, the volumes do, and every recorded sell quantity was
really sold, each if and only if at no point the sells so far exceed the buys so far.  For any run
of the backtester over trades of such quantities: the trades net to the tracker's position, and the
total volume is what was bought and really sold, under the same condition. -/
theorem trades_reconcile_iff {σ : Type} [Strategy σ] (symbol : String)
    (initialCapitalUsdt feePct : ℚ) (haltFlag : Bool) :
    (∀ orders : List (ValidatedOrder × String), (∀ o ∈ orders, Stepped o.1.signal) →
      let out := executeAll (PaperExecutor.new symbol)
        (SharedState.new symbol initialCapitalUsdt feePct haltFlag) orders
      let signals := orders.map fun o => o.1.signal
      (tradedQty "BUY" (pushed orders) - tradedQty "SELL" (pushed orders)
        = out.2.account.pnl.positionQty ↔ NeverOversells signals) ∧
      (out.1.buyVolume - out.1.sellVolume = out.2.account.pnl.positionQty ↔
        NeverOversells signals) ∧
      (Along FifoPnl.applySignal Exact FifoPnl.new signals ↔ NeverOversells signals)) ∧
    (∀ (bt : Backtester σ) (events : List Tick) (snapshot : Option DepthSnapshot),
      let result := (bt.run events snapshot).1
      let pnl := (bt.run events snapshot).2.pnl
      let signals := result.trades.map signalOf
      (∀ t ∈ result.trades, 0 < t.qty ∧ OnStep qtyStep t.qty) →
      (sideQty .buy result.trades - sideQty .sell result.trades = pnl.positionQty ↔
        NeverOversells signals) ∧
      (result.totalVolume = bought signals + reallySold FifoPnl.new signals ↔
        NeverOversells signals) ∧
      (Along FifoPnl.applySignal Exact FifoPnl.new signals ↔ NeverOversells signals)) := by
  refine ⟨?_, ?_⟩
  · intro orders hs out signals
    have hsignals : ∀ s ∈ signals, Stepped s := by
      intro s hmem
      obtain ⟨o, ho, rfl⟩ := List.mem_map.mp hmem
      exact hs o ho
    obtain ⟨hbuy, hsell⟩ := tradedQty_pushed orders
    obtain ⟨_, hbuyVolume, hsellVolume, hpnl⟩ := executeAll_books orders
      (PaperExecutor.new symbol) (SharedState.new symbol initialCapitalUsdt feePct haltFlag)
    have hposition : out.2.account.pnl.positionQty
        = (settle FifoPnl.applySignal FifoPnl.new signals).positionQty :=
      congrArg FifoPnl.positionQty hpnl
    have hvolumes : out.1.buyVolume - out.1.sellVolume = bought signals - recordedSold signals := by
      rw [hbuyVolume, hsellVolume]
      show 0 + bought signals - (0 + recordedSold signals) = _
      rw [zero_add, zero_add]
    obtain ⟨hnet, _, hexact⟩ := books_right_iff hsignals
    refine ⟨?_, ?_, hexact⟩
    · rw [hbuy, hsell, hposition]
      exact hnet
    · rw [hvolumes, hposition]
      exact hnet
  · intro bt events snapshot result pnl signals hs
    have hsignals : ∀ s ∈ signals, Stepped s := by
      intro s hmem
      obtain ⟨t, ht, rfl⟩ := List.mem_map.mp hmem
      have hqty : (signalOf t).qty = t.qty := by
        unfold signalOf
        cases t.side <;> rfl
      unfold Stepped
      rw [hqty]
      exact hs t ht
    obtain ⟨hbuy, hsell, htotal⟩ := sideQty_signals result.trades
    obtain ⟨hnet, hsold, hexact⟩ := books_right_iff hsignals
    have hposition : pnl.positionQty
        = (settle FifoPnl.applySignal FifoPnl.new signals).positionQty :=
      congrArg FifoPnl.positionQty (foldl_applyTrade FifoPnl.new result.trades)
    have hvolume : result.totalVolume = bought signals + recordedSold signals := htotal
    refine ⟨?_, ?_, hexact⟩
    · rw [hbuy, hsell, hposition]
      exact hnet
    · rw [hvolume, add_right_inj, eq_comm]
      exact hsold

/-! A round trip of 0.01, and a sell with nothing open: on its own, and in a backtest in which the
Buy before it was rejected. -/

def roundTrip : List (ValidatedOrder × String) :=
  [(⟨.buy 100 (1 / 100), "a"⟩, "t0"), (⟨.sell 101 (1 / 100), "b"⟩, "t1")]

theorem roundTrip_reconciles :
    let out := executeAll (PaperExecutor.new "BTCUSDT")
      (SharedState.new "BTCUSDT" 10000 0 false) roundTrip
    NeverOversells (roundTrip.map fun o => o.1.signal) ∧
      out.1.buyVolume - out.1.sellVolume = out.2.account.pnl.positionQty := by
  intro out
  have hstep : OnStep qtyStep (1 / 100) := ⟨10, by norm_num [qtyStep]⟩
  have hstepped : ∀ o ∈ roundTrip, Stepped o.1.signal := by
    intro o ho
    rcases List.mem_cons.mp ho with rfl | ho
    · exact ⟨by decide +kernel, hstep⟩
    · rw [List.mem_singleton.mp ho]
      exact ⟨by decide +kernel, hstep⟩
  obtain ⟨htrades, hvolumes, _⟩ :=
    (@trades_reconcile_iff PingPongStrategy _ "BTCUSDT" 10000 0 false).1 roundTrip hstepped
  have hnever := htrades.mp (by decide +kernel)
  exact ⟨hnever, hvolumes.mpr hnever⟩

/-- Two quiet updates on a book of one quote. -/
def quietTicks : List Tick :=
  [⟨⟨"depthUpdate", 0, "BTCUSDT", 11, 11, 10, [], []⟩, 0, ⟨false, 0, 0, "a"⟩⟩,
    ⟨⟨"depthUpdate", 1, "BTCUSDT", 12, 12, 11, [], []⟩, 1, ⟨false, 0, 1, "b"⟩⟩]

/-- The executor after a sell with nothing open. -/
def uncoveredSell : PaperExecutor × SharedState :=
  executeAll (PaperExecutor.new "BTCUSDT") (SharedState.new "BTCUSDT" 10000 0 false)
    [(⟨.sell 101 (1 / 100), "b"⟩, "t1")]

/-- A backtest whose entry is rejected for want of balance; the strategy sells all the same. -/
def rejectedEntry : BacktestResult × Backtester PingPongStrategy :=
  (Backtester.new "BTCUSDT" 20 PingPongStrategy.default (RiskChecker.new 1 20000 100 5)).run
    quietTicks (some ⟨10, [("100", "1")], [("101", "1")]⟩)

/-- **The records do not reconcile** in either. -/
theorem oversold_records_differ :
    uncoveredSell.1.buyVolume - uncoveredSell.1.sellVolume = -(1 / 100) ∧
      uncoveredSell.2.account.pnl.positionQty = 0 ∧
      rejectedEntry.1.trades = [⟨.sell, 101, 1 / 100, 1⟩] ∧
      sideQty .buy rejectedEntry.1.trades - sideQty .sell rejectedEntry.1.trades = -(1 / 100) ∧
      rejectedEntry.2.pnl.positionQty = 0 := by
  decide +kernel

end CryptoTrader.Reconciliation
