/-
# CryptoTrader.BacktestParity — the backtester against live paper trading.

The backtester and the main loop put the same book, strategy and checker behind the same events,
and promise the same trades.  One thing is not the same: the checker of the main loop reads the
cash of the paper account, the checker of the backtester a constant.  So the two are run in
lockstep (`Lib.Lockstep`): they agree as long as, on every Buy that all the other gates admit, the
constant and the cash of the trades so far lead the balance gate to one verdict.  The first Buy on
which they do not is approved by one side only, and the other side will not approve it next either.

The live side is a run of `Pipeline.machine` in which the executor drains each order before the
next event arrives.  Between two events the other threads take their steps in any order.

An `f64` is read as an exact rational on both sides.  The condition is meant with the values the
code has: at the edge of the balance gate it is the cash as the account has rounded it that counts.
-/
import CryptoTrader.DrainedLoop
import CryptoTrader.RateLimit
import CryptoTrader.UnsyncedBacktest

namespace CryptoTrader

open Lib Lib.Deferred Lib.Lockstep Lib.SlidingWindow

/-! ## §1 The balance gate and the other gates -/

namespace RiskChecker

/-- What the balance gate asks of an order; a Sell passes. -/
def Affords (minFreeBalanceUsdt : ℚ) (signal : Signal) (balance : ℚ) : Prop :=
  signal.isBuy = true →
    minFreeBalanceUsdt ≤ balance ∧ signal.price * signal.qty * (1001 / 1000) ≤ balance

instance (minFreeBalanceUsdt : ℚ) (signal : Signal) (balance : ℚ) :
    Decidable (Affords minFreeBalanceUsdt signal balance) :=
  inferInstanceAs (Decidable (_ → _))

/-- What the other gates ask of it, the kill switch apart. -/
structure OthersAdmit (risk : RiskChecker) (signal : Signal) (midPrice : ℚ) (env : Readings) :
    Prop where
  order : signal ≠ .hold
  size : signal.qty ≤ risk.maxOrderQty
  band : 0 < midPrice → |(signal.price - midPrice) / midPrice| * 100 ≤ risk.priceBandPct
  rate : (risk.recent env.now).length.toUInt32 < risk.maxOrdersPerSec
  fresh : env.uuid ∉ risk.seenOrderIds

instance (risk : RiskChecker) (signal : Signal) (midPrice : ℚ) (env : Readings) :
    Decidable (risk.OthersAdmit signal midPrice env) :=
  decidable_of_iff (signal ≠ .hold ∧ signal.qty ≤ risk.maxOrderQty ∧
      (0 < midPrice → |(signal.price - midPrice) / midPrice| * 100 ≤ risk.priceBandPct) ∧
      (risk.recent env.now).length.toUInt32 < risk.maxOrdersPerSec ∧
      env.uuid ∉ risk.seenOrderIds)
    ⟨fun ⟨h₁, h₂, h₃, h₄, h₅⟩ => ⟨h₁, h₂, h₃, h₄, h₅⟩,
      fun h => ⟨h.order, h.size, h.band, h.rate, h.fresh⟩⟩

/-- Without a halt, approval is the balance gate and the other gates. -/
theorem admits_iff {risk : RiskChecker} {signal : Signal} {midPrice : ℚ} {env : Readings}
    (hrunning : risk.killed env = false) :
    risk.Admits signal midPrice env ↔
      risk.OthersAdmit signal midPrice env ∧
        Affords risk.minFreeBalanceUsdt signal (risk.balance env) := by
  constructor
  · intro h
    exact ⟨⟨h.order, h.size, h.band, h.rate, h.fresh⟩, fun hbuy => ⟨h.floor hbuy, h.funds hbuy⟩⟩
  · rintro ⟨h, hbalance⟩
    exact ⟨h.order, hrunning, h.size, fun hbuy => (hbalance hbuy).1, fun hbuy => (hbalance hbuy).2,
      h.band, h.rate, h.fresh⟩

/-- The checker of the backtester: no switch, no flag, and the static balance. -/
structure Static (risk : RiskChecker) : Prop where
  notHalted : risk.halted = false
  noFlag : risk.hasHaltFlag = false
  noSource : risk.hasBalanceSource = false

/-- The checker of the main loop with the settings of `risk`: the flag and the cash are wired up,
and nobody can tell the logs of the two apart from instant `n` on. -/
def Wired (n : Nat) (risk live : RiskChecker) : Prop :=
  ∃ log, live =
      { risk with hasHaltFlag := true, hasBalanceSource := true, orderTimestamps := log } ∧
    ∀ m, n ≤ m → within oneSecond m log = within oneSecond m risk.orderTimestamps

section

variable {n : Nat} {risk live : RiskChecker} {signal : Signal} {midPrice : ℚ} {env env' : Readings}

theorem Static.check (h : risk.Static) (signal : Signal) (midPrice : ℚ) (env : Readings) :
    (risk.check signal midPrice env).2.Static ∧
      (risk.check signal midPrice env).2.minFreeBalanceUsdt = risk.minFreeBalanceUsdt ∧
      (risk.check signal midPrice env).2.freeBalanceUsdt = risk.freeBalanceUsdt := by
  obtain ⟨ids, queue, log, hcheck⟩ := risk.check_sameSettings signal midPrice env
  rw [hcheck]
  exact ⟨⟨h.notHalted, h.noFlag, h.noSource⟩, rfl, rfl⟩

/-- The static checker: the constant stands in for the balance. -/
theorem Static.admits_iff (h : risk.Static) :
    risk.Admits signal midPrice env ↔
      risk.OthersAdmit signal midPrice env ∧
        Affords risk.minFreeBalanceUsdt signal risk.freeBalanceUsdt := by
  have hrunning : risk.killed env = false := by
    unfold killed
    rw [h.notHalted, h.noFlag]
    rfl
  have hbalance : risk.balance env = risk.freeBalanceUsdt := by
    unfold balance
    rw [h.noSource]
    rfl
  rw [RiskChecker.admits_iff hrunning, hbalance]

/-- The wired one, read at the same instant and with the same id, with the halt flag down: the
other gates are the same, and the balance gate reads the cash. -/
theorem Wired.admits_iff (h : Wired n risk live) (hrisk : risk.Static) (hn : n ≤ env.now)
    (hnow : env'.now = env.now) (huuid : env'.uuid = env.uuid) (hflag : env'.haltFlag = false) :
    live.Admits signal midPrice env' ↔
      risk.OthersAdmit signal midPrice env ∧
        Affords risk.minFreeBalanceUsdt signal env'.cash := by
  obtain ⟨log, rfl, hlog⟩ := h
  set live : RiskChecker :=
    { risk with hasHaltFlag := true, hasBalanceSource := true, orderTimestamps := log }
  have hrunning : live.killed env' = false := by
    show (risk.halted || (true && env'.haltFlag)) = false
    rw [hrisk.notHalted, hflag]
    rfl
  have hrecent : live.recent env'.now = risk.recent env.now := by
    rw [hnow]
    exact hlog env.now hn
  have hothers : live.OthersAdmit signal midPrice env' ↔ risk.OthersAdmit signal midPrice env := by
    constructor
    · intro h
      exact ⟨h.order, h.size, h.band, hrecent ▸ h.rate, huuid ▸ h.fresh⟩
    · intro h
      exact ⟨h.order, h.size, h.band, hrecent.symm ▸ h.rate, huuid.symm ▸ h.fresh⟩
  rw [RiskChecker.admits_iff hrunning, hothers]
  rfl

/-- **One check on both sides.**  When the two reach the same verdict they are twins again. -/
theorem Wired.check (h : Wired n risk live) (hs : signal ≠ .hold) (hn : n ≤ env.now)
    (hnow : env'.now = env.now) (huuid : env'.uuid = env.uuid)
    (hverdict : risk.Admits signal midPrice env ↔ live.Admits signal midPrice env') :
    Wired env.now (risk.check signal midPrice env).2 (live.check signal midPrice env').2 := by
  obtain ⟨log, hlive, hlog⟩ := h
  by_cases hadm : risk.Admits signal midPrice env
  · -- both record the approval, in the same pruned log
    rw [check_of_admits hadm, check_of_admits (hverdict.mp hadm)]
    refine ⟨(risk.approved env).orderTimestamps, ?_, fun _ _ => rfl⟩
    have hrecent : live.recent env'.now = risk.recent env.now := by
      rw [hnow, hlive]
      exact hlog env.now hn
    show ({ live with orderTimestamps := live.recent env'.now }).remember env' = _
    rw [hrecent, hlive]
    unfold approved remember
    rw [huuid, hnow]
  · -- both keep at most a pruned log
    obtain ⟨pruned, hcheck, hwithin⟩ := check_of_not_admits hs hadm
    obtain ⟨pruned', hcheck', hwithin'⟩ := check_of_not_admits hs (mt hverdict.mpr hadm)
    rw [hcheck, hcheck', hlive]
    refine ⟨pruned', rfl, ?_⟩
    intro m hm
    have hlive' : within oneSecond m live.orderTimestamps = within oneSecond m log := by rw [hlive]
    rw [hwithin' m (hnow.symm ▸ hm), hlive', hlog m (hn.trans hm)]
    exact (hwithin m hm).symm

end

end RiskChecker

/-! ## §2 The backtester, one update at a time -/

namespace Backtester

variable {σ : Type}

/-- The paper account that has executed the trades so far, without fees. -/
def account (bt : Backtester σ) : PaperAccount :=
  bt.trades.foldl
    (fun acct trade => match trade.side with
      | .buy => acct.onBuy trade.price trade.qty
      | .sell => acct.onSell trade.price trade.qty)
    (PaperAccount.new 10000 0)

/-- The tracker of that account is the one that the report is computed from. -/
theorem account_pnl (bt : Backtester σ) : bt.account.pnl = bt.pnl := by
  unfold account pnl
  generalize hacct : PaperAccount.new 10000 0 = acct
  have hpnl : FifoPnl.new = acct.pnl := by
    rw [← hacct]
    rfl
  rw [hpnl]
  clear hacct hpnl
  induction bt.trades generalizing acct with
  | nil => rfl
  | cons trade trades ih =>
      rw [List.foldl_cons, List.foldl_cons, ih]
      congr 1
      unfold FifoPnl.applyTrade
      cases trade.side with
      | buy => rfl
      | sell => exact PaperAccount.onSell_pnl acct trade.price trade.qty

/-- One more recorded trade is one more executed order. -/
theorem account_record (bt : Backtester σ) (strategy : σ) (risk : RiskChecker)
    (order : ValidatedOrder) (timestampMs : UInt64) :
    ({ bt with
        strategy := strategy
        risk := risk
        trades := bt.trades ++ BacktestTrade.ofSignal order.signal timestampMs } :
        Backtester σ).account = bt.account.applyOrder order := by
  unfold account PaperAccount.applyOrder
  rw [List.foldl_append]
  cases order.signal <;> rfl

variable [Strategy σ]

/-- The order a step approves, if it does. -/
def approvedAt (bt : Backtester σ) (tick : Tick) : Option ValidatedOrder :=
  (bt.decision tick).bind Decision.order

/-- The parts of a decision of the backtester. -/
theorem decision_eq_some {bt : Backtester σ} {tick : Tick} {d : Decision}
    (h : bt.decision tick = some d) : d.signal ≠ .hold ∧ d.risk = bt.risk ∧ d.env = tick.env := by
  obtain ⟨snapshot, -, hdecide⟩ := Option.bind_eq_some_iff.mp h
  exact (decide?_eq_some hdecide).2.2

/-- **A step of the backtester**, in terms of the snapshot it shows and the decision it makes. -/
theorem onUpdate_spec (bt : Backtester σ) (tick : Tick) :
    (bt.onUpdate tick).strategy = strategyAfter bt.strategy (bt.quote tick) ∧
    (bt.onUpdate tick).risk = riskAfter bt.risk (bt.decision tick) ∧
    (bt.onUpdate tick).account
      = settle PaperAccount.applyOrder bt.account (bt.approvedAt tick).toList := by
  have hstep : ∀ (bt : Backtester σ) (snapshot : OrderbookSnapshot) (timestampMs : UInt64),
      (bt.onQuote snapshot tick.env timestampMs).strategy
        = (Strategy.onOrderbook bt.strategy snapshot).2 ∧
      (bt.onQuote snapshot tick.env timestampMs).risk
        = riskAfter bt.risk (decide? bt.strategy snapshot bt.risk tick.env) ∧
      (bt.onQuote snapshot tick.env timestampMs).account
        = settle PaperAccount.applyOrder bt.account
          ((decide? bt.strategy snapshot bt.risk tick.env).bind Decision.order).toList := by
    intro bt snapshot timestampMs
    by_cases hhold : (Strategy.onOrderbook bt.strategy snapshot).1 = .hold
    · rw [onQuote_of_hold hhold, decide?_of_hold hhold]
      exact ⟨rfl, rfl, rfl⟩
    · rw [onQuote_of_order hhold, decide?_of_order hhold]
      simp only [Option.bind_some, riskAfter, Decision.order, Decision.outcome]
      generalize bt.risk.check (Strategy.onOrderbook bt.strategy snapshot).1
        (referencePrice snapshot) tick.env = checked
      obtain ⟨result, risk⟩ := checked
      cases result with
      | ok order => exact ⟨rfl, rfl, bt.account_record _ risk order timestampMs⟩
      | err e => exact ⟨rfl, rfl, rfl⟩
      | panicked => exact ⟨rfl, rfl, rfl⟩
  unfold approvedAt decision
  cases hquote : bt.quote tick with
  | none =>
      obtain ⟨orderbook, heq⟩ := onUpdate_of_quote_none hquote
      rw [heq]
      exact ⟨rfl, rfl, rfl⟩
  | some snapshot =>
      obtain ⟨orderbook, heq⟩ := onUpdate_of_quote_some hquote
      rw [heq]
      exact hstep { bt with orderbook := orderbook } snapshot tick.update.eventTime

/-- The loop as an emitter of approved orders. -/
def approvals : Emitter (Backtester σ) Tick ValidatedOrder := ⟨approvedAt, onUpdate⟩

/-- The orders approved in a run. -/
def approved (bt : Backtester σ) (events : List Tick) (snapshot : Option DepthSnapshot) :
    List ValidatedOrder :=
  approvals.emitted (bt.start snapshot) events

end Backtester

/-! ## §3 Lockstep -/

section

variable {σ : Type} [Strategy σ]

/-- On the decision of this step, should all the other gates admit it, the constant and the cash
of the trades so far lead the balance gate to one verdict. -/
def Backtester.SameVerdict (bt : Backtester σ) (tick : Tick) : Prop :=
  ∀ d ∈ bt.decision tick, d.risk.OthersAdmit d.signal (referencePrice d.snapshot) d.env →
    (RiskChecker.Affords d.risk.minFreeBalanceUsdt d.signal d.risk.freeBalanceUsdt ↔
      RiskChecker.Affords d.risk.minFreeBalanceUsdt d.signal bt.account.cash)

instance (bt : Backtester σ) (tick : Tick) : Decidable (bt.SameVerdict tick) :=
  inferInstanceAs (Decidable (∀ d ∈ bt.decision tick, _ → (_ ↔ _)))

/-- The two sides between two updates. -/
structure Parity (n : Nat) (bt : Backtester σ) (live : Pipeline σ) : Prop extends live.Ready where
  book : live.book = bt.orderbook
  strat : live.strat = bt.strategy
  static : bt.risk.Static
  wired : bt.risk.Wired n live.path.risk
  account : live.path.account = bt.account

/-- The result of an update does not depend on the flag, nor does the new book. -/
theorem Orderbook.handleUpdate_flag (book : Orderbook) (update : DepthUpdate)
    (resyncNeeded : Bool) :
    ∃ applied book' flag flag',
      book.handleUpdate update false = (.ok applied, book', flag) ∧
      book.handleUpdate update resyncNeeded = (.ok applied, book', flag') ∧
      (applied = true → book'.isLive = true) := by
  cases hst : book.state with
  | buffering buf =>
      rw [handleUpdate_buffering hst, handleUpdate_buffering hst]
      exact ⟨_, _, _, _, rfl, rfl, nofun⟩
  | live n =>
      rw [handleUpdate_live hst, handleUpdate_live hst]
      cases sequencing n update with
      | apply => exact ⟨_, _, _, _, rfl, rfl, fun _ => rfl⟩
      | stale => exact ⟨_, _, _, _, rfl, rfl, nofun⟩
      | gap => exact ⟨_, _, _, _, rfl, rfl, nofun⟩

namespace Parity

variable {n : Nat} {bt : Backtester σ} {live live' : Pipeline σ} {tick : Tick}
  {order : Option ValidatedOrder}

/-- The two books move alike and show alike. -/
theorem shown (h : Parity n bt live) (tick : Tick) :
    Pipeline.quote live.book live.resyncNeeded tick.nowMs (.depthUpdate tick.update)
      = bt.quote tick ∧
    (bookOnEvent (live.book, live.resyncNeeded) (.depthUpdate tick.update)).1
      = (bt.onUpdate tick).orderbook := by
  obtain ⟨applied, book, flag, flag', hback, hlive, hisLive⟩ :=
    bt.orderbook.handleUpdate_flag tick.update live.resyncNeeded
  rw [Backtester.onUpdate_orderbook]
  unfold Pipeline.quote bookOnEvent Backtester.quote
  simp only [h.book, hback, hlive, and_true]
  cases applied with
  | false => rfl
  | true => simp only [hisLive rfl, if_true]

/-- The decision of the main loop is the backtester's, under its own checker. -/
theorem decision (h : Parity n bt live) (tick : Tick) :
    live.decision tick.label = (bt.decision tick).map fun d =>
      d.under live.path.risk (live.path.readings tick.env.now tick.env.uuid) := by
  show (Pipeline.quote live.book live.resyncNeeded tick.nowMs (.depthUpdate tick.update)).bind _ = _
  unfold Backtester.decision
  rw [(h.shown tick).1, h.strat]
  cases bt.quote tick with
  | none => rfl
  | some snapshot => exact decide?_under bt.strategy snapshot ..

/-- A decision of the backtester, and when each side approves it. -/
theorem verdicts (h : Parity n bt live) (hn : n ≤ tick.env.now) {d : Decision}
    (hd : bt.decision tick = some d) :
    (d.Admitted ↔ d.risk.OthersAdmit d.signal (referencePrice d.snapshot) d.env ∧
      RiskChecker.Affords d.risk.minFreeBalanceUsdt d.signal d.risk.freeBalanceUsdt) ∧
    ((d.under live.path.risk (live.path.readings tick.env.now tick.env.uuid)).Admitted ↔
      d.risk.OthersAdmit d.signal (referencePrice d.snapshot) d.env ∧
        RiskChecker.Affords d.risk.minFreeBalanceUsdt d.signal bt.account.cash) := by
  obtain ⟨-, hrisk, henv⟩ := Backtester.decision_eq_some hd
  have hcash : live.path.shared.cashBits = bt.account.cash := by rw [h.mirrored, h.account]
  refine ⟨?_, ?_⟩
  · unfold Decision.Admitted
    rw [hrisk]
    exact h.static.admits_iff
  · unfold Decision.Admitted
    rw [hrisk, henv, ← hcash]
    exact h.wired.admits_iff h.static hn rfl rfl h.running

/-- **Where the verdicts agree the two sides take the same step.** -/
theorem step (h : Parity n bt live) (hn : n ≤ tick.env.now) (hverdict : bt.SameVerdict tick)
    (hstep : Pipeline.drainedStep live tick order live') :
    bt.approvedAt tick = order ∧ Parity tick.env.now (bt.onUpdate tick) live' := by
  obtain ⟨horder, hready, hbook, hstrat, hrisk, hacct⟩ :=
    Pipeline.drainedStep_spec h.toReady hstep
  obtain ⟨hstrategy, hchecker, haccount⟩ := bt.onUpdate_spec tick
  obtain ⟨hquote, horderbook⟩ := h.shown tick
  rw [h.decision tick] at horder hrisk
  -- the orders and the checkers, from the verdicts
  have hsame : bt.approvedAt tick = order ∧
      (bt.onUpdate tick).risk.Static ∧
      (bt.onUpdate tick).risk.Wired tick.env.now live'.path.risk := by
    rw [hchecker, hrisk, horder]
    unfold Backtester.approvedAt
    cases hd : bt.decision tick with
    | none =>
        obtain ⟨log, hlive, hlog⟩ := h.wired
        exact ⟨rfl, h.static, log, hlive, fun m hm => hlog m (hn.trans hm)⟩
    | some d =>
        obtain ⟨hne, hd', henv⟩ := Backtester.decision_eq_some hd
        obtain ⟨hback, hlive⟩ := h.verdicts hn hd
        set d' := d.under live.path.risk (live.path.readings tick.env.now tick.env.uuid)
        have hboth : d.Admitted ↔ d'.Admitted := by
          rw [hback, hlive]
          exact and_congr_right (hverdict d hd)
        have hwired : d.risk.Wired n d'.risk := hd' ▸ h.wired
        have hnow : d'.env.now = d.env.now := by rw [henv]; rfl
        have huuid : d'.env.uuid = d.env.uuid := by rw [henv]; rfl
        refine ⟨?_, ?_, ?_⟩
        · show d.order = d'.order
          by_cases hadm : d.Admitted
          · rw [Decision.order_of_admitted hadm, Decision.order_of_admitted (hboth.mp hadm), huuid]
            rfl
          · rw [Decision.order_of_not_admitted hadm,
              Decision.order_of_not_admitted (mt hboth.mpr hadm)]
        · exact ((hd' ▸ h.static : d.risk.Static).check ..).1
        · have htime : d.env.now = tick.env.now := by rw [henv]
          have hnext : d.outcome.2.Wired tick.env.now d'.outcome.2 := by
            rw [← htime]
            exact hwired.check hne (htime ▸ hn) hnow huuid hboth
          exact hnext
  obtain ⟨happroved, hstatic, hwired⟩ := hsame
  refine ⟨happroved, hready, hbook.trans horderbook, ?_, hstatic, hwired, ?_⟩
  · rw [hstrat, hstrategy, hquote, h.strat]
  · rw [hacct, haccount, happroved, h.account]

end Parity

/-- An update that sends nothing leaves the main loop with the cash and the floor it had. -/
theorem Pipeline.quiet_step {live live' : Pipeline σ} {tick : Tick} (h : live.Ready)
    (hstep : drainedStep live tick none live') :
    live'.Ready ∧ live'.path.shared.cashBits = live.path.shared.cashBits ∧
      live'.path.risk.hasBalanceSource = live.path.risk.hasBalanceSource ∧
      live'.path.risk.minFreeBalanceUsdt = live.path.risk.minFreeBalanceUsdt := by
  obtain ⟨-, hready, -, -, hrisk, hacct⟩ := drainedStep_spec h hstep
  have hcash : live'.path.account = live.path.account := hacct
  refine ⟨hready, by rw [hready.mirrored, h.mirrored, hcash], ?_⟩
  rw [hrisk]
  cases hd : live.decision tick.label with
  | none => exact ⟨rfl, rfl⟩
  | some d =>
      obtain ⟨-, hrisk', -⟩ := decision_eq_some hd
      obtain ⟨ids, queue, log, hcheck⟩ :=
        d.risk.check_sameSettings d.signal (referencePrice d.snapshot) d.env
      show d.outcome.2.hasBalanceSource = _ ∧ d.outcome.2.minFreeBalanceUsdt = _
      rw [show d.outcome.2 = _ from hcheck, ← hrisk']
      exact ⟨rfl, rfl⟩

/-- The main loop affords what it sends. -/
theorem Pipeline.sent_affords {live live' : Pipeline σ} {tick : Tick} {order : ValidatedOrder}
    (h : live.Ready) (hsource : live.path.risk.hasBalanceSource = true)
    (hstep : drainedStep live tick (some order) live') :
    RiskChecker.Affords live.path.risk.minFreeBalanceUsdt order.signal
      live.path.shared.cashBits := by
  obtain ⟨horder, -⟩ := drainedStep_spec h hstep
  obtain ⟨d, hd, hadm, rfl⟩ := decision_order horder.symm
  obtain ⟨-, hrisk, henv⟩ := decision_eq_some hd
  have hbalance : d.risk.balance d.env = live.path.shared.cashBits := by
    unfold RiskChecker.balance
    rw [hrisk, hsource, henv]
    rfl
  intro hbuy
  rw [← hbalance, ← hrisk]
  exact ⟨hadm.floor hbuy, hadm.funds hbuy⟩

/-- An order the cash does not afford is not the next one of the main loop. -/
theorem Pipeline.neverNext {live : Pipeline σ} (h : live.Ready)
    (hsource : live.path.risk.hasBalanceSource = true) {order : ValidatedOrder}
    (hpoor : ¬ RiskChecker.Affords live.path.risk.minFreeBalanceUsdt order.signal
      live.path.shared.cashBits) : NeverNext drainedStep order live := by
  refine neverNext_of_invariant (I := fun t => t.Ready ∧
    t.path.risk.hasBalanceSource = true ∧
    ¬ RiskChecker.Affords t.path.risk.minFreeBalanceUsdt order.signal t.path.shared.cashBits)
    ?_ ?_ ⟨h, hsource, hpoor⟩
  · rintro t tick t' ⟨hready, hwired, hno⟩ hstep
    obtain ⟨hready', hcash, hsource', hmin⟩ := quiet_step hready hstep
    exact ⟨hready', hsource'.trans hwired, by rwa [hmin, hcash]⟩
  · rintro t tick t' ⟨hready, hwired, hno⟩ hstep
    exact hno (sent_affords hready hwired hstep)

/-- An order the constant does not afford is never one of the backtester. -/
theorem Backtester.neverNext {bt : Backtester σ} (h : bt.risk.Static) {order : ValidatedOrder}
    (hpoor : ¬ RiskChecker.Affords bt.risk.minFreeBalanceUsdt order.signal
      bt.risk.freeBalanceUsdt) : NeverNext approvals.system order bt := by
  refine neverNext_of_invariant (I := fun b => b.risk.Static ∧
    ¬ RiskChecker.Affords b.risk.minFreeBalanceUsdt order.signal b.risk.freeBalanceUsdt)
    ?_ ?_ ⟨h, hpoor⟩
  · rintro b tick _ ⟨hstatic, hno⟩ ⟨-, rfl⟩
    show (b.onUpdate tick).risk.Static ∧
      ¬ RiskChecker.Affords (b.onUpdate tick).risk.minFreeBalanceUsdt order.signal
        (b.onUpdate tick).risk.freeBalanceUsdt
    rw [(b.onUpdate_spec tick).2.1]
    cases hd : b.decision tick with
    | none => exact ⟨hstatic, hno⟩
    | some d =>
        obtain ⟨-, hrisk, -⟩ := decision_eq_some hd
        obtain ⟨hnext, hmin, hfree⟩ := hstatic.check d.signal (referencePrice d.snapshot) d.env
        rw [← hrisk] at hnext hmin hfree hno
        exact ⟨hnext, by rwa [show (riskAfter _ (some d)).minFreeBalanceUsdt = _ from hmin,
          show (riskAfter _ (some d)).freeBalanceUsdt = _ from hfree]⟩
  · rintro b tick _ ⟨hstatic, hno⟩ ⟨horder, -⟩
    obtain ⟨d, hd, horder⟩ := Option.bind_eq_some_iff.mp horder
    obtain ⟨-, hrisk, -⟩ := decision_eq_some hd
    by_cases hadm : d.Admitted
    · rw [Decision.order_of_admitted hadm] at horder
      obtain rfl := Option.some.inj horder
      unfold Decision.Admitted at hadm
      rw [hrisk] at hadm
      exact hno (hstatic.admits_iff.mp hadm).2
    · rw [Decision.order_of_not_admitted hadm] at horder
      cases horder

/-- **Where the verdicts differ the two sides fork.** -/
theorem Parity.fork {n : Nat} {bt : Backtester σ} {live live' : Pipeline σ} {tick : Tick}
    {order : Option ValidatedOrder} (h : Parity n bt live) (hn : n ≤ tick.env.now)
    (hverdict : ¬ bt.SameVerdict tick) (hstep : Pipeline.drainedStep live tick order live') :
    Fork Backtester.approvals Pipeline.drainedStep (bt.onUpdate tick) live' (bt.approvedAt tick)
      order := by
  simp only [Backtester.SameVerdict, not_forall, exists_prop, Option.mem_def] at hverdict
  obtain ⟨d, hd, hothers, hdiffer⟩ := hverdict
  obtain ⟨-, hrisk, -⟩ := Backtester.decision_eq_some hd
  obtain ⟨hback, hlive⟩ := h.verdicts hn hd
  obtain ⟨log, hwired, -⟩ := h.wired
  set d' := d.under live.path.risk (live.path.readings tick.env.now tick.env.uuid)
  have hleft : bt.approvedAt tick = d.order := by
    unfold Backtester.approvedAt
    rw [hd]
    rfl
  have hright : order = d'.order := by
    rw [(Pipeline.drainedStep_spec h.toReady hstep).1, h.decision tick, hd]
    rfl
  have hcash : live.path.shared.cashBits = bt.account.cash := by rw [h.mirrored, h.account]
  by_cases hconstant : RiskChecker.Affords d.risk.minFreeBalanceUsdt d.signal
    d.risk.freeBalanceUsdt
  · -- only the backtester approves; the cash, which has not moved, will not afford the order next
    have hpoor : ¬ RiskChecker.Affords d.risk.minFreeBalanceUsdt d.signal bt.account.cash :=
      fun h' => hdiffer (iff_of_true hconstant h')
    have hnone : d'.order = none := Decision.order_of_not_admitted fun hadm =>
      hpoor (hlive.mp hadm).2
    rw [hleft, Decision.order_of_admitted (hback.mpr ⟨hothers, hconstant⟩), hright, hnone]
    rw [hright, hnone] at hstep
    obtain ⟨hready, hcash', hsource, hmin⟩ := Pipeline.quiet_step h.toReady hstep
    refine .left (Pipeline.neverNext hready (hsource.trans (by rw [hwired])) ?_)
    rw [hmin, hcash', hcash, hwired]
    rwa [hrisk] at hpoor
  · -- only the main loop does; the constant never affords the order
    have hrich : RiskChecker.Affords d.risk.minFreeBalanceUsdt d.signal bt.account.cash :=
      by_contra fun h' => hdiffer (iff_of_false hconstant h')
    have hnone : d.order = none := Decision.order_of_not_admitted fun hadm =>
      hconstant (hback.mp hadm).2
    rw [hleft, hnone, hright, Decision.order_of_admitted (hlive.mpr ⟨hothers, hrich⟩)]
    have hquiet : (bt.onUpdate tick).risk.Static ∧
        (bt.onUpdate tick).risk.minFreeBalanceUsdt = d.risk.minFreeBalanceUsdt ∧
        (bt.onUpdate tick).risk.freeBalanceUsdt = d.risk.freeBalanceUsdt := by
      rw [(bt.onUpdate_spec tick).2.1, hd]
      exact (hrisk ▸ h.static : d.risk.Static).check ..
    refine .right (Backtester.neverNext hquiet.1 ?_)
    rw [hquiet.2.1, hquiet.2.2]
    exact hconstant

end

/-! ## §4 Parity over a run -/

section

variable {σ : Type} [Strategy σ]

/-- What the docs promise of a backtest: the orders that live paper trading approves, and its
realized profit. -/
def SameAsLive (bt : Backtester σ) (events : List Tick) (snapshot : DepthSnapshot)
    (orders : List ValidatedOrder) (live : Pipeline σ) : Prop :=
  bt.approved events (some snapshot) = orders ∧
    (bt.run events (some snapshot)).1.realizedPnl = live.path.account.pnl.realizedPnl

/-- The two sides at the start, after the snapshot. -/
theorem parity_start (symbol : String) (depthLevels : Nat) (strategy : σ)
    (maxOrderQty minFreeBalanceUsdt priceBandPct : ℚ) (maxOrdersPerSec : UInt32)
    (snapshot : DepthSnapshot) {nowMs : UInt64} {now : Nat} {uuid : String} {fed : Pipeline σ}
    (hfed : (Pipeline.init symbol depthLevels strategy
      (RiskChecker.new maxOrderQty minFreeBalanceUsdt priceBandPct maxOrdersPerSec) 10000 0
      false).step (.event (.depthSnapshot snapshot) nowMs now uuid) = some fed) (n : Nat) :
    Parity n ((Backtester.new symbol depthLevels strategy
      (RiskChecker.new maxOrderQty minFreeBalanceUsdt priceBandPct maxOrdersPerSec)).start
        (some snapshot)) fed := by
  obtain rfl := Option.some.inj hfed
  exact ⟨⟨⟨rfl, rfl, rfl⟩, rfl, rfl⟩, rfl, rfl, ⟨rfl, rfl, rfl⟩, ⟨[], rfl, fun _ _ => rfl⟩, rfl⟩

/-- **Parity over a run.**  From two sides that agree, over updates in the order of the clock: the
orders are the same exactly when the verdicts are the same throughout, and then the sides agree at
the end. -/
theorem Parity.run {n : Nat} {bt : Backtester σ} {live live' : Pipeline σ} {events : List Tick}
    {orders : List ValidatedOrder} (h : Parity n bt live)
    (hclock : events.Pairwise fun t u => t.env.now ≤ u.env.now)
    (hn : ∀ t ∈ events, n ≤ t.env.now) (hrun : Run Pipeline.drainedStep live events orders live') :
    (Backtester.approvals.emitted bt events = orders ↔
      Backtester.machine.Guarded Backtester.SameVerdict bt events) ∧
    (Backtester.machine.Guarded Backtester.SameVerdict bt events →
      ∃ m, Parity m (events.foldl Backtester.onUpdate bt) live') := by
  let R : List Tick → Backtester σ → Pipeline σ → Prop := fun ticks b l =>
    ∃ m, Parity m b l ∧ (ticks.Pairwise fun t u => t.env.now ≤ u.env.now) ∧
      ∀ t ∈ ticks, m ≤ t.env.now
  have hsame : ∀ {tick ticks b l o l'}, R (tick :: ticks) b l → b.SameVerdict tick →
      Pipeline.drainedStep l tick o l' →
      Backtester.approvals.out b tick = o ∧ R ticks (Backtester.approvals.next b tick) l' := by
    rintro tick ticks b l o l' ⟨m, hparity, hordered, hm⟩ hverdict hstep
    obtain ⟨hout, hparity'⟩ := hparity.step (hm tick List.mem_cons_self) hverdict hstep
    obtain ⟨hfirst, hrest⟩ := List.pairwise_cons.mp hordered
    exact ⟨hout, _, hparity', hrest, hfirst⟩
  have hfork : ∀ {tick ticks b l o l'}, R (tick :: ticks) b l → ¬ b.SameVerdict tick →
      Pipeline.drainedStep l tick o l' →
      Fork Backtester.approvals Pipeline.drainedStep (Backtester.approvals.next b tick) l'
        (Backtester.approvals.out b tick) o := by
    rintro tick ticks b l o l' ⟨m, hparity, -, hm⟩ hverdict hstep
    exact hparity.fork (hm tick List.mem_cons_self) hverdict hstep
  obtain ⟨hiff, hend⟩ := emitted_eq_iff hsame hfork ⟨n, h, hclock, hn⟩ hrun
  refine ⟨hiff, fun hguard => ?_⟩
  obtain ⟨m, hparity, -, -⟩ := hend hguard
  exact ⟨m, hparity⟩

/-- **A backtest is live paper trading exactly as long as the balance gate cannot tell.**  Take
any snapshot, any updates in the order of the clock, any strategy and any settings of the checker.
The main loop can be run on them, without a halt, from a capital of 10000 and without fees, each
order drained before the next update.  Every such run approves the orders that the backtest
approves, and ends with the realized profit that it reports, if and only if at no step of the
backtest a decision that passes all the other gates is affordable on 10000 and not on the cash of
the trades so far, or the other way round. -/
theorem backtest_parity_iff (symbol : String) (depthLevels : Nat) (strategy : σ)
    (maxOrderQty minFreeBalanceUsdt priceBandPct : ℚ) (maxOrdersPerSec : UInt32)
    (snapshot : DepthSnapshot) (events : List Tick)
    (hclock : events.Pairwise fun t u => t.env.now ≤ u.env.now) :
    let risk := RiskChecker.new maxOrderQty minFreeBalanceUsdt priceBandPct maxOrdersPerSec
    let bt := Backtester.new symbol depthLevels strategy risk
    let live := Pipeline.init symbol depthLevels strategy risk 10000 0 false
    (∃ orders live', live.PaperRun snapshot events orders live') ∧
    ∀ orders live', live.PaperRun snapshot events orders live' →
      (SameAsLive bt events snapshot orders live' ↔
        Backtester.machine.Guarded Backtester.SameVerdict (bt.start (some snapshot)) events) := by
  intro risk bt live
  refine ⟨?_, ?_⟩
  · have hfed : live.step (.event (.depthSnapshot snapshot) 0 0 "") =
        some (live.fed snapshot) := rfl
    have hstart := parity_start symbol depthLevels strategy maxOrderQty minFreeBalanceUsdt
      priceBandPct maxOrdersPerSec snapshot hfed 0
    obtain ⟨orders, live', -, hrun⟩ := Pipeline.rounds_spec hstart.toReady events
    exact ⟨orders, live', 0, 0, "", _, hfed, hrun⟩
  · rintro orders live' ⟨nowMs, now, uuid, fed, hfed, hrun⟩
    have hstart := parity_start symbol depthLevels strategy maxOrderQty minFreeBalanceUsdt
      priceBandPct maxOrdersPerSec snapshot hfed 0
    obtain ⟨hiff, hend⟩ := hstart.run hclock (fun t _ => Nat.zero_le t.env.now) hrun
    constructor
    · intro hsame
      exact hiff.mp hsame.1
    · intro hguard
      obtain ⟨m, hparity⟩ := hend hguard
      refine ⟨hiff.mpr hguard, ?_⟩
      show (events.foldl Backtester.onUpdate (bt.start (some snapshot))).pnl.realizedPnl = _
      rw [← Backtester.account_pnl, ← hparity.account]

end

/-! A drawdown: the ping-pong strategy buys at 100, is stopped out at 99 and buys again at 99.  The
floor of the checker is the initial capital. -/

def drawdownRisk : RiskChecker := RiskChecker.new 1 10000 100 5

def drawdownSnapshot : DepthSnapshot where
  lastUpdateId := 10
  bids := [("100", "1")]
  asks := [("100.01", "1")]

def drawdownTicks : List Tick :=
  [⟨⟨"depthUpdate", 0, "BTCUSDT", 11, 11, 10, [], []⟩, 0, ⟨false, 0, 0, "a"⟩⟩,
    ⟨⟨"depthUpdate", 1, "BTCUSDT", 12, 12, 11, [("100", "0"), ("99", "1")], []⟩, 1,
      ⟨false, 0, 1, "b"⟩⟩,
    ⟨⟨"depthUpdate", 2, "BTCUSDT", 13, 13, 12, [], []⟩, 2, ⟨false, 0, 2, "c"⟩⟩]

def drawdownBacktest : Backtester PingPongStrategy :=
  Backtester.new "BTCUSDT" 20 PingPongStrategy.default drawdownRisk

def drawdownLive : Pipeline PingPongStrategy :=
  Pipeline.init "BTCUSDT" 20 PingPongStrategy.default drawdownRisk 10000 0 false

/-- Up to the stop-out the backtest is live paper trading. -/
theorem drawdown_parity_before :
    ∃ orders live',
      drawdownLive.PaperRun drawdownSnapshot (drawdownTicks.take 2) orders live' ∧
      SameAsLive drawdownBacktest (drawdownTicks.take 2) drawdownSnapshot orders live' := by
  have hclock : (drawdownTicks.take 2).Pairwise fun t u => t.env.now ≤ u.env.now := by decide
  obtain ⟨⟨orders, live', hrun⟩, hiff⟩ := backtest_parity_iff "BTCUSDT" 20
    PingPongStrategy.default 1 10000 100 5 drawdownSnapshot (drawdownTicks.take 2) hclock
  exact ⟨orders, live', hrun, (hiff orders live' hrun).mpr (by decide +kernel)⟩

/-- **After it the two part.**  The backtest buys again; live paper trading cannot, since the loss
has left it below the floor. -/
theorem drawdown_parity_lost :
    ∃ orders live', drawdownLive.PaperRun drawdownSnapshot drawdownTicks orders live' ∧
      orders.map (·.signal) = [.buy 100 (1 / 100), .sell 99 (1 / 100)] ∧
      (drawdownBacktest.approved drawdownTicks (some drawdownSnapshot)).map (·.signal) =
        [.buy 100 (1 / 100), .sell 99 (1 / 100), .buy 99 (1 / 100)] ∧
      ¬ SameAsLive drawdownBacktest drawdownTicks drawdownSnapshot orders live' := by
  have hfed : drawdownLive.step (.event (.depthSnapshot drawdownSnapshot) 0 0 "") =
      some (drawdownLive.fed drawdownSnapshot) := rfl
  have hstart := parity_start "BTCUSDT" 20 PingPongStrategy.default 1 10000 100 5
    drawdownSnapshot hfed 0
  obtain ⟨orders, live', hrounds, hrun⟩ := Pipeline.rounds_spec hstart.toReady drawdownTicks
  have hlive : ((drawdownLive.fed drawdownSnapshot).rounds drawdownTicks).map
      (fun r => r.1.map (·.signal)) = some [.buy 100 (1 / 100), .sell 99 (1 / 100)] := by
    decide +kernel
  have hback : (drawdownBacktest.approved drawdownTicks (some drawdownSnapshot)).map (·.signal) =
      [.buy 100 (1 / 100), .sell 99 (1 / 100), .buy 99 (1 / 100)] := by decide +kernel
  rw [hrounds, Option.map_some] at hlive
  have horders := Option.some.inj hlive
  refine ⟨orders, live', ⟨0, 0, "", _, hfed, hrun⟩, horders, hback, ?_⟩
  intro hsame
  rw [hsame.1, horders] at hback
  exact absurd hback (by decide +kernel)

end CryptoTrader
