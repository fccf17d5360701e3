/-
# CryptoTrader.LiveAccount — how far the account of the program can be overdrawn.

A Buy is checked against the mirrored cash, and what has been approved since the mirror was written is not
in it yet, so cash can go negative (`AccountSafety`).  It cannot go far.  At most 65 orders are approved
and not yet booked when the next one is checked, and the strategies that `main.rs` can set up never spend
more than their budget on an entry.  So the account is overdrawn by at most 65 entries, and by at most `n`
if never more than `n` orders are waiting to be booked; with `n = 0` cash stays non-negative.
-/
import CryptoTrader.Wiring
import CryptoTrader.AccountSafety
import CryptoTrader.QuotedPrices
import CryptoTrader.PositionDrift
import CryptoTrader.Lib.StaleReads

namespace CryptoTrader

open Lib Lib.Deferred Reconciliation

/-! ## §1 The strategies of the configuration -/

namespace AnyStrategy

instance : SteppedStrategy AnyStrategy where
  holding
    | .noop _ => false
    | .pingpong strat => strat.holding
    | .momentum strat => strat.holding
  entryQty
    | .noop _ => 0
    | .pingpong strat => strat.entryQty
    | .momentum strat => strat.entryQty
  disciplined strat snapshot := by
    cases strat with
    | noop strat => exact rfl
    | pingpong strat => exact strat.onOrderbook_disciplined snapshot
    | momentum strat => exact strat.onOrderbook_disciplined snapshot
  buys_stepped strat snapshot price qty hbuy := by
    cases strat with
    | noop strat => cases hbuy
    | pingpong strat => exact SteppedStrategy.buys_stepped strat snapshot price qty hbuy
    | momentum strat => exact SteppedStrategy.buys_stepped strat snapshot price qty hbuy

instance : QuotingStrategy AnyStrategy where
  quoted strat snapshot := by
    cases strat with
    | noop strat => exact QuotingStrategy.quoted strat snapshot
    | pingpong strat => exact strat.onOrderbook_quoted snapshot
    | momentum strat => exact strat.onOrderbook_quoted snapshot

/-- The strategy keeps to this budget, if it trades at all. -/
def Within (budget : ℚ) : AnyStrategy → Prop
  | .noop _ => True
  | .pingpong strat => strat.maxNotional = some budget
  | .momentum strat => strat.maxNotional = some budget

theorem Within.onOrderbook {budget : ℚ} {strat : AnyStrategy} (h : strat.Within budget)
    (snapshot : OrderbookSnapshot) : (Strategy.onOrderbook strat snapshot).2.Within budget := by
  cases strat with
  | noop strat => exact trivial
  | pingpong strat =>
      exact ((PingPongStrategy.SameSettings.refl strat).step
        (strat.onOrderbook_step snapshot)).maxNotional.trans h
  | momentum strat =>
      exact ((MomentumScalpStrategy.SameSettings.refl strat).step
        (strat.onOrderbook_step snapshot)).maxNotional.trans h

/-- An entry fits the budget. -/
theorem Within.buy_fits {budget : ℚ} {strat : AnyStrategy} (h : strat.Within budget)
    {snapshot : OrderbookSnapshot} {price qty : ℚ}
    (hbuy : (Strategy.onOrderbook strat snapshot).1 = .buy price qty) :
    FitsBudget (some budget) price qty := by
  cases strat with
  | noop strat => cases hbuy
  | pingpong strat =>
      rw [PingPongStrategy.buy_eq hbuy, ← show strat.maxNotional = some budget from h]
      exact (entryQtyAt_isGreatest strat.qty strat.maxNotional price).1.2.2
  | momentum strat =>
      obtain ⟨-, -, -, -, -, -, -, hqty, -⟩ := MomentumScalpStrategy.entry_of_buy hbuy
      rw [hqty, ← show strat.maxNotional = some budget from h]
      exact (entryQtyAt_isGreatest strat.qty strat.maxNotional price).1.2.2

end AnyStrategy

namespace Config

theorem liveStrategy_within (cfg : Config) :
    cfg.liveStrategy.Within (strategyBudget cfg.paper.initialCapitalUsdt) := by
  unfold liveStrategy
  split <;> trivial

theorem liveStrategy_flat (cfg : Config) : PositionStrategy.holding cfg.liveStrategy = false := by
  unfold liveStrategy
  split <;> rfl

end Config

/-! ## §2 What an order takes from the account -/

/-- An order that has passed the funds gate on this account, from a strategy with this budget. -/
structure Backed (budget : ℚ) (read : PaperAccount) (order : ValidatedOrder) : Prop where
  price : 0 ≤ order.signal.price
  buy : ∀ price qty, order.signal = .buy price qty → 0 ≤ price * qty ∧ price * qty ≤ budget ∧
    price * qty * (1001 / 1000) ≤ read.cash

/-- A sell at the price zero costs nothing either. -/
theorem PaperAccount.cash_le_onSell_of_nonneg (acct : PaperAccount) {price : ℚ} (hprice : 0 ≤ price)
    (hfee : acct.feePct ≤ 100) (qty : ℚ) : acct.cash ≤ (acct.onSell price qty).cash := by
  rcases hprice.eq_or_lt with rfl | hpos
  · rw [onSell_eq]
    simp
  · exact acct.cash_le_onSell hpos hfee qty

/-- **What an order takes**: at most the budget with its fee, and nothing or at most the cash it was checked
against. -/
theorem Backed.takes {budget feePct : ℚ} (hbudget : 0 ≤ budget) (hfee : 0 ≤ feePct ∧ feePct ≤ 1 / 10)
    {read here : PaperAccount} {order : ValidatedOrder} (h : Backed budget read order)
    (hhere : here.feePct = feePct) :
    here.cash ≤ (here.applyOrder order).cash + budget * (1 + feePct / 100) ∧
      (here.cash ≤ (here.applyOrder order).cash ∨
        here.cash ≤ (here.applyOrder order).cash + read.cash) := by
  have hentry : 0 ≤ budget * (1 + feePct / 100) := by
    have hrate : 0 ≤ 1 + feePct / 100 := by linarith [hfee.1]
    exact mul_nonneg hbudget hrate
  unfold PaperAccount.applyOrder
  cases hsignal : order.signal with
  | hold => exact ⟨by linarith, Or.inl (le_refl _)⟩
  | buy price qty =>
      obtain ⟨hpos, hfits, hfunds⟩ := h.buy price qty hsignal
      have hcost : here.buyCost price qty = price * qty * (1 + feePct / 100) := by
        rw [PaperAccount.buyCost, hhere]
        ring
      have htop : price * qty * (1 + feePct / 100) ≤ budget * (1 + feePct / 100) :=
        mul_le_mul_of_nonneg_right hfits (by linarith [hfee.1])
      have hheadroom : price * qty * (1 + feePct / 100) ≤ price * qty * (1001 / 1000) :=
        mul_le_mul_of_nonneg_left (by linarith [hfee.2]) hpos
      dsimp only
      rw [PaperAccount.onBuy_cash, hcost]
      exact ⟨by linarith, Or.inr (by linarith)⟩
  | sell price qty =>
      have hprice : 0 ≤ price := by
        have hprice := h.price
        rwa [hsignal] at hprice
      have hkept := here.cash_le_onSell_of_nonneg hprice (by linarith [hfee.2]) qty
      exact ⟨by linarith, Or.inl hkept⟩

/-! ## §3 The main loop -/

/-- The orders approved and not yet booked, oldest first. -/
def OrderPath.unbooked (path : OrderPath) : List ValidatedOrder := path.task.booking ++ path.pending

/-- While nothing is being sent, these are the channel and one order of the executor's. -/
theorem OrderPath.unbooked_length {path : OrderPath} (hcap : path.orders.length ≤ orderChannelCap)
    (hidle : path.sending = none) : path.unbooked.length ≤ 65 := by
  have hone : path.task.booking.length + path.task.held.length ≤ 1 := by
    cases path.task <;> simp [ExecTask.booking, ExecTask.held]
  simp only [unbooked, OrderPath.pending, hidle, Option.toList_none, List.append_nil, List.length_append]
  unfold orderChannelCap at hcap
  omega

/-- Prices of a book are not negative. -/
theorem Orderbook.price_nonneg {book : Orderbook} {nowMs : UInt64} {bestBid bestAsk : ℚ}
    (h : (book.snapshot nowMs).quote? = some (bestBid, bestAsk)) : 0 ≤ bestBid ∧ 0 ≤ bestAsk := by
  obtain ⟨bidQty, askQty, hbid, hask⟩ := OrderbookSnapshot.heads_of_quote h
  have hkey : ∀ (levels : List (Nat × ℚ)) (price qty : ℚ),
      (price, qty) ∈ levels.map (fun l => (keyPrice l.1, l.2)) → 0 ≤ price := by
    intro levels price qty hmem
    obtain ⟨l, -, hl⟩ := List.mem_map.mp hmem
    obtain ⟨rfl, -⟩ := Prod.mk.inj hl
    exact div_nonneg (Nat.cast_nonneg _) (by norm_num)
  exact ⟨hkey _ _ _ (List.mem_of_head? hbid), hkey _ _ _ (List.mem_of_head? hask)⟩

namespace Pipeline

/-- What a decision of the main loop is made of. -/
theorem decision_parts {σ : Type} [Strategy σ] {s : Pipeline σ} {l : Label} {d : Decision}
    (h : s.decision l = some d) :
    (∃ book nowMs, d.snapshot = Orderbook.snapshot book nowMs) ∧
      d.signal = (Strategy.onOrderbook s.strat d.snapshot).1 ∧ d.risk = s.path.risk ∧
      d.env.cash = s.path.shared.cashBits := by
  cases l with
  | event event nowMs now uuid =>
      obtain ⟨snapshot, hquote, hdecide⟩ := Option.bind_eq_some_iff.mp h
      obtain ⟨rfl, hsignal, -, hrisk, henv⟩ := decide?_eq_some hdecide
      refine ⟨?_, hsignal, hrisk, by rw [henv]; rfl⟩
      unfold quote at hquote
      split at hquote
      · split at hquote
        · obtain ⟨-, hsnapshot⟩ := Option.ite_some_none_eq_some.mp hquote
          exact ⟨_, nowMs, hsnapshot.symm⟩
        · cases hquote
      · cases hquote
  | _ => cases h

/-- The checker keeps its settings. -/
theorem risk_sameSettings {σ : Type} [Strategy σ] {s s' : Pipeline σ} {l : Label}
    (h : s.step l = some s') : s.path.risk.SameSettings s'.path.risk := by
  have horder : ∀ {m : Program.Label}, m.order? = some l → s.path.risk.SameSettings s'.path.risk := by
    intro m hm
    obtain ⟨-, -, -, hrisk, -⟩ := order_frame h hm
    rw [hrisk]
    exact .refl _
  cases l with
  | event event nowMs now uuid =>
      obtain ⟨hidle, rfl⟩ := Option.ite_some_none_eq_some.mp h
      obtain ⟨-, view, hpath⟩ := event_spec hidle event nowMs now uuid
      rw [hpath]
      cases hd : s.decision (.event event nowMs now uuid) with
      | none => exact .refl _
      | some d =>
          obtain ⟨-, -, hrisk, -⟩ := decision_parts hd
          rw [← hrisk]
          exact d.risk.check_sameSettings _ _ _
  | setResync resyncNeeded =>
      obtain rfl := Option.some.inj h
      exact .refl _
  | setHalt halted =>
      obtain rfl := Option.some.inj h
      exact .refl _
  | send => exact horder (m := .send) rfl
  | take => exact horder (m := .take) rfl
  | fill => exact horder (m := .fill) rfl
  | mirror => exact horder (m := .mirror) rfl
  | record timestamp => exact horder (m := .record timestamp) rfl

/-- The invariant: what has been approved was checked on the account at most `n` orders earlier. -/
structure Margined (budget : ℚ) (n : Nat) (acct₀ : PaperAccount) (executor₀ : PaperExecutor)
    (approved : List ValidatedOrder) (s : Pipeline AnyStrategy) : Prop where
  within : s.strat.Within budget
  wired : s.path.risk.hasBalanceSource = true
  room : s.path.orders.length ≤ orderChannelCap
  books : ∃ executed, approved = executed ++ s.path.pending ∧
    OrderBooks acct₀ executor₀ executed s
  stale : Stale PaperAccount.applyOrder (Backed budget) n acct₀ approved

/-- The order that a step approves is backed by the account the mirror shows. -/
theorem backed_of_decision {budget : ℚ} (hbudget : 0 ≤ budget) {s : Pipeline AnyStrategy} {l : Label}
    {d : Decision} (hwithin : s.strat.Within budget) (hwired : s.path.risk.hasBalanceSource = true)
    (hd : s.decision l = some d) (hadm : d.Admitted) {read : PaperAccount}
    (hread : s.path.shared.cashBits = read.cash) :
    Backed budget read ⟨d.signal, d.env.uuid⟩ := by
  obtain ⟨⟨book, nowMs, hsnapshot⟩, hsignal, hrisk, hcash⟩ := decision_parts hd
  have hprice : 0 ≤ d.signal.price := by
    have hquoted := QuotingStrategy.quoted s.strat d.snapshot
    rw [show (QuotingStrategy.toStrategy.onOrderbook s.strat d.snapshot).1 = d.signal from
      hsignal.symm] at hquoted
    obtain ⟨bestBid, bestAsk, hquote, hprice⟩ := hquoted hadm.order
    rw [hsnapshot] at hquote
    obtain ⟨hbid, hask⟩ := Orderbook.price_nonneg hquote
    rcases hprice with hprice | hprice
    · exact hprice ▸ hbid
    · exact hprice ▸ hask
  refine ⟨hprice, ?_⟩
  intro price qty hbuy
  replace hbuy : d.signal = .buy price qty := hbuy
  have hfits := hwithin.buy_fits (hsignal.symm.trans hbuy) budget rfl
  have hstepped := SteppedStrategy.buys_stepped s.strat d.snapshot price qty (hsignal.symm.trans hbuy)
  have hfunds := hadm.funds (by rw [hbuy]; rfl)
  rw [RiskChecker.balance, hrisk, hwired, if_pos rfl, hcash, hread, hbuy] at hfunds
  rw [hbuy] at hprice
  replace hprice : 0 ≤ price := hprice
  have hqty : 0 ≤ qty := hstepped.1.le
  refine ⟨mul_nonneg hprice hqty, ?_, hfunds⟩
  rcases hprice.eq_or_lt with rfl | hpos
  · rw [zero_mul]
    exact hbudget
  · exact hfits hpos

theorem Margined.step {budget : ℚ} (hbudget : 0 ≤ budget) {n : Nat} {acct₀ : PaperAccount}
    {executor₀ : PaperExecutor} {approved : List ValidatedOrder} {s s' : Pipeline AnyStrategy}
    {l : Label} (h : Margined budget n acct₀ executor₀ approved s)
    (hn : s.path.sending = none → (s.decision l).isSome → s.path.unbooked.length ≤ n)
    (hstep : s.step l = some s') :
    Margined budget n acct₀ executor₀ (approved ++ s.approvedOf l) s' := by
  obtain ⟨hwithin, hwired, hroom, ⟨executed, hflow, hbooks⟩, hstale⟩ := h
  have hpending := pending_step hstep
  refine ⟨?_, ?_, orders_length_step hroom hstep, ⟨executed ++ s.executedOf l, ?_, hbooks.step hstep⟩, ?_⟩
  · have hmoves := Pipeline.moves hstep
    generalize s.decision l = decision, s'.strat = strat', s'.path.settled.pnl = pnl' at hmoves
    cases hmoves with
    | admitted d _ _ _ | rejected d _ _ _ => exact hwithin.onOrderbook d.snapshot
    | held snapshot _ hhold =>
        have hnext := hwithin.onOrderbook snapshot
        rw [hhold] at hnext
        exact hnext
    | idle => exact hwithin
  · obtain ⟨ids, queue, timestamps, hrisk⟩ := risk_sameSettings hstep
    rw [hrisk]
    exact hwired
  · rw [hflow, List.append_assoc, hpending, List.append_assoc]
  · cases horder : (s.decision l).bind Decision.order with
    | none =>
        rw [show s.approvedOf l = [] from congrArg Option.toList horder, List.append_nil]
        exact hstale
    | some order =>
        rw [show s.approvedOf l = [order] from congrArg Option.toList horder]
        obtain ⟨d, hd, hadm, rfl⟩ := decision_order horder
        have hidle : s.path.sending = none := by
          cases l with
          | event _ _ _ _ => exact (Option.ite_some_none_eq_some.mp hstep).1
          | _ => cases hd
        obtain ⟨booked, hbooked, hcash⟩ := hbooks.cash
        have hsplit : approved = booked ++ s.path.unbooked := by
          rw [hflow, hbooked, List.append_assoc]
          rfl
        rw [hsplit] at hstale ⊢
        exact hstale.concat (hn hidle (by rw [hd]; rfl))
          (backed_of_decision hbudget hwithin hwired hd hadm hcash)

/-- The cash of the account, now and as it is mirrored. -/
theorem Margined.cash {budget feePct initialCapital : ℚ} (hbudget : 0 ≤ budget)
    (hfee : 0 ≤ feePct ∧ feePct ≤ 1 / 10) (hcapital : 0 ≤ initialCapital) {n : Nat}
    {executor₀ : PaperExecutor} {approved : List ValidatedOrder} {s : Pipeline AnyStrategy}
    (h : Margined budget n (PaperAccount.new initialCapital feePct) executor₀ approved s) :
    0 ≤ s.path.account.cash + n * (budget * (1 + feePct / 100)) ∧
      0 ≤ s.path.shared.cashBits + n * (budget * (1 + feePct / 100)) := by
  obtain ⟨-, -, -, ⟨executed, rfl, hbooks⟩, hstale⟩ := h
  obtain ⟨booked, hbooked, hcash⟩ := hbooks.cash
  have hentry : 0 ≤ budget * (1 + feePct / 100) := by
    have hrate : 0 ≤ 1 + feePct / 100 := by linarith [hfee.1]
    exact mul_nonneg hbudget hrate
  have hbound : ∀ {orders}, Stale PaperAccount.applyOrder (Backed budget) n
      (PaperAccount.new initialCapital feePct) orders →
      0 ≤ (settle PaperAccount.applyOrder (PaperAccount.new initialCapital feePct) orders).cash
        + n * (budget * (1 + feePct / 100)) := by
    intro orders horders
    rw [← nsmul_eq_mul]
    exact horders.bound (P := fun acct : PaperAccount => acct.feePct = feePct)
      (fun acct order hacct => (acct.applyOrder_feePct order).trans hacct)
      (fun _ _ _ _ hhere hop => hop.takes hbudget hfee hhere) hentry rfl hcapital
  refine ⟨?_, ?_⟩
  · rw [hbooks.account]
    exact hbound hstale.of_append
  · rw [hcash]
    rw [hbooked] at hstale
    exact hbound hstale.of_append.of_append

end Pipeline

/-! ## §4 The program -/

namespace Program

/-- The program as `main` sets it up. -/
def live (cfg : Config) (haltFile : Bool) (startMs : Nat) : Program AnyStrategy :=
  init cfg.symbol cfg.orderbook.depthLevels cfg.liveStrategy cfg.riskChecker
    cfg.paper.initialCapitalUsdt cfg.paper.feePct haltFile cfg.watchdog.timeoutSecs startMs

/-- When a decision is made, at most `n` approved orders have not been booked. -/
def Lag (n : Nat) (p : Program AnyStrategy) (l : Label) : Prop :=
  p.pipeline.path.sending = none → (p.decision l).isSome → p.pipeline.path.unbooked.length ≤ n

section

variable {cfg : Config} {haltFile : Bool} {startMs : Nat} {ls : List Label} {p : Program AnyStrategy}
  {n : Nat}

/-- The start, and one step of the whole program. -/
theorem margined_live (cfg : Config) (haltFile : Bool) (startMs n : Nat) :
    Pipeline.Margined (strategyBudget cfg.paper.initialCapitalUsdt) n
      (PaperAccount.new cfg.paper.initialCapitalUsdt cfg.paper.feePct) (PaperExecutor.new cfg.symbol)
      [] (live cfg haltFile startMs).pipeline where
  within := cfg.liveStrategy_within
  wired := rfl
  room := Nat.zero_le _
  books := ⟨[], rfl, rfl, rfl, rfl, rfl, [], rfl, rfl⟩
  stale := stale_nil

theorem margined_step {budget : ℚ} (hbudget : 0 ≤ budget) {acct₀ : PaperAccount}
    {executor₀ : PaperExecutor} {p p' : Program AnyStrategy} {l : Label}
    (h : ∃ approved, Pipeline.Margined budget n acct₀ executor₀ approved p.pipeline)
    (hlag : Lag n p l) (hstep : p.step l = some p') :
    ∃ approved, Pipeline.Margined budget n acct₀ executor₀ approved p'.pipeline := by
  obtain ⟨approved, hmargined⟩ := h
  obtain ⟨m, hmain, hdecision, -⟩ := main_step hstep
  exact ⟨_, hmargined.step hbudget (fun hidle hd => hlag hidle (hdecision ▸ hd)) hmain⟩

theorem margined_of_run (hcapital : 0 ≤ cfg.paper.initialCapitalUsdt)
    (hlag : machine.Guarded (Lag n) (live cfg haltFile startMs) ls)
    (hrun : machine.exec (live cfg haltFile startMs) ls = some p) :
    ∃ approved, Pipeline.Margined (strategyBudget cfg.paper.initialCapitalUsdt) n
      (PaperAccount.new cfg.paper.initialCapitalUsdt cfg.paper.feePct)
      (PaperExecutor.new cfg.symbol) approved p.pipeline :=
  machine.exec_invariant (fun _ _ _ h hl hstep => margined_step (mul_nonneg hcapital (by norm_num))
    h hl hstep) ⟨[], margined_live cfg haltFile startMs n⟩ hlag hrun

/-- No run falls further behind than the channel and the executor's order. -/
theorem margined_of_any_run (hcapital : 0 ≤ cfg.paper.initialCapitalUsdt)
    (hrun : machine.exec (live cfg haltFile startMs) ls = some p) :
    ∃ approved, Pipeline.Margined (strategyBudget cfg.paper.initialCapitalUsdt) 65
      (PaperAccount.new cfg.paper.initialCapitalUsdt cfg.paper.feePct)
      (PaperExecutor.new cfg.symbol) approved p.pipeline := by
  refine machine.exec_invariant_of_step (I := fun q : Program AnyStrategy =>
    ∃ approved, Pipeline.Margined (strategyBudget cfg.paper.initialCapitalUsdt) 65
      (PaperAccount.new cfg.paper.initialCapitalUsdt cfg.paper.feePct)
      (PaperExecutor.new cfg.symbol) approved q.pipeline) ?_
    ⟨[], margined_live cfg haltFile startMs 65⟩ hrun
  intro q l q' h hstep
  obtain ⟨approved, hmargined⟩ := h
  exact margined_step (mul_nonneg hcapital (by norm_num)) ⟨approved, hmargined⟩
    (fun hidle _ => OrderPath.unbooked_length hmargined.room hidle) hstep

end

/-- **The overdraft is bounded.**  Whatever the configuration names as strategy, with a capital that is not
negative and fees up to the headroom of the check: in every run of the program, however far the executor
falls behind, the cash of the account and the balance the checker reads are short of zero by at most 65
entries of the whole budget, fees included, and by at most `n` if no decision is made while more than `n`
approved orders have not been booked.  So an executor that keeps up never overdraws the account.  The open
lots are positive multiples of the step, and the position is never short. -/
theorem overdraft_bounded (cfg : Config) (hcapital : 0 ≤ cfg.paper.initialCapitalUsdt)
    (hfee : 0 ≤ cfg.paper.feePct ∧ cfg.paper.feePct ≤ 1 / 10) (haltFile : Bool) (startMs : Nat)
    (ls : List Label) (p : Program AnyStrategy)
    (hrun : machine.exec (live cfg haltFile startMs) ls = some p) :
    let entry := strategyBudget cfg.paper.initialCapitalUsdt * (1 + cfg.paper.feePct / 100)
    let path := p.pipeline.path
    (0 ≤ path.account.cash + 65 * entry ∧ 0 ≤ path.shared.cashBits + 65 * entry) ∧
    (∀ n : Nat, machine.Guarded (Lag n) (live cfg haltFile startMs) ls →
      0 ≤ path.account.cash + n * entry ∧ 0 ≤ path.shared.cashBits + n * entry) ∧
    SteppedLots path.account.pnl ∧ 0 ≤ path.account.pnl.positionQty := by
  intro entry path
  have hbudget : 0 ≤ strategyBudget cfg.paper.initialCapitalUsdt := mul_nonneg hcapital (by norm_num)
  have hbooks : SteppedBooks cfg.paper.initialCapitalUsdt path.account :=
    Pipeline.steppedBooks_of_run cfg.liveStrategy_flat (toPipeline.exec hrun)
  refine ⟨?_, ?_, hbooks.lots, ?_⟩
  · obtain ⟨approved, hmargined⟩ := margined_of_any_run hcapital hrun
    exact hmargined.cash hbudget hfee hcapital
  · intro n hlag
    obtain ⟨approved, hmargined⟩ := margined_of_run hcapital hlag hrun
    exact hmargined.cash hbudget hfee hcapital
  · exact FifoPnl.positionQty_nonneg fun lot hlot => (hbooks.lots.1 lot hlot).le

/-! Two entries of 900 each from a capital of 1000: the Sell in between is refused for its price, and the
second Buy is checked before the first is booked. -/

def smallAccount : Config where
  symbol := "BTCUSDT"
  strategy := "pingpong"
  paper := ⟨1000, 2 / 100⟩
  risk := ⟨1 / 100, 10, 5, 10⟩
  orderbook := ⟨20⟩
  watchdog := ⟨30⟩

def twoEntries : List Label :=
  firstMessages "90000" "100000" ++
    [.handle 0 0 "a", .handle 0 0 "b", .send,
      .network (.receive (.depthUpdate ⟨"depthUpdate", 0, "BTCUSDT", 12, 12, 11, [], []⟩)),
      .handle 0 0 "c",
      .network (.receive (.depthUpdate ⟨"depthUpdate", 0, "BTCUSDT", 13, 13, 12, [], []⟩)),
      .handle 0 0 "d", .send, .take, .fill, .mirror, .record "t", .take, .fill]

theorem overdrawn_by_two_entries :
    ∃ p, machine.exec (live smallAccount false 0) twoEntries = some p ∧
      p.pipeline.path.account.cash < 0 ∧
      0 ≤ p.pipeline.path.account.cash
        + 65 * (strategyBudget 1000 * (1 + (2 / 100) / 100)) := by
  have hsome : ((machine.exec (live smallAccount false 0) twoEntries).any fun p =>
      p.pipeline.path.account.cash < 0) = true := by decide +kernel
  obtain ⟨p, hrun, hcash⟩ := (Option.any_eq_true _ _).mp hsome
  exact ⟨p, hrun, of_decide_eq_true hcash,
    (overdraft_bounded smallAccount (by norm_num [smallAccount]) (by norm_num [smallAccount]) false 0
      twoEntries p hrun).1.1⟩

end Program

end CryptoTrader
