/-
# CryptoTrader.AccountSafety — what the risk gate does and does not protect.

The executor and the trackers validate nothing, so the account is as safe as `check` makes it.
`check` compares an order with the checker's settings and with the mirrored cash of the moment;
what decides about the account is the settled account, the one the order will find when its turn
comes.  Two properties are stated against it, each with the exact condition on the approved Buys
under which it survives every interleaving:

* cash stays non-negative when every approved Buy is covered by the settled cash (`Covered`);
* lots and position stay non-negative, and no Buy mints cash or shrinks the position, when every
  approved Buy has a non-negative quantity and cost (`SoundBuy`).

An approval that breaks the condition breaks the property as soon as the executor has drained.
-/
import CryptoTrader.OrderPath

namespace CryptoTrader

open Lib Lib.Deferred

namespace PaperAccount

/-- What a Buy takes out of the account, fee included. -/
def buyCost (acct : PaperAccount) (price qty : ℚ) : ℚ :=
  price * qty + price * qty * acct.feePct / 100

theorem onBuy_cash (acct : PaperAccount) (price qty : ℚ) :
    (acct.onBuy price qty).cash = acct.cash - acct.buyCost price qty := rfl

theorem onBuy_positionQty (acct : PaperAccount) (price qty : ℚ) :
    (acct.onBuy price qty).pnl.positionQty = acct.pnl.positionQty + qty := by
  simp [onBuy, FifoPnl.onBuy, FifoPnl.positionQty]

/-- A sell at a positive price never costs cash while the fee is at most 100%. -/
theorem cash_le_onSell (acct : PaperAccount) {price : ℚ} (hprice : 0 < price)
    (hfee : acct.feePct ≤ 100) (qty : ℚ) : acct.cash ≤ (acct.onSell price qty).cash := by
  rw [onSell_eq]
  dsimp only
  split
  · exact le_refl _
  · next hmatched =>
      have hpos : 0 < price * (acct.pnl.onSell price qty).1 :=
        mul_pos hprice (lt_trans qtyEpsilon_pos (not_le.mp hmatched))
      have hrate : price * (acct.pnl.onSell price qty).1 * acct.feePct
          ≤ price * (acct.pnl.onSell price qty).1 * 100 :=
        mul_le_mul_of_nonneg_left hfee hpos.le
      linarith

end PaperAccount

namespace OrderPath

/-! ## §1 Cash -/

/-- The signals of the cash property: positive prices and quantities. -/
def Label.Positive : Label → Prop
  | .check signal _ _ _ => 0 < signal.price ∧ 0 < signal.qty
  | _ => True

/-- If this step approves a Buy, the cash left after everything in flight pays for it. -/
def Covered (path : OrderPath) (l : Label) : Prop :=
  ∀ price qty id, path.Approves l ⟨.buy price qty, id⟩ →
    path.settled.buyCost price qty ≤ path.settled.cash

/-- The invariant of the cash property. -/
structure Solvent (feePct : ℚ) (path : OrderPath) : Prop where
  fee : path.account.feePct = feePct
  cash : 0 ≤ path.account.cash
  inFlight : Along PaperAccount.applyOrder
    (fun (acct : PaperAccount) order => 0 ≤ (acct.applyOrder order).cash) path.account path.pending

theorem Solvent.settled_cash {feePct : ℚ} {path : OrderPath} (h : path.Solvent feePct) :
    0 ≤ path.settled.cash :=
  h.inFlight.settle (P := fun acct : PaperAccount => 0 ≤ acct.cash) (fun _ _ _ hop => hop) h.cash

/-- **One step.**  Covered Buys and positive Sells keep the account and its future solvent. -/
theorem Solvent.step {feePct : ℚ} (hfee : feePct ≤ 1 / 10) {path path' : OrderPath} {l : Label}
    (h : path.Solvent feePct) (hpos : l.Positive) (hcovered : path.Covered l)
    (hstep : path.step l = some path') : path'.Solvent feePct := by
  have happroved : ∀ order, path.Approves l order →
      0 ≤ (path.settled.applyOrder order).cash := by
    rintro ⟨signal, id⟩ happ
    cases signal with
    | buy price qty =>
        have hcost := hcovered price qty id happ
        simp only [PaperAccount.applyOrder, PaperAccount.onBuy_cash]
        linarith
    | sell price qty =>
        obtain ⟨_, _, _, _, rfl, -, horder⟩ := happ
        cases horder
        have hsettled := h.settled_cash
        have hrate : path.settled.feePct ≤ 100 := by
          rw [path.settled_feePct, h.fee]
          linarith
        have hsell := path.settled.cash_le_onSell hpos.1 hrate qty
        exact hsettled.trans hsell
    | hold => exact h.settled_cash
  refine ⟨(step_feePct hstep).trans h.fee, ?_, along_step hstep h.inFlight happroved⟩
  exact account_step (P := fun acct : PaperAccount => 0 ≤ acct.cash) (fun _ _ _ hop => hop) hstep
    h.inFlight h.cash

/-- With nothing in flight, and the cash mirrored, the headroom of the balance gate does cover the
fee: an uncovered approval needs an order in flight or a stale balance. -/
theorem covered_of_idle {path : OrderPath} (hpend : path.pending = [])
    (hmirror : path.shared.cashBits = path.account.cash)
    (hwired : path.risk.hasBalanceSource = true) (hfee : path.account.feePct ≤ 1 / 10) {l : Label}
    (hpos : l.Positive) : path.Covered l := by
  rintro price qty id ⟨_, midPrice, now, uuid, rfl, hadm, horder⟩
  cases horder
  have hfunds := hadm.funds rfl
  simp only [RiskChecker.balance, hwired, if_true, readings, hmirror, Signal.price,
    Signal.qty] at hfunds
  have hnotional : 0 < price * qty := mul_pos hpos.1 hpos.2
  have hcharge : price * qty * path.account.feePct ≤ price * qty * (1 / 10) :=
    mul_le_mul_of_nonneg_left hfee hnotional.le
  rw [settled_of_pending_nil hpend, PaperAccount.buyCost]
  linarith

/-- **Cash, exactly.**  In every run from a fresh account with capital `≥ 0` and a fee of at most
0.1%, on signals with positive prices and quantities, cash is non-negative in every state reached
while every approved Buy is covered by the settled cash; and one approval that is not covered
takes cash below zero by the time the executor has drained. -/
theorem cash_nonneg_of_covered (risk : RiskChecker) (symbol : String)
    (initialCapitalUsdt feePct : ℚ) (haltFlag : Bool) (ls : List Label) (path : OrderPath)
    (hcapital : 0 ≤ initialCapitalUsdt) (hfee : 0 ≤ feePct ∧ feePct ≤ 1 / 10)
    (hpos : ∀ l ∈ ls, l.Positive)
    (hrun : machine.exec (init risk symbol initialCapitalUsdt feePct haltFlag) ls = some path) :
    (machine.Guarded Covered (init risk symbol initialCapitalUsdt feePct haltFlag) ls →
      0 ≤ path.account.cash) ∧
    (∀ l path', path.step l = some path' → ¬ path.Covered l →
      ∃ ds drained, (∀ d ∈ ds, Label.Draining d) ∧ machine.exec path' ds = some drained ∧
        drained.account.cash < 0) := by
  refine ⟨?_, ?_⟩
  · intro hcovered
    have hinit : (init risk symbol initialCapitalUsdt feePct haltFlag).Solvent feePct :=
      ⟨rfl, hcapital, trivial⟩
    have hguard := hcovered.and_mem hpos
    exact (machine.exec_invariant
      (fun s l s' hs hl hstep => Solvent.step hfee.2 hs hl.2 hl.1 hstep) hinit hguard hrun).cash
  · intro l path' hstep huncovered
    simp only [Covered, not_forall, not_le] at huncovered
    obtain ⟨price, qty, id, happ, hcost⟩ := huncovered
    obtain ⟨ds, drained, hds, hdrain, -, hacct⟩ := exists_drain path'
    refine ⟨ds, drained, hds, hdrain, ?_⟩
    rcases settled_step hstep with ⟨order, happ', hsettled⟩ | ⟨hno, -⟩
    · obtain rfl := happ'.unique happ
      rw [hacct, hsettled]
      simp only [PaperAccount.applyOrder, PaperAccount.onBuy_cash]
      linarith
    · exact absurd happ (hno _)

theorem covered_check {path : OrderPath} {price qty midPrice : ℚ} {now : Nat} {uuid : String} :
    path.Covered (.check (.buy price qty) midPrice now uuid) ↔
      (path.risk.Admits (.buy price qty) midPrice (path.readings now uuid) →
        path.settled.buyCost price qty ≤ path.settled.cash) := by
  constructor
  · intro h hadm
    exact h price qty uuid ⟨_, _, _, _, rfl, hadm, rfl⟩
  · rintro h price' qty' id ⟨_, _, _, _, hl, hadm, horder⟩
    cases hl
    cases horder
    exact h hadm

/-- Whether a step is covered can be computed. -/
instance instDecidableCovered (path : OrderPath) (l : Label) : Decidable (path.Covered l) :=
  match l with
  | .check (.buy _ _) _ _ _ => decidable_of_iff _ covered_check.symm
  | .check (.sell _ _) _ _ _ | .check .hold _ _ _ => .isTrue fun _ _ _ happ => by
      obtain ⟨_, _, _, _, hl, -, horder⟩ := happ
      cases hl
      cases horder
  | .send | .take | .fill | .mirror | .record _ | .setHalt _ | .publish _ =>
      .isTrue fun _ _ _ happ => absurd happ (not_approves_of_ne_check (by simp) _)

/-- Two Buys approved before the executor has run, and one of them executed. -/
def twoBuys : List Label :=
  [.check (.buy 60 1) 60 0 "a", .send, .check (.buy 60 1) 60 1 "b", .send,
    .take, .fill, .mirror, .record "", .take, .fill]

theorem twoBuys_positive : ∀ l ∈ twoBuys, l.Positive := by
  simp [twoBuys, Label.Positive, Signal.price, Signal.qty]

/-- Of a capital of 200 they are both covered, with the first in flight when the second is
approved. -/
theorem covered_buys_cash_nonneg :
    ∃ path, machine.exec (init (RiskChecker.new 1 0 1 5) "BTCUSDT" 200 (1 / 20) false) twoBuys
      = some path ∧ 0 ≤ path.account.cash := by
  have hsome : (machine.exec (init (RiskChecker.new 1 0 1 5) "BTCUSDT" 200 (1 / 20) false)
      twoBuys).isSome = true := by decide +kernel
  obtain ⟨path, hrun⟩ := Option.isSome_iff_exists.mp hsome
  exact ⟨path, hrun, (cash_nonneg_of_covered _ _ _ _ _ _ path (by norm_num) (by norm_num)
    twoBuys_positive hrun).1 (by decide +kernel)⟩

/-- Of a capital of 100 the second is not covered. -/
theorem cash_can_go_negative :
    ¬ ∀ (risk : RiskChecker) (symbol : String) (initialCapitalUsdt feePct : ℚ) (haltFlag : Bool)
      (ls : List Label) (path : OrderPath), 0 ≤ initialCapitalUsdt → 0 ≤ feePct ∧ feePct ≤ 1 / 10 →
      (∀ l ∈ ls, l.Positive) →
      machine.exec (init risk symbol initialCapitalUsdt feePct haltFlag) ls = some path →
      0 ≤ path.account.cash := by
  intro h
  have hrun : ∃ path, machine.exec
      (init (RiskChecker.new 1 0 1 5) "BTCUSDT" 100 (1 / 20) false) twoBuys = some path ∧
        path.account.cash < 0 := by
    have hsome : ((machine.exec (init (RiskChecker.new 1 0 1 5) "BTCUSDT" 100 (1 / 20) false)
        twoBuys).any fun path => path.account.cash < 0) = true := by decide +kernel
    obtain ⟨path, hpath, hneg⟩ := (Option.any_eq_true _ _).mp hsome
    exact ⟨path, hpath, of_decide_eq_true hneg⟩
  obtain ⟨path, hpath, hneg⟩ := hrun
  have hnonneg := h _ _ _ _ _ twoBuys path (by norm_num) (by norm_num) twoBuys_positive hpath
  exact absurd hnonneg (not_le.mpr hneg)

/-! ## §2 Lots, position and minted cash -/

/-- If this step approves a Buy, neither its quantity nor its cost is negative. -/
def SoundBuy (path : OrderPath) (l : Label) : Prop :=
  ∀ price qty id, path.Approves l ⟨.buy price qty, id⟩ →
    0 ≤ qty ∧ 0 ≤ path.account.buyCost price qty

/-- No lot and no position is short, and a Buy the executor is about to apply leaves cash no
larger and the position no smaller. -/
structure LongOnly (path : OrderPath) : Prop where
  lots : ∀ lot ∈ path.account.pnl.buyQueue, 0 ≤ lot.2
  position : 0 ≤ path.account.pnl.positionQty
  buys : ∀ price qty id path', path.task = .taken ⟨.buy price qty, id⟩ →
    path.step .fill = some path' → path'.account.cash ≤ path.account.cash ∧
      path.account.pnl.positionQty ≤ path'.account.pnl.positionQty

/-- What an order in flight must be for the account to stay long. -/
def SoundOrder (acct : PaperAccount) (order : ValidatedOrder) : Prop :=
  ∀ price qty, order.signal = .buy price qty → 0 ≤ qty ∧ 0 ≤ acct.buyCost price qty

theorem applyOrder_lots_nonneg {acct : PaperAccount} {order : ValidatedOrder}
    (hlots : ∀ lot ∈ acct.pnl.buyQueue, 0 ≤ lot.2) (hsound : SoundOrder acct order) :
    ∀ lot ∈ (acct.applyOrder order).pnl.buyQueue, 0 ≤ lot.2 := by
  unfold PaperAccount.applyOrder
  cases hsignal : order.signal with
  | buy price qty => exact FifoPnl.onBuy_lots_nonneg hlots price (hsound price qty hsignal).1
  | sell price qty =>
      dsimp only
      rw [PaperAccount.onSell_pnl]
      exact FifoPnl.onSell_lots_nonneg hlots price qty
  | hold => exact hlots

/-- The account after the Buy in the executor's hands has been applied. -/
theorem account_fill {path path' : OrderPath} {order : ValidatedOrder}
    (htask : path.task = .taken order) (hstep : path.step .fill = some path') :
    path'.account = path.account.applyOrder order := by
  simp only [step, htask] at hstep
  obtain rfl := Option.some.inj hstep
  rfl

/-- The invariant of the long-only property. -/
structure Sound (path : OrderPath) : Prop where
  lots : ∀ lot ∈ path.account.pnl.buyQueue, 0 ≤ lot.2
  inFlight : Along PaperAccount.applyOrder SoundOrder path.account path.pending

/-- **One step.**  Sound Buys keep the lots long, now and for everything in flight. -/
theorem Sound.step {path path' : OrderPath} {l : Label} (h : path.Sound)
    (hsound : path.SoundBuy l) (hstep : path.step l = some path') : path'.Sound := by
  have happroved : ∀ order, path.Approves l order → SoundOrder path.settled order := by
    rintro ⟨signal, id⟩ happ price qty hsignal
    obtain rfl : signal = .buy price qty := hsignal
    have hbuy := hsound price qty id happ
    rw [PaperAccount.buyCost] at hbuy
    rw [PaperAccount.buyCost, path.settled_feePct]
    exact hbuy
  refine ⟨?_, along_step hstep h.inFlight happroved⟩
  exact account_step (P := fun acct : PaperAccount => ∀ lot ∈ acct.pnl.buyQueue, 0 ≤ lot.2)
    (fun _ _ hlots hop => applyOrder_lots_nonneg hlots hop) hstep h.inFlight h.lots

theorem Sound.longOnly {path : OrderPath} (h : path.Sound) : path.LongOnly where
  lots := h.lots
  position := FifoPnl.positionQty_nonneg h.lots
  buys := by
    intro price qty id path' htask hstep
    have halong := h.inFlight
    rw [pending, htask, ExecTask.held, List.cons_append, List.cons_append] at halong
    obtain ⟨hqty, hcost⟩ := halong.1 price qty rfl
    rw [account_fill htask hstep]
    simp only [PaperAccount.applyOrder, PaperAccount.onBuy_cash, PaperAccount.onBuy_positionQty]
    refine ⟨?_, ?_⟩ <;> linarith

/-- **Long only, exactly.**  In every run from a fresh account, on arbitrary signals and
reference prices and with any settings, no lot and no position goes short and no Buy mints cash or
shrinks the position while every approved Buy has a non-negative quantity and cost; and one
approved Buy without them breaks this when the executor comes to it. -/
theorem longOnly_of_soundBuys (risk : RiskChecker) (symbol : String)
    (initialCapitalUsdt feePct : ℚ) (haltFlag : Bool) (ls : List Label) (path : OrderPath)
    (hrun : machine.exec (init risk symbol initialCapitalUsdt feePct haltFlag) ls = some path) :
    (machine.Guarded SoundBuy (init risk symbol initialCapitalUsdt feePct haltFlag) ls →
      path.LongOnly) ∧
    (∀ l path', path.step l = some path' → ¬ path.SoundBuy l →
      ∃ ds drained, (∀ d ∈ ds, Label.Draining d) ∧ machine.exec path' ds = some drained ∧
        ¬ drained.LongOnly) := by
  refine ⟨?_, ?_⟩
  · intro hsound
    have hinit : (init risk symbol initialCapitalUsdt feePct haltFlag).Sound :=
      ⟨fun _ hlot => absurd hlot List.not_mem_nil, trivial⟩
    exact (machine.exec_invariant
      (fun s l s' hs hl hstep => Sound.step hs hl hstep) hinit hsound hrun).longOnly
  · intro l path' hstep hunsound
    simp only [SoundBuy, not_forall] at hunsound
    obtain ⟨price, qty, id, happ, hbad⟩ := hunsound
    rcases step_cases hstep with ⟨order, happ', hacct, hpend⟩ | ⟨rfl, -⟩ | ⟨hno, -⟩
    · obtain rfl := happ'.unique happ
      obtain ⟨ds, drained, hds, hdrain, htask, -, hsettled⟩ := exists_run_to_last hpend
      refine ⟨ds, drained, hds, hdrain, fun hlong => hbad ?_⟩
      obtain ⟨after, hfill⟩ : ∃ after, drained.step .fill = some after := by
        simp only [step, htask]
        exact ⟨_, rfl⟩
      obtain ⟨hcash, hposition⟩ := hlong.buys price qty id after htask hfill
      have hfee : drained.account.feePct = path.account.feePct := by
        rw [hsettled, settle_frame (f := PaperAccount.feePct) PaperAccount.applyOrder_feePct,
          hacct]
      rw [account_fill htask hfill] at hcash hposition
      simp only [PaperAccount.applyOrder, PaperAccount.onBuy_cash,
        PaperAccount.onBuy_positionQty, PaperAccount.buyCost, hfee] at hcash hposition
      rw [PaperAccount.buyCost]
      refine ⟨?_, ?_⟩ <;> linarith
    · exact absurd happ (Label.Draining.not_approves (l := .fill) trivial _)
    · exact absurd happ (hno _)

/-- A Buy of 1 at 100, executed. -/
theorem plain_buy_longOnly :
    ∃ path, machine.exec (init (RiskChecker.new 1 0 1 5) "BTCUSDT" 1000 0 false)
      [.check (.buy 100 1) 100 0 "a", .send, .take, .fill] = some path ∧ path.LongOnly := by
  have hsome : (machine.exec (init (RiskChecker.new 1 0 1 5) "BTCUSDT" 1000 0 false)
      [.check (.buy 100 1) 100 0 "a", .send, .take, .fill]).isSome = true := by decide +kernel
  obtain ⟨path, hrun⟩ := Option.isSome_iff_exists.mp hsome
  refine ⟨path, hrun, (longOnly_of_soundBuys _ _ _ _ _ _ path hrun).1 ⟨?_, fun s _ => ?_⟩⟩
  · rintro price qty id ⟨_, _, _, _, hl, -, horder⟩
    cases hl
    cases horder
    norm_num [PaperAccount.buyCost, init, account, SharedState.new, PaperAccount.new]
  · refine machine.guarded_of_forall (fun path l hl _ _ _ happ => ?_) s
    refine absurd happ (Label.Draining.not_approves ?_ _)
    simp only [List.mem_cons, List.not_mem_nil, or_false] at hl
    rcases hl with rfl | rfl | rfl <;> trivial

/-- A Buy of minus one passes every gate, goes short and mints 100. -/
theorem negative_buy_goes_short :
    ¬ ∀ (risk : RiskChecker) (symbol : String) (initialCapitalUsdt feePct : ℚ) (haltFlag : Bool)
      (ls : List Label) (path : OrderPath), 0 < risk.maxOrderQty →
      machine.exec (init risk symbol initialCapitalUsdt feePct haltFlag) ls = some path →
      path.LongOnly := by
  intro h
  have hsome : ((machine.exec (init (RiskChecker.new 1 0 1 5) "BTCUSDT" 1000 0 false)
      [.check (.buy 100 (-1)) 100 0 "a", .send, .take, .fill]).any fun path =>
        path.account.pnl.positionQty < 0 ∧ path.account.cash = 1100) = true := by decide +kernel
  obtain ⟨path, hrun, hshort⟩ := (Option.any_eq_true _ _).mp hsome
  have hlong := h _ _ _ _ _ _ path (by norm_num [RiskChecker.new]) hrun
  exact absurd hlong.position (not_le.mpr (of_decide_eq_true hshort).1)

end OrderPath

end CryptoTrader
