/-
# CryptoTrader.PositionDrift — how far the strategy's view and the position can be apart.

A strategy is not told of a rejection, so from the first one on its view and the position of the
account go their own ways.  They do not go far.  A rejected Buy of quantity `q` leaves the account
`q` behind the view, a rejected Sell leaves it `q` ahead, and an approved order moves both alike,
except that a Sell sells at most what is open: it may close the gap that a rejected Buy has left, and
never opens one.  So the distance stays between what rejected Sells and rejected Buys add up to,
in the main loop on the settled account and in the backtester on its tracker.

Both strategies trade in multiples of the exchange's step (`SteppedStrategy`), on which the matching
loop is exact.  So every order of a run is such a multiple, and the account, at any moment of it, is
short of nothing (`SteppedBooks`).
-/
import CryptoTrader.OrderFlow
import CryptoTrader.PositionAgreement
import CryptoTrader.RoundTripBacktest

namespace CryptoTrader

open Lib Lib.Deferred PnlLedger Reconciliation

/-! ## §1 Strategies that trade on the step -/

/-- A strategy whose Buys are positive multiples of the exchange's step. -/
class SteppedStrategy (σ : Type) extends PositionStrategy σ where
  buys_stepped : ∀ (strat : σ) (snapshot : OrderbookSnapshot) (price qty : ℚ),
    (onOrderbook strat snapshot).1 = .buy price qty → Stepped (.buy price qty)

instance : SteppedStrategy PingPongStrategy where
  buys_stepped := by
    intro strat snapshot price qty hbuy
    have hqty := PingPongStrategy.buy_eq hbuy
    have hpos : 0 < strat.entryQtyAt price := by
      have hdisc := strat.onOrderbook_disciplined snapshot
      rw [show (strat.onOrderbook snapshot).1 = .buy price qty from hbuy] at hdisc
      rw [← hqty]
      exact qtyStep_pos.trans_le hdisc.2.2
    rw [hqty]
    exact (stepped_entry hpos).2

instance : SteppedStrategy MomentumScalpStrategy where
  buys_stepped := by
    intro strat snapshot price qty hbuy
    obtain ⟨-, -, -, -, -, -, hpos, hqty, -⟩ := MomentumScalpStrategy.entry_of_buy hbuy
    rw [hqty] at hpos ⊢
    exact (stepped_entry hpos).2

section

variable {σ : Type} [SteppedStrategy σ]

/-- The quantity a strategy believes it holds. -/
def heldQty (strat : σ) : ℚ :=
  if PositionStrategy.holding strat then PositionStrategy.entryQty strat else 0

/-- What the strategy believes it holds is a positive multiple of the step. -/
def ViewStepped (strat : σ) : Prop :=
  PositionStrategy.holding strat = true →
    0 < PositionStrategy.entryQty strat ∧ OnStep qtyStep (PositionStrategy.entryQty strat)

theorem viewStepped_of_flat {strat : σ} (h : PositionStrategy.holding strat = false) :
    ViewStepped strat := fun hheld => absurd (h.symm.trans hheld) Bool.false_ne_true

/-- **One answer of the strategy**: an order is on the step and moves the view by its quantity; a
Hold leaves the view. -/
theorem ViewStepped.onOrderbook {strat : σ} (h : ViewStepped strat) (snapshot : OrderbookSnapshot) :
    let outcome := Strategy.onOrderbook strat snapshot
    ViewStepped outcome.2 ∧ (outcome.1 ≠ .hold → Stepped outcome.1) ∧
      heldQty outcome.2 = heldQty strat + buyQty outcome.1 - sellQty outcome.1 := by
  have hdisc := PositionStrategy.disciplined strat snapshot
  have hbuys := SteppedStrategy.buys_stepped strat snapshot
  intro outcome
  change Disciplined _ (PositionStrategy.holding outcome.2, PositionStrategy.entryQty outcome.2)
    outcome.1 at hdisc
  change ∀ price qty, outcome.1 = .buy price qty → _ at hbuys
  obtain ⟨signal, strat'⟩ := outcome
  cases signal with
  | hold =>
      obtain ⟨hholding, hqty⟩ := Prod.mk.inj (show (_, _) = (_, _) from hdisc)
      refine ⟨?_, fun hne => absurd rfl hne, ?_⟩
      · intro hheld
        rw [hqty]
        exact h (hholding ▸ hheld)
      · show heldQty strat' = heldQty strat + 0 - 0
        unfold heldQty
        rw [hholding, hqty]
        ring
  | buy price qty =>
      obtain ⟨hflat, hafter, -⟩ := hdisc
      obtain ⟨hholding, hqty⟩ := Prod.mk.inj hafter
      have hstepped := hbuys price qty rfl
      refine ⟨fun _ => by rw [hqty]; exact hstepped, fun _ => hstepped, ?_⟩
      change PositionStrategy.holding strat = false at hflat
      show heldQty strat' = heldQty strat + qty - 0
      unfold heldQty
      rw [hholding, hqty, hflat]
      simp
  | sell price qty =>
      obtain ⟨hbefore, hflat⟩ := hdisc
      obtain ⟨hholding, hqty⟩ := Prod.mk.inj hbefore
      change PositionStrategy.holding strat' = false at hflat
      refine ⟨viewStepped_of_flat hflat, fun _ => ?_, ?_⟩
      · have hheld := h hholding
        rw [hqty] at hheld
        exact hheld
      · show heldQty strat' = heldQty strat + 0 - qty
        unfold heldQty
        rw [hholding, hqty, hflat]
        simp

/-- After a Sell the strategy believes it holds nothing. -/
theorem heldQty_of_sell {strat : σ} {snapshot : OrderbookSnapshot} {price qty : ℚ}
    (h : (Strategy.onOrderbook strat snapshot).1 = .sell price qty) :
    heldQty (Strategy.onOrderbook strat snapshot).2 = 0 := by
  have hdisc := PositionStrategy.disciplined strat snapshot
  rw [show (PositionStrategy.toStrategy.onOrderbook strat snapshot).1 = .sell price qty from h]
    at hdisc
  have hflat : PositionStrategy.holding (Strategy.onOrderbook strat snapshot).2 = false := hdisc.2
  exact if_neg (by rw [hflat]; exact Bool.false_ne_true)

/-! ## §2 One decision -/

/-- The signal of a decision that is rejected. -/
def rejectedOf : Option Decision → List Signal
  | some d => if d.Admitted then [] else [d.signal]
  | none => []

/-- **The distance**, after these rejections: from below by what the rejected Sells exceed the
rejected Buys, from above by the rejected Sells. -/
structure Drift (rejected : List Signal) (strat : σ) (pnl : FifoPnl) : Prop where
  lots : SteppedLots pnl
  view : ViewStepped strat
  sold : 0 ≤ recordedSold rejected
  below : recordedSold rejected - bought rejected ≤ pnl.positionQty - heldQty strat
  above : pnl.positionQty - heldQty strat ≤ recordedSold rejected

theorem bought_concat (signals : List Signal) (signal : Signal) :
    bought (signals ++ [signal]) = bought signals + buyQty signal := by
  simp [bought, List.map_append, List.sum_append]

theorem recordedSold_concat (signals : List Signal) (signal : Signal) :
    recordedSold (signals ++ [signal]) = recordedSold signals + sellQty signal := by
  simp [recordedSold, List.map_append, List.sum_append]

theorem Drift.of_flat {strat : σ} (h : PositionStrategy.holding strat = false) :
    Drift [] strat FifoPnl.new where
  lots := steppedLots_new
  view := viewStepped_of_flat h
  sold := le_refl 0
  below := by simp [heldQty, h, recordedSold, bought, FifoPnl.positionQty, FifoPnl.new]
  above := by simp [heldQty, h, recordedSold, FifoPnl.positionQty, FifoPnl.new]

variable {rejected : List Signal} {strat : σ} {pnl : FifoPnl}

/-- A Hold moves neither. -/
theorem Drift.held (h : Drift rejected strat pnl) {snapshot : OrderbookSnapshot}
    (hhold : (Strategy.onOrderbook strat snapshot).1 = .hold) :
    Drift rejected (Strategy.onOrderbook strat snapshot).2 pnl := by
  obtain ⟨hlots, hview, hsold, hbelow, habove⟩ := h
  obtain ⟨hview', -, hheld⟩ := hview.onOrderbook snapshot
  rw [hhold] at hheld
  have hsame : heldQty (Strategy.onOrderbook strat snapshot).2 = heldQty strat := by
    rw [hheld]
    exact (sub_zero _).trans (add_zero _)
  exact ⟨hlots, hview', hsold, hsame ▸ hbelow, hsame ▸ habove⟩

/-- **An approved order** moves both: a Buy by its quantity, a Sell the view to nothing and the
position by what is open at most.  So the position only gains on the view, and never past it. -/
theorem admitted_distance (hlots : SteppedLots pnl) (hview : ViewStepped strat)
    {snapshot : OrderbookSnapshot} (horder : (Strategy.onOrderbook strat snapshot).1 ≠ .hold) :
    let outcome := Strategy.onOrderbook strat snapshot
    let distance := (pnl.applySignal outcome.1).positionQty - heldQty outcome.2
    pnl.positionQty - heldQty strat ≤ distance ∧
      distance ≤ max (pnl.positionQty - heldQty strat) 0 := by
  intro outcome distance
  obtain ⟨-, hstepped, hheld⟩ := hview.onOrderbook snapshot
  have hopen : 0 ≤ pnl.positionQty := hlots.1.total_nonneg
  cases hsignal : outcome.1 with
  | hold => exact absurd hsignal horder
  | buy price qty =>
      have hposition : (pnl.applySignal outcome.1).positionQty = pnl.positionQty + qty := by
        simp [hsignal, FifoPnl.applySignal, FifoPnl.onBuy, FifoPnl.positionQty]
      have hqty : heldQty outcome.2 = heldQty strat + qty - 0 := by
        rw [hheld]
        show heldQty strat + buyQty outcome.1 - sellQty outcome.1 = _
        rw [hsignal]
        rfl
      have hsame : distance = pnl.positionQty - heldQty strat := by
        show _ - _ = _
        rw [hposition, hqty]
        ring
      rw [hsame]
      exact ⟨le_refl _, le_max_left _ _⟩
  | sell price qty =>
      have hqty : OnStep qtyStep qty := by
        have hs := (hstepped horder).2
        change OnStep qtyStep outcome.1.qty at hs
        rwa [hsignal] at hs
      have hposition : (pnl.applySignal outcome.1).positionQty
          = pnl.positionQty - min qty pnl.positionQty := by
        rw [hsignal]
        exact (onSell_stepped hlots price hqty).2.1
      have hflat : heldQty outcome.2 = 0 := heldQty_of_sell hsignal
      have hsold : heldQty strat = qty := by
        have h0 : heldQty outcome.2 = heldQty strat + buyQty outcome.1 - sellQty outcome.1 := hheld
        rw [hflat, hsignal] at h0
        change 0 = heldQty strat + 0 - qty at h0
        linarith
      have hdistance : distance = pnl.positionQty - min qty pnl.positionQty := by
        show _ - _ = _
        rw [hposition, hflat, sub_zero]
      rw [hdistance, hsold]
      rcases min_choice qty pnl.positionQty with hmin | hmin
      · rw [hmin]
        exact ⟨le_refl _, le_max_left _ _⟩
      · -- the account had less than the view: now both have nothing
        have hle : pnl.positionQty ≤ qty := min_eq_right_iff.mp hmin
        rw [hmin, sub_self]
        exact ⟨by linarith, le_max_right _ _⟩

theorem Drift.admitted (h : Drift rejected strat pnl) {snapshot : OrderbookSnapshot}
    (horder : (Strategy.onOrderbook strat snapshot).1 ≠ .hold) :
    Drift rejected (Strategy.onOrderbook strat snapshot).2
      (pnl.applySignal (Strategy.onOrderbook strat snapshot).1) := by
  obtain ⟨hlots, hview, hsold, hbelow, habove⟩ := h
  obtain ⟨hview', hstepped, -⟩ := hview.onOrderbook snapshot
  obtain ⟨-, -, -, hlots'⟩ := applySignal_stepped hlots (hstepped horder)
  obtain ⟨hgain, hcap⟩ := admitted_distance hlots hview horder
  exact ⟨hlots', hview', hsold, hbelow.trans hgain, hcap.trans (max_le habove hsold)⟩

/-- **A rejected order** moves the view alone. -/
theorem Drift.rejected_order (h : Drift rejected strat pnl) {snapshot : OrderbookSnapshot}
    (horder : (Strategy.onOrderbook strat snapshot).1 ≠ .hold) :
    Drift (rejected ++ [(Strategy.onOrderbook strat snapshot).1])
      (Strategy.onOrderbook strat snapshot).2 pnl := by
  obtain ⟨hlots, hview, hsold, hbelow, habove⟩ := h
  obtain ⟨hview', hstepped, hheld⟩ := hview.onOrderbook snapshot
  have hqty : 0 ≤ buyQty (Strategy.onOrderbook strat snapshot).1 ∧
      0 ≤ sellQty (Strategy.onOrderbook strat snapshot).1 := by
    have hpos := (hstepped horder).1.le
    cases hsignal : (Strategy.onOrderbook strat snapshot).1 with
    | hold => exact absurd hsignal horder
    | buy price qty => exact ⟨by rwa [hsignal] at hpos, le_refl 0⟩
    | sell price qty => exact ⟨le_refl 0, by rwa [hsignal] at hpos⟩
  refine ⟨hlots, hview', ?_, ?_, ?_⟩
  · rw [recordedSold_concat]
    linarith [hqty.2]
  · rw [recordedSold_concat, bought_concat, hheld]
    linarith
  · rw [recordedSold_concat, hheld]
    linarith [hqty.1]

/-- **One step** of the strategy and a tracker, whatever comes of the decision. -/
theorem Drift.moves {strat' : σ} {pnl' : FifoPnl} {d : Option Decision}
    (h : Drift rejected strat pnl) (hmoves : Moves strat pnl d strat' pnl') :
    Drift (rejected ++ rejectedOf d) strat' pnl' := by
  cases hmoves with
  | idle =>
      rw [show rejectedOf none = [] from rfl, List.append_nil]
      exact h
  | held snapshot _ hhold =>
      have hnext := h.held (congrArg Prod.fst hhold)
      rw [hhold] at hnext
      rw [show rejectedOf none = [] from rfl, List.append_nil]
      exact hnext
  | admitted d hsignal hne hadm =>
      rw [show rejectedOf (some d) = [] from if_pos hadm, List.append_nil, hsignal]
      exact h.admitted (hsignal ▸ hne)
  | rejected d hsignal hne hadm =>
      rw [show rejectedOf (some d) = [d.signal] from if_neg hadm, hsignal]
      exact h.rejected_order (hsignal ▸ hne)

/-! ## §3 Runs -/

/-- The orders a step approves are on the step, and the view stays so. -/
theorem Moves.stepped {strat' : σ} {pnl' : FifoPnl} {d : Option Decision}
    (h : ViewStepped strat) (hmoves : Moves strat pnl d strat' pnl') :
    ViewStepped strat' ∧ ∀ d' ∈ d, Stepped d'.signal := by
  have hnone : ∀ d' ∈ (none : Option Decision), Stepped d'.signal := by
    intro d' hd'
    cases hd'
  cases hmoves with
  | idle => exact ⟨h, hnone⟩
  | held snapshot _ hhold =>
      have hnext := (h.onOrderbook snapshot).1
      rw [hhold] at hnext
      exact ⟨hnext, hnone⟩
  | admitted d hsignal hne _ | rejected d hsignal hne _ =>
      obtain ⟨hview, hstepped, -⟩ := h.onOrderbook d.snapshot
      rw [← hsignal] at hstepped
      refine ⟨hview, ?_⟩
      rintro d' hd'
      rw [← Option.some.inj hd']
      exact hstepped hne

theorem Pipeline.approved_stepped_step {approved : List ValidatedOrder} {s s' : Pipeline σ}
    {l : Pipeline.Label} (h : ViewStepped s.strat ∧ ∀ o ∈ approved, Stepped o.signal)
    (hstep : s.step l = some s') :
    ViewStepped s'.strat ∧ ∀ o ∈ approved ++ s.approvedOf l, Stepped o.signal := by
  obtain ⟨hview, hstepped⟩ := Moves.stepped h.1 (Pipeline.moves hstep)
  refine ⟨hview, ?_⟩
  intro o ho
  rcases List.mem_append.mp ho with ho | ho
  · exact h.2 o ho
  · obtain ⟨d, hd, -, rfl⟩ := Pipeline.decision_order (Option.mem_toList.mp ho)
    exact hstepped d hd

/-- **Every order of a run is on the step**, from a flat strategy. -/
theorem Pipeline.approved_stepped {strat : σ} (hflat : PositionStrategy.holding strat = false)
    {symbol : String} {depthLevels : Nat} {risk : RiskChecker} {initialCapitalUsdt feePct : ℚ}
    {haltFlag : Bool} {ls : List Pipeline.Label} {s : Pipeline σ}
    (hrun : Pipeline.machine.exec
      (Pipeline.init symbol depthLevels strat risk initialCapitalUsdt feePct haltFlag) ls
      = some s) :
    ∀ o ∈ Pipeline.machine.outputs Pipeline.approvedOf
      (Pipeline.init symbol depthLevels strat risk initialCapitalUsdt feePct haltFlag) ls,
      Stepped o.signal :=
  (Pipeline.machine.exec_history_of_step
    (I := fun s approved => ViewStepped s.strat ∧
      ∀ o ∈ approved, Stepped (ValidatedOrder.signal o))
    (fun _ _ _ _ h hstep => Pipeline.approved_stepped_step h hstep)
    ⟨viewStepped_of_flat hflat, fun _ ho => absurd ho List.not_mem_nil⟩ hrun).2

/-- The account of a run of such orders: lots on the step, and money that adds up. -/
structure SteppedBooks (initialCapital : ℚ) (acct : PaperAccount) : Prop where
  lots : SteppedLots acct.pnl
  balanced : shortfall acct = 0
  capital : acct.initialCapital = initialCapital

theorem steppedBooks_new (initialCapital feePct : ℚ) :
    SteppedBooks initialCapital (PaperAccount.new initialCapital feePct) where
  lots := steppedLots_new
  balanced := by simp [shortfall, PaperAccount.new, FifoPnl.new, FifoPnl.positionNotional]
  capital := rfl

theorem SteppedBooks.applyOrder {initialCapital : ℚ} {acct : PaperAccount}
    (h : SteppedBooks initialCapital acct) {order : ValidatedOrder} (hs : Stepped order.signal) :
    SteppedBooks initialCapital (acct.applyOrder order) := by
  obtain ⟨hlots, hbalanced, hcapital⟩ := h
  have hlots' : SteppedLots (acct.applyOrder order).pnl := by
    rw [PaperAccount.applyOrder_pnl]
    exact (applySignal_stepped hlots hs).2.2.2
  refine ⟨hlots', ?_, ?_⟩
  · unfold PaperAccount.applyOrder
    cases hsignal : order.signal with
    | hold => exact hbalanced
    | buy price qty => exact (shortfall_onBuy acct price qty).trans hbalanced
    | sell price qty =>
        rw [hsignal] at hs
        exact (shortfall_onSell_onStep qtyEpsilon_lt_qtyStep hlots.2 price hs.2).1.trans hbalanced
  · unfold PaperAccount.applyOrder
    cases order.signal with
    | hold => exact hcapital
    | buy price qty => exact hcapital
    | sell price qty => exact (acct.onSell_initialCapital price qty).trans hcapital

theorem SteppedBooks.settle {initialCapital : ℚ} {acct : PaperAccount}
    (h : SteppedBooks initialCapital acct) {orders : List ValidatedOrder}
    (hs : ∀ o ∈ orders, Stepped o.signal) :
    SteppedBooks initialCapital (settle PaperAccount.applyOrder acct orders) := by
  induction orders generalizing acct with
  | nil => exact h
  | cons order orders ih =>
      exact ih (h.applyOrder (hs order List.mem_cons_self))
        fun o ho => hs o (List.mem_cons_of_mem order ho)

/-- **The account of a run** is one of stepped orders, at any moment. -/
theorem Pipeline.steppedBooks_of_run {strat : σ} (hflat : PositionStrategy.holding strat = false)
    {symbol : String} {depthLevels : Nat} {risk : RiskChecker} {initialCapitalUsdt feePct : ℚ}
    {haltFlag : Bool} {ls : List Pipeline.Label} {s : Pipeline σ}
    (hrun : Pipeline.machine.exec
      (Pipeline.init symbol depthLevels strat risk initialCapitalUsdt feePct haltFlag) ls
      = some s) : SteppedBooks initialCapitalUsdt s.path.account := by
  have happroved := Pipeline.approved_stepped hflat hrun
  rw [Pipeline.approved_eq_of_run hrun] at happroved
  rw [(Pipeline.orderBooks_of_run hrun).account]
  exact (steppedBooks_new initialCapitalUsdt feePct).settle fun o ho =>
    happroved o (List.mem_append_left _ ho)

/-- **The distance between view and position.**  Start a strategy that trades on the step, as both
of the program's do, flat.  In every run of the main loop, whatever is rejected and however the
threads interleave, the position the account settles to exceeds the quantity the strategy believes
it holds by at most what rejected Sells add up to, and falls short of it by at most what rejected
Buys exceed rejected Sells by.  The backtester's tracker keeps the same distance, after every
event. -/
theorem position_drift_bounded (strat : σ) (hflat : PositionStrategy.holding strat = false)
    (symbol : String) (depthLevels : Nat) (risk : RiskChecker) :
    (∀ (initialCapitalUsdt feePct : ℚ) (haltFlag : Bool) (ls : List Pipeline.Label)
        (s : Pipeline σ),
      let start := Pipeline.init symbol depthLevels strat risk initialCapitalUsdt feePct haltFlag
      let rejected := Pipeline.machine.outputs (fun s l => rejectedOf (s.decision l)) start ls
      Pipeline.machine.exec start ls = some s →
      recordedSold rejected - bought rejected
          ≤ s.path.settled.pnl.positionQty - heldQty s.strat ∧
        s.path.settled.pnl.positionQty - heldQty s.strat ≤ recordedSold rejected) ∧
    (∀ (snapshot : Option DepthSnapshot) (events : List Tick),
      let start := (Backtester.new symbol depthLevels strat risk).start snapshot
      let rejected := Backtester.machine.outputs (fun bt tick => rejectedOf (bt.decision tick))
        start events
      let bt := events.foldl Backtester.onUpdate start
      recordedSold rejected - bought rejected ≤ bt.pnl.positionQty - heldQty bt.strategy ∧
        bt.pnl.positionQty - heldQty bt.strategy ≤ recordedSold rejected) := by
  refine ⟨?_, ?_⟩
  · intro initialCapitalUsdt feePct haltFlag ls s start rejected hrun
    have hdrift : Drift rejected s.strat s.path.settled.pnl :=
      Pipeline.machine.exec_history_of_step
        (I := fun s rejected => Drift rejected s.strat s.path.settled.pnl)
        (fun _ _ _ _ h hstep => h.moves (Pipeline.moves hstep)) (Drift.of_flat hflat) hrun
    exact ⟨hdrift.below, hdrift.above⟩
  · intro snapshot events start rejected bt
    have hstart : Drift [] start.strategy start.pnl := by
      cases snapshot <;> exact Drift.of_flat hflat
    have hdrift : Drift rejected bt.strategy bt.pnl :=
      Backtester.machine.exec_history_of_step
        (I := fun bt rejected => Drift rejected bt.strategy bt.pnl)
        (fun bt tick _ _ h hstep => Option.some.inj hstep ▸ h.moves (bt.moves tick)) hstart
        (Backtester.exec_eq start events)
    exact ⟨hdrift.below, hdrift.above⟩

end

/-- A Buy of 0.01 that the kill switch rejects: the view is ahead by just that. -/
theorem rejected_buy_drift :
    ∃ s, Pipeline.machine.exec (Pipeline.init "BTCUSDT" 20 PingPongStrategy.default
        (RiskChecker.new 1 0 1 5) 1000 0 false)
        (.setHalt true :: Pipeline.quoteEvents "100" "101") = some s ∧
      heldQty s.strat = 1 / 100 ∧ -(1 / 100) ≤ s.path.settled.pnl.positionQty - heldQty s.strat := by
  have hsome : ((Pipeline.machine.exec (Pipeline.init "BTCUSDT" 20 PingPongStrategy.default
      (RiskChecker.new 1 0 1 5) 1000 0 false)
      (.setHalt true :: Pipeline.quoteEvents "100" "101")).any fun s =>
        heldQty s.strat = 1 / 100) = true := by decide +kernel
  obtain ⟨s, hrun, hheld⟩ := (Option.any_eq_true _ _).mp hsome
  have hdrift := (position_drift_bounded PingPongStrategy.default rfl "BTCUSDT" 20
    (RiskChecker.new 1 0 1 5)).1 1000 0 false _ s hrun
  refine ⟨s, hrun, of_decide_eq_true hheld, le_trans ?_ hdrift.1⟩
  decide +kernel

end CryptoTrader
