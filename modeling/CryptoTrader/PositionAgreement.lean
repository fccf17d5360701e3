/-
# CryptoTrader.PositionAgreement — the strategy's view of its position against the account.

Both strategies flip `holding` when they emit a signal, before the risk checker has answered, so
their view is about the orders they asked for.  The account only sees the orders that were
approved.  The two agree while every decision is admitted, and a single rejection separates them:
a rejected Buy leaves the strategy holding what the account never bought, a rejected Sell leaves
it flat while the account still holds.

The invariant compares the view with the settled account, whose queue is then the one lot the
strategy entered with, or empty.

An `f64` is read as an exact rational.  The condition is meant with the values the code has: a
decision is admitted when the gates of `check`, as the code computes them, let it pass.
-/
import CryptoTrader.Backtest

namespace CryptoTrader

open Lib

/-! ## §1 One signal -/

/-- The tracker holds what the view says: one lot of the entry quantity, or nothing. -/
def Mirrors (view : Bool × ℚ) (pnl : FifoPnl) : Prop :=
  if view.1 = true then qtyStep ≤ view.2 ∧ ∃ price, pnl.buyQueue = [(price, view.2)]
  else pnl.buyQueue = []

/-- Holding means a positive position, of exactly the entry quantity. -/
def PositionAgrees (view : Bool × ℚ) (pnl : FifoPnl) : Prop :=
  (view.1 = true ↔ 0 < pnl.positionQty) ∧ (view.1 = true → pnl.positionQty = view.2)

theorem qtyEpsilon_lt_qtyStep : qtyEpsilon < qtyStep := by
  unfold qtyEpsilon qtyStep
  norm_num

theorem Mirrors.agrees {view : Bool × ℚ} {pnl : FifoPnl} (h : Mirrors view pnl) :
    PositionAgrees view pnl := by
  obtain ⟨holding, entryQty⟩ := view
  cases holding with
  | true =>
      obtain ⟨hstep, price, hqueue⟩ := h
      have hqty : pnl.positionQty = entryQty := by simp [FifoPnl.positionQty, hqueue]
      refine ⟨?_, fun _ => hqty⟩
      rw [hqty]
      exact iff_of_true rfl (qtyStep_pos.trans_le hstep)
  | false =>
      have hqueue : pnl.buyQueue = [] := h
      refine ⟨?_, fun hheld => by cases hheld⟩
      simp [FifoPnl.positionQty, hqueue]

/-- Selling the one lot whole realizes its profit and empties the queue. -/
theorem onSell_whole {pnl : FifoPnl} {price qty : ℚ} (hqueue : pnl.buyQueue = [(price, qty)])
    (hqty : qtyStep ≤ qty) (sellPrice : ℚ) :
    pnl.onSell sellPrice qty =
      (qty, { pnl with
        buyQueue := []
        realizedPnl := pnl.realizedPnl + (sellPrice - price) * qty }) := by
  have htest : qty > qtyEpsilon := qtyEpsilon_lt_qtyStep.trans_le hqty
  simp only [FifoPnl.onSell, hqueue, sellLoop, htest, if_true, min_self, sub_self,
    qtyEpsilon_pos.le, sub_zero]

/-- **An executed signal** moves the tracker the way it moved the view. -/
theorem Mirrors.applySignal {before after : Bool × ℚ} {pnl : FifoPnl} {signal : Signal}
    (h : Mirrors before pnl) (hd : Disciplined before after signal) :
    Mirrors after (pnl.applySignal signal) := by
  cases signal with
  | hold =>
      obtain rfl : after = before := hd
      exact h
  | buy price qty =>
      obtain ⟨hflat, rfl, hstep⟩ := hd
      have hqueue : pnl.buyQueue = [] := by simpa [Mirrors, hflat] using h
      refine ⟨hstep, price, ?_⟩
      simp [FifoPnl.applySignal, FifoPnl.onBuy, hqueue]
  | sell price qty =>
      obtain ⟨rfl, hflat⟩ := hd
      obtain ⟨hstep, entryPrice, hqueue⟩ := h
      simp only [Mirrors, hflat, Bool.false_eq_true, if_false, FifoPnl.applySignal]
      rw [onSell_whole hqueue hstep price]

/-- **A rejected signal** separates them: the view has moved, the tracker has not. -/
theorem Mirrors.disagrees_of_rejected {before after : Bool × ℚ} {pnl : FifoPnl} {signal : Signal}
    (h : Mirrors before pnl) (hd : Disciplined before after signal) (hne : signal ≠ .hold) :
    ¬ PositionAgrees after pnl := by
  rintro ⟨hiff, -⟩
  cases signal with
  | hold => exact hne rfl
  | buy price qty =>
      obtain ⟨hflat, rfl, -⟩ := hd
      have hqueue : pnl.buyQueue = [] := by simpa [Mirrors, hflat] using h
      simp [FifoPnl.positionQty, hqueue] at hiff
  | sell price qty =>
      obtain ⟨rfl, hflat⟩ := hd
      have hheld := h.agrees.1.mp rfl
      rw [hflat] at hiff
      exact absurd (hiff.mpr hheld) Bool.false_ne_true

/-! ## §2 Runs of the pipeline and of the backtester -/

variable {σ : Type} [PositionStrategy σ]

/-- A strategy's view of its position. -/
def viewOf (strat : σ) : Bool × ℚ :=
  (PositionStrategy.holding strat, PositionStrategy.entryQty strat)

/-- How one step moves the strategy and a tracker, by the decision it makes.  The pipeline (with
the tracker of its settled account) and the backtester move the same way. -/
inductive Moves (strat : σ) (pnl : FifoPnl) : Option Decision → σ → FifoPnl → Prop where
  | admitted (d : Decision) : d.signal = (Strategy.onOrderbook strat d.snapshot).1 →
      d.signal ≠ .hold → d.Admitted →
      Moves strat pnl (some d) (Strategy.onOrderbook strat d.snapshot).2
        (pnl.applySignal d.signal)
  | rejected (d : Decision) : d.signal = (Strategy.onOrderbook strat d.snapshot).1 →
      d.signal ≠ .hold → ¬ d.Admitted →
      Moves strat pnl (some d) (Strategy.onOrderbook strat d.snapshot).2 pnl
  | held (snapshot : OrderbookSnapshot) (strat' : σ) :
      Strategy.onOrderbook strat snapshot = (.hold, strat') → Moves strat pnl none strat' pnl
  | idle : Moves strat pnl none strat pnl

section

variable {strat strat' : σ} {pnl pnl' : FifoPnl} {d : Option Decision}

/-- One step without a rejection keeps the view and the tracker in step. -/
theorem Moves.mirrors (h : Moves strat pnl d strat' pnl')
    (hmirrors : Mirrors (viewOf strat) pnl) (hadm : Decision.NoneRejected d) :
    Mirrors (viewOf strat') pnl' := by
  cases h with
  | admitted d hsignal _ _ =>
      have hdisc := PositionStrategy.disciplined strat d.snapshot
      rw [← hsignal] at hdisc
      exact hmirrors.applySignal hdisc
  | rejected d _ _ hrej => exact absurd (hadm d rfl) hrej
  | held snapshot _ hhold =>
      have hdisc := PositionStrategy.disciplined strat snapshot
      rw [hhold] at hdisc
      exact hmirrors.applySignal hdisc
  | idle => exact hmirrors

/-- One rejection separates them. -/
theorem Moves.disagrees (h : Moves strat pnl d strat' pnl')
    (hmirrors : Mirrors (viewOf strat) pnl) (hrej : ¬ Decision.NoneRejected d) :
    ¬ PositionAgrees (viewOf strat') pnl' := by
  cases h with
  | admitted d _ _ hadm => exact absurd (by simpa [Decision.NoneRejected] using hadm) hrej
  | rejected d hsignal hne _ =>
      have hdisc := PositionStrategy.disciplined strat d.snapshot
      rw [← hsignal] at hdisc
      exact hmirrors.disagrees_of_rejected hdisc hne
  | held _ _ _ => exact absurd (by simp [Decision.NoneRejected]) hrej
  | idle => exact absurd (by simp [Decision.NoneRejected]) hrej

end

namespace Pipeline

/-- The decision of the step, if it makes one, is admitted. -/
def NoneRejected (s : Pipeline σ) (l : Label) : Prop := Decision.NoneRejected (s.decision l)

instance (s : Pipeline σ) (l : Label) : Decidable (s.NoneRejected l) :=
  inferInstanceAs (Decidable (Decision.NoneRejected (s.decision l)))

theorem moves {s s' : Pipeline σ} {l : Label} (h : s.step l = some s') :
    Moves s.strat s.path.settled.pnl (s.decision l) s'.strat s'.path.settled.pnl := by
  rcases step_cases h with ⟨d, hd, hstrat, hsignal, hne, hyes, hno⟩ | ⟨hnone, hsettled, hstrat⟩
  · rw [hd, hstrat]
    by_cases hadm : d.Admitted
    · rw [hyes hadm, PaperAccount.applyOrder_pnl]
      exact .admitted d hsignal hne hadm
    · rw [hno hadm]
      exact .rejected d hsignal hne hadm
  · rw [hnone, hsettled]
    rcases hstrat with hsame | ⟨snapshot, hhold⟩
    · rw [hsame]
      exact .idle
    · exact .held snapshot _ hhold

end Pipeline

namespace Backtester

/-- The decision of the step, if it makes one, is admitted. -/
def NoneRejected (bt : Backtester σ) (tick : Tick) : Prop :=
  Decision.NoneRejected (bt.decision tick)

theorem moves (bt : Backtester σ) (tick : Tick) :
    Moves bt.strategy bt.pnl (bt.decision tick) (bt.onUpdate tick).strategy
      (bt.onUpdate tick).pnl := by
  rcases bt.step_cases tick with ⟨d, hd, hstrat, hsignal, hne, hyes, hno⟩ | ⟨hnone, hpnl, hstrat⟩
  · rw [hd, hstrat]
    by_cases hadm : d.Admitted
    · rw [hyes hadm]
      exact .admitted d hsignal hne hadm
    · rw [hno hadm]
      exact .rejected d hsignal hne hadm
  · rw [hnone, hpnl]
    rcases hstrat with hsame | ⟨snapshot, hhold⟩
    · rw [hsame]
      exact .idle
    · exact .held snapshot _ hhold

end Backtester

/-- **The view and the account, exactly.**  Start either strategy flat.  In every run of the
pipeline in which no decision is rejected, in every state with nothing in flight, the strategy is
holding iff the account's position is positive, and then the position is its entry quantity; one
rejection more, and they disagree once what is in flight has been executed.  The same holds of
the backtester and its tracker after every event. -/
theorem position_agrees_of_none_rejected (strat : σ)
    (hflat : PositionStrategy.holding strat = false) (symbol : String) (depthLevels : Nat)
    (risk : RiskChecker) :
    (∀ (initialCapitalUsdt feePct : ℚ) (haltFlag : Bool) (ls : List Pipeline.Label)
        (s : Pipeline σ),
      let start := Pipeline.init symbol depthLevels strat risk initialCapitalUsdt feePct haltFlag
      Pipeline.machine.exec start ls = some s →
      Pipeline.machine.Guarded Pipeline.NoneRejected start ls →
      (s.path.pending = [] → PositionAgrees (viewOf s.strat) s.path.account.pnl) ∧
      (∀ l s', s.step l = some s' → ¬ s.NoneRejected l →
        ∃ ds drained, Pipeline.machine.exec s' ds = some drained ∧ drained.path.pending = [] ∧
          ¬ PositionAgrees (viewOf drained.strat) drained.path.account.pnl)) ∧
    (∀ (snapshot : Option DepthSnapshot) (events : List Tick),
      let start := (Backtester.new symbol depthLevels strat risk).start snapshot
      let bt := events.foldl Backtester.onUpdate start
      Backtester.machine.Guarded Backtester.NoneRejected start events →
      PositionAgrees (viewOf bt.strategy) bt.pnl ∧
      (∀ tick, ¬ bt.NoneRejected tick →
        ¬ PositionAgrees (viewOf (bt.onUpdate tick).strategy) (bt.onUpdate tick).pnl)) := by
  have hview : (viewOf strat).1 = false := hflat
  refine ⟨?_, ?_⟩
  · intro initialCapitalUsdt feePct haltFlag ls s start hrun hguard
    have hinit : Mirrors (viewOf start.strat) start.path.settled.pnl := by
      have : Mirrors (viewOf strat) FifoPnl.new := by simp [Mirrors, hview, FifoPnl.new]
      exact this
    have hmirrors : Mirrors (viewOf s.strat) s.path.settled.pnl :=
      Pipeline.machine.exec_invariant
        (I := fun s : Pipeline σ => Mirrors (viewOf s.strat) s.path.settled.pnl)
        (fun _ _ _ hs hadm hstep => (Pipeline.moves hstep).mirrors hs hadm) hinit hguard hrun
    refine ⟨?_, ?_⟩
    · intro hpend
      rw [OrderPath.settled_of_pending_nil hpend] at hmirrors
      exact hmirrors.agrees
    · intro l s' hstep hrej
      obtain ⟨ds, drained, hdrain, hnil, hacct, hstrat⟩ := s'.exists_drain
      refine ⟨ds, drained, hdrain, hnil, ?_⟩
      rw [hacct, hstrat]
      exact (Pipeline.moves hstep).disagrees hmirrors hrej
  · intro snapshot events start bt hguard
    have hinit : Mirrors (viewOf start.strategy) start.pnl := by
      have : Mirrors (viewOf strat) FifoPnl.new := by simp [Mirrors, hview, FifoPnl.new]
      cases snapshot <;> exact this
    have hmirrors : Mirrors (viewOf bt.strategy) bt.pnl :=
      Backtester.machine.exec_invariant
        (I := fun bt : Backtester σ => Mirrors (viewOf bt.strategy) bt.pnl)
        (fun bt tick _ hs hadm hstep => Option.some.inj hstep ▸ (bt.moves tick).mirrors hs hadm)
        hinit hguard (Backtester.exec_eq start events)
    exact ⟨hmirrors.agrees, fun tick hrej => (bt.moves tick).disagrees hmirrors hrej⟩

/-! ## §3 A run that agrees and one that does not -/

/-- The first quote makes `PingPongStrategy` buy, and the order is executed. -/
theorem pingPong_entry_agrees :
    ∃ s, Pipeline.machine.exec (Pipeline.init "BTCUSDT" 20 PingPongStrategy.default
        (RiskChecker.new 1 0 1 5) 1000 0 false)
        (Pipeline.quoteEvents "100" "101" ++ [.send, .take, .fill]) = some s ∧
      PositionAgrees (viewOf s.strat) s.path.account.pnl := by
  have hsome : ((Pipeline.machine.exec (Pipeline.init "BTCUSDT" 20 PingPongStrategy.default
      (RiskChecker.new 1 0 1 5) 1000 0 false)
      (Pipeline.quoteEvents "100" "101" ++ [.send, .take, .fill])).any fun s =>
        s.path.pending = []) = true := by decide +kernel
  obtain ⟨s, hrun, hpend⟩ := (Option.any_eq_true _ _).mp hsome
  exact ⟨s, hrun, (((position_agrees_of_none_rejected PingPongStrategy.default rfl _ _ _).1
    _ _ _ _ s hrun (by decide +kernel)).1 (of_decide_eq_true hpend))⟩

/-- With the kill switch on, `PingPongStrategy` holds what it has never bought. -/
theorem rejected_entry_disagrees :
    ¬ ∀ (risk : RiskChecker) (initialCapitalUsdt feePct : ℚ) (haltFlag : Bool)
      (ls : List Pipeline.Label) (s : Pipeline PingPongStrategy),
      Pipeline.machine.exec (Pipeline.init "BTCUSDT" 20 PingPongStrategy.default risk
        initialCapitalUsdt feePct haltFlag) ls = some s →
      s.path.pending = [] → PositionAgrees (viewOf s.strat) s.path.account.pnl := by
  intro h
  have hsome : ((Pipeline.machine.exec (Pipeline.init "BTCUSDT" 20 PingPongStrategy.default
      (RiskChecker.new 1 0 1 5) 1000 0 false)
      (.setHalt true :: Pipeline.quoteEvents "100" "101")).any fun s =>
        s.path.pending = [] ∧ s.strat.holding = true ∧ s.path.account.pnl.positionQty = 0)
      = true := by decide +kernel
  obtain ⟨s, hrun, hend⟩ := (Option.any_eq_true _ _).mp hsome
  obtain ⟨hpend, hholding, hposition⟩ := of_decide_eq_true hend
  have hagrees := (h _ _ _ _ _ s hrun hpend).1.mp hholding
  rw [hposition] at hagrees
  exact lt_irrefl 0 hagrees

end CryptoTrader
