/-
# CryptoTrader.DrainedLoop — the main loop with an executor that drains every order.

A special schedule of the pipeline: after each event the other threads take their steps, in any
order, until nothing is in flight, and only then does the next event arrive.  One such round is a
`drainedStep`.  Its specification says what the order book thread decided and that the account has
executed it: the next event finds the cash mirrored and the path empty (`Ready`).
-/
import CryptoTrader.Backtest
import CryptoTrader.Recovery
import CryptoTrader.Lib.Lockstep

namespace CryptoTrader

open Lib Lib.Deferred Lib.Lockstep

/-! ## §1 What comes of a decision -/

namespace Decision

/-- What the checker answers to a decision. -/
def outcome (d : Decision) : CheckResult × RiskChecker :=
  d.risk.check d.signal (referencePrice d.snapshot) d.env

/-- The order that is approved, if it is. -/
def order (d : Decision) : Option ValidatedOrder :=
  match d.outcome.1 with
  | .ok order => some order
  | _ => none

theorem order_of_admitted {d : Decision} (h : d.Admitted) :
    d.order = some ⟨d.signal, d.env.uuid⟩ := by
  unfold order outcome
  rw [RiskChecker.check_of_admits h]

theorem order_of_not_admitted {d : Decision} (h : ¬ d.Admitted) : d.order = none := by
  have hne := RiskChecker.check_ne_ok h
  unfold order outcome
  cases hresult : (d.risk.check d.signal (referencePrice d.snapshot) d.env).1 with
  | ok order => exact absurd hresult (hne order)
  | err e => rfl
  | panicked => rfl

/-- The decision of the other side: the same signal on the same snapshot, its own checker. -/
def under (d : Decision) (risk : RiskChecker) (env : Readings) : Decision :=
  { d with risk := risk, env := env }

end Decision

/-- A strategy decides without looking at the checker. -/
theorem decide?_under {σ : Type} [Strategy σ] (strat : σ) (snapshot : OrderbookSnapshot)
    (risk risk' : RiskChecker) (env env' : Readings) :
    decide? strat snapshot risk' env'
      = (decide? strat snapshot risk env).map fun d => d.under risk' env' := by
  by_cases hhold : (Strategy.onOrderbook strat snapshot).1 = .hold
  · rw [decide?_of_hold hhold, decide?_of_hold hhold]
    rfl
  · rw [decide?_of_order hhold, decide?_of_order hhold]
    rfl

/-- The strategy after it has been shown a snapshot, or none. -/
def strategyAfter {σ : Type} [Strategy σ] (strat : σ) : Option OrderbookSnapshot → σ
  | some snapshot => (Strategy.onOrderbook strat snapshot).2
  | none => strat

/-- The checker after a decision, or none. -/
def riskAfter (risk : RiskChecker) : Option Decision → RiskChecker
  | some d => d.outcome.2
  | none => risk

/-! ## §2 The order path between two events -/

namespace OrderPath

/-- The check of a decision: its order is sent if it is approved. -/
theorem onCheck_eq {path : OrderPath} (hidle : path.sending = none) (d : Decision) (now : Nat)
    (uuid : String) (hrisk : d.risk = path.risk) (henv : d.env = path.readings now uuid) :
    path.onCheck d.signal (referencePrice d.snapshot) now uuid =
      { path with risk := d.outcome.2, sending := d.order } := by
  unfold onCheck Decision.order Decision.outcome
  rw [hrisk, henv]
  generalize path.risk.check d.signal (referencePrice d.snapshot) (path.readings now uuid) = checked
  obtain ⟨result, risk⟩ := checked
  cases result with
  | ok order => rfl
  | err e => exact congrArg (fun sending => { path with risk := risk, sending := sending }) hidle
  | panicked => exact congrArg (fun sending => { path with risk := risk, sending := sending }) hidle

/-- On its way to an account and a checker: everything in flight settles to the account, the cash
is mirrored except between a fill and its mirror, and nobody halts. -/
structure Settling (risk : RiskChecker) (acct : PaperAccount) (path : OrderPath) : Prop where
  risk : path.risk = risk
  settled : path.settled = acct
  running : path.shared.haltFlag = false
  mirrored : path.shared.cashBits = path.account.cash ∨
    ∃ order, path.task = .filled order ∧ order.signal ≠ .hold
  orders : ∀ order ∈ path.pending, order.signal ≠ .hold

theorem Settling.step {risk : RiskChecker} {acct : PaperAccount} {path path' : OrderPath}
    {l : Label} (h : path.Settling risk acct) (hl : l.Draining)
    (hstep : path.step l = some path') : path'.Settling risk acct := by
  have hsettled : path'.settled = acct := by
    rcases settled_step hstep with ⟨order, happ, -⟩ | ⟨-, hsame⟩
    · exact absurd happ (hl.not_approves order)
    · rw [hsame, h.settled]
  have horders : ∀ order ∈ path'.pending, order.signal ≠ .hold := by
    intro order hmem
    rcases step_cases hstep with ⟨o, happ, -⟩ | ⟨-, o, rest, hpend, -, hrest⟩ | ⟨-, -, -, hpend⟩
    · exact absurd happ (hl.not_approves o)
    · exact h.orders order (by rw [hpend]; exact List.mem_cons_of_mem o (hrest ▸ hmem))
    · exact h.orders order (hpend ▸ hmem)
  cases l with
  | send =>
      simp only [OrderPath.step] at hstep
      split at hstep
      · obtain ⟨-, rfl⟩ := Option.ite_some_none_eq_some.mp hstep
        exact ⟨h.risk, hsettled, h.running, h.mirrored, horders⟩
      · cases hstep
  | take =>
      simp only [OrderPath.step] at hstep
      split at hstep
      · next htask horder =>
          obtain rfl := Option.some.inj hstep
          refine ⟨h.risk, hsettled, h.running, Or.inl ?_, horders⟩
          rcases h.mirrored with hcash | ⟨order, hfilled, -⟩
          · exact hcash
          · rw [htask] at hfilled
            cases hfilled
      · cases hstep
  | fill =>
      -- from here on the cash is behind, until the mirror
      simp only [OrderPath.step] at hstep
      split at hstep
      · next order htask =>
          obtain rfl := Option.some.inj hstep
          have hmem : order ∈ path.pending := by simp [pending, ExecTask.held, htask]
          exact ⟨h.risk, hsettled, h.running, Or.inr ⟨order, rfl, h.orders order hmem⟩, horders⟩
      · cases hstep
  | mirror =>
      simp only [OrderPath.step] at hstep
      split at hstep
      · next order htask =>
          obtain rfl := Option.some.inj hstep
          cases hsignal : order.signal with
          | buy price qty | sell price qty =>
              simp only [hsignal] at hsettled horders
              exact ⟨h.risk, hsettled, h.running, Or.inl rfl, horders⟩
          | hold =>
              simp only [hsignal] at hsettled horders
              refine ⟨h.risk, hsettled, h.running, Or.inl ?_, horders⟩
              rcases h.mirrored with hcash | ⟨o, hfilled, hne⟩
              · exact hcash
              · -- what was filled is no Hold
                rw [htask] at hfilled
                obtain rfl := ExecTask.filled.inj hfilled
                exact absurd hsignal hne
      · cases hstep
  | record timestamp =>
      simp only [OrderPath.step] at hstep
      split at hstep
      · next order htask =>
          obtain rfl := Option.some.inj hstep
          have hcash : path.shared.cashBits = path.account.cash := by
            rcases h.mirrored with hcash | ⟨o, hfilled, -⟩
            · exact hcash
            · rw [htask] at hfilled
              cases hfilled
          cases htrade : PaperTrade.ofOrder order timestamp with
          | some trade | none =>
              rw [htrade] at hsettled horders
              exact ⟨h.risk, hsettled, h.running, Or.inl hcash, horders⟩
      · cases hstep
  | check signal midPrice now uuid => exact hl.elim
  | setHalt halted => exact hl.elim
  | publish view => exact hl.elim

end OrderPath

/-! ## §3 Rounds -/

/-- The recorded update as an event of the main loop. -/
def Tick.label (tick : Tick) : Pipeline.Label :=
  .event (.depthUpdate tick.update) tick.nowMs tick.env.now tick.env.uuid

namespace Pipeline

/-- The steps that other threads take between two events; nobody halts. -/
def Label.Between : Label → Prop
  | .event .. => False
  | .setHalt halted => halted = false
  | _ => True

variable {σ : Type}

/-- Nothing is in flight. -/
structure Drained (s : Pipeline σ) : Prop where
  sending : s.path.sending = none
  orders : s.path.orders = []
  task : s.path.task = .idle

/-- Nothing is in flight, the cash is mirrored, and there is no halt. -/
structure Ready (s : Pipeline σ) : Prop extends Drained s where
  running : s.path.shared.haltFlag = false
  mirrored : s.path.shared.cashBits = s.path.account.cash

theorem Drained.pending {s : Pipeline σ} (h : s.Drained) : s.path.pending = [] := by
  unfold OrderPath.pending
  rw [h.sending, h.orders, h.task]
  rfl

variable [Strategy σ]

/-- One event, the order that it sends, and steps of the other threads until nothing is in flight
again. -/
def drainedStep : System (Pipeline σ) Tick ValidatedOrder := fun s tick order s' =>
  ∃ mid ls, s.step tick.label = some mid ∧ mid.path.sending = order ∧
    (∀ l ∈ ls, Label.Between l) ∧ machine.exec mid ls = some s' ∧ s'.Drained

/-- The main loop after a snapshot event. -/
def fed (s : Pipeline σ) (snapshot : DepthSnapshot) : Pipeline σ :=
  { s with book := (s.book.handleSnapshot snapshot).2 }

/-- A run of the main loop that is fed a snapshot and then updates, with the orders it approves. -/
def PaperRun (s : Pipeline σ) (snapshot : DepthSnapshot) (events : List Tick)
    (orders : List ValidatedOrder) (s' : Pipeline σ) : Prop :=
  ∃ nowMs now uuid mid, s.step (.event (.depthSnapshot snapshot) nowMs now uuid) = some mid ∧
    Run drainedStep mid events orders s'

/-- The steps between two events touch neither the book nor the strategy, and settle the path. -/
theorem between_step {s s' : Pipeline σ} {l : Label} {risk : RiskChecker} {acct : PaperAccount}
    (h : s.path.Settling risk acct) (hl : l.Between) (hstep : s.step l = some s') :
    s'.book = s.book ∧ s'.strat = s.strat ∧ s'.path.Settling risk acct := by
  cases l with
  | event event nowMs now uuid => exact hl.elim
  | send =>
      obtain ⟨path, hpath, rfl⟩ := Option.map_eq_some_iff.mp hstep
      have hnext := h.step (l := .send) trivial hpath
      cases s.toPublish with
      | none => exact ⟨rfl, rfl, hnext⟩
      | some snapshot =>
          exact ⟨rfl, rfl, hnext.risk, hnext.settled, hnext.running, hnext.mirrored, hnext.orders⟩
  | take =>
      obtain ⟨path, hpath, rfl⟩ := Option.map_eq_some_iff.mp hstep
      exact ⟨rfl, rfl, h.step (l := .take) trivial hpath⟩
  | fill =>
      obtain ⟨path, hpath, rfl⟩ := Option.map_eq_some_iff.mp hstep
      exact ⟨rfl, rfl, h.step (l := .fill) trivial hpath⟩
  | mirror =>
      obtain ⟨path, hpath, rfl⟩ := Option.map_eq_some_iff.mp hstep
      exact ⟨rfl, rfl, h.step (l := .mirror) trivial hpath⟩
  | record timestamp =>
      obtain ⟨path, hpath, rfl⟩ := Option.map_eq_some_iff.mp hstep
      exact ⟨rfl, rfl, h.step (l := .record timestamp) trivial hpath⟩
  | setHalt halted =>
      obtain rfl := Option.some.inj hstep
      exact ⟨rfl, rfl, h.risk, h.settled, hl, h.mirrored, h.orders⟩
  | setResync resyncNeeded =>
      obtain rfl := Option.some.inj hstep
      exact ⟨rfl, rfl, h⟩

/-- The same for all the steps between two events. -/
theorem between_exec {s s' : Pipeline σ} {ls : List Label} {risk : RiskChecker}
    {acct : PaperAccount} (h : s.path.Settling risk acct) (hls : ∀ l ∈ ls, Label.Between l)
    (hrun : machine.exec s ls = some s') :
    s'.book = s.book ∧ s'.strat = s.strat ∧ s'.path.Settling risk acct := by
  have hguard : machine.Guarded (fun _ l => Label.Between l) s ls :=
    machine.guarded_of_forall (fun _ l hl => hls l hl) s
  refine machine.exec_invariant (I := fun t => t.book = s.book ∧ t.strat = s.strat ∧
    t.path.Settling risk acct) ?_ ⟨rfl, rfl, h⟩ hguard hrun
  rintro t l t' ⟨hbook, hstrat, hpath⟩ hl hstep
  obtain ⟨hbook', hstrat', hpath'⟩ := between_step hpath hl hstep
  exact ⟨hbook'.trans hbook, hstrat'.trans hstrat, hpath'⟩

/-- **A depth update in the main loop**, in terms of the snapshot it shows and the decision it
makes. -/
theorem onEvent_spec {s : Pipeline σ} (hidle : s.path.sending = none) (tick : Tick) :
    let mid := s.onEvent (.depthUpdate tick.update) tick.nowMs tick.env.now tick.env.uuid
    mid.strat = strategyAfter s.strat
      (quote s.book s.resyncNeeded tick.nowMs (.depthUpdate tick.update)) ∧
    ∃ view, mid.path = { s.path.withView view with
      risk := riskAfter s.path.risk (s.decision tick.label)
      sending := (s.decision tick.label).bind Decision.order } := by
  have hquiet : ∀ view, s.path.withView view =
      { s.path.withView view with risk := s.path.risk, sending := none } := fun view =>
    congrArg (fun sending => { s.path.withView view with sending := sending }) hidle
  intro mid
  have hdecision : s.decision tick.label =
      (quote s.book s.resyncNeeded tick.nowMs (.depthUpdate tick.update)).bind fun snapshot =>
        decide? s.strat snapshot s.path.risk (s.path.readings tick.env.now tick.env.uuid) := rfl
  rw [hdecision]
  cases hquote : quote s.book s.resyncNeeded tick.nowMs (.depthUpdate tick.update) with
  | none =>
      obtain ⟨hstrat, view, hpath⟩ := onEvent_of_quote_none hquote tick.env.now tick.env.uuid
      exact ⟨hstrat, view, hpath.trans (hquiet view)⟩
  | some snapshot =>
      obtain ⟨s₀, view, hstrat₀, hpath₀, heq⟩ :=
        onEvent_of_quote_some hquote tick.env.now tick.env.uuid
      show mid.strat = (Strategy.onOrderbook s.strat snapshot).2 ∧ _
      rw [show mid = s₀.onQuote snapshot tick.env.now tick.env.uuid from heq, Option.bind_some,
        ← hstrat₀]
      by_cases hhold : (Strategy.onOrderbook s₀.strat snapshot).1 = .hold
      · rw [onQuote_of_hold hhold, decide?_of_hold hhold]
        refine ⟨rfl, ?_⟩
        simp only [publish, hpath₀]
        exact ⟨_, hquiet _⟩
      · rw [onQuote_of_order hhold, decide?_of_order hhold]
        simp only [hpath₀, Option.bind_some, riskAfter]
        set d : Decision := ⟨snapshot, (Strategy.onOrderbook s₀.strat snapshot).1, s.path.risk,
          s.path.readings tick.env.now tick.env.uuid⟩
        set shown := (s.path.withView view).withView
          ((s.path.withView view).shared.view.onQuote snapshot)
        have hcheck := @OrderPath.onCheck_eq shown hidle d tick.env.now tick.env.uuid rfl rfl
        rw [show (Strategy.onOrderbook s₀.strat snapshot).1 = d.signal from rfl,
          show snapshot = d.snapshot from rfl, hcheck]
        split
        · exact ⟨rfl, _, rfl⟩
        · exact ⟨rfl, _, rfl⟩

/-- The parts of a decision of the main loop. -/
theorem decision_eq_some {s : Pipeline σ} {tick : Tick} {d : Decision}
    (h : s.decision tick.label = some d) :
    d.signal ≠ .hold ∧ d.risk = s.path.risk ∧
      d.env = s.path.readings tick.env.now tick.env.uuid := by
  obtain ⟨snapshot, -, hdecide⟩ := Option.bind_eq_some_iff.mp h
  exact (decide?_eq_some hdecide).2.2

/-- The signal of an approved order is the decision's, which is no Hold. -/
theorem decision_order {s : Pipeline σ} {l : Label} {order : ValidatedOrder}
    (h : (s.decision l).bind Decision.order = some order) :
    ∃ d, s.decision l = some d ∧ d.Admitted ∧ order = ⟨d.signal, d.env.uuid⟩ := by
  obtain ⟨d, hd, horder⟩ := Option.bind_eq_some_iff.mp h
  by_cases hadm : d.Admitted
  · rw [Decision.order_of_admitted hadm] at horder
    exact ⟨d, hd, hadm, (Option.some.inj horder).symm⟩
  · rw [Decision.order_of_not_admitted hadm] at horder
    cases horder

/-- The path on its way, right after an event. -/
theorem settling_of_event {s mid : Pipeline σ} {tick : Tick} (h : s.Ready)
    (hstep : s.step tick.label = some mid) :
    mid.path.Settling (riskAfter s.path.risk (s.decision tick.label))
        (settle PaperAccount.applyOrder s.path.account
          ((s.decision tick.label).bind Decision.order).toList) ∧
      mid.path.sending = (s.decision tick.label).bind Decision.order ∧
      mid.path.orders = [] ∧ mid.path.task = .idle ∧
      mid.book = (bookOnEvent (s.book, s.resyncNeeded) (.depthUpdate tick.update)).1 ∧
      mid.strat = strategyAfter s.strat
        (quote s.book s.resyncNeeded tick.nowMs (.depthUpdate tick.update)) := by
  obtain ⟨hidle, rfl⟩ := Option.ite_some_none_eq_some.mp hstep
  obtain ⟨hstrat, view, hpath⟩ := onEvent_spec hidle tick
  have hbook := s.onEvent_book (.depthUpdate tick.update) tick.nowMs tick.env.now tick.env.uuid
  rw [hpath]
  refine ⟨⟨rfl, ?_, h.running, Or.inl h.mirrored, ?_⟩, rfl, h.orders, h.task,
    congrArg Prod.fst hbook, hstrat⟩
  · unfold OrderPath.settled OrderPath.pending
    simp only [OrderPath.withView, h.orders, h.task]
    rfl
  · intro order hmem
    simp only [OrderPath.pending, OrderPath.withView, h.orders, h.task, ExecTask.held,
      List.nil_append, Option.mem_toList] at hmem
    obtain ⟨d, -, hadm, rfl⟩ := decision_order hmem
    exact hadm.order

/-- **An event and the drain after it**: what is sent, and what the next event will find. -/
theorem drainedStep_spec {s s' : Pipeline σ} {tick : Tick} {order : Option ValidatedOrder}
    (h : s.Ready) (hstep : drainedStep s tick order s') :
    order = (s.decision tick.label).bind Decision.order ∧ s'.Ready ∧
      s'.book = (bookOnEvent (s.book, s.resyncNeeded) (.depthUpdate tick.update)).1 ∧
      s'.strat = strategyAfter s.strat
        (quote s.book s.resyncNeeded tick.nowMs (.depthUpdate tick.update)) ∧
      s'.path.risk = riskAfter s.path.risk (s.decision tick.label) ∧
      s'.path.account = settle PaperAccount.applyOrder s.path.account order.toList := by
  obtain ⟨mid, ls, hevent, rfl, hls, hrun, hdrained⟩ := hstep
  obtain ⟨hsettling, hsending, -, -, hbook, hstrat⟩ := settling_of_event h hevent
  obtain ⟨hbook', hstrat', hend⟩ := between_exec hsettling hls hrun
  have hmirrored : s'.path.shared.cashBits = s'.path.account.cash := by
    rcases hend.mirrored with hcash | ⟨order, hfilled, -⟩
    · exact hcash
    · rw [hdrained.task] at hfilled
      cases hfilled
  refine ⟨hsending, ⟨hdrained, hend.running, hmirrored⟩, hbook'.trans hbook, hstrat'.trans hstrat,
    hend.risk, ?_⟩
  rw [← OrderPath.settled_of_pending_nil hdrained.pending, hend.settled, hsending]

/-- One such round, with the steps of the other threads in the only order they have. -/
def round (s : Pipeline σ) (tick : Tick) : Option (Option ValidatedOrder × Pipeline σ) :=
  (s.step tick.label).bind fun mid =>
    (machine.exec mid (if mid.path.sending.isSome then [.send, .take, .fill, .mirror, .record ""]
      else [])).map fun s' => (mid.path.sending, s')

/-- A round for every update, with the orders they approve. -/
def rounds (s : Pipeline σ) : List Tick → Option (List ValidatedOrder × Pipeline σ)
  | [] => some ([], s)
  | tick :: ticks =>
      (s.round tick).bind fun r =>
        (r.2.rounds ticks).map fun rest => (r.1.toList ++ rest.1, rest.2)

/-- **Every update can be handled and drained**, and the round computes it. -/
theorem round_spec {s : Pipeline σ} (h : s.Ready) (tick : Tick) :
    ∃ order s', s.round tick = some (order, s') ∧ drainedStep s tick order s' := by
  have hevent : s.step tick.label =
      some (s.onEvent (.depthUpdate tick.update) tick.nowMs tick.env.now tick.env.uuid) :=
    if_pos h.sending
  obtain ⟨-, -, horders, htask, -, -⟩ := settling_of_event h hevent
  set mid := s.onEvent (.depthUpdate tick.update) tick.nowMs tick.env.now tick.env.uuid
  unfold round
  rw [hevent, Option.bind_some]
  cases hsending : mid.path.sending with
  | none =>
      exact ⟨none, mid, rfl, mid, [], hevent, hsending, by simp, rfl, hsending, horders, htask⟩
  | some order =>
      have hdrain : ∃ s', machine.exec mid [.send, .take, .fill, .mirror, .record ""] = some s' ∧
          s'.Drained := by
        cases hpublish : mid.toPublish <;>
          simp [machine, Machine.exec, step, OrderPath.step, hsending, horders, htask, hpublish,
            orderChannelCap, publish, OrderPath.withView] <;>
          exact ⟨rfl, rfl, rfl⟩
      obtain ⟨s', hrun, hdrained⟩ := hdrain
      have hbetween : ∀ l ∈ [Label.send, .take, .fill, .mirror, .record ""], Label.Between l := by
        intro l hl
        simp only [List.mem_cons, List.not_mem_nil, or_false] at hl
        rcases hl with rfl | rfl | rfl | rfl | rfl <;> trivial
      refine ⟨some order, s', ?_, mid, _, hevent, hsending, hbetween, hrun, hdrained⟩
      simp only [Option.isSome_some, if_true, hrun, Option.map_some]

/-- So can every list of updates. -/
theorem rounds_spec {s : Pipeline σ} (h : s.Ready) (ticks : List Tick) :
    ∃ orders s', s.rounds ticks = some (orders, s') ∧ Run drainedStep s ticks orders s' := by
  induction ticks generalizing s with
  | nil => exact ⟨[], s, rfl, .nil s⟩
  | cons tick ticks ih =>
      obtain ⟨order, mid, hround, hstep⟩ := round_spec h tick
      obtain ⟨-, hready, -⟩ := drainedStep_spec h hstep
      obtain ⟨orders, s', hrounds, hrun⟩ := ih hready
      refine ⟨_, s', ?_, .cons hstep hrun⟩
      rw [rounds, hround, Option.bind_some, hrounds, Option.map_some]

end Pipeline

end CryptoTrader
