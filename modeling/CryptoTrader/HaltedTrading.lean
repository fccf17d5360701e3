/-
# CryptoTrader.HaltedTrading — what the program does while a halt is in force.

`KillSwitch` says when a halt stays in force and that every check is then refused.  Here the rest of the
program runs on: messages come in, the strategy is shown its snapshots and goes on making orders, and
the orders approved before the halt are still in flight.  The halt stops approvals and nothing else: at
most 66 orders are still executed, in order, and from the halt on the settled account does not move.
-/
import CryptoTrader.MarketFlow

namespace CryptoTrader

open Lib Lib.Deferred

namespace KillSwitch

/-- Wiring the flag up is never undone. -/
theorem hasHaltFlag_step {s s' : KillSwitch} {l : Label} (h : s.step l = some s') :
    s'.risk.hasHaltFlag = s.risk.hasHaltFlag := by
  by_cases hl : ∀ signal mid cash now uuid, l ≠ .check signal mid cash now uuid
  · rw [step_risk hl h]
  · simp only [not_forall, not_not] at hl
    obtain ⟨signal, mid, cash, now, uuid, rfl⟩ := hl
    obtain ⟨-, hs⟩ := Option.ite_none_left_eq_some.mp h
    obtain rfl := Option.some.inj hs
    obtain ⟨ids, queue, timestamps, hrisk⟩ :=
      s.risk.check_sameSettings signal mid (s.readings cash now uuid)
    simp only [hrisk]

/-- A check under a halt is refused, and leaves no trace in the checker. -/
theorem check_of_halted {s : KillSwitch} (hwired : s.risk.hasHaltFlag = true)
    (hflag : s.haltFlag = true) (signal : Signal) (midPrice cash : ℚ) (now : Nat)
    (uuid : String) :
    s.risk.check signal midPrice (s.readings cash now uuid) = (.err .killSwitch, s.risk) := by
  have hkilled : s.risk.killed (s.readings cash now uuid) = true := by
    simp [RiskChecker.killed, readings, hwired, hflag]
  unfold RiskChecker.check
  rw [if_pos hkilled]

end KillSwitch

namespace Pipeline

variable {σ : Type} [Strategy σ]

/-- The account takes the order that a step executes. -/
theorem account_step {s s' : Pipeline σ} {l : Label} (h : s.step l = some s') :
    s'.path.account = settle PaperAccount.applyOrder s.path.account (s.executedOf l) := by
  by_cases hwrites : l.Writes
  · cases l with
    | fill =>
        obtain ⟨order, htask, rfl⟩ := fill_spec h
        simp only [executedOf, htask, ExecTask.held]
        rfl
    | mirror =>
        obtain ⟨order, htask, rfl⟩ := mirror_spec h
        show PaperAccount.mk _ _ _ _ _ = _
        cases order.signal <;> rfl
    | record timestamp =>
        obtain ⟨order, htask, rfl⟩ := record_spec h
        show PaperAccount.mk _ _ _ _ _ = _
        cases PaperTrade.ofOrder order timestamp <;> rfl
    | _ => exact hwrites.elim
  · obtain ⟨-, -, view, halted, hshared⟩ := books_frame h hwrites
    have hnone : s.executedOf l = [] := by
      cases l with
      | fill => exact absurd trivial hwrites
      | _ => rfl
    rw [hnone, settle_nil]
    show s'.path.shared.account = s.path.shared.account
    rw [hshared]

end Pipeline

namespace Program

variable {σ : Type} [Strategy σ]

/-- The decisions of a step. -/
def decisionsOf (p : Program σ) (l : Label) : List Decision := (p.decision l).toList

/-- The order that a step executes. -/
def executedOf (p : Program σ) : Label → List ValidatedOrder
  | .fill => p.pipeline.path.task.held
  | _ => []

/-- Until a resume starts or the file is removed by hand. -/
def Label.Window : Label → Prop
  | .switch l => l.Window
  | _ => True

/-- A step is one of the main loop that decides and executes the same. -/
theorem main_step {p p' : Program σ} {l : Label} (h : p.step l = some p') :
    ∃ m, p.pipeline.step m = some p'.pipeline ∧ p.pipeline.decision m = p.decision l ∧
      p.pipeline.executedOf m = p.executedOf l := by
  cases l with
  | handle nowMs now uuid =>
      obtain ⟨message, market, hmarket, hidle, rfl⟩ := handle_spec h
      refine ⟨.event message.2 nowMs now uuid, if_pos hidle, ?_, rfl⟩
      simp only [decision, hmarket, List.head?_cons, Option.bind_some]
  | network k =>
      obtain ⟨-, s, -, rfl⟩ := network_spec h
      exact ⟨.setResync s.resyncNeeded, rfl, rfl, rfl⟩
  | switch k =>
      obtain ⟨-, s, -, rfl⟩ := switch_spec h
      exact ⟨.setHalt s.haltFlag, rfl, rfl, rfl⟩
  | send | take | fill | mirror | record _ =>
      obtain ⟨pipeline, hstep, rfl⟩ := order_spec h rfl
      exact ⟨_, hstep, rfl, rfl⟩

/-- **What a step does to the orders**: the approved one joins the back of those in flight, the executed
one leaves from the front and reaches the account. -/
theorem orders_step {p p' : Program σ} {l : Label} (h : p.step l = some p') :
    p.pipeline.path.pending ++ ((p.decision l).bind Decision.order).toList
        = p.executedOf l ++ p'.pipeline.path.pending ∧
      p'.pipeline.path.account
        = settle PaperAccount.applyOrder p.pipeline.path.account (p.executedOf l) := by
  obtain ⟨m, hstep, hdecision, hexecuted⟩ := main_step h
  rw [← hdecision, ← hexecuted]
  exact ⟨Pipeline.pending_step hstep, Pipeline.account_step hstep⟩

/-- What a decision is made of: the snapshot shown, the signal the strategy answers, and the checker and
the flags of the moment. -/
theorem decision_parts {p : Program σ} {l : Label} {d : Decision} (h : p.decision l = some d) :
    d.snapshot ∈ p.shownOf l ∧ d.signal = (Strategy.onOrderbook p.pipeline.strat d.snapshot).1 ∧
      d.signal ≠ .hold ∧ d.risk = p.switch.risk ∧
      ∃ cash now uuid, d.env = p.switch.readings cash now uuid := by
  cases l with
  | handle nowMs now uuid =>
      obtain ⟨message, hmessage, hdecision⟩ := Option.bind_eq_some_iff.mp h
      obtain ⟨snapshot, hquote, hdecide⟩ := Option.bind_eq_some_iff.mp hdecision
      obtain ⟨rfl, hsignal, horder, hrisk, henv⟩ := decide?_eq_some hdecide
      refine ⟨?_, hsignal, horder, hrisk, p.pipeline.path.shared.cashBits, now, uuid, henv⟩
      simp only [shownOf, hmessage, Option.toList_some, List.flatMap_cons, List.flatMap_nil,
        List.append_nil, Pipeline.shownOf, hquote, List.mem_singleton]
  | _ => cases h

/-- **What a step does to the checker**: it judges the decision, if there is one. -/
theorem risk_step {p p' : Program σ} {l : Label} (h : p.step l = some p') :
    p'.switch.risk = riskAfter p.switch.risk (p.decision l) := by
  cases l with
  | handle nowMs now uuid =>
      obtain ⟨message, market, hmarket, hidle, rfl⟩ := handle_spec h
      obtain ⟨-, view, hpath⟩ := Pipeline.event_spec hidle message.2 nowMs now uuid
      simp only [switch, hpath, decision, hmarket, List.head?_cons, Option.bind_some]
  | network k =>
      obtain ⟨-, s, -, rfl⟩ := network_spec h
      rfl
  | switch k =>
      obtain ⟨-, s, -, rfl⟩ := switch_spec h
      rfl
  | send | take | fill | mirror | record _ =>
      obtain ⟨-, -, -, -, hswitch, -⟩ := order_frame h rfl
      exact congrArg KillSwitch.risk hswitch

/-- The halt, its wiring, and the checker as it was when the halt came into force. -/
structure Halted (risk : RiskChecker) (p : Program σ) : Prop where
  wired : p.switch.risk.hasHaltFlag = true
  secured : p.switch.Secured
  risk : p.switch.risk = risk

/-- Under a halt every decision is refused, without a trace. -/
theorem Halted.outcome {risk : RiskChecker} {p : Program σ} (h : Halted risk p) {l : Label}
    {d : Decision} (hd : p.decision l = some d) : d.outcome = (.err .killSwitch, risk) := by
  obtain ⟨-, -, -, hrisk, cash, now, uuid, henv⟩ := decision_parts hd
  unfold Decision.outcome
  rw [hrisk, henv, KillSwitch.check_of_halted h.wired h.secured.flag, h.risk]

/-- **One step of a halted program.** -/
theorem Halted.step {risk : RiskChecker} {p p' : Program σ} {l : Label} (h : Halted risk p)
    (hl : l.Window) (hstep : p.step l = some p') : Halted risk p' := by
  have hswitch := toSwitch.sound hstep
  cases l with
  | handle nowMs now uuid =>
      cases hd : p.decision (.handle nowMs now uuid) with
      | none =>
          have hlabels : toSwitch.labels p (.handle nowMs now uuid) = [] := by
            show (p.decision _).toList.map checkOf = []
            rw [hd]
            rfl
          rw [hlabels] at hswitch
          have hsame : p'.switch = p.switch := (Option.some.inj hswitch).symm
          exact ⟨hsame ▸ h.wired, hsame ▸ h.secured, hsame ▸ h.risk⟩
      | some d =>
          have hlabels : toSwitch.labels p (.handle nowMs now uuid) = [checkOf d] := by
            show (p.decision _).toList.map checkOf = _
            rw [hd]
            rfl
          rw [hlabels, Machine.exec_singleton] at hswitch
          obtain ⟨-, hs⟩ := Option.ite_none_left_eq_some.mp hswitch
          have hrefused : p.switch.risk.check d.signal (referencePrice d.snapshot)
              (p.switch.readings d.env.cash d.env.now d.env.uuid)
                = (.err .killSwitch, p.switch.risk) :=
            KillSwitch.check_of_halted h.wired h.secured.flag _ _ _ _ _
          change some { p.switch with risk := (p.switch.risk.check d.signal
            (referencePrice d.snapshot)
            (p.switch.readings d.env.cash d.env.now d.env.uuid)).2 } = some p'.switch at hs
          rw [hrefused] at hs
          have hsame : p'.switch = p.switch := (Option.some.inj hs).symm
          exact ⟨hsame ▸ h.wired, hsame ▸ h.secured, hsame ▸ h.risk⟩
  | switch k =>
      obtain ⟨hk, -⟩ := switch_spec hstep
      have hone : p.switch.step k = some p'.switch :=
        (KillSwitch.machine.exec_singleton _ _).symm.trans hswitch
      have hrisk := KillSwitch.step_risk hk hone
      exact ⟨hrisk ▸ h.wired, h.secured.step hl hone, hrisk.trans h.risk⟩
  | network _ | send | take | fill | mirror | record _ =>
      have hsame : p'.switch = p.switch := (Option.some.inj hswitch).symm
      exact ⟨hsame ▸ h.wired, hsame ▸ h.secured, hsame ▸ h.risk⟩

/-- **A halt freezes trading.**  Take any run of the program to a state in which a halt is secured
(`KillSwitch.Secured`), and let it run on, until a resume starts or the file is removed by hand.  Every
order the strategy makes is refused by the kill switch and leaves no trace in the checker; the orders
executed are those that were in flight, in order and at most 66; and the account the program settles to
does not move. -/
theorem halt_freezes_trading (symbol : String) (depthLevels : Nat) (strat : σ) (risk : RiskChecker)
    (initialCapitalUsdt feePct : ℚ) (haltFile : Bool) (timeoutSecs startMs : Nat)
    (ls ms : List Label) (p p' : Program σ)
    (hrun : machine.exec (init symbol depthLevels strat risk initialCapitalUsdt feePct haltFile
      timeoutSecs startMs) ls = some p)
    (hsecured : p.switch.Secured) (hwindow : ∀ m ∈ ms, m.Window)
    (hlater : machine.exec p ms = some p') :
    let executed := machine.outputs executedOf p ms
    (∀ d ∈ machine.outputs decisionsOf p ms,
      d.outcome = (.err .killSwitch, p.pipeline.path.risk)) ∧
    p'.pipeline.path.risk = p.pipeline.path.risk ∧
    p.pipeline.path.pending = executed ++ p'.pipeline.path.pending ∧
    executed.length ≤ 66 ∧
    p'.pipeline.path.account
      = settle PaperAccount.applyOrder p.pipeline.path.account executed ∧
    p'.pipeline.path.settled = p.pipeline.path.settled := by
  intro executed
  have hwired : p.switch.risk.hasHaltFlag = true :=
    KillSwitch.machine.exec_invariant_of_step (I := fun s => s.risk.hasHaltFlag = true)
      (fun _ _ _ h hstep => (KillSwitch.hasHaltFlag_step hstep).trans h) rfl (toSwitch.exec hrun)
  have hstart : Halted p.pipeline.path.risk p := ⟨hwired, hsecured, rfl⟩
  have hguard : machine.Guarded (fun _ l => Label.Window l) p ms :=
    machine.guarded_of_forall (fun _ m hm => hwindow m hm) p
  have hdecided : Halted p.pipeline.path.risk p' ∧
      ∀ d ∈ machine.outputs decisionsOf p ms,
        d.outcome = (.err .killSwitch, p.pipeline.path.risk) := by
    refine machine.exec_history_guarded (I := fun (q : Program σ) (decided : List Decision) =>
      Halted p.pipeline.path.risk q ∧
      ∀ d ∈ decided, d.outcome = (.err .killSwitch, p.pipeline.path.risk)) ?_ ⟨hstart, ?_⟩ hguard
      hlater
    · rintro q l q' decided ⟨hq, hrefused⟩ hl hstep
      refine ⟨hq.step hl hstep, ?_⟩
      intro d hd
      rcases List.mem_append.mp hd with hd | hd
      · exact hrefused d hd
      · exact hq.outcome (Option.mem_toList.mp hd)
    · exact fun _ h => absurd h List.not_mem_nil
  have horders : Halted p.pipeline.path.risk p' ∧
      p.pipeline.path.pending = executed ++ p'.pipeline.path.pending ∧
      p'.pipeline.path.account
        = settle PaperAccount.applyOrder p.pipeline.path.account executed := by
    refine machine.exec_history_guarded (I := fun (q : Program σ) (executed : List ValidatedOrder) =>
      Halted p.pipeline.path.risk q ∧
      p.pipeline.path.pending = executed ++ q.pipeline.path.pending ∧
      q.pipeline.path.account
        = settle PaperAccount.applyOrder p.pipeline.path.account executed) ?_ ⟨hstart, rfl, rfl⟩
      hguard hlater
    rintro q l q' executed ⟨hq, hpending, hacct⟩ hl hstep
    -- no order is approved, so the queue only gets shorter
    have hnone : (q.decision l).bind Decision.order = none := by
      cases hd : q.decision l with
      | none => rfl
      | some d =>
          show d.order = none
          unfold Decision.order
          rw [hq.outcome hd]
    obtain ⟨hqueue, hacct'⟩ := orders_step hstep
    rw [hnone, Option.toList_none, List.append_nil] at hqueue
    refine ⟨hq.step hl hstep, ?_, ?_⟩
    · rw [hpending, hqueue, List.append_assoc]
    · rw [hacct', hacct, settle_append]
  obtain ⟨hend, hrefused⟩ := hdecided
  obtain ⟨-, hpending, hacct⟩ := horders
  refine ⟨hrefused, hend.risk, hpending, ?_, hacct, ?_⟩
  · have hlength := Pipeline.pending_length (orders_length_of_run hrun)
    rw [hpending, List.length_append] at hlength
    show executed.length ≤ 64 + 2
    exact (Nat.le_add_right _ _).trans hlength
  · rw [OrderPath.settled, OrderPath.settled, hacct, hpending, settle_append]

/-- An order on its way when the halt comes: it is executed, and that is all. -/
theorem order_in_flight_at_halt :
    ∃ p p' : Program PingPongStrategy,
      machine.exec (init "BTCUSDT" 20 PingPongStrategy.default (RiskChecker.new 1 0 1 5) 10000 0
        false 30 0) (firstMessages "100" "100.01" ++ [.handle 0 0 "a", .handle 0 0 "b",
          .switch .haltStart, .switch (.haltWrite 0 true), .switch (.haltStore 0)]) = some p ∧
      machine.exec p [.switch (.haltReturn 0), .send, .take, .fill, .mirror, .record "t"] = some p' ∧
      p'.pipeline.path.account = p.pipeline.path.settled := by
  have hsome : ((machine.exec (init "BTCUSDT" 20 PingPongStrategy.default
      (RiskChecker.new 1 0 1 5) 10000 0 false 30 0) (firstMessages "100" "100.01" ++
        [.handle 0 0 "a", .handle 0 0 "b", .switch .haltStart, .switch (.haltWrite 0 true),
          .switch (.haltStore 0)])).any fun p =>
      (p.switch.haltFlag = true ∧ p.switch.haltFile = true ∧ p.switch.poller ≠ some false ∧
        p.switch.resumes = []) ∧
      (machine.exec p [.switch (.haltReturn 0), .send, .take, .fill, .mirror, .record "t"]).any fun p' =>
        p'.pipeline.path.pending = []) = true := by decide +kernel
  obtain ⟨p, hrun, hsecured⟩ := (Option.any_eq_true _ _).mp hsome
  obtain ⟨⟨hflag, hfile, hpoller, hresumes⟩, hlater⟩ := of_decide_eq_true hsecured
  obtain ⟨p', hexec, hempty⟩ := (Option.any_eq_true _ _).mp hlater
  obtain ⟨-, -, -, -, -, hsettled⟩ := halt_freezes_trading _ _ _ _ _ _ _ _ _ _ _ p p' hrun
    ⟨hflag, hfile, hpoller, hresumes⟩
    (by
      intro m hm
      simp only [List.mem_cons, List.not_mem_nil, or_false] at hm
      rcases hm with rfl | rfl | rfl | rfl | rfl | rfl
      · exact ⟨by simp, by simp⟩
      all_goals trivial) hexec
  refine ⟨p, p', hrun, hexec, ?_⟩
  rw [← hsettled]
  exact (OrderPath.settled_of_pending_nil (of_decide_eq_true hempty)).symm

end Program

end CryptoTrader
