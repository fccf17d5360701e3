/-
# CryptoTrader.Progress — the program never gets stuck, and trading never holds up the feed.

Two bounded channels meet in the order book thread: it takes from one and puts into the other, and it
stands still while the other is full.  The executor at the far end waits for nobody, so whatever is
queued is worked off: `work` counts the steps that takes, and every step of the two threads brings it
down.  A run of them ends, and it can only end with both channels empty.

Seen from the network the wait does not show.  Any run the actors around the market channel could
take if there were no trading at all, they can take with it: before each message the executor is let
to make room (`exists_feed_run`).
-/
import CryptoTrader.Program

namespace CryptoTrader

open Lib Lib.Deferred

namespace OrderPath

/-- A draining step leaves less to do. -/
theorem backlog_lt {path path' : OrderPath} {l : Label} (hl : l.Draining)
    (h : path.step l = some path') : path'.backlog < path.backlog := by
  cases l with
  | check _ _ _ _ | setHalt _ | publish _ => exact hl.elim
  | send =>
      simp only [step] at h
      split at h
      · next order hsending =>
          obtain ⟨-, rfl⟩ := Option.ite_some_none_eq_some.mp h
          simp only [backlog, hsending, List.length_append, List.length_singleton,
            Option.toList_none, Option.toList_some, List.length_nil]
          omega
      · cases h
  | take =>
      simp only [step] at h
      split at h
      · next order orders htask horders =>
          obtain rfl := Option.some.inj h
          simp only [backlog, htask, horders, List.length_cons]
          omega
      · cases h
  | fill | mirror | record _ =>
      simp only [step] at h
      split at h
      · next order htask =>
          obtain rfl := Option.some.inj h
          simp only [backlog, htask]
          omega
      · cases h

/-- Without a backlog nothing is in flight and the executor is idle. -/
theorem backlog_eq_zero {path : OrderPath} (h : path.backlog = 0) :
    path.pending = [] ∧ path.task = .idle := by
  obtain ⟨risk, shared, sending, orders, executor, task⟩ := path
  unfold backlog at h
  have horders : orders = [] := by
    apply List.eq_nil_of_length_eq_zero
    dsimp only at h
    omega
  have hsending : sending = none := by
    cases sending with
    | none => rfl
    | some order => simp at h
  have htask : task = .idle := by
    cases task with
    | idle => rfl
    | taken order => simp at h
    | filled order => simp at h
    | mirrored order => simp at h
  subst horders hsending htask
  exact ⟨rfl, rfl⟩

/-- A backlog can always be worked on. -/
theorem exists_draining_step_of_backlog {path : OrderPath} (h : path.backlog ≠ 0) :
    ∃ l path', l.Draining ∧ path.step l = some path' := by
  by_cases hpending : path.pending = []
  · -- nothing to send, take or fill: the executor has still to mirror or to record
    cases htask : path.task with
    | taken order => simp [pending, htask, ExecTask.held] at hpending
    | filled order =>
        exact ⟨.mirror, _, trivial, by simp only [step, htask]; rfl⟩
    | mirrored order =>
        exact ⟨.record "", _, trivial, by simp only [step, htask]; rfl⟩
    | idle =>
        have hnone : path.orders = [] ∧ path.sending = none := by
          simpa [pending, htask, ExecTask.held] using hpending
        simp [backlog, htask, hnone.1, hnone.2] at h
  · obtain ⟨l, path', hl, hstep, -⟩ := exists_draining_step hpending
    exact ⟨l, path', hl, hstep⟩

end OrderPath

namespace Program

variable {σ : Type} [Strategy σ]

/-! ## §1 The work that is left -/

/-- A step of the order book thread or of the executor. -/
def Label.Internal : Label → Prop
  | .handle _ _ _ | .send | .take | .fill | .mirror | .record _ => True
  | _ => False

/-- A step of the executor, or the send. -/
def Label.Order (l : Label) : Prop := l.order?.isSome = true

/-- How many steps of these threads the queued messages and orders are worth at most. -/
def work (p : Program σ) : Nat := 6 * p.network.market.length + p.pipeline.path.backlog

/-- The order path's share of a step of the executor or of the send. -/
theorem order_path {p p' : Program σ} {l : Label} (h : p.step l = some p') (hl : l.Order) :
    p'.network = p.network ∧ ∃ m path, p.pipeline.path.step m = some path ∧
      OrderPath.Label.Draining m ∧ p'.pipeline.path.backlog = path.backlog := by
  obtain ⟨m, hm⟩ := Option.isSome_iff_exists.mp hl
  obtain ⟨pipeline, hstep, rfl⟩ := order_spec h hm
  refine ⟨rfl, ?_⟩
  cases l with
  | send =>
      obtain rfl := Option.some.inj hm
      obtain ⟨path, hpath, rfl⟩ := Option.map_eq_some_iff.mp hstep
      refine ⟨.send, path, hpath, trivial, ?_⟩
      cases p.pipeline.toPublish <;> rfl
  | take | fill | mirror | record _ =>
      obtain rfl := Option.some.inj hm
      obtain ⟨path, hpath, rfl⟩ := Option.map_eq_some_iff.mp hstep
      exact ⟨_, path, hpath, trivial, rfl⟩
  | handle _ _ _ | network _ | switch _ => cases hm

/-- **One step**: the two threads bring the work down. -/
theorem work_lt {p p' : Program σ} {l : Label} (hl : l.Internal) (h : p.step l = some p') :
    p'.work < p.work := by
  cases l with
  | handle nowMs now uuid =>
      obtain ⟨message, market, hmarket, hidle, rfl⟩ := handle_spec h
      obtain ⟨-, view, hpath⟩ := Pipeline.event_spec hidle message.2 nowMs now uuid
      -- a message less, and at most one order more
      have hone : ∀ order : Option ValidatedOrder, order.toList.length ≤ 1 := by
        intro order
        cases order <;> simp
      have horder := hone ((p.pipeline.decision (.event message.2 nowMs now uuid)).bind
        Decision.order)
      simp only [work, hpath, hmarket, OrderPath.backlog, OrderPath.withView, hidle,
        List.length_cons, Option.toList_none, List.length_nil]
      omega
  | send | take | fill | mirror | record _ =>
      obtain ⟨hnetwork, m, path, hstep, hm, hbacklog⟩ := order_path h rfl
      have hless := OrderPath.backlog_lt hm hstep
      simp only [work, hnetwork, hbacklog]
      omega
  | network _ | switch _ => exact hl.elim

/-- What the order path can do the program can do. -/
theorem exists_order_step {p : Program σ} (h : p.pipeline.path.backlog ≠ 0) :
    ∃ l p', Label.Order l ∧ p.step l = some p' := by
  obtain ⟨m, path, hm, hstep⟩ := OrderPath.exists_draining_step_of_backlog h
  cases m with
  | check _ _ _ _ | setHalt _ | publish _ => exact hm.elim
  | send => exact ⟨.send, _, rfl, by simp only [step, Pipeline.step, hstep, Option.map_some]; rfl⟩
  | take => exact ⟨.take, _, rfl, by simp only [step, Pipeline.step, hstep, Option.map_some]; rfl⟩
  | fill => exact ⟨.fill, _, rfl, by simp only [step, Pipeline.step, hstep, Option.map_some]; rfl⟩
  | mirror =>
      exact ⟨.mirror, _, rfl, by simp only [step, Pipeline.step, hstep, Option.map_some]; rfl⟩
  | record timestamp =>
      exact ⟨.record timestamp, _, rfl,
        by simp only [step, Pipeline.step, hstep, Option.map_some]; rfl⟩

/-- The order book thread can handle a message when it is not sending. -/
theorem exists_handle_step {p : Program σ} {message : Sender × MarketEvent}
    {market : List (Sender × MarketEvent)} (hmarket : p.network.market = message :: market)
    (hidle : p.pipeline.path.sending = none) : ∃ p', p.step (.handle 0 0 "") = some p' := by
  simp only [step, hmarket, Pipeline.step, if_pos hidle, Option.map_some]
  exact ⟨_, rfl⟩

/-- As long as there is work, one of the two threads can take a step. -/
theorem exists_internal_step {p : Program σ} (h : p.work ≠ 0) :
    ∃ l p', Label.Internal l ∧ p.step l = some p' := by
  by_cases hbacklog : p.pipeline.path.backlog = 0
  · -- nothing is being sent, so the thread is free for the next message
    obtain ⟨hpending, -⟩ := OrderPath.backlog_eq_zero hbacklog
    have hidle : p.pipeline.path.sending = none := by
      simp only [OrderPath.pending, List.append_eq_nil_iff] at hpending
      cases hsending : p.pipeline.path.sending with
      | none => rfl
      | some order => simp [hsending] at hpending
    cases hmarket : p.network.market with
    | nil => simp [work, hbacklog, hmarket] at h
    | cons message market =>
        obtain ⟨p', hstep⟩ := exists_handle_step hmarket hidle
        exact ⟨.handle 0 0 "", p', trivial, hstep⟩
  · obtain ⟨l, p', hl, hstep⟩ := exists_order_step hbacklog
    refine ⟨l, p', ?_, hstep⟩
    cases l with
    | network _ | switch _ => cases hl
    | _ => trivial

/-! ## §2 The bounds of the channels -/

end Program

/-- The market channel is bounded. -/
theorem SyncSystem.market_length_step {s s' : SyncSystem} {l : SyncSystem.Label}
    (h : s.market.length ≤ marketChannelCap) (hstep : s.step l = some s') :
    s'.market.length ≤ marketChannelCap := by
  have hroom : s.hasRoom = true → ∀ sender event,
      (s.enqueue sender event).market.length ≤ marketChannelCap := by
    intro hroom sender event
    have hlt : s.market.length < marketChannelCap := of_decide_eq_true hroom
    show (s.market ++ [(sender, event)]).length ≤ marketChannelCap
    rw [List.length_append, List.length_singleton]
    omega
  cases l with
  | handle =>
      simp only [SyncSystem.step] at hstep
      split at hstep
      · next message market hmarket =>
          obtain rfl := Option.some.inj hstep
          rw [hmarket, List.length_cons] at h
          show market.length ≤ marketChannelCap
          omega
      · cases hstep
  | receive event =>
      obtain ⟨⟨-, hr, -⟩, rfl⟩ := Option.ite_some_none_eq_some.mp hstep
      exact hroom hr .ingestion event
  | sendReconnect =>
      obtain ⟨⟨-, hr⟩, rfl⟩ := Option.ite_some_none_eq_some.mp hstep
      exact hroom hr .ingestion .reconnect
  | initialSend i =>
      obtain ⟨snapshot, -, hr, rfl⟩ := initialSend_eq_some hstep
      exact hroom hr .snapshotTask _
  | pollerSend j =>
      obtain ⟨snapshot, -, hr, rfl⟩ := pollerSend_eq_some hstep
      exact hroom hr .snapshotTask _
  | watchdogSend =>
      obtain ⟨⟨-, hr⟩, rfl⟩ := Option.ite_some_none_eq_some.mp hstep
      exact hroom hr .watchdog .reconnect
  | watchdogWake =>
      obtain ⟨watchdog, rfl⟩ := watchdogWake_eq_some hstep
      exact h
  | clock nowMs =>
      obtain rfl := Option.some.inj hstep
      exact h
  | _ =>
      obtain ⟨-, rfl⟩ := Option.ite_some_none_eq_some.mp hstep
      exact h

namespace Program

variable {σ : Type} [Strategy σ]

section

variable {symbol : String} {depthLevels : Nat} {strat : σ} {risk : RiskChecker}
  {initialCapitalUsdt feePct : ℚ} {haltFile : Bool} {timeoutSecs startMs : Nat} {ls : List Label}
  {p : Program σ}

theorem market_length_of_run
    (hrun : machine.exec (init symbol depthLevels strat risk initialCapitalUsdt feePct haltFile
      timeoutSecs startMs) ls = some p) : p.network.market.length ≤ marketChannelCap :=
  SyncSystem.machine.exec_invariant_of_step (I := fun s => s.market.length ≤ marketChannelCap)
    (fun _ _ _ h hstep => SyncSystem.market_length_step h hstep) (Nat.zero_le _)
    (toSync.exec hrun)

theorem orders_length_of_run
    (hrun : machine.exec (init symbol depthLevels strat risk initialCapitalUsdt feePct haltFile
      timeoutSecs startMs) ls = some p) : p.pipeline.path.orders.length ≤ orderChannelCap :=
  Pipeline.machine.exec_invariant_of_step
    (I := fun s : Pipeline σ => s.path.orders.length ≤ orderChannelCap)
    (fun _ _ _ h hstep => Pipeline.orders_length_step h hstep) (Nat.zero_le _)
    (toPipeline.exec hrun)

/-- Two full channels are worth 6408 steps. -/
theorem work_le_of_run
    (hrun : machine.exec (init symbol depthLevels strat risk initialCapitalUsdt feePct haltFile
      timeoutSecs startMs) ls = some p) : p.work ≤ 6408 := by
  have hmarket := market_length_of_run hrun
  have horders := orders_length_of_run hrun
  have hsending : p.pipeline.path.sending.toList.length ≤ 1 := by
    cases p.pipeline.path.sending <;> simp
  simp only [work, OrderPath.backlog, marketChannelCap, orderChannelCap] at hmarket horders ⊢
  cases p.pipeline.path.task <;> simp only <;> omega

end

/-- **Everything queued is worked off.**  From every state that the program reaches, with nothing new
coming in: each step of the order book thread or of the executor brings the work down, so that the two
take at most 6408 steps; and where neither can take a step, no message is queued, no order is in
flight, the executor is idle and the account has settled.  So no interleaving of the bounded channels
is a deadlock. -/
theorem internal_runs_finish (symbol : String) (depthLevels : Nat) (strat : σ) (risk : RiskChecker)
    (initialCapitalUsdt feePct : ℚ) (haltFile : Bool) (timeoutSecs startMs : Nat) (ls : List Label)
    (p : Program σ)
    (hrun : machine.exec (init symbol depthLevels strat risk initialCapitalUsdt feePct haltFile
      timeoutSecs startMs) ls = some p) :
    (∀ ms p', (∀ m ∈ ms, Label.Internal m) → machine.exec p ms = some p' →
      ms.length + p'.work ≤ 6408 ∧
      ((∀ l, l.Internal → p'.step l = none) →
        p'.network.market = [] ∧ p'.pipeline.path.pending = [] ∧ p'.pipeline.path.task = .idle ∧
          p'.pipeline.path.account = p'.pipeline.path.settled)) ∧
    ∃ ms p', (∀ m ∈ ms, Label.Internal m) ∧ machine.exec p ms = some p' ∧
      ∀ l, l.Internal → p'.step l = none := by
  refine ⟨?_, ?_⟩
  · intro ms p' hms hexec
    refine ⟨?_, fun hstuck => ?_⟩
    · have hbound := machine.length_add_le (K := Label.Internal) (W := work)
        (fun _ _ _ hl hstep => work_lt hl hstep) hms hexec
      exact hbound.trans (work_le_of_run hrun)
    · have hzero : p'.work = 0 := by
        by_contra hwork
        obtain ⟨l, p'', hl, hstep⟩ := exists_internal_step hwork
        rw [hstuck l hl] at hstep
        cases hstep
      obtain ⟨hmarket, hbacklog⟩ := Nat.add_eq_zero_iff.mp hzero
      obtain ⟨hpending, htask⟩ := OrderPath.backlog_eq_zero hbacklog
      refine ⟨List.eq_nil_of_length_eq_zero (by omega), hpending, htask, ?_⟩
      exact (OrderPath.settled_of_pending_nil hpending).symm
  · obtain ⟨ms, p', hms, hexec, hzero⟩ := machine.exists_finished (K := Label.Internal)
      (D := fun p : Program σ => p.work = 0) (fun _ _ _ hl hstep => work_lt hl hstep)
      (fun _ h => exists_internal_step h) p
    refine ⟨ms, p', hms, hexec, ?_⟩
    intro l hl
    cases hstep : p'.step l with
    | none => rfl
    | some p'' =>
        have hless := work_lt hl hstep
        omega

/-- Two messages queued, and a run of the two threads that works them off. -/
theorem first_messages_worked_off :
    ∃ p p' : Program PingPongStrategy,
      machine.exec (init "BTCUSDT" 20 PingPongStrategy.default (RiskChecker.new 1 0 1 5) 10000 0
        false 30 0) (firstMessages "100" "100.01") = some p ∧
      p.network.market.length = 2 ∧ machine.Reaches p p' ∧ p'.network.market = [] := by
  have hsome : ((machine.exec (init "BTCUSDT" 20 PingPongStrategy.default
      (RiskChecker.new 1 0 1 5) 10000 0 false 30 0) (firstMessages "100" "100.01")).any fun p =>
        p.network.market.length = 2) = true := by decide +kernel
  obtain ⟨p, hrun, hqueued⟩ := (Option.any_eq_true _ _).mp hsome
  obtain ⟨hends, ms, p', hms, hexec, hstuck⟩ := internal_runs_finish _ _ _ _ _ _ _ _ _ _ p hrun
  exact ⟨p, p', hrun, of_decide_eq_true hqueued, ⟨ms, hexec⟩, ((hends ms p' hms hexec).2 hstuck).1⟩

/-! ## §3 The feed does not wait for trading -/

/-- The executor can make room for the send, and nobody else notices. -/
theorem exists_idle (p : Program σ) :
    ∃ ms p', machine.exec p ms = some p' ∧ (∀ m ∈ ms, Label.Order m) ∧
      p'.pipeline.path.sending = none ∧ p'.sync = p.sync ∧ toSync.trace p ms = [] := by
  obtain ⟨ms, p', hms, hexec, hidle⟩ := machine.exists_finished (K := Label.Order)
    (D := fun p : Program σ => p.pipeline.path.sending = none)
    (W := fun p => p.pipeline.path.backlog) (by
      intro p l p' hl hstep
      obtain ⟨-, m, path, hpath, hm, hbacklog⟩ := order_path hstep hl
      rw [hbacklog]
      exact OrderPath.backlog_lt hm hpath) (by
      intro p hsending
      refine exists_order_step ?_
      intro hzero
      obtain ⟨hpending, -⟩ := OrderPath.backlog_eq_zero hzero
      simp only [OrderPath.pending, List.append_eq_nil_iff] at hpending
      cases h : p.pipeline.path.sending with
      | none => exact hsending h
      | some order => simp [h] at hpending) p
  refine ⟨ms, p', hexec, hms, hidle, ?_, ?_⟩
  · refine machine.exec_invariant (C := fun _ l => Label.Order l) (I := fun t => t.sync = p.sync)
      ?_ rfl (machine.guarded_of_forall (fun _ m hm => hms m hm) p) hexec
    intro t l t' hsync hl hstep
    obtain ⟨m, hm⟩ := Option.isSome_iff_exists.mp hl
    obtain ⟨-, -, -, hsame, -⟩ := order_frame hstep hm
    exact hsame.trans hsync
  · refine machine.outputs_eq_nil ?_ p
    intro t l hl
    cases l with
    | handle _ _ _ | network _ | switch _ => cases hms _ hl
    | _ => rfl

/-- A step of the network that handles no message is a step of the program. -/
theorem network_step {p : Program σ} {k : SyncSystem.Label} {s : SyncSystem} (hk : k ≠ .handle)
    (h : p.sync.step k = some s) : p.step (.network k) = some (p.withSync s) := by
  cases k with
  | handle => exact absurd rfl hk
  | _ => simp only [step, h, Option.map_some]

/-- One step of the network, after the executor has made room if that is what it takes. -/
theorem exists_network_step {p : Program σ} {k : SyncSystem.Label} {s : SyncSystem}
    (h : p.sync.step k = some s) :
    ∃ ls p', machine.exec p ls = some p' ∧ toSync.trace p ls = [k] ∧ p'.sync = s ∧
      ∀ l, .switch l ∉ ls := by
  -- a run that looks like this one step does what the step does
  have hend : ∀ {ls p'}, machine.exec p ls = some p' → toSync.trace p ls = [k] → p'.sync = s := by
    intro ls p' hexec htrace
    have hsync := toSync.exec hexec
    rw [htrace, Machine.exec_singleton] at hsync
    exact Option.some.inj (hsync.symm.trans h)
  by_cases hk : k = .handle
  · subst hk
    obtain ⟨ms, mid, hms, horder, hidle, hsame, hnone⟩ := exists_idle p
    cases hmarket : mid.network.market with
    | nil =>
        rw [← hsame] at h
        simp [SyncSystem.step, sync, hmarket] at h
    | cons message market =>
        obtain ⟨p', hstep⟩ := exists_handle_step hmarket hidle
        have hexec : machine.exec p (ms ++ [.handle 0 0 ""]) = some p' :=
          machine.exec_trans hms ((machine.exec_singleton mid _).trans hstep)
        have htrace : toSync.trace p (ms ++ [.handle 0 0 ""]) = [.handle] := by
          rw [toSync.trace_append hms, hnone, List.nil_append]
          exact toSync.trace_singleton hstep
        refine ⟨_, p', hexec, htrace, hend hexec htrace, ?_⟩
        intro l hl
        rcases List.mem_append.mp hl with hl | hl
        · cases horder _ hl
        · cases List.mem_singleton.mp hl
  · have hexec : machine.exec p [.network k] = some (p.withSync s) :=
      (machine.exec_singleton p _).trans (network_step hk h)
    have htrace : toSync.trace p [.network k] = [k] :=
      toSync.trace_singleton (network_step hk h)
    exact ⟨_, _, hexec, htrace, hend hexec htrace, fun l hl => by cases List.mem_singleton.mp hl⟩

/-- And so for whole runs of the network. -/
theorem exists_feed_run {p : Program σ} {ks : List SyncSystem.Label} {s : SyncSystem}
    (h : SyncSystem.machine.exec p.sync ks = some s) :
    ∃ ls p', machine.exec p ls = some p' ∧ toSync.trace p ls = ks ∧ p'.sync = s ∧
      ∀ l, .switch l ∉ ls := by
  induction ks generalizing p with
  | nil => exact ⟨[], p, rfl, rfl, Option.some.inj h, fun l hl => absurd hl List.not_mem_nil⟩
  | cons k ks ih =>
      obtain ⟨mid, hstep, hrest⟩ := SyncSystem.machine.exec_cons_eq_some.mp h
      obtain ⟨ls, p₁, hexec, htrace, rfl, hls⟩ := exists_network_step hstep
      obtain ⟨ls', p', hexec', htrace', hsync', hls'⟩ := ih hrest
      refine ⟨ls ++ ls', p', machine.exec_trans hexec hexec', ?_, hsync', ?_⟩
      · rw [toSync.trace_append hexec, htrace, htrace']
        rfl
      · intro l hl
        rcases List.mem_append.mp hl with hl | hl
        · exact hls l hl
        · exact hls' l hl

/-- **Trading never holds up the feed.**  The runs of the book and of the actors around the market
channel are the same with trading and without: every run of the program is one of theirs, and every
run of theirs is what some run of the program, in which nobody touches the kill switch, looks like to
them, step for step.  This presumes that the blocking receive of the executor does not hold the only
worker of the runtime, on which the tasks around the channel run as well. -/
theorem feed_runs_with_trading (p : Program σ) :
    (∀ ls p', machine.exec p ls = some p' →
      SyncSystem.machine.exec p.sync (toSync.trace p ls) = some p'.sync) ∧
    ∀ ks s, SyncSystem.machine.exec p.sync ks = some s →
      ∃ ls p', machine.exec p ls = some p' ∧ toSync.trace p ls = ks ∧ p'.sync = s ∧
        ∀ l, .switch l ∉ ls :=
  ⟨fun _ _ hrun => toSync.exec hrun, fun _ _ h => exists_feed_run h⟩

end Program

end CryptoTrader
