/-
# CryptoTrader.Program — all the threads of `main.rs` at once.

The other modules each look at a part: the order book thread with the order path (`Pipeline`), the
actors around the market channel (`SyncSystem`), the kill switch and its writers (`KillSwitch`).  In
the program they run together and share the book, the two flags and the risk checker.  `Program`
holds the state of all of them once; the parts are read off it (`sync`, `switch`), and every step of
the program is a step of each part that it concerns, and of no concern to the others.  So every run
of the program is a run of each part (`toPipeline`, `toSync`, `toSwitch`).

The one thing the parts do not know of each other is that the order book thread stands still while an
approved order waits for room in its channel.
-/
import CryptoTrader.KillSwitch
import CryptoTrader.Recovery
import CryptoTrader.ViewHistory
import CryptoTrader.Lib.Refinement

namespace CryptoTrader

open Lib Lib.Deferred

/-! ## §1 The program -/

/-- What the actors around the market channel keep, besides the book and its flag. -/
structure Network where
  market : List (Sender × MarketEvent)
  ingestion : IngestionPhase
  initialTasks : List Fetch
  pollers : List Poller
  watchdog : WatchdogPhase
  nowMs : Nat
  lastSeenMs : Nat
  timeoutMs : Nat

/-- What the writers of the kill switch keep, besides the flag. -/
structure HaltActors where
  haltFile : Bool
  poller : Option Bool
  halts : List HaltCall
  resumes : List ResumeCall

structure Program (σ : Type) where
  pipeline : Pipeline σ
  network : Network
  haltActors : HaltActors

namespace Program

variable {σ : Type} [Strategy σ]

def init (symbol : String) (depthLevels : Nat) (strat : σ) (risk : RiskChecker)
    (initialCapitalUsdt feePct : ℚ) (haltFile : Bool) (timeoutSecs startMs : Nat) :
    Program σ where
  pipeline := Pipeline.init symbol depthLevels strat risk initialCapitalUsdt feePct haltFile
  network :=
    { market := []
      ingestion := .connecting
      initialTasks := []
      pollers := []
      watchdog := .sleeping
      nowMs := startMs
      lastSeenMs := startMs
      timeoutMs := timeoutSecs * 1000 }
  haltActors := { haltFile := haltFile, poller := none, halts := [], resumes := [] }

/-- The book, its flag and the actors around the market channel. -/
def sync (p : Program σ) : SyncSystem where
  book := p.pipeline.book
  resyncNeeded := p.pipeline.resyncNeeded
  market := p.network.market
  ingestion := p.network.ingestion
  initialTasks := p.network.initialTasks
  pollers := p.network.pollers
  watchdog := p.network.watchdog
  nowMs := p.network.nowMs
  lastSeenMs := p.network.lastSeenMs
  timeoutMs := p.network.timeoutMs

/-- A step of those actors: of the order book thread's state they write the flag only. -/
def withSync (p : Program σ) (s : SyncSystem) : Program σ :=
  { p with
    pipeline := { p.pipeline with resyncNeeded := s.resyncNeeded }
    network :=
      { market := s.market
        ingestion := s.ingestion
        initialTasks := s.initialTasks
        pollers := s.pollers
        watchdog := s.watchdog
        nowMs := s.nowMs
        lastSeenMs := s.lastSeenMs
        timeoutMs := s.timeoutMs } }

/-- The checker, the flag it reads and the writers of the flag. -/
def switch (p : Program σ) : KillSwitch where
  risk := p.pipeline.path.risk
  haltFlag := p.pipeline.path.shared.haltFlag
  haltFile := p.haltActors.haltFile
  poller := p.haltActors.poller
  halts := p.haltActors.halts
  resumes := p.haltActors.resumes

/-- A step of those writers. -/
def withSwitch (p : Program σ) (s : KillSwitch) : Program σ :=
  { p with
    pipeline := { p.pipeline with path := { p.pipeline.path with
      shared := { p.pipeline.path.shared with haltFlag := s.haltFlag } } }
    haltActors :=
      { haltFile := s.haltFile
        poller := s.poller
        halts := s.halts
        resumes := s.resumes } }

/-- The order book thread handles the message at the front, or sends an order; the executor takes its
four steps; every other actor takes a step of its own. -/
inductive Label where
  | handle (nowMs : UInt64) (now : Nat) (uuid : String)
  | send
  | take
  | fill
  | mirror
  | record (timestamp : String)
  | network (l : SyncSystem.Label)
  | switch (l : KillSwitch.Label)

def step (p : Program σ) : Label → Option (Program σ)
  | .handle nowMs now uuid =>
      match p.network.market with
      | message :: market =>
          (p.pipeline.step (.event message.2 nowMs now uuid)).map fun pipeline =>
            { p with pipeline := pipeline, network := { p.network with market := market } }
      | [] => none
  | .send => (p.pipeline.step .send).map fun pipeline => { p with pipeline := pipeline }
  | .take => (p.pipeline.step .take).map fun pipeline => { p with pipeline := pipeline }
  | .fill => (p.pipeline.step .fill).map fun pipeline => { p with pipeline := pipeline }
  | .mirror => (p.pipeline.step .mirror).map fun pipeline => { p with pipeline := pipeline }
  | .record timestamp =>
      (p.pipeline.step (.record timestamp)).map fun pipeline => { p with pipeline := pipeline }
  -- messages are handled above
  | .network .handle => none
  | .network l => (p.sync.step l).map p.withSync
  -- and so are checks
  | .switch (.check ..) => none
  | .switch l => (p.switch.step l).map p.withSwitch

def machine : Machine (Program σ) Label := ⟨step⟩

/-! ## §2 What a step is to each part -/

/-- The step of the order path that a label stands for, and the label of the main loop. -/
def Label.order? : Label → Option Pipeline.Label
  | .send => some .send
  | .take => some .take
  | .fill => some .fill
  | .mirror => some .mirror
  | .record timestamp => some (.record timestamp)
  | _ => none

theorem handle_spec {p p' : Program σ} {nowMs : UInt64} {now : Nat} {uuid : String}
    (h : p.step (.handle nowMs now uuid) = some p') :
    ∃ message market, p.network.market = message :: market ∧ p.pipeline.path.sending = none ∧
      p' = { p with
        pipeline := p.pipeline.onEvent message.2 nowMs now uuid
        network := { p.network with market := market } } := by
  simp only [step] at h
  split at h
  · next message market hmarket =>
      obtain ⟨pipeline, hstep, rfl⟩ := Option.map_eq_some_iff.mp h
      obtain ⟨hidle, rfl⟩ := Option.ite_some_none_eq_some.mp hstep
      exact ⟨message, market, hmarket, hidle, rfl⟩
  · cases h

theorem order_spec {p p' : Program σ} {l : Label} {m : Pipeline.Label}
    (h : p.step l = some p') (hl : l.order? = some m) :
    ∃ pipeline, p.pipeline.step m = some pipeline ∧ p' = { p with pipeline := pipeline } := by
  cases l with
  | send | take | fill | mirror | record _ =>
      obtain rfl := Option.some.inj hl
      obtain ⟨pipeline, hstep, rfl⟩ := Option.map_eq_some_iff.mp h
      exact ⟨pipeline, hstep, rfl⟩
  | handle _ _ _ | network _ | switch _ => cases hl

theorem network_spec {p p' : Program σ} {l : SyncSystem.Label} (h : p.step (.network l) = some p') :
    l ≠ .handle ∧ ∃ s, p.sync.step l = some s ∧ p' = p.withSync s := by
  cases l with
  | handle => cases h
  | _ =>
      simp only [step, Option.map_eq_some_iff] at h
      obtain ⟨s, hstep, rfl⟩ := h
      exact ⟨by simp, s, hstep, rfl⟩

theorem switch_spec {p p' : Program σ} {l : KillSwitch.Label} (h : p.step (.switch l) = some p') :
    (∀ signal mid cash now uuid, l ≠ .check signal mid cash now uuid) ∧
      ∃ s, p.switch.step l = some s ∧ p' = p.withSwitch s := by
  cases l with
  | check _ _ _ _ _ => cases h
  | _ =>
      simp only [step, Option.map_eq_some_iff] at h
      obtain ⟨s, hstep, rfl⟩ := h
      exact ⟨by simp, s, hstep, rfl⟩

end Program

/-- Only handling a message changes the book. -/
theorem SyncSystem.step_book {s s' : SyncSystem} {l : SyncSystem.Label} (hl : l ≠ .handle)
    (h : s.step l = some s') : s'.book = s.book := by
  cases l with
  | handle => exact absurd rfl hl
  | initialSend i =>
      obtain ⟨snapshot, -, -, rfl⟩ := initialSend_eq_some h
      rfl
  | pollerSend j =>
      obtain ⟨snapshot, -, -, rfl⟩ := pollerSend_eq_some h
      rfl
  | watchdogWake =>
      obtain ⟨watchdog, rfl⟩ := watchdogWake_eq_some h
      rfl
  | clock nowMs =>
      obtain rfl := Option.some.inj h
      rfl
  | _ =>
      obtain ⟨-, rfl⟩ := Option.ite_some_none_eq_some.mp h
      rfl

/-- Only a check changes the checker. -/
theorem KillSwitch.step_risk {s s' : KillSwitch} {l : KillSwitch.Label}
    (hl : ∀ signal mid cash now uuid, l ≠ .check signal mid cash now uuid)
    (h : s.step l = some s') : s'.risk = s.risk := by
  cases l with
  | check signal mid cash now uuid => exact absurd rfl (hl _ _ _ _ _)
  | pollStore =>
      simp only [KillSwitch.step] at h
      split at h
      · obtain rfl := Option.some.inj h
        rfl
      · cases h
  | haltStart | resumeStart | touchFile | removeFile =>
      obtain rfl := Option.some.inj h
      rfl
  | pollRead | haltWrite _ _ | haltStore _ | haltReturn _ | resumeRemove _ _ | resumeStore _ =>
      obtain ⟨-, rfl⟩ := Option.ite_some_none_eq_some.mp h
      rfl

/-- The executor and the send leave alone what the other parts look at. -/
theorem Pipeline.order_frame {σ : Type} [Strategy σ] {s s' : Pipeline σ} {l : Program.Label}
    {m : Pipeline.Label} (h : s.step m = some s') (hl : l.order? = some m) :
    s'.book = s.book ∧ s'.resyncNeeded = s.resyncNeeded ∧ s'.strat = s.strat ∧
      s'.path.risk = s.path.risk ∧ s'.path.shared.haltFlag = s.path.shared.haltFlag := by
  have hpath : ∀ {m : OrderPath.Label} {path path' : OrderPath}, path.step m = some path' →
      m.Draining → path'.risk = path.risk ∧ path'.shared.haltFlag = path.shared.haltFlag := by
    intro m path path' hstep hm
    cases m with
    | check _ _ _ _ | setHalt _ | publish _ => exact hm.elim
    | send =>
        simp only [OrderPath.step] at hstep
        split at hstep
        · obtain ⟨-, rfl⟩ := Option.ite_some_none_eq_some.mp hstep
          exact ⟨rfl, rfl⟩
        · cases hstep
    | take =>
        simp only [OrderPath.step] at hstep
        split at hstep
        · obtain rfl := Option.some.inj hstep
          exact ⟨rfl, rfl⟩
        · cases hstep
    | fill =>
        simp only [OrderPath.step] at hstep
        split at hstep
        · next order _ =>
            obtain rfl := Option.some.inj hstep
            refine ⟨rfl, ?_⟩
            obtain ⟨signal, id⟩ := order
            cases signal <;> rfl
        · cases hstep
    | mirror =>
        simp only [OrderPath.step] at hstep
        split at hstep
        · next order _ =>
            obtain rfl := Option.some.inj hstep
            refine ⟨rfl, ?_⟩
            cases order.signal <;> rfl
        · cases hstep
    | record timestamp =>
        simp only [OrderPath.step] at hstep
        split at hstep
        · next order _ =>
            obtain rfl := Option.some.inj hstep
            refine ⟨rfl, ?_⟩
            cases PaperTrade.ofOrder order timestamp <;> rfl
        · cases hstep
  cases l with
  | send =>
      obtain rfl := Option.some.inj hl
      obtain ⟨path, hstep, rfl⟩ := Option.map_eq_some_iff.mp h
      obtain ⟨hrisk, hhalt⟩ := hpath hstep trivial
      cases s.toPublish with
      | none => exact ⟨rfl, rfl, rfl, hrisk, hhalt⟩
      | some snapshot => exact ⟨rfl, rfl, rfl, hrisk, hhalt⟩
  | take | fill | mirror | record _ =>
      obtain rfl := Option.some.inj hl
      obtain ⟨path, hstep, rfl⟩ := Option.map_eq_some_iff.mp h
      exact ⟨rfl, rfl, rfl, hpath hstep trivial⟩
  | handle _ _ _ | network _ | switch _ => cases hl

namespace Program

variable {σ : Type} [Strategy σ]

theorem order_frame {p p' : Program σ} {l : Label} {m : Pipeline.Label} (h : p.step l = some p')
    (hl : l.order? = some m) : ∃ pipeline, p.pipeline.step m = some pipeline ∧
      p' = { p with pipeline := pipeline } ∧ p'.sync = p.sync ∧ p'.switch = p.switch ∧
      pipeline.strat = p.pipeline.strat := by
  obtain ⟨pipeline, hstep, rfl⟩ := order_spec h hl
  obtain ⟨hbook, hresync, hstrat, hrisk, hhalt⟩ := Pipeline.order_frame hstep hl
  refine ⟨pipeline, hstep, rfl, ?_, ?_, hstrat⟩
  · simp only [sync, hbook, hresync]
  · simp only [switch, hrisk, hhalt]

/-! ## §3 Every run is a run of each part -/

/-- The decision of a step. -/
def decision (p : Program σ) : Label → Option Decision
  | .handle nowMs now uuid =>
      p.network.market.head?.bind fun message =>
        p.pipeline.decision (.event message.2 nowMs now uuid)
  | _ => none

/-- The main loop among the other threads, which write its two flags. -/
def toPipeline :
    Refinement (machine : Machine (Program σ) Label)
      (Pipeline.machine : Machine (Pipeline σ) Pipeline.Label) where
  abs := pipeline
  labels p l := match l with
    | .handle nowMs now uuid =>
        p.network.market.head?.toList.map fun message => .event message.2 nowMs now uuid
    | .network l => (p.sync.step l).toList.map fun s => .setResync s.resyncNeeded
    | .switch l => (p.switch.step l).toList.map fun s => .setHalt s.haltFlag
    | l => l.order?.toList
  sound := by
    intro p p' l h
    replace h : p.step l = some p' := h
    cases l with
    | handle nowMs now uuid =>
        obtain ⟨message, market, hmarket, hidle, rfl⟩ := handle_spec h
        rw [hmarket]
        exact (Pipeline.machine.exec_singleton _ _).trans (if_pos hidle)
    | network l =>
        obtain ⟨-, s, hstep, rfl⟩ := network_spec h
        simp only [hstep]
        exact Pipeline.machine.exec_singleton p.pipeline (.setResync s.resyncNeeded)
    | switch l =>
        obtain ⟨-, s, hstep, rfl⟩ := switch_spec h
        simp only [hstep]
        exact Pipeline.machine.exec_singleton p.pipeline (.setHalt s.haltFlag)
    | send | take | fill | mirror | record _ =>
        obtain ⟨pipeline, hstep, rfl⟩ := order_spec h rfl
        exact (Pipeline.machine.exec_singleton _ _).trans hstep

/-- The actors around the market channel: trading is of no concern to them. -/
def toSync : Refinement (machine : Machine (Program σ) Label) SyncSystem.machine where
  abs := sync
  labels _ l := match l with
    | .handle _ _ _ => [.handle]
    | .network l => [l]
    | _ => []
  sound := by
    intro p p' l h
    replace h : p.step l = some p' := h
    cases l with
    | handle nowMs now uuid =>
        obtain ⟨message, market, hmarket, -, rfl⟩ := handle_spec h
        have hbook := p.pipeline.onEvent_book message.2 nowMs now uuid
        refine (SyncSystem.machine.exec_singleton _ _).trans ?_
        show SyncSystem.step p.sync .handle = some _
        simp only [SyncSystem.step, sync, hmarket, ← hbook]
    | network l =>
        obtain ⟨hl, s, hstep, rfl⟩ := network_spec h
        refine (SyncSystem.machine.exec_singleton _ _).trans (hstep.trans ?_)
        have hbook : s.book = p.pipeline.book := SyncSystem.step_book hl hstep
        show some s = some { s with book := p.pipeline.book }
        rw [← hbook]
    | switch l =>
        obtain ⟨-, s, -, rfl⟩ := switch_spec h
        rfl
    | send | take | fill | mirror | record _ =>
        obtain ⟨-, -, -, hsync, -⟩ := order_frame h rfl
        exact congrArg some hsync.symm

/-- A step is a step of the network or none of its concern. -/
theorem sync_step {p p' : Program σ} {l : Label} (h : p.step l = some p') :
    p'.sync = p.sync ∨ ∃ k, p.sync.step k = some p'.sync ∧ (k = .handle ∨ l = .network k) := by
  have hsync := toSync.sound h
  cases l with
  | handle nowMs now uuid =>
      exact Or.inr ⟨.handle, (SyncSystem.machine.exec_singleton _ _).symm.trans hsync, Or.inl rfl⟩
  | network k =>
      exact Or.inr ⟨k, (SyncSystem.machine.exec_singleton _ _).symm.trans hsync, Or.inr rfl⟩
  | switch _ | send | take | fill | mirror | record _ => exact Or.inl (Option.some.inj hsync).symm

/-- The check that the kill switch sees of a decision. -/
def checkOf (d : Decision) : KillSwitch.Label :=
  .check d.signal (referencePrice d.snapshot) d.env.cash d.env.now d.env.uuid

/-- The kill switch: of the main loop it sees the checks. -/
def toSwitch : Refinement (machine : Machine (Program σ) Label) KillSwitch.machine where
  abs := switch
  labels p l := match l with
    | .switch l => [l]
    | l => (p.decision l).toList.map checkOf
  sound := by
    intro p p' l h
    replace h : p.step l = some p' := h
    cases l with
    | handle nowMs now uuid =>
        obtain ⟨message, market, hmarket, hidle, rfl⟩ := handle_spec h
        obtain ⟨-, view, hpath⟩ := Pipeline.event_spec hidle message.2 nowMs now uuid
        have hdecision : p.decision (.handle nowMs now uuid)
            = p.pipeline.decision (.event message.2 nowMs now uuid) := by
          simp only [decision, hmarket, List.head?_cons, Option.bind_some]
        have hswitch : switch { p with
            pipeline := p.pipeline.onEvent message.2 nowMs now uuid
            network := { p.network with market := market } } = { p.switch with
              risk := riskAfter p.pipeline.path.risk
                (p.pipeline.decision (.event message.2 nowMs now uuid)) } := by
          simp only [switch, hpath]
          rfl
        rw [hswitch]
        simp only [hdecision]
        cases hd : p.pipeline.decision (.event message.2 nowMs now uuid) with
        | none => rfl
        | some d =>
            obtain ⟨snapshot, -, hdecide⟩ := Option.bind_eq_some_iff.mp hd
            obtain ⟨-, -, hne, hrisk, henv⟩ := decide?_eq_some hdecide
            refine (KillSwitch.machine.exec_singleton _ _).trans ?_
            show KillSwitch.step p.switch (checkOf d) = _
            simp only [checkOf, KillSwitch.step, if_neg hne]
            simp only [riskAfter, Decision.outcome, hrisk, henv]
            rfl
    | network l =>
        obtain ⟨-, s, -, rfl⟩ := network_spec h
        rfl
    | switch l =>
        obtain ⟨hl, s, hstep, rfl⟩ := switch_spec h
        refine (KillSwitch.machine.exec_singleton _ _).trans (hstep.trans ?_)
        have hrisk : s.risk = p.pipeline.path.risk := KillSwitch.step_risk hl hstep
        show some s = some { s with risk := p.pipeline.path.risk }
        rw [← hrisk]
    | send | take | fill | mirror | record _ =>
        obtain ⟨-, -, -, -, hswitch, -⟩ := order_frame h rfl
        exact congrArg some hswitch.symm

/-! ## §4 A connection to run on -/

/-- The first connection delivers a snapshot with one level a side, and an update that leaves it as
it is. -/
def firstMessages (bid ask : String) : List Label :=
  [.network .connectOk, .network (.initialWake 0),
    .network (.initialFetched 0 ⟨10, [(bid, "1")], [(ask, "1")]⟩), .network (.initialSend 0),
    .network (.receive (.depthUpdate ⟨"depthUpdate", 0, "BTCUSDT", 11, 11, 10, [], []⟩))]

end Program

end CryptoTrader
