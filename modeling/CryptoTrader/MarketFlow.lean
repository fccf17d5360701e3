/-
# CryptoTrader.MarketFlow — from the messages of the exchange to what is shown.

The market channel has four kinds of senders and one receiver.  Seen over a run of the whole program
nothing is lost, repeated or overtaken in it, and the book is the fold of the messages handled; the
flags that other threads write, and trading, have no say in it.

So what the messages say decides what the strategy and the dashboard are shown.
-/
import CryptoTrader.Progress

namespace CryptoTrader

open Lib

/-! ## §1 The channel -/

namespace SyncSystem

/-- The message that a step sends. -/
def sentOf (s : SyncSystem) : Label → List (Sender × MarketEvent)
  | .receive event => [(.ingestion, event)]
  | .sendReconnect => [(.ingestion, .reconnect)]
  | .initialSend i =>
      match s.initialTasks[i]? with
      | some (.sending snapshot) => [(.snapshotTask, .depthSnapshot snapshot)]
      | _ => []
  | .pollerSend j =>
      match s.pollers[j]? with
      | some (.resyncing (.sending snapshot)) => [(.snapshotTask, .depthSnapshot snapshot)]
      | _ => []
  | .watchdogSend => [(.watchdog, .reconnect)]
  | _ => []

/-- Every step that handles no message leaves the queue as it is, but for the message it sends. -/
theorem market_step {s s' : SyncSystem} {l : Label} (hl : l ≠ .handle)
    (h : s.step l = some s') : s'.market = s.market ++ s.sentOf l := by
  cases l with
  | handle => exact absurd rfl hl
  | receive _ | sendReconnect | watchdogSend =>
      obtain ⟨-, rfl⟩ := Option.ite_some_none_eq_some.mp h
      rfl
  | initialSend i =>
      obtain ⟨snapshot, htask, -, rfl⟩ := initialSend_eq_some h
      simp only [sentOf, htask, enqueue]
  | pollerSend j =>
      obtain ⟨snapshot, hpoller, -, rfl⟩ := pollerSend_eq_some h
      simp only [sentOf, hpoller, enqueue]
  | watchdogWake =>
      obtain ⟨watchdog, rfl⟩ := watchdogWake_eq_some h
      exact (List.append_nil _).symm
  | clock nowMs =>
      obtain rfl := Option.some.inj h
      exact (List.append_nil _).symm
  | _ =>
      obtain ⟨-, rfl⟩ := Option.ite_some_none_eq_some.mp h
      exact (List.append_nil _).symm

end SyncSystem

namespace Orderbook

/-- What an update does to the book does not depend on the resync flag. -/
theorem handleUpdate_flag_irrelevant (book : Orderbook) (update : DepthUpdate)
    (resyncNeeded resyncNeeded' : Bool) :
    (book.handleUpdate update resyncNeeded).1 = (book.handleUpdate update resyncNeeded').1 ∧
      (book.handleUpdate update resyncNeeded).2.1
        = (book.handleUpdate update resyncNeeded').2.1 := by
  cases hstate : book.state with
  | buffering buf =>
      rw [handleUpdate_buffering hstate, handleUpdate_buffering hstate]
      exact ⟨rfl, rfl⟩
  | live n =>
      rw [handleUpdate_live hstate, handleUpdate_live hstate]
      cases sequencing n update <;> exact ⟨rfl, rfl⟩

/-- The book after a message. -/
def afterEvent (book : Orderbook) (event : MarketEvent) : Orderbook :=
  (bookOnEvent (book, false) event).1

theorem bookOnEvent_book (book : Orderbook) (resyncNeeded : Bool) (event : MarketEvent) :
    (bookOnEvent (book, resyncNeeded) event).1 = book.afterEvent event := by
  cases event with
  | depthUpdate update =>
      obtain ⟨hresult, hbook⟩ := book.handleUpdate_flag_irrelevant update resyncNeeded false
      simp only [afterEvent, bookOnEvent]
      generalize book.handleUpdate update resyncNeeded = out at hresult hbook ⊢
      generalize book.handleUpdate update false = out' at hresult hbook ⊢
      obtain ⟨result, book₁, flag⟩ := out
      obtain ⟨result', book₂, flag'⟩ := out'
      obtain rfl : result = result' := hresult
      obtain rfl : book₁ = book₂ := hbook
      cases result <;> rfl
  | depthSnapshot snapshot => rfl
  | trade trade => rfl
  | reconnect => rfl

end Orderbook

namespace Program

variable {σ : Type} [Strategy σ]

/-- The message that a step sends. -/
def sentOf (p : Program σ) : Label → List (Sender × MarketEvent)
  | .network l => p.sync.sentOf l
  | _ => []

/-- The message that a step handles. -/
def handledOf (p : Program σ) : Label → List (Sender × MarketEvent)
  | .handle _ _ _ => p.network.market.head?.toList
  | _ => []

/-- **One step of the channel.** -/
theorem market_step {p p' : Program σ} {l : Label} (h : p.step l = some p') :
    p.network.market ++ p.sentOf l = p.handledOf l ++ p'.network.market := by
  cases l with
  | handle nowMs now uuid =>
      obtain ⟨message, market, hmarket, -, rfl⟩ := handle_spec h
      simp [sentOf, handledOf, hmarket]
  | network k =>
      obtain ⟨hk, s, hstep, rfl⟩ := network_spec h
      exact (SyncSystem.market_step hk hstep).symm
  | switch k =>
      obtain ⟨-, s, -, rfl⟩ := switch_spec h
      exact List.append_nil _
  | send | take | fill | mirror | record _ =>
      obtain ⟨pipeline, -, rfl⟩ := order_spec h rfl
      exact List.append_nil _

/-- **One step of the book.** -/
theorem book_step {p p' : Program σ} {l : Label} (h : p.step l = some p') :
    p'.pipeline.book
      = (p.handledOf l).foldl (fun book message => book.afterEvent message.2) p.pipeline.book := by
  cases l with
  | handle nowMs now uuid =>
      obtain ⟨message, market, hmarket, -, rfl⟩ := handle_spec h
      have hbook := congrArg Prod.fst (p.pipeline.onEvent_book message.2 nowMs now uuid)
      simp only [handledOf, hmarket, List.head?_cons, Option.toList_some, List.foldl_cons,
        List.foldl_nil]
      exact hbook.trans (Orderbook.bookOnEvent_book _ _ _)
  | network k =>
      obtain ⟨-, s, -, rfl⟩ := network_spec h
      rfl
  | switch k =>
      obtain ⟨-, s, -, rfl⟩ := switch_spec h
      rfl
  | send | take | fill | mirror | record _ =>
      obtain ⟨pipeline, -, rfl, hsync, -⟩ := order_frame h rfl
      exact congrArg SyncSystem.book hsync

/-- The snapshot that a step shows the strategy. -/
def shownOf (p : Program σ) : Label → List OrderbookSnapshot
  | .handle nowMs now uuid =>
      p.network.market.head?.toList.flatMap fun message =>
        p.pipeline.shownOf (.event message.2 nowMs now uuid)
  | _ => []

/-- A step is one step of the main loop, which handles and shows what the step does. -/
theorem pipeline_step {p p' : Program σ} {l : Label} (h : p.step l = some p') :
    ∃ m, toPipeline.labels p l = [m] ∧ p.pipeline.step m = some p'.pipeline ∧
      Pipeline.handledOf m = (p.handledOf l).map Prod.snd ∧
      p.pipeline.shownOf m = p.shownOf l := by
  cases l with
  | handle nowMs now uuid =>
      obtain ⟨message, market, hmarket, hidle, rfl⟩ := handle_spec h
      refine ⟨.event message.2 nowMs now uuid, ?_, if_pos hidle, ?_, ?_⟩
      · show p.network.market.head?.toList.map _ = _
        rw [hmarket]
        rfl
      · simp [handledOf, hmarket, Pipeline.handledOf]
      · simp [shownOf, hmarket]
  | network k =>
      obtain ⟨-, s, hstep, rfl⟩ := network_spec h
      refine ⟨.setResync s.resyncNeeded, ?_, rfl, rfl, rfl⟩
      show (p.sync.step k).toList.map _ = _
      rw [hstep]
      rfl
  | switch k =>
      obtain ⟨-, s, hstep, rfl⟩ := switch_spec h
      refine ⟨.setHalt s.haltFlag, ?_, rfl, rfl, rfl⟩
      show (p.switch.step k).toList.map _ = _
      rw [hstep]
      rfl
  | send | take | fill | mirror | record _ =>
      obtain ⟨pipeline, hstep, rfl⟩ := order_spec h rfl
      exact ⟨_, rfl, hstep, rfl, rfl⟩

/-- The events of the main loop are the messages handled. -/
theorem handled_trace {p p' : Program σ} {ls : List Label} (hrun : machine.exec p ls = some p') :
    Pipeline.machine.outputs (fun _ => Pipeline.handledOf) p.pipeline (toPipeline.trace p ls)
      = (machine.outputs handledOf p ls).map Prod.snd := by
  rw [← machine.outputs_map]
  refine toPipeline.outputs_trace ?_ hrun
  intro p l p' h
  obtain ⟨m, hlabels, hstep, hhandled, -⟩ := pipeline_step h
  rw [hlabels, ← hhandled]
  exact Pipeline.machine.outputs_singleton hstep

theorem shown_trace {p p' : Program σ} {ls : List Label} (hrun : machine.exec p ls = some p') :
    Pipeline.machine.outputs Pipeline.shownOf p.pipeline (toPipeline.trace p ls)
      = machine.outputs shownOf p ls := by
  refine toPipeline.outputs_trace ?_ hrun
  intro p l p' h
  obtain ⟨m, hlabels, hstep, -, hshown⟩ := pipeline_step h
  rw [hlabels, ← hshown]
  exact Pipeline.machine.outputs_singleton hstep

/-- **Every message once, in order, and nothing but the messages.**  In every run of the program, for
every interleaving: the messages sent into the market channel are, in that order, those handled and
those still queued, at most 1024; the book is what handling them one after the other makes of an empty
one, whatever the flags, the strategy and the executor were doing; and the dashboard counts the depth
updates among them (modulo 2^64) and shows what the last of them said about the connection. -/
theorem messages_handled_once_in_order (symbol : String) (depthLevels : Nat) (strat : σ)
    (risk : RiskChecker) (initialCapitalUsdt feePct : ℚ) (haltFile : Bool)
    (timeoutSecs startMs : Nat) (ls : List Label) (p : Program σ)
    (hrun : machine.exec (init symbol depthLevels strat risk initialCapitalUsdt feePct haltFile
      timeoutSecs startMs) ls = some p) :
    let p₀ := init symbol depthLevels strat risk initialCapitalUsdt feePct haltFile timeoutSecs
      startMs
    let handled := machine.outputs handledOf p₀ ls
    let events := handled.map Prod.snd
    machine.outputs sentOf p₀ ls = handled ++ p.network.market ∧
    p.network.market.length ≤ marketChannelCap ∧
    p.pipeline.book = events.foldl Orderbook.afterEvent (Orderbook.new symbol depthLevels) ∧
    p.pipeline.view.eventCount = UInt64.ofNat (events.countP MarketEvent.isUpdate) ∧
    p.pipeline.view.connected
      = (events.filterMap MarketEvent.connection?).getLast?.getD false := by
  intro p₀ handled events
  have hevents : Pipeline.machine.outputs (fun _ => Pipeline.handledOf) p₀.pipeline
      (toPipeline.trace p₀ ls) = events := handled_trace hrun
  have hcounted := Pipeline.counted_of_run (toPipeline.exec hrun)
  change Pipeline.Counted (Pipeline.machine.outputs (fun _ => Pipeline.handledOf) p₀.pipeline
    (toPipeline.trace p₀ ls)) p.pipeline at hcounted
  rw [hevents] at hcounted
  refine ⟨?_, market_length_of_run hrun, ?_, hcounted.eventCount, hcounted.connected⟩
  · exact machine.conserved (Q := fun p : Program σ => p.network.market)
      (fun _ _ _ hstep => market_step hstep) hrun
  · rw [List.foldl_map]
    exact machine.folded (P := fun p : Program σ => p.pipeline.book)
      (fun _ _ _ hstep => book_step hstep) hrun

/-- The snapshot and the update, handled: the book is live, and one update is counted. -/
theorem first_messages_handled :
    ∃ p : Program PingPongStrategy,
      machine.exec (init "BTCUSDT" 20 PingPongStrategy.default (RiskChecker.new 1 0 1 5) 10000 0
        false 30 0) (firstMessages "100" "101" ++ [.handle 0 0 "a", .handle 0 0 "b"]) = some p ∧
      p.network.market = [] ∧ p.pipeline.view.eventCount = 1 := by
  have hsome : ((machine.exec (init "BTCUSDT" 20 PingPongStrategy.default
      (RiskChecker.new 1 0 1 5) 10000 0 false 30 0)
      (firstMessages "100" "101" ++ [.handle 0 0 "a", .handle 0 0 "b"])).any fun p =>
        p.network.market.isEmpty) = true := by decide +kernel
  obtain ⟨p, hrun, hempty⟩ := (Option.any_eq_true _ _).mp hsome
  obtain ⟨-, -, -, hcount, -⟩ := messages_handled_once_in_order _ _ _ _ _ _ _ _ _ _ p hrun
  exact ⟨p, hrun, List.isEmpty_iff.mp hempty, hcount.trans (by decide +kernel)⟩

end Program

end CryptoTrader
