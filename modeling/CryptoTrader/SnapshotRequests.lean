/-
# CryptoTrader.SnapshotRequests — who asked for a snapshot.

A snapshot comes to the market channel because a connection was made or because a gap in the updates was
found.  Every connection leaves one more resync poller behind, which goes on polling the one flag for as
long as the process runs, so it is worth counting.

`compare_exchange` gives a request to one poller only, however many there are.  Followed over a run, a gap
ends in exactly one of these ways: a poller has delivered a snapshot for it, a poller is busy with it, the
flag is up for it, the initial task of a connection has dropped it, or it has met another request at the
flag and become one with it.  So no more snapshots are sent than there were connections and gaps.
-/
import CryptoTrader.MarketFlow

namespace CryptoTrader

open Lib

/-- What changes in a count when one entry of a list is replaced. -/
theorem countP_set_add {α : Type} (P : α → Bool) {xs : List α} {i : Nat} {x : α}
    (h : xs[i]? = some x) (y : α) :
    (xs.set i y).countP P + (P x).toNat = xs.countP P + (P y).toNat := by
  induction xs generalizing i with
  | nil => cases h
  | cons z xs ih =>
      cases i with
      | zero =>
          obtain rfl := Option.some.inj h
          rw [List.set_cons_zero, List.countP_cons, List.countP_cons]
          cases P z <;> cases P y <;> simp
      | succ i =>
          have hrest := ih (i := i) h
          rw [List.set_cons_succ, List.countP_cons, List.countP_cons]
          omega

/-- Handling a message raises the flag when it finds a gap. -/
theorem bookOnEvent_raises (book : Orderbook) (resyncNeeded : Bool) (event : MarketEvent) :
    (bookOnEvent (book, resyncNeeded) event).2
      = (resyncNeeded || (bookOnEvent (book, false) event).2) := by
  cases resyncNeeded with
  | false => rfl
  | true => exact SyncSystem.bookOnEvent_flag rfl event

namespace SyncSystem

/-! ## §1 What is counted -/

/-- A gap is found. -/
def gaps (s : SyncSystem) : Label → Nat
  | .handle => (s.market.head?.any fun message => (bookOnEvent (s.book, false) message.2).2).toNat
  | _ => 0

/-- A request meets another one at the flag: a gap does, or a retry. -/
def merged (s : SyncSystem) : Label → Nat
  | .handle => if s.resyncNeeded then s.gaps .handle else 0
  | .pollerFailed _ => s.resyncNeeded.toNat
  | _ => 0

/-- The initial task of a connection drops a request. -/
def dropped (s : SyncSystem) : Label → Nat
  | .initialWake _ => s.resyncNeeded.toNat
  | _ => 0

/-- A poller delivers the snapshot it was asked for. -/
def answered (_ : SyncSystem) : Label → Nat
  | .pollerSend _ => 1
  | _ => 0

def connections (_ : SyncSystem) : Label → Nat
  | .connectOk => 1
  | _ => 0

/-- The initial task of a connection delivers its snapshot, or fails. -/
def initialSent (_ : SyncSystem) : Label → Nat
  | .initialSend _ => 1
  | _ => 0

def initialLost (_ : SyncSystem) : Label → Nat
  | .initialFailed _ => 1
  | _ => 0

/-- The requests that somebody still has: at the flag or with a poller. -/
def openRequests (s : SyncSystem) : Nat := s.pollers.countP Poller.busy + s.resyncNeeded.toNat

/-! ## §2 One step -/

/-- **One step of the requests**: a gap opens one; an answer, a drop and a merger close one. -/
theorem openRequests_step {s s' : SyncSystem} {l : Label} (h : s.step l = some s') :
    s.openRequests + s.gaps l = (s.answered l + s.merged l + s.dropped l) + s'.openRequests := by
  cases l with
  | handle =>
      simp only [SyncSystem.step] at h
      split at h
      · next message market hmarket =>
          obtain rfl := Option.some.inj h
          simp only [openRequests, gaps, answered, merged, dropped, hmarket, List.head?_cons,
            Option.any_some, bookOnEvent_raises s.book s.resyncNeeded]
          cases s.resyncNeeded <;> simp
          omega
      · cases h
  | connectOk =>
      -- one more poller, with nothing to do yet
      obtain ⟨-, rfl⟩ := Option.ite_some_none_eq_some.mp h
      simp [openRequests, gaps, answered, merged, dropped, Poller.busy]
  | initialWake i =>
      obtain ⟨-, rfl⟩ := Option.ite_some_none_eq_some.mp h
      simp only [openRequests, gaps, answered, merged, dropped, Bool.toNat_false]
      omega
  | initialSend i =>
      obtain ⟨snapshot, -, -, rfl⟩ := initialSend_eq_some h
      simp only [openRequests, gaps, answered, merged, dropped, enqueue]
      omega
  | pollerClaim j =>
      -- the request goes from the flag to the poller
      obtain ⟨⟨hpoller, hflag⟩, rfl⟩ := Option.ite_some_none_eq_some.mp h
      have hcount := countP_set_add Poller.busy hpoller (.resyncing .sleeping)
      simp only [Poller.busy, Bool.toNat_true, Bool.toNat_false] at hcount
      simp only [openRequests, gaps, answered, merged, dropped, hflag, Bool.toNat_true,
        Bool.toNat_false]
      omega
  | pollerWake j =>
      obtain ⟨hpoller, rfl⟩ := Option.ite_some_none_eq_some.mp h
      have hcount := countP_set_add Poller.busy hpoller (.resyncing .fetching)
      simp only [Poller.busy] at hcount
      simp only [openRequests, gaps, answered, merged, dropped]
      omega
  | pollerFetched j snapshot =>
      obtain ⟨hpoller, rfl⟩ := Option.ite_some_none_eq_some.mp h
      have hcount := countP_set_add Poller.busy hpoller (.resyncing (.sending snapshot))
      simp only [Poller.busy] at hcount
      simp only [openRequests, gaps, answered, merged, dropped]
      omega
  | pollerFailed j =>
      -- back to the flag, where another request may be already
      obtain ⟨hpoller, rfl⟩ := Option.ite_some_none_eq_some.mp h
      have hcount := countP_set_add Poller.busy hpoller .polling
      simp only [Poller.busy, Bool.toNat_true, Bool.toNat_false] at hcount
      simp only [openRequests, gaps, answered, merged, dropped, Bool.toNat_true]
      omega
  | pollerSend j =>
      obtain ⟨snapshot, hpoller, -, rfl⟩ := pollerSend_eq_some h
      have hcount := countP_set_add Poller.busy hpoller .polling
      simp only [Poller.busy, Bool.toNat_true, Bool.toNat_false] at hcount
      simp only [openRequests, gaps, answered, merged, dropped, enqueue]
      omega
  | watchdogWake =>
      obtain ⟨watchdog, rfl⟩ := watchdogWake_eq_some h
      simp only [openRequests, gaps, answered, merged, dropped]
      omega
  | clock nowMs =>
      obtain rfl := Option.some.inj h
      simp only [openRequests, gaps, answered, merged, dropped]
      omega
  | connectErr | receive _ | socketLost | sendReconnect | retry | initialFetched _ _
  | initialFailed _ | watchdogSend =>
      obtain ⟨-, rfl⟩ := Option.ite_some_none_eq_some.mp h
      simp only [openRequests, gaps, answered, merged, dropped, enqueue]
      omega

/-- **One step of the tasks**: a connection spawns one of either kind; pollers stay for good. -/
theorem tasks_step {s s' : SyncSystem} {l : Label} (h : s.step l = some s') :
    s.pollers.length + s.connections l = s'.pollers.length ∧
      s.initialTasks.length + s.connections l
        = (s.initialSent l + s.initialLost l) + s'.initialTasks.length := by
  cases l with
  | handle =>
      simp only [SyncSystem.step] at h
      split at h
      · obtain rfl := Option.some.inj h
        simp [connections, initialSent, initialLost]
      · cases h
  | initialFailed i =>
      obtain ⟨htask, rfl⟩ := Option.ite_some_none_eq_some.mp h
      have hi : i < s.initialTasks.length := (List.getElem?_eq_some_iff.mp htask).1
      simp only [connections, initialSent, initialLost, List.length_eraseIdx_of_lt hi]
      omega
  | initialSend i =>
      obtain ⟨snapshot, htask, -, rfl⟩ := initialSend_eq_some h
      have hi : i < s.initialTasks.length := (List.getElem?_eq_some_iff.mp htask).1
      simp only [connections, initialSent, initialLost, enqueue, List.length_eraseIdx_of_lt hi]
      omega
  | pollerSend j =>
      obtain ⟨snapshot, -, -, rfl⟩ := pollerSend_eq_some h
      simp [connections, initialSent, initialLost, enqueue]
  | watchdogWake =>
      obtain ⟨watchdog, rfl⟩ := watchdogWake_eq_some h
      simp [connections, initialSent, initialLost]
  | clock nowMs =>
      obtain rfl := Option.some.inj h
      simp [connections, initialSent, initialLost]
  | _ =>
      obtain ⟨-, rfl⟩ := Option.ite_some_none_eq_some.mp h
      simp [connections, initialSent, initialLost, enqueue]

/-- **One step of the snapshots**: the initial tasks and the pollers send them, and nobody else. -/
theorem snapshots_step {s s' : SyncSystem} {l : Label} (h : s.step l = some s') :
    (s.sentOf l).countP (fun message => isSnapshot message.2) = s.initialSent l + s.answered l := by
  cases l with
  | receive event =>
      -- a socket delivers none
      obtain ⟨⟨-, -, hsocket⟩, -⟩ := Option.ite_some_none_eq_some.mp h
      cases event with
      | depthUpdate _ | trade _ => rfl
      | depthSnapshot _ | reconnect => cases hsocket
  | initialSend i =>
      obtain ⟨snapshot, htask, -, -⟩ := initialSend_eq_some h
      simp only [sentOf, htask]
      rfl
  | pollerSend j =>
      obtain ⟨snapshot, hpoller, -, -⟩ := pollerSend_eq_some h
      simp only [sentOf, hpoller]
      rfl
  | _ => rfl

/-! ## §3 The run -/

/-- **Every gap is answered at most once.**  In every run of the actors around the market channel: each
connection has left one poller behind for good, and one initial task, which has sent its snapshot, failed,
or is under way; each gap has been answered by one snapshot, dropped by an initial task or merged with
another request, or it is one of those still open, at the flag or with a poller; and the snapshots sent are
those of the two kinds of tasks, no more than there were connections and gaps. -/
theorem requests_answered_once (symbol : String) (depthLevels timeoutSecs startMs : Nat)
    (ls : List Label) (s : SyncSystem)
    (hrun : machine.exec (init symbol depthLevels timeoutSecs startMs) ls = some s) :
    let s₀ := init symbol depthLevels timeoutSecs startMs
    let count := fun n => machine.tally n s₀ ls
    let snapshots := (machine.outputs sentOf s₀ ls).countP fun message => isSnapshot message.2
    s.pollers.length = count connections ∧
    count connections = count initialSent + count initialLost + s.initialTasks.length ∧
    count gaps = count answered + count merged + count dropped
      + (s.pollers.countP Poller.busy + s.resyncNeeded.toNat) ∧
    snapshots = count initialSent + count answered ∧
    snapshots ≤ count connections + count gaps := by
  intro s₀ count snapshots
  have hpollers : 0 + count connections = machine.tally (fun _ _ => 0) s₀ ls + s.pollers.length :=
    machine.balanced (Q := fun s => s.pollers.length)
      (fun _ _ _ h => (tasks_step h).1.trans (Nat.zero_add _).symm) hrun
  rw [machine.tally_zero] at hpollers
  have htasks : 0 + count connections = (count initialSent + count initialLost)
      + s.initialTasks.length := by
    show 0 + _ = machine.tally initialSent s₀ ls + machine.tally initialLost s₀ ls + _
    rw [← machine.tally_add]
    exact machine.balanced (Q := fun s => s.initialTasks.length) (fun _ _ _ h => (tasks_step h).2) hrun
  have hrequests : 0 + count gaps = (count answered + count merged + count dropped)
      + s.openRequests := by
    show 0 + _ = machine.tally answered s₀ ls + machine.tally merged s₀ ls
      + machine.tally dropped s₀ ls + _
    rw [← machine.tally_add, ← machine.tally_add]
    exact machine.balanced (Q := openRequests) (fun _ _ _ h => openRequests_step h) hrun
  have hsnapshots : snapshots = count initialSent + count answered := by
    show _ = machine.tally initialSent s₀ ls + machine.tally answered s₀ ls
    rw [← machine.tally_add]
    exact (machine.countP_outputs _ _ _ _).trans
      (machine.tally_congr (fun _ _ _ h => snapshots_step h) s₀ ls)
  rw [Nat.zero_add] at hpollers htasks hrequests
  refine ⟨?_, htasks, hrequests, hsnapshots, ?_⟩
  · rw [hpollers, Nat.zero_add]
  · omega

/-- A gap, and the snapshot it is answered with. -/
def gapAnswered : List Label :=
  [.connectOk, .initialWake 0, .initialFetched 0 ⟨10, [], []⟩, .initialSend 0,
    .receive (.depthUpdate ⟨"depthUpdate", 0, "BTCUSDT", 11, 11, 10, [], []⟩), .handle, .handle,
    .receive (.depthUpdate ⟨"depthUpdate", 0, "BTCUSDT", 16, 16, 15, [], []⟩), .handle,
    .pollerClaim 0, .pollerWake 0, .pollerFetched 0 ⟨17, [], []⟩, .pollerSend 0]

theorem gap_answered_once :
    ∃ s, machine.exec (init "BTCUSDT" 20 30 0) gapAnswered = some s ∧
      machine.tally gaps (init "BTCUSDT" 20 30 0) gapAnswered = 1 ∧
      ((machine.outputs sentOf (init "BTCUSDT" 20 30 0) gapAnswered).countP
        fun message => isSnapshot message.2) ≤ 2 := by
  have hsome : (machine.exec (init "BTCUSDT" 20 30 0) gapAnswered).isSome = true := by decide +kernel
  obtain ⟨s, hrun⟩ := Option.isSome_iff_exists.mp hsome
  have hgaps : machine.tally gaps (init "BTCUSDT" 20 30 0) gapAnswered = 1 := by decide +kernel
  obtain ⟨-, -, -, -, hbound⟩ := requests_answered_once _ _ _ _ _ s hrun
  exact ⟨s, hrun, hgaps, hbound.trans (by decide +kernel)⟩

end SyncSystem

end CryptoTrader
