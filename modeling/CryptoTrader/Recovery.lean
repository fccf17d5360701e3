/-
# CryptoTrader.Recovery — who brings a buffering book back.

The actors around the order book: the thread that drains the market channel, the ingestion task
of `ingestion.rs` with the snapshot task and the resync poller it spawns on every connection, and
the watchdog thread.  They share the `resync_needed` flag and the FIFO channel of 1024 messages.
A task that sends waits while the channel is full.  Sleeps end at any time, a fetch succeeds with
any snapshot or fails, a socket delivers any update or trade, goes silent or drops; only the
watchdog's test of the clock is kept as it is.  Cancellation ends the process and is left out, and
so is what the strategy does with the book.

A buffering book needs a snapshot, and three things put it there: a sequence gap, a Reconnect
from ingestion and a Reconnect from the watchdog.  `Settles` looks at the book after the queued
messages: live, or with a recovery under way.  The first two causes bring their own recovery.
The watchdog's does not, and neither does the failure of an initial fetch; these are the steps on
which `Settles`, and with it the property, depends.
-/
import CryptoTrader.Pipeline

namespace CryptoTrader

open Lib

/-- Capacity of the market channel. -/
def marketChannelCap : Nat := 1024

/-- What the event loop does to the book and to `resync_needed`. -/
def bookOnEvent (state : Orderbook × Bool) (event : MarketEvent) : Orderbook × Bool :=
  match event with
  | .depthUpdate update =>
      match state.1.handleUpdate update state.2 with
      | (.ok _, book, resyncNeeded) => (book, resyncNeeded)
      | (.error _, book, resyncNeeded) => (book.reset, resyncNeeded)
  | .depthSnapshot snapshot => ((state.1.handleSnapshot snapshot).2, state.2)
  | .trade _ => state
  | .reconnect => (state.1.reset, state.2)

/-- The event loop of the pipeline does just this to its book. -/
theorem Pipeline.onEvent_book {σ : Type} [Strategy σ] (s : Pipeline σ) (event : MarketEvent)
    (nowMs : UInt64) (now : Nat) (uuid : String) :
    ((s.onEvent event nowMs now uuid).book, (s.onEvent event nowMs now uuid).resyncNeeded)
      = bookOnEvent (s.book, s.resyncNeeded) event := by
  have hquote : ∀ (s : Pipeline σ) snapshot, (s.onQuote snapshot now uuid).book = s.book ∧
      (s.onQuote snapshot now uuid).resyncNeeded = s.resyncNeeded := by
    intro s snapshot
    by_cases hhold : (Strategy.onOrderbook s.strat snapshot).1 = .hold
    · rw [onQuote_of_hold hhold]
      exact ⟨rfl, rfl⟩
    · rw [onQuote_of_order hhold]
      dsimp only
      split
      · exact ⟨rfl, rfl⟩
      · exact ⟨rfl, rfl⟩
  cases event with
  | depthUpdate update =>
      simp only [onEvent, bookOnEvent]
      generalize s.book.handleUpdate update s.resyncNeeded = out
      obtain ⟨result, book, resyncNeeded⟩ := out
      cases result with
      | error _ => rfl
      | ok applied =>
          cases applied with
          | false => rfl
          | true =>
              dsimp only
              split
              · exact Prod.ext (hquote _ _).1 (hquote _ _).2
              · rfl
  | depthSnapshot snapshot => rfl
  | trade trade => rfl
  | reconnect => rfl

/-! ## §1 The actors -/

/-- Who put a message into the market channel. -/
inductive Sender where
  | ingestion
  | snapshotTask
  | watchdog
  deriving DecidableEq

inductive IngestionPhase where
  | connecting
  | reading
  /-- out of the message loop, or not connected: Reconnect not sent yet -/
  | disconnected
  /-- Reconnect sent, waiting three seconds -/
  | waiting
  deriving DecidableEq

/-- A snapshot on its way: sleeping before the fetch, fetching, or waiting for room. -/
inductive Fetch where
  | sleeping
  | fetching
  | sending (snapshot : DepthSnapshot)
  deriving DecidableEq

inductive Poller where
  | polling
  | resyncing (fetch : Fetch)
  deriving DecidableEq

inductive WatchdogPhase where
  | sleeping
  | sending
  deriving DecidableEq

structure SyncSystem where
  book : Orderbook
  resyncNeeded : Bool
  market : List (Sender × MarketEvent)
  ingestion : IngestionPhase
  initialTasks : List Fetch
  pollers : List Poller
  watchdog : WatchdogPhase
  nowMs : Nat
  lastSeenMs : Nat
  timeoutMs : Nat

namespace SyncSystem

def init (symbol : String) (depthLevels : Nat) (timeoutSecs startMs : Nat) : SyncSystem where
  book := Orderbook.new symbol depthLevels
  resyncNeeded := false
  market := []
  ingestion := .connecting
  initialTasks := []
  pollers := []
  watchdog := .sleeping
  nowMs := startMs
  lastSeenMs := startMs
  timeoutMs := timeoutSecs * 1000

inductive Label where
  | handle
  | connectOk
  | connectErr
  | receive (event : MarketEvent)
  | socketLost
  | sendReconnect
  | retry
  | initialWake (i : Nat)
  | initialFetched (i : Nat) (snapshot : DepthSnapshot)
  | initialFailed (i : Nat)
  | initialSend (i : Nat)
  | pollerClaim (j : Nat)
  | pollerWake (j : Nat)
  | pollerFetched (j : Nat) (snapshot : DepthSnapshot)
  | pollerFailed (j : Nat)
  | pollerSend (j : Nat)
  | watchdogWake
  | watchdogSend
  | clock (nowMs : Nat)

/-- What a WebSocket frame can become. -/
def fromSocket : MarketEvent → Bool
  | .depthUpdate _ | .trade _ => true
  | _ => false

def hasRoom (s : SyncSystem) : Bool := s.market.length < marketChannelCap

/-- A message joins the back of the channel. -/
def enqueue (s : SyncSystem) (sender : Sender) (event : MarketEvent) : SyncSystem :=
  { s with market := s.market ++ [(sender, event)] }

def step (s : SyncSystem) : Label → Option SyncSystem
  | .handle =>
      match s.market with
      | message :: market =>
          let (book, resyncNeeded) := bookOnEvent (s.book, s.resyncNeeded) message.2
          some { s with book := book, resyncNeeded := resyncNeeded, market := market }
      | [] => none
  -- every connection spawns a snapshot task and one more poller; old pollers stay
  | .connectOk =>
      if s.ingestion = .connecting then
        some { s with
          ingestion := .reading
          initialTasks := s.initialTasks ++ [.sleeping]
          pollers := s.pollers ++ [.polling] }
      else none
  | .connectErr =>
      if s.ingestion = .connecting then some { s with ingestion := .disconnected } else none
  | .receive event =>
      if s.ingestion = .reading ∧ s.hasRoom ∧ fromSocket event then
        some ({ s with lastSeenMs := s.nowMs }.enqueue .ingestion event)
      else none
  | .socketLost =>
      if s.ingestion = .reading then some { s with ingestion := .disconnected } else none
  | .sendReconnect =>
      if s.ingestion = .disconnected ∧ s.hasRoom then
        some ({ s with ingestion := .waiting }.enqueue .ingestion .reconnect)
      else none
  | .retry => if s.ingestion = .waiting then some { s with ingestion := .connecting } else none
  -- the initial task drops a resync request that is already up
  | .initialWake i =>
      if s.initialTasks[i]? = some .sleeping then
        some { s with resyncNeeded := false, initialTasks := s.initialTasks.set i .fetching }
      else none
  | .initialFetched i snapshot =>
      if s.initialTasks[i]? = some .fetching then
        some { s with initialTasks := s.initialTasks.set i (.sending snapshot) }
      else none
  -- only logged: no retry
  | .initialFailed i =>
      if s.initialTasks[i]? = some .fetching then
        some { s with initialTasks := s.initialTasks.eraseIdx i }
      else none
  | .initialSend i =>
      match s.initialTasks[i]? with
      | some (.sending snapshot) =>
          if s.hasRoom then
            some ({ s with initialTasks := s.initialTasks.eraseIdx i }.enqueue .snapshotTask
              (.depthSnapshot snapshot))
          else none
      | _ => none
  -- `compare_exchange(true, false)`: one poller gets the request
  | .pollerClaim j =>
      if s.pollers[j]? = some .polling ∧ s.resyncNeeded then
        some { s with resyncNeeded := false, pollers := s.pollers.set j (.resyncing .sleeping) }
      else none
  | .pollerWake j =>
      if s.pollers[j]? = some (.resyncing .sleeping) then
        some { s with pollers := s.pollers.set j (.resyncing .fetching) }
      else none
  | .pollerFetched j snapshot =>
      if s.pollers[j]? = some (.resyncing .fetching) then
        some { s with pollers := s.pollers.set j (.resyncing (.sending snapshot)) }
      else none
  -- the request goes up again for a retry
  | .pollerFailed j =>
      if s.pollers[j]? = some (.resyncing .fetching) then
        some { s with resyncNeeded := true, pollers := s.pollers.set j .polling }
      else none
  | .pollerSend j =>
      match s.pollers[j]? with
      | some (.resyncing (.sending snapshot)) =>
          if s.hasRoom then
            some ({ s with pollers := s.pollers.set j .polling }.enqueue .snapshotTask
              (.depthSnapshot snapshot))
          else none
      | _ => none
  -- `saturating_sub`, like the subtraction here
  | .watchdogWake =>
      if s.watchdog = .sleeping then
        if s.nowMs - s.lastSeenMs > s.timeoutMs then some { s with watchdog := .sending }
        else some s
      else none
  -- to the order book thread only: ingestion hears nothing of it
  | .watchdogSend =>
      if s.watchdog = .sending ∧ s.hasRoom then
        some ({ s with watchdog := .sleeping }.enqueue .watchdog .reconnect)
      else none
  | .clock nowMs => some { s with nowMs := nowMs }

def machine : Machine SyncSystem Label := ⟨step⟩

/-! ## §2 Recovery under way -/

def isSnapshot : MarketEvent → Bool
  | .depthSnapshot _ => true
  | _ => false

/-- A resync poller has claimed the flag and not delivered yet. -/
def Poller.busy : Poller → Bool
  | .resyncing _ => true
  | .polling => false

/-- A snapshot task is on its way, or ingestion will spawn one. -/
def fetchUnderway (s : SyncSystem) : Bool :=
  s.ingestion ≠ .reading || !s.initialTasks.isEmpty || s.pollers.any Poller.busy

/-- The property: a buffering book has a raised flag with a poller to see it, or a snapshot task,
or a snapshot in the channel, or a Reconnect of ingestion in the channel, or ingestion is on its
way to a new connection. -/
def Recovering (s : SyncSystem) : Prop :=
  s.book.isLive = false →
    (s.resyncNeeded = true ∧ s.pollers ≠ []) ∨
    (s.initialTasks ≠ [] ∨ s.pollers.any Poller.busy = true) ∨
    (s.market.any fun m => isSnapshot m.2) = true ∨
    (Sender.ingestion, MarketEvent.reconnect) ∈ s.market ∨
    s.ingestion ≠ .reading

instance (s : SyncSystem) : Decidable s.Recovering := by
  unfold Recovering; infer_instance

/-- The book and the flag once the queued messages have been handled. -/
def drained (s : SyncSystem) : Orderbook × Bool :=
  (s.market.map Prod.snd).foldl bookOnEvent (s.book, s.resyncNeeded)

/-- Live after the queued messages, or with a recovery under way. -/
def Settles (s : SyncSystem) : Prop :=
  s.drained.1.isLive = true ∨ s.fetchUnderway = true ∨ (s.drained.2 = true ∧ s.pollers ≠ [])

/-- **The condition on a step.**  The watchdog's Reconnect is sent, and an initial fetch fails,
only while another recovery is under way once the queued messages have been handled; a fetch may
also fail when the book is live then. -/
def NotStranding (s : SyncSystem) : Label → Prop
  | .watchdogSend => s.fetchUnderway = true ∨ (s.drained.2 = true ∧ s.pollers ≠ [])
  | .initialFailed i =>
      s.drained.1.isLive = true ∨
        (s.ingestion ≠ .reading ∨ s.initialTasks.eraseIdx i ≠ [] ∨
          s.pollers.any Poller.busy = true) ∨
        (s.drained.2 = true ∧ s.pollers ≠ [])
  | _ => True

instance (s : SyncSystem) (l : Label) : Decidable (s.NotStranding l) := by
  cases l <;> unfold NotStranding <;> infer_instance

theorem fetchUnderway_iff {s : SyncSystem} : s.fetchUnderway = true ↔
    s.ingestion ≠ .reading ∨ s.initialTasks ≠ [] ∨ s.pollers.any Poller.busy = true := by
  simp only [fetchUnderway, Bool.or_eq_true, decide_eq_true_eq, Bool.not_eq_true',
    List.isEmpty_eq_false_iff, or_assoc]

/-! ## §3 What messages do to the book -/

/-- Handling a message never lowers the flag. -/
theorem bookOnEvent_flag {state : Orderbook × Bool} (h : state.2 = true) (event : MarketEvent) :
    (bookOnEvent state event).2 = true := by
  obtain ⟨book, resyncNeeded⟩ := state
  obtain rfl : resyncNeeded = true := h
  cases event with
  | depthUpdate update =>
      have hflag : (book.handleUpdate update true).2.2 = true := by
        cases hstate : book.state with
        | buffering buf => rw [Orderbook.handleUpdate_buffering hstate]
        | live n =>
            rw [Orderbook.handleUpdate_live hstate]
            cases Orderbook.sequencing n update <;> rfl
      simp only [bookOnEvent]
      generalize book.handleUpdate update true = out at hflag ⊢
      obtain ⟨result, book, flag⟩ := out
      cases result <;> exact hflag
  | depthSnapshot snapshot => rfl
  | trade trade => rfl
  | reconnect => rfl

theorem foldl_bookOnEvent_flag {state : Orderbook × Bool} (h : state.2 = true)
    (events : List MarketEvent) : (events.foldl bookOnEvent state).2 = true := by
  induction events generalizing state with
  | nil => exact h
  | cons event events ih => exact ih (bookOnEvent_flag h event)

/-- An update or a trade keeps a live book live, or raises the flag. -/
theorem bookOnEvent_live {state : Orderbook × Bool} (h : state.1.isLive = true)
    {event : MarketEvent} (hevent : fromSocket event = true) :
    (bookOnEvent state event).1.isLive = true ∨ (bookOnEvent state event).2 = true := by
  obtain ⟨book, resyncNeeded⟩ := state
  cases event with
  | depthUpdate update =>
      cases hstate : book.state with
      | buffering buf => simp [Orderbook.isLive, hstate] at h
      | live n =>
          simp only [bookOnEvent, Orderbook.handleUpdate_live hstate]
          cases Orderbook.sequencing n update with
          | apply => exact Or.inl rfl
          | stale => exact Or.inl h
          | gap => exact Or.inr rfl
  | trade trade => exact Or.inl h
  | depthSnapshot snapshot => cases hevent
  | reconnect => cases hevent

/-- Without a snapshot a buffering book stays buffering, and the flag is left alone. -/
theorem bookOnEvent_buffering {state : Orderbook × Bool} (h : state.1.isLive = false)
    {event : MarketEvent} (hevent : isSnapshot event = false) :
    (bookOnEvent state event).1.isLive = false ∧ (bookOnEvent state event).2 = state.2 := by
  obtain ⟨book, resyncNeeded⟩ := state
  cases event with
  | depthUpdate update =>
      cases hstate : book.state with
      | buffering buf =>
          simp only [bookOnEvent, Orderbook.handleUpdate_buffering hstate]
          exact ⟨rfl, trivial⟩
      | live n => simp [Orderbook.isLive, hstate] at h
  | trade trade => exact ⟨h, rfl⟩
  | reconnect => exact ⟨rfl, rfl⟩
  | depthSnapshot snapshot => cases hevent

theorem foldl_bookOnEvent_buffering {state : Orderbook × Bool} (h : state.1.isLive = false)
    {events : List MarketEvent} (hevents : ∀ e ∈ events, isSnapshot e = false) :
    (events.foldl bookOnEvent state).1.isLive = false ∧
      (events.foldl bookOnEvent state).2 = state.2 := by
  induction events generalizing state with
  | nil => exact ⟨h, rfl⟩
  | cons event events ih =>
      obtain ⟨hlive, hflag⟩ := bookOnEvent_buffering h (hevents event List.mem_cons_self)
      obtain ⟨hlive', hflag'⟩ := ih hlive fun e he => hevents e (List.mem_cons_of_mem event he)
      exact ⟨hlive', hflag'.trans hflag⟩

/-- A message at the back of the channel is handled last. -/
theorem drained_enqueue (s : SyncSystem) (sender : Sender) (event : MarketEvent) :
    (s.enqueue sender event).drained = bookOnEvent s.drained event := by
  simp only [drained, enqueue, List.map_append, List.map_cons, List.map_nil, List.foldl_append,
    List.foldl_cons, List.foldl_nil]

/-- **What `Settles` is for.**  It implies the property in the state itself. -/
theorem Settles.recovering {s : SyncSystem} (h : s.Settles) : s.Recovering := by
  intro hbuffering
  by_cases hsnapshot : (s.market.any fun m => isSnapshot m.2) = true
  · exact Or.inr (Or.inr (Or.inl hsnapshot))
  -- no snapshot is queued, so draining changes neither the mode nor the flag
  have hnone : ∀ e ∈ s.market.map Prod.snd, isSnapshot e = false := by
    intro e he
    obtain ⟨m, hm, rfl⟩ := List.mem_map.mp he
    by_contra hne
    exact hsnapshot (List.any_eq_true.mpr ⟨m, hm, by simpa using hne⟩)
  have hstart : (s.book, s.resyncNeeded).1.isLive = false := hbuffering
  obtain ⟨hlive, hflag⟩ := foldl_bookOnEvent_buffering hstart hnone
  rcases h with hdrained | hfetch | ⟨hraised, hpollers⟩
  · rw [drained, hlive] at hdrained
    cases hdrained
  · rcases fetchUnderway_iff.mp hfetch with hing | hinit | hbusy
    · exact Or.inr (Or.inr (Or.inr (Or.inr hing)))
    · exact Or.inr (Or.inl (Or.inl hinit))
    · exact Or.inr (Or.inl (Or.inr hbusy))
  · rw [drained, hflag] at hraised
    exact Or.inl ⟨hraised, hpollers⟩

/-! The steps with more than one test, inverted once. -/

theorem initialSend_eq_some {s s' : SyncSystem} {i : Nat} (h : s.step (.initialSend i) = some s') :
    ∃ snapshot, s.initialTasks[i]? = some (.sending snapshot) ∧ s.hasRoom = true ∧
      { s with initialTasks := s.initialTasks.eraseIdx i }.enqueue .snapshotTask
        (.depthSnapshot snapshot) = s' := by
  simp only [SyncSystem.step] at h
  split at h
  · next snapshot htask => exact ⟨snapshot, htask, Option.ite_some_none_eq_some.mp h⟩
  · cases h

theorem pollerSend_eq_some {s s' : SyncSystem} {j : Nat} (h : s.step (.pollerSend j) = some s') :
    ∃ snapshot, s.pollers[j]? = some (.resyncing (.sending snapshot)) ∧ s.hasRoom = true ∧
      { s with pollers := s.pollers.set j .polling }.enqueue .snapshotTask
        (.depthSnapshot snapshot) = s' := by
  simp only [SyncSystem.step] at h
  split at h
  · next snapshot hpoller => exact ⟨snapshot, hpoller, Option.ite_some_none_eq_some.mp h⟩
  · cases h

/-- The watchdog's look at the clock changes nothing but its own phase. -/
theorem watchdogWake_eq_some {s s' : SyncSystem} (h : s.step .watchdogWake = some s') :
    ∃ watchdog, { s with watchdog := watchdog } = s' := by
  obtain ⟨-, h⟩ := Option.ite_none_right_eq_some.mp h
  split at h
  · exact ⟨_, Option.some.inj h⟩
  · exact ⟨_, Option.some.inj h⟩

/-! ## §4 The invariant -/

/-- While ingestion reads, the poller of its connection is alive. -/
def PollerAlive (s : SyncSystem) : Prop := s.ingestion = .reading → s.pollers ≠ []

theorem PollerAlive.step {s s' : SyncSystem} {l : Label} (h : s.PollerAlive)
    (hstep : s.step l = some s') : s'.PollerAlive := by
  cases l with
  | handle =>
      simp only [SyncSystem.step] at hstep
      split at hstep
      · obtain rfl := Option.some.inj hstep
        exact h
      · cases hstep
  | connectOk =>
      obtain ⟨-, rfl⟩ := Option.ite_some_none_eq_some.mp hstep
      intro _
      simp
  | connectErr | socketLost | sendReconnect | retry =>
      -- ingestion is not reading any more
      obtain ⟨-, rfl⟩ := Option.ite_some_none_eq_some.mp hstep
      intro hreading
      cases hreading
  | receive _ | initialWake _ | initialFetched _ _ | initialFailed _ | watchdogSend =>
      obtain ⟨-, rfl⟩ := Option.ite_some_none_eq_some.mp hstep
      exact h
  | initialSend i =>
      obtain ⟨snapshot, -, -, rfl⟩ := initialSend_eq_some hstep
      exact h
  | pollerClaim _ | pollerWake _ | pollerFetched _ _ | pollerFailed _ =>
      -- a poller changes its phase and stays
      obtain ⟨-, rfl⟩ := Option.ite_some_none_eq_some.mp hstep
      intro hreading
      simpa using h hreading
  | pollerSend j =>
      obtain ⟨snapshot, -, -, rfl⟩ := pollerSend_eq_some hstep
      intro hreading
      simpa [enqueue] using h hreading
  | watchdogWake =>
      obtain ⟨watchdog, rfl⟩ := watchdogWake_eq_some hstep
      exact h
  | clock nowMs =>
      obtain rfl := Option.some.inj hstep
      exact h

theorem settles_of_ingestion {s : SyncSystem} (h : s.ingestion ≠ .reading) : s.Settles :=
  Or.inr (Or.inl (fetchUnderway_iff.mpr (Or.inl h)))

theorem settles_of_initial {s : SyncSystem} (h : s.initialTasks ≠ []) : s.Settles :=
  Or.inr (Or.inl (fetchUnderway_iff.mpr (Or.inr (Or.inl h))))

/-- A poller that has just moved on in its fetch is under way. -/
theorem settles_of_resyncing {s : SyncSystem} {pollers : List Poller} {j : Nat} {fetch : Fetch}
    (hj : j < pollers.length) (h : s.pollers = pollers.set j (.resyncing fetch)) : s.Settles := by
  refine Or.inr (Or.inl (fetchUnderway_iff.mpr (Or.inr (Or.inr ?_))))
  rw [h]
  exact List.any_eq_true.mpr ⟨_, List.mem_set hj _, rfl⟩

/-- A snapshot that joins the channel brings the book back. -/
theorem settles_of_snapshot {s s₀ : SyncSystem} {snapshot : DepthSnapshot}
    (h : s = s₀.enqueue .snapshotTask (.depthSnapshot snapshot)) : s.Settles := by
  rw [h]
  left
  rw [drained_enqueue]
  exact Orderbook.handleSnapshot_isLive _ _

/-- **One step.**  Every step that is not stranding keeps the system settling. -/
theorem Settles.step {s s' : SyncSystem} {l : Label} (h : s.Settles) (halive : s.PollerAlive)
    (hsafe : s.NotStranding l) (hstep : s.step l = some s') : s'.Settles := by
  cases l with
  | handle =>
      -- the drained book is the same, one message earlier
      simp only [SyncSystem.step] at hstep
      split at hstep
      · next message market hmarket =>
          obtain rfl := Option.some.inj hstep
          have hdrained : s.drained = (market.map Prod.snd).foldl bookOnEvent
              (bookOnEvent (s.book, s.resyncNeeded) message.2) := by
            simp only [drained, hmarket, List.map_cons, List.foldl_cons]
          rw [Settles, hdrained] at h
          exact h
      · cases hstep
  | connectOk =>
      obtain ⟨-, rfl⟩ := Option.ite_some_none_eq_some.mp hstep
      exact settles_of_initial (by simp)
  | connectErr | socketLost | retry =>
      obtain ⟨-, rfl⟩ := Option.ite_some_none_eq_some.mp hstep
      exact settles_of_ingestion (by simp)
  | sendReconnect =>
      obtain ⟨-, rfl⟩ := Option.ite_some_none_eq_some.mp hstep
      exact settles_of_ingestion (by simp [enqueue])
  | receive event =>
      obtain ⟨⟨hreading, -, hevent⟩, rfl⟩ := Option.ite_some_none_eq_some.mp hstep
      rcases h with hlive | hfetch | ⟨hraised, hpollers⟩
      · rcases bookOnEvent_live hlive hevent with hlive' | hraised'
        · left
          rw [drained_enqueue]
          exact hlive'
        · -- a gap raises the flag, and the poller of this connection sees it
          right; right
          rw [drained_enqueue]
          exact ⟨hraised', halive hreading⟩
      · exact Or.inr (Or.inl hfetch)
      · right; right
        rw [drained_enqueue]
        exact ⟨bookOnEvent_flag hraised event, hpollers⟩
  | initialWake _ | initialFetched _ _ =>
      obtain ⟨hphase, rfl⟩ := Option.ite_some_none_eq_some.mp hstep
      refine settles_of_initial ?_
      intro hnil
      rw [List.set_eq_nil_iff] at hnil
      simp [hnil] at hphase
  | initialFailed i =>
      obtain ⟨-, rfl⟩ := Option.ite_some_none_eq_some.mp hstep
      rcases hsafe with hlive | hfetch | hraised
      · exact Or.inl hlive
      · exact Or.inr (Or.inl (fetchUnderway_iff.mpr hfetch))
      · exact Or.inr (Or.inr hraised)
  | initialSend i =>
      obtain ⟨snapshot, -, -, hsent⟩ := initialSend_eq_some hstep
      exact settles_of_snapshot hsent.symm
  | pollerClaim j =>
      -- the flag goes down, and the fetch it has started takes its place
      obtain ⟨⟨hphase, -⟩, rfl⟩ := Option.ite_some_none_eq_some.mp hstep
      exact settles_of_resyncing (List.getElem?_eq_some_iff.mp hphase).1 rfl
  | pollerWake _ | pollerFetched _ _ =>
      obtain ⟨hphase, rfl⟩ := Option.ite_some_none_eq_some.mp hstep
      exact settles_of_resyncing (List.getElem?_eq_some_iff.mp hphase).1 rfl
  | pollerFailed j =>
      -- the flag goes up again for a retry
      obtain ⟨hphase, rfl⟩ := Option.ite_some_none_eq_some.mp hstep
      right; right
      refine ⟨foldl_bookOnEvent_flag rfl _, ?_⟩
      intro hnil
      rw [List.set_eq_nil_iff] at hnil
      simp [hnil] at hphase
  | pollerSend j =>
      obtain ⟨snapshot, -, -, hsent⟩ := pollerSend_eq_some hstep
      exact settles_of_snapshot hsent.symm
  | watchdogWake =>
      obtain ⟨watchdog, rfl⟩ := watchdogWake_eq_some hstep
      exact h
  | watchdogSend =>
      obtain ⟨-, rfl⟩ := Option.ite_some_none_eq_some.mp hstep
      rcases hsafe with hfetch | ⟨hraised, hpollers⟩
      · exact Or.inr (Or.inl hfetch)
      · right; right
        rw [drained_enqueue]
        exact ⟨bookOnEvent_flag hraised .reconnect, hpollers⟩
  | clock nowMs =>
      obtain rfl := Option.some.inj hstep
      exact h

/-- Conversely a stranding step leaves a system that does not settle. -/
theorem not_settles_of_stranding {s s' : SyncSystem} {l : Label} (hstep : s.step l = some s')
    (hstranding : ¬ s.NotStranding l) : ¬ s'.Settles := by
  cases l with
  | watchdogSend =>
      obtain ⟨-, rfl⟩ := Option.ite_some_none_eq_some.mp hstep
      rintro (hlive | hfetch | ⟨hraised, hpollers⟩)
      · -- the Reconnect is handled last, and it resets the book
        rw [drained_enqueue] at hlive
        cases hlive
      · exact hstranding (Or.inl hfetch)
      · rw [drained_enqueue] at hraised
        exact hstranding (Or.inr ⟨hraised, hpollers⟩)
  | initialFailed i =>
      obtain ⟨-, rfl⟩ := Option.ite_some_none_eq_some.mp hstep
      rintro (hlive | hfetch | hraised)
      · exact hstranding (Or.inl hlive)
      · exact hstranding (Or.inr (Or.inl (fetchUnderway_iff.mp hfetch)))
      · exact hstranding (Or.inr (Or.inr hraised))
  | _ => exact absurd trivial hstranding

/-- Handling the queued messages and nothing else drains the channel. -/
theorem exists_drain (s : SyncSystem) :
    ∃ n t, machine.exec s (List.replicate n .handle) = some t ∧ t.market = [] ∧
      (t.book, t.resyncNeeded) = s.drained ∧ t.pollers = s.pollers ∧
      t.fetchUnderway = s.fetchUnderway := by
  induction hmarket : s.market generalizing s with
  | nil => exact ⟨0, s, rfl, hmarket, by simp [drained, hmarket], rfl, rfl⟩
  | cons message market ih =>
      let next := bookOnEvent (s.book, s.resyncNeeded) message.2
      let mid : SyncSystem := { s with book := next.1, resyncNeeded := next.2, market := market }
      have hstep : s.step .handle = some mid := by
        simp only [SyncSystem.step, hmarket]
        rfl
      obtain ⟨n, t, hrun, hnil, hbook, hpollers, hfetch⟩ := ih mid rfl
      refine ⟨n + 1, t, ?_, hnil, ?_, hpollers, hfetch⟩
      · rw [List.replicate_succ]
        exact machine.exec_cons_eq_some.mpr ⟨mid, hstep, hrun⟩
      · rw [hbook]
        simp only [drained, hmarket, List.map_cons, List.foldl_cons]
        rfl

/-- **Recovery, exactly.**  In every run whose steps are not stranding, in every state reached a
buffering book has its snapshot on the way; and one stranding step leaves, once the queued
messages have been handled, a buffering book with nothing on the way. -/
theorem recovering_of_not_stranding (symbol : String) (depthLevels : Nat)
    (timeoutSecs startMs : Nat) (ls : List Label) (s : SyncSystem)
    (hrun : machine.exec (init symbol depthLevels timeoutSecs startMs) ls = some s) :
    (machine.Guarded NotStranding (init symbol depthLevels timeoutSecs startMs) ls →
      s.Recovering) ∧
    (∀ l s', s.step l = some s' → ¬ s.NotStranding l →
      ∃ n t, machine.exec s' (List.replicate n .handle) = some t ∧ ¬ t.Recovering) := by
  refine ⟨?_, ?_⟩
  · intro hguard
    have hinit : (init symbol depthLevels timeoutSecs startMs).Settles ∧
        (init symbol depthLevels timeoutSecs startMs).PollerAlive :=
      ⟨settles_of_ingestion (by simp [init]), fun hreading => by cases hreading⟩
    exact (machine.exec_invariant (I := fun s => s.Settles ∧ s.PollerAlive)
      (fun _ _ _ hs hl hstep => ⟨hs.1.step hs.2 hl hstep, hs.2.step hstep⟩)
      hinit hguard hrun).1.recovering
  · intro l s' hstep hstranding
    have hunsettled := not_settles_of_stranding hstep hstranding
    obtain ⟨n, t, hdrain, hmarket, hbook, hpollers, hfetch⟩ := s'.exists_drain
    refine ⟨n, t, hdrain, fun hrecovering => hunsettled ?_⟩
    have hbook1 : t.book = s'.drained.1 := congrArg Prod.fst hbook
    have hbook2 : t.resyncNeeded = s'.drained.2 := congrArg Prod.snd hbook
    cases hlive : t.book.isLive with
    | true => exact Or.inl (hbook1 ▸ hlive)
    | false =>
        rcases hrecovering hlive with ⟨hraised, hne⟩ | htask | hsnap | hqueued | hing
        · exact Or.inr (Or.inr ⟨hbook2 ▸ hraised, hpollers ▸ hne⟩)
        · exact Or.inr (Or.inl (hfetch ▸ fetchUnderway_iff.mpr (Or.inr htask)))
        · simp [hmarket] at hsnap
        · simp [hmarket] at hqueued
        · exact Or.inr (Or.inl (hfetch ▸ fetchUnderway_iff.mpr (Or.inl hing)))

/-- A snapshot with one level a side. -/
def firstSnapshot : DepthSnapshot := ⟨10, [("100", "1")], [("101", "1")]⟩

/-- The first connection brings the book live. -/
def firstSync : List Label :=
  [.connectOk, .initialWake 0, .initialFetched 0 firstSnapshot, .initialSend 0, .handle]

/-- The watchdog's Reconnect comes while ingestion is out of its loop, and the snapshot task of the
next connection fails after the one of the connection after it has been spawned. -/
def reconnects : List Label :=
  firstSync ++
    [.clock 35000, .watchdogWake, .socketLost, .watchdogSend, .handle, .sendReconnect, .handle,
      .retry, .connectOk, .initialWake 0, .socketLost, .sendReconnect, .handle, .retry, .connectOk,
      .initialFailed 0]

/-- Neither strands the book, which buffers with one snapshot task left. -/
theorem reconnects_recovering :
    ∃ s, machine.exec (init "BTCUSDT" 20 30 0) reconnects = some s ∧
      s.book.isLive = false ∧ s.resyncNeeded = false ∧ s.Recovering := by
  have hsome : ((machine.exec (init "BTCUSDT" 20 30 0) reconnects).any fun s =>
      s.book.isLive = false ∧ s.resyncNeeded = false) = true := by decide +kernel
  obtain ⟨s, hrun, hbuffering⟩ := (Option.any_eq_true _ _).mp hsome
  obtain ⟨hlive, hflag⟩ := of_decide_eq_true hbuffering
  have hguarded : machine.Guarded NotStranding (init "BTCUSDT" 20 30 0) reconnects := by
    decide +kernel
  exact ⟨s, hrun, hlive, hflag, (recovering_of_not_stranding _ _ _ _ _ s hrun).1 hguarded⟩

/-- A silent socket: the watchdog resets the live book, and nobody fetches a snapshot. -/
theorem watchdog_strands_book :
    ¬ ∀ (ls : List Label) (s : SyncSystem),
      machine.exec (init "BTCUSDT" 20 30 0) ls = some s → s.Recovering := by
  intro h
  have hsome : ((machine.exec (init "BTCUSDT" 20 30 0)
      (firstSync ++ [.clock 35000, .watchdogWake, .watchdogSend, .handle])).any fun s =>
        ¬ s.Recovering) = true := by decide +kernel
  obtain ⟨s, hrun, hstranded⟩ := (Option.any_eq_true _ _).mp hsome
  exact of_decide_eq_true hstranded (h _ s hrun)

end SyncSystem

end CryptoTrader
