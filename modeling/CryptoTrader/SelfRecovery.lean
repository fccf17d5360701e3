/-
# CryptoTrader.SelfRecovery — what a stranded book can and cannot do.

`Recovery` shows that `Settles` is kept by every step but two, and that it puts a snapshot on its way to
a buffering book.  Here is what it is worth: where it holds, the program brings the book back to life
by itself, whatever snapshot the exchange answers with, with no new connection and no new message
needed (`Settles.recovers`); and where it does not, nothing that the threads do and nothing that the
socket delivers brings the book back (`Stranded.step`).  The one way out is to lose the
connection.
-/
import CryptoTrader.Progress

namespace CryptoTrader

open Lib

namespace SyncSystem

/-! ## §1 The way back -/

/-- The steps of a recovery: nothing is lost, nothing fails, nothing new is received, the watchdog is
quiet, and the exchange answers with this snapshot. -/
def Label.Helping (snapshot : DepthSnapshot) : Label → Prop
  | .handle | .connectOk | .sendReconnect | .retry | .initialWake _ | .initialSend _
  | .pollerClaim _ | .pollerWake _ | .pollerSend _ => True
  | .initialFetched _ answer | .pollerFetched _ answer => answer = snapshot
  | _ => False

/-- Helping steps lead to a live book with no message left. -/
def Recovers (snapshot : DepthSnapshot) (s : SyncSystem) : Prop :=
  ∃ ls t, (∀ l ∈ ls, Label.Helping snapshot l) ∧ machine.exec s ls = some t ∧ t.market = [] ∧
    t.book.isLive = true

theorem Recovers.of_step {snapshot : DepthSnapshot} {s s' : SyncSystem} {l : Label}
    (h : s'.Recovers snapshot) (hl : l.Helping snapshot) (hstep : s.step l = some s') :
    s.Recovers snapshot := by
  obtain ⟨ls, t, hls, hrun, hend⟩ := h
  refine ⟨l :: ls, t, ?_, machine.exec_cons_eq_some.mpr ⟨s', hstep, hrun⟩, hend⟩
  intro m hm
  rcases List.mem_cons.mp hm with rfl | hm
  · exact hl
  · exact hls m hm

/-- The system with all queued messages handled. -/
def afterDrain (s : SyncSystem) : SyncSystem :=
  { s with book := s.drained.1, resyncNeeded := s.drained.2, market := [] }

/-- Handling the queued messages is a way there. -/
theorem Recovers.of_afterDrain {snapshot : DepthSnapshot} {s : SyncSystem}
    (h : s.afterDrain.Recovers snapshot) : s.Recovers snapshot := by
  induction hmarket : s.market generalizing s with
  | nil =>
      have hsame : s.afterDrain = s := by
        simp only [afterDrain, drained, hmarket, List.map_nil, List.foldl_nil]
        rw [← hmarket]
      exact hsame ▸ h
  | cons message market ih =>
      let next := bookOnEvent (s.book, s.resyncNeeded) message.2
      let mid : SyncSystem := { s with book := next.1, resyncNeeded := next.2, market := market }
      have hstep : s.step .handle = some mid := by
        simp only [SyncSystem.step, hmarket]
        rfl
      have hsame : mid.afterDrain = s.afterDrain := by
        simp only [afterDrain, drained, hmarket, List.map_cons, List.foldl_cons]
        rfl
      exact (ih (hsame ▸ h) rfl).of_step (l := .handle) trivial hstep

/-- Where the queued messages leave the book live, handling them is all it takes. -/
theorem recovers_of_drained_live {snapshot : DepthSnapshot} {s : SyncSystem}
    (h : s.drained.1.isLive = true) : s.Recovers snapshot :=
  Recovers.of_afterDrain
    ⟨[], s.afterDrain, fun _ h => absurd h List.not_mem_nil, rfl, rfl, h⟩

/-- A snapshot at the back of the channel brings the book back. -/
theorem recovers_of_enqueue (snapshot answer : DepthSnapshot) (s : SyncSystem) :
    (s.enqueue .snapshotTask (.depthSnapshot answer)).Recovers snapshot := by
  apply recovers_of_drained_live
  rw [drained_enqueue]
  exact Orderbook.handleSnapshot_isLive _ _

/-- An empty channel has room. -/
theorem hasRoom_of_market_nil {s : SyncSystem} (h : s.market = []) : s.hasRoom = true := by
  simp [hasRoom, h, marketChannelCap]

/-- A snapshot task delivers, however far it is. -/
theorem recovers_of_initial (snapshot : DepthSnapshot) {s : SyncSystem} (hmarket : s.market = [])
    (h : s.initialTasks ≠ []) : s.Recovers snapshot := by
  have hsend : ∀ (s : SyncSystem) answer rest, s.market = [] →
      s.initialTasks = .sending answer :: rest → s.Recovers snapshot := by
    intro s answer rest hmarket htasks
    refine (recovers_of_enqueue snapshot answer
      { s with initialTasks := s.initialTasks.eraseIdx 0 }).of_step (l := .initialSend 0) trivial ?_
    simp only [SyncSystem.step, htasks, List.getElem?_cons_zero, hasRoom_of_market_nil hmarket,
      if_true]
  have hfetch : ∀ (s : SyncSystem) rest, s.market = [] →
      s.initialTasks = .fetching :: rest → s.Recovers snapshot := by
    intro s rest hmarket htasks
    refine (hsend { s with initialTasks := .sending snapshot :: rest } snapshot rest hmarket
      rfl).of_step (l := .initialFetched 0 snapshot) rfl ?_
    simp [SyncSystem.step, htasks]
  cases htasks : s.initialTasks with
  | nil => exact absurd htasks h
  | cons task rest =>
      cases task with
      | sending answer => exact hsend s answer rest hmarket htasks
      | fetching => exact hfetch s rest hmarket htasks
      | sleeping =>
          refine (hfetch { s with resyncNeeded := false, initialTasks := .fetching :: rest } rest
            hmarket rfl).of_step (l := .initialWake 0) trivial ?_
          simp [SyncSystem.step, htasks]

/-- And so does a resync poller that has claimed the flag. -/
theorem recovers_of_busy (snapshot : DepthSnapshot) {s : SyncSystem} (hmarket : s.market = [])
    {j : Nat} {fetch : Fetch} (h : s.pollers[j]? = some (.resyncing fetch)) :
    s.Recovers snapshot := by
  have hsend : ∀ (s : SyncSystem) answer, s.market = [] →
      s.pollers[j]? = some (.resyncing (.sending answer)) → s.Recovers snapshot := by
    intro s answer hmarket hpoller
    refine (recovers_of_enqueue snapshot answer
      { s with pollers := s.pollers.set j .polling }).of_step (l := .pollerSend j) trivial ?_
    simp only [SyncSystem.step, hpoller, hasRoom_of_market_nil hmarket, if_true]
  have hset : ∀ (pollers : List Poller) poller poller', pollers[j]? = some poller →
      (pollers.set j poller')[j]? = some poller' := by
    intro pollers poller poller' hget
    obtain ⟨hlt, -⟩ := List.getElem?_eq_some_iff.mp hget
    simp [hlt]
  have hfetch : ∀ s : SyncSystem, s.market = [] →
      s.pollers[j]? = some (.resyncing .fetching) → s.Recovers snapshot := by
    intro s hmarket hpoller
    refine (hsend { s with pollers := s.pollers.set j (.resyncing (.sending snapshot)) } snapshot
      hmarket (hset _ _ _ hpoller)).of_step (l := .pollerFetched j snapshot) rfl ?_
    simp [SyncSystem.step, hpoller]
  cases fetch with
  | sending answer => exact hsend s answer hmarket h
  | fetching => exact hfetch s hmarket h
  | sleeping =>
      refine (hfetch { s with pollers := s.pollers.set j (.resyncing .fetching) } hmarket
        (hset _ _ _ h)).of_step (l := .pollerWake j) trivial ?_
      simp [SyncSystem.step, h]

/-- Ingestion on its way to a connection spawns a snapshot task there. -/
theorem recovers_of_ingestion (snapshot : DepthSnapshot) {s : SyncSystem} (hmarket : s.market = [])
    (h : s.ingestion ≠ .reading) : s.Recovers snapshot := by
  have hconnect : ∀ s : SyncSystem, s.market = [] → s.ingestion = .connecting →
      s.Recovers snapshot := by
    intro s hmarket hphase
    refine (recovers_of_initial snapshot (s := { s with
      ingestion := .reading
      initialTasks := s.initialTasks ++ [.sleeping]
      pollers := s.pollers ++ [.polling] }) hmarket (by simp)).of_step (l := .connectOk) trivial ?_
    simp [SyncSystem.step, hphase]
  have hretry : ∀ s : SyncSystem, s.market = [] → s.ingestion = .waiting →
      s.Recovers snapshot := by
    intro s hmarket hphase
    refine (hconnect { s with ingestion := .connecting } hmarket rfl).of_step (l := .retry)
      trivial ?_
    simp [SyncSystem.step, hphase]
  cases hphase : s.ingestion with
  | reading => exact absurd hphase h
  | connecting => exact hconnect s hmarket hphase
  | waiting => exact hretry s hmarket hphase
  | disconnected =>
      -- its Reconnect resets the book first
      refine (Recovers.of_afterDrain (hretry
        ({ s with ingestion := .waiting }.enqueue .ingestion .reconnect).afterDrain rfl
        rfl)).of_step (l := .sendReconnect) trivial ?_
      simp [SyncSystem.step, hphase, hasRoom_of_market_nil hmarket]

/-- **Where the system settles it recovers**, whatever the exchange answers. -/
theorem Settles.recovers {s : SyncSystem} (h : s.Settles) (snapshot : DepthSnapshot) :
    s.Recovers snapshot := by
  rcases h with hlive | hfetch | ⟨hraised, hpollers⟩
  · exact recovers_of_drained_live hlive
  · refine Recovers.of_afterDrain ?_
    rcases fetchUnderway_iff.mp hfetch with hing | hinit | hbusy
    · exact recovers_of_ingestion snapshot rfl hing
    · exact recovers_of_initial snapshot rfl hinit
    · obtain ⟨poller, hmem, hbusy⟩ := List.any_eq_true.mp hbusy
      obtain ⟨j, hj⟩ := List.mem_iff_getElem?.mp hmem
      cases poller with
      | polling => cases hbusy
      | resyncing fetch =>
          exact recovers_of_busy snapshot (s := s.afterDrain) rfl hj
  · -- the flag is up once the messages are handled, and a poller sees it
    refine Recovers.of_afterDrain ?_
    obtain ⟨poller, rest, hcons⟩ := List.exists_cons_of_ne_nil hpollers
    have hfirst : s.afterDrain.pollers[0]? = some poller := by
      show s.pollers[0]? = some poller
      rw [hcons]
      rfl
    cases poller with
    | resyncing fetch => exact recovers_of_busy snapshot rfl hfirst
    | polling =>
        let claimed : SyncSystem := { s.afterDrain with
          resyncNeeded := false
          pollers := s.pollers.set 0 (.resyncing .sleeping) }
        have hclaimed : claimed.pollers[0]? = some (.resyncing .sleeping) := by
          simp [claimed, hcons]
        refine (recovers_of_busy snapshot (s := claimed) rfl hclaimed).of_step
          (l := .pollerClaim 0) trivial ?_
        have hflag : s.afterDrain.resyncNeeded = true := hraised
        simp only [SyncSystem.step, hfirst, hflag, and_self, if_true]
        rfl

/-! ## §2 No way back -/

/-- What it takes not to settle. -/
structure Stranded (s : SyncSystem) : Prop where
  buffering : s.drained.1.isLive = false
  reading : s.ingestion = .reading
  noInitial : s.initialTasks = []
  noneBusy : s.pollers.any Poller.busy = false
  unheard : s.drained.2 = true → s.pollers = []

theorem stranded_iff {s : SyncSystem} : s.Stranded ↔ ¬ s.Settles := by
  constructor
  · rintro ⟨hbuffering, hreading, hinitial, hbusy, hunheard⟩ (hlive | hfetch | ⟨hraised, hpollers⟩)
    · rw [hbuffering] at hlive
      cases hlive
    · rcases fetchUnderway_iff.mp hfetch with hing | hinit | hany
      · exact hing hreading
      · exact hinit hinitial
      · rw [hbusy] at hany
        cases hany
    · exact hpollers (hunheard hraised)
  · intro h
    have hfetch : ¬ s.fetchUnderway = true := fun hfetch => h (Or.inr (Or.inl hfetch))
    rw [fetchUnderway_iff, not_or, not_or, not_not, not_not] at hfetch
    obtain ⟨hreading, hinitial, hbusy⟩ := hfetch
    refine ⟨?_, hreading, hinitial, Bool.not_eq_true _ ▸ hbusy, ?_⟩
    · exact Bool.not_eq_true _ ▸ fun hlive => h (Or.inl hlive)
    · intro hraised
      by_contra hpollers
      exact h (Or.inr (Or.inr ⟨hraised, hpollers⟩))

/-- A message that is no snapshot does not help. -/
theorem Stranded.enqueue {s : SyncSystem} (h : s.Stranded) (sender : Sender) {event : MarketEvent}
    (hevent : isSnapshot event = false) : (s.enqueue sender event).Stranded := by
  obtain ⟨hbuffering, hflag⟩ := bookOnEvent_buffering h.buffering hevent
  rw [← drained_enqueue s sender event] at hbuffering hflag
  exact ⟨hbuffering, h.reading, h.noInitial, h.noneBusy, fun hraised => h.unheard (hflag ▸ hraised)⟩

/-- **A stranded system stays stranded**, until the connection is lost. -/
theorem Stranded.step {s s' : SyncSystem} {l : Label} (h : s.Stranded) (hl : l ≠ .socketLost)
    (hstep : s.step l = some s') : s'.Stranded := by
  obtain ⟨hbuffering, hreading, hinitial, hbusy, hunheard⟩ := h
  have hidle : ∀ {j : Nat} {fetch : Fetch}, ¬ s.pollers[j]? = some (.resyncing fetch) := by
    intro j fetch hpoller
    have hany : s.pollers.any Poller.busy = true :=
      List.any_eq_true.mpr ⟨_, List.mem_of_getElem? hpoller, rfl⟩
    rw [hbusy] at hany
    cases hany
  cases l with
  | socketLost => exact absurd rfl hl
  | handle =>
      -- what the queue comes to stays the same
      simp only [SyncSystem.step] at hstep
      split at hstep
      · next message market hmarket =>
          obtain rfl := Option.some.inj hstep
          have hdrained : s.drained = (market.map Prod.snd).foldl bookOnEvent
              (bookOnEvent (s.book, s.resyncNeeded) message.2) := by
            simp only [drained, hmarket, List.map_cons, List.foldl_cons]
          rw [hdrained] at hbuffering hunheard
          exact ⟨hbuffering, hreading, hinitial, hbusy, hunheard⟩
      · cases hstep
  | connectOk | connectErr | sendReconnect | retry =>
      simp [SyncSystem.step, hreading] at hstep
  | initialWake _ | initialFetched _ _ | initialFailed _ | initialSend _ =>
      simp [SyncSystem.step, hinitial] at hstep
  | receive event =>
      obtain ⟨⟨-, -, hsocket⟩, rfl⟩ := Option.ite_some_none_eq_some.mp hstep
      have hevent : isSnapshot event = false := by
        cases event with
        | depthSnapshot snapshot => cases hsocket
        | _ => rfl
      exact Stranded.enqueue (s := { s with lastSeenMs := s.nowMs })
        ⟨hbuffering, hreading, hinitial, hbusy, hunheard⟩ .ingestion hevent
  | pollerClaim j =>
      -- no poller is left to claim the flag, or it is not up
      obtain ⟨⟨hpoller, hflag⟩, -⟩ := Option.ite_some_none_eq_some.mp hstep
      have hraised : s.drained.2 = true := foldl_bookOnEvent_flag hflag _
      rw [hunheard hraised] at hpoller
      cases hpoller
  | pollerWake _ | pollerFetched _ _ | pollerFailed _ =>
      obtain ⟨hpoller, -⟩ := Option.ite_some_none_eq_some.mp hstep
      exact absurd hpoller hidle
  | pollerSend j =>
      obtain ⟨snapshot, hpoller, -⟩ := pollerSend_eq_some hstep
      exact absurd hpoller hidle
  | watchdogWake =>
      obtain ⟨watchdog, rfl⟩ := watchdogWake_eq_some hstep
      exact ⟨hbuffering, hreading, hinitial, hbusy, hunheard⟩
  | watchdogSend =>
      obtain ⟨-, rfl⟩ := Option.ite_some_none_eq_some.mp hstep
      exact Stranded.enqueue (s := { s with watchdog := .sleeping })
        ⟨hbuffering, hreading, hinitial, hbusy, hunheard⟩ .watchdog rfl
  | clock nowMs =>
      obtain rfl := Option.some.inj hstep
      exact ⟨hbuffering, hreading, hinitial, hbusy, hunheard⟩

end SyncSystem

namespace Program

variable {σ : Type} [Strategy σ]

/-- Helping steps of the network, with trading going on and nobody at the kill switch. -/
def Label.Helping (snapshot : DepthSnapshot) : Label → Prop
  | .network l => l.Helping snapshot
  | .switch _ => False
  | _ => True

/-- **The book comes back by itself exactly where the system settles.**  From a state of the program in
which `Settles` holds, and for every answer the exchange may give to a request for a snapshot, there is
a run without a lost connection, a failed fetch or a new message that ends with a live book and no
message queued.  From a state in which it does not hold, every run without a lost connection stays
there, whatever the socket delivers, the watchdog does and the exchange answers: once the queued
messages have been handled the book is buffering. -/
theorem recovers_alone_iff_settles (p : Program σ) :
    (p.sync.Settles → ∀ snapshot, ∃ ls p', (∀ l ∈ ls, l.Helping snapshot) ∧
      machine.exec p ls = some p' ∧ p'.network.market = [] ∧ p'.pipeline.book.isLive = true) ∧
    (¬ p.sync.Settles → ∀ ls p', .network .socketLost ∉ ls → machine.exec p ls = some p' →
      ¬ p'.sync.Settles ∧ (p'.network.market = [] → p'.pipeline.book.isLive = false)) := by
  refine ⟨?_, ?_⟩
  · intro hsettles snapshot
    obtain ⟨ks, s, hks, hexec, hmarket, hlive⟩ := hsettles.recovers snapshot
    obtain ⟨ls, p', hrun, htrace, rfl, hswitch⟩ := exists_feed_run hexec
    refine ⟨ls, p', ?_, hrun, hmarket, hlive⟩
    intro l hl
    cases l with
    | network k =>
        -- a step of the network is one of the recovery
        refine hks k ?_
        rw [← htrace]
        exact machine.mem_outputs (fun _ => List.mem_singleton_self k) hl hrun
    | switch k => exact hswitch k hl
    | _ => trivial
  · intro hunsettled ls p' hls hrun
    have hguard : machine.Guarded (fun _ l => l ≠ .network .socketLost) p ls := by
      refine machine.guarded_of_forall ?_ p
      rintro _ l hl rfl
      exact hls hl
    have hstranded : p'.sync.Stranded := by
      refine machine.exec_invariant (C := fun _ l => l ≠ .network .socketLost)
        (I := fun q : Program σ => q.sync.Stranded) ?_ (SyncSystem.stranded_iff.mpr hunsettled)
        hguard hrun
      intro q l q' hq hl hstep
      rcases sync_step hstep with hsame | ⟨k, hk, rfl | rfl⟩
      · rw [hsame]
        exact hq
      · exact hq.step (by simp) hk
      · exact hq.step (fun heq => hl (congrArg Label.network heq)) hk
    refine ⟨SyncSystem.stranded_iff.mp hstranded, ?_⟩
    intro hmarket
    have hdrained : p'.sync.drained.1 = p'.pipeline.book := by
      simp only [SyncSystem.drained, show p'.sync.market = [] from hmarket, List.map_nil,
        List.foldl_nil]
      rfl
    rw [← hdrained]
    exact hstranded.buffering

end Program

end CryptoTrader
