/-
# CryptoTrader.ExchangeView — what is shown is what the exchange had.

The end-to-end reading of `Replica`: not one book fed by calls, but the whole program, where snapshots
are fetched by tasks of their own, wait for room, overtake updates and are overtaken, and where
reconnects come from two sides.  What the exchange sends is assumed to be true, message by message, and
nothing else about the order or the time in which it arrives.

Then every snapshot the strategy or the dashboard is ever shown is the top of the exchange's own book
at one update id (`ShowsExchange`): the levels are levels it had together, and none that it had is left
out, but for those below the depth shown.

All of it is at the resolution of keys: the exchange's book is a quantity for each price key, and a price
stands for its key.
-/
import CryptoTrader.MarketFlow
import CryptoTrader.Replica
import CryptoTrader.TopOfBook

namespace CryptoTrader

open Lib Lib.RecentWindow Replica

/-! ## §1 The top of the exchange's book -/

/-- A view of a side of the exchange: as many of its levels as fit, best price first. -/
structure TopOf (better : ℚ → ℚ → Prop) (depth : Nat) (quantities : Nat → ℚ)
    (view : List (ℚ × ℚ)) : Prop where
  sorted : view.Pairwise fun l l' => better l.1 l'.1
  listed : ∀ l ∈ view, ∃ key, Orderbook.keyPrice key = l.1 ∧ quantities key = l.2 ∧ l.2 ≠ 0
  hidden : ∀ key, quantities key ≠ 0 → (Orderbook.keyPrice key, quantities key) ∉ view →
    view.length = depth ∧ ∀ l ∈ view, better l.1 (Orderbook.keyPrice key)

/-- The top of a mirrored side is the top of the exchange's. -/
theorem TopLevels.topOf {better : ℚ → ℚ → Prop} {depth : Nat} {side : Side} {view : List (ℚ × ℚ)}
    {quantities : Nat → ℚ} (h : TopLevels better depth side view)
    (hmirrors : Replica.Mirrors side quantities)
    (hall : side.size ≤ depth → ∀ l ∈ side.toList, (Orderbook.keyPrice l.1, l.2) ∈ view) :
    TopOf better depth quantities view := by
  refine ⟨h.sorted, ?_, ?_⟩
  · intro l hl
    obtain ⟨key, hprice, hget⟩ := h.stored l hl
    rw [hmirrors key] at hget
    split at hget
    · cases hget
    · next hne =>
        obtain hqty := Option.some.inj hget
        exact ⟨key, hprice, hqty, hqty ▸ hne⟩
  · intro key hne hout
    have hget : side[key]? = some (quantities key) := by
      rw [hmirrors key, if_neg hne]
    refine ⟨?_, h.hidden key _ hget hout⟩
    -- a level is only left out when the side does not fit
    have hlarge : ¬ side.size ≤ depth := fun hsmall =>
      hout (hall hsmall _ (Std.ExtTreeMap.mem_toList_iff_getElem?_eq_some.mpr hget))
    have hlength := h.length
    omega

/-- The exchange had this snapshot at this id. -/
def ShowsAt (B : ExchangeHistory) (depth : Nat) (n : UInt64) (snapshot : OrderbookSnapshot) : Prop :=
  TopOf (· > ·) depth (B.bids n) snapshot.bids ∧ TopOf (· < ·) depth (B.asks n) snapshot.asks

/-- The exchange had this snapshot at one of its update ids. -/
def ShowsExchange (B : ExchangeHistory) (depth : Nat) (snapshot : OrderbookSnapshot) : Prop :=
  ∃ n, TopOf (· > ·) depth (B.bids n) snapshot.bids ∧ TopOf (· < ·) depth (B.asks n) snapshot.asks

/-- What a book that mirrors the exchange publishes. -/
theorem Orderbook.snapshot_showsAt {B : ExchangeHistory} {book : Orderbook} {n : UInt64}
    (h : MirrorsAt B book.sides n) (nowMs : UInt64) :
    ShowsAt B book.depthLevels n (book.snapshot nowMs) := by
  refine ⟨(book.snapshot_bids nowMs).topOf h.1 ?_, (book.snapshot_asks nowMs).topOf h.2 ?_⟩
  · intro hsmall l hl
    show _ ∈ (book.bids.toList.reverse.take book.depthLevels).map _
    rw [List.take_of_length_le (by rw [List.length_reverse, Std.ExtTreeMap.length_toList]; exact hsmall)]
    exact List.mem_map_of_mem (List.mem_reverse.mpr hl)
  · intro hsmall l hl
    show _ ∈ (book.asks.toList.take book.depthLevels).map _
    rw [List.take_of_length_le (by rw [Std.ExtTreeMap.length_toList]; exact hsmall)]
    exact List.mem_map_of_mem hl

/-- The best price of a side, when any is shown. -/
theorem TopOf.head {better : ℚ → ℚ → Prop} {depth : Nat} {quantities : Nat → ℚ}
    {view : List (ℚ × ℚ)} (h : TopOf better depth quantities view) {l : ℚ × ℚ}
    (hl : view.head? = some l) :
    ∃ key, Orderbook.keyPrice key = l.1 ∧ quantities key ≠ 0 ∧
      ∀ key', quantities key' ≠ 0 → Orderbook.keyPrice key' = l.1 ∨
        better l.1 (Orderbook.keyPrice key') := by
  have hmem : l ∈ view := List.mem_of_mem_head? hl
  obtain ⟨key, hprice, hqty, hne⟩ := h.listed l hmem
  refine ⟨key, hprice, hqty ▸ hne, ?_⟩
  intro key' hne'
  by_cases hin : (Orderbook.keyPrice key', quantities key') ∈ view
  · obtain ⟨rest, rfl⟩ := List.head?_eq_some_iff.mp hl
    rcases List.mem_cons.mp hin with heq | hrest
    · exact Or.inl (congrArg Prod.fst heq)
    · exact Or.inr ((List.pairwise_cons.mp h.sorted).1 _ hrest)
  · exact Or.inr ((h.hidden key' hne' hin).2 l hmem)

/-! ## §2 True messages -/

/-- What a message says is true. -/
def MarketEvent.Genuine (B : ExchangeHistory) : MarketEvent → Prop
  | .depthUpdate update => GenuineUpdate B update
  | .depthSnapshot snapshot => GenuineSnapshot B snapshot
  | _ => True

theorem InSync.afterEvent {B : ExchangeHistory} {book : Orderbook} (h : InSync B book)
    {event : MarketEvent} (hevent : event.Genuine B) : InSync B (book.afterEvent event) := by
  cases event with
  | depthUpdate update =>
      have hupdate := h.handleUpdate hevent false
      simp only [Orderbook.afterEvent, bookOnEvent]
      generalize book.handleUpdate update false = out at hupdate ⊢
      obtain ⟨result, book', flag⟩ := out
      cases result with
      | ok applied => exact hupdate
      | error _ => exact inSync_reset B book'
  | depthSnapshot snapshot => exact h.handleSnapshot hevent
  | trade trade => exact h
  | reconnect => exact inSync_reset B book

namespace SyncSystem

/-- The exchange is asked, or speaks, in these steps; it tells the truth. -/
def Label.Genuine (B : ExchangeHistory) : Label → Prop
  | .receive event => event.Genuine B
  | .initialFetched _ snapshot | .pollerFetched _ snapshot => GenuineSnapshot B snapshot
  | _ => True

end SyncSystem

/-- A snapshot on its way is true. -/
def Fetch.Genuine (B : ExchangeHistory) : Fetch → Prop
  | .sending snapshot => GenuineSnapshot B snapshot
  | _ => True

def Poller.Genuine (B : ExchangeHistory) : Poller → Prop
  | .resyncing fetch => fetch.Genuine B
  | .polling => True

theorem forall_mem_set {α : Type} {P : α → Prop} {xs : List α} {i : Nat} {x : α}
    (h : ∀ y ∈ xs, P y) (hx : P x) : ∀ y ∈ xs.set i x, P y := by
  intro y hy
  rcases List.mem_or_eq_of_mem_set hy with hy | rfl
  · exact h y hy
  · exact hx

namespace SyncSystem

/-- Everything in the system that the exchange has said is true. -/
structure Faithful (B : ExchangeHistory) (s : SyncSystem) : Prop where
  book : InSync B s.book
  market : ∀ m ∈ s.market, m.2.Genuine B
  initialTasks : ∀ task ∈ s.initialTasks, task.Genuine B
  pollers : ∀ poller ∈ s.pollers, poller.Genuine B

theorem Faithful.enqueue {B : ExchangeHistory} {s : SyncSystem} (h : s.Faithful B)
    (sender : Sender) {event : MarketEvent} (hevent : event.Genuine B) :
    (s.enqueue sender event).Faithful B := by
  refine ⟨h.book, ?_, h.initialTasks, h.pollers⟩
  intro m hm
  rcases List.mem_append.mp hm with hm | hm
  · exact h.market m hm
  · rw [List.mem_singleton.mp hm]
    exact hevent

/-- **One step.** -/
theorem Faithful.step {B : ExchangeHistory} {s s' : SyncSystem} {l : Label} (h : s.Faithful B)
    (hl : l.Genuine B) (hstep : s.step l = some s') : s'.Faithful B := by
  obtain ⟨hbook, hmarket, htasks, hpollers⟩ := h
  cases l with
  | handle =>
      simp only [SyncSystem.step] at hstep
      split at hstep
      · next message market hqueue =>
          obtain rfl := Option.some.inj hstep
          have hfront : message.2.Genuine B := hmarket message (by rw [hqueue]; simp)
          refine ⟨?_, ?_, htasks, hpollers⟩
          · rw [Orderbook.bookOnEvent_book]
            exact InSync.afterEvent hbook hfront
          · intro m hm
            exact hmarket m (by rw [hqueue]; exact List.mem_cons_of_mem message hm)
      · cases hstep
  | connectOk =>
      -- the new task sleeps, and the new poller polls
      obtain ⟨-, rfl⟩ := Option.ite_some_none_eq_some.mp hstep
      refine ⟨hbook, hmarket, ?_, ?_⟩
      · intro task hmem
        rcases List.mem_append.mp hmem with hmem | hmem
        · exact htasks task hmem
        · rw [List.mem_singleton.mp hmem]
          trivial
      · intro poller hmem
        rcases List.mem_append.mp hmem with hmem | hmem
        · exact hpollers poller hmem
        · rw [List.mem_singleton.mp hmem]
          trivial
  | connectErr | socketLost | retry =>
      obtain ⟨-, rfl⟩ := Option.ite_some_none_eq_some.mp hstep
      exact ⟨hbook, hmarket, htasks, hpollers⟩
  | receive event =>
      obtain ⟨-, rfl⟩ := Option.ite_some_none_eq_some.mp hstep
      exact Faithful.enqueue (s := { s with lastSeenMs := s.nowMs })
        ⟨hbook, hmarket, htasks, hpollers⟩ .ingestion hl
  | sendReconnect =>
      obtain ⟨-, rfl⟩ := Option.ite_some_none_eq_some.mp hstep
      exact Faithful.enqueue (s := { s with ingestion := .waiting })
        ⟨hbook, hmarket, htasks, hpollers⟩ .ingestion trivial
  | initialWake i =>
      obtain ⟨-, rfl⟩ := Option.ite_some_none_eq_some.mp hstep
      exact ⟨hbook, hmarket, forall_mem_set htasks trivial, hpollers⟩
  | initialFetched i snapshot =>
      obtain ⟨-, rfl⟩ := Option.ite_some_none_eq_some.mp hstep
      exact ⟨hbook, hmarket, forall_mem_set htasks hl, hpollers⟩
  | initialFailed i =>
      obtain ⟨-, rfl⟩ := Option.ite_some_none_eq_some.mp hstep
      exact ⟨hbook, hmarket, fun task hmem => htasks task (List.mem_of_mem_eraseIdx hmem), hpollers⟩
  | initialSend i =>
      obtain ⟨snapshot, htask, -, rfl⟩ := initialSend_eq_some hstep
      exact Faithful.enqueue (s := { s with initialTasks := s.initialTasks.eraseIdx i })
        ⟨hbook, hmarket, fun task hmem => htasks task (List.mem_of_mem_eraseIdx hmem), hpollers⟩
        .snapshotTask (htasks _ (List.mem_of_getElem? htask))
  | pollerClaim j | pollerWake j | pollerFailed j =>
      obtain ⟨-, rfl⟩ := Option.ite_some_none_eq_some.mp hstep
      exact ⟨hbook, hmarket, htasks, forall_mem_set hpollers trivial⟩
  | pollerFetched j snapshot =>
      obtain ⟨-, rfl⟩ := Option.ite_some_none_eq_some.mp hstep
      exact ⟨hbook, hmarket, htasks, forall_mem_set hpollers hl⟩
  | pollerSend j =>
      obtain ⟨snapshot, hpoller, -, rfl⟩ := pollerSend_eq_some hstep
      exact Faithful.enqueue (s := { s with pollers := s.pollers.set j .polling })
        ⟨hbook, hmarket, htasks, forall_mem_set hpollers trivial⟩
        .snapshotTask (hpollers _ (List.mem_of_getElem? hpoller))
  | watchdogWake =>
      obtain ⟨watchdog, rfl⟩ := watchdogWake_eq_some hstep
      exact ⟨hbook, hmarket, htasks, hpollers⟩
  | watchdogSend =>
      obtain ⟨-, rfl⟩ := Option.ite_some_none_eq_some.mp hstep
      exact Faithful.enqueue (s := { s with watchdog := .sleeping })
        ⟨hbook, hmarket, htasks, hpollers⟩ .watchdog trivial
  | clock nowMs =>
      obtain rfl := Option.some.inj hstep
      exact ⟨hbook, hmarket, htasks, hpollers⟩

end SyncSystem

/-! ## §3 What the program shows -/

theorem Orderbook.afterEvent_depthLevels (book : Orderbook) (event : MarketEvent) :
    (book.afterEvent event).depthLevels = book.depthLevels := by
  cases event with
  | depthUpdate update =>
      simp only [afterEvent, bookOnEvent]
      cases hstate : book.state with
      | buffering buf => rw [handleUpdate_buffering hstate]
      | live n =>
          rw [handleUpdate_live hstate]
          cases sequencing n update <;> rfl
  | depthSnapshot snapshot =>
      show (book.handleSnapshot snapshot).2.depthLevels = book.depthLevels
      rw [handleSnapshot_eq]
      cases book.buffered.findIdx? (connects snapshot.lastUpdateId) <;> rfl
  | trade trade => rfl
  | reconnect => rfl

/-- **What the strategy is shown on a message**, and when: the book after a depth update that applies, which
is at the id of that update. -/
theorem Pipeline.quote_spec {book : Orderbook} {resyncNeeded : Bool} {nowMs : UInt64}
    {event : MarketEvent} {snapshot : OrderbookSnapshot}
    (h : quote book resyncNeeded nowMs event = some snapshot) :
    ∃ update n, event = .depthUpdate update ∧ book.state = .live n ∧
      Orderbook.sequencing n update = .apply ∧
      (book.afterEvent event).state = .live update.lastUpdateId ∧
      snapshot = (book.afterEvent event).snapshot nowMs := by
  cases event with
  | depthUpdate update =>
      have hbook := Orderbook.bookOnEvent_book book resyncNeeded (.depthUpdate update)
      simp only [bookOnEvent] at hbook
      simp only [quote] at h
      cases hstate : book.state with
      | buffering buf =>
          rw [Orderbook.handleUpdate_buffering hstate] at h
          cases h
      | live n =>
          rw [Orderbook.handleUpdate_live hstate] at h hbook
          cases hsequencing : Orderbook.sequencing n update with
          | stale =>
              rw [hsequencing] at h
              cases h
          | gap =>
              rw [hsequencing] at h
              cases h
          | apply =>
              rw [hsequencing] at h hbook
              obtain ⟨-, rfl⟩ := Option.ite_some_none_eq_some.mp h
              refine ⟨update, n, rfl, rfl, hsequencing, ?_, ?_⟩
              · rw [← hbook]
                rfl
              · rw [← hbook]
  | depthSnapshot _ => cases h
  | trade _ => cases h
  | reconnect => cases h

/-- It is the exchange's, at that id. -/
theorem Pipeline.quote_showsAt {B : ExchangeHistory} {book : Orderbook} (h : InSync B book)
    {update : DepthUpdate} (hupdate : GenuineUpdate B update) {resyncNeeded : Bool} {nowMs : UInt64}
    {snapshot : OrderbookSnapshot}
    (hquote : quote book resyncNeeded nowMs (.depthUpdate update) = some snapshot) :
    ShowsAt B book.depthLevels update.lastUpdateId snapshot := by
  obtain ⟨update', n, hevent, -, -, hstate, rfl⟩ := quote_spec hquote
  obtain rfl := MarketEvent.depthUpdate.inj hevent
  have hafter := InSync.afterEvent h (show (MarketEvent.depthUpdate update).Genuine B from hupdate)
  have hmirrors : MirrorsAt B (book.afterEvent (.depthUpdate update)).sides update.lastUpdateId := by
    simpa only [InSync, hstate] using hafter
  rw [← book.afterEvent_depthLevels (.depthUpdate update)]
  exact Orderbook.snapshot_showsAt hmirrors nowMs

theorem Pipeline.quote_showsExchange {B : ExchangeHistory} {book : Orderbook} (h : InSync B book)
    {event : MarketEvent} (hevent : event.Genuine B) {resyncNeeded : Bool} {nowMs : UInt64}
    {snapshot : OrderbookSnapshot} (hquote : quote book resyncNeeded nowMs event = some snapshot) :
    ShowsExchange B book.depthLevels snapshot := by
  obtain ⟨update, -, rfl, -⟩ := quote_spec hquote
  exact ⟨_, quote_showsAt h hevent hquote⟩

namespace Program

variable {σ : Type} [Strategy σ]

/-- What the exchange says in a step is true. -/
def Label.Genuine (B : ExchangeHistory) : Label → Prop
  | .network l => l.Genuine B
  | _ => True

/-- The exchange has told the truth, and the snapshots shown are its own. -/
structure Truthful (B : ExchangeHistory) (depth : Nat) (shown : List OrderbookSnapshot)
    (p : Program σ) : Prop where
  sync : p.sync.Faithful B
  depthLevels : p.pipeline.book.depthLevels = depth
  shown : ∀ snapshot ∈ shown, ShowsExchange B depth snapshot

theorem Truthful.step {B : ExchangeHistory} {depth : Nat} {shown : List OrderbookSnapshot}
    {p p' : Program σ} {l : Label} (h : Truthful B depth shown p) (hl : l.Genuine B)
    (hstep : p.step l = some p') : Truthful B depth (shown ++ p.shownOf l) p' := by
  obtain ⟨hsync, hdepth, hshown⟩ := h
  refine ⟨?_, ?_, ?_⟩
  · rcases sync_step hstep with hsame | ⟨k, hk, rfl | rfl⟩
    · rw [hsame]
      exact hsync
    · exact hsync.step (l := .handle) trivial hk
    · exact hsync.step hl hk
  · rw [book_step hstep, ← hdepth]
    generalize p.handledOf l = handled
    generalize p.pipeline.book = book
    induction handled generalizing book with
    | nil => rfl
    | cons message rest ih => exact (ih _).trans (book.afterEvent_depthLevels message.2)
  · intro snapshot hmem
    rcases List.mem_append.mp hmem with hmem | hmem
    · exact hshown snapshot hmem
    · cases l with
      | handle nowMs now uuid =>
          obtain ⟨message, market, hmarket, -, -⟩ := handle_spec hstep
          have hfront : message.2.Genuine B :=
            hsync.market message (by rw [show p.sync.market = _ from hmarket]; simp)
          simp only [shownOf, hmarket, List.head?_cons, Option.toList_some, List.flatMap_cons,
            List.flatMap_nil, List.append_nil, Pipeline.shownOf, Option.mem_toList] at hmem
          rw [← hdepth]
          exact Pipeline.quote_showsExchange hsync.book hfront hmem
      | _ => cases hmem

omit [Strategy σ] in
theorem truthful_init (B : ExchangeHistory) (symbol : String) (depthLevels : Nat) (strat : σ)
    (risk : RiskChecker) (initialCapitalUsdt feePct : ℚ) (haltFile : Bool)
    (timeoutSecs startMs : Nat) :
    Truthful B depthLevels [] (init symbol depthLevels strat risk initialCapitalUsdt feePct haltFile
      timeoutSecs startMs) := by
  refine ⟨⟨inSync_new B symbol depthLevels, ?_, ?_, ?_⟩, rfl, ?_⟩ <;>
    exact fun _ h => absurd h List.not_mem_nil

/-- **What is shown is what the exchange had.**  Suppose that what the exchange says is true: each
update that a socket delivers and each snapshot that is fetched.  Then in every run of the program,
in whatever order and how often the messages come in and whatever the threads do in between: a live
book is the exchange's book at its id; every snapshot the strategy has seen, and the one in the
dashboard slot, is the top of the exchange's book at one id; and every price in the history was its
best bid. -/
theorem shown_is_what_the_exchange_had (B : ExchangeHistory) (symbol : String) (depthLevels : Nat)
    (strat : σ) (risk : RiskChecker) (initialCapitalUsdt feePct : ℚ) (haltFile : Bool)
    (timeoutSecs startMs : Nat) (ls : List Label) (p : Program σ)
    (hgenuine : ∀ l ∈ ls, l.Genuine B)
    (hrun : machine.exec (init symbol depthLevels strat risk initialCapitalUsdt feePct haltFile
      timeoutSecs startMs) ls = some p) :
    let shown := machine.outputs shownOf (init symbol depthLevels strat risk initialCapitalUsdt
      feePct haltFile timeoutSecs startMs) ls
    (∀ n, p.pipeline.book.state = .live n → MirrorsAt B p.pipeline.book.sides n) ∧
    (∀ snapshot ∈ shown, ShowsExchange B depthLevels snapshot) ∧
    p.pipeline.strat
      = shown.foldl (fun strat snapshot => (Strategy.onOrderbook strat snapshot).2) strat ∧
    (∀ snapshot, p.pipeline.view.snapshot = some snapshot →
      ShowsExchange B depthLevels snapshot) ∧
    ∀ price ∈ p.pipeline.view.priceHistory, ∃ n key, Orderbook.keyPrice key = price ∧
      B.bids n key ≠ 0 ∧ ∀ key', B.bids n key' ≠ 0 → Orderbook.keyPrice key' ≤ price := by
  intro shown
  have hstart := truthful_init B symbol depthLevels strat risk initialCapitalUsdt feePct haltFile
    timeoutSecs startMs
  have hend : Truthful B depthLevels shown p :=
    machine.exec_history_guarded (C := fun _ l => Label.Genuine B l)
      (I := fun p shown => Truthful B depthLevels shown p)
      (fun _ _ _ _ h hl hstep => h.step hl hstep) hstart
      (machine.guarded_of_forall (fun _ l hl => hgenuine l hl) _) hrun
  -- the main loop's own account of what it has shown
  have hview : Pipeline.Shown strat shown p.pipeline := by
    have hmain := Pipeline.shown_of_run (toPipeline.exec hrun)
    have htrace : Pipeline.machine.outputs Pipeline.shownOf
        (Pipeline.init symbol depthLevels strat risk initialCapitalUsdt feePct haltFile)
        (toPipeline.trace (init symbol depthLevels strat risk initialCapitalUsdt feePct haltFile
          timeoutSecs startMs) ls) = shown := shown_trace hrun
    exact htrace ▸ hmain
  refine ⟨?_, hend.shown, hview.strat, ?_, ?_⟩
  · intro n hlive
    have hbook : InSync B p.pipeline.book := hend.sync.book
    simpa only [InSync, hlive] using hbook
  · intro snapshot hslot
    obtain ⟨published, hpublished, hlast⟩ := hview.slot
    have hmem : snapshot ∈ published := List.mem_of_getLast? (hlast.symm.trans hslot)
    exact hend.shown snapshot (by rw [hpublished]; exact List.mem_append_left _ hmem)
  · intro price hprice
    rw [hview.prices] at hprice
    obtain ⟨snapshot, hmem, hbid⟩ :=
      List.mem_filterMap.mp ((rtake_suffix _ _).mem hprice)
    obtain ⟨n, hbids, -⟩ := hend.shown snapshot hmem
    obtain ⟨level, hhead, rfl⟩ := Option.map_eq_some_iff.mp hbid
    obtain ⟨key, hkey, hne, hbest⟩ := hbids.head hhead
    refine ⟨n, key, hkey, hne, ?_⟩
    intro key' hne'
    rcases hbest key' hne' with heq | hless
    · exact heq.le
    · exact le_of_lt hless

/-- The empty snapshot of id 0 and the update that adds the bid: the price shown is the exchange's. -/
theorem first_bid_shown :
    ∃ p : Program PingPongStrategy,
      machine.exec (init "BTCUSDT" 20 PingPongStrategy.default (RiskChecker.new 1 0 1 5) 10000 0
        false 30 0) [.network .connectOk, .network (.initialWake 0),
          .network (.initialFetched 0 emptySnapshot), .network (.initialSend 0),
          .network (.receive (.depthUpdate bidAtOneEvent)), .handle 0 0 "a", .handle 0 0 "b"]
        = some p ∧
      p.pipeline.view.priceHistory = [1] ∧ ∃ n key, Orderbook.keyPrice key = 1 ∧
        bidAtOne.bids n key ≠ 0 := by
  have hsome : ((machine.exec (init "BTCUSDT" 20 PingPongStrategy.default
      (RiskChecker.new 1 0 1 5) 10000 0 false 30 0) [.network .connectOk, .network (.initialWake 0),
        .network (.initialFetched 0 emptySnapshot), .network (.initialSend 0),
        .network (.receive (.depthUpdate bidAtOneEvent)), .handle 0 0 "a", .handle 0 0 "b"]).any
      fun p => p.pipeline.view.priceHistory = [1]) = true := by decide +kernel
  obtain ⟨p, hrun, hhistory⟩ := (Option.any_eq_true _ _).mp hsome
  have hprices := of_decide_eq_true hhistory
  obtain ⟨-, -, -, -, hbest⟩ := shown_is_what_the_exchange_had bidAtOne _ _ _ _ _ _ _ _ _ _ p
    (by
      intro l hl
      simp only [List.mem_cons, List.not_mem_nil, or_false] at hl
      rcases hl with rfl | rfl | rfl | rfl | rfl | rfl | rfl
      · trivial
      · trivial
      · exact genuine_emptySnapshot
      · trivial
      · exact genuine_bidAtOneEvent
      · trivial
      · trivial) hrun
  obtain ⟨n, key, hkey, hne, -⟩ := hbest 1 (by rw [hprices]; exact List.mem_singleton_self 1)
  exact ⟨p, hrun, hprices, n, key, hkey, hne⟩

end Program

end CryptoTrader
