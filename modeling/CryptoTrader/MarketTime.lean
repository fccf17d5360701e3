/-
# CryptoTrader.MarketTime — the order in which the strategy sees the market.

The exchange numbers its updates, and a snapshot that the strategy is shown is the book at the id of one
update (`ExchangeView`).  Messages are dropped, repeated and overtaken on their way, and the book is thrown
away and fetched again, so nothing so far says that these ids come in order.

They do, from one REST snapshot to the next (`Feed.Continues`): each update shown reaches from at or before
the id the book was at to beyond it, so within such a stretch the time of the market moves forward, and no
update of the exchange is passed over.  Only handling a snapshot can set it back.  What is shown of the
exchange's book is its top at the resolution of price keys, as in `ExchangeView`.
-/
import CryptoTrader.ExchangeView

namespace CryptoTrader

open Lib Replica

/-! ## §1 The times of a book -/

/-- What gives the book its id. -/
inductive Feed where
  /-- a snapshot, with the buffered updates that were replayed on it -/
  | snapshot (id : UInt64)
  /-- an update, with what the strategy is shown of it -/
  | shown (update : DepthUpdate) (snapshot : OrderbookSnapshot)

namespace Feed

/-- The id that the book is left at. -/
def time : Feed → UInt64
  | snapshot id => id
  | shown update _ => update.lastUpdateId

def shown? : Feed → Option OrderbookSnapshot
  | .snapshot _ => none
  | .shown _ view => some view

/-- An update goes on where the book is: it reaches from there, or from before, to a later id. -/
def Continues (before : Feed) : Feed → Prop
  | snapshot _ => True
  | shown update _ => update.prevLastUpdateId ≤ before.time ∧ before.time < update.lastUpdateId

def IsSnapshot : Feed → Prop
  | snapshot _ => True
  | shown _ _ => False

end Feed

namespace Orderbook

/-- What a message is to the time of the book. -/
def feed (book : Orderbook) (resyncNeeded : Bool) (nowMs : UInt64) (event : MarketEvent) : List Feed :=
  match event with
  | .depthUpdate update =>
      (Pipeline.quote book resyncNeeded nowMs event).toList.map (.shown update)
  | .depthSnapshot snapshot =>
      match (book.handleSnapshot snapshot).2.state with
      | .live id => [.snapshot id]
      | .buffering _ => []
  | _ => []

/-- An update of which nothing is shown leaves the book where it is, or not live. -/
theorem state_of_quote_none {book : Orderbook} {resyncNeeded : Bool} {nowMs : UInt64}
    {update : DepthUpdate} (h : Pipeline.quote book resyncNeeded nowMs (.depthUpdate update) = none)
    {n : UInt64} (hlive : (book.afterEvent (.depthUpdate update)).state = .live n) :
    book.state = .live n := by
  have hbook := book.bookOnEvent_book resyncNeeded (.depthUpdate update)
  rw [← hbook] at hlive
  simp only [bookOnEvent] at hlive
  simp only [Pipeline.quote] at h
  cases hstate : book.state with
  | buffering buf =>
      rw [handleUpdate_buffering hstate] at hlive
      cases hlive
  | live m =>
      rw [handleUpdate_live hstate] at h hlive
      cases hsequencing : sequencing m update with
      | stale =>
          rw [hsequencing] at hlive
          exact hstate.symm.trans hlive
      | gap =>
          rw [hsequencing] at hlive
          cases hlive
      | apply =>
          rw [hsequencing] at h
          cases h

/-- What is shown of a message. -/
theorem feed_shown (book : Orderbook) (resyncNeeded : Bool) (nowMs : UInt64) (event : MarketEvent) :
    (book.feed resyncNeeded nowMs event).filterMap Feed.shown?
      = (Pipeline.quote book resyncNeeded nowMs event).toList := by
  cases event with
  | depthUpdate update =>
      simp only [feed]
      cases Pipeline.quote book resyncNeeded nowMs (.depthUpdate update) <;> rfl
  | depthSnapshot snapshot =>
      simp only [feed, Pipeline.quote]
      split <;> rfl
  | trade trade => rfl
  | reconnect => rfl

/-- A book between messages: the feed so far goes forward from snapshot to snapshot, and has left a live
book where it is. -/
structure Timed (feed : List Feed) (book : Orderbook) : Prop where
  forward : feed.IsChain Feed.Continues
  starts : ∀ f ∈ feed.head?, f.IsSnapshot
  now : ∀ n, book.state = .live n → ∃ f, feed.getLast? = some f ∧ f.time = n

theorem timed_new (symbol : String) (depthLevels : Nat) : Timed [] (Orderbook.new symbol depthLevels) where
  forward := List.isChain_nil
  starts _ h := by cases h
  now _ h := by cases h

variable {feed : List Feed} {book book' : Orderbook}

/-- Nothing has happened to a book that is live. -/
theorem Timed.idle (h : Timed feed book) (hstate : ∀ n, book'.state = .live n → book.state = .live n) :
    Timed (feed ++ []) book' := by
  rw [List.append_nil]
  exact ⟨h.forward, h.starts, fun n hlive => h.now n (hstate n hlive)⟩

/-- One entry more. -/
theorem Timed.concat (h : Timed feed book) {f : Feed} (hnext : ∀ e, feed.getLast? = some e → e.Continues f)
    (hfirst : feed = [] → f.IsSnapshot) (hstate : book'.state = .live f.time) :
    Timed (feed ++ [f]) book' where
  forward := h.forward.append (List.isChain_singleton f) (by
    intro e he f' hf'
    obtain rfl := Option.some.inj hf'
    exact hnext e he)
  starts := by
    intro e he
    cases feed with
    | nil =>
        obtain rfl := Option.some.inj he
        exact hfirst rfl
    | cons f' rest => exact h.starts e he
  now := by
    intro n hlive
    rw [hstate] at hlive
    exact ⟨f, List.getLast?_concat, SyncState.live.inj hlive⟩

/-- **One message.**  Of an update it is only asked that it moves the id forward. -/
theorem Timed.afterEvent (h : Timed feed book) {event : MarketEvent}
    (hevent : ∀ update, event = .depthUpdate update → update.prevLastUpdateId < update.lastUpdateId)
    (resyncNeeded : Bool) (nowMs : UInt64) :
    Timed (feed ++ book.feed resyncNeeded nowMs event) (book.afterEvent event) := by
  cases event with
  | depthUpdate update =>
      simp only [Orderbook.feed]
      cases hquote : Pipeline.quote book resyncNeeded nowMs (.depthUpdate update) with
      | some snapshot =>
          obtain ⟨update', n, hsame, hlive, happly, hstate, -⟩ := Pipeline.quote_spec hquote
          obtain rfl := MarketEvent.depthUpdate.inj hsame
          obtain ⟨last, hlast, htime⟩ := h.now n hlive
          refine h.concat ?_ ?_ hstate
          · intro e he
            obtain rfl := Option.some.inj (hlast.symm.trans he)
            have hforward := hevent update rfl
            rcases sequencing_eq_apply_iff.mp happly with hexact | ⟨hbefore, hafter⟩
            · rw [← htime] at hexact
              exact ⟨hexact ▸ UInt64.le_refl _, hexact ▸ hforward⟩
            · rw [← htime] at hbefore hafter
              exact ⟨UInt64.le_of_lt hbefore, hafter⟩
          · rintro rfl
            cases hlast
      | none =>
          exact h.idle fun n hlive => state_of_quote_none hquote hlive
  | depthSnapshot snapshot =>
      obtain ⟨id, hid⟩ : ∃ id, (book.handleSnapshot snapshot).2.state = .live id := by
        rw [handleSnapshot_eq]
        exact ⟨_, rfl⟩
      simp only [Orderbook.feed, hid]
      exact h.concat (fun _ _ => trivial) (fun _ => trivial) hid
  | trade trade => exact h.idle fun _ hlive => hlive
  | reconnect => exact h.idle fun n hlive => by cases hlive

end Orderbook

/-! ## §2 Between two snapshots -/

/-- Updates that go on one after the other move the time forward. -/
theorem Feed.times_sorted {feed before after : List Feed} {f : Feed} {stretch : List Feed}
    (h : feed.IsChain Continues) (hfeed : feed = before ++ f :: stretch ++ after)
    (hshown : ∀ g ∈ stretch, ¬ g.IsSnapshot) :
    (f :: stretch).Pairwise fun a b => a.time < b.time := by
  have hsegment : (f :: stretch).IsChain Continues := by
    rw [hfeed] at h
    exact h.left_of_append.right_of_append
  have htrans : IsTrans Feed fun a b => a.time < b.time := ⟨fun _ _ _ => UInt64.lt_trans⟩
  refine List.isChain_iff_pairwise.mp ?_
  induction stretch generalizing f before with
  | nil => exact List.isChain_singleton f
  | cons g rest ih =>
      obtain ⟨hnext, hrest⟩ := List.isChain_cons_cons.mp hsegment
      have htime : f.time < g.time := by
        cases g with
        | snapshot id => exact absurd trivial (hshown _ List.mem_cons_self)
        | shown update view => exact hnext.2
      refine List.isChain_cons_cons.mpr ⟨htime, ?_⟩
      have hsplit : feed = (before ++ [f]) ++ g :: rest ++ after := by
        rw [hfeed]
        simp
      exact ih hsplit (fun e he => hshown e (List.mem_cons_of_mem g he)) hrest

/-! ## §3 The program -/

namespace Program

variable {σ : Type} [Strategy σ]

/-- What a step is to the time of the book. -/
def fedOf (p : Program σ) : Label → List Feed
  | .handle nowMs _ _ =>
      p.network.market.head?.toList.flatMap fun message =>
        p.pipeline.book.feed p.pipeline.resyncNeeded nowMs message.2
  | _ => []

omit [Strategy σ] in
theorem shownOf_eq (p : Program σ) (l : Label) : (p.fedOf l).filterMap Feed.shown? = p.shownOf l := by
  cases l with
  | handle nowMs now uuid =>
      simp only [fedOf, shownOf]
      cases p.network.market.head? with
      | none => rfl
      | some message =>
          simp only [Option.toList_some, List.flatMap_cons, List.flatMap_nil, List.append_nil]
          exact Orderbook.feed_shown _ _ _ _
  | _ => rfl

/-- **One step.** -/
theorem timed_step {B : ExchangeHistory} {depth : Nat} {shown : List OrderbookSnapshot}
    {feed : List Feed} {p p' : Program σ} {l : Label} (h : Truthful B depth shown p)
    (htimed : Orderbook.Timed feed p.pipeline.book) (hstep : p.step l = some p') :
    Orderbook.Timed (feed ++ p.fedOf l) p'.pipeline.book ∧
      ∀ update view, Feed.shown update view ∈ p.fedOf l → ShowsAt B depth update.lastUpdateId view := by
  have hbook := book_step hstep
  cases l with
  | handle nowMs now uuid =>
      obtain ⟨message, market, hmarket, -, -⟩ := handle_spec hstep
      have hfront : message.2.Genuine B :=
        h.sync.market message (by rw [show p.sync.market = _ from hmarket]; simp)
      simp only [handledOf, hmarket, List.head?_cons, Option.toList_some, List.foldl_cons,
        List.foldl_nil] at hbook
      simp only [fedOf, hmarket, List.head?_cons, Option.toList_some, List.flatMap_cons,
        List.flatMap_nil, List.append_nil]
      rw [hbook]
      refine ⟨htimed.afterEvent ?_ _ _, ?_⟩
      · intro update hupdate
        rw [hupdate] at hfront
        exact UInt64.lt_of_lt_of_le hfront.pu_lt hfront.first_le
      · intro update view hmem
        generalize message.2 = event at hfront hmem
        cases event with
        | depthUpdate update' =>
            obtain ⟨view', hquote, hsame⟩ := List.mem_map.mp hmem
            obtain ⟨rfl, rfl⟩ := Feed.shown.inj hsame
            rw [← h.depthLevels]
            exact Pipeline.quote_showsAt h.sync.book hfront (Option.mem_toList.mp hquote)
        | depthSnapshot snapshot =>
            simp only [Orderbook.feed] at hmem
            split at hmem
            · cases List.mem_singleton.mp hmem
            · cases hmem
        | trade trade => cases hmem
        | reconnect => cases hmem
  | send | take | fill | mirror | record _ | network _ | switch _ =>
      refine ⟨htimed.idle ?_, fun _ _ hmem => absurd hmem List.not_mem_nil⟩
      intro n hlive
      rwa [hbook] at hlive

/-- **The strategy sees the market in order.**  Suppose that what the exchange says is true.  Then in every
run of the program, in whatever order and how often the messages come: what the strategy is shown are the
updates of the feed, each with the top of the exchange's book at the id of that update.  Nothing is shown
before the first snapshot.  Each update shown reaches from the id the book was at, or from before it, to
beyond it: none of the exchange's updates is passed over.  So after each snapshot, up to the next one, the
ids strictly increase, and the last of them is where a live book is. -/
theorem market_seen_in_order (B : ExchangeHistory) (symbol : String) (depthLevels : Nat) (strat : σ)
    (risk : RiskChecker) (initialCapitalUsdt feePct : ℚ) (haltFile : Bool) (timeoutSecs startMs : Nat)
    (ls : List Label) (p : Program σ) (hgenuine : ∀ l ∈ ls, l.Genuine B)
    (hrun : machine.exec (init symbol depthLevels strat risk initialCapitalUsdt feePct haltFile
      timeoutSecs startMs) ls = some p) :
    let p₀ := init symbol depthLevels strat risk initialCapitalUsdt feePct haltFile timeoutSecs startMs
    let feed := machine.outputs fedOf p₀ ls
    machine.outputs shownOf p₀ ls = feed.filterMap Feed.shown? ∧
    (∀ update view, Feed.shown update view ∈ feed →
      ShowsAt B depthLevels update.lastUpdateId view) ∧
    (∀ f ∈ feed.head?, f.IsSnapshot) ∧ feed.IsChain Feed.Continues ∧
    (∀ before f stretch after, feed = before ++ f :: stretch ++ after →
      (∀ g ∈ stretch, ¬ g.IsSnapshot) → (f :: stretch).Pairwise fun a b => a.time < b.time) ∧
    ∀ n, p.pipeline.book.state = .live n → ∃ f, feed.getLast? = some f ∧ f.time = n := by
  intro p₀ feed
  have hstart := truthful_init B symbol depthLevels strat risk initialCapitalUsdt feePct haltFile
    timeoutSecs startMs
  have hend := machine.exec_history_guarded (C := fun _ l => Label.Genuine B l)
    (I := fun (q : Program σ) (feed : List Feed) => (∃ shown, Truthful B depthLevels shown q) ∧
      Orderbook.Timed feed q.pipeline.book ∧ ∀ update view, Feed.shown update view ∈ feed →
        ShowsAt B depthLevels update.lastUpdateId view)
    (by
      rintro q l q' log ⟨⟨shown, hq⟩, htimed, hshows⟩ hl hstep
      obtain ⟨htimed', hnew⟩ := timed_step hq htimed hstep
      refine ⟨⟨_, hq.step hl hstep⟩, htimed', ?_⟩
      intro update view hmem
      rcases List.mem_append.mp hmem with hmem | hmem
      · exact hshows update view hmem
      · exact hnew update view hmem)
    ⟨⟨[], hstart⟩, Orderbook.timed_new symbol depthLevels, fun _ _ h => absurd h List.not_mem_nil⟩
    (machine.guarded_of_forall (fun _ l hl => hgenuine l hl) _) hrun
  obtain ⟨-, htimed, hshows⟩ := hend
  refine ⟨?_, hshows, htimed.starts, htimed.forward, ?_, htimed.now⟩
  · rw [← machine.outputs_filterMap]
    simp only [shownOf_eq]
  · intro before f stretch after hfeed hshown
    exact Feed.times_sorted htimed.forward hfeed hshown

/-- The empty snapshot of id 0, and the update to id 1. -/
theorem first_update_in_order :
    ∃ p : Program PingPongStrategy,
      machine.exec (init "BTCUSDT" 20 PingPongStrategy.default (RiskChecker.new 1 0 1 5) 10000 0
        false 30 0) [.network .connectOk, .network (.initialWake 0),
          .network (.initialFetched 0 emptySnapshot), .network (.initialSend 0),
          .network (.receive (.depthUpdate bidAtOneEvent)), .handle 0 0 "a", .handle 0 0 "b"]
        = some p ∧
      ∃ f, (machine.outputs fedOf (init "BTCUSDT" 20 PingPongStrategy.default
        (RiskChecker.new 1 0 1 5) 10000 0 false 30 0) [.network .connectOk, .network (.initialWake 0),
          .network (.initialFetched 0 emptySnapshot), .network (.initialSend 0),
          .network (.receive (.depthUpdate bidAtOneEvent)), .handle 0 0 "a", .handle 0 0 "b"]).getLast?
        = some f ∧ f.time = 1 := by
  have hsome : ((machine.exec (init "BTCUSDT" 20 PingPongStrategy.default
      (RiskChecker.new 1 0 1 5) 10000 0 false 30 0) [.network .connectOk, .network (.initialWake 0),
        .network (.initialFetched 0 emptySnapshot), .network (.initialSend 0),
        .network (.receive (.depthUpdate bidAtOneEvent)), .handle 0 0 "a", .handle 0 0 "b"]).any
      fun p => p.pipeline.book.state = .live 1) = true := by decide +kernel
  obtain ⟨p, hrun, hlive⟩ := (Option.any_eq_true _ _).mp hsome
  refine ⟨p, hrun, ?_⟩
  have hordered := market_seen_in_order bidAtOne _ _ _ _ _ _ _ _ _ _ p ?_ hrun
  · exact hordered.2.2.2.2.2 1 (of_decide_eq_true hlive)
  · intro l hl
    simp only [List.mem_cons, List.not_mem_nil, or_false] at hl
    rcases hl with rfl | rfl | rfl | rfl | rfl | rfl | rfl
    · trivial
    · trivial
    · exact genuine_emptySnapshot
    · trivial
    · exact genuine_bidAtOneEvent
    · trivial
    · trivial

end Program

end CryptoTrader
