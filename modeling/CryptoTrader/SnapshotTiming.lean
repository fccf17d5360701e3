/-
# CryptoTrader.SnapshotTiming — when the snapshot is handled, against the events around it.

A contiguous stream of events can meet its snapshot at any point: the events before that point are
buffered and replayed inside `handle_snapshot`, the others are delivered live.  The two paths pick
the first event to apply by different tests.  The live path reads `pu` and `u` (exact continuation
or span), the replay reads `U` and `u` (`U <= S+1 <= u`).  On a stream whose events satisfy
`U = pu + 1` the tests agree.  When `U` may exceed `pu + 1` they do not: an event with
`pu <= S` and `S + 1 < U` is a span for the live path and outside the window of the replay, which
then drops the whole rest of the buffer and still reports the book live at `S`.

`deliver_live` and `replayed_eq` give both paths as the same fold (`applyAll` over the events that
end after `S`), the second exactly when no buffered event is of that kind.
-/
import CryptoTrader.Orderbook

namespace CryptoTrader.SnapshotTiming

open Orderbook

variable {F : Type} [BookNumber F]

/-! ## §1 Contiguous streams -/

/-- The events continue each other from the id `pu` on: each has the previous `u` as its `pu`, and
`pu < U <= u`. -/
def ContiguousFrom (pu : UInt64) : List DepthUpdate → Prop
  | [] => True
  | e :: es =>
      e.prevLastUpdateId = pu ∧ pu < e.firstUpdateId ∧ e.firstUpdateId ≤ e.lastUpdateId ∧
        ContiguousFrom e.lastUpdateId es

/-- The id a stream from `pu` ends at: the `u` of its last event. -/
def lastId (pu : UInt64) (es : List DepthUpdate) : UInt64 :=
  (es.getLast?.map DepthUpdate.lastUpdateId).getD pu

/-- Apply the levels of a list of events in order. -/
def applyAll (sides : Side F × Side F) (es : List DepthUpdate) : Side F × Side F :=
  es.foldl applyLevels sides

/-- The events that end after `s`. -/
def after (s : UInt64) (es : List DepthUpdate) : List DepthUpdate :=
  es.filter fun e => s < e.lastUpdateId

/-! `UInt64` has no `LinearOrder`, so its two maxima are spelled out. -/

theorem max_of_le {a b : UInt64} (h : a ≤ b) : max a b = b := by
  show (if a ≤ b then b else a) = b
  exact if_pos h

theorem max_of_ge {a b : UInt64} (h : b ≤ a) : max a b = a := by
  show (if a ≤ b then b else a) = a
  split
  · next hab => exact UInt64.le_antisymm h hab
  · rfl

theorem le_max_id (a b : UInt64) : b ≤ max a b := by
  rcases UInt64.le_total a b with h | h
  · rw [max_of_le h]
    exact UInt64.le_refl b
  · rw [max_of_ge h]
    exact h

theorem max_max_of_le {a b c : UInt64} (h : b ≤ c) : max (max a b) c = max a c := by
  rcases UInt64.le_total a b with hab | hab
  · rw [max_of_le hab, max_of_le h, max_of_le (UInt64.le_trans hab h)]
  · rw [max_of_ge hab]

theorem after_cons_of_le {s : UInt64} {e : DepthUpdate} (h : e.lastUpdateId ≤ s)
    (es : List DepthUpdate) : after s (e :: es) = after s es := by
  have hnot : ¬ s < e.lastUpdateId := by grind
  rw [after, List.filter_cons, if_neg (by simpa using hnot)]
  rfl

theorem after_cons_of_lt {s : UInt64} {e : DepthUpdate} (h : s < e.lastUpdateId)
    (es : List DepthUpdate) : after s (e :: es) = e :: after s es := by
  rw [after, List.filter_cons, if_pos (decide_eq_true h)]
  rfl

@[simp] theorem lastId_nil (pu : UInt64) : lastId pu [] = pu := rfl

theorem lastId_cons (pu : UInt64) (e : DepthUpdate) (es : List DepthUpdate) :
    lastId pu (e :: es) = lastId e.lastUpdateId es := by
  cases es with
  | nil => rfl
  | cons e' es => simp [lastId, List.getLast?_cons]

theorem lastId_append (pu : UInt64) (es fs : List DepthUpdate) :
    lastId pu (es ++ fs) = lastId (lastId pu es) fs := by
  induction es generalizing pu with
  | nil => rfl
  | cons e es ih => rw [List.cons_append, lastId_cons, lastId_cons, ih]

theorem applyAll_append (sides : Side F × Side F) (es fs : List DepthUpdate) :
    applyAll sides (es ++ fs) = applyAll (applyAll sides es) fs := List.foldl_append

theorem contiguousFrom_append {pu : UInt64} {es fs : List DepthUpdate} :
    ContiguousFrom pu (es ++ fs) ↔ ContiguousFrom pu es ∧ ContiguousFrom (lastId pu es) fs := by
  induction es generalizing pu with
  | nil => simp [ContiguousFrom]
  | cons e es ih =>
      rw [List.cons_append, ContiguousFrom, ContiguousFrom, ih, lastId_cons]
      simp only [and_assoc]

/-- A stream never goes back. -/
theorem ContiguousFrom.le_lastId {pu : UInt64} {es : List DepthUpdate}
    (h : ContiguousFrom pu es) : pu ≤ lastId pu es := by
  induction es generalizing pu with
  | nil => exact UInt64.le_refl pu
  | cons e es ih =>
      obtain ⟨_, hlt, hle, hrest⟩ := h
      have hih := ih hrest
      rw [lastId_cons]
      grind

/-- Every event of a stream starts after the stream's `pu`, and ends no earlier than it starts. -/
theorem ContiguousFrom.mem_bounds {pu : UInt64} {es : List DepthUpdate}
    (h : ContiguousFrom pu es) {e : DepthUpdate} (he : e ∈ es) :
    pu ≤ e.prevLastUpdateId ∧ e.prevLastUpdateId < e.firstUpdateId ∧
      e.firstUpdateId ≤ e.lastUpdateId ∧ e.lastUpdateId ≤ lastId pu es := by
  induction es generalizing pu with
  | nil => exact absurd he List.not_mem_nil
  | cons e' es ih =>
      obtain ⟨hpu, hlt, hle, hrest⟩ := h
      rw [lastId_cons]
      rcases List.mem_cons.mp he with rfl | hmem
      · have := hrest.le_lastId
        refine ⟨?_, ?_, hle, this⟩ <;> grind
      · obtain ⟨h1, h2, h3, h4⟩ := ih hrest hmem
        refine ⟨?_, h2, h3, h4⟩
        grind

theorem ContiguousFrom.after_eq_self {pu s : UInt64} {es : List DepthUpdate}
    (h : ContiguousFrom pu es) (hs : s ≤ pu) : after s es = es := by
  rw [after, List.filter_eq_self]
  intro e he
  obtain ⟨h1, h2, h3, _⟩ := h.mem_bounds he
  exact decide_eq_true (by grind)

/-- From the first event that ends after `s` on, all of them do. -/
theorem ContiguousFrom.after_cons_eq_self {s : UInt64} {e : DepthUpdate} {es : List DepthUpdate}
    (hrest : ContiguousFrom e.lastUpdateId es) (hs : s < e.lastUpdateId) :
    after s (e :: es) = e :: es := by
  rw [after_cons_of_lt hs, hrest.after_eq_self (UInt64.le_of_lt hs)]

/-! ## §2 The live path -/

/-- **Live delivery.**  A live book at `n`, given a stream from `pu <= n`, skips the events that
end by `n`, applies the others and never asks for a resync. -/
theorem deliver_live {pu n : UInt64} {es : List DepthUpdate} (h : ContiguousFrom pu es)
    (hn : pu ≤ n) {book : Orderbook F} (hlive : book.state = .live n) (resyncNeeded : Bool) :
    book.deliver resyncNeeded es
      = (book.liveAt (applyAll book.sides (after n es)) (max n (lastId pu es)), resyncNeeded) := by
  induction es generalizing pu n book with
  | nil =>
      simp only [deliver, after, List.filter_nil, applyAll, List.foldl_nil, lastId_nil,
        max_of_ge hn, liveAt_self hlive]
  | cons e es ih =>
      obtain ⟨hpu, hlt, hle, hrest⟩ := h
      rw [deliver, handleUpdate_live hlive, lastId_cons]
      by_cases hstale : e.lastUpdateId ≤ n
      · have hseq : sequencing n e = .stale := sequencing_eq_stale_iff.mpr (by grind)
        simp only [hseq]
        rw [ih hrest hstale hlive, after_cons_of_le hstale]
      · -- the first event that is applied; from here on every event continues the book
        have hnew : n < e.lastUpdateId := UInt64.not_le.mp hstale
        have hseq : sequencing n e = .apply := sequencing_eq_apply_iff.mpr (by grind)
        have hself := hrest.after_eq_self (UInt64.le_refl _)
        have hlast := hrest.le_lastId
        have hbehind : n ≤ lastId e.lastUpdateId es := by grind
        simp only [hseq]
        rw [ih hrest (UInt64.le_refl _) (liveAt_state _ _ _), liveAt_liveAt, liveAt_sides, hself,
          hrest.after_cons_eq_self hnew, max_of_le hlast, max_of_le hbehind]
        rfl

/-- Events delivered to a buffering book are stored. -/
theorem deliver_buffering {book : Orderbook F} {buf : List DepthUpdate}
    (h : book.state = .buffering buf) (resyncNeeded : Bool) (es : List DepthUpdate) :
    book.deliver resyncNeeded es
      = ({ book with state := .buffering (buf ++ es) }, resyncNeeded) := by
  induction es generalizing book buf with
  | nil =>
      rw [deliver, List.append_nil, ← h]
  | cons e es ih =>
      rw [deliver, handleUpdate_buffering h]
      show deliver { book with state := .buffering (buf ++ [e]) } resyncNeeded es = _
      rw [ih rfl, List.append_assoc]
      rfl

/-! ## §3 The replay -/

/-- An event the live path takes for a span and the replay window misses. -/
def SkipsWindow (s : UInt64) (e : DepthUpdate) : Prop :=
  e.prevLastUpdateId ≤ s ∧ s < e.firstUpdateId - 1

instance (s : UInt64) (e : DepthUpdate) : Decidable (SkipsWindow s e) :=
  inferInstanceAs (Decidable (_ ∧ _))

/-- Once under way, the replay applies a contiguous stream to its end. -/
theorem replay_contiguous {pu : UInt64} {es : List DepthUpdate} (h : ContiguousFrom pu es)
    (sides : Side F × Side F) : replay sides pu false es = (applyAll sides es, lastId pu es) := by
  induction es generalizing pu sides with
  | nil => rfl
  | cons e es ih =>
      obtain ⟨hpu, _, _, hrest⟩ := h
      rw [replay, if_neg (by simp [hpu]), ih hrest, lastId_cons]
      rfl

/-- What `handle_snapshot` makes of its buffer: the sides and the id it goes live with. -/
def replayed (loaded : Side F × Side F) (s : UInt64) (buf : List DepthUpdate) :
    (Side F × Side F) × UInt64 :=
  match buf.findIdx? (connects s) with
  | none => (loaded, s)
  | some idx => replay loaded s true (buf.drop idx)

theorem replayed_cons_of_not {s : UInt64} {e : DepthUpdate} (h : connects s e = false)
    (loaded : Side F × Side F) (es : List DepthUpdate) :
    replayed loaded s (e :: es) = replayed loaded s es := by
  unfold replayed
  rw [List.findIdx?_cons, h]
  cases es.findIdx? (connects s) <;> rfl

theorem replayed_cons_of_connects {s : UInt64} {e : DepthUpdate} (h : connects s e = true)
    (loaded : Side F × Side F) (es : List DepthUpdate) :
    replayed loaded s (e :: es) = replay (applyLevels loaded e) e.lastUpdateId false es := by
  unfold replayed
  rw [List.findIdx?_cons, h]
  rfl

/-- **Replay of a good buffer.**  When no buffered event skips the window, the replay skips the
events that end by `s` and applies all the others, like live delivery. -/
theorem replayed_eq {pu s : UInt64} {es : List DepthUpdate} (h : ContiguousFrom pu es)
    (hs : pu ≤ s) (hgood : ∀ e ∈ es, ¬ SkipsWindow s e) (loaded : Side F × Side F) :
    replayed loaded s es = (applyAll loaded (after s es), max s (lastId pu es)) := by
  induction es generalizing pu with
  | nil =>
      rw [lastId_nil, max_of_ge hs]
      rfl
  | cons e es ih =>
      obtain ⟨hpu, hlt, hle, hrest⟩ := h
      rw [lastId_cons]
      by_cases hstale : e.lastUpdateId ≤ s
      · -- it ends by the snapshot: `u >= S+1` fails, and live delivery skips it too
        have hconn : connects s e = false := by
          rw [connects, Bool.and_eq_false_iff, decide_eq_false_iff_not, decide_eq_false_iff_not]
          grind
        rw [replayed_cons_of_not hconn,
          ih hrest hstale fun e' he' => hgood e' (List.mem_cons_of_mem e he'),
          after_cons_of_le hstale]
      · -- the first event that ends after the snapshot: in the window, since it does not skip it
        have hnew : s < e.lastUpdateId := UInt64.not_le.mp hstale
        have hwindow : ¬ (e.prevLastUpdateId ≤ s ∧ s < e.firstUpdateId - 1) :=
          hgood e List.mem_cons_self
        have hconn : connects s e = true := by
          rw [connects, Bool.and_eq_true, decide_eq_true_eq, decide_eq_true_eq]
          refine ⟨?_, ?_⟩ <;> grind
        have hlast := hrest.le_lastId
        have hbehind : s ≤ lastId e.lastUpdateId es := by grind
        rw [replayed_cons_of_connects hconn, replay_contiguous hrest,
          hrest.after_cons_eq_self hnew, max_of_le hbehind]
        rfl

/-- No event of a stream that starts after `s` connects to `s`. -/
theorem findIdx?_connects_eq_none {pu s : UInt64} {es : List DepthUpdate}
    (h : ContiguousFrom pu es) (hs : s < pu) : es.findIdx? (connects s) = none := by
  rw [List.findIdx?_eq_none_iff]
  intro e he
  obtain ⟨h1, h2, _, _⟩ := h.mem_bounds he
  rw [connects, Bool.and_eq_false_iff, decide_eq_false_iff_not, decide_eq_false_iff_not]
  grind

/-- **Replay of a bad buffer.**  When some buffered event skips the window, nothing at all is
replayed: the book goes live at `s` although the buffer ends after `s`. -/
theorem replayed_of_skipsWindow {pu s : UInt64} {es : List DepthUpdate}
    (h : ContiguousFrom pu es) {e : DepthUpdate} (he : e ∈ es) (hskip : SkipsWindow s e)
    (loaded : Side F × Side F) :
    replayed loaded s es = (loaded, s) ∧ s < lastId pu es := by
  induction es generalizing pu with
  | nil => exact absurd he List.not_mem_nil
  | cons e' es ih =>
      obtain ⟨hpu, hlt, hle, hrest⟩ := h
      obtain ⟨hlo, hhi⟩ := hskip
      have hconn : connects s e' = false := by
        rw [connects, Bool.and_eq_false_iff, decide_eq_false_iff_not, decide_eq_false_iff_not]
        rcases List.mem_cons.mp he with rfl | hmem
        · grind
        · obtain ⟨h1, _, _, _⟩ := hrest.mem_bounds hmem
          grind
      rw [replayed_cons_of_not hconn, lastId_cons]
      rcases List.mem_cons.mp he with rfl | hmem
      · have hlast := hrest.le_lastId
        refine ⟨?_, by grind⟩
        rw [replayed, findIdx?_connects_eq_none hrest (by grind)]
      · exact ih hrest hmem

theorem handleSnapshot_replayed (book : Orderbook F) (snapshot : DepthSnapshot) :
    (book.handleSnapshot snapshot).2 =
      let r : (Side F × Side F) × UInt64 :=
        replayed (loadLevels snapshot.bids, loadLevels snapshot.asks) snapshot.lastUpdateId
          book.buffered
      book.liveAt r.1 r.2 := by
  rw [handleSnapshot_eq]
  rfl

/-! ## §4 The split point -/

/-- The two deliveries of one stream `pre ++ post` from `pu` agree: with the snapshot between
`pre` and `post`, and with the snapshot first. -/
structure SplitAgrees (symbol : String) (depthLevels : Nat) (snapshot : DepthSnapshot)
    (pu : UInt64) (pre post : List DepthUpdate) : Prop where
  /-- handling the snapshot first ends live at `max S u_k` … -/
  early_live :
    let book := Orderbook.new symbol depthLevels
    ((book.handleSnapshot snapshot).2.deliver false (pre ++ post)).1.state
      = .live (max snapshot.lastUpdateId (lastId pu (pre ++ post)))
  /-- … and so does handling it between `pre` and `post`, with the same sides … -/
  late_eq_early :
    let book := Orderbook.new symbol depthLevels
    let late := (((book.deliver false pre).1.handleSnapshot snapshot).2.deliver false post).1
    let early := ((book.handleSnapshot snapshot).2.deliver false (pre ++ post)).1
    late.state = early.state ∧ late.bids = early.bids ∧ late.asks = early.asks
  /-- … no gap reset on either way … -/
  no_reset :
    let book := Orderbook.new symbol depthLevels
    (book.deliver false pre).2 = false ∧
    (((book.deliver false pre).1.handleSnapshot snapshot).2.deliver false post).2 = false ∧
    ((book.handleSnapshot snapshot).2.deliver false (pre ++ post)).2 = false
  /-- … and the replay applies every buffered event that ends after the snapshot. -/
  none_lost :
    let book := Orderbook.new symbol depthLevels
    let synced := ((book.deliver false pre).1.handleSnapshot snapshot).2
    synced.sides = applyAll (loadLevels snapshot.bids, loadLevels snapshot.asks)
        (after snapshot.lastUpdateId pre) ∧
      synced.state = .live (max snapshot.lastUpdateId (lastId pu pre))

/-- The new book after buffering `pre` and handling the snapshot. -/
theorem synced_eq (symbol : String) (depthLevels : Nat) (snapshot : DepthSnapshot)
    (pre : List DepthUpdate) :
    let book := Orderbook.new symbol depthLevels
    let r := replayed (loadLevels snapshot.bids, loadLevels snapshot.asks)
      snapshot.lastUpdateId pre
    ((book.deliver false pre).1.handleSnapshot snapshot).2 = book.liveAt r.1 r.2 := by
  intro book r
  have hfresh : book.state = .buffering [] := rfl
  rw [deliver_buffering hfresh, handleSnapshot_replayed]
  rfl

theorem after_append (s : UInt64) (es fs : List DepthUpdate) :
    after s (es ++ fs) = after s es ++ after s fs := List.filter_append ..

/-- In the rest of a stream, ending after `s` and ending after `max s (lastId pu pre)` are the
same. -/
theorem after_max_lastId {pu s : UInt64} {pre post : List DepthUpdate}
    (h : ContiguousFrom (lastId pu pre) post) :
    after (max s (lastId pu pre)) post = after s post := by
  rw [after, after]
  refine List.filter_congr fun e he => ?_
  obtain ⟨h1, h2, h3, _⟩ := h.mem_bounds he
  rw [decide_eq_decide]
  rcases UInt64.le_total s (lastId pu pre) with hle | hle
  · -- both hold: the event ends after the buffer, and so after the snapshot
    rw [max_of_le hle]
    grind
  · rw [max_of_ge hle]

/-- **When the moment of the snapshot does not matter.**  For a contiguous stream that starts at or
before the snapshot, the two deliveries agree exactly when no buffered event skips the window of
the replay. -/
theorem splitAgrees_iff (symbol : String) (depthLevels : Nat) (snapshot : DepthSnapshot)
    (pu : UInt64) (pre post : List DepthUpdate)
    (hstream : ContiguousFrom pu (pre ++ post)) (hpu : pu ≤ snapshot.lastUpdateId) :
    SplitAgrees symbol depthLevels snapshot pu pre post ↔
      ∀ e ∈ pre, ¬ (e.prevLastUpdateId ≤ snapshot.lastUpdateId ∧
        snapshot.lastUpdateId < e.firstUpdateId - 1) := by
  obtain ⟨hpre, hpost⟩ := contiguousFrom_append.mp hstream
  constructor
  · -- a skipped window leaves the book at S, below the end of the buffer
    intro h e he hskip
    obtain ⟨hreplayed, hlt⟩ := replayed_of_skipsWindow hpre he hskip
      (loadLevels snapshot.bids, loadLevels snapshot.asks)
    have hstate := h.none_lost.2
    rw [synced_eq, hreplayed, liveAt_state, SyncState.live.injEq,
      max_of_le (UInt64.le_of_lt hlt)] at hstate
    exact UInt64.lt_irrefl _ (hstate ▸ hlt)
  · intro hgood
    have hsynced := synced_eq symbol depthLevels snapshot pre
    simp only [replayed_eq hpre hpu hgood] at hsynced
    have hloadedLive : ((Orderbook.new symbol depthLevels).handleSnapshot snapshot).2.state
        = .live snapshot.lastUpdateId := by
      rw [handleSnapshot_replayed]
      rfl
    have hearly := deliver_live hstream hpu hloadedLive false
    have hlate := deliver_live hpost (le_max_id snapshot.lastUpdateId (lastId pu pre))
      (liveAt_state (Orderbook.new symbol depthLevels)
        (applyAll (loadLevels snapshot.bids, loadLevels snapshot.asks)
          (after snapshot.lastUpdateId pre)) _) false
    have hend : max (max snapshot.lastUpdateId (lastId pu pre)) (lastId (lastId pu pre) post)
        = max snapshot.lastUpdateId (lastId pu (pre ++ post)) := by
      rw [lastId_append]
      exact max_max_of_le hpost.le_lastId
    rw [liveAt_liveAt, liveAt_sides, after_max_lastId hpost, ← applyAll_append, ← after_append,
      hend] at hlate
    have hloaded : ((Orderbook.new symbol depthLevels).handleSnapshot snapshot).2.sides
        = (loadLevels snapshot.bids, loadLevels snapshot.asks) := by
      rw [handleSnapshot_replayed]
      rfl
    rw [hloaded] at hearly
    refine ⟨?_, ?_, ?_, ?_⟩
    · simp only [hearly, liveAt_state]
    · simp only [hsynced, hearly, hlate]
      exact ⟨rfl, rfl, rfl⟩
    · refine ⟨?_, ?_, ?_⟩
      · have hfresh : (new symbol depthLevels : Orderbook).state = .buffering [] := rfl
        rw [deliver_buffering hfresh]
      · rw [hsynced, hlate]
      · rw [hearly]
    · simp only [hsynced, liveAt_sides, liveAt_state, and_self]

/-- An event with the given `pu`, `U`, `u` that quotes one bid. -/
def quote (pu first last : UInt64) : DepthUpdate where
  eventType := "depthUpdate"
  eventTime := 0
  symbol := "BTCUSDT"
  firstUpdateId := first
  lastUpdateId := last
  prevLastUpdateId := pu
  bids := [("50000.0", "1.0")]
  asks := []

def emptyAt (id : UInt64) : DepthSnapshot where
  lastUpdateId := id
  bids := []
  asks := []

theorem splitAgrees_adjacent :
    SplitAgrees "BTCUSDT" 20 (emptyAt 6) 5 [quote 5 6 8] [quote 8 9 10] :=
  (splitAgrees_iff "BTCUSDT" 20 (emptyAt 6) 5 [quote 5 6 8] [quote 8 9 10]
    ⟨rfl, by decide, by decide, rfl, by decide, by decide, trivial⟩ (by decide)).mpr (by decide)

/-- With `pu = 5`, `U = 10` and a snapshot of id 6 the deliveries differ: live at 14 when the
snapshot comes first, and a gap reset on the next event when the first event was buffered. -/
theorem splitAgrees_fails :
    ContiguousFrom 5 ([quote 5 10 12] ++ [quote 12 13 14]) ∧ (5 : UInt64) ≤ 6 ∧
      ¬ SplitAgrees "BTCUSDT" 20 (emptyAt 6) 5 [quote 5 10 12] [quote 12 13 14] := by
  refine ⟨⟨rfl, by decide, by decide, rfl, by decide, by decide, trivial⟩, by decide, ?_⟩
  intro h
  exact absurd h.no_reset.2.1 (by decide +kernel)

end CryptoTrader.SnapshotTiming
