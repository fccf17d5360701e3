/-
# CryptoTrader.Replica — a live book equals the exchange's book at its id.

The exchange is a history: a book of non-negative quantities for every update id.  A message is
genuine when it tells the truth about that history, and nothing more is asked of the feed: events
may be dropped, repeated, reordered, overlap the state they reach, and snapshots may come at any
time and be older or newer than the book.

The invariant (`InSync`) has one clause per sync state.  A live book at `n` mirrors the exchange at
`n`; a buffering book holds genuine events only, so that whatever a later snapshot replays is
sound.  All three ways an event is accepted (exact `pu`, spanning, and the `U <= S+1 <= u` window
of the replay) reduce to one fact: the book stands at an id inside `[pu, u]`, where a genuine diff
takes it to `u` (`History.Covers.patch_eq`).
-/
import CryptoTrader.Orderbook
import CryptoTrader.Lib.History

namespace CryptoTrader.Replica

open Lib Orderbook

/-! ## §1 The exchange and its messages -/

/-- The exchange's book at one id, per price key; absent is zero. -/
structure ExchangeBook where
  bids : Nat → ℚ≥0
  asks : Nat → ℚ≥0

/-- The exchange: a book for every update id. -/
abbrev ExchangeHistory := UInt64 → ExchangeBook

/-- One side of the history, as rational quantities. -/
def ExchangeHistory.bids (B : ExchangeHistory) (n : UInt64) (key : Nat) : ℚ := (B n).bids key

def ExchangeHistory.asks (B : ExchangeHistory) (n : UInt64) (key : Nat) : ℚ := (B n).asks key

/-- A depth event tells the truth: for every key of either side, it lists the quantity at `u`, or
it leaves the key out and the quantity did not change from `pu` to `u`. -/
structure GenuineUpdate (B : ExchangeHistory) (e : DepthUpdate) : Prop where
  pu_lt : e.prevLastUpdateId < e.firstUpdateId
  first_le : e.firstUpdateId ≤ e.lastUpdateId
  bids : History.Covers B.bids e.prevLastUpdateId e.lastUpdateId (lastListed · e.bids)
  asks : History.Covers B.asks e.prevLastUpdateId e.lastUpdateId (lastListed · e.asks)

/-- Levels that list exactly the positive entries of a side, each key once. -/
structure ListsExactly (b : Nat → ℚ) (levels : List Level) : Prop where
  nodup : ((levels.map readLevel).map Prod.fst).Nodup
  mem_iff : ∀ key q, (key, q) ∈ levels.map readLevel ↔ q = b key ∧ 0 < q

/-- A snapshot tells the truth about the id it carries. -/
structure GenuineSnapshot (B : ExchangeHistory) (s : DepthSnapshot) : Prop where
  bids : ListsExactly (B.bids s.lastUpdateId) s.bids
  asks : ListsExactly (B.asks s.lastUpdateId) s.asks

/-- A genuine call on the book; a reset carries no data. -/
def Genuine (B : ExchangeHistory) : Op → Prop
  | .update e => GenuineUpdate B e
  | .snapshot s => GenuineSnapshot B s
  | .reset => True

/-! ## §2 Sides that mirror the exchange -/

/-- The side stores the quantity of every key that has one, and nothing else. -/
def Mirrors (side : Side) (b : Nat → ℚ) : Prop :=
  ∀ key, side[key]? = if b key = 0 then none else some (b key)

/-- Applying levels patches the mirrored side. -/
theorem Mirrors.foldl_applyLevel {side : Side} {b : Nat → ℚ} (h : Mirrors side b)
    (levels : List Level) :
    Mirrors (levels.foldl applyLevel side) (History.patch b (lastListed · levels)) := by
  intro key
  rw [getElem?_foldl_applyLevel, History.patch]
  cases lastListed key levels with
  | some q => rfl
  | none => exact h key

/-- Loading exact levels mirrors the side they list. -/
theorem ListsExactly.mirrors {b : Nat → ℚ} {levels : List Level} (h : ListsExactly b levels)
    (hb : ∀ key, 0 ≤ b key) : Mirrors (loadLevels levels) b := by
  have hall : (levels.map readLevel).filter (fun l => 0 < l.2) = levels.map readLevel := by
    rw [List.filter_eq_self]
    rintro ⟨key, q⟩ hl
    exact decide_eq_true ((h.mem_iff key q).mp hl).2
  intro key
  rw [getElem?_loadLevels, hall]
  by_cases hzero : b key = 0
  · rw [if_pos hzero, Option.eq_none_iff_forall_ne_some]
    intro q hq
    obtain ⟨rfl, hpos⟩ := (h.mem_iff key q).mp ((WriteLog.lastEntry_eq_some_iff h.nodup).mp hq)
    exact hpos.ne' hzero
  · rw [if_neg hzero, WriteLog.lastEntry_eq_some_iff h.nodup, h.mem_iff]
    exact ⟨rfl, lt_of_le_of_ne (hb key) (Ne.symm hzero)⟩

/-- Both sides mirror the exchange at an id. -/
def MirrorsAt (B : ExchangeHistory) (sides : Side × Side) (n : UInt64) : Prop :=
  Mirrors sides.1 (B.bids n) ∧ Mirrors sides.2 (B.asks n)

/-- **The step fact.**  A genuine event applied anywhere in `[pu, u]` leads to `u`. -/
theorem MirrorsAt.applyLevels {B : ExchangeHistory} {sides : Side × Side} {n : UInt64}
    {e : DepthUpdate} (h : MirrorsAt B sides n) (he : GenuineUpdate B e)
    (hlo : e.prevLastUpdateId ≤ n) (hhi : n ≤ e.lastUpdateId) :
    MirrorsAt B (applyLevels sides e) e.lastUpdateId := by
  refine ⟨?_, ?_⟩
  · have hpatch := h.1.foldl_applyLevel e.bids
    rwa [he.bids.patch_eq hlo hhi] at hpatch
  · have hpatch := h.2.foldl_applyLevel e.asks
    rwa [he.asks.patch_eq hlo hhi] at hpatch

/-- A genuine snapshot loads the exchange's book at its id. -/
theorem GenuineSnapshot.mirrorsAt {B : ExchangeHistory} {s : DepthSnapshot}
    (h : GenuineSnapshot B s) :
    MirrorsAt B (loadLevels s.bids, loadLevels s.asks) s.lastUpdateId :=
  ⟨h.bids.mirrors fun key => ((B s.lastUpdateId).bids key).2,
    h.asks.mirrors fun key => ((B s.lastUpdateId).asks key).2⟩

/-! ## §3 The replay -/

/-- Once under way, the replay applies each event exactly at its `pu`. -/
theorem replay_continued {B : ExchangeHistory} {buf : List DepthUpdate}
    (hbuf : ∀ e ∈ buf, GenuineUpdate B e) {sides : Side × Side} {n : UInt64}
    (h : MirrorsAt B sides n) :
    MirrorsAt B (replay sides n false buf).1 (replay sides n false buf).2 := by
  induction buf generalizing sides n with
  | nil => exact h
  | cons e rest ih =>
      have he := hbuf e List.mem_cons_self
      rw [replay]
      split
      · exact h
      · next hcont =>
          have hpu : e.prevLastUpdateId = n := by simpa using hcont
          have hlt := he.pu_lt
          have hle := he.first_le
          exact ih (fun e' h' => hbuf e' (List.mem_cons_of_mem e h'))
            (h.applyLevels he (by grind) (by grind))

/-- The first event of a replay connects to the snapshot, so the snapshot's id lies in its
`[pu, u]`. -/
theorem connects_bounds {s : UInt64} {e : DepthUpdate}
    (hlt : e.prevLastUpdateId < e.firstUpdateId) (h : connects s e = true) :
    e.prevLastUpdateId ≤ s ∧ s ≤ e.lastUpdateId := by
  simp only [connects, Bool.and_eq_true, decide_eq_true_eq, ge_iff_le] at h
  obtain ⟨hU, hu⟩ := h
  refine ⟨?_, ?_⟩ <;> grind

theorem replay_from_snapshot {B : ExchangeHistory} {buf : List DepthUpdate}
    (hbuf : ∀ e ∈ buf, GenuineUpdate B e) {sides : Side × Side} {s : UInt64}
    (h : MirrorsAt B sides s) {idx : Nat} (hidx : buf.findIdx? (connects s) = some idx) :
    MirrorsAt B (replay sides s true (buf.drop idx)).1 (replay sides s true (buf.drop idx)).2 := by
  obtain ⟨hlt, hconn, _⟩ := List.findIdx?_eq_some_iff_getElem.mp hidx
  rw [List.drop_eq_getElem_cons hlt, replay]
  simp only [Bool.not_true, Bool.false_and, Bool.false_eq_true, if_false]
  have he := hbuf _ (List.getElem_mem hlt)
  obtain ⟨hlo, hhi⟩ := connects_bounds he.pu_lt hconn
  exact replay_continued (fun e hm => hbuf e (List.mem_of_mem_drop hm))
    (h.applyLevels he hlo hhi)

/-! ## §4 The invariant of the book -/

/-- What is true of every book fed genuine messages, by sync state. -/
def InSync (B : ExchangeHistory) (book : Orderbook) : Prop :=
  match book.state with
  | .buffering buf => ∀ e ∈ buf, GenuineUpdate B e
  | .live n => MirrorsAt B book.sides n

theorem inSync_new (B : ExchangeHistory) (symbol : String) (depthLevels : Nat) :
    InSync B (Orderbook.new symbol depthLevels) :=
  fun _ he => absurd he List.not_mem_nil

theorem inSync_reset (B : ExchangeHistory) (book : Orderbook) : InSync B book.reset :=
  fun _ he => absurd he List.not_mem_nil

theorem InSync.buffered {B : ExchangeHistory} {book : Orderbook} (h : InSync B book) :
    ∀ e ∈ book.buffered, GenuineUpdate B e := by
  intro e he
  cases hst : book.state with
  | buffering buf =>
      simp only [Orderbook.buffered, hst] at he
      simp only [InSync, hst] at h
      exact h e he
  | live n => simp [Orderbook.buffered, hst] at he

theorem InSync.handleSnapshot {B : ExchangeHistory} {book : Orderbook} (h : InSync B book)
    {s : DepthSnapshot} (hs : GenuineSnapshot B s) : InSync B (book.handleSnapshot s).2 := by
  rw [handleSnapshot_eq]
  cases hidx : book.buffered.findIdx? (connects s.lastUpdateId) with
  | none =>
      show MirrorsAt B (loadLevels s.bids, loadLevels s.asks) s.lastUpdateId
      exact hs.mirrorsAt
  | some idx => exact replay_from_snapshot h.buffered hs.mirrorsAt hidx

theorem InSync.handleUpdate {B : ExchangeHistory} {book : Orderbook} (h : InSync B book)
    {e : DepthUpdate} (he : GenuineUpdate B e) (resyncNeeded : Bool) :
    InSync B (book.handleUpdate e resyncNeeded).2.1 := by
  cases hst : book.state with
  | buffering buf =>
      rw [handleUpdate_buffering hst]
      simp only [InSync, hst] at h
      show ∀ e' ∈ buf ++ [e], GenuineUpdate B e'
      intro e' he'
      rcases List.mem_append.mp he' with hmem | hmem
      · exact h e' hmem
      · rw [List.mem_singleton.mp hmem]
        exact he
  | live n =>
      rw [handleUpdate_live hst]
      have hmirror : MirrorsAt B book.sides n := by simpa only [InSync, hst] using h
      cases hseq : sequencing n e with
      | stale => exact h
      | gap => exact inSync_reset B book
      | apply =>
          -- exact continuation or span: either way the book's id is inside [pu, u]
          have hlt := he.pu_lt
          have hle := he.first_le
          have hbounds : e.prevLastUpdateId ≤ n ∧ n ≤ e.lastUpdateId := by
            rcases sequencing_eq_apply_iff.mp hseq with heq | ⟨hl, hr⟩ <;> grind
          exact hmirror.applyLevels he hbounds.1 hbounds.2

theorem InSync.applyOp {B : ExchangeHistory} {book : Orderbook} (h : InSync B book) {op : Op}
    (hop : Genuine B op) : InSync B (book.applyOp op) := by
  cases op with
  | update e => exact h.handleUpdate hop false
  | snapshot s => exact h.handleSnapshot hop
  | reset => exact inSync_reset B book

theorem InSync.runOps {B : ExchangeHistory} {book : Orderbook} (h : InSync B book)
    {ops : List Op} (hops : ∀ op ∈ ops, Genuine B op) : InSync B (book.runOps ops) := by
  induction ops generalizing book with
  | nil => exact h
  | cons op ops ih =>
      exact ih (h.applyOp (hops op List.mem_cons_self))
        fun o ho => hops o (List.mem_cons_of_mem op ho)

/-! ## §5 The replica theorem -/

/-- A level published from a mirrored side is a level of the exchange. -/
theorem Mirrors.published {side : Side} {b : Nat → ℚ} (h : Mirrors side b) {l : Nat × ℚ}
    (hl : l ∈ side.toList) : l.2 = b l.1 ∧ l.2 ≠ 0 := by
  have hget := Std.ExtTreeMap.mem_toList_iff_getElem?_eq_some.mp hl
  rw [h l.1] at hget
  split at hget
  · cases hget
  · next hne =>
      rw [Option.some.injEq] at hget
      exact ⟨hget.symm, hget ▸ hne⟩

/-- **A live book is a faithful replica.**  After any genuine calls on a new book, in any order, a
live book at `n` holds exactly the exchange's book at `n`, and the view it publishes lists levels
of that book only. -/
theorem live_book_mirrors_exchange (B : ExchangeHistory) (symbol : String) (depthLevels : Nat)
    (ops : List Op) (hops : ∀ op ∈ ops, Genuine B op) (n : UInt64)
    (hlive : ((Orderbook.new symbol depthLevels).runOps ops).state = .live n) :
    let book := (Orderbook.new symbol depthLevels).runOps ops
    Mirrors book.bids (B.bids n) ∧ Mirrors book.asks (B.asks n) ∧
      ∀ nowMs,
        (∀ l ∈ (book.snapshot nowMs).bids, ∃ key, l = (keyPrice key, B.bids n key) ∧ l.2 ≠ 0) ∧
        (∀ l ∈ (book.snapshot nowMs).asks, ∃ key, l = (keyPrice key, B.asks n key) ∧ l.2 ≠ 0) := by
  intro book
  have hsync : InSync B book := (inSync_new B symbol depthLevels).runOps hops
  simp only [InSync, book, hlive] at hsync
  refine ⟨hsync.1, hsync.2, fun nowMs => ⟨?_, ?_⟩⟩
  · intro l hl
    obtain ⟨⟨key, q⟩, hmem, rfl⟩ := List.mem_map.mp hl
    obtain ⟨hq, hne⟩ := hsync.1.published (List.mem_reverse.mp (List.mem_of_mem_take hmem))
    exact ⟨key, congrArg _ hq, hne⟩
  · intro l hl
    obtain ⟨⟨key, q⟩, hmem, rfl⟩ := List.mem_map.mp hl
    obtain ⟨hq, hne⟩ := hsync.2.published (List.mem_of_mem_take hmem)
    exact ⟨key, congrArg _ hq, hne⟩

/-! A two-message feed the theorem applies to: bid 2.0 at price 1.0 appears with update 1, and the
event that says so is buffered before the (empty) snapshot of id 0 arrives. -/

def bidAtOne : ExchangeHistory := fun n =>
  { bids := fun key => if n ≠ 0 ∧ key = 10 ^ 8 then 2 else 0, asks := fun _ => 0 }

def bidAtOneEvent : DepthUpdate where
  eventType := "depthUpdate"
  eventTime := 0
  symbol := "BTCUSDT"
  firstUpdateId := 1
  lastUpdateId := 1
  prevLastUpdateId := 0
  bids := [("1.0", "2.0")]
  asks := []

def emptySnapshot : DepthSnapshot where
  lastUpdateId := 0
  bids := []
  asks := []

theorem genuine_bidAtOneEvent : GenuineUpdate bidAtOne bidAtOneEvent where
  pu_lt := by decide
  first_le := by decide
  bids := by
    intro key
    have hread : bidAtOneEvent.bids.map readLevel = [(10 ^ 8, 2)] := by decide +kernel
    by_cases hkey : key = 10 ^ 8
    · left
      refine ⟨2, ?_, ?_⟩
      · show lastListed key bidAtOneEvent.bids = some 2
        rw [lastListed, hread, hkey]
        rfl
      · rw [ExchangeHistory.bids, bidAtOne, hkey]
        rfl
    · right
      refine ⟨?_, fun m _ _ => ?_⟩
      · show lastListed key bidAtOneEvent.bids = none
        rw [lastListed, hread]
        simp only [WriteLog.lastEntry, if_neg (Ne.symm hkey)]
      · simp only [ExchangeHistory.bids, bidAtOne, hkey, and_false, if_false]
  asks := fun _ => Or.inr ⟨rfl, fun _ _ _ => rfl⟩

theorem genuine_emptySnapshot : GenuineSnapshot bidAtOne emptySnapshot where
  bids :=
    { nodup := List.nodup_nil
      mem_iff := by
        intro key q
        have hb : bidAtOne.bids emptySnapshot.lastUpdateId key = 0 := by
          simp [ExchangeHistory.bids, bidAtOne, emptySnapshot]
        rw [hb]
        refine ⟨fun h => absurd h List.not_mem_nil, fun ⟨hq, hpos⟩ => ?_⟩
        rw [hq] at hpos
        exact absurd hpos (lt_irrefl 0) }
  asks :=
    { nodup := List.nodup_nil
      mem_iff := by
        intro key q
        refine ⟨fun h => absurd h List.not_mem_nil, fun ⟨hq, hpos⟩ => ?_⟩
        rw [hq] at hpos
        exact absurd hpos (lt_irrefl 0) }

theorem bidAtOne_mirrored :
    let book := (Orderbook.new "BTCUSDT" 20).runOps
      [.update bidAtOneEvent, .snapshot emptySnapshot]
    Mirrors book.bids (bidAtOne.bids 1) ∧ Mirrors book.asks (bidAtOne.asks 1) ∧
      ∀ nowMs,
        (∀ l ∈ (book.snapshot nowMs).bids,
          ∃ key, l = (keyPrice key, bidAtOne.bids 1 key) ∧ l.2 ≠ 0) ∧
        (∀ l ∈ (book.snapshot nowMs).asks,
          ∃ key, l = (keyPrice key, bidAtOne.asks 1 key) ∧ l.2 ≠ 0) :=
  live_book_mirrors_exchange bidAtOne "BTCUSDT" 20 _
    (by
      intro op hop
      rcases List.mem_cons.mp hop with rfl | hop
      · exact genuine_bidAtOneEvent
      · rw [List.mem_singleton.mp hop]
        exact genuine_emptySnapshot)
    1 (by decide +kernel)

end CryptoTrader.Replica
