/-
# CryptoTrader.LateSnapshot — a snapshot that reaches a live book.

Initial fetches and resync pollers answer when they like, so a snapshot can reach a book that is
live already, and may be older than it.  `handle_update` skips what ends by the id of the book;
`handle_snapshot` has no such test.  It takes a live book for one that has just started buffering,
loads the snapshot and goes live at ITS id.  At the same id that changes nothing, because both are
the exchange's book there.  At an older id the book is rolled back, and the next good event, which
starts where the book was, is a gap.
-/
import CryptoTrader.Replica
import CryptoTrader.BufferedReplay

namespace CryptoTrader.LateSnapshot

open Orderbook Replica SnapshotTiming BufferedReplay

/-- Handling `snapshot` first does not disturb a book live at `n` that goes on with the events
`es`. -/
structure Harmless (book : Orderbook) (n : UInt64) (snapshot : DepthSnapshot)
    (es : List DepthUpdate) : Prop where
  /-- no reset and no request for a resync, at any point of the chain -/
  stays_live : ∀ pre, pre <+: es →
    ((book.handleSnapshot snapshot).2.deliver false pre).1.isLive = true ∧
      ((book.handleSnapshot snapshot).2.deliver false pre).2 = false
  /-- the end is that of the chain alone -/
  same_end : ((book.handleSnapshot snapshot).2.deliver false es).1.state
        = (book.deliver false es).1.state ∧
      ((book.handleSnapshot snapshot).2.deliver false es).1.bids = (book.deliver false es).1.bids ∧
      ((book.handleSnapshot snapshot).2.deliver false es).1.asks = (book.deliver false es).1.asks
  /-- the id never falls below `n`, and never decreases along the chain -/
  never_back : ∀ pre mid, pre ++ mid <+: es → ∀ m m',
    ((book.handleSnapshot snapshot).2.deliver false pre).1.state = .live m →
    ((book.handleSnapshot snapshot).2.deliver false (pre ++ mid)).1.state = .live m' →
    n ≤ m ∧ m ≤ m'

/-! ## §1 What the snapshot does to a live book -/

/-- A live book has nothing buffered: it ends as loaded, at the id of the snapshot. -/
theorem handleSnapshot_of_live {book : Orderbook} {n : UInt64} (hlive : book.state = .live n)
    (snapshot : DepthSnapshot) :
    (book.handleSnapshot snapshot).2 =
      book.liveAt (loadLevels snapshot.bids, loadLevels snapshot.asks) snapshot.lastUpdateId := by
  have hbuf : book.buffered = [] := by
    unfold buffered
    rw [hlive]
  rw [handleSnapshot_replayed, hbuf]
  rfl

/-- A mirrored side is determined by what it mirrors. -/
theorem Mirrors.unique {side side' : Side} {b : Nat → ℚ} (h : Mirrors side b)
    (h' : Mirrors side' b) : side = side' := by
  apply Std.ExtTreeMap.ext_getElem?
  intro key
  rw [h key, h' key]

/-- **A snapshot of the same id is a no-op** on a book in sync. -/
theorem handleSnapshot_same_id {B : ExchangeHistory} {book : Orderbook} {n : UInt64}
    (hsync : InSync B book) (hlive : book.state = .live n) {snapshot : DepthSnapshot}
    (hgenuine : GenuineSnapshot B snapshot) (hid : snapshot.lastUpdateId = n) :
    (book.handleSnapshot snapshot).2 = book := by
  simp only [InSync, hlive] at hsync
  have hloaded := hgenuine.mirrorsAt
  rw [hid] at hloaded
  have hsides : (loadLevels snapshot.bids, loadLevels snapshot.asks) = book.sides :=
    Prod.ext (Mirrors.unique hloaded.1 hsync.1) (Mirrors.unique hloaded.2 hsync.2)
  rw [handleSnapshot_of_live hlive, hid, hsides, liveAt_self hlive]

/-- **An older snapshot knocks the book out of sync**: the next event of the chain is a gap. -/
theorem older_snapshot_gaps {book : Orderbook} {n : UInt64} (hlive : book.state = .live n)
    {snapshot : DepthSnapshot} (hold : snapshot.lastUpdateId < n) {e : DepthUpdate}
    (hpu : e.prevLastUpdateId = n) (hu : n < e.lastUpdateId) :
    (book.handleSnapshot snapshot).2.handleUpdate e false = (.ok false, book.reset, true) := by
  have hseq : sequencing snapshot.lastUpdateId e = .gap := by
    cases h : sequencing snapshot.lastUpdateId e with
    | gap => rfl
    | stale =>
        have hle := (sequencing_eq_stale_iff.mp h).2
        exact absurd hle (by grind)
    | apply =>
        rcases sequencing_eq_apply_iff.mp h with heq | hspan
        · exact absurd heq (by grind)
        · exact absurd hspan.1 (by grind)
  rw [handleSnapshot_of_live hlive, handleUpdate_live (liveAt_state _ _ _), hseq]
  rfl

/-- No event moves a live book back. -/
theorem le_of_handleUpdate {book : Orderbook} {n n' : UInt64} (hlive : book.state = .live n)
    {e : DepthUpdate} (hids : Numbered e) (resyncNeeded : Bool)
    (hafter : (book.handleUpdate e resyncNeeded).2.1.state = .live n') : n ≤ n' := by
  obtain ⟨hlt, hle⟩ := hids
  rw [handleUpdate_live hlive] at hafter
  cases hseq : sequencing n e with
  | stale =>
      rw [hseq, hlive, SyncState.live.injEq] at hafter
      exact hafter ▸ UInt64.le_refl n
  | gap =>
      rw [hseq] at hafter
      cases hafter
  | apply =>
      rw [hseq, liveAt_state, SyncState.live.injEq] at hafter
      rcases sequencing_eq_apply_iff.mp hseq with heq | hspan <;> grind

/-! ## §2 When it is harmless -/

/-- A live book runs through a chain from its id without moving back. -/
theorem harmless_of_no_op {book : Orderbook} {n : UInt64} (hlive : book.state = .live n)
    {snapshot : DepthSnapshot} (hsame : (book.handleSnapshot snapshot).2 = book)
    {es : List DepthUpdate} (hchain : ContiguousFrom n es) : Harmless book n snapshot es := by
  have halong : ∀ pre, pre <+: es →
      (book.deliver false pre).1.state = .live (lastId n pre) ∧
        (book.deliver false pre).2 = false := by
    rintro pre ⟨rest, rfl⟩
    have hpre := (contiguousFrom_append.mp hchain).1
    rw [deliver_live hpre (UInt64.le_refl n) hlive false, max_of_le hpre.le_lastId]
    exact ⟨rfl, rfl⟩
  refine ⟨?_, ?_, ?_⟩
  · intro pre hpre
    rw [hsame]
    obtain ⟨hstate, hflag⟩ := halong pre hpre
    refine ⟨?_, hflag⟩
    unfold isLive
    rw [hstate]
  · rw [hsame]
    exact ⟨rfl, rfl, rfl⟩
  · intro pre mid hpm m m' hm hm'
    have hpre : pre <+: es := (List.prefix_append pre mid).trans hpm
    rw [hsame, (halong pre hpre).1, SyncState.live.injEq] at hm
    rw [hsame, (halong _ hpm).1, SyncState.live.injEq] at hm'
    subst hm hm'
    obtain ⟨rest, rfl⟩ := hpm
    obtain ⟨hpreMid, _⟩ := contiguousFrom_append.mp hchain
    obtain ⟨hpre', hmid⟩ := contiguousFrom_append.mp hpreMid
    rw [lastId_append]
    exact ⟨hpre'.le_lastId, hmid.le_lastId⟩

/-- **A late snapshot is harmless exactly when it is not late.**  Take any book that genuine events
and snapshots have brought live at `n`, any genuine snapshot of id at most `n`, and any chain of
events contiguous from `n`.  Handling the snapshot first never resets the book, leads to the same
end and never moves the id back, if and only if the snapshot's id is `n`; an older one resets the
book on the first event of the chain.  Genuine events never move the id of a live book back. -/
theorem late_snapshot_harmless_iff (B : ExchangeHistory) (symbol : String) (depthLevels : Nat)
    (ops : List Op) (hops : ∀ op ∈ ops, Genuine B op) (n : UInt64)
    (hlive : ((Orderbook.new symbol depthLevels).runOps ops).state = .live n)
    (snapshot : DepthSnapshot) (hgenuine : GenuineSnapshot B snapshot)
    (hlate : snapshot.lastUpdateId ≤ n) (es : List DepthUpdate)
    (hchain : ContiguousFrom n es) :
    let book := (Orderbook.new symbol depthLevels).runOps ops
    (Harmless book n snapshot es ↔ snapshot.lastUpdateId = n) ∧
    (snapshot.lastUpdateId < n → es ≠ [] →
      ((book.handleSnapshot snapshot).2.deliver false es).2 = true) ∧
    ∀ e resyncNeeded n', GenuineUpdate B e →
      (book.handleUpdate e resyncNeeded).2.1.state = .live n' → n ≤ n' := by
  intro book
  refine ⟨⟨?_, ?_⟩, ?_, ?_⟩
  · intro h
    -- after the snapshot alone the book stands at the snapshot's id
    have hstate : ((book.handleSnapshot snapshot).2.deliver false []).1.state =
        .live snapshot.lastUpdateId := by
      rw [handleSnapshot_of_live hlive]
      rfl
    have hback := (h.never_back [] [] List.nil_prefix _ _ hstate hstate).1
    exact UInt64.le_antisymm hlate hback
  · intro hid
    have hsync : InSync B book := (inSync_new B symbol depthLevels).runOps hops
    exact harmless_of_no_op hlive (handleSnapshot_same_id hsync hlive hgenuine hid) hchain
  · intro hold hne
    cases es with
    | nil => exact absurd rfl hne
    | cons e es =>
        obtain ⟨hpu, hlt, hle, _⟩ := hchain
        rw [deliver_cons, older_snapshot_gaps hlive hold hpu (by grind)]
        exact deliver_flag _ es
  · intro e resyncNeeded n' he
    exact le_of_handleUpdate hlive ⟨he.pu_lt, he.first_le⟩ resyncNeeded

/-! An exchange whose book is always empty, synchronized at 5. -/

def emptyExchange : ExchangeHistory := fun _ => { bids := fun _ => 0, asks := fun _ => 0 }

theorem genuine_emptyAt (id : UInt64) : GenuineSnapshot emptyExchange (emptyAt id) := by
  have hlist : ListsExactly (fun _ => 0) [] :=
    { nodup := List.nodup_nil
      mem_iff := by
        intro key q
        refine ⟨fun h => absurd h List.not_mem_nil, ?_⟩
        rintro ⟨rfl, hpos⟩
        exact absurd hpos (lt_irrefl 0) }
  exact ⟨hlist, hlist⟩

/-- An event without levels. -/
def quiet (pu first last : UInt64) : DepthUpdate := { quote pu first last with bids := [] }

theorem same_snapshot_harmless :
    Harmless ((Orderbook.new "BTCUSDT" 20).runOps [.snapshot (emptyAt 5)]) 5 (emptyAt 5)
      [quiet 5 6 6, quiet 6 7 9] :=
  (late_snapshot_harmless_iff emptyExchange "BTCUSDT" 20 [.snapshot (emptyAt 5)]
    (fun op hop => by rw [List.mem_singleton.mp hop]; exact genuine_emptyAt 5) 5 rfl
    (emptyAt 5) (genuine_emptyAt 5) (by decide) [quiet 5 6 6, quiet 6 7 9]
    ⟨rfl, by decide, by decide, rfl, by decide, by decide, trivial⟩).1.mpr rfl

/-- A second snapshot, of id 3, rolls the book back from 5, and the next event, which continues the
book at 5, resets it. -/
theorem older_snapshot_not_harmless :
    GenuineSnapshot emptyExchange (emptyAt 3) ∧ GenuineUpdate emptyExchange (quiet 5 6 6) ∧
      ContiguousFrom 5 [quiet 5 6 6] ∧
      (((Orderbook.new "BTCUSDT" 20).runOps [.snapshot (emptyAt 5)]).handleSnapshot
        (emptyAt 3)).2.state = .live 3 ∧
      ¬ Harmless ((Orderbook.new "BTCUSDT" 20).runOps [.snapshot (emptyAt 5)]) 5 (emptyAt 3)
        [quiet 5 6 6] := by
  have hevent : GenuineUpdate emptyExchange (quiet 5 6 6) :=
    { pu_lt := by decide
      first_le := by decide
      bids := fun _ => Or.inr ⟨rfl, fun _ _ _ => rfl⟩
      asks := fun _ => Or.inr ⟨rfl, fun _ _ _ => rfl⟩ }
  refine ⟨genuine_emptyAt 3, hevent, ⟨rfl, by decide, by decide, trivial⟩, rfl, ?_⟩
  intro h
  have hlive := (h.stays_live [quiet 5 6 6] (List.prefix_refl _)).1
  exact absurd hlive (by decide +kernel)

end CryptoTrader.LateSnapshot
