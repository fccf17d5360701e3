/-
# CryptoTrader.SyntheticData — the synthetic market, and the book that follows it.

`generate_synthetic_data` of `backtest/data_loader.rs`.  A random walk of the mid price; every event
deletes what the previous one quoted and this one does not, and then quotes two levels on each side
of the new mid.  The draws come from a generator `nextRand` on a state of any type: the closure of
the source is one (`lcg`), and every sequence of draws is one.

All the events are generated before the first is used, into a vector that is allocated at once for
the number asked for.  That allocation can fail, so generating does not always return; the small
allocations of the levels and strings are taken to succeed.

The generator remembers prices, the book holds keys.  `Covers` couples the two: a side holds no key
but those of the remembered prices.  Requoting keeps that, and it is why nothing stale survives.
-/
import CryptoTrader.Decimal
import CryptoTrader.TopOfBook

namespace CryptoTrader

open Lib

/-! ## §1 The generator -/

/-- How an allocation ends the program. -/
inductive AllocError where
  | capacityOverflow
  | outOfMemory (bytes : Nat)
  deriving DecidableEq, Repr

def AllocError.message : AllocError → String
  | capacityOverflow => "capacity overflow"
  | outOfMemory bytes => s!"memory allocation of {bytes} bytes failed"

/-- `Vec::with_capacity`: it panics beyond `isize::MAX` bytes, asks the allocator for the bytes, and
aborts where it is refused.  No bytes are not asked for. -/
def withCapacity (grants : Nat → Bool) (elemBytes capacity : Nat) : Except AllocError Unit :=
  let bytes := elemBytes * capacity
  if bytes > 2 ^ 63 - 1 then .error .capacityOverflow
  else if bytes = 0 ∨ grants bytes then .ok ()
  else .error (.outOfMemory bytes)

/-- The size of a `DepthUpdate`: two strings and two vectors of three words each, and four `u64`. -/
def depthUpdateBytes : Nat := 4 * 24 + 4 * 8

def basePrice : ℚ := 65000

def baseUpdateId : UInt64 := 1000

/-- `0.25 + next_rand() * 1.5` -/
def drawQty (r : ℚ) : ℚ := 1 / 4 + r * (3 / 2)

/-- A level as it is sent. -/
def quoteLevel (price qty : ℚ) : Level := (formatFixed 2 price, formatFixed 4 qty)

/-- The variables of the loop that builds the snapshot. -/
structure SnapshotLoop (ρ : Type) where
  snapBids : List Level
  snapAsks : List Level
  prevBidPrices : List ℚ
  prevAskPrices : List ℚ
  rng : ρ

/-- The variables of the event loop. -/
structure Generator (ρ : Type) where
  rng : ρ
  mid : ℚ
  prevBidPrices : List ℚ
  prevAskPrices : List ℚ
  lastId : UInt64

section

variable {ρ : Type} (nextRand : ρ → ℚ × ρ)

/-- One level a side; both get the same quantity. -/
def snapshotLevel (st : SnapshotLoop ρ) (i : Nat) : SnapshotLoop ρ :=
  let bidPrice := basePrice - ((i : ℚ) + 1) * 10
  let askPrice := basePrice + ((i : ℚ) + 1) * 10
  let (r, rng) := nextRand st.rng
  { snapBids := st.snapBids ++ [quoteLevel bidPrice (drawQty r)]
    snapAsks := st.snapAsks ++ [quoteLevel askPrice (drawQty r)]
    prevBidPrices := st.prevBidPrices ++ [bidPrice]
    prevAskPrices := st.prevAskPrices ++ [askPrice]
    rng := rng }

/-- The five levels a side of the snapshot. -/
def snapshotLevels (rng : ρ) : SnapshotLoop ρ :=
  (List.range 5).foldl (snapshotLevel nextRand) ⟨[], [], [], [], rng⟩

/-- The deletions of a side: every previous price that no new one is close to. -/
def deletions (prevPrices newPrices : List ℚ) : List Level :=
  (prevPrices.filter fun p => !newPrices.any fun np => |np - p| < 5 / 1000).map fun p =>
    (formatFixed 2 p, "0.0000")

/-- The fresh levels of a side, one draw each. -/
def quotes (rng : ρ) : List ℚ → List Level × ρ
  | [] => ([], rng)
  | p :: prices =>
      let (r, rng) := nextRand rng
      let (levels, rng) := quotes rng prices
      (quoteLevel p (drawQty r) :: levels, rng)

/-- One pass of the event loop. -/
def genEvent (symbol : String) (i : Nat) (gen : Generator ρ) : DepthUpdate × Generator ρ :=
  let (r, rng) := nextRand gen.rng
  let mid := gen.mid + roundF64 (r * 20 - 10)
  let newBidPrices := [mid - 10, mid - 20]
  let newAskPrices := [mid + 10, mid + 20]
  let (bids, rng) := quotes nextRand rng newBidPrices
  let (asks, rng) := quotes nextRand rng newAskPrices
  ({ eventType := "depthUpdate"
     eventTime := 1700000000000 + i.toUInt64 * 100
     symbol := symbol
     firstUpdateId := gen.lastId + 1
     lastUpdateId := gen.lastId + 1
     prevLastUpdateId := gen.lastId
     -- deletions come first, so that a re-used price is not wiped out
     bids := deletions gen.prevBidPrices newBidPrices ++ bids
     asks := deletions gen.prevAskPrices newAskPrices ++ asks },
   { rng := rng
     mid := mid
     prevBidPrices := newBidPrices
     prevAskPrices := newAskPrices
     lastId := gen.lastId + 1 })

/-- The events from the `i`-th on, `n` of them. -/
def genEvents (symbol : String) : Nat → Nat → Generator ρ → List DepthUpdate
  | _, 0, _ => []
  | i, n + 1, gen =>
      let (event, gen) := genEvent nextRand symbol i gen
      event :: genEvents symbol (i + 1) n gen

/-- The variables of the event loop at its start. -/
def Generator.start (rng : ρ) : Generator ρ :=
  let loop := snapshotLevels nextRand rng
  { rng := loop.rng
    mid := basePrice
    prevBidPrices := loop.prevBidPrices
    prevAskPrices := loop.prevAskPrices
    lastId := baseUpdateId }

/-- What is generated, when there is room for it. -/
def syntheticData (symbol : String) (numEvents : Nat) (rng : ρ) :
    DepthSnapshot × List DepthUpdate :=
  let loop := snapshotLevels nextRand rng
  ({ lastUpdateId := baseUpdateId, bids := loop.snapBids, asks := loop.snapAsks },
    genEvents nextRand symbol 0 numEvents (Generator.start nextRand rng))

/-- `grants` says which requests the allocator grants, by their bytes. -/
def generateSyntheticData (grants : Nat → Bool) (symbol : String) (numEvents : Nat) (rng : ρ) :
    Except AllocError (DepthSnapshot × List DepthUpdate) :=
  match withCapacity grants depthUpdateBytes numEvents with
  | .error e => .error e
  | .ok () => .ok (syntheticData nextRand symbol numEvents rng)

/-- The variables of the event loop after `k` passes. -/
def Generator.after (symbol : String) (rng : ρ) : Nat → Generator ρ
  | 0 => Generator.start nextRand rng
  | k + 1 => (genEvent nextRand symbol k (Generator.after symbol rng k)).2

/-- `next_rand`: a linear congruential generator, of which the top 31 bits are used. -/
def lcg (rngState : UInt64) : ℚ × UInt64 :=
  let rngState := rngState * 6364136223846793005 + 1442695040888963407
  (((rngState >>> 33).toNat : ℚ) / 2 ^ 31, rngState)

/-- The seed of the source. -/
def lcgSeed : UInt64 := 0x5DEECE66D

/-- The draws are in `[0, 1)`. -/
def UnitDraws : Prop := ∀ rng, 0 ≤ (nextRand rng).1 ∧ (nextRand rng).1 < 1

end

theorem lcg_unitDraws : UnitDraws lcg := by
  intro rngState
  have htop : ∀ s : UInt64, (s >>> 33).toNat < 2 ^ 31 := by
    intro s
    rw [UInt64.toNat_shiftRight, show (33 : UInt64).toNat % 64 = 33 from rfl,
      Nat.shiftRight_eq_div_pow]
    have hs := s.toNat_lt
    omega
  have hcast := htop (rngState * 6364136223846793005 + 1442695040888963407)
  refine ⟨by unfold lcg; positivity, ?_⟩
  unfold lcg
  rw [div_lt_one (by positivity)]
  exact_mod_cast hcast

/-! ## §2 What the book reads -/

/-- A price of the walk: a whole number of dollars. -/
def Whole (price : ℚ) : Prop := ∃ n : ℤ, price = n

theorem whole_basePrice : Whole basePrice := ⟨65000, by norm_num [basePrice]⟩

theorem whole_sub {price : ℚ} (h : Whole price) (n : ℤ) : Whole (price - n) := by
  obtain ⟨m, rfl⟩ := h
  exact ⟨m - n, by push_cast; rfl⟩

theorem whole_add {price : ℚ} (h : Whole price) (n : ℤ) : Whole (price + n) := by
  obtain ⟨m, rfl⟩ := h
  exact ⟨m + n, by push_cast; rfl⟩

theorem whole_pair {p q : ℚ} (hp : Whole p) (hq : Whole q) : ∀ x ∈ [p, q], Whole x := by
  intro x hx
  rcases List.mem_cons.mp hx with rfl | hx
  · exact hp
  · rw [List.mem_singleton.mp hx]
    exact hq

/-- Whole prices that are close are equal. -/
theorem Whole.eq_of_close {p q : ℚ} (hp : Whole p) (hq : Whole q) (h : |q - p| < 5 / 1000) :
    q = p := by
  obtain ⟨m, rfl⟩ := hp
  obtain ⟨n, rfl⟩ := hq
  have hlt : |n - m| < 1 := by
    have hcast : ((|n - m| : ℤ) : ℚ) < 1 := by
      push_cast
      linarith
    exact_mod_cast hcast
  have hzero := Int.abs_lt_one_iff.mp hlt
  rw [show n = m by omega]

/-- The key of a whole price in range is exact. -/
theorem priceToKey_whole {price : ℚ} (hwhole : Whole price) (hpos : 0 ≤ price)
    (hle : price ≤ 184467440737) :
    (priceToKey price : ℚ) = price * 10 ^ 8 ∧
      Orderbook.keyPrice (priceToKey price) = price := by
  have hkey : (priceToKey price : ℚ) = price * 10 ^ 8 := by
    obtain ⟨n, rfl⟩ := hwhole
    obtain ⟨m, rfl⟩ := Int.eq_ofNat_of_zero_le (show 0 ≤ n by exact_mod_cast hpos)
    have hbound : m ≤ 184467440737 := by exact_mod_cast hle
    have hcast : ((m : ℤ) : ℚ) * 10 ^ 8 = ((m * 10 ^ 8 : Nat) : ℚ) := by
      push_cast
      rfl
    unfold priceToKey
    rw [hcast, Int.floor_natCast, Int.toNat_natCast, min_eq_left (by omega)]
  refine ⟨hkey, ?_⟩
  unfold Orderbook.keyPrice
  rw [hkey]
  exact mul_div_cancel_right₀ price (by norm_num)

/-- A fresh level as the book reads it. -/
theorem readLevel_quoteLevel {price r : ℚ} (hprice : Whole price) (hr : 0 ≤ r) :
    ∃ qty, 0 < qty ∧ readLevel (quoteLevel price (drawQty r)) = (priceToKey price, qty) := by
  refine ⟨roundPlaces 4 (drawQty r), ?_, ?_⟩
  · have hmin : ((2500 : Nat) : ℚ) / 10 ^ 4 ≤ drawQty r := by
      unfold drawQty
      norm_num
      linarith
    have hround := le_roundPlaces hmin
    norm_num at hround
    linarith
  · obtain ⟨n, rfl⟩ := hprice
    unfold quoteLevel
    rw [readLevel_rat, parseF64_formatFixed, parseF64_formatFixed, roundPlaces_intCast]
    rfl

/-- A deletion as the book reads it. -/
theorem readLevel_deletion {price : ℚ} (hprice : Whole price) :
    readLevel (formatFixed 2 price, "0.0000") = (priceToKey price, 0) := by
  obtain ⟨n, rfl⟩ := hprice
  have hzero : parseF64 "0.0000" = some 0 := by decide +kernel
  rw [readLevel_rat, parseF64_formatFixed, roundPlaces_intCast, hzero]
  rfl

/-- The fresh levels of a side: the keys of the prices in order, each with a positive quantity. -/
theorem readLevel_quotes {ρ : Type} {nextRand : ρ → ℚ × ρ} (hdraws : UnitDraws nextRand) (rng : ρ)
    {prices : List ℚ} (hprices : ∀ p ∈ prices, Whole p) :
    ∃ qtys : List ℚ, qtys.length = prices.length ∧ (∀ q ∈ qtys, 0 < q) ∧
      (quotes nextRand rng prices).1.map readLevel = (prices.map priceToKey).zip qtys := by
  induction prices generalizing rng with
  | nil => exact ⟨[], rfl, by simp, rfl⟩
  | cons p prices ih =>
      obtain ⟨qty, hqty, hread⟩ :=
        readLevel_quoteLevel (hprices p List.mem_cons_self) (hdraws rng).1
      obtain ⟨qtys, hlength, hpos, hrest⟩ :=
        ih (nextRand rng).2 fun q hq => hprices q (List.mem_cons_of_mem p hq)
      refine ⟨qty :: qtys, congrArg (· + 1) hlength, ?_, ?_⟩
      · intro q hq
        rcases List.mem_cons.mp hq with rfl | hq
        · exact hqty
        · exact hpos q hq
      · show readLevel (quoteLevel p (drawQty (nextRand rng).1)) :: _ = _
        rw [hread]
        exact congrArg ((priceToKey p, qty) :: ·) hrest

/-- A side that holds no key but those of some prices. -/
def Covers (prices : List ℚ) (side : Side) : Prop :=
  ∀ key, side[key]? ≠ none → key ∈ prices.map priceToKey

/-- **Requoting a side.**  Whatever the remembered prices cover is deleted or quoted anew, so only
the fresh levels are left. -/
theorem getElem?_requote {ρ : Type} {nextRand : ρ → ℚ × ρ} (hdraws : UnitDraws nextRand) (rng : ρ)
    {prev prices : List ℚ} (hprev : ∀ p ∈ prev, Whole p) (hprices : ∀ p ∈ prices, Whole p)
    {side : Side} (hcovers : Covers prev side) (key : Nat) :
    ((deletions prev prices ++ (quotes nextRand rng prices).1).foldl applyLevel side)[key]?
      = WriteLog.lastEntry key ((quotes nextRand rng prices).1.map readLevel) := by
  obtain ⟨qtys, hlength, hpos, hread⟩ := readLevel_quotes hdraws rng hprices
  have hdelete : ∀ e ∈ (deletions prev prices).map readLevel, e.2 = 0 := by
    intro e he
    obtain ⟨level, hlevel, rfl⟩ := List.mem_map.mp he
    obtain ⟨p, hp, rfl⟩ := List.mem_map.mp hlevel
    rw [readLevel_deletion (hprev p (List.mem_of_mem_filter hp))]
  have hkeys : ((quotes nextRand rng prices).1.map readLevel).map Prod.fst
      = prices.map priceToKey := by
    rw [hread, List.map_fst_zip]
    rw [List.length_map, hlength]
  -- a remembered price is quoted anew, or it is among the deletions
  have hcover : ∀ k, side[k]? ≠ none → k ∈ ((deletions prev prices).map readLevel).map Prod.fst ∨
      k ∈ ((quotes nextRand rng prices).1.map readLevel).map Prod.fst := by
    intro k hk
    obtain ⟨p, hp, rfl⟩ := List.mem_map.mp (hcovers k hk)
    by_cases hclose : prices.any (fun np => |np - p| < 5 / 1000) = true
    · right
      obtain ⟨np, hnp, habs⟩ := List.any_eq_true.mp hclose
      have heq : np = p := (hprev p hp).eq_of_close (hprices np hnp) (of_decide_eq_true habs)
      rw [hkeys, ← heq]
      exact List.mem_map_of_mem hnp
    · left
      have hmem : (formatFixed 2 p, "0.0000") ∈ deletions prev prices := by
        unfold deletions
        exact List.mem_map_of_mem (List.mem_filter.mpr ⟨hp, by simp [hclose]⟩)
      refine List.mem_map.mpr ⟨_, List.mem_map_of_mem hmem, ?_⟩
      rw [readLevel_deletion (hprev p hp)]
  rw [foldl_applyLevel_eq_replay, List.map_append,
    WriteLog.getElem?_replay_requote _ (fun e he => if_pos (hdelete e he)) hcover]
  cases hlast : WriteLog.lastEntry key ((quotes nextRand rng prices).1.map readLevel) with
  | none => rfl
  | some qty =>
      have hmem := WriteLog.lastEntry_some_mem hlast
      rw [hread] at hmem
      exact if_neg (hpos qty (List.of_mem_zip hmem).2).ne'

/-! ## §3 Two levels a side -/

/-- All the levels of a side with their prices, in the order of the keys. -/
def levels (side : Side) : List (ℚ × ℚ) :=
  side.toList.map fun l => (Orderbook.keyPrice l.1, l.2)

/-- Two bids and two asks around a mid, and nothing else. -/
structure QuotesAround (mid : ℚ) (book : Orderbook) : Prop where
  bids : ∃ near far, 0 < near ∧ 0 < far ∧ levels book.bids = [(mid - 20, far), (mid - 10, near)]
  asks : ∃ near far, 0 < near ∧ 0 < far ∧ levels book.asks = [(mid + 10, near), (mid + 20, far)]

/-- Such a book is not crossed, and what it publishes has a spread of 20. -/
theorem QuotesAround.spread {mid : ℚ} {book : Orderbook} (h : QuotesAround mid book) :
    (∀ b ∈ levels book.bids, ∀ a ∈ levels book.asks, b.1 + 20 ≤ a.1) ∧
    (0 < book.depthLevels → ∀ nowMs, ∃ b a, (book.snapshot nowMs).bids.head? = some b ∧
      (book.snapshot nowMs).asks.head? = some a ∧ a.1 - b.1 = 20) := by
  obtain ⟨nearBid, farBid, -, -, hbids⟩ := h.bids
  obtain ⟨nearAsk, farAsk, -, -, hasks⟩ := h.asks
  refine ⟨?_, ?_⟩
  · intro b hb a ha
    rw [hbids] at hb
    rw [hasks] at ha
    simp only [List.mem_cons, List.not_mem_nil, or_false] at hb ha
    rcases hb with rfl | rfl <;> rcases ha with rfl | rfl <;> dsimp only <;> linarith
  · intro hdepth nowMs
    obtain ⟨depth, hdepth'⟩ := Nat.exists_eq_succ_of_ne_zero hdepth.ne'
    have hbidView :
        (book.snapshot nowMs).bids = (levels book.bids).reverse.take book.depthLevels := by
      unfold levels
      rw [← List.map_reverse]
      exact List.map_take
    have haskView : (book.snapshot nowMs).asks = (levels book.asks).take book.depthLevels := by
      unfold levels
      exact List.map_take
    refine ⟨(mid - 10, nearBid), (mid + 10, nearAsk), ?_, ?_, by ring⟩
    · rw [hbidView, hbids, hdepth']
      rfl
    · rw [haskView, hasks, hdepth']
      rfl

/-- A side that holds the last entries of a log without repeated keys is that log, sorted. -/
theorem toList_eq_of_lastEntry {side : Side} {entries sorted : List (Nat × ℚ)}
    (h : ∀ key, side[key]? = WriteLog.lastEntry key entries) (hperm : entries.Perm sorted)
    (hsorted : sorted.Pairwise fun a b => a.1 < b.1) : side.toList = sorted := by
  have hirrefl : Std.Irrefl fun a b : Nat × ℚ => a.1 < b.1 := ⟨fun a => lt_irrefl a.1⟩
  have hantisymm : Std.Antisymm fun a b : Nat × ℚ => a.1 < b.1 :=
    ⟨fun a b hab hba => absurd hba hab.asymm⟩
  have hnodup : (entries.map Prod.fst).Nodup := by
    rw [(hperm.map Prod.fst).nodup_iff]
    exact List.pairwise_map.mpr (hsorted.imp fun hab => hab.ne)
  refine (toList_sorted side).eq_of_mem_iff hsorted ?_
  rintro ⟨key, qty⟩
  rw [Std.ExtTreeMap.mem_toList_iff_getElem?_eq_some, h key,
    WriteLog.lastEntry_eq_some_iff hnodup]
  exact hperm.mem_iff

/-- Keys of whole prices in range are in the order of the prices. -/
theorem priceToKey_lt {p q : ℚ} (hp : Whole p) (hq : Whole q) (hpos : 0 ≤ p) (hlt : p < q)
    (hle : q ≤ 184467440737) : priceToKey p < priceToKey q := by
  have hkey : (priceToKey p : ℚ) < priceToKey q := by
    rw [(priceToKey_whole hp hpos (hlt.le.trans hle)).1,
      (priceToKey_whole hq (hpos.trans hlt.le) hle).1]
    gcongr
  exact_mod_cast hkey

/-- **The levels of a side in prices**, where every price is in the range of exact keys. -/
theorem levels_eq {side : Side} {entries : List (Nat × ℚ)} {sorted : List (ℚ × ℚ)}
    (h : ∀ key, side[key]? = WriteLog.lastEntry key entries)
    (hperm : entries.Perm (sorted.map fun l => (priceToKey l.1, l.2)))
    (hrange : ∀ l ∈ sorted, Whole l.1 ∧ 0 ≤ l.1 ∧ l.1 ≤ 184467440737)
    (hsorted : sorted.Pairwise fun a b => a.1 < b.1) : levels side = sorted := by
  have hkeys : (sorted.map fun l => (priceToKey l.1, l.2)).Pairwise fun a b => a.1 < b.1 := by
    refine List.pairwise_map.mpr (hsorted.imp_of_mem ?_)
    intro a b ha hb hab
    obtain ⟨hwhole, hpos, -⟩ := hrange a ha
    obtain ⟨hwhole', -, hle⟩ := hrange b hb
    exact priceToKey_lt hwhole hwhole' hpos hab hle
  unfold levels
  rw [toList_eq_of_lastEntry h hperm hkeys, List.map_map]
  refine (List.map_congr_left ?_).trans (List.map_id sorted)
  intro l hl
  obtain ⟨hwhole, hpos, hle⟩ := hrange l hl
  exact Prod.ext (priceToKey_whole hwhole hpos hle).2 rfl

/-! ## §4 The generator and the book, event by event -/

section

variable {ρ : Type} {nextRand : ρ → ℚ × ρ}

/-- What the book holds between two events is what the generator remembers. -/
structure Coupled (gen : Generator ρ) (book : Orderbook) : Prop where
  mid : Whole gen.mid
  prevBids : ∀ p ∈ gen.prevBidPrices, Whole p
  prevAsks : ∀ p ∈ gen.prevAskPrices, Whole p
  live : book.state = .live gen.lastId
  bids : Covers gen.prevBidPrices book.bids
  asks : Covers gen.prevAskPrices book.asks

/-- The levels of the snapshot so far, and the prices remembered of them. -/
structure SnapshotLoop.Sound (st : SnapshotLoop ρ) : Prop where
  bids : (st.snapBids.map readLevel).map Prod.fst = st.prevBidPrices.map priceToKey
  asks : (st.snapAsks.map readLevel).map Prod.fst = st.prevAskPrices.map priceToKey
  prevBids : ∀ p ∈ st.prevBidPrices, Whole p
  prevAsks : ∀ p ∈ st.prevAskPrices, Whole p

theorem SnapshotLoop.Sound.level (hdraws : UnitDraws nextRand) {st : SnapshotLoop ρ}
    (h : st.Sound) (i : Nat) : (snapshotLevel nextRand st i).Sound := by
  have hbid : Whole (basePrice - ((i : ℚ) + 1) * 10) := by
    have hwhole := whole_sub whole_basePrice ((i + 1) * 10)
    push_cast at hwhole
    exact hwhole
  have hask : Whole (basePrice + ((i : ℚ) + 1) * 10) := by
    have hwhole := whole_add whole_basePrice ((i + 1) * 10)
    push_cast at hwhole
    exact hwhole
  obtain ⟨bidQty, -, hbidRead⟩ := readLevel_quoteLevel hbid (hdraws st.rng).1
  obtain ⟨askQty, -, haskRead⟩ := readLevel_quoteLevel hask (hdraws st.rng).1
  have happend : ∀ {prices : List ℚ} {p : ℚ}, (∀ q ∈ prices, Whole q) → Whole p →
      ∀ q ∈ prices ++ [p], Whole q := by
    intro prices p hprices hp q hq
    rcases List.mem_append.mp hq with hq | hq
    · exact hprices q hq
    · rw [List.mem_singleton.mp hq]
      exact hp
  refine ⟨?_, ?_, happend h.prevBids hbid, happend h.prevAsks hask⟩
  · simp only [snapshotLevel, List.map_append, List.map_cons, List.map_nil, hbidRead, h.bids]
  · simp only [snapshotLevel, List.map_append, List.map_cons, List.map_nil, haskRead, h.asks]

theorem snapshotLevels_sound (hdraws : UnitDraws nextRand) (rng : ρ) :
    (snapshotLevels nextRand rng).Sound := by
  have hfold : ∀ (is : List Nat) {st : SnapshotLoop ρ}, st.Sound →
      (is.foldl (snapshotLevel nextRand) st).Sound := by
    intro is
    induction is with
    | nil => exact fun h => h
    | cons i is ih => exact fun h => ih (h.level hdraws i)
  exact hfold _ ⟨rfl, rfl, by simp, by simp⟩

/-- A loaded side holds no key but those of its levels. -/
theorem covers_loadLevels {sent : List Level} {prices : List ℚ}
    (hkeys : (sent.map readLevel).map Prod.fst = prices.map priceToKey) :
    Covers prices (loadLevels sent) := by
  intro key hkey
  rw [getElem?_loadLevels] at hkey
  obtain ⟨qty, hqty⟩ := Option.ne_none_iff_exists'.mp hkey
  have hmem := List.mem_of_mem_filter (WriteLog.lastEntry_some_mem hqty)
  rw [← hkeys]
  exact List.mem_map_of_mem hmem

/-- **The snapshot on a fresh book.** -/
theorem coupled_start (hdraws : UnitDraws nextRand) (rng : ρ) (symbol symbol' : String)
    (depthLevels numEvents : Nat) :
    Coupled (Generator.start nextRand rng) ((Orderbook.new symbol' depthLevels).handleSnapshot
      (syntheticData nextRand symbol numEvents rng).1).2 := by
  have hsound := snapshotLevels_sound hdraws rng
  unfold Generator.start syntheticData
  generalize snapshotLevels nextRand rng = loop at hsound ⊢
  exact ⟨whole_basePrice, hsound.prevBids, hsound.prevAsks, rfl, covers_loadLevels hsound.bids,
    covers_loadLevels hsound.asks⟩

/-- A side after requoting holds no key but those of the new prices. -/
theorem covers_requote (hdraws : UnitDraws nextRand) (rng : ρ) {prices : List ℚ}
    (hprices : ∀ p ∈ prices, Whole p) {side : Side}
    (h : ∀ key, side[key]? =
      WriteLog.lastEntry key ((quotes nextRand rng prices).1.map readLevel)) :
    Covers prices side := by
  obtain ⟨qtys, hlength, -, hread⟩ := readLevel_quotes hdraws rng hprices
  intro key hkey
  rw [h key] at hkey
  obtain ⟨qty, hqty⟩ := Option.ne_none_iff_exists'.mp hkey
  have hmem := WriteLog.lastEntry_some_mem hqty
  rw [hread] at hmem
  exact (List.of_mem_zip hmem).1

/-- Two quotes, read back. -/
theorem readLevel_two (hdraws : UnitDraws nextRand) (rng : ρ) {p q : ℚ} (hp : Whole p)
    (hq : Whole q) :
    ∃ qty qty', 0 < qty ∧ 0 < qty' ∧ (quotes nextRand rng [p, q]).1.map readLevel =
      [(priceToKey p, qty), (priceToKey q, qty')] := by
  obtain ⟨qtys, hlength, hpos, hread⟩ := readLevel_quotes hdraws rng (whole_pair hp hq)
  obtain ⟨qty, qty', rfl⟩ := List.length_eq_two.mp hlength
  exact ⟨qty, qty', hpos qty (by simp), hpos qty' (by simp), hread⟩

/-- Sides that hold the fresh quotes of a mid in range show two levels each. -/
theorem quotesAround_of_quotes (hdraws : UnitDraws nextRand) (bidRng askRng : ρ) {mid : ℚ}
    {book : Orderbook} (hmid : Whole mid)
    (hbids : ∀ key, book.bids[key]? = WriteLog.lastEntry key
      ((quotes nextRand bidRng [mid - 10, mid - 20]).1.map readLevel))
    (hasks : ∀ key, book.asks[key]? = WriteLog.lastEntry key
      ((quotes nextRand askRng [mid + 10, mid + 20]).1.map readLevel))
    (hlow : 20 < mid) (hhigh : mid ≤ 184467440717) : QuotesAround mid book := by
  have hnear : Whole (mid - 10) := whole_sub hmid 10
  have hfar : Whole (mid - 20) := whole_sub hmid 20
  have hnear' : Whole (mid + 10) := whole_add hmid 10
  have hfar' : Whole (mid + 20) := whole_add hmid 20
  obtain ⟨near, far, hpos, hpos', hread⟩ := readLevel_two hdraws bidRng hnear hfar
  obtain ⟨near', far', hpos₂, hpos₂', hread'⟩ := readLevel_two hdraws askRng hnear' hfar'
  rw [hread] at hbids
  rw [hread'] at hasks
  refine ⟨⟨near, far, hpos, hpos', ?_⟩, ⟨near', far', hpos₂, hpos₂', ?_⟩⟩
  · have hsorted : mid - 20 < mid - 10 := by linarith
    refine levels_eq hbids (List.Perm.swap ..) ?_ (List.pairwise_pair.mpr hsorted)
    intro l hl
    rcases List.mem_cons.mp hl with rfl | hl
    · exact ⟨hfar, by dsimp only; linarith, by dsimp only; linarith⟩
    · rw [List.mem_singleton.mp hl]
      exact ⟨hnear, by dsimp only; linarith, by dsimp only; linarith⟩
  · have hsorted : mid + 10 < mid + 20 := by linarith
    refine levels_eq hasks (List.Perm.refl _) ?_ (List.pairwise_pair.mpr hsorted)
    intro l hl
    rcases List.mem_cons.mp hl with rfl | hl
    · exact ⟨hnear', by dsimp only; linarith, by dsimp only; linarith⟩
    · rw [List.mem_singleton.mp hl]
      exact ⟨hfar', by dsimp only; linarith, by dsimp only; linarith⟩

/-- **One event.**  The book applies it, stays coupled to the generator, and shows two levels a
side around the new mid when this is in range. -/
theorem Coupled.event (hdraws : UnitDraws nextRand) {gen : Generator ρ} {book : Orderbook}
    (h : Coupled gen book) (symbol : String) (i : Nat) (resyncNeeded : Bool) :
    let event := (genEvent nextRand symbol i gen).1
    let gen' := (genEvent nextRand symbol i gen).2
    let book' := (book.handleUpdate event resyncNeeded).2.1
    (book.handleUpdate event resyncNeeded).1 = .ok true ∧ Coupled gen' book' ∧
      (20 < gen'.mid → gen'.mid ≤ 184467440717 → QuotesAround gen'.mid book') := by
  intro event gen' book'
  have hseq : Orderbook.sequencing gen.lastId event = .apply :=
    Orderbook.sequencing_eq_apply_iff.mpr (Or.inl rfl)
  have hupdate := Orderbook.handleUpdate_live h.live event resyncNeeded
  rw [hseq] at hupdate
  have hbook : book' = book.liveAt (applyLevels book.sides event) event.lastUpdateId := by
    show (book.handleUpdate event resyncNeeded).2.1 = _
    rw [hupdate]
  have hmid : Whole gen'.mid := whole_add h.mid (roundF64 ((nextRand gen.rng).1 * 20 - 10))
  have hnear : Whole (gen'.mid - 10) := whole_sub hmid 10
  have hfar : Whole (gen'.mid - 20) := whole_sub hmid 20
  have hnear' : Whole (gen'.mid + 10) := whole_add hmid 10
  have hfar' : Whole (gen'.mid + 20) := whole_add hmid 20
  have hnewBids : ∀ p ∈ gen'.prevBidPrices, Whole p := whole_pair hnear hfar
  have hnewAsks : ∀ p ∈ gen'.prevAskPrices, Whole p := whole_pair hnear' hfar'
  -- each side holds the fresh quotes and nothing else
  set bidRng := (nextRand gen.rng).2
  set askRng := (quotes nextRand bidRng gen'.prevBidPrices).2
  have hbids : ∀ key, book'.bids[key]? =
      WriteLog.lastEntry key ((quotes nextRand bidRng gen'.prevBidPrices).1.map readLevel) := by
    intro key
    rw [hbook]
    exact getElem?_requote hdraws bidRng h.prevBids hnewBids h.bids key
  have hasks : ∀ key, book'.asks[key]? =
      WriteLog.lastEntry key ((quotes nextRand askRng gen'.prevAskPrices).1.map readLevel) := by
    intro key
    rw [hbook]
    exact getElem?_requote hdraws askRng h.prevAsks hnewAsks h.asks key
  exact ⟨by rw [hupdate], ⟨hmid, hnewBids, hnewAsks, by rw [hbook]; rfl,
    covers_requote hdraws bidRng hnewBids hbids, covers_requote hdraws askRng hnewAsks hasks⟩,
    quotesAround_of_quotes hdraws bidRng askRng hmid hbids hasks⟩

/-! ## §5 The whole run -/

/-- The book that has been given the snapshot and the first `k` events. -/
def bookAfter (book : Orderbook) (data : DepthSnapshot × List DepthUpdate) (k : Nat) : Orderbook :=
  book.runOps (.snapshot data.1 :: (data.2.take k).map .update)

/-- One more event. -/
theorem bookAfter_succ {book : Orderbook} {data : DepthSnapshot × List DepthUpdate} {k : Nat}
    {event : DepthUpdate} (h : data.2[k]? = some event) :
    bookAfter book data (k + 1) = ((bookAfter book data k).handleUpdate event false).2.1 := by
  unfold bookAfter Orderbook.runOps
  rw [List.take_add_one, h, List.map_append, ← List.cons_append, List.foldl_append]
  rfl

/-- The events of the loop, by their index. -/
theorem genEvents_eq (nextRand : ρ → ℚ × ρ) (symbol : String) (rng : ρ) (i n : Nat) :
    genEvents nextRand symbol i n (Generator.after nextRand symbol rng i) =
      (List.range' i n).map fun k =>
        (genEvent nextRand symbol k (Generator.after nextRand symbol rng k)).1 := by
  induction n generalizing i with
  | zero => rfl
  | succ n ih =>
      rw [List.range'_succ, List.map_cons, ← ih (i + 1)]
      rfl

theorem getElem?_events (nextRand : ρ → ℚ × ρ) (symbol : String) (rng : ρ) {k numEvents : Nat}
    (hk : k < numEvents) :
    (syntheticData nextRand symbol numEvents rng).2[k]? =
      some (genEvent nextRand symbol k (Generator.after nextRand symbol rng k)).1 := by
  show (genEvents nextRand symbol 0 numEvents (Generator.after nextRand symbol rng 0))[k]? = _
  rw [genEvents_eq, List.getElem?_map, List.getElem?_range' hk, Option.map_some, Nat.one_mul,
    Nat.zero_add]

/-- **Coupled throughout.** -/
theorem coupled_after (hdraws : UnitDraws nextRand) (rng : ρ) (symbol symbol' : String)
    (depthLevels : Nat) {k numEvents : Nat} (hk : k ≤ numEvents) :
    Coupled (Generator.after nextRand symbol rng k) (bookAfter (Orderbook.new symbol' depthLevels)
      (syntheticData nextRand symbol numEvents rng) k) := by
  induction k with
  | zero => exact coupled_start hdraws rng symbol symbol' depthLevels numEvents
  | succ k ih =>
      rw [bookAfter_succ (getElem?_events nextRand symbol rng hk)]
      exact ((ih (Nat.le_of_succ_le hk)).event hdraws symbol k false).2.1

/-- The ids count the events. -/
theorem lastId_after (nextRand : ρ → ℚ × ρ) (symbol : String) (rng : ρ) (k : Nat) :
    (Generator.after nextRand symbol rng k).lastId = 1000 + UInt64.ofNat k := by
  induction k with
  | zero => rfl
  | succ k ih =>
      show (Generator.after nextRand symbol rng k).lastId + 1 = _
      rw [ih, UInt64.ofNat_add, UInt64.add_assoc]
      rfl

/-- The walk takes steps of at most ten. -/
theorem mid_after_mem (hdraws : UnitDraws nextRand) (symbol : String) (rng : ρ) (k : Nat) :
    65000 - 10 * (k : ℚ) ≤ (Generator.after nextRand symbol rng k).mid ∧
      (Generator.after nextRand symbol rng k).mid ≤ 65000 + 10 * (k : ℚ) := by
  induction k with
  | zero => exact ⟨by simp [Generator.after, Generator.start, basePrice],
      by simp [Generator.after, Generator.start, basePrice]⟩
  | succ k ih =>
      set gen := Generator.after nextRand symbol rng k
      have hmid : (Generator.after nextRand symbol rng (k + 1)).mid =
          gen.mid + roundF64 ((nextRand gen.rng).1 * 20 - 10) := rfl
      obtain ⟨hlow, hhigh⟩ := hdraws gen.rng
      obtain ⟨hdown, hup⟩ := @roundF64_mem ((nextRand gen.rng).1 * 20 - 10) 10
        (by push_cast; linarith) (by push_cast; linarith)
      have hdown' : (-10 : ℚ) ≤ roundF64 ((nextRand gen.rng).1 * 20 - 10) := by exact_mod_cast hdown
      have hup' : (roundF64 ((nextRand gen.rng).1 * 20 - 10) : ℚ) ≤ 10 := by exact_mod_cast hup
      rw [hmid]
      push_cast
      exact ⟨by linarith, by linarith⟩

theorem withCapacity_eq_ok {grants : Nat → Bool} {elemBytes capacity : Nat} :
    withCapacity grants elemBytes capacity = .ok () ↔
      elemBytes * capacity ≤ 2 ^ 63 - 1 ∧
        (elemBytes * capacity = 0 ∨ grants (elemBytes * capacity)) := by
  unfold withCapacity
  by_cases hover : elemBytes * capacity > 2 ^ 63 - 1
  · rw [if_pos hover]
    exact iff_of_false nofun fun h => absurd h.1 (not_le.mpr hover)
  · rw [if_neg hover]
    by_cases hgrants : elemBytes * capacity = 0 ∨ grants (elemBytes * capacity)
    · rw [if_pos hgrants]
      exact iff_of_true rfl ⟨not_lt.mp hover, hgrants⟩
    · rw [if_neg hgrants]
      exact iff_of_false nofun fun h => hgrants h.2

/-- Generating returns exactly where the vector of the events can be allocated. -/
theorem generateSyntheticData_eq_ok {nextRand : ρ → ℚ × ρ} {grants : Nat → Bool} {symbol : String}
    {numEvents : Nat} {rng : ρ} {data : DepthSnapshot × List DepthUpdate} :
    generateSyntheticData nextRand grants symbol numEvents rng = .ok data ↔
      (numEvents < 2 ^ 56 ∧ (numEvents = 0 ∨ grants (128 * numEvents))) ∧
        data = syntheticData nextRand symbol numEvents rng := by
  have hroom : withCapacity grants depthUpdateBytes numEvents = .ok () ↔
      numEvents < 2 ^ 56 ∧ (numEvents = 0 ∨ grants (128 * numEvents)) := by
    have hbytes : depthUpdateBytes * numEvents = 128 * numEvents := rfl
    have hfew : 128 * numEvents ≤ 2 ^ 63 - 1 ↔ numEvents < 2 ^ 56 := by omega
    have hzero : 128 * numEvents = 0 ↔ numEvents = 0 := by omega
    rw [withCapacity_eq_ok, hbytes, hfew, hzero]
  rw [← hroom]
  unfold generateSyntheticData
  cases hcap : withCapacity grants depthUpdateBytes numEvents with
  | error e => exact iff_of_false nofun fun h => nomatch h.1
  | ok u => exact ⟨fun h => ⟨rfl, (Except.ok.inj h).symm⟩, fun h => congrArg Except.ok h.2.symm⟩

/-- **The synthetic market and the book agree.**  For every number of events for which generating
returns and every sequence of draws in `[0, 1)`, on a fresh book: every event is applied, and after
event `k` the book is live at `1000 + k`.  After an event that leaves the mid above 20 and at most 184467440717, the book holds
exactly the two bids and the two asks around it, with positive quantities; it is not crossed, and
the published spread is 20.  Up to 6497 events no walk leaves that range. -/
theorem synthetic_book_follows_walk (hdraws : UnitDraws nextRand) (grants : Nat → Bool) (rng : ρ)
    (symbol symbol' : String) (depthLevels numEvents : Nat)
    {data : DepthSnapshot × List DepthUpdate}
    (hdata : generateSyntheticData nextRand grants symbol numEvents rng = .ok data) :
    let mid := fun k => (Generator.after nextRand symbol rng k).mid
    let book := bookAfter (Orderbook.new symbol' depthLevels) data
    (∀ k < numEvents, ∃ event, data.2[k]? = some event ∧
      ∀ resyncNeeded, ((book k).handleUpdate event resyncNeeded).1 = .ok true) ∧
    (∀ k ≤ numEvents, (book k).state = .live (1000 + UInt64.ofNat k)) ∧
    (∀ k, 0 < k → k ≤ numEvents → 20 < mid k → mid k ≤ 184467440717 →
      QuotesAround (mid k) (book k) ∧
      (∀ b ∈ levels (book k).bids, ∀ a ∈ levels (book k).asks, b.1 + 20 ≤ a.1) ∧
      (0 < (book k).depthLevels → ∀ nowMs, ∃ b a, ((book k).snapshot nowMs).bids.head? = some b ∧
        ((book k).snapshot nowMs).asks.head? = some a ∧ a.1 - b.1 = 20)) ∧
    (numEvents ≤ 6497 → ∀ k ≤ numEvents, 20 < mid k ∧ mid k ≤ 184467440717) := by
  obtain ⟨-, rfl⟩ := generateSyntheticData_eq_ok.mp hdata
  intro mid book
  have hcoupled : ∀ k ≤ numEvents, Coupled (Generator.after nextRand symbol rng k) (book k) :=
    fun k hk => coupled_after hdraws rng symbol symbol' depthLevels hk
  refine ⟨?_, ?_, ?_, ?_⟩
  · intro k hk
    refine ⟨_, getElem?_events nextRand symbol rng hk, fun resyncNeeded => ?_⟩
    exact ((hcoupled k hk.le).event hdraws symbol k resyncNeeded).1
  · intro k hk
    rw [(hcoupled k hk).live, lastId_after]
  · intro k hpos hk hlow hhigh
    obtain ⟨j, rfl⟩ := Nat.exists_eq_succ_of_ne_zero hpos.ne'
    have hquotes : QuotesAround (mid (j + 1)) (book (j + 1)) := by
      show QuotesAround _ (bookAfter _ _ (j + 1))
      rw [bookAfter_succ (getElem?_events nextRand symbol rng hk)]
      exact ((hcoupled j (Nat.le_of_succ_le hk)).event hdraws symbol j false).2.2 hlow hhigh
    exact ⟨hquotes, hquotes.spread⟩
  · intro hfew k hk
    obtain ⟨hlow, hhigh⟩ := mid_after_mem hdraws symbol rng k
    have hcast : (k : ℚ) ≤ 6497 := by exact_mod_cast hk.trans hfew
    show 20 < (Generator.after nextRand symbol rng k).mid ∧ _
    exact ⟨by linarith, by linarith⟩

/-- No side of the book holds a price above the largest key. -/
theorem Coupled.ask_le {gen : Generator ρ} {book : Orderbook} (h : Coupled gen book) :
    ∀ a ∈ levels book.asks, a.1 ≤ ((2 ^ 64 - 1 : Nat) : ℚ) / 10 ^ 8 := by
  intro a ha
  obtain ⟨⟨key, qty⟩, hmem, rfl⟩ := List.mem_map.mp ha
  have hget := Std.ExtTreeMap.mem_toList_iff_getElem?_eq_some.mp hmem
  obtain ⟨p, -, rfl⟩ := List.mem_map.mp (h.asks key (by rw [hget]; simp))
  have hkey : priceToKey p ≤ 2 ^ 64 - 1 := min_le_right _ _
  show ((priceToKey p : Nat) : ℚ) / 10 ^ 8 ≤ _
  gcongr

end

/-! The generator of the source on three events, and a walk that rises by ten dollars an event. -/

theorem synthetic_book_three_events :
    let data := syntheticData lcg "BTCUSDT" 3 lcgSeed
    let mid := fun k => (Generator.after lcg "BTCUSDT" lcgSeed k).mid
    let book := bookAfter (Orderbook.new "BTCUSDT" 20) data
    generateSyntheticData lcg (fun bytes => bytes ≤ 2 ^ 20) "BTCUSDT" 3 lcgSeed = .ok data ∧
      (book 3).state = .live 1003 ∧ QuotesAround (mid 3) (book 3) := by
  intro data mid book
  have hdata : generateSyntheticData lcg (fun bytes => bytes ≤ 2 ^ 20) "BTCUSDT" 3 lcgSeed
      = .ok data := generateSyntheticData_eq_ok.mpr ⟨⟨by decide, by decide⟩, rfl⟩
  obtain ⟨-, hlive, hquotes, hrange⟩ :=
    synthetic_book_follows_walk lcg_unitDraws _ lcgSeed "BTCUSDT" "BTCUSDT" 20 3 hdata
  obtain ⟨hlow, hhigh⟩ := hrange (by decide) 3 (le_refl 3)
  exact ⟨hdata, hlive 3 (le_refl 3), (hquotes 3 (by decide) (le_refl 3) hlow hhigh).1⟩

def risingDraw (_ : Unit) : ℚ × Unit := (99 / 100, ())

theorem risingDraw_unitDraws : UnitDraws risingDraw := by
  intro rng
  exact ⟨by unfold risingDraw; norm_num, by unfold risingDraw; norm_num⟩

theorem risingDraw_mid (k : Nat) :
    (Generator.after risingDraw "BTCUSDT" () k).mid = 65000 + 10 * (k : ℚ) := by
  induction k with
  | zero => simp [Generator.after, Generator.start, basePrice]
  | succ k ih =>
      have hround : roundF64 (99 / 100 * 20 - 10) = 10 := by decide +kernel
      show (Generator.after risingDraw "BTCUSDT" () k).mid + roundF64 (99 / 100 * 20 - 10) = _
      rw [ih, hround]
      push_cast
      ring

/-- From 18446737573 events on the asks of that walk are beyond the largest key. -/
theorem risingDraw_not_quotesAround {n : Nat} (hn : 18446737573 ≤ n) :
    ¬ QuotesAround (Generator.after risingDraw "BTCUSDT" () n).mid
      (bookAfter (Orderbook.new "BTCUSDT" 20)
        (syntheticData risingDraw "BTCUSDT" n ()) n) := by
  intro h
  obtain ⟨near, far, -, -, hasks⟩ := h.asks
  have hcoupled := coupled_after risingDraw_unitDraws () "BTCUSDT" "BTCUSDT" 20 (le_refl n)
  have hle := hcoupled.ask_le _ (by rw [hasks]; exact List.mem_cons_self)
  have hcast : (18446737573 : ℚ) ≤ n := by exact_mod_cast hn
  rw [risingDraw_mid] at hle
  norm_num at hle
  linarith

/-- **Keys saturate.**  With four terabytes to be had, so many events are generated; the walk stays
above 20, but after the last of them the book does not hold the two asks. -/
theorem rising_walk_saturates :
    ∃ data, generateSyntheticData risingDraw (fun bytes => bytes ≤ 2 ^ 42) "BTCUSDT" 18446737573 ()
        = .ok data ∧
      (∀ k ≤ 18446737573, 20 < (Generator.after risingDraw "BTCUSDT" () k).mid) ∧
      ¬ QuotesAround (Generator.after risingDraw "BTCUSDT" () 18446737573).mid
        (bookAfter (Orderbook.new "BTCUSDT" 20) data 18446737573) := by
  refine ⟨_, generateSyntheticData_eq_ok.mpr ⟨⟨by decide, Or.inr (by decide)⟩, rfl⟩, ?_,
    risingDraw_not_quotesAround (le_refl 18446737573)⟩
  intro k _
  rw [risingDraw_mid]
  have hk : (0 : ℚ) ≤ k := Nat.cast_nonneg k
  linarith

end CryptoTrader
