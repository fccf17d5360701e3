/-
# CryptoTrader.Strategy — strategies, and the two the program ships.

The `Strategy` trait of `strategy/mod.rs` and its implementors in `ping_pong.rs` and
`momentum_scalp.rs`.  `on_orderbook(&mut self, …)` returns the signal and the new state.  Both
strategies size an entry the same way, which `entryQtyAt` states once, and both follow one
discipline about the position they believe they hold, which `PositionStrategy` carries with its
proof: an implementor whose view of its position drifted from the signals it emits could not be
an instance.

`u32` tick counters are `UInt32`.  The ring buffer of `MomentumScalpStrategy` is a vector of 64
prices with its write index in `Fin 64`.
-/
import CryptoTrader.Types

namespace CryptoTrader

/-- The `Strategy` trait. -/
class Strategy (σ : Type) where
  onOrderbook : σ → OrderbookSnapshot → Signal × σ

/-! ## §1 Shared sizing -/

/-- `QTY_STEP`, the quantity step of the exchange. -/
def qtyStep : ℚ := 1 / 1000

theorem qtyStep_pos : 0 < qtyStep := by unfold qtyStep; norm_num

/-- `(qty / QTY_STEP).floor() * QTY_STEP` -/
def floorToStep (qty : ℚ) : ℚ := (⌊qty / qtyStep⌋ : ℚ) * qtyStep

/-- What is left positive by the floor is at least one step. -/
theorem qtyStep_le_floorToStep {qty : ℚ} (h : 0 < floorToStep qty) :
    qtyStep ≤ floorToStep qty := by
  have hn : (0 : ℚ) < ⌊qty / qtyStep⌋ := pos_of_mul_pos_left h qtyStep_pos.le
  have hone : (1 : ℚ) ≤ ⌊qty / qtyStep⌋ := by
    exact_mod_cast Int.cast_pos.mp hn
  exact le_mul_of_one_le_left qtyStep_pos.le hone

/-- The configured quantity, shrunk to the budget at a positive price, floored to the step. -/
def entryQtyAt (qty : ℚ) (maxNotional : Option ℚ) (price : ℚ) : ℚ :=
  let qty := match maxNotional with
    | some budget => if price > 0 then min qty (budget / price) else qty
    | none => qty
  floorToStep qty

/-- The best bid and the best ask, if the snapshot has both sides. -/
def OrderbookSnapshot.quote? (snapshot : OrderbookSnapshot) : Option (ℚ × ℚ) :=
  match snapshot.bids.head?, snapshot.asks.head? with
  | some (bestBid, _), some (bestAsk, _) => some (bestBid, bestAsk)
  | _, _ => none

/-! ## §2 `NoOpStrategy` -/

inductive NoOpStrategy where
  | mk
  deriving DecidableEq

instance : Strategy NoOpStrategy where
  onOrderbook strat _ := (.hold, strat)

/-! ## §3 `PingPongStrategy` -/

structure PingPongStrategy where
  qty : ℚ
  maxNotional : Option ℚ
  minEdgePct : ℚ
  stopPct : ℚ
  holding : Bool
  entryPrice : ℚ
  entryQty : ℚ
  deriving DecidableEq

namespace PingPongStrategy

def new (qty minEdgePct stopPct : ℚ) : PingPongStrategy where
  qty := qty
  maxNotional := none
  minEdgePct := minEdgePct
  stopPct := stopPct
  holding := false
  entryPrice := 0
  entryQty := 0

def withMaxNotional (strat : PingPongStrategy) (maxNotional : ℚ) : PingPongStrategy :=
  { strat with maxNotional := some maxNotional }

def entryQtyAt (strat : PingPongStrategy) (price : ℚ) : ℚ :=
  CryptoTrader.entryQtyAt strat.qty strat.maxNotional price

/-- `Default`: quantity 0.01, 0.02% edge, 0.5% stop. -/
def default : PingPongStrategy := new (1 / 100) (2 / 100) (1 / 2)

/-- `on_orderbook` on a two-sided snapshot. -/
def onQuote (strat : PingPongStrategy) (bestBid bestAsk : ℚ) : Signal × PingPongStrategy :=
  if !strat.holding then
    let qty := strat.entryQtyAt bestBid
    if qty ≤ 0 then (.hold, strat)
    else
      (.buy bestBid qty, { strat with holding := true, entryPrice := bestBid, entryQty := qty })
  else
    let takeProfit := strat.entryPrice * (1 + strat.minEdgePct / 100)
    let stopOut := strat.entryPrice * (1 - strat.stopPct / 100)
    -- take profit at the ask, stop out at the bid
    if bestAsk ≥ takeProfit then
      (.sell bestAsk strat.entryQty, { strat with holding := false })
    else if bestBid ≤ stopOut then
      (.sell bestBid strat.entryQty, { strat with holding := false })
    else (.hold, strat)

def onOrderbook (strat : PingPongStrategy) (snapshot : OrderbookSnapshot) :
    Signal × PingPongStrategy :=
  match snapshot.bids.head?, snapshot.asks.head? with
  | some (bestBid, _), some (bestAsk, _) => strat.onQuote bestBid bestAsk
  | _, _ => (.hold, strat)

instance : Strategy PingPongStrategy := ⟨onOrderbook⟩

/-- What one call can do, and when. -/
inductive Step (strat : PingPongStrategy) (snapshot : OrderbookSnapshot) :
    Signal × PingPongStrategy → Prop where
  | oneSided : snapshot.quote? = none → Step strat snapshot (.hold, strat)
  | tooSmall {bestBid bestAsk : ℚ} : snapshot.quote? = some (bestBid, bestAsk) →
      strat.holding = false → strat.entryQtyAt bestBid ≤ 0 → Step strat snapshot (.hold, strat)
  | entry {bestBid bestAsk : ℚ} : snapshot.quote? = some (bestBid, bestAsk) →
      strat.holding = false → 0 < strat.entryQtyAt bestBid →
      Step strat snapshot (.buy bestBid (strat.entryQtyAt bestBid),
        { strat with
          holding := true
          entryPrice := bestBid
          entryQty := strat.entryQtyAt bestBid })
  | takeProfit {bestBid bestAsk : ℚ} : snapshot.quote? = some (bestBid, bestAsk) →
      strat.holding = true → strat.entryPrice * (1 + strat.minEdgePct / 100) ≤ bestAsk →
      Step strat snapshot (.sell bestAsk strat.entryQty, { strat with holding := false })
  | stopOut {bestBid bestAsk : ℚ} : snapshot.quote? = some (bestBid, bestAsk) →
      strat.holding = true → bestAsk < strat.entryPrice * (1 + strat.minEdgePct / 100) →
      bestBid ≤ strat.entryPrice * (1 - strat.stopPct / 100) →
      Step strat snapshot (.sell bestBid strat.entryQty, { strat with holding := false })
  | waiting {bestBid bestAsk : ℚ} : snapshot.quote? = some (bestBid, bestAsk) →
      strat.holding = true → bestAsk < strat.entryPrice * (1 + strat.minEdgePct / 100) →
      strat.entryPrice * (1 - strat.stopPct / 100) < bestBid → Step strat snapshot (.hold, strat)

theorem onQuote_step {strat : PingPongStrategy} {snapshot : OrderbookSnapshot} {bestBid bestAsk : ℚ}
    (hquote : snapshot.quote? = some (bestBid, bestAsk)) :
    Step strat snapshot (strat.onQuote bestBid bestAsk) := by
  unfold onQuote
  cases hholding : strat.holding with
  | false =>
      simp only [Bool.not_false, if_true]
      split
      · next hqty => exact .tooSmall hquote hholding hqty
      · next hqty => exact .entry hquote hholding (not_le.mp hqty)
  | true =>
      simp only [Bool.not_true, Bool.false_eq_true, if_false]
      split
      · next hprofit => exact .takeProfit hquote hholding hprofit
      · next hprofit =>
          split
          · next hstop => exact .stopOut hquote hholding (not_le.mp hprofit) hstop
          · next hstop => exact .waiting hquote hholding (not_le.mp hprofit) (not_le.mp hstop)

theorem onOrderbook_step (strat : PingPongStrategy) (snapshot : OrderbookSnapshot) :
    Step strat snapshot (strat.onOrderbook snapshot) := by
  unfold onOrderbook
  split
  · next hbid hask => exact onQuote_step (by simp only [OrderbookSnapshot.quote?, hbid, hask])
  · next hside => exact .oneSided (by simp only [OrderbookSnapshot.quote?])

end PingPongStrategy

/-! ## §4 `MomentumScalpStrategy` -/

/-- `PRICE_BUF` -/
abbrev priceBuf : Nat := 64

structure MomentumScalpStrategy where
  qty : ℚ
  maxNotional : Option ℚ
  /-- `new` caps it at `PRICE_BUF - 1` -/
  lookbackTicks : Fin priceBuf
  entryMomPct : ℚ
  imbalanceMin : ℚ
  tpPct : ℚ
  stopPct : ℚ
  maxHoldTicks : UInt32
  cooldownTicks : UInt32
  prices : Vector ℚ priceBuf
  head : Fin priceBuf
  filled : Nat
  holding : Bool
  entryPrice : ℚ
  entryQty : ℚ
  heldTicks : UInt32
  cooldownLeft : UInt32
  deriving DecidableEq

namespace MomentumScalpStrategy

def new (qty : ℚ) (lookbackTicks : Nat) (entryMomPct imbalanceMin tpPct stopPct : ℚ)
    (maxHoldTicks cooldownTicks : UInt32) : MomentumScalpStrategy where
  qty := qty
  maxNotional := none
  lookbackTicks := ⟨min lookbackTicks (priceBuf - 1),
    Nat.lt_of_le_of_lt (Nat.min_le_right _ _) (by decide)⟩
  entryMomPct := entryMomPct
  imbalanceMin := imbalanceMin
  tpPct := tpPct
  stopPct := stopPct
  maxHoldTicks := maxHoldTicks
  cooldownTicks := cooldownTicks
  prices := Vector.replicate priceBuf 0
  head := 0
  filled := 0
  holding := false
  entryPrice := 0
  entryQty := 0
  heldTicks := 0
  cooldownLeft := 0

def withMaxNotional (strat : MomentumScalpStrategy) (maxNotional : ℚ) : MomentumScalpStrategy :=
  { strat with maxNotional := some maxNotional }

def pushPrice (strat : MomentumScalpStrategy) (mid : ℚ) : MomentumScalpStrategy :=
  { strat with
    prices := strat.prices.set strat.head mid
    head := strat.head + 1
    filled := if strat.filled < priceBuf then strat.filled + 1 else strat.filled }

/-- The mid price `lookback_ticks` samples ago, `none` until warmed up. -/
def lookbackPrice (strat : MomentumScalpStrategy) : Option ℚ :=
  if strat.filled ≤ strat.lookbackTicks then none
  else
    let idx := (strat.head + priceBuf - 1 - strat.lookbackTicks) % priceBuf
    some (strat.prices.get ⟨idx, Nat.mod_lt _ (by decide)⟩)

def entryQtyAt (strat : MomentumScalpStrategy) (price : ℚ) : ℚ :=
  CryptoTrader.entryQtyAt strat.qty strat.maxNotional price

/-- `Default`: quantity 0.01, +0.05% over 30 ticks, imbalance 0.60, take profit 0.08%, stop 0.06%,
time stop 300 ticks, cooldown 30 ticks. -/
def default : MomentumScalpStrategy :=
  new (1 / 100) 30 (5 / 100) (6 / 10) (8 / 100) (6 / 100) 300 30

/-- The momentum gate: the return over the lookback window reaches `entry_mom_pct`. -/
def momentumGate (strat : MomentumScalpStrategy) (mid : ℚ) : Bool :=
  match strat.lookbackPrice with
  | some past =>
      if past > 0 then
        let momentumPct := (mid - past) / past * 100
        !(momentumPct < strat.entryMomPct)
      else false
  | none => false

/-- The confirmation gate: the volume of the top five levels is skewed to the bids. -/
def imbalanceGate (strat : MomentumScalpStrategy) (snapshot : OrderbookSnapshot) : Bool :=
  let bidVol := ((snapshot.bids.take 5).map fun l => l.2).sum
  let askVol := ((snapshot.asks.take 5).map fun l => l.2).sum
  let total := bidVol + askVol
  !(total ≤ 0 || bidVol / total < strat.imbalanceMin)

/-- The exit branch, once the price has been pushed. -/
def onHolding (strat : MomentumScalpStrategy) (bestBid : ℚ) : Signal × MomentumScalpStrategy :=
  let strat := { strat with heldTicks := strat.heldTicks + 1 }
  let takeProfit := strat.entryPrice * (1 + strat.tpPct / 100)
  let stopOut := strat.entryPrice * (1 - strat.stopPct / 100)
  if bestBid ≥ takeProfit || bestBid ≤ stopOut || strat.heldTicks ≥ strat.maxHoldTicks then
    (.sell bestBid strat.entryQty,
      { strat with holding := false, cooldownLeft := strat.cooldownTicks })
  else (.hold, strat)

/-- The entry branch, once the price has been pushed. -/
def onFlat (strat : MomentumScalpStrategy) (snapshot : OrderbookSnapshot) (mid bestAsk : ℚ) :
    Signal × MomentumScalpStrategy :=
  -- the gates in the order of the source; each of them answers Hold
  if strat.cooldownLeft > 0 then
    (.hold, { strat with cooldownLeft := strat.cooldownLeft - 1 })
  else if !strat.momentumGate mid then (.hold, strat)
  else if !strat.imbalanceGate snapshot then (.hold, strat)
  else
    let qty := strat.entryQtyAt bestAsk
    if qty ≤ 0 then (.hold, strat)
    else
      (.buy bestAsk qty,
        { strat with holding := true, entryPrice := bestAsk, entryQty := qty, heldTicks := 0 })

def onOrderbook (strat : MomentumScalpStrategy) (snapshot : OrderbookSnapshot) :
    Signal × MomentumScalpStrategy :=
  match snapshot.bids.head?, snapshot.asks.head? with
  | some (bestBid, _), some (bestAsk, _) =>
      let mid := (bestBid + bestAsk) / 2
      let strat := strat.pushPrice mid
      if strat.holding then strat.onHolding bestBid else strat.onFlat snapshot mid bestAsk
  | _, _ => (.hold, strat)

instance : Strategy MomentumScalpStrategy := ⟨onOrderbook⟩

/-- One of the three exits is hit: take profit, stop loss or time stop, on the tick that is being
handled. -/
def ExitHit (strat : MomentumScalpStrategy) (bestBid : ℚ) : Prop :=
  strat.entryPrice * (1 + strat.tpPct / 100) ≤ bestBid ∨
    bestBid ≤ strat.entryPrice * (1 - strat.stopPct / 100) ∨
    strat.maxHoldTicks ≤ strat.heldTicks + 1

/-- What one call can do, and when.  Every two-sided snapshot is pushed first. -/
inductive Step (strat : MomentumScalpStrategy) (snapshot : OrderbookSnapshot) :
    Signal × MomentumScalpStrategy → Prop where
  | oneSided : snapshot.quote? = none → Step strat snapshot (.hold, strat)
  | exit {bestBid bestAsk : ℚ} : snapshot.quote? = some (bestBid, bestAsk) →
      strat.holding = true → strat.ExitHit bestBid →
      Step strat snapshot (.sell bestBid strat.entryQty,
        { strat.pushPrice ((bestBid + bestAsk) / 2) with
          heldTicks := strat.heldTicks + 1
          holding := false
          cooldownLeft := strat.cooldownTicks })
  | held {bestBid bestAsk : ℚ} : snapshot.quote? = some (bestBid, bestAsk) →
      strat.holding = true → ¬ strat.ExitHit bestBid →
      Step strat snapshot (.hold,
        { strat.pushPrice ((bestBid + bestAsk) / 2) with heldTicks := strat.heldTicks + 1 })
  | cooling {bestBid bestAsk : ℚ} : snapshot.quote? = some (bestBid, bestAsk) →
      strat.holding = false → 0 < strat.cooldownLeft →
      Step strat snapshot (.hold,
        { strat.pushPrice ((bestBid + bestAsk) / 2) with cooldownLeft := strat.cooldownLeft - 1 })
  | quiet {bestBid bestAsk : ℚ} : snapshot.quote? = some (bestBid, bestAsk) →
      strat.holding = false → strat.cooldownLeft = 0 →
      ((strat.pushPrice ((bestBid + bestAsk) / 2)).momentumGate ((bestBid + bestAsk) / 2) = true →
        strat.imbalanceGate snapshot = true → strat.entryQtyAt bestAsk ≤ 0) →
      Step strat snapshot (.hold, strat.pushPrice ((bestBid + bestAsk) / 2))
  | entry {bestBid bestAsk : ℚ} : snapshot.quote? = some (bestBid, bestAsk) →
      strat.holding = false → strat.cooldownLeft = 0 →
      (strat.pushPrice ((bestBid + bestAsk) / 2)).momentumGate ((bestBid + bestAsk) / 2) = true →
      strat.imbalanceGate snapshot = true → 0 < strat.entryQtyAt bestAsk →
      Step strat snapshot (.buy bestAsk (strat.entryQtyAt bestAsk),
        { strat.pushPrice ((bestBid + bestAsk) / 2) with
          holding := true
          entryPrice := bestAsk
          entryQty := strat.entryQtyAt bestAsk
          heldTicks := 0 })

theorem onHolding_step {strat : MomentumScalpStrategy} {snapshot : OrderbookSnapshot}
    {bestBid bestAsk : ℚ} (hquote : snapshot.quote? = some (bestBid, bestAsk))
    (hholding : strat.holding = true) :
    Step strat snapshot ((strat.pushPrice ((bestBid + bestAsk) / 2)).onHolding bestBid) := by
  unfold onHolding
  dsimp only
  split
  · next hexit =>
      refine .exit hquote hholding ?_
      simp only [Bool.or_eq_true, decide_eq_true_eq, or_assoc] at hexit
      exact hexit
  · next hexit =>
      refine .held hquote hholding ?_
      simp only [Bool.or_eq_true, decide_eq_true_eq, or_assoc] at hexit
      exact hexit

theorem onFlat_step {strat : MomentumScalpStrategy} {snapshot : OrderbookSnapshot}
    {bestBid bestAsk : ℚ} (hquote : snapshot.quote? = some (bestBid, bestAsk))
    (hflat : strat.holding = false) :
    Step strat snapshot ((strat.pushPrice ((bestBid + bestAsk) / 2)).onFlat snapshot
      ((bestBid + bestAsk) / 2) bestAsk) := by
  unfold onFlat
  split
  · next hcooling => exact .cooling hquote hflat hcooling
  · next hcooling =>
      have hready : strat.cooldownLeft = 0 := UInt32.le_zero_iff.mp (UInt32.not_lt.mp hcooling)
      split
      · next hmomentum =>
          rw [Bool.not_eq_true'] at hmomentum
          exact .quiet hquote hflat hready fun h => absurd (h.symm.trans hmomentum) (by decide)
      · next hmomentum =>
          rw [Bool.not_eq_true, Bool.not_eq_false'] at hmomentum
          split
          · next himbalance =>
              rw [Bool.not_eq_true'] at himbalance
              exact .quiet hquote hflat hready fun _ h =>
                absurd (h.symm.trans himbalance) (by decide)
          · next himbalance =>
              rw [Bool.not_eq_true, Bool.not_eq_false'] at himbalance
              dsimp only
              split
              · next hqty => exact .quiet hquote hflat hready fun _ _ => hqty
              · next hqty =>
                  exact .entry hquote hflat hready hmomentum himbalance (not_le.mp hqty)

theorem onOrderbook_step (strat : MomentumScalpStrategy) (snapshot : OrderbookSnapshot) :
    Step strat snapshot (strat.onOrderbook snapshot) := by
  unfold onOrderbook
  split
  · next bestBid _ bestAsk _ hbid hask =>
      have hquote : snapshot.quote? = some (bestBid, bestAsk) := by
        simp only [OrderbookSnapshot.quote?, hbid, hask]
      dsimp only
      split
      · next hholding => exact onHolding_step hquote hholding
      · next hholding => exact onFlat_step hquote (Bool.not_eq_true _ ▸ hholding)
  · next hside => exact .oneSided (by simp only [OrderbookSnapshot.quote?])

/-- **A Buy is an entry**: at the best ask, with every gate open. -/
theorem entry_of_buy {strat : MomentumScalpStrategy} {snapshot : OrderbookSnapshot} {price qty : ℚ}
    (hbuy : (strat.onOrderbook snapshot).1 = .buy price qty) :
    ∃ bestBid, snapshot.quote? = some (bestBid, price) ∧
      strat.holding = false ∧ strat.cooldownLeft = 0 ∧
      (strat.pushPrice ((bestBid + price) / 2)).momentumGate ((bestBid + price) / 2) = true ∧
      strat.imbalanceGate snapshot = true ∧ 0 < qty ∧ qty = strat.entryQtyAt price ∧
      (strat.onOrderbook snapshot).2 = { strat.pushPrice ((bestBid + price) / 2) with
        holding := true
        entryPrice := price
        entryQty := qty
        heldTicks := 0 } := by
  have hstep := strat.onOrderbook_step snapshot
  generalize strat.onOrderbook snapshot = outcome at hstep hbuy ⊢
  cases hstep with
  | @entry bestBid bestAsk hquote hflat hready hmomentum himbalance hqty =>
      obtain ⟨rfl, rfl⟩ := Signal.buy.inj hbuy
      exact ⟨bestBid, hquote, hflat, hready, hmomentum, himbalance, hqty, rfl, rfl⟩
  | oneSided _ => cases hbuy
  | exit _ _ _ => cases hbuy
  | held _ _ _ => cases hbuy
  | cooling _ _ _ => cases hbuy
  | quiet _ _ _ _ => cases hbuy

end MomentumScalpStrategy

/-! ## §5 The discipline both strategies follow -/

/-- How a strategy's view of its position may move with one signal: a Hold leaves it, a Buy opens
a flat view with the quantity it asks for, a Sell closes a held view with the quantity it holds.
`before` and `after` are (holding, entry quantity). -/
def Disciplined (before after : Bool × ℚ) : Signal → Prop
  | .hold => after = before
  | .buy _ q => before.1 = false ∧ after = (true, q) ∧ qtyStep ≤ q
  | .sell _ q => before = (true, q) ∧ after.1 = false

/-- A strategy that keeps a view of its position, and keeps it in step with its signals. -/
class PositionStrategy (σ : Type) extends Strategy σ where
  /-- the strategy's `holding` flag -/
  holding : σ → Bool
  /-- the strategy's `entry_qty` -/
  entryQty : σ → ℚ
  disciplined : ∀ (strat : σ) (snapshot : OrderbookSnapshot),
    Disciplined (holding strat, entryQty strat)
      (holding (onOrderbook strat snapshot).2, entryQty (onOrderbook strat snapshot).2)
      (onOrderbook strat snapshot).1

theorem PingPongStrategy.onOrderbook_disciplined (strat : PingPongStrategy)
    (snapshot : OrderbookSnapshot) :
    Disciplined (strat.holding, strat.entryQty)
      ((strat.onOrderbook snapshot).2.holding, (strat.onOrderbook snapshot).2.entryQty)
      (strat.onOrderbook snapshot).1 := by
  have hstep := strat.onOrderbook_step snapshot
  generalize strat.onOrderbook snapshot = outcome at hstep ⊢
  cases hstep with
  | oneSided _ => rfl
  | tooSmall _ _ _ => rfl
  | entry _ hflat hqty => exact ⟨hflat, rfl, qtyStep_le_floorToStep hqty⟩
  | takeProfit _ hholding _ => exact ⟨by rw [hholding], rfl⟩
  | stopOut _ hholding _ _ => exact ⟨by rw [hholding], rfl⟩
  | waiting _ _ _ _ => rfl

instance : PositionStrategy PingPongStrategy where
  holding := PingPongStrategy.holding
  entryQty := PingPongStrategy.entryQty
  disciplined := PingPongStrategy.onOrderbook_disciplined

theorem MomentumScalpStrategy.onOrderbook_disciplined (strat : MomentumScalpStrategy)
    (snapshot : OrderbookSnapshot) :
    Disciplined (strat.holding, strat.entryQty)
      ((strat.onOrderbook snapshot).2.holding, (strat.onOrderbook snapshot).2.entryQty)
      (strat.onOrderbook snapshot).1 := by
  -- pushing the price touches neither the flag nor the entry
  have hstep := strat.onOrderbook_step snapshot
  generalize strat.onOrderbook snapshot = outcome at hstep ⊢
  cases hstep with
  | oneSided _ => rfl
  | exit _ hholding _ => exact ⟨by rw [hholding], rfl⟩
  | held _ _ _ => rfl
  | cooling _ _ _ => rfl
  | quiet _ _ _ _ => rfl
  | entry _ hflat _ _ _ hqty => exact ⟨hflat, rfl, qtyStep_le_floorToStep hqty⟩

instance : PositionStrategy MomentumScalpStrategy where
  holding := MomentumScalpStrategy.holding
  entryQty := MomentumScalpStrategy.entryQty
  disciplined := MomentumScalpStrategy.onOrderbook_disciplined

end CryptoTrader
