/-
# CryptoTrader.MomentumTiming — the clocks of `MomentumScalpStrategy` over whole runs.

Time is counted in two-sided snapshots since construction.  Three counters of the strategy advance
on different branches, and each is tied to that count here: the ring of prices holds the end of the
sequence of mids, whatever the strategy was doing meanwhile (`Sampled`); the holding counter counts
from the entry (`Holding`); the cooldown counts down from the exit (`Cooling`).
-/
import CryptoTrader.RoundTrips
import CryptoTrader.Lib.RingBuffer

namespace CryptoTrader

open Lib

/-- The mids of the two-sided snapshots of a sequence. -/
def mids (snapshots : List OrderbookSnapshot) : List ℚ :=
  (quotesOf snapshots).map fun quote => (quote.1 + quote.2) / 2

theorem mids_append (xs ys : List OrderbookSnapshot) : mids (xs ++ ys) = mids xs ++ mids ys := by
  rw [mids, quotesOf_append, List.map_append]
  rfl

theorem quotesOf_cons_none {snapshot : OrderbookSnapshot} (h : snapshot.quote? = none)
    (snapshots : List OrderbookSnapshot) : quotesOf (snapshot :: snapshots) = quotesOf snapshots :=
  List.filterMap_cons_none h

theorem quotesOf_cons_some {snapshot : OrderbookSnapshot} {quote : ℚ × ℚ}
    (h : snapshot.quote? = some quote) (snapshots : List OrderbookSnapshot) :
    quotesOf (snapshot :: snapshots) = quote :: quotesOf snapshots :=
  List.filterMap_cons_some h

theorem mids_singleton {snapshot : OrderbookSnapshot} {bestBid bestAsk : ℚ}
    (h : snapshot.quote? = some (bestBid, bestAsk)) :
    mids [snapshot] = [(bestBid + bestAsk) / 2] := by
  rw [mids, quotesOf_cons_some h]
  rfl

theorem mids_oneSided {snapshot : OrderbookSnapshot} (h : snapshot.quote? = none) :
    mids [snapshot] = [] := by
  rw [mids, quotesOf_cons_none h]
  rfl

namespace MomentumScalpStrategy

/-! ## §1 The ring of prices -/

/-- The ring holds the end of the sequence of mids. -/
def Sampled (strat : MomentumScalpStrategy) (history : List ℚ) : Prop :=
  RingBuffer.Holds strat.prices strat.head strat.filled history

theorem Sampled.pushPrice {strat : MomentumScalpStrategy} {history : List ℚ}
    (h : strat.Sampled history) (mid : ℚ) : (strat.pushPrice mid).Sampled (history ++ [mid]) :=
  RingBuffer.Holds.push h mid

theorem Sampled.lookbackPrice_eq {strat : MomentumScalpStrategy} {history : List ℚ}
    (h : strat.Sampled history) : strat.lookbackPrice = history.reverse[strat.lookbackTicks.val]? :=
  RingBuffer.Holds.lookback_eq h strat.lookbackTicks.isLt

/-- Every two-sided snapshot is sampled, on every branch. -/
theorem Sampled.step {strat : MomentumScalpStrategy} {before : List OrderbookSnapshot}
    (h : strat.Sampled (mids before)) {snapshot : OrderbookSnapshot}
    {outcome : Signal × MomentumScalpStrategy} (hstep : strat.Step snapshot outcome) :
    outcome.2.Sampled (mids (before ++ [snapshot])) := by
  have hpush : ∀ {bestBid bestAsk}, snapshot.quote? = some (bestBid, bestAsk) →
      (strat.pushPrice ((bestBid + bestAsk) / 2)).Sampled (mids (before ++ [snapshot])) := by
    intro bestBid bestAsk hquote
    rw [mids_append, mids_singleton hquote]
    exact h.pushPrice _
  cases hstep with
  | oneSided hquote =>
      rw [mids_append, mids_oneSided hquote, List.append_nil]
      exact h
  | exit hquote _ _ => exact hpush hquote
  | held hquote _ _ => exact hpush hquote
  | cooling hquote _ _ => exact hpush hquote
  | quiet hquote _ _ _ => exact hpush hquote
  | entry hquote _ _ _ _ _ => exact hpush hquote

theorem sampled_afterAll {strat : MomentumScalpStrategy} (h : strat.filled = 0)
    (before : List OrderbookSnapshot) : (afterAll strat before).Sampled (mids before) := by
  have hstart : strat.Sampled (mids []) := by
    unfold Sampled
    rw [h]
    exact .nil _ _
  exact (Strategy.transducer MomentumScalpStrategy).after_history
    (P := fun before strat' => strat'.Sampled (mids before))
    (fun _ strat' snapshot hs => hs.step (strat'.onOrderbook_step snapshot)) hstart before

/-- The momentum gate lets through what has risen by `entry_mom_pct` percent over the window. -/
theorem le_of_momentumGate {strat : MomentumScalpStrategy} {mid : ℚ}
    (h : strat.momentumGate mid = true) :
    ∃ past, strat.lookbackPrice = some past ∧ 0 < past ∧
      past * (1 + strat.entryMomPct / 100) ≤ mid := by
  unfold momentumGate at h
  cases hpast : strat.lookbackPrice with
  | none => simp [hpast] at h
  | some past =>
      rw [hpast] at h
      dsimp only at h
      split at h
      · next hpos =>
          refine ⟨past, rfl, hpos, ?_⟩
          rw [Bool.not_eq_true', decide_eq_false_iff_not, not_lt] at h
          have hgain : strat.entryMomPct / 100 ≤ (mid - past) / past := by linarith
          rw [le_div_iff₀ hpos] at hgain
          linarith
      · cases h

/-- **The momentum of an entry.**  The mid of the entry snapshot and the one `lookback_ticks`
two-sided snapshots earlier. -/
theorem entry_momentum {strat : MomentumScalpStrategy} {before : List OrderbookSnapshot}
    (h : strat.Sampled (mids before)) {snapshot : OrderbookSnapshot} {price qty : ℚ}
    (hbuy : (strat.onOrderbook snapshot).1 = .buy price qty) :
    ∃ mid past, (mids (before ++ [snapshot])).reverse[0]? = some mid ∧
      (mids (before ++ [snapshot])).reverse[strat.lookbackTicks.val]? = some past ∧ 0 < past ∧
      past * (1 + strat.entryMomPct / 100) ≤ mid := by
  have hsampled := h.step (strat.onOrderbook_step snapshot)
  obtain ⟨bestBid, hquote, _, _, hmomentum, _, _, _, hnext⟩ := entry_of_buy hbuy
  rw [hnext] at hsampled
  obtain ⟨past, hlookback, hpos, hle⟩ := le_of_momentumGate hmomentum
  have hpushed : (strat.pushPrice ((bestBid + price) / 2)).Sampled
      (mids (before ++ [snapshot])) := hsampled
  rw [hpushed.lookbackPrice_eq] at hlookback
  refine ⟨(bestBid + price) / 2, past, ?_, hlookback, hpos, hle⟩
  rw [mids_append, mids_singleton hquote, List.reverse_append]
  rfl

/-! ## §2 The time stop -/

/-- A Buy starts the holding counter. -/
theorem holding_of_buy {strat : MomentumScalpStrategy} {snapshot : OrderbookSnapshot}
    {price qty : ℚ} (hbuy : (strat.onOrderbook snapshot).1 = .buy price qty) :
    (strat.onOrderbook snapshot).2.Holding 0 := by
  obtain ⟨_, _, _, _, _, _, _, _, hnext⟩ := entry_of_buy hbuy
  rw [hnext]
  exact ⟨rfl, rfl, Nat.lt_of_lt_of_le Nat.zero_lt_one (Nat.le_max_left _ _)⟩

/-- **The time stop.**  A position held for `n` ticks is sold before the ticks run out. -/
theorem Holding.sold {strat : MomentumScalpStrategy} {n : Nat} (h : strat.Holding n)
    {following : List OrderbookSnapshot}
    (hlong : max 1 strat.maxHoldTicks.toNat ≤ n + (quotesOf following).length) :
    ∃ done snapshot rest price qty, following = done ++ snapshot :: rest ∧
      signalAfter strat done snapshot = .sell price qty := by
  induction following generalizing strat n with
  | nil =>
      have htime := h.inTime
      rw [quotesOf, List.filterMap_nil, List.length_nil] at hlong
      omega
  | cons snapshot rest ih =>
      -- a tick on which the position is kept moves on to the rest
      have hlater : ∀ {n'}, (strat.onOrderbook snapshot).2.Holding n' →
          max 1 (strat.onOrderbook snapshot).2.maxHoldTicks.toNat ≤ n' + (quotesOf rest).length →
          ∃ done snapshot' rest' price qty, snapshot :: rest = done ++ snapshot' :: rest' ∧
            signalAfter strat done snapshot' = .sell price qty := by
        intro n' hheld hlong'
        obtain ⟨done, snapshot', rest', price, qty, hsplit, hsell⟩ := ih hheld hlong'
        exact ⟨snapshot :: done, snapshot', rest', price, qty,
          congrArg (snapshot :: ·) hsplit, hsell⟩
      have hnow : ∀ {price qty}, (strat.onOrderbook snapshot).1 = .sell price qty →
          ∃ done snapshot' rest' price qty, snapshot :: rest = done ++ snapshot' :: rest' ∧
            signalAfter strat done snapshot' = .sell price qty :=
        fun {price qty} hsell => ⟨[], snapshot, rest, price, qty, rfl, hsell⟩
      have hstep := strat.onOrderbook_step snapshot
      generalize strat.onOrderbook snapshot = outcome at hstep hlater hnow
      cases hstep with
      | oneSided hquote =>
          rw [quotesOf_cons_none hquote] at hlong
          exact hlater h hlong
      | exit _ _ _ => exact hnow rfl
      | held hquote _ hexit =>
          rw [quotesOf_cons_some hquote, List.length_cons] at hlong
          refine hlater (h.tick hexit _) ?_
          show max 1 strat.maxHoldTicks.toNat ≤ _
          omega
      | cooling _ hflat _ => exact absurd (hflat.symm.trans h.holding) (by decide)
      | quiet _ hflat _ _ => exact absurd (hflat.symm.trans h.holding) (by decide)
      | entry _ hflat _ _ _ _ => exact absurd (hflat.symm.trans h.holding) (by decide)

/-- In a run from a flat start the holding counter is never at its end while a position is held. -/
theorem heldTicks_lt {strat : MomentumScalpStrategy} (hflat : strat.holding = false)
    (before : List OrderbookSnapshot) (hholding : (afterAll strat before).holding = true) :
    (afterAll strat before).heldTicks.toNat + 1 < 2 ^ 32 := by
  have hstart : ∃ phase, strat.Follows phase strat := ⟨.outside, .refl strat, hflat⟩
  obtain ⟨phase, hfollows⟩ :=
    (Strategy.transducer MomentumScalpStrategy).after_invariant
      (P := fun strat' => ∃ phase, strat.Follows phase strat')
      (fun strat' snapshot ⟨_, h⟩ =>
        let ⟨phase', _, h'⟩ := h.step (strat'.onOrderbook_step snapshot)
        ⟨phase', h'⟩) hstart before
  have hview := hfollows.view
  cases phase with
  | outside => exact absurd (Eq.symm hview |>.trans hholding) (by decide)
  | inside o since =>
      obtain ⟨hheld, _⟩ := hview
      have hcount := hheld.heldTicks
      have htime := hheld.inTime
      have hmax := (afterAll strat before).maxHoldTicks.toNat_lt
      have hcount' : (afterAll strat before).heldTicks.toNat
          = (quotesOf (since.map Prod.fst)).length := hcount
      have htime' : (quotesOf (since.map Prod.fst)).length
          < max 1 (afterAll strat before).maxHoldTicks.toNat := htime
      omega

/-! ## §3 The cooldown -/

/-- Flat, with at least `n` ticks of the cooldown left. -/
structure Cooling (strat : MomentumScalpStrategy) (n : Nat) : Prop where
  flat : strat.holding = false
  left : n ≤ strat.cooldownLeft.toNat

theorem cooling_of_sell {strat : MomentumScalpStrategy} {snapshot : OrderbookSnapshot}
    {price qty : ℚ} (hsell : (strat.onOrderbook snapshot).1 = .sell price qty) :
    (strat.onOrderbook snapshot).2.Cooling strat.cooldownTicks.toNat := by
  have hstep := strat.onOrderbook_step snapshot
  generalize strat.onOrderbook snapshot = outcome at hstep hsell ⊢
  cases hstep with
  | exit _ _ _ => exact ⟨rfl, Nat.le_refl _⟩
  | oneSided _ => cases hsell
  | held _ _ _ => cases hsell
  | cooling _ _ _ => cases hsell
  | quiet _ _ _ _ => cases hsell
  | entry _ _ _ _ _ _ => cases hsell

/-- **The cooldown.**  A Buy comes only after as many two-sided snapshots as are left of it. -/
theorem Cooling.le_of_buy {strat : MomentumScalpStrategy} {n : Nat} (h : strat.Cooling n)
    {between : List OrderbookSnapshot} {snapshot : OrderbookSnapshot} {price qty : ℚ}
    (hbuy : signalAfter strat between snapshot = .buy price qty) :
    n ≤ (quotesOf between).length := by
  induction between generalizing strat n with
  | nil =>
      have hleft := h.left
      have hbuy' : (strat.onOrderbook snapshot).1 = .buy price qty := hbuy
      obtain ⟨_, _, _, hready, _⟩ := entry_of_buy hbuy'
      rw [hready, UInt32.toNat_zero] at hleft
      omega
  | cons first between ih =>
      obtain ⟨hflat, hleft⟩ := id h
      have hbuy' : signalAfter (strat.onOrderbook first).2 between snapshot = .buy price qty := hbuy
      have hstep := strat.onOrderbook_step first
      generalize strat.onOrderbook first = outcome at hstep hbuy'
      cases hstep with
      | oneSided hquote =>
          rw [quotesOf_cons_none hquote]
          exact ih h hbuy'
      | @cooling bestBid bestAsk hquote _ hcooling =>
          have hpos := UInt32.lt_iff_toNat_lt.mp hcooling
          have hone : 1 ≤ strat.cooldownLeft := UInt32.le_iff_toNat_le.mpr hpos
          have hnext : n - 1 ≤ (strat.cooldownLeft - 1).toNat := by
            rw [UInt32.toNat_sub_of_le _ _ hone, UInt32.toNat_one]
            omega
          have hcooling' : Cooling
              { strat.pushPrice ((bestBid + bestAsk) / 2) with
                cooldownLeft := strat.cooldownLeft - 1 } (n - 1) := ⟨hflat, hnext⟩
          have hrest := ih hcooling' hbuy'
          rw [quotesOf_cons_some hquote, List.length_cons]
          omega
      | quiet _ _ hready _ =>
          rw [hready, UInt32.toNat_zero] at hleft
          omega
      | entry _ _ hready _ _ _ =>
          rw [hready, UInt32.toNat_zero] at hleft
          omega
      | exit _ hholding _ => exact absurd (hflat.symm.trans hholding) (by decide)
      | held _ hholding _ => exact absurd (hflat.symm.trans hholding) (by decide)

/-! ## §4 The discipline -/

/-- **Momentum timing discipline.**  For every parameter set and every sequence of snapshots, in
two-sided snapshots since construction and with the lookback capped at 63: no Buy before snapshot
number `lookback + 1`, and every Buy on a mid that exceeds the one `lookback` snapshots earlier by
`entry_mom_pct` percent; a Sell no later than the `max 1 max_hold_ticks`-th snapshot after a Buy, if
that many follow; at least `cooldown_ticks` snapshots strictly between a Sell and a later Buy; and
the counter of held ticks never overflows. -/
theorem momentum_timing_discipline (qty : ℚ) (lookbackTicks : Nat)
    (entryMomPct imbalanceMin tpPct stopPct : ℚ) (maxHoldTicks cooldownTicks : UInt32)
    (maxNotional : Option ℚ) :
    let strat := configured qty lookbackTicks entryMomPct imbalanceMin tpPct stopPct maxHoldTicks
      cooldownTicks maxNotional
    let lookback := min lookbackTicks 63
    (∀ before snapshot price qty', signalAfter strat before snapshot = .buy price qty' →
      let seen := mids (before ++ [snapshot])
      lookback + 1 ≤ seen.length ∧
        ∃ mid past, seen.reverse[0]? = some mid ∧ seen.reverse[lookback]? = some past ∧
          0 < past ∧ past * (1 + entryMomPct / 100) ≤ mid) ∧
    (∀ before snapshot price qty' following,
      signalAfter strat before snapshot = .buy price qty' →
      (quotesOf following).length = max 1 maxHoldTicks.toNat →
      ∃ done snapshot' rest price' qty'', following = done ++ snapshot' :: rest ∧
        signalAfter strat (before ++ snapshot :: done) snapshot' = .sell price' qty'') ∧
    (∀ before snapshot price qty' between snapshot' price' qty'',
      signalAfter strat before snapshot = .sell price qty' →
      signalAfter strat (before ++ snapshot :: between) snapshot' = .buy price' qty'' →
      cooldownTicks.toNat ≤ (quotesOf between).length) ∧
    (∀ before, (afterAll strat before).holding = true →
      (afterAll strat before).heldTicks.toNat + 1 < 2 ^ 32) := by
  intro strat lookback
  have hflat : strat.holding = false := configured_flat ..
  have hfilled : strat.filled = 0 := by
    show (configured ..).filled = 0
    cases maxNotional <;> rfl
  have hsettings : strat.lookbackTicks.val = lookback ∧ strat.entryMomPct = entryMomPct ∧
      strat.maxHoldTicks = maxHoldTicks ∧ strat.cooldownTicks = cooldownTicks := by
    show (configured ..).lookbackTicks.val = lookback ∧ (configured ..).entryMomPct = _ ∧
      (configured ..).maxHoldTicks = _ ∧ (configured ..).cooldownTicks = _
    cases maxNotional <;> exact ⟨rfl, rfl, rfl, rfl⟩
  obtain ⟨hlookback, hmom, hmaxHold, hcooldown⟩ := hsettings
  refine ⟨?_, ?_, ?_, fun before => heldTicks_lt hflat before⟩
  · intro before snapshot price qty' hbuy seen
    have hsame := settings_afterAll strat before
    obtain ⟨mid, past, hmid, hpast, hpos, hle⟩ :=
      entry_momentum (sampled_afterAll hfilled before) hbuy
    rw [hsame.lookbackTicks, hlookback] at hpast
    rw [hsame.entryMomPct, hmom] at hle
    refine ⟨?_, mid, past, hmid, hpast, hpos, hle⟩
    have hlt := (List.getElem?_eq_some_iff.mp hpast).1
    rw [List.length_reverse] at hlt
    exact hlt
  · intro before snapshot price qty' following hbuy hlong
    have hsame := (settings_afterAll strat before).step
      ((afterAll strat before).onOrderbook_step snapshot)
    have hheld := holding_of_buy hbuy
    have henough : max 1 ((afterAll strat before).onOrderbook snapshot).2.maxHoldTicks.toNat
        ≤ 0 + (quotesOf following).length := by
      rw [hsame.maxHoldTicks, hmaxHold, hlong, Nat.zero_add]
    obtain ⟨done, snapshot', rest, price', qty'', hsplit, hsell⟩ := hheld.sold henough
    refine ⟨done, snapshot', rest, price', qty'', hsplit, ?_⟩
    rw [signalAfter, afterAll_append]
    exact hsell
  · intro before snapshot price qty' between snapshot' price' qty'' hsell hbuy
    have hsame := settings_afterAll strat before
    have hcooling := cooling_of_sell hsell
    rw [hsame.cooldownTicks, hcooldown] at hcooling
    rw [signalAfter, afterAll_append] at hbuy
    exact hcooling.le_of_buy hbuy

/-! A mid that rises from 100 to 102 in one snapshot, and then stands still. -/

def level (bid ask : ℚ) : OrderbookSnapshot where
  symbol := "BTCUSDT"
  bids := [(bid, 3)]
  asks := [(ask, 1)]
  timestampMs := 0

/-- Bought on the rise, and sold by the time stop two snapshots later. -/
theorem rise_bought_and_sold :
    (∃ done snapshot rest price qty,
      [level 101 103, level 101 103] = done ++ snapshot :: rest ∧
      signalAfter (configured (1 / 100) 1 1 (1 / 2) 10 10 2 5 none)
        ([level 99 101] ++ level 101 103 :: done) snapshot = .sell price qty) ∧
    ∃ mid past, (mids ([level 99 101] ++ [level 101 103])).reverse[0]? = some mid ∧
      (mids ([level 99 101] ++ [level 101 103])).reverse[min 1 63]? = some past ∧ 0 < past ∧
      past * (1 + 1 / 100) ≤ mid := by
  have hbuy : signalAfter (configured (1 / 100) 1 1 (1 / 2) 10 10 2 5 none) [level 99 101]
      (level 101 103) = .buy 103 (1 / 100) := by decide +kernel
  obtain ⟨hentry, hexit, _⟩ :=
    momentum_timing_discipline (1 / 100) 1 1 (1 / 2) 10 10 2 5 none
  exact ⟨hexit _ _ _ _ [level 101 103, level 101 103] hbuy (by decide +kernel),
    (hentry _ _ _ _ hbuy).2⟩

end MomentumScalpStrategy

end CryptoTrader
