/-
# CryptoTrader.PriceBand — which mid price the fat-finger band is around.

The band of the risk checker is documented around the mid price, and `check` calls its argument
`mid_price`; both call sites pass the best bid, or zero when there is none, which switches the
band off.  An approved order therefore lies in the band around the best bid.  That band and the
one around the mid of the two best quotes differ by half the spread, so an approved order can
miss the second one only near one edge of the first: the lower edge in an uncrossed book, the
upper edge in a crossed one.  `ClearOfEdge` says how far it has to stay away from it; for an order
at the best bid it says that half the spread is within the band of the mid (`clearOfEdge_at_bid`).
-/
import CryptoTrader.Backtest

namespace CryptoTrader

open Lib

/-- The best bid and the best ask of a two-sided snapshot. -/
def bestQuotes (snapshot : OrderbookSnapshot) : Option (ℚ × ℚ) :=
  match snapshot.bids.head?, snapshot.asks.head? with
  | some (bid, _), some (ask, _) => some (bid, ask)
  | _, _ => none

theorem referencePrice_of_bestQuotes {snapshot : OrderbookSnapshot} {bid ask : ℚ}
    (h : bestQuotes snapshot = some (bid, ask)) : referencePrice snapshot = bid := by
  unfold bestQuotes at h
  unfold referencePrice
  split at h
  · next hbid _ =>
      cases h
      rw [hbid]
  · cases h

namespace Decision

/-- The prices of the decision are positive: its own and those of the best quotes. -/
def PositivePrices (d : Decision) : Prop :=
  0 < d.signal.price ∧ ∀ q ∈ bestQuotes d.snapshot, 0 < q.1 ∧ 0 < q.2

/-- The snapshot is two-sided and the price is in the band around the mid of its best quotes. -/
def InMidBand (d : Decision) : Prop :=
  ∃ q ∈ bestQuotes d.snapshot,
    |d.signal.price - (q.1 + q.2) / 2| / ((q.1 + q.2) / 2) * 100 ≤ d.risk.priceBandPct

/-- The snapshot is two-sided, and the price leaves enough of the band around the best bid
between itself and the edge the mid has moved away from. -/
def ClearOfEdge (d : Decision) : Prop :=
  ∃ q ∈ bestQuotes d.snapshot,
    let band := d.risk.priceBandPct / 100
    let halfSpread := (q.2 - q.1) / 2
    if q.1 ≤ q.2 then q.1 - d.signal.price ≤ band * q.1 - (1 - band) * halfSpread
    else d.signal.price - q.1 ≤ band * q.1 + (1 + band) * halfSpread

instance (d : Decision) : Decidable d.PositivePrices := by
  unfold PositivePrices; infer_instance

instance (d : Decision) : Decidable d.InMidBand := by
  unfold InMidBand; infer_instance

instance (d : Decision) : Decidable d.ClearOfEdge := by
  unfold ClearOfEdge; infer_instance

/-- A price is within `pct` percent of a positive `mid` exactly when it is within that share of
it on both sides. -/
theorem pct_le_iff {price mid pct : ℚ} (hmid : 0 < mid) :
    |price - mid| / mid * 100 ≤ pct ↔
      mid - price ≤ pct / 100 * mid ∧ price - mid ≤ pct / 100 * mid := by
  have hscale : |price - mid| / mid * 100 ≤ pct ↔ |price - mid| ≤ pct / 100 * mid := by
    rw [div_mul_eq_mul_div, div_le_iff₀ hmid]
    constructor <;> intro h <;> linarith
  rw [hscale, abs_le]
  constructor
  · rintro ⟨hlow, hhigh⟩
    exact ⟨by linarith, hhigh⟩
  · rintro ⟨hlow, hhigh⟩
    exact ⟨by linarith, hhigh⟩

/-- **One approval.**  An approved order is in the band around the mid price exactly when the
snapshot is two-sided and the order is clear of the edge. -/
theorem inMidBand_iff_clearOfEdge {d : Decision} (hpos : d.PositivePrices) (hadm : d.Admitted) :
    d.InMidBand ↔ d.ClearOfEdge := by
  refine exists_congr fun ⟨bid, ask⟩ => and_congr_right fun hquotes => ?_
  obtain ⟨hbid, hask⟩ := hpos.2 (bid, ask) hquotes
  dsimp only at hbid hask ⊢
  -- what the checker has established, around the best bid
  have hchecked := hadm.band
  rw [referencePrice_of_bestQuotes hquotes] at hchecked
  have haround := hchecked hbid
  rw [abs_div, abs_of_pos hbid, pct_le_iff hbid] at haround
  obtain ⟨hlow, hhigh⟩ := haround
  have hband : 0 ≤ d.risk.priceBandPct / 100 * bid := by linarith
  have hband0 : 0 ≤ d.risk.priceBandPct / 100 := nonneg_of_mul_nonneg_left hband hbid
  rw [pct_le_iff (by linarith)]
  generalize d.risk.priceBandPct / 100 = band at *
  have hmid : band * ((bid + ask) / 2) = band * bid + band * ((ask - bid) / 2) := by ring
  rw [hmid]
  by_cases huncrossed : bid ≤ ask
  · -- the mid is above the bid, so only the lower side can fail
    rw [if_pos huncrossed]
    have hwider : 0 ≤ band * ((ask - bid) / 2) := mul_nonneg hband0 (by linarith)
    constructor
    · rintro ⟨hlow', -⟩
      linarith
    · intro hclear
      refine ⟨?_, ?_⟩ <;> linarith
  · rw [if_neg huncrossed]
    have hnarrower : band * ((ask - bid) / 2) ≤ 0 :=
      mul_nonpos_of_nonneg_of_nonpos hband0 (by linarith)
    constructor
    · rintro ⟨-, hhigh'⟩
      linarith
    · intro hclear
      refine ⟨?_, by linarith⟩
      -- a band of more than 100% reaches below every positive price
      rcases le_or_gt band 1 with hone | hone
      · have hshift : 0 ≤ (1 - band) * ((bid - ask) / 2) :=
          mul_nonneg (by linarith) (by linarith)
        linarith
      · have hall : 0 ≤ (band - 1) * ((bid + ask) / 2) := mul_nonneg (by linarith) (by linarith)
        have hprice := hpos.1
        linarith

/-- What that asks of an order at the best bid of an uncrossed book: half the spread is within the
band of the mid price. -/
theorem clearOfEdge_at_bid {d : Decision} {bid ask : ℚ}
    (hquotes : bestQuotes d.snapshot = some (bid, ask)) (huncrossed : bid ≤ ask)
    (hprice : d.signal.price = bid) :
    d.ClearOfEdge ↔ (ask - bid) / 2 ≤ d.risk.priceBandPct / 100 * ((bid + ask) / 2) := by
  have hmid : d.risk.priceBandPct / 100 * ((bid + ask) / 2)
      = d.risk.priceBandPct / 100 * bid + d.risk.priceBandPct / 100 * ((ask - bid) / 2) := by ring
  unfold ClearOfEdge
  rw [hquotes, hmid]
  simp only [Option.mem_def, Option.some.injEq, exists_eq_left', if_pos huncrossed, hprice]
  constructor <;> intro h <;> linarith

/-- Every order this decision gets approved is in the band around the mid price. -/
def EnforcesMidBand (d : Option Decision) : Prop := ∀ d' ∈ d, d'.Admitted → d'.InMidBand

/-- Every order this decision gets approved is clear of the edge. -/
def KeepsClear (d : Option Decision) : Prop := ∀ d' ∈ d, d'.Admitted → d'.ClearOfEdge

def AllPositive (d : Option Decision) : Prop := ∀ d' ∈ d, d'.PositivePrices

instance (d : Option Decision) : Decidable (EnforcesMidBand d) := by
  unfold EnforcesMidBand; infer_instance

instance (d : Option Decision) : Decidable (KeepsClear d) := by
  unfold KeepsClear; infer_instance

instance (d : Option Decision) : Decidable (AllPositive d) := by
  unfold AllPositive; infer_instance

theorem enforcesMidBand_iff_keepsClear {d : Option Decision} (hpos : AllPositive d) :
    EnforcesMidBand d ↔ KeepsClear d :=
  forall_congr' fun d' => forall_congr' fun hd => imp_congr_right fun hadm =>
    inMidBand_iff_clearOfEdge (hpos d' hd) hadm

end Decision

/-- **The band around the mid price, exactly.**  In every run of the event loop, and in every run
of the backtester, with every strategy and on positive prices, the orders approved are all in the
band around the mid of the snapshot they were made of if and only if they are all made of a
two-sided snapshot and clear of the edge. -/
theorem midBand_enforced_iff_keepsClear {σ : Type} [Strategy σ] (strat : σ) (symbol : String)
    (depthLevels : Nat) (risk : RiskChecker) :
    (∀ (initialCapitalUsdt feePct : ℚ) (haltFlag : Bool) (ls : List Pipeline.Label),
      let start := Pipeline.init symbol depthLevels strat risk initialCapitalUsdt feePct haltFlag
      Pipeline.machine.Guarded (fun s l => Decision.AllPositive (s.decision l)) start ls →
      (Pipeline.machine.Guarded (fun s l => Decision.EnforcesMidBand (s.decision l)) start ls ↔
        Pipeline.machine.Guarded (fun s l => Decision.KeepsClear (s.decision l)) start ls)) ∧
    (∀ (snapshot : Option DepthSnapshot) (events : List Tick),
      let start := (Backtester.new symbol depthLevels strat risk).start snapshot
      Backtester.machine.Guarded (fun bt t => Decision.AllPositive (bt.decision t)) start events →
      (Backtester.machine.Guarded (fun bt t => Decision.EnforcesMidBand (bt.decision t)) start
          events ↔
        Backtester.machine.Guarded (fun bt t => Decision.KeepsClear (bt.decision t)) start
          events)) := by
  refine ⟨?_, ?_⟩
  · intro initialCapitalUsdt feePct haltFlag ls start hpos
    exact Pipeline.machine.guarded_congr
      (fun _ _ => Decision.enforcesMidBand_iff_keepsClear) hpos
  · intro snapshot events start hpos
    exact Backtester.machine.guarded_congr
      (fun _ _ => Decision.enforcesMidBand_iff_keepsClear) hpos

/-- A narrow market: the Buy at the bid of 100 is within 1% of the mid of 100.5. -/
theorem narrow_market_enforced :
    Pipeline.machine.Guarded (fun s l => Decision.EnforcesMidBand (s.decision l))
      (Pipeline.init "BTCUSDT" 20 PingPongStrategy.default (RiskChecker.new 1 0 1 5) 1000 0 false)
      (Pipeline.quoteEvents "100" "101") :=
  ((midBand_enforced_iff_keepsClear PingPongStrategy.default _ _ _).1 _ _ _ _
    (by decide +kernel)).mpr (by decide +kernel)

/-- A wide market: the Buy at the bid of 90 is approved, 10% away from the mid of 100. -/
theorem wide_market_not_enforced :
    ¬ ∀ (risk : RiskChecker) (initialCapitalUsdt feePct : ℚ) (haltFlag : Bool)
      (ls : List Pipeline.Label),
      let start := Pipeline.init "BTCUSDT" 20 PingPongStrategy.default risk initialCapitalUsdt
        feePct haltFlag
      Pipeline.machine.Guarded (fun s l => Decision.AllPositive (s.decision l)) start ls →
      Pipeline.machine.Guarded (fun s l => Decision.EnforcesMidBand (s.decision l)) start ls := by
  intro h
  have hwide := h (RiskChecker.new 1 0 1 5) 1000 0 false (Pipeline.quoteEvents "90" "110")
    (by decide +kernel)
  have hnot : ¬ Pipeline.machine.Guarded (fun s l => Decision.EnforcesMidBand (s.decision l))
      (Pipeline.init "BTCUSDT" 20 PingPongStrategy.default (RiskChecker.new 1 0 1 5) 1000 0 false)
      (Pipeline.quoteEvents "90" "110") := by decide +kernel
  exact hnot hwide

end CryptoTrader
