/-
# CryptoTrader.QuotedPrices — at which prices the program trades.

The strategies do not make prices: what they ask for is the best bid or the best ask of the snapshot
that they are shown (`QuotingStrategy`).  What they are shown is the exchange's (`ExchangeView`), and an
order keeps its price on its way to the account (`Mediation`).  So every trade in the books is at a price
that was the exchange's best bid or best ask, at the resolution of price keys, and a trade at the ask is one
where the spread, at that very id, was within the band.
-/
import CryptoTrader.Mediation
import CryptoTrader.ExchangeView

namespace CryptoTrader

open Lib Lib.RecentWindow Replica

/-! ## §1 Strategies that trade at the quotes -/

/-- An order asks for one of the two best prices of a two-sided snapshot. -/
def Signal.Quoted (snapshot : OrderbookSnapshot) (signal : Signal) : Prop :=
  signal ≠ .hold → ∃ bestBid bestAsk, snapshot.quote? = some (bestBid, bestAsk) ∧
    (signal.price = bestBid ∨ signal.price = bestAsk)

/-- A strategy that asks for nothing else. -/
class QuotingStrategy (σ : Type) extends Strategy σ where
  quoted : ∀ (strat : σ) (snapshot : OrderbookSnapshot), (onOrderbook strat snapshot).1.Quoted snapshot

instance : QuotingStrategy NoOpStrategy where
  quoted _ _ h := absurd rfl h

theorem PingPongStrategy.onOrderbook_quoted (strat : PingPongStrategy) (snapshot : OrderbookSnapshot) :
    (strat.onOrderbook snapshot).1.Quoted snapshot := by
  intro horder
  have hstep := strat.onOrderbook_step snapshot
  generalize strat.onOrderbook snapshot = outcome at hstep horder ⊢
  cases hstep with
  | entry hquote _ _ => exact ⟨_, _, hquote, Or.inl rfl⟩
  | takeProfit hquote _ _ => exact ⟨_, _, hquote, Or.inr rfl⟩
  | stopOut hquote _ _ _ => exact ⟨_, _, hquote, Or.inl rfl⟩
  | oneSided _ | tooSmall _ _ _ | waiting _ _ _ _ => exact absurd rfl horder

instance : QuotingStrategy PingPongStrategy where
  quoted := PingPongStrategy.onOrderbook_quoted

theorem MomentumScalpStrategy.onOrderbook_quoted (strat : MomentumScalpStrategy)
    (snapshot : OrderbookSnapshot) : (strat.onOrderbook snapshot).1.Quoted snapshot := by
  intro horder
  have hstep := strat.onOrderbook_step snapshot
  generalize strat.onOrderbook snapshot = outcome at hstep horder ⊢
  cases hstep with
  | exit hquote _ _ => exact ⟨_, _, hquote, Or.inl rfl⟩
  | entry hquote _ _ _ _ _ => exact ⟨_, _, hquote, Or.inr rfl⟩
  | oneSided _ | held _ _ _ | cooling _ _ _ | quiet _ _ _ _ => exact absurd rfl horder

instance : QuotingStrategy MomentumScalpStrategy where
  quoted := MomentumScalpStrategy.onOrderbook_quoted

/-! ## §2 The quotes of the exchange -/

/-- The best price of a side of the exchange. -/
def BestOf (better : ℚ → ℚ → Prop) (quantities : Nat → ℚ) (price : ℚ) : Prop :=
  ∃ key, Orderbook.keyPrice key = price ∧ quantities key ≠ 0 ∧
    ∀ key', quantities key' ≠ 0 → Orderbook.keyPrice key' = price ∨
      better price (Orderbook.keyPrice key')

/-- At one of its update ids this was the best bid or the best ask of the exchange, and within the band
around the bid. -/
def Offers (B : ExchangeHistory) (bandPct price : ℚ) : Prop :=
  ∃ n bid ask, BestOf (· > ·) (B.bids n) bid ∧ BestOf (· < ·) (B.asks n) ask ∧
    (price = bid ∨ price = ask) ∧ (0 < bid → |(price - bid) / bid| * 100 ≤ bandPct)

theorem OrderbookSnapshot.heads_of_quote {snapshot : OrderbookSnapshot} {bestBid bestAsk : ℚ}
    (h : snapshot.quote? = some (bestBid, bestAsk)) :
    ∃ bidQty askQty, snapshot.bids.head? = some (bestBid, bidQty) ∧
      snapshot.asks.head? = some (bestAsk, askQty) := by
  unfold quote? at h
  split at h
  · next bidQty _ askQty hbid hask =>
      obtain ⟨rfl, rfl⟩ := Prod.mk.inj (Option.some.inj h)
      exact ⟨bidQty, askQty, hbid, hask⟩
  · cases h

/-- **An approved order** that asks for a quote of the exchange's book. -/
theorem Decision.offers {B : ExchangeHistory} {depth : Nat} {d : Decision}
    (hshows : ShowsExchange B depth d.snapshot) (hquoted : d.signal.Quoted d.snapshot)
    (hadm : d.Admitted) : Offers B d.risk.priceBandPct d.signal.price := by
  obtain ⟨bid, ask, hquote, hprice⟩ := hquoted hadm.order
  obtain ⟨bidQty, askQty, hbid, hask⟩ := OrderbookSnapshot.heads_of_quote hquote
  obtain ⟨n, hbids, hasks⟩ := hshows
  have hreference : referencePrice d.snapshot = bid := by
    simp only [referencePrice, hbid]
  exact ⟨n, bid, ask, hbids.head hbid, hasks.head hask, hprice, hreference ▸ hadm.band⟩

/-! ## §3 The books of the program -/

/-- A trade record has the price of its order. -/
theorem PaperTrade.price_of_ofOrder {order : ValidatedOrder} {timestamp : String} {trade : PaperTrade}
    (h : PaperTrade.ofOrder order timestamp = some trade) : trade.price = order.signal.price := by
  unfold ofOrder at h
  split at h
  · next hsignal =>
      obtain rfl := Option.some.inj h
      rw [hsignal]
      rfl
  · next hsignal =>
      obtain rfl := Option.some.inj h
      rw [hsignal]
      rfl
  · cases h

namespace Program

theorem executed_trace {σ : Type} [Strategy σ] {p p' : Program σ} {ls : List Label}
    (hrun : machine.exec p ls = some p') :
    Pipeline.machine.outputs Pipeline.executedOf p.pipeline (toPipeline.trace p ls)
      = machine.outputs executedOf p ls := by
  refine toPipeline.outputs_trace ?_ hrun
  intro p l p' h
  obtain ⟨m, hlabels, hstep, -⟩ := pipeline_step h
  rw [hlabels]
  refine (Pipeline.machine.outputs_singleton hstep).trans ?_
  have hmem : m ∈ toPipeline.labels p l := by
    rw [hlabels]
    exact List.mem_singleton_self m
  cases l with
  | handle _ _ _ | network _ | switch _ =>
      obtain ⟨_, -, rfl⟩ := List.mem_map.mp hmem
      rfl
  | send | take | fill | mirror | record _ =>
      obtain rfl := List.mem_singleton.mp hmem
      rfl

variable {σ : Type} [QuotingStrategy σ]

/-- The decisions of a truthful run are made of the exchange's book. -/
theorem quoted_of_run {B : ExchangeHistory} {depth : Nat} {shown : List OrderbookSnapshot}
    {p p' : Program σ} {ls : List Label} (hstart : Truthful B depth shown p)
    (hgenuine : ∀ l ∈ ls, l.Genuine B) (hrun : machine.exec p ls = some p') :
    ∀ d ∈ machine.outputs decisionsOf p ls,
      ShowsExchange B depth d.snapshot ∧ d.signal.Quoted d.snapshot := by
  refine (machine.exec_history_guarded (C := fun _ l => Label.Genuine B l)
    (I := fun (q : Program σ) (decisions : List Decision) => (∃ shown, Truthful B depth shown q) ∧
      ∀ d ∈ decisions, ShowsExchange B depth d.snapshot ∧ d.signal.Quoted d.snapshot) ?_
    ⟨⟨shown, hstart⟩, fun _ h => absurd h List.not_mem_nil⟩
    (machine.guarded_of_forall (fun _ l hl => hgenuine l hl) _) hrun).2
  rintro q l q' decisions ⟨⟨shown, hq⟩, hdecisions⟩ hl hstep
  have hnext := hq.step hl hstep
  refine ⟨⟨_, hnext⟩, ?_⟩
  intro d hd
  rcases List.mem_append.mp hd with hd | hd
  · exact hdecisions d hd
  · obtain ⟨hshown, hsignal, -⟩ := decision_parts (Option.mem_toList.mp hd)
    refine ⟨hnext.shown _ (List.mem_append_right shown hshown), ?_⟩
    rw [hsignal]
    exact QuotingStrategy.quoted q.pipeline.strat d.snapshot

/-- **Every trade is at a price of the exchange.**  Suppose that what the exchange says is true.  Then in
every run of the program with a strategy that trades at the quotes, whatever the threads do in between and
however late an order is executed: each order executed or in flight, and each trade on the dashboard, is at
a price that was the exchange's best bid or best ask at one of its update ids, within the band around the
bid of that id. -/
theorem trades_at_exchange_prices (B : ExchangeHistory) (symbol : String) (depthLevels : Nat)
    (strat : σ) (risk : RiskChecker) (initialCapitalUsdt feePct : ℚ) (haltFile : Bool)
    (timeoutSecs startMs : Nat) (ls : List Label) (p : Program σ)
    (hgenuine : ∀ l ∈ ls, l.Genuine B)
    (hrun : machine.exec (init symbol depthLevels strat risk initialCapitalUsdt feePct haltFile
      timeoutSecs startMs) ls = some p) :
    (∀ order ∈ machine.outputs executedOf (init symbol depthLevels strat risk initialCapitalUsdt
        feePct haltFile timeoutSecs startMs) ls ++ p.pipeline.path.pending,
      Offers B risk.priceBandPct order.signal.price) ∧
    ∀ trade ∈ p.pipeline.path.shared.recentTrades, Offers B risk.priceBandPct trade.price := by
  have hquoted := quoted_of_run (truthful_init B symbol depthLevels strat risk initialCapitalUsdt
    feePct haltFile timeoutSecs startMs) hgenuine hrun
  have horders : ∀ order ∈ machine.outputs executedOf (init symbol depthLevels strat risk
      initialCapitalUsdt feePct haltFile timeoutSecs startMs) ls ++ p.pipeline.path.pending,
      Offers B risk.priceBandPct order.signal.price := by
    intro order horder
    rw [← orders_of_run hrun, Decision.filterMap_order] at horder
    obtain ⟨d, hd, rfl⟩ := List.mem_map.mp horder
    obtain ⟨hmem, hadm⟩ := List.mem_filter.mp hd
    obtain ⟨hshows, hsignal⟩ := hquoted d hmem
    have hband : d.risk.priceBandPct = risk.priceBandPct := by
      obtain ⟨ids, queue, timestamps, hrisk⟩ := (checked_of_run hrun).judged d hmem
      rw [hrisk]
      rfl
    rw [← hband]
    exact d.offers hshows hsignal (of_decide_eq_true hadm)
  refine ⟨horders, ?_⟩
  intro trade htrade
  have hmain := toPipeline.exec hrun
  rw [show p.pipeline.path.shared.recentTrades = _ from Pipeline.recentTrades_of_run hmain] at htrade
  obtain ⟨⟨order, timestamp⟩, hrecorded, hofOrder⟩ :=
    List.mem_filterMap.mp ((rtake_suffix _ _).mem htrade)
  rw [PaperTrade.price_of_ofOrder hofOrder]
  refine horders order (List.mem_append_left _ ?_)
  rw [← executed_trace hrun]
  exact (Pipeline.recorded_prefix_of_run hmain).subset (List.mem_map.mpr ⟨_, hrecorded, rfl⟩)

/-! A market that stands still, with one level a side. -/

def standingMarket : ExchangeHistory := fun _ =>
  { bids := fun key => if key = 100 * 10 ^ 8 then 1 else 0
    asks := fun key => if key = 10001 * 10 ^ 6 then 1 else 0 }

theorem listsExactly_singleton {b : Nat → ℚ} {level : Level} {k : Nat} {q : ℚ}
    (hread : readLevel level = (k, q)) (hpos : 0 < q)
    (hb : ∀ key, b key = if key = k then q else 0) : ListsExactly b [level] where
  nodup := List.nodup_singleton _
  mem_iff := by
    intro key qty
    rw [List.map_singleton, hread, List.mem_singleton, Prod.mk.injEq, hb]
    constructor
    · rintro ⟨rfl, rfl⟩
      exact ⟨(if_pos rfl).symm, hpos⟩
    · rintro ⟨rfl, hq⟩
      split at hq
      · next hkey => exact ⟨hkey, if_pos hkey⟩
      · exact absurd hq (lt_irrefl 0)

theorem genuine_standingSnapshot :
    GenuineSnapshot standingMarket ⟨10, [("100", "1")], [("100.01", "1")]⟩ where
  bids := by
    refine listsExactly_singleton (k := 100 * 10 ^ 8) (q := 1) (by decide +kernel) one_pos ?_
    intro key
    show (((if key = 100 * 10 ^ 8 then 1 else 0 : ℚ≥0)) : ℚ) = _
    split <;> rfl
  asks := by
    refine listsExactly_singleton (k := 10001 * 10 ^ 6) (q := 1) (by decide +kernel) one_pos ?_
    intro key
    show (((if key = 10001 * 10 ^ 6 then 1 else 0 : ℚ≥0)) : ℚ) = _
    split <;> rfl

theorem genuine_standingUpdate :
    GenuineUpdate standingMarket ⟨"depthUpdate", 0, "BTCUSDT", 11, 11, 10, [], []⟩ where
  pu_lt := by decide
  first_le := by decide
  bids _ := Or.inr ⟨rfl, fun _ _ _ => rfl⟩
  asks _ := Or.inr ⟨rfl, fun _ _ _ => rfl⟩

/-- The entry at the bid of 100, on the dashboard. -/
theorem entry_at_exchange_price :
    ∃ p : Program PingPongStrategy,
      machine.exec (init "BTCUSDT" 20 PingPongStrategy.default (RiskChecker.new 1 0 1 5) 10000 0
        false 30 0) (firstMessages "100" "100.01" ++
          [.handle 0 0 "a", .handle 0 0 "b", .send, .take, .fill, .mirror, .record "t"]) = some p ∧
      p.pipeline.path.shared.recentTrades = [⟨"t", "BUY", 100, 1 / 100, "b"⟩] ∧
      Offers standingMarket 1 100 := by
  have hsome : ((machine.exec (init "BTCUSDT" 20 PingPongStrategy.default
      (RiskChecker.new 1 0 1 5) 10000 0 false 30 0) (firstMessages "100" "100.01" ++
        [.handle 0 0 "a", .handle 0 0 "b", .send, .take, .fill, .mirror, .record "t"])).any fun p =>
          p.pipeline.path.shared.recentTrades = [⟨"t", "BUY", 100, 1 / 100, "b"⟩]) = true := by
    decide +kernel
  obtain ⟨p, hrun, htrades⟩ := (Option.any_eq_true _ _).mp hsome
  replace htrades := of_decide_eq_true htrades
  refine ⟨p, hrun, htrades, ?_⟩
  have hoffers := (trades_at_exchange_prices standingMarket _ _ _ _ _ _ _ _ _ _ p ?_ hrun).2
  · rw [htrades] at hoffers
    exact hoffers _ (List.mem_singleton_self _)
  · intro l hl
    simp only [firstMessages, List.cons_append, List.nil_append, List.mem_cons, List.not_mem_nil,
      or_false] at hl
    rcases hl with rfl | rfl | rfl | rfl | rfl | rfl | rfl | rfl | rfl | rfl | rfl | rfl
    · trivial
    · trivial
    · exact genuine_standingSnapshot
    · trivial
    · exact genuine_standingUpdate
    all_goals trivial

end Program

end CryptoTrader
