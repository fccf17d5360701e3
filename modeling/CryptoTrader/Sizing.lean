/-
# CryptoTrader.Sizing — the size of an entry, and the risk gates it has to pass.

Two components round and leave margins on their own.  The strategies floor the entry to the step of
the exchange after dividing their budget by the price; the risk checker adds 0.1% to the notional
before it compares it with the balance.  `main.rs` sets the budget to 90% of the capital.  An entry
is then the largest multiple of the step that the configured quantity and the budget allow, whatever
the price, and one that fits the budget passes the quantity and balance gates whenever the balance
is at least 0.9 * 1.001 of the capital and not below the floor.
-/
import CryptoTrader.RoundTrips
import CryptoTrader.RateLimit

namespace CryptoTrader

/-! ## §1 The largest multiple of the step -/

/-- `strategy_budget` of `main.rs`. -/
def strategyBudget (initialCapitalUsdt : ℚ) : ℚ := initialCapitalUsdt * (9 / 10)

/-- A quantity fits the budget at a positive price. -/
def FitsBudget (maxNotional : Option ℚ) (price qty : ℚ) : Prop :=
  ∀ budget ∈ maxNotional, 0 < price → price * qty ≤ budget

/-- The multiples of the step that the configured quantity and the budget allow. -/
def Allowed (qty : ℚ) (maxNotional : Option ℚ) (price : ℚ) : Set ℚ :=
  {x | (∃ n : ℤ, x = n * qtyStep) ∧ x ≤ qty ∧ FitsBudget maxNotional price x}

/-- Flooring to the step takes the largest multiple below. -/
theorem floorToStep_isGreatest (qty : ℚ) :
    IsGreatest {x | (∃ n : ℤ, x = n * qtyStep) ∧ x ≤ qty} (floorToStep qty) := by
  refine ⟨⟨⟨⌊qty / qtyStep⌋, rfl⟩, ?_⟩, ?_⟩
  · have hfloor : (⌊qty / qtyStep⌋ : ℚ) ≤ qty / qtyStep := Int.floor_le _
    exact (le_div_iff₀ qtyStep_pos).mp hfloor
  · rintro x ⟨⟨n, rfl⟩, hle⟩
    have hn : (n : ℚ) ≤ qty / qtyStep := (le_div_iff₀ qtyStep_pos).mpr hle
    have hfloor : (n : ℚ) ≤ ⌊qty / qtyStep⌋ := by exact_mod_cast Int.le_floor.mpr hn
    exact mul_le_mul_of_nonneg_right hfloor qtyStep_pos.le

/-- **The entry quantity**, at any price and under any budget. -/
theorem entryQtyAt_isGreatest (qty : ℚ) (maxNotional : Option ℚ) (price : ℚ) :
    IsGreatest (Allowed qty maxNotional price) (entryQtyAt qty maxNotional price) := by
  have hfloor : ∀ {cap}, (∀ x, x ≤ cap ↔ x ≤ qty ∧ FitsBudget maxNotional price x) →
      IsGreatest (Allowed qty maxNotional price) (floorToStep cap) := by
    intro cap hcap
    have hset : Allowed qty maxNotional price = {x | (∃ n : ℤ, x = n * qtyStep) ∧ x ≤ cap} :=
      Set.ext fun x => and_congr_right fun _ => (hcap x).symm
    rw [hset]
    exact floorToStep_isGreatest cap
  unfold entryQtyAt
  cases maxNotional with
  | none => exact hfloor fun x => (and_iff_left fun budget hbudget => by cases hbudget).symm
  | some budget =>
      dsimp only
      split
      · next hprice =>
          apply hfloor
          intro x
          rw [le_min_iff, le_div_iff₀ hprice, mul_comm x price]
          simp [FitsBudget, hprice]
      · next hprice =>
          apply hfloor
          intro x
          simp [FitsBudget, hprice]

/-! ## §2 The gates -/

/-- What can still refuse an order of an admitted size and balance. -/
theorem check_buy_error {risk : RiskChecker} {price qty midPrice : ℚ} {env : Readings}
    {e : RiskError} (hsize : qty ≤ risk.maxOrderQty)
    (hbalance : risk.balanceGate price qty env = none)
    (h : (risk.check (.buy price qty) midPrice env).1 = .err e) :
    e = .killSwitch ∨ (∃ pct, e = .fatFinger price midPrice pct risk.priceBandPct) ∨
      (∃ current, e = .rateLimit current risk.maxOrdersPerSec) ∨
      e = .duplicateOrderId env.uuid := by
  rw [RiskChecker.check_eq risk (by simp)] at h
  have hearly : risk.earlyGates (.buy price qty) midPrice env =
      if risk.killed env then some .killSwitch else risk.bandGate price midPrice := by
    have hfits : ¬ qty > risk.maxOrderQty := not_lt.mpr hsize
    simp [RiskChecker.earlyGates, Signal.qty, Signal.isBuy, Signal.price, hfits, hbalance]
  rw [hearly] at h
  split at h
  · next e' he' =>
      rw [CheckResult.err.injEq] at h
      subst h
      split at he'
      · exact Or.inl (Option.some.inj he').symm
      · exact Or.inr (Or.inl (RiskChecker.bandGate_error he'))
  · exact Or.inr (Or.inr (RiskChecker.register_error h))

/-- A quantity within the budget leaves room for the headroom of the balance gate. -/
theorem notional_le_balance {initialCapitalUsdt price qty balance : ℚ} (hprice : 0 < price)
    (hfits : FitsBudget (some (strategyBudget initialCapitalUsdt)) price qty)
    (hbalance : 9009 / 10000 * initialCapitalUsdt ≤ balance) :
    price * qty * (1001 / 1000) ≤ balance := by
  have hbudget : price * qty ≤ initialCapitalUsdt * (9 / 10) := hfits _ rfl hprice
  linarith

/-- A Buy sized for the account: the largest quantity allowed, and one that the quantity and
balance gates let pass when the budget comes from the capital. -/
structure Sized (qty : ℚ) (maxNotional : Option ℚ) (price entryQty : ℚ) : Prop where
  largest : IsGreatest (Allowed qty maxNotional price) entryQty
  passes : ∀ initialCapitalUsdt, maxNotional = some (strategyBudget initialCapitalUsdt) →
    0 < price → ∀ (risk : RiskChecker) (midPrice : ℚ) (env : Readings), qty ≤ risk.maxOrderQty →
    9009 / 10000 * initialCapitalUsdt ≤ risk.balance env →
    risk.minFreeBalanceUsdt ≤ risk.balance env →
    let answer := (risk.check (.buy price entryQty) midPrice env).1
    (∀ q max, answer ≠ .err (.maxQtyExceeded q max)) ∧
      (∀ balance min, answer ≠ .err (.insufficientBalance balance min)) ∧
      ∀ notional balance, answer ≠ .err (.insufficientFunds notional balance)

/-- The entry quantity is sized for the account. -/
theorem sized_entryQtyAt (qty : ℚ) (maxNotional : Option ℚ) (price : ℚ) :
    Sized qty maxNotional price (entryQtyAt qty maxNotional price) where
  largest := entryQtyAt_isGreatest qty maxNotional price
  passes := by
    intro initialCapitalUsdt hbudget hprice risk midPrice env hmax hbalance hfloor answer
    obtain ⟨_, hqty, hfits⟩ := (entryQtyAt_isGreatest qty maxNotional price).1
    subst hbudget
    have hgate : risk.balanceGate price
        (entryQtyAt qty (some (strategyBudget initialCapitalUsdt)) price) env = none :=
      RiskChecker.balanceGate_eq_none_iff.mpr
        ⟨hfloor, notional_le_balance hprice hfits hbalance⟩
    have herror : ∀ {e}, answer = .err e → _ :=
      fun {e} h => check_buy_error (hqty.trans hmax) hgate h
    refine ⟨?_, ?_, ?_⟩
    · intro q max h
      rcases herror h with h | ⟨_, h⟩ | ⟨_, h⟩ | h <;> cases h
    · intro balance min h
      rcases herror h with h | ⟨_, h⟩ | ⟨_, h⟩ | h <;> cases h
    · intro notional balance h
      rcases herror h with h | ⟨_, h⟩ | ⟨_, h⟩ | h <;> cases h

/-! ## §3 Every Buy of either strategy -/

/-- The strategy sizes every Buy of a run. -/
def SizesBuys {σ : Type} [Strategy σ] (strat : σ) (qty : ℚ) (maxNotional : Option ℚ) : Prop :=
  ∀ before snapshot price entryQty, signalAfter strat before snapshot = .buy price entryQty →
    Sized qty maxNotional price entryQty

theorem PingPongStrategy.buy_eq {strat : PingPongStrategy} {snapshot : OrderbookSnapshot}
    {price qty : ℚ} (h : (strat.onOrderbook snapshot).1 = .buy price qty) :
    qty = strat.entryQtyAt price := by
  have hstep := strat.onOrderbook_step snapshot
  generalize strat.onOrderbook snapshot = outcome at hstep h
  cases hstep with
  | entry _ _ _ =>
      obtain ⟨rfl, rfl⟩ := Signal.buy.inj h
      rfl
  | oneSided _ => cases h
  | tooSmall _ _ _ => cases h
  | takeProfit _ _ _ => cases h
  | stopOut _ _ _ _ => cases h
  | waiting _ _ _ _ => cases h

/-- **Sizing and the risk gate fit together.**  Every Buy that either strategy emits, in any run and
with any configured quantity and budget, is the largest multiple of the step within the quantity and
the budget; and with the budget of `main.rs` the checker never refuses it for its quantity or for
the balance, on any balance of at least 0.9009 of the capital and not below the floor. -/
theorem sizing_fits_risk_gate (qty : ℚ) (maxNotional : Option ℚ) :
    (∀ minEdgePct stopPct,
      SizesBuys (PingPongStrategy.configured qty minEdgePct stopPct maxNotional) qty maxNotional) ∧
    (∀ lookbackTicks entryMomPct imbalanceMin tpPct stopPct maxHoldTicks cooldownTicks,
      SizesBuys (MomentumScalpStrategy.configured qty lookbackTicks entryMomPct imbalanceMin tpPct
        stopPct maxHoldTicks cooldownTicks maxNotional) qty maxNotional) := by
  refine ⟨?_, ?_⟩
  · intro minEdgePct stopPct before snapshot price entryQty hbuy
    have hsame := PingPongStrategy.settings_afterAll
      (.configured qty minEdgePct stopPct maxNotional) before
    have hqty : entryQty = entryQtyAt qty maxNotional price := by
      rw [PingPongStrategy.buy_eq hbuy, hsame.entryQtyAt_eq]
      cases maxNotional <;> rfl
    rw [hqty]
    exact sized_entryQtyAt qty maxNotional price
  · intro lookbackTicks entryMomPct imbalanceMin tpPct stopPct maxHoldTicks cooldownTicks before
      snapshot price entryQty hbuy
    have hsame := MomentumScalpStrategy.settings_afterAll (.configured qty lookbackTicks entryMomPct
      imbalanceMin tpPct stopPct maxHoldTicks cooldownTicks maxNotional) before
    have hqty : entryQty = entryQtyAt qty maxNotional price := by
      obtain ⟨_, _, _, _, _, _, _, hsized, _⟩ := MomentumScalpStrategy.entry_of_buy hbuy
      rw [hsized, hsame.entryQtyAt_eq]
      cases maxNotional <;> rfl
    rw [hqty]
    exact sized_entryQtyAt qty maxNotional price

/-- At 65000 a capital of 100000 buys 1.384, and a balance of 90100 pays for it. -/
theorem entry_within_capital :
    IsGreatest (Allowed 2 (some (strategyBudget 100000)) 65000) (173 / 125) ∧
      ∀ notional balance,
        ((RiskChecker.new 2 10 1 5).withBalanceSource.check (.buy 65000 (173 / 125)) 65000
          ⟨false, 90100, 0, "a"⟩).1 ≠ .err (.insufficientFunds notional balance) := by
  have hbuy : signalAfter
      (PingPongStrategy.configured 2 (1 / 20) 1 (some (strategyBudget 100000))) []
      ⟨"BTCUSDT", [(65000, 1)], [(65001, 1)], 0⟩ = .buy 65000 (173 / 125) := by decide +kernel
  have hsized := (sizing_fits_risk_gate 2 (some (strategyBudget 100000))).1 (1 / 20) 1 _ _ _ _ hbuy
  refine ⟨hsized.largest, ?_⟩
  have hpasses := hsized.passes 100000 rfl (by norm_num)
    (RiskChecker.new 2 10 1 5).withBalanceSource 65000 ⟨false, 90100, 0, "a"⟩ (by decide +kernel)
    (by decide +kernel) (by decide +kernel)
  exact hpasses.2.2

end CryptoTrader
