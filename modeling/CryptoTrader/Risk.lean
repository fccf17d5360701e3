/-
# CryptoTrader.Risk — the pre-trade risk checker.

The functions of `risk.rs`.  `check` runs a Buy or a Sell through its gates in the order of the
source and stops at the first that rejects: kill switch, order size, balance (Buys only), price
band, order rate, duplicate id.  Only an order that reaches the last two touches the checker's
own state.

What `check` reads outside the checker (the shared kill-switch flag, the mirrored cash, the
monotonic clock, the fresh order id) arrives as `Readings`; the two `Option<Arc<_>>` fields keep
only whether they are wired.  `Instant` is a number of nanoseconds, and `duration_since` the
truncated difference, which is what it saturates to.  A `Hold` reaches `unreachable!`.

The gates compare exact rationals.  The code rounds the deviation and the notional before it compares
them, so that at the very edge of a gate it may decide otherwise; and NaN, which every comparison lets
pass, has no counterpart.
-/
import CryptoTrader.Types

namespace CryptoTrader

/-- `MAX_SEEN_ORDER_IDS` -/
def maxSeenOrderIds : Nat := 10000

inductive RiskError where
  | killSwitch
  | maxQtyExceeded (qty max : ℚ)
  | insufficientBalance (balance min : ℚ)
  | insufficientFunds (notional balance : ℚ)
  | fatFinger (price mid pct maxPct : ℚ)
  | rateLimit (current : Nat) (max : UInt32)
  | duplicateOrderId (id : String)
  deriving DecidableEq

/-- What one call of `check` reads outside the checker. -/
structure Readings where
  haltFlag : Bool
  /-- the value behind `cash_bits` -/
  cash : ℚ
  now : Nat
  uuid : String
  deriving DecidableEq

/-- The outcome of `check`; `panicked` is its `unreachable!`. -/
inductive CheckResult where
  | ok (order : ValidatedOrder)
  | err (error : RiskError)
  | panicked
  deriving DecidableEq

structure RiskChecker where
  halted : Bool
  /-- `halt_flag` is wired up -/
  hasHaltFlag : Bool
  /-- `balance_source` is wired up -/
  hasBalanceSource : Bool
  maxOrderQty : ℚ
  minFreeBalanceUsdt : ℚ
  priceBandPct : ℚ
  maxOrdersPerSec : UInt32
  seenOrderIds : Finset String
  seenOrderQueue : List String
  orderTimestamps : List Nat
  freeBalanceUsdt : ℚ
  deriving DecidableEq

namespace Signal

/-- The price of an order; a `Hold` carries none. -/
def price : Signal → ℚ
  | buy p _ => p
  | sell p _ => p
  | hold => 0

def qty : Signal → ℚ
  | buy _ q => q
  | sell _ q => q
  | hold => 0

def isBuy : Signal → Bool
  | buy _ _ => true
  | _ => false

end Signal

namespace RiskChecker

def new (maxOrderQty minFreeBalanceUsdt priceBandPct : ℚ) (maxOrdersPerSec : UInt32) :
    RiskChecker where
  halted := false
  hasHaltFlag := false
  hasBalanceSource := false
  maxOrderQty := maxOrderQty
  minFreeBalanceUsdt := minFreeBalanceUsdt
  priceBandPct := priceBandPct
  maxOrdersPerSec := maxOrdersPerSec
  seenOrderIds := ∅
  seenOrderQueue := []
  orderTimestamps := []
  freeBalanceUsdt := 10000

def withHaltFlag (risk : RiskChecker) : RiskChecker := { risk with hasHaltFlag := true }

def withBalanceSource (risk : RiskChecker) : RiskChecker := { risk with hasBalanceSource := true }

/-! ## §1 The gates -/

/-- The kill-switch test: the checker's own switch or the shared flag. -/
def killed (risk : RiskChecker) (env : Readings) : Bool :=
  risk.halted || (risk.hasHaltFlag && env.haltFlag)

def balance (risk : RiskChecker) (env : Readings) : ℚ :=
  if risk.hasBalanceSource then env.cash else risk.freeBalanceUsdt

/-- The balance gate of a Buy: the floor, then the notional with 0.1% headroom. -/
def balanceGate (risk : RiskChecker) (price qty : ℚ) (env : Readings) : Option RiskError :=
  let balance := risk.balance env
  if balance < risk.minFreeBalanceUsdt then
    some (.insufficientBalance balance risk.minFreeBalanceUsdt)
  else
    let notional := price * qty * (1001 / 1000)
    if notional > balance then some (.insufficientFunds notional balance) else none

/-- The price band, which only a positive reference price switches on. -/
def bandGate (risk : RiskChecker) (price midPrice : ℚ) : Option RiskError :=
  if midPrice > 0 then
    let pctDiff := |(price - midPrice) / midPrice| * 100
    if pctDiff > risk.priceBandPct then
      some (.fatFinger price midPrice pctDiff risk.priceBandPct)
    else none
  else none

/-- The approvals of the last second, `order_timestamps` after `retain`. -/
def recent (risk : RiskChecker) (now : Nat) : List Nat :=
  risk.orderTimestamps.filter fun t => now - t < 10 ^ 9

/-- Record an approval: the oldest id leaves a full window first. -/
def remember (risk : RiskChecker) (env : Readings) : RiskChecker :=
  let (ids, queue) :=
    if risk.seenOrderQueue.length ≥ maxSeenOrderIds then
      match risk.seenOrderQueue with
      | oldest :: rest => (risk.seenOrderIds.erase oldest, rest)
      | [] => (risk.seenOrderIds, [])
    else (risk.seenOrderIds, risk.seenOrderQueue)
  { risk with
    seenOrderIds := insert env.uuid ids
    seenOrderQueue := queue ++ [env.uuid]
    orderTimestamps := risk.orderTimestamps ++ [env.now] }

/-- The rate limit and the duplicate-id gate; approval is recorded here. -/
def register (risk : RiskChecker) (signal : Signal) (env : Readings) : CheckResult × RiskChecker :=
  -- the pruned window is kept even when the order is rejected below
  let risk := { risk with orderTimestamps := risk.recent env.now }
  let currentRate := risk.orderTimestamps.length
  if currentRate.toUInt32 ≥ risk.maxOrdersPerSec then
    (.err (.rateLimit currentRate risk.maxOrdersPerSec), risk)
  else if env.uuid ∈ risk.seenOrderIds then (.err (.duplicateOrderId env.uuid), risk)
  else (.ok { signal := signal, clientOrderId := env.uuid }, risk.remember env)

/-- The gates after the kill switch, for an order. -/
def checkOrder (risk : RiskChecker) (signal : Signal) (price qty : ℚ) (isBuy : Bool)
    (midPrice : ℚ) (env : Readings) : CheckResult × RiskChecker :=
  if qty > risk.maxOrderQty then (.err (.maxQtyExceeded qty risk.maxOrderQty), risk)
  else
    -- sells are exempt: a balance below the floor must not strand an open position
    match if isBuy then risk.balanceGate price qty env else none with
    | some e => (.err e, risk)
    | none =>
        match risk.bandGate price midPrice with
        | some e => (.err e, risk)
        | none => risk.register signal env

def check (risk : RiskChecker) (signal : Signal) (midPrice : ℚ) (env : Readings) :
    CheckResult × RiskChecker :=
  if risk.killed env then (.err .killSwitch, risk)
  else
    match signal with
    | .buy price qty => risk.checkOrder signal price qty true midPrice env
    | .sell price qty => risk.checkOrder signal price qty false midPrice env
    | .hold => (.panicked, risk)

/-! ## §2 What approval means -/

/-- **The conditions of approval**, one for each gate, on the checker and the readings before the
call. -/
structure Admits (risk : RiskChecker) (signal : Signal) (midPrice : ℚ) (env : Readings) : Prop where
  order : signal ≠ .hold
  running : risk.killed env = false
  size : signal.qty ≤ risk.maxOrderQty
  floor : signal.isBuy = true → risk.minFreeBalanceUsdt ≤ risk.balance env
  funds : signal.isBuy = true → signal.price * signal.qty * (1001 / 1000) ≤ risk.balance env
  band : 0 < midPrice → |(signal.price - midPrice) / midPrice| * 100 ≤ risk.priceBandPct
  rate : (risk.recent env.now).length.toUInt32 < risk.maxOrdersPerSec
  fresh : env.uuid ∉ risk.seenOrderIds

instance (risk : RiskChecker) (signal : Signal) (midPrice : ℚ) (env : Readings) :
    Decidable (risk.Admits signal midPrice env) :=
  decidable_of_iff (signal ≠ .hold ∧ risk.killed env = false ∧ signal.qty ≤ risk.maxOrderQty ∧
      (signal.isBuy = true → risk.minFreeBalanceUsdt ≤ risk.balance env) ∧
      (signal.isBuy = true → signal.price * signal.qty * (1001 / 1000) ≤ risk.balance env) ∧
      (0 < midPrice → |(signal.price - midPrice) / midPrice| * 100 ≤ risk.priceBandPct) ∧
      (risk.recent env.now).length.toUInt32 < risk.maxOrdersPerSec ∧
      env.uuid ∉ risk.seenOrderIds)
    ⟨fun ⟨h₁, h₂, h₃, h₄, h₅, h₆, h₇, h₈⟩ => ⟨h₁, h₂, h₃, h₄, h₅, h₆, h₇, h₈⟩,
      fun h => ⟨h.order, h.running, h.size, h.floor, h.funds, h.band, h.rate, h.fresh⟩⟩

/-- The checker after an approval. -/
def approved (risk : RiskChecker) (env : Readings) : RiskChecker :=
  { risk with orderTimestamps := risk.recent env.now }.remember env

/-- What the last two gates can answer, and when. -/
theorem register_cases (risk : RiskChecker) (signal : Signal) (env : Readings) :
    (risk.maxOrdersPerSec ≤ (risk.recent env.now).length.toUInt32 ∧
      risk.register signal env
        = (.err (.rateLimit (risk.recent env.now).length risk.maxOrdersPerSec),
          { risk with orderTimestamps := risk.recent env.now })) ∨
    ((risk.recent env.now).length.toUInt32 < risk.maxOrdersPerSec ∧ env.uuid ∈ risk.seenOrderIds ∧
      risk.register signal env
        = (.err (.duplicateOrderId env.uuid),
          { risk with orderTimestamps := risk.recent env.now })) ∨
    ((risk.recent env.now).length.toUInt32 < risk.maxOrdersPerSec ∧ env.uuid ∉ risk.seenOrderIds ∧
      risk.register signal env = (.ok ⟨signal, env.uuid⟩, risk.approved env)) := by
  unfold register
  dsimp only
  split
  · next hfull => exact Or.inl ⟨hfull, rfl⟩
  · next hroom =>
      split
      · next hseen => exact Or.inr (Or.inl ⟨UInt32.not_le.mp hroom, hseen, rfl⟩)
      · next hfresh => exact Or.inr (Or.inr ⟨UInt32.not_le.mp hroom, hfresh, rfl⟩)

theorem balanceGate_eq_none_iff {risk : RiskChecker} {price qty : ℚ} {env : Readings} :
    risk.balanceGate price qty env = none ↔
      risk.minFreeBalanceUsdt ≤ risk.balance env ∧
        price * qty * (1001 / 1000) ≤ risk.balance env := by
  simp only [balanceGate]
  split
  · next h => simp [not_le.mpr h]
  · next h =>
      split
      · next h' => simp [not_le.mpr h']
      · next h' => simp [not_lt.mp h, not_lt.mp h']

theorem bandGate_eq_none_iff {risk : RiskChecker} {price midPrice : ℚ} :
    risk.bandGate price midPrice = none ↔
      (0 < midPrice → |(price - midPrice) / midPrice| * 100 ≤ risk.priceBandPct) := by
  simp only [bandGate]
  split
  · next h =>
      split
      · next h' => simp [h, not_le.mpr h']
      · next h' => simp [not_lt.mp h']
  · next h => simp [h]

theorem register_eq_ok_iff {risk : RiskChecker} {signal : Signal} {env : Readings}
    {order : ValidatedOrder} {risk' : RiskChecker} :
    risk.register signal env = (.ok order, risk') ↔
      (risk.recent env.now).length.toUInt32 < risk.maxOrdersPerSec ∧
        env.uuid ∉ risk.seenOrderIds ∧ order = ⟨signal, env.uuid⟩ ∧ risk' = risk.approved env := by
  rcases risk.register_cases signal env with ⟨hfull, heq⟩ | ⟨_, hseen, heq⟩ | ⟨hroom, hfresh, heq⟩
  · rw [heq]
    simp [UInt32.not_lt.mpr hfull]
  · rw [heq]
    simp [hseen]
  · rw [heq]
    simp only [hroom, hfresh, not_false_eq_true, true_and, Prod.mk.injEq, CheckResult.ok.injEq]
    exact and_congr eq_comm eq_comm

theorem checkOrder_eq_ok_iff {risk : RiskChecker} {signal : Signal} {price qty : ℚ} {isBuy : Bool}
    {midPrice : ℚ} {env : Readings} {order : ValidatedOrder} {risk' : RiskChecker} :
    risk.checkOrder signal price qty isBuy midPrice env = (.ok order, risk') ↔
      qty ≤ risk.maxOrderQty ∧ (isBuy = true → risk.balanceGate price qty env = none) ∧
        risk.bandGate price midPrice = none ∧
        risk.register signal env = (.ok order, risk') := by
  unfold checkOrder
  split
  · next h => simp [not_le.mpr h]
  · next h =>
      have hsize := not_lt.mp h
      cases isBuy with
      | false => cases risk.bandGate price midPrice <;> simp [hsize]
      | true =>
          cases risk.balanceGate price qty env with
          | some e => simp
          | none => cases risk.bandGate price midPrice <;> simp [hsize]

/-- **Approval.**  `check` answers `Ok` exactly when every gate admits the order, and then it
returns the order under the fresh id and the checker that has recorded it. -/
theorem check_eq_ok_iff {risk : RiskChecker} {signal : Signal} {midPrice : ℚ} {env : Readings}
    {order : ValidatedOrder} {risk' : RiskChecker} :
    risk.check signal midPrice env = (.ok order, risk') ↔
      risk.Admits signal midPrice env ∧ order = ⟨signal, env.uuid⟩ ∧
        risk' = risk.approved env := by
  unfold check
  cases hk : risk.killed env with
  | true =>
      simp only [if_true, Prod.mk.injEq, reduceCtorEq, false_and, false_iff, not_and]
      intro h
      exact absurd h.running (by simp [hk])
  | false =>
      simp only [Bool.false_eq_true, if_false]
      cases signal with
      | buy price qty =>
          simp only [checkOrder_eq_ok_iff, balanceGate_eq_none_iff, bandGate_eq_none_iff,
            register_eq_ok_iff, forall_const]
          constructor
          · rintro ⟨hsize, ⟨hfloor, hfunds⟩, hband, hrate, hfresh, horder, hrisk⟩
            exact ⟨⟨by simp, hk, hsize, fun _ => hfloor, fun _ => hfunds, hband, hrate, hfresh⟩,
              horder, hrisk⟩
          · rintro ⟨h, horder, hrisk⟩
            exact ⟨h.size, ⟨h.floor rfl, h.funds rfl⟩, h.band, h.rate, h.fresh, horder, hrisk⟩
      | sell price qty =>
          simp only [checkOrder_eq_ok_iff, bandGate_eq_none_iff, register_eq_ok_iff,
            Bool.false_eq_true, false_implies, true_and]
          constructor
          · rintro ⟨hsize, hband, hrate, hfresh, horder, hrisk⟩
            exact ⟨⟨by simp, hk, hsize, nofun, nofun, hband, hrate, hfresh⟩, horder, hrisk⟩
          · rintro ⟨h, horder, hrisk⟩
            exact ⟨h.size, h.band, h.rate, h.fresh, horder, hrisk⟩
      | hold =>
          simp only [Prod.mk.injEq, reduceCtorEq, false_and, false_iff, not_and]
          intro h
          exact absurd rfl h.order

theorem check_of_admits {risk : RiskChecker} {signal : Signal} {midPrice : ℚ} {env : Readings}
    (h : risk.Admits signal midPrice env) :
    risk.check signal midPrice env = (.ok ⟨signal, env.uuid⟩, risk.approved env) :=
  check_eq_ok_iff.mpr ⟨h, rfl, rfl⟩

/-- Conversely, an order some gate refuses is not approved. -/
theorem check_ne_ok {risk : RiskChecker} {signal : Signal} {midPrice : ℚ} {env : Readings}
    (h : ¬ risk.Admits signal midPrice env) (order : ValidatedOrder) :
    (risk.check signal midPrice env).1 ≠ .ok order := by
  intro hok
  exact h (check_eq_ok_iff.mp (Prod.ext hok rfl)).1

/-! What the gates answer when they reject, and that no gate after the first answers
`KillSwitch`. -/

theorem balanceGate_error {risk : RiskChecker} {price qty : ℚ} {env : Readings} {e : RiskError}
    (h : risk.balanceGate price qty env = some e) :
    (∃ balance min, e = .insufficientBalance balance min) ∨
      ∃ notional balance, e = .insufficientFunds notional balance := by
  simp only [balanceGate] at h
  split at h
  · exact Or.inl ⟨_, _, (Option.some.inj h).symm⟩
  · split at h
    · exact Or.inr ⟨_, _, (Option.some.inj h).symm⟩
    · cases h

theorem bandGate_error {risk : RiskChecker} {price midPrice : ℚ} {e : RiskError}
    (h : risk.bandGate price midPrice = some e) :
    ∃ pct, e = .fatFinger price midPrice pct risk.priceBandPct := by
  simp only [bandGate] at h
  split at h
  · split at h
    · exact ⟨_, (Option.some.inj h).symm⟩
    · cases h
  · cases h

theorem register_error {risk : RiskChecker} {signal : Signal} {env : Readings} {e : RiskError}
    (h : (risk.register signal env).1 = .err e) :
    (∃ current, e = .rateLimit current risk.maxOrdersPerSec) ∨ e = .duplicateOrderId env.uuid := by
  rcases risk.register_cases signal env with ⟨_, heq⟩ | ⟨_, _, heq⟩ | ⟨_, _, heq⟩
  · rw [heq, CheckResult.err.injEq] at h
    exact Or.inl ⟨_, h.symm⟩
  · rw [heq, CheckResult.err.injEq] at h
    exact Or.inr h.symm
  · rw [heq] at h
    cases h

theorem register_ne_killSwitch (risk : RiskChecker) (signal : Signal) (env : Readings) :
    (risk.register signal env).1 ≠ .err .killSwitch := by
  intro h
  rcases register_error h with ⟨current, h⟩ | h
  · cases h
  · cases h

theorem checkOrder_ne_killSwitch (risk : RiskChecker) (signal : Signal) (price qty : ℚ)
    (isBuy : Bool) (midPrice : ℚ) (env : Readings) :
    (risk.checkOrder signal price qty isBuy midPrice env).1 ≠ .err .killSwitch := by
  unfold checkOrder
  split
  · simp
  · split
    · next e he =>
        intro h
        rw [CheckResult.err.injEq] at h
        subst h
        cases isBuy with
        | false => cases he
        | true =>
            rcases balanceGate_error he with ⟨balance, min, h⟩ | ⟨notional, balance, h⟩
            · cases h
            · cases h
    · split
      · next e he =>
          intro h
          rw [CheckResult.err.injEq] at h
          obtain ⟨pct, hpct⟩ := bandGate_error he
          rw [h] at hpct
          cases hpct
      · exact risk.register_ne_killSwitch signal env

/-- `check` answers `KillSwitch` exactly when the kill switch is on. -/
theorem check_eq_killSwitch_iff {risk : RiskChecker} {signal : Signal} {midPrice : ℚ}
    {env : Readings} :
    (risk.check signal midPrice env).1 = .err .killSwitch ↔ risk.killed env = true := by
  unfold check
  cases risk.killed env with
  | true => simp
  | false =>
      simp only [Bool.false_eq_true, if_false, iff_false]
      cases signal with
      | buy price qty => exact risk.checkOrder_ne_killSwitch _ price qty true midPrice env
      | sell price qty => exact risk.checkOrder_ne_killSwitch _ price qty false midPrice env
      | hold => simp

/-! ## §3 What a check leaves alone -/

/-- Two checkers that differ in their memory of past orders only. -/
def SameSettings (risk risk' : RiskChecker) : Prop :=
  ∃ ids queue timestamps, risk' =
    { risk with seenOrderIds := ids, seenOrderQueue := queue, orderTimestamps := timestamps }

theorem SameSettings.refl (risk : RiskChecker) : risk.SameSettings risk := ⟨_, _, _, rfl⟩

theorem register_sameSettings (risk : RiskChecker) (signal : Signal) (env : Readings) :
    risk.SameSettings (risk.register signal env).2 := by
  rcases risk.register_cases signal env with ⟨_, heq⟩ | ⟨_, _, heq⟩ | ⟨_, _, heq⟩
  · rw [heq]
    exact ⟨_, _, _, rfl⟩
  · rw [heq]
    exact ⟨_, _, _, rfl⟩
  · rw [heq]
    exact ⟨_, _, _, rfl⟩

/-- A check changes nothing but the memory of past orders. -/
theorem check_sameSettings (risk : RiskChecker) (signal : Signal) (midPrice : ℚ)
    (env : Readings) : risk.SameSettings (risk.check signal midPrice env).2 := by
  have horder : ∀ price qty isBuy,
      risk.SameSettings (risk.checkOrder signal price qty isBuy midPrice env).2 := by
    intro price qty isBuy
    unfold checkOrder
    split
    · exact .refl risk
    · split
      · exact .refl risk
      · split
        · exact .refl risk
        · exact risk.register_sameSettings signal env
  unfold check
  split
  · exact .refl risk
  · cases signal with
    | buy price qty => exact horder price qty true
    | sell price qty => exact horder price qty false
    | hold => exact .refl risk

end RiskChecker

end CryptoTrader
