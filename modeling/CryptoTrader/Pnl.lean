/-
# CryptoTrader.Pnl — the FIFO profit tracker and the paper account.

The functions of `pnl.rs`.  `FifoPnl` keeps a queue of open lots (price, remaining quantity) and
matches each sell against its front in an in-place loop; `PaperAccount` wraps it with cash and
fees.  `VecDeque` is a list with its front at the head.

`sellLoop` is the `while` loop of `on_sell`, by recursion on the queue.  Its last branch stops
instead of looping again: a lot is only kept when `matched = remaining`, and then the loop test
fails at once.  `sellLoop_unroll` states that as the unrolling equation of the `while`.
-/
import CryptoTrader.Types
import CryptoTrader.Lib.FifoLedger

namespace CryptoTrader

open Lib

/-- `QTY_EPSILON` -/
def qtyEpsilon : ℚ := 1 / 10 ^ 10

theorem qtyEpsilon_pos : 0 < qtyEpsilon := by unfold qtyEpsilon; norm_num

/-! ## §1 `FifoPnl` -/

structure FifoPnl where
  /-- (price, remaining quantity), oldest first -/
  buyQueue : List (ℚ × ℚ)
  realizedPnl : ℚ
  buyNotional : ℚ
  deriving DecidableEq

/-- The matching loop of `on_sell`, from a queue, the quantity still to sell and the profit so
far. -/
def sellLoop (price : ℚ) : List (ℚ × ℚ) → ℚ → ℚ → List (ℚ × ℚ) × ℚ × ℚ
  | [], remaining, realized => ([], remaining, realized)
  | (buyPrice, buyQty) :: rest, remaining, realized =>
      if remaining > qtyEpsilon then
        let matched := min remaining buyQty
        let realized := realized + (price - buyPrice) * matched
        let left := buyQty - matched
        let remaining := remaining - matched
        -- used up, or down to dust: `pop_front`, with whatever is left of it
        if left ≤ qtyEpsilon then sellLoop price rest remaining realized
        else ((buyPrice, left) :: rest, remaining, realized)
      else ((buyPrice, buyQty) :: rest, remaining, realized)

/-- One pass of the body of the loop: match the front lot and pop it when (almost) used up. -/
def sellStep (price : ℚ) : List (ℚ × ℚ) × ℚ × ℚ → List (ℚ × ℚ) × ℚ × ℚ
  | ([], remaining, realized) => ([], remaining, realized)
  | ((buyPrice, buyQty) :: rest, remaining, realized) =>
      let matched := min remaining buyQty
      let left := buyQty - matched
      (if left ≤ qtyEpsilon then rest else (buyPrice, left) :: rest,
        remaining - matched, realized + (price - buyPrice) * matched)

theorem sellLoop_of_le {price remaining : ℚ} (h : remaining ≤ qtyEpsilon)
    (queue : List (ℚ × ℚ)) (realized : ℚ) :
    sellLoop price queue remaining realized = (queue, remaining, realized) := by
  cases queue with
  | nil => rfl
  | cons lot rest => rw [sellLoop, if_neg (not_lt.mpr h)]

/-- **The loop is the `while` of the source**: it stops when nothing is left to sell or no lot is
left, and otherwise it is one pass of the body followed by the loop. -/
theorem sellLoop_unroll (price : ℚ) (queue : List (ℚ × ℚ)) (remaining realized : ℚ) :
    sellLoop price queue remaining realized =
      if remaining > qtyEpsilon ∧ queue ≠ [] then
        let next := sellStep price (queue, remaining, realized)
        sellLoop price next.1 next.2.1 next.2.2
      else (queue, remaining, realized) := by
  cases queue with
  | nil => simp [sellLoop]
  | cons lot rest =>
      obtain ⟨buyPrice, buyQty⟩ := lot
      by_cases hr : remaining > qtyEpsilon
      · have htest : remaining > qtyEpsilon ∧ (buyPrice, buyQty) :: rest ≠ [] :=
          ⟨hr, List.cons_ne_nil _ _⟩
        rw [if_pos htest, sellLoop, if_pos hr]
        by_cases hleft : buyQty - min remaining buyQty ≤ qtyEpsilon
        · simp only [sellStep, hleft, if_true]
        · -- the lot stays, so `matched = remaining` and the next test fails
          have hzero : remaining - min remaining buyQty ≤ qtyEpsilon := by
            rcases min_choice remaining buyQty with h | h <;> rw [h] at hleft ⊢
            · linarith [qtyEpsilon_pos]
            · linarith [qtyEpsilon_pos]
          simp only [sellStep, hleft, if_false]
          rw [sellLoop_of_le hzero]
      · rw [sellLoop, if_neg hr, if_neg fun h => hr h.1]

namespace FifoPnl

def new : FifoPnl where
  buyQueue := []
  realizedPnl := 0
  buyNotional := 0

def onBuy (pnl : FifoPnl) (price qty : ℚ) : FifoPnl :=
  { pnl with
    buyQueue := pnl.buyQueue ++ [(price, qty)]
    buyNotional := pnl.buyNotional + price * qty }

/-- Returns the quantity matched against open buys and the new tracker. -/
def onSell (pnl : FifoPnl) (price qty : ℚ) : ℚ × FifoPnl :=
  let (buyQueue, remaining, realizedPnl) := sellLoop price pnl.buyQueue qty pnl.realizedPnl
  (qty - remaining, { pnl with buyQueue := buyQueue, realizedPnl := realizedPnl })

def positionQty (pnl : FifoPnl) : ℚ := (pnl.buyQueue.map fun lot => lot.2).sum

/-- Cost basis of the open position. -/
def positionNotional (pnl : FifoPnl) : ℚ := (pnl.buyQueue.map fun lot => lot.1 * lot.2).sum

def avgEntryPrice (pnl : FifoPnl) : Option ℚ :=
  let qty := pnl.positionQty
  if qty > qtyEpsilon then some (pnl.positionNotional / qty) else none

def unrealizedPnl (pnl : FifoPnl) (markPrice : ℚ) : ℚ :=
  (pnl.buyQueue.map fun lot => (markPrice - lot.1) * lot.2).sum

theorem positionQty_eq (pnl : FifoPnl) : pnl.positionQty = FifoLedger.total pnl.buyQueue := rfl

theorem positionNotional_eq (pnl : FifoPnl) :
    pnl.positionNotional = FifoLedger.notional pnl.buyQueue := rfl

/-- Marking the position to market is quantity times mark, less the cost basis. -/
theorem unrealizedPnl_eq (pnl : FifoPnl) (markPrice : ℚ) :
    pnl.unrealizedPnl markPrice = markPrice * pnl.positionQty - pnl.positionNotional := by
  rw [positionQty_eq, positionNotional_eq, unrealizedPnl]
  induction pnl.buyQueue with
  | nil => simp
  | cons lot rest ih =>
      obtain ⟨p, q⟩ := lot
      rw [List.map_cons, List.sum_cons, ih, FifoLedger.total_cons, FifoLedger.notional_cons]
      ring

/-! No fill with a non-negative quantity, and no sell at all, makes a lot short. -/

theorem onBuy_lots_nonneg {pnl : FifoPnl} (hlots : ∀ lot ∈ pnl.buyQueue, 0 ≤ lot.2) (price : ℚ)
    {qty : ℚ} (hq : 0 ≤ qty) : ∀ lot ∈ (pnl.onBuy price qty).buyQueue, 0 ≤ lot.2 := by
  intro lot hlot
  rcases List.mem_append.mp hlot with hlot | hlot
  · exact hlots lot hlot
  · rw [List.mem_singleton.mp hlot]
    exact hq

theorem sellLoop_lots_nonneg (price : ℚ) {queue : List (ℚ × ℚ)}
    (hlots : ∀ lot ∈ queue, 0 ≤ lot.2) (remaining realized : ℚ) :
    ∀ lot ∈ (sellLoop price queue remaining realized).1, 0 ≤ lot.2 := by
  induction queue generalizing remaining realized with
  | nil => exact hlots
  | cons front rest ih =>
      obtain ⟨buyPrice, buyQty⟩ := front
      have hrest : ∀ lot ∈ rest, 0 ≤ lot.2 := fun lot hlot =>
        hlots lot (List.mem_cons_of_mem _ hlot)
      simp only [sellLoop]
      split
      · split
        · exact ih hrest _ _
        · next hkept =>
            -- a kept lot holds more than epsilon
            intro lot hlot
            rcases List.mem_cons.mp hlot with rfl | hlot
            · exact (qtyEpsilon_pos.trans (not_le.mp hkept)).le
            · exact hrest lot hlot
      · exact hlots

theorem onSell_lots_nonneg {pnl : FifoPnl} (hlots : ∀ lot ∈ pnl.buyQueue, 0 ≤ lot.2)
    (price qty : ℚ) : ∀ lot ∈ (pnl.onSell price qty).2.buyQueue, 0 ≤ lot.2 :=
  sellLoop_lots_nonneg price hlots qty pnl.realizedPnl

theorem positionQty_nonneg {pnl : FifoPnl} (hlots : ∀ lot ∈ pnl.buyQueue, 0 ≤ lot.2) :
    0 ≤ pnl.positionQty := by
  apply List.sum_nonneg
  intro q hq
  obtain ⟨lot, hlot, rfl⟩ := List.mem_map.mp hq
  exact hlots lot hlot

end FifoPnl

/-! ## §2 `PaperAccount` -/

structure PaperAccount where
  pnl : FifoPnl
  initialCapital : ℚ
  cash : ℚ
  feePct : ℚ
  totalFees : ℚ
  deriving DecidableEq

namespace PaperAccount

def new (initialCapital feePct : ℚ) : PaperAccount where
  pnl := FifoPnl.new
  initialCapital := initialCapital
  cash := initialCapital
  feePct := feePct
  totalFees := 0

def onBuy (acct : PaperAccount) (price qty : ℚ) : PaperAccount :=
  let notional := price * qty
  let fee := notional * acct.feePct / 100
  { acct with
    pnl := acct.pnl.onBuy price qty
    cash := acct.cash - (notional + fee)
    totalFees := acct.totalFees + fee }

/-- Credits cash for the matched quantity only; a match of at most `QTY_EPSILON` returns early,
after the tracker has been updated. -/
def onSell (acct : PaperAccount) (price qty : ℚ) : PaperAccount :=
  let (matched, pnl) := acct.pnl.onSell price qty
  if matched ≤ qtyEpsilon then { acct with pnl := pnl }
  else
    let notional := price * matched
    let fee := notional * acct.feePct / 100
    { acct with
      pnl := pnl
      cash := acct.cash + (notional - fee)
      totalFees := acct.totalFees + fee }

/-- A sell in one equation: the tracker takes it whole, and cash and fees move only for a match
above epsilon. -/
theorem onSell_eq (acct : PaperAccount) (price qty : ℚ) :
    acct.onSell price qty =
      let matched := (acct.pnl.onSell price qty).1
      let fee := price * matched * acct.feePct / 100
      { acct with
        pnl := (acct.pnl.onSell price qty).2
        cash := if matched ≤ qtyEpsilon then acct.cash else acct.cash + (price * matched - fee)
        totalFees := if matched ≤ qtyEpsilon then acct.totalFees else acct.totalFees + fee } := by
  by_cases h : (acct.pnl.onSell price qty).1 ≤ qtyEpsilon
  · simp only [onSell, h, if_true]
  · simp only [onSell, h, if_false]

theorem onSell_pnl (acct : PaperAccount) (price qty : ℚ) :
    (acct.onSell price qty).pnl = (acct.pnl.onSell price qty).2 := by rw [onSell_eq]

theorem onSell_initialCapital (acct : PaperAccount) (price qty : ℚ) :
    (acct.onSell price qty).initialCapital = acct.initialCapital := by rw [onSell_eq]

theorem onSell_feePct (acct : PaperAccount) (price qty : ℚ) :
    (acct.onSell price qty).feePct = acct.feePct := by rw [onSell_eq]

/-- Cash plus the position at the mark, or at its cost basis without one. -/
def equity (acct : PaperAccount) (markPrice : Option ℚ) : ℚ :=
  let positionValue := match markPrice with
    | some m => acct.pnl.positionQty * m
    | none => acct.pnl.positionNotional
  acct.cash + positionValue

def returnOnCapitalPct (acct : PaperAccount) (markPrice : Option ℚ) : ℚ :=
  if acct.initialCapital > 0 then
    (acct.equity markPrice - acct.initialCapital) / acct.initialCapital * 100
  else 0

end PaperAccount

/-! ## §3 Histories of fills -/

/-- A fill as the trackers see it. -/
inductive Fill where
  | buy (price qty : ℚ)
  | sell (price qty : ℚ)
  deriving DecidableEq

namespace Fill

def price : Fill → ℚ
  | buy p _ => p
  | sell p _ => p

def qty : Fill → ℚ
  | buy _ q => q
  | sell _ q => q

/-- The lots a history buys, in order. -/
def bought : List Fill → List (ℚ × ℚ)
  | [] => []
  | buy p q :: fills => (p, q) :: bought fills
  | sell _ _ :: fills => bought fills

/-- The prices of its sells, in order. -/
def sellPrices : List Fill → List ℚ
  | [] => []
  | buy _ _ :: fills => sellPrices fills
  | sell p _ :: fills => p :: sellPrices fills

/-- The number of sells of a history. -/
def sellCount : List Fill → Nat
  | [] => 0
  | buy _ _ :: fills => sellCount fills
  | sell _ _ :: fills => sellCount fills + 1

end Fill

/-- The tracker after a history of fills, with what each sell returned. -/
def FifoPnl.run (pnl : FifoPnl) (returned : List ℚ) : List Fill → FifoPnl × List ℚ
  | [] => (pnl, returned)
  | .buy p q :: fills => (pnl.onBuy p q).run returned fills
  | .sell p q :: fills =>
      let (m, pnl) := pnl.onSell p q
      pnl.run (returned ++ [m]) fills

/-- The account after one fill. -/
def PaperAccount.applyFill (acct : PaperAccount) : Fill → PaperAccount
  | .buy p q => acct.onBuy p q
  | .sell p q => acct.onSell p q

/-- The account after a history of fills. -/
def PaperAccount.run (acct : PaperAccount) (fills : List Fill) : PaperAccount :=
  fills.foldl applyFill acct

end CryptoTrader
