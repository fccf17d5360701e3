/-
# CryptoTrader.Lib.FifoLedger — the cumulative-cost FIFO ledger over any linearly ordered ring.

A lot is a pair (price, quantity).  Buying appends a lot; selling consumes units from the front.
The ledger here never edits a lot: it keeps the whole buying history and ONE number, the quantity
matched so far.  What is open is then `dropUnits bought matched` (the history with its first
`matched` units removed) and what the matched units cost is `cost bought matched`.  A program that
edits a queue in place is right when its queue and its accumulators are these functions of the
history, which is what `Ledger.openLots` and `Ledger.realized` are for.

The lemmas come in two layers: how `cost` and `dropUnits` behave on a list of lots (splitting an
amount, appending a lot, conservation of quantity), and from them how `buy` and `sell` move the
open lots, the realized profit and the open quantity.
-/
import Mathlib.Algebra.Order.Ring.Defs
import Mathlib.Algebra.BigOperators.Group.List.Basic
import Mathlib.Tactic.Linarith
import Mathlib.Tactic.Ring

namespace CryptoTrader.Lib.FifoLedger

variable {K : Type} [CommRing K]

/-! ## §1 Lots -/

/-- Total quantity of a list of lots. -/
def total (lots : List (K × K)) : K := (lots.map Prod.snd).sum

/-- Total notional of a list of lots. -/
def notional (lots : List (K × K)) : K := (lots.map fun l => l.1 * l.2).sum

@[simp] theorem total_nil : total ([] : List (K × K)) = 0 := rfl

@[simp] theorem total_cons (p q : K) (rest : List (K × K)) :
    total ((p, q) :: rest) = q + total rest := rfl

theorem total_append (xs ys : List (K × K)) : total (xs ++ ys) = total xs + total ys := by
  rw [total, List.map_append, List.sum_append, total, total]

@[simp] theorem notional_nil : notional ([] : List (K × K)) = 0 := rfl

@[simp] theorem notional_cons (p q : K) (rest : List (K × K)) :
    notional ((p, q) :: rest) = p * q + notional rest := rfl

theorem notional_append (xs ys : List (K × K)) :
    notional (xs ++ ys) = notional xs + notional ys := by
  rw [notional, List.map_append, List.sum_append, notional, notional]

variable [LinearOrder K]

/-- What the first `x` units of the lots cost. -/
def cost : List (K × K) → K → K
  | [], _ => 0
  | (p, q) :: rest, x => if x < q then p * x else p * q + cost rest (x - q)

/-- The lots with their first `x` units removed. -/
def dropUnits : List (K × K) → K → List (K × K)
  | [], _ => []
  | (p, q) :: rest, x => if x < q then (p, q - x) :: rest else dropUnits rest (x - q)

/-- Every lot holds a positive quantity. -/
def Open (lots : List (K × K)) : Prop := ∀ l ∈ lots, 0 < l.2

theorem open_cons {p q : K} {rest : List (K × K)} (h : Open ((p, q) :: rest)) :
    0 < q ∧ Open rest :=
  ⟨h (p, q) List.mem_cons_self, fun l hl => h l (List.mem_cons_of_mem _ hl)⟩

theorem open_append {xs ys : List (K × K)} (hx : Open xs) (hy : Open ys) : Open (xs ++ ys) :=
  fun l hl => (List.mem_append.mp hl).elim (hx l) (hy l)

theorem open_singleton {p q : K} (hq : 0 < q) : Open [(p, q)] := by
  intro l hl
  rw [List.mem_singleton.mp hl]
  exact hq

theorem dropUnits_zero {lots : List (K × K)} (h : Open lots) : dropUnits lots 0 = lots := by
  cases lots with
  | nil => rfl
  | cons l rest => rw [dropUnits, if_pos (open_cons h).1, sub_zero]

theorem cost_zero {lots : List (K × K)} (h : Open lots) : cost lots 0 = 0 := by
  cases lots with
  | nil => rfl
  | cons l rest => rw [cost, if_pos (open_cons h).1, mul_zero]

variable [IsStrictOrderedRing K]

theorem total_nonneg {lots : List (K × K)} (h : ∀ l ∈ lots, 0 ≤ l.2) : 0 ≤ total lots := by
  induction lots with
  | nil => exact le_refl _
  | cons l rest ih =>
      exact add_nonneg (h l List.mem_cons_self) (ih fun m hm => h m (List.mem_cons_of_mem _ hm))

theorem Open.total_nonneg {lots : List (K × K)} (h : Open lots) : 0 ≤ total lots :=
  FifoLedger.total_nonneg fun l hl => (h l hl).le

theorem open_dropUnits {lots : List (K × K)} (h : Open lots) (x : K) :
    Open (dropUnits lots x) := by
  induction lots generalizing x with
  | nil => exact h
  | cons l rest ih =>
      obtain ⟨p, q⟩ := l
      obtain ⟨_, hrest⟩ := open_cons h
      rw [dropUnits]
      split
      · next hx =>
          intro m hm
          rcases List.mem_cons.mp hm with rfl | hm
          · exact sub_pos.mpr hx
          · exact hrest m hm
      · exact ih hrest _

/-- Removing units leaves the rest of the quantity. -/
theorem total_dropUnits {lots : List (K × K)} {x : K} (hx : 0 ≤ x) (hle : x ≤ total lots) :
    total (dropUnits lots x) = total lots - x := by
  induction lots generalizing x with
  | nil => rw [dropUnits, le_antisymm hle hx, total_nil, sub_zero]
  | cons l rest ih =>
      obtain ⟨p, q⟩ := l
      rw [total_cons] at hle
      rw [dropUnits]
      split
      · rw [total_cons, total_cons]
        ring
      · next hq =>
          rw [ih (by linarith) (by linarith), total_cons]
          ring

/-- Dropping in two goes is dropping the sum. -/
theorem dropUnits_add {lots : List (K × K)} (h : Open lots) {x y : K} (hy : 0 ≤ y) :
    dropUnits (dropUnits lots x) y = dropUnits lots (x + y) := by
  induction lots generalizing x with
  | nil => rfl
  | cons l rest ih =>
      obtain ⟨p, q⟩ := l
      obtain ⟨_, hrest⟩ := open_cons h
      rw [dropUnits]
      split
      · next hx =>
          rw [dropUnits, dropUnits]
          by_cases hxy : x + y < q
          · rw [if_pos hxy, if_pos (by linarith), show q - x - y = q - (x + y) by ring]
          · rw [if_neg hxy, if_neg (by linarith), show y - (q - x) = x + y - q by ring]
      · next hx =>
          rw [ih hrest, dropUnits, if_neg (by linarith), show x - q + y = x + y - q by ring]

/-- The cost of an amount splits at any point of it. -/
theorem cost_add {lots : List (K × K)} (h : Open lots) {x y : K} (hy : 0 ≤ y) :
    cost lots (x + y) = cost lots x + cost (dropUnits lots x) y := by
  induction lots generalizing x with
  | nil => exact (add_zero _).symm
  | cons l rest ih =>
      obtain ⟨p, q⟩ := l
      obtain ⟨_, hrest⟩ := open_cons h
      rw [cost, cost, dropUnits]
      by_cases hx : x < q
      · rw [if_pos hx, if_pos hx, cost]
        by_cases hxy : x + y < q
        · rw [if_pos hxy, if_pos (by linarith)]
          ring
        · rw [if_neg hxy, if_neg (by linarith), show y - (q - x) = x + y - q by ring]
          ring
      · rw [if_neg hx, if_neg hx, if_neg (by linarith : ¬ x + y < q),
          show x + y - q = x - q + y by ring, ih hrest]
        ring

/-- A lot bought later does not move what is dropped from the earlier ones. -/
theorem dropUnits_append {lots later : List (K × K)} (hlater : Open later) {x : K} (hx : 0 ≤ x)
    (hle : x ≤ total lots) : dropUnits (lots ++ later) x = dropUnits lots x ++ later := by
  induction lots generalizing x with
  | nil =>
      rw [le_antisymm hle hx, List.nil_append, dropUnits, List.nil_append]
      exact dropUnits_zero hlater
  | cons l rest ih =>
      obtain ⟨p, q⟩ := l
      rw [total_cons] at hle
      rw [List.cons_append, dropUnits, dropUnits]
      split
      · rfl
      · next hq => exact ih (by linarith) (by linarith)

/-- Nor what the first units cost. -/
theorem cost_append {lots later : List (K × K)} (hlater : Open later) {x : K} (hx : 0 ≤ x)
    (hle : x ≤ total lots) : cost (lots ++ later) x = cost lots x := by
  induction lots generalizing x with
  | nil =>
      rw [le_antisymm hle hx, List.nil_append]
      exact cost_zero hlater
  | cons l rest ih =>
      obtain ⟨p, q⟩ := l
      rw [total_cons] at hle
      rw [List.cons_append, cost, cost]
      split
      · rfl
      · next hq => rw [ih (by linarith) (by linarith)]

/-! ## §2 The ledger -/

/-- The ledger of a history: every lot ever bought, the quantity matched so far, what the matched
units were sold for, and the fill of each sell in order. -/
structure Ledger (K : Type) where
  bought : List (K × K)
  matched : K
  proceeds : K
  fills : List K

namespace Ledger

def empty : Ledger K := ⟨[], 0, 0, []⟩

def buy (L : Ledger K) (price qty : K) : Ledger K :=
  { L with bought := L.bought ++ [(price, qty)] }

/-- A sell is filled up to what is still open. -/
def sell (L : Ledger K) (price qty : K) : Ledger K :=
  let m := min qty (total L.bought - L.matched)
  { L with
    matched := L.matched + m
    proceeds := L.proceeds + price * m
    fills := L.fills ++ [m] }

/-- The buys with the units matched so far removed. -/
def openLots (L : Ledger K) : List (K × K) := dropUnits L.bought L.matched

/-- Profit on the units matched so far. -/
def realized (L : Ledger K) : K := L.proceeds - cost L.bought L.matched

/-- The well-formed ledgers: positive lots, and no more matched than bought. -/
structure Valid (L : Ledger K) : Prop where
  lots_open : Open L.bought
  matched_nonneg : 0 ≤ L.matched
  matched_le : L.matched ≤ total L.bought

omit [IsStrictOrderedRing K] in
theorem valid_empty : (empty : Ledger K).Valid where
  lots_open := fun _ hl => absurd hl List.not_mem_nil
  matched_nonneg := le_refl _
  matched_le := le_refl _

variable {L : Ledger K}

theorem Valid.buy (h : L.Valid) {price qty : K} (hq : 0 < qty) : (L.buy price qty).Valid where
  lots_open := open_append h.lots_open (open_singleton hq)
  matched_nonneg := h.matched_nonneg
  matched_le := by
    show L.matched ≤ total (L.bought ++ [(price, qty)])
    rw [total_append, total_cons, total_nil]
    have := h.matched_le
    linarith

theorem Valid.fill_nonneg (h : L.Valid) {qty : K} (hq : 0 ≤ qty) :
    0 ≤ min qty (total L.bought - L.matched) :=
  le_min hq (sub_nonneg.mpr h.matched_le)

theorem Valid.sell (h : L.Valid) {price qty : K} (hq : 0 ≤ qty) : (L.sell price qty).Valid where
  lots_open := h.lots_open
  matched_nonneg := add_nonneg h.matched_nonneg (h.fill_nonneg hq)
  matched_le := by
    show L.matched + min qty (total L.bought - L.matched) ≤ total L.bought
    have := min_le_right qty (total L.bought - L.matched)
    linarith

theorem Valid.openLots_open (h : L.Valid) : Open L.openLots :=
  open_dropUnits h.lots_open L.matched

/-- What is open is what was bought and not yet matched. -/
theorem Valid.total_openLots (h : L.Valid) : total L.openLots = total L.bought - L.matched :=
  total_dropUnits h.matched_nonneg h.matched_le

/-- A buy adds its lot at the back of the open lots. -/
theorem Valid.openLots_buy (h : L.Valid) {price qty : K} (hq : 0 < qty) :
    (L.buy price qty).openLots = L.openLots ++ [(price, qty)] :=
  dropUnits_append (open_singleton hq) h.matched_nonneg h.matched_le

theorem Valid.realized_buy (h : L.Valid) {price qty : K} (hq : 0 < qty) :
    (L.buy price qty).realized = L.realized := by
  show L.proceeds - cost (L.bought ++ [(price, qty)]) L.matched = _
  rw [cost_append (open_singleton hq) h.matched_nonneg h.matched_le]
  rfl

/-- A sell removes its fill from the front of the open lots. -/
theorem Valid.openLots_sell (h : L.Valid) {price qty : K} (hq : 0 ≤ qty) :
    (L.sell price qty).openLots = dropUnits L.openLots (min qty (total L.openLots)) := by
  rw [h.total_openLots]
  exact (dropUnits_add h.lots_open (h.fill_nonneg hq)).symm

/-- A sell realizes its proceeds less the cost of the units it removes. -/
theorem Valid.realized_sell (h : L.Valid) {price qty : K} (hq : 0 ≤ qty) :
    (L.sell price qty).realized =
      L.realized + (price * min qty (total L.openLots)
        - cost L.openLots (min qty (total L.openLots))) := by
  rw [h.total_openLots]
  show L.proceeds + price * min qty (total L.bought - L.matched)
      - cost L.bought (L.matched + min qty (total L.bought - L.matched)) = _
  rw [cost_add h.lots_open (h.fill_nonneg hq), realized, openLots]
  ring

theorem Valid.fills_sell (h : L.Valid) {price qty : K} :
    (L.sell price qty).fills = L.fills ++ [min qty (total L.openLots)] := by
  rw [h.total_openLots]
  rfl

end Ledger

end CryptoTrader.Lib.FifoLedger
