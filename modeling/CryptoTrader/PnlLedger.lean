/-
# CryptoTrader.PnlLedger — the in-place trackers against the cumulative-cost ledger.

Two questions about the matching loop, answered by two inductions over the queue.

* On quantities that are multiples of one step above `QTY_EPSILON` the loop is exact:
  `sellLoop_eq` gives its result as `dropUnits` and `cost` of the queue, and
  `fifoPnl_refines_ledger` carries that over whole histories to the ledger of `FifoLedger`.
* On arbitrary non-negative quantities it may lose dust: `sellLoop_accounts` is the books of one
  run of the loop, with the quantity and the cost basis of the (at most one) lot it drops with a
  residue.  From it come the bounds on the quantity (`fifoPnl_refines_ledger`) and on the money
  (`equity_identity`) after any number of sells.
-/
import CryptoTrader.Pnl

namespace CryptoTrader.PnlLedger

open Lib FifoLedger

/-! ## §1 Quantities on a step -/

/-- A multiple of the step `δ`. -/
def OnStep (δ x : ℚ) : Prop := ∃ n : ℕ, x = n * δ

variable {δ x y : ℚ}

theorem OnStep.zero : OnStep δ 0 := ⟨0, by simp⟩

theorem OnStep.sub (hδ : 0 < δ) (hx : OnStep δ x) (hy : OnStep δ y) (hle : y ≤ x) :
    OnStep δ (x - y) := by
  obtain ⟨m, rfl⟩ := hx
  obtain ⟨n, rfl⟩ := hy
  have hnm : n ≤ m := by exact_mod_cast le_of_mul_le_mul_right hle hδ
  exact ⟨m - n, by rw [Nat.cast_sub hnm]; ring⟩

theorem OnStep.nonneg (hδ : 0 < δ) (hx : OnStep δ x) : 0 ≤ x := by
  obtain ⟨n, rfl⟩ := hx
  positivity

/-- A positive multiple is at least one step. -/
theorem OnStep.le_of_pos (hδ : 0 < δ) (hx : OnStep δ x) (hpos : 0 < x) : δ ≤ x := by
  obtain ⟨n, rfl⟩ := hx
  have hn : 1 ≤ n := by
    rcases Nat.eq_zero_or_pos n with rfl | h
    · simp at hpos
    · exact h
  have hcast : (1 : ℚ) ≤ n := by exact_mod_cast hn
  nlinarith

/-- On a step above `QTY_EPSILON`, being within epsilon of zero is being zero. -/
theorem OnStep.eq_zero_of_le (hδ : qtyEpsilon < δ) (hx : OnStep δ x) (hle : x ≤ qtyEpsilon) :
    x = 0 := by
  have hδ0 : 0 < δ := qtyEpsilon_pos.trans hδ
  rcases (hx.nonneg hδ0).eq_or_lt with h | h
  · exact h.symm
  · have := hx.le_of_pos hδ0 h
    linarith

/-! ## §2 The loop on a step -/

/-- **The exact loop.**  Positive lots and a sell on one step above epsilon: the loop removes
`m = min remaining total` units from the front and realizes their proceeds less their cost. -/
theorem sellLoop_eq (hδ : qtyEpsilon < δ) (price : ℚ) {queue : List (ℚ × ℚ)}
    (hopen : Open queue) (hstep : ∀ l ∈ queue, OnStep δ l.2) {remaining : ℚ}
    (hr : OnStep δ remaining) (realized : ℚ) :
    let m := min remaining (total queue)
    sellLoop price queue remaining realized
      = (dropUnits queue m, remaining - m, realized + (price * m - cost queue m)) := by
  have hδ0 : 0 < δ := qtyEpsilon_pos.trans hδ
  induction queue generalizing remaining realized with
  | nil =>
      have hm : min remaining 0 = 0 := min_eq_right (hr.nonneg hδ0)
      simp [sellLoop, hm, dropUnits, cost]
  | cons lot rest ih =>
      obtain ⟨p, q⟩ := lot
      obtain ⟨hq, hrest⟩ := open_cons hopen
      have hqstep : OnStep δ q := hstep (p, q) List.mem_cons_self
      have hreststep : ∀ l ∈ rest, OnStep δ l.2 := fun l hl =>
        hstep l (List.mem_cons_of_mem _ hl)
      have htotal : 0 ≤ total rest := hrest.total_nonneg
      intro m
      by_cases hsome : remaining > qtyEpsilon
      · rw [sellLoop, if_pos hsome]
        rcases le_or_gt q remaining with hle | hlt
        · -- the front lot is used up exactly
          have hm : m = q + min (remaining - q) (total rest) := by
            show min remaining (q + total rest) = _
            rw [← min_add_add_left, add_sub_cancel]
          have hm' : 0 ≤ min (remaining - q) (total rest) :=
            le_min (sub_nonneg.mpr hle) htotal
          have hnot : ¬ q + min (remaining - q) (total rest) < q := by linarith
          simp only [min_eq_right hle, sub_self, qtyEpsilon_pos.le, if_true]
          rw [ih hrest hreststep (hr.sub hδ0 hqstep hle), hm, dropUnits, cost, if_neg hnot,
            if_neg hnot, add_sub_cancel_left]
          simp only [Prod.mk.injEq, true_and]
          refine ⟨?_, ?_⟩ <;> ring
        · -- the front lot outlives the sell by at least one step
          have hm : m = remaining := min_eq_left (by rw [total_cons]; linarith)
          have hkeep : ¬ q - remaining ≤ qtyEpsilon := by
            have := (hqstep.sub hδ0 hr hlt.le).le_of_pos hδ0 (sub_pos.mpr hlt)
            linarith
          simp only [min_eq_left hlt.le, hkeep, if_false]
          rw [hm, dropUnits, cost, if_pos hlt, if_pos hlt]
          simp only [Prod.mk.injEq, true_and]
          ring
      · have hzero : remaining = 0 := hr.eq_zero_of_le hδ (not_lt.mp hsome)
        have hm : m = 0 := by
          show min remaining (total ((p, q) :: rest)) = 0
          rw [hzero]
          exact min_eq_left hopen.total_nonneg
        rw [sellLoop_of_le (not_lt.mp hsome), hm, dropUnits_zero hopen, cost_zero hopen]
        simp

/-- On a step above epsilon the loop drops no quantity, whatever the lots (empty ones included),
and everything it leaves is on the step again. -/
theorem sellLoop_onStep (hδ : qtyEpsilon < δ) (price : ℚ) {queue : List (ℚ × ℚ)}
    (hstep : ∀ l ∈ queue, OnStep δ l.2) {remaining : ℚ} (hr : OnStep δ remaining)
    (realized : ℚ) :
    let out := sellLoop price queue remaining realized
    (∀ l ∈ out.1, OnStep δ l.2) ∧ OnStep δ out.2.1 ∧
      total queue = total out.1 + (remaining - out.2.1) := by
  have hδ0 : 0 < δ := qtyEpsilon_pos.trans hδ
  induction queue generalizing remaining realized with
  | nil => exact ⟨hstep, hr, by simp [sellLoop]⟩
  | cons lot rest ih =>
      obtain ⟨p, q⟩ := lot
      have hq : OnStep δ q := hstep (p, q) List.mem_cons_self
      have hrest : ∀ l ∈ rest, OnStep δ l.2 := fun l hl => hstep l (List.mem_cons_of_mem _ hl)
      by_cases hsome : remaining > qtyEpsilon
      · rw [sellLoop, if_pos hsome]
        rcases le_or_gt q remaining with hle | hlt
        · simp only [min_eq_right hle, sub_self, qtyEpsilon_pos.le, if_true]
          obtain ⟨h1, h2, h3⟩ := ih hrest (hr.sub hδ0 hq hle) (realized + (price - p) * q)
          refine ⟨h1, h2, ?_⟩
          rw [total_cons, h3]
          ring
        · have hleft : OnStep δ (q - remaining) := hq.sub hδ0 hr hlt.le
          have hkeep : ¬ q - remaining ≤ qtyEpsilon := by
            have := hleft.le_of_pos hδ0 (sub_pos.mpr hlt)
            linarith
          simp only [min_eq_left hlt.le, hkeep, if_false, sub_self]
          refine ⟨?_, OnStep.zero, ?_⟩
          · intro l hl
            rcases List.mem_cons.mp hl with rfl | hl
            · exact hleft
            · exact hrest l hl
          · rw [total_cons, total_cons]
            ring
      · rw [sellLoop_of_le (not_lt.mp hsome)]
        exact ⟨hstep, hr, by ring⟩

/-! ## §3 `FifoPnl` refines the ledger -/

/-- The abstract run: the ledger of a history of fills. -/
def ledger (L : Ledger ℚ) : List Fill → Ledger ℚ
  | [] => L
  | .buy p q :: fills => ledger (L.buy p q) fills
  | .sell p q :: fills => ledger (L.sell p q) fills

/-- The refinement relation between the tracker (with what its sells returned) and the ledger. -/
structure Refines (δ : ℚ) (pnl : FifoPnl) (returned : List ℚ) (L : Ledger ℚ) : Prop where
  valid : L.Valid
  on_step : ∀ l ∈ L.openLots, OnStep δ l.2
  queue : pnl.buyQueue = L.openLots
  realized : pnl.realizedPnl = L.realized
  returned : returned = L.fills

theorem refines_new (δ : ℚ) : Refines δ FifoPnl.new [] Ledger.empty where
  valid := Ledger.valid_empty
  on_step := fun _ hl => absurd hl List.not_mem_nil
  queue := rfl
  realized := (sub_zero 0).symm
  returned := rfl

theorem Refines.onBuy {pnl : FifoPnl} {returned : List ℚ} {L : Ledger ℚ}
    (h : Refines δ pnl returned L) {p q : ℚ} (hq : 0 < q) (hstep : OnStep δ q) :
    Refines δ (pnl.onBuy p q) returned (L.buy p q) where
  valid := h.valid.buy hq
  on_step := by
    rw [h.valid.openLots_buy hq]
    intro l hl
    rcases List.mem_append.mp hl with hl | hl
    · exact h.on_step l hl
    · rw [List.mem_singleton.mp hl]
      exact hstep
  queue := by
    rw [h.valid.openLots_buy hq, ← h.queue]
    rfl
  realized := by
    rw [h.valid.realized_buy hq, ← h.realized]
    rfl
  returned := h.returned

theorem Refines.onSell {pnl : FifoPnl} {returned : List ℚ} {L : Ledger ℚ}
    (h : Refines δ pnl returned L) (hδ : qtyEpsilon < δ) {p q : ℚ} (hq : 0 < q)
    (hstep : OnStep δ q) :
    Refines δ (pnl.onSell p q).2 (returned ++ [(pnl.onSell p q).1]) (L.sell p q) := by
  have hloop := sellLoop_eq hδ p h.valid.openLots_open h.on_step hstep pnl.realizedPnl
  have hlots := (sellLoop_onStep hδ p h.on_step hstep pnl.realizedPnl).1
  rw [← h.queue] at hloop hlots
  have hsell : pnl.onSell p q =
      (q - (q - min q (total pnl.buyQueue)),
        { pnl with
          buyQueue := dropUnits pnl.buyQueue (min q (total pnl.buyQueue))
          realizedPnl := pnl.realizedPnl + (p * min q (total pnl.buyQueue)
            - cost pnl.buyQueue (min q (total pnl.buyQueue))) }) := by
    rw [FifoPnl.onSell, hloop]
  rw [hsell]
  refine ⟨h.valid.sell hq.le, ?_, ?_, ?_, ?_⟩
  · rw [h.valid.openLots_sell hq.le, ← h.queue]
    rw [hloop] at hlots
    exact hlots
  · rw [h.valid.openLots_sell hq.le, ← h.queue]
  · rw [h.valid.realized_sell hq.le, ← h.queue, ← h.realized]
  · rw [h.valid.fills_sell, ← h.queue, ← h.returned, sub_sub_cancel]

/-- The run lemma: refinement is kept by a whole history on the step. -/
theorem Refines.run (hδ : qtyEpsilon < δ) {fills : List Fill}
    (hfills : ∀ f ∈ fills, 0 < f.qty ∧ OnStep δ f.qty) {pnl : FifoPnl} {returned : List ℚ}
    {L : Ledger ℚ} (h : Refines δ pnl returned L) :
    Refines δ (pnl.run returned fills).1 (pnl.run returned fills).2 (ledger L fills) := by
  induction fills generalizing pnl returned L with
  | nil => exact h
  | cons f fills ih =>
      have hf := hfills f List.mem_cons_self
      have hrest : ∀ f ∈ fills, 0 < f.qty ∧ OnStep δ f.qty := fun g hg =>
        hfills g (List.mem_cons_of_mem f hg)
      cases f with
      | buy p q => exact ih hrest (h.onBuy hf.1 hf.2)
      | sell p q => exact ih hrest (h.onSell hδ hf.1 hf.2)

/-! ## §4 The loop on arbitrary quantities -/

/-- The books of one run of the loop: what it matched at which cost, and the residue `dust` of a
lot bought at `dustPrice` that it dropped. -/
structure LoopBooks (price : ℚ) (queue : List (ℚ × ℚ)) (remaining realized : ℚ)
    (out : List (ℚ × ℚ) × ℚ × ℚ) (matchedCost dust dustPrice : ℚ) : Prop where
  dust_nonneg : 0 ≤ dust
  dust_le : dust ≤ qtyEpsilon
  /-- dust comes from a lot of the queue, and only when the sell was matched in full -/
  dust_source : dust = 0 ∨ ((∃ q, (dustPrice, q) ∈ queue) ∧ out.2.1 = 0)
  remaining_nonneg : 0 ≤ out.2.1
  remaining_le : out.2.1 ≤ remaining
  quantity : total queue = total out.1 + (remaining - out.2.1) + dust
  basis : notional queue = notional out.1 + matchedCost + dustPrice * dust
  profit : out.2.2 = realized + (price * (remaining - out.2.1) - matchedCost)
  lots : ∀ l ∈ out.1, 0 ≤ l.2 ∧ ∃ q, (l.1, q) ∈ queue

/-- A run of the loop that does nothing. -/
theorem LoopBooks.refl {price remaining realized : ℚ} {queue : List (ℚ × ℚ)}
    (hlots : ∀ l ∈ queue, 0 ≤ l.2) (hr : 0 ≤ remaining) :
    LoopBooks price queue remaining realized (queue, remaining, realized) 0 0 0 where
  dust_nonneg := le_refl _
  dust_le := qtyEpsilon_pos.le
  dust_source := Or.inl rfl
  remaining_nonneg := hr
  remaining_le := le_refl _
  quantity := by ring
  basis := by ring
  profit := by ring
  lots := fun l hl => ⟨hlots l hl, l.2, hl⟩

/-! What one pass of the loop adds to the books, by what becomes of the front lot `(p, q)`. -/

section

variable {price remaining realized p q : ℚ} {rest : List (ℚ × ℚ)}

/-- The front lot is matched in full, and the loop goes on with the rest. -/
theorem LoopBooks.pop {out : List (ℚ × ℚ) × ℚ × ℚ} {matchedCost dust dustPrice : ℚ} (hq : 0 ≤ q)
    (hb : LoopBooks price rest (remaining - q) (realized + (price - p) * q) out matchedCost dust
      dustPrice) :
    LoopBooks price ((p, q) :: rest) remaining realized out (p * q + matchedCost) dust
      dustPrice where
  dust_nonneg := hb.dust_nonneg
  dust_le := hb.dust_le
  dust_source := by
    rcases hb.dust_source with h | ⟨⟨q', hq'⟩, h⟩
    · exact Or.inl h
    · exact Or.inr ⟨⟨q', List.mem_cons_of_mem _ hq'⟩, h⟩
  remaining_nonneg := hb.remaining_nonneg
  remaining_le := by
    have hle := hb.remaining_le
    linarith
  quantity := by
    rw [total_cons, hb.quantity]
    ring
  basis := by
    rw [notional_cons, hb.basis]
    ring
  profit := by
    rw [hb.profit]
    ring
  lots := by
    intro l hl
    obtain ⟨h0, q', hq'⟩ := hb.lots l hl
    exact ⟨h0, q', List.mem_cons_of_mem _ hq'⟩

/-- The sell is matched in full, and the residue of the lot is dropped as dust. -/
theorem LoopBooks.drop (hrest : ∀ l ∈ rest, 0 ≤ l.2) (hr : 0 ≤ remaining) (hlt : remaining < q)
    (hleft : q - remaining ≤ qtyEpsilon) :
    LoopBooks price ((p, q) :: rest) remaining realized
      (rest, 0, realized + (price - p) * remaining) (p * remaining) (q - remaining) p where
  dust_nonneg := (sub_pos.mpr hlt).le
  dust_le := hleft
  dust_source := Or.inr ⟨⟨q, List.mem_cons_self⟩, rfl⟩
  remaining_nonneg := le_refl _
  remaining_le := hr
  quantity := by
    rw [total_cons]
    ring
  basis := by
    rw [notional_cons]
    ring
  profit := by ring
  lots := fun l hl => ⟨hrest l hl, l.2, List.mem_cons_of_mem _ hl⟩

/-- The sell is matched in full, and the lot stays with what is left of it. -/
theorem LoopBooks.keep (hrest : ∀ l ∈ rest, 0 ≤ l.2) (hr : 0 ≤ remaining)
    (hlt : remaining < q) :
    LoopBooks price ((p, q) :: rest) remaining realized
      ((p, q - remaining) :: rest, 0, realized + (price - p) * remaining) (p * remaining) 0
      0 where
  dust_nonneg := le_refl _
  dust_le := qtyEpsilon_pos.le
  dust_source := Or.inl rfl
  remaining_nonneg := le_refl _
  remaining_le := hr
  quantity := by
    rw [total_cons, total_cons]
    ring
  basis := by
    rw [notional_cons, notional_cons]
    ring
  profit := by ring
  lots := by
    intro l hl
    rcases List.mem_cons.mp hl with rfl | hl
    · exact ⟨(sub_pos.mpr hlt).le, q, List.mem_cons_self⟩
    · exact ⟨hrest l hl, l.2, List.mem_cons_of_mem _ hl⟩

end

/-- **The loop keeps books.**  On non-negative lots every run of the loop accounts for all the
quantity and all the cost basis of the queue. -/
theorem sellLoop_accounts (price : ℚ) {queue : List (ℚ × ℚ)} (hlots : ∀ l ∈ queue, 0 ≤ l.2)
    {remaining : ℚ} (hr : 0 ≤ remaining) (realized : ℚ) :
    ∃ matchedCost dust dustPrice, LoopBooks price queue remaining realized
      (sellLoop price queue remaining realized) matchedCost dust dustPrice := by
  induction queue generalizing remaining realized with
  | nil => exact ⟨0, 0, 0, LoopBooks.refl hlots hr⟩
  | cons lot rest ih =>
      obtain ⟨p, q⟩ := lot
      have hq : 0 ≤ q := hlots (p, q) List.mem_cons_self
      have hrest : ∀ l ∈ rest, 0 ≤ l.2 := fun l hl => hlots l (List.mem_cons_of_mem _ hl)
      by_cases hsome : remaining > qtyEpsilon
      · rw [sellLoop, if_pos hsome]
        rcases le_or_gt q remaining with hle | hlt
        · simp only [min_eq_right hle, sub_self, qtyEpsilon_pos.le, if_true]
          obtain ⟨c, d, dp, hb⟩ := ih hrest (sub_nonneg.mpr hle) (realized + (price - p) * q)
          exact ⟨p * q + c, d, dp, hb.pop hq⟩
        · by_cases hleft : q - remaining ≤ qtyEpsilon
          · simp only [min_eq_left hlt.le, hleft, if_true, sub_self]
            rw [sellLoop_of_le qtyEpsilon_pos.le]
            exact ⟨p * remaining, q - remaining, p, LoopBooks.drop hrest hr hlt hleft⟩
          · simp only [min_eq_left hlt.le, hleft, if_false, sub_self]
            exact ⟨p * remaining, 0, 0, LoopBooks.keep hrest hr hlt⟩
      · -- nothing left to sell
        rw [sellLoop_of_le (not_lt.mp hsome)]
        exact ⟨0, 0, 0, LoopBooks.refl hlots hr⟩

/-- The same books, of `onSell`. -/
theorem onSell_accounts {pnl : FifoPnl} (hlots : ∀ l ∈ pnl.buyQueue, 0 ≤ l.2) (price : ℚ)
    {qty : ℚ} (hq : 0 ≤ qty) :
    ∃ matchedCost dust dustPrice, LoopBooks price pnl.buyQueue qty pnl.realizedPnl
      ((pnl.onSell price qty).2.buyQueue, qty - (pnl.onSell price qty).1,
        (pnl.onSell price qty).2.realizedPnl) matchedCost dust dustPrice := by
  obtain ⟨c, d, dp, hb⟩ := sellLoop_accounts price hlots hq pnl.realizedPnl
  refine ⟨c, d, dp, ?_⟩
  have hout : ((pnl.onSell price qty).2.buyQueue, qty - (pnl.onSell price qty).1,
      (pnl.onSell price qty).2.realizedPnl) = sellLoop price pnl.buyQueue qty pnl.realizedPnl := by
    simp only [FifoPnl.onSell, sub_sub_cancel]
  rw [hout]
  exact hb

/-! ## §5 Quantity: the refinement theorem -/

/-- Over a whole history each sell loses at most epsilon of quantity, and none is gained. -/
theorem run_quantity {fills : List Fill} (hfills : ∀ f ∈ fills, 0 ≤ f.qty) {pnl : FifoPnl}
    (hlots : ∀ l ∈ pnl.buyQueue, 0 ≤ l.2) (returned : List ℚ) :
    let out := pnl.run returned fills
    let lost := pnl.positionQty + total (Fill.bought fills) - (out.2.sum - returned.sum)
      - out.1.positionQty
    0 ≤ lost ∧ lost ≤ qtyEpsilon * Fill.sellCount fills := by
  induction fills generalizing pnl returned with
  | nil => simp [FifoPnl.run, Fill.bought, Fill.sellCount]
  | cons f fills ih =>
      have hf := hfills f List.mem_cons_self
      have hrest : ∀ f ∈ fills, 0 ≤ f.qty := fun g hg => hfills g (List.mem_cons_of_mem f hg)
      cases f with
      | buy p q =>
          have hq : 0 ≤ q := hf
          have hih := ih hrest (FifoPnl.onBuy_lots_nonneg hlots p hq) returned
          have hpos : (pnl.onBuy p q).positionQty = pnl.positionQty + q := by
            simp only [FifoPnl.positionQty_eq, FifoPnl.onBuy, total_append, total_cons, total_nil,
              add_zero]
          simp only [FifoPnl.run, Fill.bought, Fill.sellCount, total_cons] at hih ⊢
          rw [hpos] at hih
          refine ⟨?_, ?_⟩ <;> linarith
      | sell p q =>
          have hq : 0 ≤ q := hf
          obtain ⟨c, d, dp, hb⟩ := onSell_accounts hlots p hq
          have hih := ih hrest (FifoPnl.onSell_lots_nonneg hlots p q)
            (returned ++ [(pnl.onSell p q).1])
          have hquantity := hb.quantity
          have h0 := hb.dust_nonneg
          have h1 := hb.dust_le
          simp only [FifoPnl.run, Fill.bought, Fill.sellCount, List.sum_append, List.sum_cons,
            List.sum_nil, FifoPnl.positionQty_eq, Nat.cast_add, Nat.cast_one] at hih ⊢ hquantity
          refine ⟨?_, ?_⟩ <;> linarith

/-- What a history adds to a ledger: its lots, a fill for each sell, the sum of these fills to the
matched quantity and their value at the sell prices to the proceeds. -/
theorem ledger_books (fills : List Fill) (L : Ledger ℚ) :
    ∃ new, (ledger L fills).fills = L.fills ++ new ∧
      (ledger L fills).bought = L.bought ++ Fill.bought fills ∧
      (ledger L fills).matched = L.matched + new.sum ∧
      (ledger L fills).proceeds
        = L.proceeds + (List.zipWith (· * ·) (Fill.sellPrices fills) new).sum := by
  induction fills generalizing L with
  | nil => exact ⟨[], by simp [ledger, Fill.bought, Fill.sellPrices]⟩
  | cons f fills ih =>
      cases f with
      | buy p q =>
          obtain ⟨new, h1, h2, h3, h4⟩ := ih (L.buy p q)
          refine ⟨new, h1, ?_, h3, h4⟩
          rw [ledger, h2, Ledger.buy, Fill.bought, List.append_assoc, List.singleton_append]
      | sell p q =>
          obtain ⟨new, h1, h2, h3, h4⟩ := ih (L.sell p q)
          refine ⟨min q (total L.bought - L.matched) :: new, ?_, h2, ?_, ?_⟩
          · rw [ledger, h1, Ledger.sell, List.append_assoc, List.singleton_append]
          · rw [ledger, h3, Ledger.sell, List.sum_cons]
            ring
          · rw [ledger, h4, Ledger.sell, Fill.sellPrices, List.zipWith_cons_cons, List.sum_cons]
            ring

/-- **`FifoPnl` refines the cumulative-cost ledger.**  On one step above epsilon every sell
returns the ledger's fill (as much as is still open), the realized profit is the proceeds of the
fills less the cost of the first `X` units bought, where `X` is the quantity matched, the queue is
the buying history with those units removed, and the position is what is left.  On arbitrary
non-negative quantities, what was bought, less what was matched, less what is held is at most one
epsilon a sell. -/
theorem fifoPnl_refines_ledger (fills : List Fill) :
    let pnl := (FifoPnl.new.run [] fills).1
    let returned := (FifoPnl.new.run [] fills).2
    let lots := Fill.bought fills
    (∀ δ, qtyEpsilon < δ → (∀ f ∈ fills, 0 < f.qty ∧ OnStep δ f.qty) →
      returned = (ledger Ledger.empty fills).fills ∧
      pnl.realizedPnl = (List.zipWith (· * ·) (Fill.sellPrices fills) returned).sum
        - cost lots returned.sum ∧
      pnl.buyQueue = dropUnits lots returned.sum ∧
      (∀ l ∈ pnl.buyQueue, 0 < l.2) ∧
      pnl.positionQty = total lots - returned.sum) ∧
    ((∀ f ∈ fills, 0 ≤ f.qty) →
      0 ≤ total lots - returned.sum - pnl.positionQty ∧
      total lots - returned.sum - pnl.positionQty ≤ qtyEpsilon * Fill.sellCount fills) := by
  intro pnl returned lots
  constructor
  · intro δ hδ hfills
    have h := (refines_new δ).run hδ hfills
    obtain ⟨new, hfill, hbought, hmatched, hproceeds⟩ := ledger_books fills Ledger.empty
    have hnew : new = returned := by
      have := h.returned
      rw [hfill] at this
      exact this.symm
    have hlots : (ledger Ledger.empty fills).bought = lots := hbought
    have hX : (ledger Ledger.empty fills).matched = returned.sum := by
      rw [hmatched, hnew]
      exact zero_add _
    have hP : (ledger Ledger.empty fills).proceeds
        = (List.zipWith (· * ·) (Fill.sellPrices fills) returned).sum := by
      rw [hproceeds, hnew]
      exact zero_add _
    refine ⟨h.returned, ?_, ?_, ?_, ?_⟩
    · rw [← hP, ← hlots, ← hX]
      exact h.realized
    · rw [← hlots, ← hX]
      exact h.queue
    · rw [h.queue]
      exact h.valid.openLots_open
    · rw [← hlots, ← hX, ← h.valid.total_openLots, ← h.queue]
      rfl
  · intro hfills
    have hempty : ∀ l ∈ FifoPnl.new.buyQueue, 0 ≤ l.2 := fun _ hl => absurd hl List.not_mem_nil
    have h := run_quantity hfills hempty []
    have hflat : FifoPnl.new.positionQty = 0 := rfl
    simp only [hflat, List.sum_nil, zero_add, sub_zero] at h
    exact h

/-- Buys of 1 at 100 and 1 at 200, then a sell of 1.5 at 150: half of the second lot stays. -/
theorem fifo_partial_fill :
    let out := FifoPnl.new.run [] [.buy 100 1, .buy 200 1, .sell 150 (3 / 2)]
    out.1.positionQty = total [((100 : ℚ), 1), (200, 1)] - out.2.sum :=
  ((fifoPnl_refines_ledger [.buy 100 1, .buy 200 1, .sell 150 (3 / 2)]).1 (1 / 2)
    (by unfold qtyEpsilon; norm_num)
    (by
      intro f hf
      simp only [List.mem_cons, List.not_mem_nil, or_false] at hf
      rcases hf with rfl | rfl | rfl
      · exact ⟨by norm_num [Fill.qty], 2, by norm_num [Fill.qty]⟩
      · exact ⟨by norm_num [Fill.qty], 2, by norm_num [Fill.qty]⟩
      · exact ⟨by norm_num [Fill.qty], 3, by norm_num [Fill.qty]⟩)).2.2.2.2

/-! ## §6 Money: the equity identity -/

/-- What the account is short of its own accounting: capital plus realized profit less fees,
against cash plus the cost basis of the position. -/
def shortfall (acct : PaperAccount) : ℚ :=
  acct.initialCapital + acct.pnl.realizedPnl - acct.totalFees
    - (acct.cash + acct.pnl.positionNotional)

theorem equity_some (acct : PaperAccount) (mark : ℚ) :
    acct.equity (some mark) = acct.initialCapital + acct.pnl.realizedPnl
      + acct.pnl.unrealizedPnl mark - acct.totalFees - shortfall acct := by
  rw [FifoPnl.unrealizedPnl_eq, shortfall]
  show acct.cash + acct.pnl.positionQty * mark = _
  ring

theorem equity_none (acct : PaperAccount) :
    acct.equity none = acct.initialCapital + acct.pnl.realizedPnl - acct.totalFees
      - shortfall acct := by
  rw [shortfall]
  show acct.cash + acct.pnl.positionNotional = _
  ring

/-- The lots an account can hold under a price bound. -/
def Priced (pmax : ℚ) (queue : List (ℚ × ℚ)) : Prop :=
  ∀ l ∈ queue, 0 ≤ l.2 ∧ 0 ≤ l.1 ∧ l.1 ≤ pmax

theorem Priced.onBuy {pmax : ℚ} {pnl : FifoPnl} (h : Priced pmax pnl.buyQueue) {p q : ℚ}
    (hp : 0 ≤ p ∧ p ≤ pmax) (hq : 0 ≤ q) : Priced pmax (pnl.onBuy p q).buyQueue := by
  intro l hl
  rcases List.mem_append.mp hl with hl | hl
  · exact h l hl
  · rw [List.mem_singleton.mp hl]
    exact ⟨hq, hp⟩

theorem Priced.onSell {pmax : ℚ} {pnl : FifoPnl} (h : Priced pmax pnl.buyQueue) (p : ℚ) {q : ℚ}
    (hq : 0 ≤ q) : Priced pmax (pnl.onSell p q).2.buyQueue := by
  obtain ⟨c, d, dp, hb⟩ := onSell_accounts (fun l hl => (h l hl).1) p hq
  intro l hl
  obtain ⟨h0, q', hq'⟩ := hb.lots l hl
  exact ⟨h0, (h _ hq').2⟩

theorem shortfall_onBuy (acct : PaperAccount) (p q : ℚ) :
    shortfall (acct.onBuy p q) = shortfall acct := by
  simp only [shortfall, PaperAccount.onBuy, FifoPnl.onBuy, FifoPnl.positionNotional_eq,
    notional_append, notional_cons, notional_nil]
  ring

theorem shortfall_onSell_of_credited {acct : PaperAccount} {p q : ℚ}
    (h : ¬ (acct.pnl.onSell p q).1 ≤ qtyEpsilon) :
    shortfall (acct.onSell p q) = shortfall acct
      + ((acct.pnl.onSell p q).2.realizedPnl - acct.pnl.realizedPnl)
      - ((acct.pnl.onSell p q).2.positionNotional - acct.pnl.positionNotional)
      - p * (acct.pnl.onSell p q).1 := by
  simp only [shortfall, PaperAccount.onSell, h, if_false]
  ring

theorem shortfall_onSell_of_uncredited {acct : PaperAccount} {p q : ℚ}
    (h : (acct.pnl.onSell p q).1 ≤ qtyEpsilon) :
    shortfall (acct.onSell p q) = shortfall acct
      + ((acct.pnl.onSell p q).2.realizedPnl - acct.pnl.realizedPnl)
      - ((acct.pnl.onSell p q).2.positionNotional - acct.pnl.positionNotional) := by
  simp only [shortfall, PaperAccount.onSell, h, if_true]
  ring

/-- What the tracker's profit gains over its cost basis in one sell: the value of the match, plus
the basis of the dust. -/
theorem LoopBooks.gain {pnl : FifoPnl} {p q c d dp : ℚ}
    (hb : LoopBooks p pnl.buyQueue q pnl.realizedPnl
      ((pnl.onSell p q).2.buyQueue, q - (pnl.onSell p q).1, (pnl.onSell p q).2.realizedPnl)
      c d dp) :
    ((pnl.onSell p q).2.realizedPnl - pnl.realizedPnl)
      - ((pnl.onSell p q).2.positionNotional - pnl.positionNotional)
      = p * (pnl.onSell p q).1 + dp * d := by
  have hprofit := hb.profit
  have hbasis := hb.basis
  simp only [FifoPnl.positionNotional_eq, sub_sub_cancel] at hprofit hbasis ⊢
  rw [hprofit, hbasis]
  ring

/-- A sell within epsilon never enters the loop. -/
theorem shortfall_onSell_of_le {acct : PaperAccount} {p q : ℚ} (hq : q ≤ qtyEpsilon) :
    shortfall (acct.onSell p q) = shortfall acct := by
  have hsell : acct.pnl.onSell p q = (0, acct.pnl) := by
    rw [FifoPnl.onSell, sellLoop_of_le hq]
    simp only [sub_self]
  rw [shortfall_onSell_of_uncredited (by rw [hsell]; exact qtyEpsilon_pos.le), hsell]
  ring

/-- **One sell** costs the account at most epsilon units at the highest price, and gains it
nothing. -/
theorem shortfall_onSell {pmax : ℚ} {acct : PaperAccount} (h : Priced pmax acct.pnl.buyQueue)
    {p q : ℚ} (hp : 0 ≤ p ∧ p ≤ pmax) (hq : 0 ≤ q) :
    shortfall acct ≤ shortfall (acct.onSell p q) ∧
      shortfall (acct.onSell p q) ≤ shortfall acct + qtyEpsilon * pmax := by
  have hpmax : 0 ≤ pmax := hp.1.trans hp.2
  have hcap : 0 ≤ qtyEpsilon * pmax := mul_nonneg qtyEpsilon_pos.le hpmax
  by_cases hsmall : q ≤ qtyEpsilon
  · rw [shortfall_onSell_of_le hsmall]
    exact ⟨le_refl _, by linarith⟩
  obtain ⟨c, d, dp, hb⟩ := onSell_accounts (fun l hl => (h l hl).1) p hq
  have hgain := hb.gain
  by_cases hcredit : (acct.pnl.onSell p q).1 ≤ qtyEpsilon
  · -- matched at most epsilon of more than epsilon: no dust, and the match is not credited
    have hdust : d = 0 := by
      rcases hb.dust_source with h0 | ⟨_, hfull⟩
      · exact h0
      · simp only at hfull
        linarith
    have hm : 0 ≤ (acct.pnl.onSell p q).1 := by
      have := hb.remaining_le
      simp only at this
      linarith
    have hvalue := mul_le_mul hp.2 hcredit hm hpmax
    have hvalue0 := mul_nonneg hp.1 hm
    rw [hdust, mul_zero, add_zero] at hgain
    rw [shortfall_onSell_of_uncredited hcredit]
    refine ⟨?_, ?_⟩ <;> linarith
  · -- the match is credited; what is lost is the basis of the dust
    have hdust : 0 ≤ dp * d ∧ dp * d ≤ qtyEpsilon * pmax := by
      rcases hb.dust_source with h0 | ⟨⟨q', hq'⟩, _⟩
      · rw [h0, mul_zero]
        exact ⟨le_refl _, hcap⟩
      · obtain ⟨_, hdp0, hdpmax⟩ := h _ hq'
        refine ⟨mul_nonneg hdp0 hb.dust_nonneg, ?_⟩
        rw [mul_comm qtyEpsilon]
        exact mul_le_mul hdpmax hb.dust_le hb.dust_nonneg hpmax
    rw [shortfall_onSell_of_credited hcredit]
    refine ⟨?_, ?_⟩ <;> linarith

/-- On a step above epsilon a sell costs the account nothing. -/
theorem shortfall_onSell_onStep {acct : PaperAccount} (hδ : qtyEpsilon < δ)
    (hstep : ∀ l ∈ acct.pnl.buyQueue, OnStep δ l.2) (p : ℚ) {q : ℚ} (hq : OnStep δ q) :
    shortfall (acct.onSell p q) = shortfall acct ∧
      ∀ l ∈ (acct.onSell p q).pnl.buyQueue, OnStep δ l.2 := by
  have hδ0 : 0 < δ := qtyEpsilon_pos.trans hδ
  obtain ⟨hlots, hrem, hquantity⟩ := sellLoop_onStep hδ p hstep hq acct.pnl.realizedPnl
  obtain ⟨c, d, dp, hb⟩ := onSell_accounts (fun l hl => (hstep l hl).nonneg hδ0) p
    (hq.nonneg hδ0)
  have hdust : d = 0 := by
    have := hb.quantity
    simp only [FifoPnl.onSell, sub_sub_cancel] at this
    linarith
  have hgain := hb.gain
  rw [hdust, mul_zero, add_zero] at hgain
  have hm : OnStep δ (acct.pnl.onSell p q).1 :=
    hq.sub hδ0 hrem (by
      have := hb.remaining_le
      simp only [FifoPnl.onSell, sub_sub_cancel] at this
      exact this)
  by_cases hcredit : (acct.pnl.onSell p q).1 ≤ qtyEpsilon
  · have hzero : (acct.pnl.onSell p q).1 = 0 := hm.eq_zero_of_le hδ hcredit
    rw [hzero, mul_zero] at hgain
    refine ⟨?_, ?_⟩
    · rw [shortfall_onSell_of_uncredited hcredit]
      linarith
    · simp only [PaperAccount.onSell, hcredit, if_true]
      exact hlots
  · refine ⟨?_, ?_⟩
    · rw [shortfall_onSell_of_credited hcredit]
      linarith
    · simp only [PaperAccount.onSell, hcredit, if_false]
      exact hlots

/-- The run lemma: the shortfall grows by at most epsilon units at the highest price a sell. -/
theorem shortfall_run {pmax : ℚ} {fills : List Fill}
    (hfills : ∀ f ∈ fills, 0 ≤ f.qty ∧ 0 ≤ f.price ∧ f.price ≤ pmax) {acct : PaperAccount}
    (h : Priced pmax acct.pnl.buyQueue) :
    shortfall acct ≤ shortfall (acct.run fills) ∧
      shortfall (acct.run fills)
        ≤ shortfall acct + Fill.sellCount fills * (qtyEpsilon * pmax) := by
  induction fills generalizing acct with
  | nil => simp [PaperAccount.run, Fill.sellCount]
  | cons f fills ih =>
      have hf := hfills f List.mem_cons_self
      have hrest := fun g hg => hfills g (List.mem_cons_of_mem f hg)
      cases f with
      | buy p q =>
          have hpriced : Priced pmax (acct.onBuy p q).pnl.buyQueue := h.onBuy hf.2 hf.1
          have hih := ih hrest hpriced
          rw [shortfall_onBuy] at hih
          exact hih
      | sell p q =>
          have hone := shortfall_onSell h hf.2 hf.1
          have hpriced : Priced pmax (acct.onSell p q).pnl.buyQueue := by
            rw [PaperAccount.onSell_pnl]
            exact h.onSell p hf.1
          have hih := ih hrest hpriced
          have hrun : acct.run (.sell p q :: fills) = (acct.onSell p q).run fills := rfl
          rw [hrun, Fill.sellCount]
          push_cast
          simp only [Fill.price, Fill.qty] at hone
          refine ⟨?_, ?_⟩ <;> linarith

theorem shortfall_run_onStep (hδ : qtyEpsilon < δ) {fills : List Fill}
    (hfills : ∀ f ∈ fills, OnStep δ f.qty) {acct : PaperAccount}
    (hstep : ∀ l ∈ acct.pnl.buyQueue, OnStep δ l.2) :
    shortfall (acct.run fills) = shortfall acct := by
  induction fills generalizing acct with
  | nil => rfl
  | cons f fills ih =>
      have hf := hfills f List.mem_cons_self
      have hrest := fun g hg => hfills g (List.mem_cons_of_mem f hg)
      cases f with
      | buy p q =>
          have hlots : ∀ l ∈ (acct.onBuy p q).pnl.buyQueue, OnStep δ l.2 := by
            intro l hl
            rcases List.mem_append.mp hl with hl | hl
            · exact hstep l hl
            · rw [List.mem_singleton.mp hl]
              exact hf
          exact (ih hrest hlots).trans (shortfall_onBuy acct p q)
      | sell p q =>
          obtain ⟨hone, hlots⟩ := shortfall_onSell_onStep hδ hstep p hf
          exact (ih hrest hlots).trans hone

theorem initialCapital_run (acct : PaperAccount) (fills : List Fill) :
    (acct.run fills).initialCapital = acct.initialCapital := by
  induction fills generalizing acct with
  | nil => rfl
  | cons f fills ih =>
      refine (ih (acct.applyFill f)).trans ?_
      cases f with
      | buy p q => rfl
      | sell p q =>
          exact PaperAccount.onSell_initialCapital acct p q

/-- **No money is minted or lost.**  After any fills of a new account at prices in `[0, pmax]`,
equity is the capital plus realized and unrealized profit less fees, short of at most one epsilon
at `pmax` for each sell, at every mark and at the cost basis; on one step above epsilon it is
exactly that. -/
theorem equity_identity (initialCapital feePct pmax : ℚ) (fills : List Fill)
    (hfills : ∀ f ∈ fills, 0 ≤ f.qty ∧ 0 ≤ f.price ∧ f.price ≤ pmax) :
    let acct := (PaperAccount.new initialCapital feePct).run fills
    let slack := Fill.sellCount fills * (qtyEpsilon * pmax)
    let booked := initialCapital + acct.pnl.realizedPnl - acct.totalFees
    (∀ mark, booked + acct.pnl.unrealizedPnl mark - slack ≤ acct.equity (some mark) ∧
      acct.equity (some mark) ≤ booked + acct.pnl.unrealizedPnl mark) ∧
    (booked - slack ≤ acct.equity none ∧ acct.equity none ≤ booked) ∧
    (∀ δ, qtyEpsilon < δ → (∀ f ∈ fills, OnStep δ f.qty) →
      (∀ mark, acct.equity (some mark) = booked + acct.pnl.unrealizedPnl mark) ∧
      acct.equity none = booked) := by
  intro acct slack booked
  have hnew : shortfall (PaperAccount.new initialCapital feePct) = 0 := by
    simp [shortfall, PaperAccount.new, FifoPnl.new, FifoPnl.positionNotional]
  have hcap : acct.initialCapital = initialCapital := initialCapital_run _ fills
  have hempty : Priced pmax (PaperAccount.new initialCapital feePct).pnl.buyQueue :=
    fun _ hl => absurd hl List.not_mem_nil
  obtain ⟨hlo, hhi⟩ := shortfall_run hfills hempty
  rw [hnew] at hlo hhi
  have hsome : ∀ mark, acct.equity (some mark)
      = booked + acct.pnl.unrealizedPnl mark - shortfall acct := by
    intro mark
    rw [equity_some, hcap]
    ring
  have hnone : acct.equity none = booked - shortfall acct := by
    rw [equity_none, hcap]
  refine ⟨fun mark => ?_, ?_, fun δ hδ hstep => ?_⟩
  · rw [hsome]
    refine ⟨?_, ?_⟩ <;> linarith
  · rw [hnone]
    refine ⟨?_, ?_⟩ <;> linarith
  · have hzero : shortfall acct = 0 := by
      rw [← hnew]
      exact shortfall_run_onStep hδ hstep fun _ hl => absurd hl List.not_mem_nil
    refine ⟨fun mark => ?_, ?_⟩
    · rw [hsome, hzero, sub_zero]
    · rw [hnone, hzero, sub_zero]

/-- A round trip at a 0.02 % fee, with the second sell larger than what is left. -/
theorem equity_round_trip :
    let acct := (PaperAccount.new 730 (1 / 50)).run [.buy 100 1, .sell 110 (1 / 2), .sell 120 1]
    acct.equity none ≤ 730 + acct.pnl.realizedPnl - acct.totalFees :=
  (equity_identity 730 (1 / 50) 120 [.buy 100 1, .sell 110 (1 / 2), .sell 120 1]
    (by
      intro f hf
      simp only [List.mem_cons, List.not_mem_nil, or_false] at hf
      rcases hf with rfl | rfl | rfl <;> norm_num [Fill.qty, Fill.price])).2.1.2

end CryptoTrader.PnlLedger
