/-
# CryptoTrader.TopOfBook — what an applied update does to the sides, and what is published.

An applied update rewrites each side from its own level list alone: the last listed quantity of a
key decides, zero deletes, and keys that are not listed keep what they have.  `snapshot()` then
reads the two ordered maps from opposite ends and cuts them at `depth_levels`.  `TopLevels` says
what such a view has to be, in terms of the stored levels only; the maps deliver it because their
entries come out in the order of the keys (`Lib.TopView`) and the price of a key grows with it.
-/
import CryptoTrader.Orderbook
import CryptoTrader.Lib.TopView

namespace CryptoTrader

open Lib TopView

/-! ## §1 The view of one side -/

/-- `view` is the top of a side: as many levels as fit, best price first, each with its stored
quantity, and every stored level that is left out strictly worse than all of them. -/
structure TopLevels (better : ℚ → ℚ → Prop) (depth : Nat) (side : Side) (view : List (ℚ × ℚ)) :
    Prop where
  length : view.length = min depth side.size
  sorted : view.Pairwise fun a b => better a.1 b.1
  stored : ∀ l ∈ view, ∃ key, Orderbook.keyPrice key = l.1 ∧ side[key]? = some l.2
  hidden : ∀ key qty, side[key]? = some qty → (Orderbook.keyPrice key, qty) ∉ view →
    ∀ l ∈ view, better l.1 (Orderbook.keyPrice key)

theorem keyPrice_lt {a b : Nat} (h : a < b) : Orderbook.keyPrice a < Orderbook.keyPrice b := by
  unfold Orderbook.keyPrice
  have hab : (a : ℚ) < b := by exact_mod_cast h
  gcongr

/-- The levels of a side come out in the order of their keys. -/
theorem toList_sorted (side : Side) : side.toList.Pairwise fun a b => a.1 < b.1 := by
  apply side.ordered_keys_toList.imp
  intro a b h
  exact Nat.compare_eq_lt.mp h

/-- The top of the entries of a side, priced, is the top of the side. -/
theorem topLevels_of_isTop {better : Nat → Nat → Prop} {better' : ℚ → ℚ → Prop}
    (hprice : ∀ a b, better a b → better' (Orderbook.keyPrice a) (Orderbook.keyPrice b))
    {depth : Nat} {side : Side} {view : List (Nat × ℚ)}
    (h : IsTop (fun a b => better a.1 b.1) depth side.toList view) :
    TopLevels better' depth side (view.map fun l => (Orderbook.keyPrice l.1, l.2)) := by
  have hmap : IsTop (fun a b : ℚ × ℚ => better' a.1 b.1) depth
      (side.toList.map fun l => (Orderbook.keyPrice l.1, l.2))
      (view.map fun l => (Orderbook.keyPrice l.1, l.2)) :=
    h.map fun a b hab => hprice a.1 b.1 hab
  refine ⟨?_, hmap.sorted, ?_, ?_⟩
  · rw [hmap.length, List.length_map, side.length_toList]
  · intro l hl
    obtain ⟨⟨key, qty⟩, hmem, rfl⟩ := List.mem_map.mp hl
    exact ⟨key, rfl, Std.ExtTreeMap.mem_toList_iff_getElem?_eq_some.mp (h.shown _ hmem)⟩
  · intro key qty hget hout
    have hmem : (key, qty) ∈ side.toList := Std.ExtTreeMap.mem_toList_iff_getElem?_eq_some.mpr hget
    exact hmap.hidden _ (List.mem_map_of_mem hmem) hout

namespace Orderbook

/-- **The bids of `snapshot()`**: the map read from its end. -/
theorem snapshot_bids (book : Orderbook) (nowMs : UInt64) :
    TopLevels (· > ·) book.depthLevels book.bids (book.snapshot nowMs).bids := by
  have hrev : book.bids.toList.reverse.Pairwise fun a b => a.1 > b.1 :=
    List.pairwise_reverse.mpr (toList_sorted book.bids)
  have htop := (isTop_take hrev book.depthLevels).perm (List.reverse_perm _)
  have hprice : ∀ a b : Nat, a > b → keyPrice a > keyPrice b := fun _ _ hab => keyPrice_lt hab
  exact topLevels_of_isTop hprice htop

/-- **The asks of `snapshot()`**: the map read from its start. -/
theorem snapshot_asks (book : Orderbook) (nowMs : UInt64) :
    TopLevels (· < ·) book.depthLevels book.asks (book.snapshot nowMs).asks :=
  topLevels_of_isTop (fun _ _ => keyPrice_lt)
    (isTop_take (toList_sorted book.asks) book.depthLevels)

/-! ## §2 The sides after an update -/

/-- What a side holds at a key after a list of levels. -/
def rewritten (side : Side) (levels : List Level) (key : Nat) : Option ℚ :=
  match lastListed key levels with
  | some qty => if qty = 0 then none else some qty
  | none => side[key]?

/-- An update that is applied finds the book live and leaves it live at its own id, with both
sides rewritten. -/
theorem handleUpdate_applied {book : Orderbook} {update : DepthUpdate} {resyncNeeded : Bool}
    (h : (book.handleUpdate update resyncNeeded).1 = .ok true) :
    (book.handleUpdate update resyncNeeded).2.1 =
      book.liveAt (applyLevels book.sides update) update.lastUpdateId := by
  cases hst : book.state with
  | buffering buf =>
      rw [handleUpdate_buffering hst] at h
      cases h
  | live n =>
      rw [handleUpdate_live hst] at h ⊢
      cases hseq : sequencing n update with
      | stale => rw [hseq] at h; cases h
      | gap => rw [hseq] at h; cases h
      | apply => rfl

/-- **The published view is the true top of the book after every update.**  When an update is
applied, every key of the new bids holds what the update lists last for it under `b` (nothing,
if that is zero) and its old quantity when the update does not list it, and the asks likewise
with `a`; and the view published next is the top of these two sides. -/
theorem published_view_is_top_of_book (book : Orderbook) (update : DepthUpdate)
    (resyncNeeded : Bool) (nowMs : UInt64)
    (happlied : (book.handleUpdate update resyncNeeded).1 = .ok true) :
    let after := (book.handleUpdate update resyncNeeded).2.1
    (∀ key, after.bids[key]? = rewritten book.bids update.bids key) ∧
    (∀ key, after.asks[key]? = rewritten book.asks update.asks key) ∧
    TopLevels (· > ·) book.depthLevels after.bids (after.snapshot nowMs).bids ∧
    TopLevels (· < ·) book.depthLevels after.asks (after.snapshot nowMs).asks := by
  intro after
  have hafter : after = book.liveAt (applyLevels book.sides update) update.lastUpdateId :=
    handleUpdate_applied happlied
  have hdepth : after.depthLevels = book.depthLevels := by rw [hafter]; rfl
  refine ⟨?_, ?_, ?_, ?_⟩
  · intro key
    rw [hafter]
    exact getElem?_foldl_applyLevel update.bids book.bids key
  · intro key
    rw [hafter]
    exact getElem?_foldl_applyLevel update.asks book.asks key
  · rw [← hdepth]
    exact after.snapshot_bids nowMs
  · rw [← hdepth]
    exact after.snapshot_asks nowMs

/-! A book that shows one level a side, with a second bid below the cut: deleting the best bid
brings it back. -/

def twoBids : DepthSnapshot where
  lastUpdateId := 5
  bids := [("2.0", "1.0"), ("1.0", "3.0")]
  asks := [("3.0", "1.0")]

def bestBidGone : DepthUpdate where
  eventType := "depthUpdate"
  eventTime := 0
  symbol := "BTCUSDT"
  firstUpdateId := 6
  lastUpdateId := 6
  prevLastUpdateId := 5
  bids := [("2.0", "0.0")]
  asks := []

theorem hidden_bid_reappears :
    let book := ((new "BTCUSDT" 1).handleSnapshot twoBids).2
    let after := (book.handleUpdate bestBidGone false).2.1
    (book.snapshot 0).bids = [(2, 1)] ∧ (after.snapshot 0).bids = [(1, 3)] ∧
      TopLevels (· > ·) 1 after.bids (after.snapshot 0).bids :=
  ⟨by decide +kernel, by decide +kernel,
    (published_view_is_top_of_book ((new "BTCUSDT" 1).handleSnapshot twoBids).2 bestBidGone false 0
      (by decide +kernel)).2.2.1⟩

end Orderbook

end CryptoTrader
