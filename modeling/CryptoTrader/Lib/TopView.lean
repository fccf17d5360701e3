/-
# CryptoTrader.Lib.TopView — the best few entries of a collection under a strict order.

A view is `IsTop` of a list of entries when it shows as many of them as it may, best first, and
whatever it leaves out is worse than everything it shows.  That is what a truncated sorted list
is (`isTop_take`), it does not depend on the order the entries are listed in (`IsTop.perm`), and
it goes through a map that keeps the order (`IsTop.map`).  The order is any relation.
-/
import Mathlib.Data.List.Basic

namespace CryptoTrader.Lib.TopView

universe u v

variable {α : Type u} {β : Type v}

/-- `view` shows the best `k` of the entries `xs`, best first. -/
structure IsTop (better : α → α → Prop) (k : Nat) (xs view : List α) : Prop where
  length : view.length = min k xs.length
  sorted : view.Pairwise better
  shown : ∀ x ∈ view, x ∈ xs
  hidden : ∀ x ∈ xs, x ∉ view → ∀ y ∈ view, better y x

variable {better : α → α → Prop} {k : Nat} {xs view : List α}

/-- **A sorted list, cut off**, is the top of its entries. -/
theorem isTop_take (h : xs.Pairwise better) (k : Nat) : IsTop better k xs (xs.take k) where
  length := List.length_take
  sorted := h.sublist (List.take_sublist k xs)
  shown _ hx := List.mem_of_mem_take hx
  hidden := by
    intro x hx hout y hy
    rw [← List.take_append_drop k xs] at h hx
    have hdrop : x ∈ xs.drop k := (List.mem_append.mp hx).resolve_left hout
    exact (List.pairwise_append.mp h).2.2 y hy x hdrop

theorem IsTop.perm (h : IsTop better k xs view) {ys : List α} (hp : xs.Perm ys) :
    IsTop better k ys view where
  length := hp.length_eq ▸ h.length
  sorted := h.sorted
  shown x hx := hp.mem_iff.mp (h.shown x hx)
  hidden x hx := h.hidden x (hp.mem_iff.mpr hx)

/-- An order-preserving map of the entries maps their top to their top. -/
theorem IsTop.map (h : IsTop better k xs view) {f : α → β} {better' : β → β → Prop}
    (hf : ∀ x y, better x y → better' (f x) (f y)) :
    IsTop better' k (xs.map f) (view.map f) where
  length := by rw [List.length_map, List.length_map, h.length]
  sorted := List.pairwise_map.mpr (h.sorted.imp (hf _ _))
  shown := by
    intro b hb
    obtain ⟨x, hx, rfl⟩ := List.mem_map.mp hb
    exact List.mem_map_of_mem (h.shown x hx)
  hidden := by
    intro b hb hout c hc
    obtain ⟨x, hx, rfl⟩ := List.mem_map.mp hb
    obtain ⟨y, hy, rfl⟩ := List.mem_map.mp hc
    have hxout : x ∉ view := fun hx' => hout (List.mem_map_of_mem hx')
    exact hf y x (h.hidden x hx hxout y hy)

end CryptoTrader.Lib.TopView
