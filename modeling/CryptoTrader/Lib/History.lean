/-
# CryptoTrader.Lib.History — diffs of a keyed history and the states they may be applied to.

A history assigns to every id a function from keys to values.  A diff lists some keys with a new
value and leaves the others out.  It covers the interval `[lo, hi]` of the history when every
listed value is the one at `hi`, and every key it leaves out keeps its value all over `[lo, hi]`.
Such a diff takes the state at ANY id of the interval to the state at `hi`: it may overlap what it
is applied to.  Ids carry any relation `≤`; keys and values are arbitrary.
-/
import Mathlib.Logic.Basic

namespace CryptoTrader.Lib.History

variable {ι κ V : Type} [LE ι]

/-- The diff describes how the history gets from anywhere in `[lo, hi]` to `hi`. -/
def Covers (B : ι → κ → V) (lo hi : ι) (diff : κ → Option V) : Prop :=
  ∀ k, (∃ v, diff k = some v ∧ v = B hi k) ∨
    (diff k = none ∧ ∀ m, lo ≤ m → m ≤ hi → B m k = B hi k)

/-- Overwrite the listed keys. -/
def patch (f : κ → V) (diff : κ → Option V) : κ → V := fun k => (diff k).getD (f k)

/-- A covering diff takes the state at any id of its interval to the state at its end. -/
theorem Covers.patch_eq {B : ι → κ → V} {lo hi n : ι} {diff : κ → Option V}
    (h : Covers B lo hi diff) (hlo : lo ≤ n) (hhi : n ≤ hi) : patch (B n) diff = B hi := by
  funext k
  rcases h k with ⟨v, hv, rfl⟩ | ⟨hnone, hconst⟩
  · simp only [patch, hv, Option.getD_some]
  · simp only [patch, hnone, Option.getD_none]
    exact hconst n hlo hhi

end CryptoTrader.Lib.History
