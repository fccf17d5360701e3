/-
# CryptoTrader.Lib.Refinement — a machine whose runs are runs of another one.

A refinement maps the states of `M` to states of `N`, and every step of `M` to a run of `N` between
the images: one step, several, or none when the step is of no concern to `N`.  Runs then map to runs
(`exec`), and whatever the runs of `N` put out can be read off the runs of `M` (`outputs_trace`).
So a property of the runs of a component is a property of the runs of every system that contains the
component.
-/
import CryptoTrader.Lib.Outputs

namespace CryptoTrader.Lib

variable {S A T B : Type*}

/-- Every step of `M` is a run of `N` between the images of its states. -/
structure Refinement (M : Machine S A) (N : Machine T B) where
  abs : S → T
  labels : S → A → List B
  sound : ∀ {s s' a}, M.step s a = some s' → N.exec (abs s) (labels s a) = some (abs s')

namespace Refinement

variable {M : Machine S A} {N : Machine T B} (R : Refinement M N)

/-- The run of `N` that a run of `M` maps to. -/
def trace (s : S) (as : List A) : List B := M.outputs R.labels s as

theorem trace_append {s t : S} {as : List A} (h : M.exec s as = some t) (bs : List A) :
    R.trace s (as ++ bs) = R.trace s as ++ R.trace t bs :=
  M.outputs_append h bs

theorem trace_singleton {s t : S} {a : A} (h : M.step s a = some t) :
    R.trace s [a] = R.labels s a :=
  M.outputs_singleton h

/-- **Runs map to runs.** -/
theorem exec {s t : S} {as : List A} (h : M.exec s as = some t) :
    N.exec (R.abs s) (R.trace s as) = some (R.abs t) := by
  induction as generalizing s with
  | nil =>
      obtain rfl := Option.some.inj h
      rfl
  | cons a as ih =>
      obtain ⟨s', hs', hrest⟩ := M.exec_cons_eq_some.mp h
      rw [trace, M.outputs_cons hs']
      exact N.exec_trans (R.sound hs') (ih hrest)

/-- What the mapped run puts out, read off the run itself. -/
theorem outputs_trace {O : Type*} {out : T → B → List O} {out' : S → A → List O}
    (h : ∀ s a s', M.step s a = some s' → N.outputs out (R.abs s) (R.labels s a) = out' s a)
    {s t : S} {as : List A} (hrun : M.exec s as = some t) :
    N.outputs out (R.abs s) (R.trace s as) = M.outputs out' s as := by
  induction as generalizing s with
  | nil => rfl
  | cons a as ih =>
      obtain ⟨s', hs', hrest⟩ := M.exec_cons_eq_some.mp hrun
      rw [trace, M.outputs_cons hs', M.outputs_cons hs', N.outputs_append (R.sound hs'),
        h s a s' hs']
      exact congrArg _ (ih hrest)

end Refinement

end CryptoTrader.Lib
