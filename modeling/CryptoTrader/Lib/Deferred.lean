/-
# CryptoTrader.Lib.Deferred — operations that are accepted now and applied later, in order.

A resource `a` and a queue `ops` of accepted operations, applied from the front one at a time.
`settle` is the resource once the queue has run dry.  `Along R` says that every operation meets
`R` at the moment it will be applied, which is a property of the resource it will find then and
not of the one there is now.  Two rules move it: taking the front operation off and applying it
(`Along.cons`), and accepting one more at the back, where `R` has to hold of the settled resource
(`along_concat`).
-/
import Mathlib.Data.List.Basic

namespace CryptoTrader.Lib.Deferred

universe u v

variable {α : Type u} {ω : Type v} (apply : α → ω → α)

/-- The resource after the queued operations. -/
def settle (a : α) (ops : List ω) : α := ops.foldl apply a

@[simp] theorem settle_nil (a : α) : settle apply a [] = a := rfl

@[simp] theorem settle_cons (a : α) (op : ω) (ops : List ω) :
    settle apply a (op :: ops) = settle apply (apply a op) ops := rfl

theorem settle_append (a : α) (xs ys : List ω) :
    settle apply a (xs ++ ys) = settle apply (settle apply a xs) ys := List.foldl_append

theorem settle_concat (a : α) (ops : List ω) (op : ω) :
    settle apply a (ops ++ [op]) = apply (settle apply a ops) op := by
  rw [settle_append, settle_cons, settle_nil]

/-- Every queued operation meets `R` when its turn comes. -/
def Along (R : α → ω → Prop) (a : α) : List ω → Prop
  | [] => True
  | op :: ops => R a op ∧ Along R (apply a op) ops

variable {apply} {R : α → ω → Prop}

theorem along_append {a : α} {xs ys : List ω} :
    Along apply R a (xs ++ ys) ↔ Along apply R a xs ∧ Along apply R (settle apply a xs) ys := by
  induction xs generalizing a with
  | nil => simp [Along]
  | cons x xs ih => simp only [List.cons_append, Along, ih, settle_cons, and_assoc]

/-- One more operation is safe when it is safe on the settled resource. -/
theorem along_concat {a : α} {ops : List ω} {op : ω} :
    Along apply R a (ops ++ [op]) ↔ Along apply R a ops ∧ R (settle apply a ops) op := by
  rw [along_append]
  simp only [Along, and_true]

/-- What every safe operation establishes, or what an empty queue finds, holds when settled. -/
theorem Along.settle {P : α → Prop} (hP : ∀ a op, P a → R a op → P (apply a op)) {a : α}
    {ops : List ω} (ha : P a) (h : Along apply R a ops) : P (settle apply a ops) := by
  induction ops generalizing a with
  | nil => exact ha
  | cons op ops ih => exact ih (hP a op ha h.1) h.2

/-- **The invariant rule**: where every safe operation keeps `P` and, under `P`, also meets `R'`,
a safe queue keeps `P` and meets `R'` throughout. -/
theorem Along.carry {P : α → Prop} {R' : α → ω → Prop}
    (hstep : ∀ a op, P a → R a op → R' a op ∧ P (apply a op)) {a : α} {ops : List ω} (ha : P a)
    (h : Along apply R a ops) : Along apply R' a ops ∧ P (Deferred.settle apply a ops) := by
  induction ops generalizing a with
  | nil => exact ⟨trivial, ha⟩
  | cons op ops ih =>
      obtain ⟨hop, hnext⟩ := hstep a op ha h.1
      obtain ⟨hrest, hend⟩ := ih hnext h.2
      exact ⟨⟨hop, hrest⟩, hend⟩

/-- What no operation changes is the same when settled. -/
theorem settle_frame {β : Type*} {f : α → β} (hf : ∀ a op, f (apply a op) = f a) (a : α)
    (ops : List ω) : f (settle apply a ops) = f a := by
  induction ops generalizing a with
  | nil => rfl
  | cons op ops ih => rw [settle_cons, ih, hf]

end CryptoTrader.Lib.Deferred
