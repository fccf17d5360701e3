/-
# CryptoTrader.Lib.StaleReads — operations accepted on a reading that is some operations old.

A gate that reads a mirror of a resource judges an operation on the resource as it was; up to `n`
operations that it accepted since are still to be applied.  `Stale R n a ops` says so of every operation
of a queue.  A floor that such a gate keeps an amount above is not kept, but it is missed by no more than
`n` operations can take (`Stale.bound`); for `n = 0` it is kept.
-/
import CryptoTrader.Lib.Deferred
import Mathlib.Algebra.Order.Monoid.Unbundled.Pow
import Mathlib.Algebra.Order.Group.Defs
import Mathlib.Data.List.Induction

namespace CryptoTrader.Lib.Deferred

universe u v w

variable {α : Type u} {ω : Type v} (apply : α → ω → α)

/-- Every operation met `R` on the resource as it is at most `n` operations before its own turn. -/
def Stale (R : α → ω → Prop) (n : Nat) (a : α) (ops : List ω) : Prop :=
  ∀ before op after, ops = before ++ op :: after → ∃ seen rest, before = seen ++ rest ∧
    rest.length ≤ n ∧ R (settle apply a seen) op

variable {apply} {R : α → ω → Prop} {n : Nat} {a : α}

theorem stale_nil : Stale apply R n a [] := by
  intro before op after h
  exact absurd h.symm (List.append_ne_nil_of_right_ne_nil _ (List.cons_ne_nil _ _))

/-- **One more operation** is accepted on a reading that is `rest` behind. -/
theorem Stale.concat {seen rest : List ω} {op : ω} (h : Stale apply R n a (seen ++ rest))
    (hn : rest.length ≤ n) (hR : R (settle apply a seen) op) :
    Stale apply R n a (seen ++ rest ++ [op]) := by
  intro before op' after hsplit
  rcases List.eq_nil_or_concat after with rfl | ⟨after', x, rfl⟩
  · obtain ⟨hbefore, hop⟩ := List.append_inj' hsplit rfl
    obtain rfl := List.singleton_inj.mp hop
    exact ⟨seen, rest, hbefore.symm, hn, hR⟩
  · have hassoc : seen ++ rest ++ [op] = (before ++ op' :: after') ++ [x] := by
      rw [hsplit, List.concat_eq_append, List.append_assoc, List.cons_append]
    exact h before op' after' (List.append_inj' hassoc rfl).1

theorem Stale.of_append {xs ys : List ω} (h : Stale apply R n a (xs ++ ys)) : Stale apply R n a xs := by
  intro before op after hsplit
  refine h before op (after ++ ys) ?_
  rw [hsplit, List.append_assoc, List.cons_append]

/-- What holds of the resource and is kept by the operations. -/
theorem settle_kept {P : α → Prop} (hP : ∀ a op, P a → P (apply a op)) (ha : P a) (ops : List ω) :
    P (settle apply a ops) := by
  induction ops generalizing a with
  | nil => exact ha
  | cons op ops ih => exact ih (hP a op ha)

section

variable {M : Type w} [AddCommGroup M] [PartialOrder M] [IsOrderedAddMonoid M] {value : α → M} {B : M}
  {P : α → Prop}

/-- Operations that each take at most `B`. -/
theorem le_settle_add (hP : ∀ a op, P a → P (apply a op)) {ops : List ω}
    (htake : ∀ op ∈ ops, ∀ here, P here → value here ≤ value (apply here op) + B) (ha : P a) :
    value a ≤ value (settle apply a ops) + ops.length • B := by
  induction ops generalizing a with
  | nil => rw [settle_nil, List.length_nil, zero_nsmul, add_zero]
  | cons op ops ih =>
      have hhead := htake op List.mem_cons_self a ha
      have htail := ih (fun o ho => htake o (List.mem_cons_of_mem op ho)) (hP a op ha)
      calc value a ≤ value (apply a op) + B := hhead
        _ ≤ value (settle apply (apply a op) ops) + ops.length • B + B := add_le_add_left htail B
        _ = value (settle apply a (op :: ops)) + (op :: ops).length • B := by
            rw [settle_cons, List.length_cons, succ_nsmul, add_assoc]

/-- **A floor judged on stale readings.**  No operation takes more than `B`, and each takes nothing or at
most what its reading showed: then the amount stays above the floor but for what `n` operations take. -/
theorem Stale.bound (hP : ∀ a op, P a → P (apply a op))
    (hR : ∀ read here op, P read → P here → R read op → value here ≤ value (apply here op) + B ∧
      (value here ≤ value (apply here op) ∨ value here ≤ value (apply here op) + value read))
    (hB : 0 ≤ B) {ops : List ω} (h : Stale apply R n a ops) (ha : P a) (hfloor : 0 ≤ value a) :
    0 ≤ value (settle apply a ops) + n • B := by
  induction ops using List.reverseRecOn with
  | nil => exact add_nonneg hfloor (nsmul_nonneg hB n)
  | append_singleton ops op ih =>
      have hprev := ih h.of_append
      obtain ⟨seen, rest, rfl, hlength, hop⟩ := h ops op [] rfl
      have hseen : P (settle apply a seen) := settle_kept hP ha seen
      have hhere : P (settle apply a (seen ++ rest)) := settle_kept hP ha _
      rw [settle_concat]
      rcases (hR _ _ op hseen hhere hop).2 with hkept | hcovered
      · exact hprev.trans (add_le_add_left hkept _)
      · have htake : ∀ o ∈ rest, ∀ here, P here → value here ≤ value (apply here o) + B := by
          intro o ho here hhere'
          obtain ⟨before, after, hsplit⟩ := List.append_of_mem (List.mem_append_right seen ho)
          obtain ⟨seen', -, -, -, hread⟩ := h.of_append before o after hsplit
          exact (hR _ here o (settle_kept hP ha seen') hhere' hread).1
        have hbehind : value (settle apply a seen)
            ≤ value (settle apply a (seen ++ rest)) + n • B := by
          rw [settle_append]
          exact (le_settle_add hP htake hseen).trans
            (add_le_add_right (nsmul_le_nsmul_left hB hlength) _)
        set here := value (settle apply a (seen ++ rest))
        have hsum : here + 0 ≤ here + (value (apply (settle apply a (seen ++ rest)) op) + n • B) := by
          calc here + 0 = here := add_zero _
            _ ≤ value (apply (settle apply a (seen ++ rest)) op) + value (settle apply a seen) := hcovered
            _ ≤ value (apply (settle apply a (seen ++ rest)) op) + (here + n • B) :=
                add_le_add_right hbehind _
            _ = here + (value (apply (settle apply a (seen ++ rest)) op) + n • B) := add_left_comm _ _ _
        exact le_of_add_le_add_left hsum

end

end CryptoTrader.Lib.Deferred
