/-
# CryptoTrader.Lib.Lockstep — two systems that read the same inputs and emit outputs.

An `Emitter` is deterministic: one input, at most one output, the next state.  A `System` is the
same as a relation, for the side whose steps are not determined (another thread may take them in
any order).  The two run in lockstep as long as a guard holds, and fork where it first fails: there
one of them emits an output that the other has not emitted and will not emit next.

`emitted_eq_iff` is then exact: the two emit the same list if and only if the guard holds along the
whole run.  Before the fork the outputs agree one by one; after it, whatever the silent side still
emits starts with something else.
-/
import CryptoTrader.Lib.Machine

namespace CryptoTrader.Lib.Lockstep

variable {S T A O : Type*}

/-- `s` reads `a`, emits the output if there is one, and becomes `s'`. -/
abbrev System (S A O : Type*) := S → A → Option O → S → Prop

/-- A run over a list of inputs, with the list of its outputs. -/
inductive Run (N : System T A O) : T → List A → List O → T → Prop where
  | nil (t : T) : Run N t [] [] t
  | cons {t mid t' : T} {a : A} {o : Option O} {as : List A} {os : List O} :
      N t a o mid → Run N mid as os t' → Run N t (a :: as) (o.toList ++ os) t'

/-- The first output of any run from here on is not `x`. -/
def NeverNext (N : System T A O) (x : O) (t : T) : Prop :=
  ∀ as os t', ¬ Run N t as (x :: os) t'

/-- What holds of the state as long as nothing is emitted, and rules `x` out, keeps `x` from being
the next output. -/
theorem neverNext_of_invariant {N : System T A O} {x : O} {I : T → Prop}
    (hquiet : ∀ t a t', I t → N t a none t' → I t')
    (hemit : ∀ t a t', I t → ¬ N t a (some x) t') {t : T} (h : I t) : NeverNext N x t := by
  intro as
  induction as generalizing t with
  | nil =>
      intro os t' hrun
      cases hrun
  | cons a as ih =>
      intro os t' hrun
      generalize hout : x :: os = out at hrun
      cases hrun with
      | @cons _ mid _ _ o _ rest hstep hrest =>
          cases o with
          | none =>
              have hrest' : Run N mid as (x :: os) t' := by
                rw [hout]
                exact hrest
              exact ih (hquiet t a mid h hstep) os t' hrest'
          | some y =>
              obtain ⟨rfl, -⟩ := List.cons.inj hout
              exact hemit t a mid h hstep

/-- A deterministic system. -/
structure Emitter (S A O : Type*) where
  out : S → A → Option O
  next : S → A → S

namespace Emitter

variable (E : Emitter S A O)

def machine : Machine S A := ⟨fun s a => some (E.next s a)⟩

def emitted (s : S) : List A → List O
  | [] => []
  | a :: as => (E.out s a).toList ++ emitted (E.next s a) as

/-- An emitter as a system. -/
def system : System S A O := fun s a o s' => E.out s a = o ∧ E.next s a = s'

/-- The run of an emitter over a list of inputs. -/
theorem run_system (s : S) (as : List A) :
    Run E.system s as (E.emitted s as) (as.foldl E.next s) := by
  induction as generalizing s with
  | nil => exact .nil s
  | cons a as ih => exact .cons ⟨rfl, rfl⟩ (ih (E.next s a))

/-- A guarded run of an emitter, one input at a time. -/
theorem guarded_cons {C : S → A → Prop} {s : S} {a : A} {as : List A} :
    E.machine.Guarded C s (a :: as) ↔ C s a ∧ E.machine.Guarded C (E.next s a) as :=
  and_congr_right fun _ => ⟨fun h => h _ rfl, fun h _ hs' => Option.some.inj hs' ▸ h⟩

end Emitter

/-- The two sides after an input on which they differ: one has emitted, the other has not, and will
not emit that next. -/
inductive Fork (E : Emitter S A O) (N : System T A O) (s : S) (t : T) :
    Option O → Option O → Prop where
  | left {x : O} : NeverNext N x t → Fork E N s t (some x) none
  | right {x : O} : NeverNext E.system x s → Fork E N s t none (some x)

/-- After a fork the lists of outputs differ, whatever the inputs still to come are. -/
theorem Fork.ne {E : Emitter S A O} {N : System T A O} {s : S} {t t' : T} {l r : Option O}
    (h : Fork E N s t l r) {as : List A} {os : List O} (hrun : Run N t as os t') :
    l.toList ++ E.emitted s as ≠ r.toList ++ os := by
  cases h with
  | left hnever =>
      intro heq
      exact hnever as _ t' ((show _ = os from heq) ▸ hrun)
  | right hnever =>
      intro heq
      exact hnever as _ _ ((show E.emitted s as = _ from heq) ▸ E.run_system s as)

/-- **Lockstep, and exactly as long as the guard holds.**  `R` relates the two sides under the
inputs still to come. -/
theorem emitted_eq_iff {E : Emitter S A O} {N : System T A O} {C : S → A → Prop}
    {R : List A → S → T → Prop}
    (hsame : ∀ {a as s t o t'}, R (a :: as) s t → C s a → N t a o t' →
      E.out s a = o ∧ R as (E.next s a) t')
    (hfork : ∀ {a as s t o t'}, R (a :: as) s t → ¬ C s a → N t a o t' →
      Fork E N (E.next s a) t' (E.out s a) o)
    {as : List A} {s : S} {t t' : T} {os : List O} (hR : R as s t) (hrun : Run N t as os t') :
    (E.emitted s as = os ↔ E.machine.Guarded C s as) ∧
      (E.machine.Guarded C s as → R [] (as.foldl E.next s) t') := by
  induction as generalizing s t os with
  | nil =>
      cases hrun
      exact ⟨iff_of_true rfl trivial, fun _ => hR⟩
  | cons a as ih =>
      cases hrun with
      | @cons _ mid _ _ o _ rest hstep hrest =>
          rw [E.guarded_cons]
          by_cases hC : C s a
          · obtain ⟨hout, hR'⟩ := hsame hR hC hstep
            obtain ⟨hiff, hend⟩ := ih hR' hrest
            refine ⟨?_, fun h => hend h.2⟩
            rw [Emitter.emitted, hout, List.append_right_inj, hiff]
            exact (and_iff_right hC).symm
          · have hne := (hfork hR hC hstep).ne hrest
            exact ⟨iff_of_false hne fun h => hC h.1, fun h => absurd h.1 hC⟩

end CryptoTrader.Lib.Lockstep
