/-
# CryptoTrader.Lib.Machine — guarded executable machines and the invariant rule for their runs.

A machine is a step function `step s a : Option S`: `some s'` when input `a` is enabled at `s`,
`none` when it is not.  One definition then serves replay (`exec` evaluates a concrete run) and
proof (`exec_invariant` packages the induction over runs).  The inputs of a run are arbitrary, so
a run is one interleaving of whatever actors the inputs belong to.

Some properties hold only of runs whose steps all meet a side condition on the state before the
step and the input taken.  `Guarded` says that of a run, and `exec_invariant` takes it as the
premise, so an unconditional invariant is the case `fun _ _ => True`.
-/
import Mathlib.Logic.Basic

namespace CryptoTrader.Lib

universe u v

/-- A guarded executable machine over states `S` and inputs `A`. -/
structure Machine (S : Type u) (A : Type v) where
  step : S → A → Option S

namespace Machine

variable {S : Type u} {A : Type v} (M : Machine S A)

/-! ## Runs -/

/-- Run the inputs from `s`; `none` as soon as one of them is disabled. -/
def exec (s : S) : List A → Option S
  | [] => some s
  | a :: as => (M.step s a).bind fun s' => exec s' as

@[simp] theorem exec_nil (s : S) : M.exec s [] = some s := rfl

theorem exec_cons (s : S) (a : A) (as : List A) :
    M.exec s (a :: as) = (M.step s a).bind fun s' => M.exec s' as := rfl

/-- A run of `a :: as` takes the step on `a` and goes on from there. -/
theorem exec_cons_eq_some {s t : S} {a : A} {as : List A} :
    M.exec s (a :: as) = some t ↔ ∃ s', M.step s a = some s' ∧ M.exec s' as = some t := by
  rw [exec_cons, Option.bind_eq_some_iff]

/-- Runs compose. -/
theorem exec_append (s : S) (as bs : List A) :
    M.exec s (as ++ bs) = (M.exec s as).bind fun s' => M.exec s' bs := by
  induction as generalizing s with
  | nil => rfl
  | cons a as ih =>
      rw [List.cons_append, exec_cons, exec_cons, Option.bind_assoc]
      exact congrArg _ (funext fun s' => ih s')

/-- Two consecutive runs are one run. -/
theorem exec_trans {s t w : S} {as bs : List A} (h : M.exec s as = some t)
    (h' : M.exec t bs = some w) : M.exec s (as ++ bs) = some w := by
  rw [exec_append, h, Option.bind_some, h']

/-- A run of one input is one step. -/
theorem exec_singleton (s : S) (a : A) : M.exec s [a] = M.step s a := by
  rw [exec_cons]
  cases M.step s a <;> rfl

/-! ## Guarded runs and the invariant rule -/

/-- Every step the run takes meets `C`, a condition on the state before it and its input. -/
def Guarded (C : S → A → Prop) (s : S) : List A → Prop
  | [] => True
  | a :: as => C s a ∧ ∀ s', M.step s a = some s' → Guarded C s' as

/-- Guards that agree wherever a third one holds guard the same runs under it. -/
theorem guarded_congr {P C D : S → A → Prop} (h : ∀ s a, P s a → (C s a ↔ D s a)) {s : S}
    {as : List A} (hP : M.Guarded P s as) : M.Guarded C s as ↔ M.Guarded D s as := by
  induction as generalizing s with
  | nil => exact Iff.rfl
  | cons a as ih =>
      refine and_congr (h s a hP.1) (forall_congr' fun s' => ?_)
      exact imp_congr_right fun hs' => ih (hP.2 s' hs')

/-- Whether a run is guarded can be computed when the guard can. -/
instance instDecidableGuarded (C : S → A → Prop) [∀ s a, Decidable (C s a)] (s : S) :
    (as : List A) → Decidable (M.Guarded C s as)
  | [] => .isTrue trivial
  | a :: as =>
      match h : M.step s a with
      | none => decidable_of_iff (C s a) ⟨fun hC => ⟨hC, by simp [h]⟩, fun hC => hC.1⟩
      | some s' =>
          have : Decidable (M.Guarded C s' as) := instDecidableGuarded C s' as
          decidable_of_iff (C s a ∧ M.Guarded C s' as)
            (and_congr_right fun _ => by simp [h])

/-- **The invariant rule.**  What holds at the start and is preserved by every enabled step that
meets the guard holds at the end of every guarded run. -/
theorem exec_invariant {C : S → A → Prop} {I : S → Prop}
    (hstep : ∀ s a s', I s → C s a → M.step s a = some s' → I s') :
    ∀ {as : List A} {s t : S}, I s → M.Guarded C s as → M.exec s as = some t → I t
  | [], s, t, hI, _, hrun => by
      rw [exec_nil, Option.some.injEq] at hrun
      exact hrun ▸ hI
  | a :: as, s, t, hI, hC, hrun => by
      obtain ⟨s', hs', hrest⟩ := (M.exec_cons_eq_some).mp hrun
      exact exec_invariant hstep (hstep s a s' hI hC.1 hs') (hC.2 s' hs') hrest

/-- A condition that holds of every state and input of the run guards it. -/
theorem guarded_of_forall {C : S → A → Prop} {as : List A} (h : ∀ s, ∀ a ∈ as, C s a) (s : S) :
    M.Guarded C s as := by
  induction as generalizing s with
  | nil => trivial
  | cons a as ih =>
      exact ⟨h s a List.mem_cons_self,
        fun s' _ => ih (fun t b hb => h t b (List.mem_cons_of_mem a hb)) s'⟩

/-- A guarded run whose inputs all meet `P` is guarded by both. -/
theorem Guarded.and_mem {M : Machine S A} {C : S → A → Prop} {P : A → Prop} {s : S} {as : List A}
    (h : M.Guarded C s as) (hP : ∀ a ∈ as, P a) : M.Guarded (fun s a => C s a ∧ P a) s as := by
  induction as generalizing s with
  | nil => trivial
  | cons a as ih =>
      exact ⟨⟨h.1, hP a List.mem_cons_self⟩, fun s' hs' =>
        ih (h.2 s' hs') fun b hb => hP b (List.mem_cons_of_mem a hb)⟩

/-- The invariant rule for unguarded runs: every step preserves the invariant. -/
theorem exec_invariant_of_step {I : S → Prop}
    (hstep : ∀ s a s', I s → M.step s a = some s' → I s') {as : List A} {s t : S}
    (hI : I s) (hrun : M.exec s as = some t) : I t :=
  M.exec_invariant (fun s a s' h (_ : True) => hstep s a s' h) hI
    (M.guarded_of_forall (fun _ _ _ => trivial) s) hrun

/-! ## Conditions that are exact -/

/-- Every state that a run reaches meets `P`, its start included. -/
def Throughout (P : S → Prop) (s : S) (as : List A) : Prop :=
  ∀ done rest t, as = done ++ rest → M.exec s done = some t → P t

theorem throughout_cons {P : S → Prop} {s s' : S} {a : A} {as : List A}
    (hstep : M.step s a = some s') :
    M.Throughout P s (a :: as) ↔ P s ∧ M.Throughout P s' as := by
  constructor
  · intro h
    refine ⟨h [] (a :: as) s rfl rfl, ?_⟩
    rintro done rest t rfl hrun
    exact h (a :: done) rest t rfl (M.exec_cons_eq_some.mpr ⟨s', hstep, hrun⟩)
  · rintro ⟨hs, hrest⟩ done rest t hsplit hrun
    cases done with
    | nil =>
        rw [exec_nil, Option.some.injEq] at hrun
        exact hrun ▸ hs
    | cons b done =>
        obtain ⟨rfl, rfl⟩ := List.cons.inj hsplit
        obtain ⟨s'', hs'', hrest'⟩ := M.exec_cons_eq_some.mp hrun
        obtain rfl := Option.some.inj (hstep.symm.trans hs'')
        exact hrest done rest t rfl hrest'

/-- **An exact condition of steps is an exact condition of runs.**  If a step ends in `P` exactly
when it meets `C`, a run that starts in `P` stays in `P` exactly when all its steps meet `C`. -/
theorem throughout_iff_guarded {P : S → Prop} {C : S → A → Prop}
    (hstep : ∀ s a s', M.step s a = some s' → (P s' ↔ C s a)) {s t : S} {as : List A}
    (hs : P s) (hrun : M.exec s as = some t) : M.Throughout P s as ↔ M.Guarded C s as := by
  induction as generalizing s with
  | nil =>
      refine iff_of_true ?_ trivial
      intro done rest u hsplit hrun'
      obtain rfl := (List.append_eq_nil_iff.mp hsplit.symm).1
      rw [exec_nil, Option.some.injEq] at hrun'
      exact hrun' ▸ hs
  | cons a as ih =>
      obtain ⟨s', hs', hrest⟩ := M.exec_cons_eq_some.mp hrun
      rw [M.throughout_cons hs']
      constructor
      · rintro ⟨_, hthrough⟩
        have hP : P s' := hthrough [] as s' rfl rfl
        refine ⟨(hstep s a s' hs').mp hP, ?_⟩
        intro s'' hs''
        obtain rfl := Option.some.inj (hs'.symm.trans hs'')
        exact (ih hP hrest).mp hthrough
      · rintro ⟨hC, hguard⟩
        exact ⟨hs, (ih ((hstep s a s' hs').mpr hC) hrest).mpr (hguard s' hs')⟩

/-! ## Reachability -/

/-- Some run leads from `s` to `t`. -/
def Reaches (s t : S) : Prop := ∃ as, M.exec s as = some t

end Machine

end CryptoTrader.Lib
