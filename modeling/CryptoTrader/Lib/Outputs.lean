/-
# CryptoTrader.Lib.Outputs — what a run leaves behind, step by step.

`outputs out` collects what each step of a run puts out, where `out` reads it off the state before
the step and the input.  It is a history of the run that the machine itself need not keep.  Two rules
tie it to the states.  `exec_history` is the invariant rule with the history as a second argument;
`conserved` is the law of a FIFO queue: if every step appends what it puts in and takes what it hands
out from the front, then what went in is what came out followed by what is still inside.

`balanced` is the same law for a stock that is only counted.

A measure that every step of a kind brings down bounds the runs of that kind (`length_add_le`).
-/
import CryptoTrader.Lib.Machine
import Mathlib.Data.List.Basic

namespace CryptoTrader.Lib

universe u v w

namespace Machine

variable {S : Type u} {A : Type v} {O : Type w} (M : Machine S A)

/-! ## Outputs -/

/-- The outputs of a run, in order; a disabled input ends it. -/
def outputs (out : S → A → List O) (s : S) : List A → List O
  | [] => []
  | a :: as =>
      match M.step s a with
      | some s' => out s a ++ outputs out s' as
      | none => []

@[simp] theorem outputs_nil (out : S → A → List O) (s : S) : M.outputs out s [] = [] := rfl

theorem outputs_cons {out : S → A → List O} {s s' : S} {a : A} (h : M.step s a = some s')
    (as : List A) : M.outputs out s (a :: as) = out s a ++ M.outputs out s' as := by
  simp only [outputs, h]

/-- The outputs of two runs, one after the other. -/
theorem outputs_append {out : S → A → List O} {s t : S} {as : List A}
    (h : M.exec s as = some t) (bs : List A) :
    M.outputs out s (as ++ bs) = M.outputs out s as ++ M.outputs out t bs := by
  induction as generalizing s with
  | nil =>
      obtain rfl := Option.some.inj h
      rfl
  | cons a as ih =>
      obtain ⟨s', hs', hrest⟩ := M.exec_cons_eq_some.mp h
      rw [List.cons_append, M.outputs_cons hs', M.outputs_cons hs', ih hrest, List.append_assoc]

theorem outputs_singleton {out : S → A → List O} {s t : S} {a : A} (h : M.step s a = some t) :
    M.outputs out s [a] = out s a :=
  (M.outputs_cons h []).trans (List.append_nil _)

/-- An input that always puts something out has put it out in every run that it is part of. -/
theorem mem_outputs {out : S → A → List O} {a : A} {x : O} (h : ∀ s, x ∈ out s a) {as : List A}
    (ha : a ∈ as) {s t : S} (hrun : M.exec s as = some t) : x ∈ M.outputs out s as := by
  induction as generalizing s with
  | nil => cases ha
  | cons b as ih =>
      obtain ⟨s', hs', hrest⟩ := M.exec_cons_eq_some.mp hrun
      rw [M.outputs_cons hs', List.mem_append]
      rcases List.mem_cons.mp ha with rfl | ha
      · exact Or.inl (h s)
      · exact Or.inr (ih ha hrest)

/-- A run whose steps put out their inputs puts out the run. -/
theorem outputs_inputs {as : List A} {s t : S} (hrun : M.exec s as = some t) :
    M.outputs (fun _ a => [a]) s as = as := by
  induction as generalizing s with
  | nil => rfl
  | cons a as ih =>
      obtain ⟨s', hs', hrest⟩ := M.exec_cons_eq_some.mp hrun
      rw [M.outputs_cons hs', ih hrest, List.singleton_append]

/-- Steps without an output leave none. -/
theorem outputs_eq_nil {out : S → A → List O} {as : List A} (h : ∀ s, ∀ a ∈ as, out s a = [])
    (s : S) : M.outputs out s as = [] := by
  induction as generalizing s with
  | nil => rfl
  | cons a as ih =>
      cases hstep : M.step s a with
      | none => simp only [outputs, hstep]
      | some s' =>
          rw [M.outputs_cons hstep, h s a List.mem_cons_self,
            ih (fun t b hb => h t b (List.mem_cons_of_mem a hb)) s', List.nil_append]

/-- Outputs that are made from others one by one. -/
theorem outputs_map {P : Type*} (f : O → P) (out : S → A → List O) (s : S) (as : List A) :
    M.outputs (fun s a => (out s a).map f) s as = (M.outputs out s as).map f := by
  induction as generalizing s with
  | nil => rfl
  | cons a as ih =>
      cases hstep : M.step s a with
      | none => simp only [outputs, hstep, List.map_nil]
      | some s' => rw [M.outputs_cons hstep, M.outputs_cons hstep, ih s', List.map_append]

/-- Outputs that are picked from others, and changed. -/
theorem outputs_filterMap {P : Type*} (f : O → Option P) (out : S → A → List O) (s : S)
    (as : List A) :
    M.outputs (fun s a => (out s a).filterMap f) s as = (M.outputs out s as).filterMap f := by
  induction as generalizing s with
  | nil => rfl
  | cons a as ih =>
      cases hstep : M.step s a with
      | none => simp only [outputs, hstep, List.filterMap_nil]
      | some s' => rw [M.outputs_cons hstep, M.outputs_cons hstep, ih s', List.filterMap_append]

/-! ## The rules -/

/-- **The invariant rule, with the history.**  A relation between the state and the outputs so far
that every step meeting the guard carries on holds at the end of every guarded run. -/
theorem exec_history {C : S → A → Prop} {out : S → A → List O} {I : S → List O → Prop}
    (hstep : ∀ s a s' log, I s log → C s a → M.step s a = some s' → I s' (log ++ out s a))
    {as : List A} {s t : S} {log : List O} (hI : I s log) (hC : M.Guarded C s as)
    (hrun : M.exec s as = some t) : I t (log ++ M.outputs out s as) := by
  induction as generalizing s log with
  | nil =>
      obtain rfl := Option.some.inj hrun
      rwa [outputs_nil, List.append_nil]
  | cons a as ih =>
      obtain ⟨s', hs', hrest⟩ := M.exec_cons_eq_some.mp hrun
      rw [M.outputs_cons hs', ← List.append_assoc]
      exact ih (hstep s a s' log hI hC.1 hs') (hC.2 s' hs') hrest

/-- The same from an empty history. -/
theorem exec_history_guarded {C : S → A → Prop} {out : S → A → List O} {I : S → List O → Prop}
    (hstep : ∀ s a s' log, I s log → C s a → M.step s a = some s' → I s' (log ++ out s a))
    {as : List A} {s t : S} (hI : I s []) (hC : M.Guarded C s as) (hrun : M.exec s as = some t) :
    I t (M.outputs out s as) := by
  have hend := M.exec_history hstep hI hC hrun
  rwa [List.nil_append] at hend

/-- The same for unguarded runs. -/
theorem exec_history_of_step {out : S → A → List O} {I : S → List O → Prop}
    (hstep : ∀ s a s' log, I s log → M.step s a = some s' → I s' (log ++ out s a))
    {as : List A} {s t : S} (hI : I s []) (hrun : M.exec s as = some t) :
    I t (M.outputs out s as) :=
  M.exec_history_guarded (C := fun _ _ => True) (fun s a s' log h _ => hstep s a s' log h) hI
    (M.guarded_of_forall (fun _ _ _ => trivial) s) hrun

/-- The same with two histories. -/
theorem exec_histories_of_step {P : Type*} {out : S → A → List O} {out' : S → A → List P}
    {I : S → List O → List P → Prop}
    (hstep : ∀ s a s' log log', I s log log' → M.step s a = some s' →
      I s' (log ++ out s a) (log' ++ out' s a)) {as : List A} {s t : S} (hI : I s [] [])
    (hrun : M.exec s as = some t) : I t (M.outputs out s as) (M.outputs out' s as) := by
  have hgen : ∀ {s log log'}, I s log log' → M.exec s as = some t →
      I t (log ++ M.outputs out s as) (log' ++ M.outputs out' s as) := by
    clear hI hrun s
    induction as with
    | nil =>
        intro s log log' hI hrun
        obtain rfl := Option.some.inj hrun
        rwa [outputs_nil, outputs_nil, List.append_nil, List.append_nil]
    | cons a as ih =>
        intro s log log' hI hrun
        obtain ⟨s', hs', hrest⟩ := M.exec_cons_eq_some.mp hrun
        rw [M.outputs_cons hs', M.outputs_cons hs', ← List.append_assoc, ← List.append_assoc]
        exact ih (hstep s a s' log log' hI hs') hrest
  exact hgen hI hrun

/-- **Conservation.**  A queue that every step extends at the back by `put` and shortens at the
front by `got` has neither lost nor duplicated anything: what was in it and what was put in is what
came out, in the same order, followed by what is in it still. -/
theorem conserved {Q : S → List O} {put got : S → A → List O}
    (hstep : ∀ s a s', M.step s a = some s' → Q s ++ put s a = got s a ++ Q s')
    {as : List A} {s t : S} (hrun : M.exec s as = some t) :
    Q s ++ M.outputs put s as = M.outputs got s as ++ Q t := by
  induction as generalizing s with
  | nil =>
      obtain rfl := Option.some.inj hrun
      rw [outputs_nil, outputs_nil, List.append_nil, List.nil_append]
  | cons a as ih =>
      obtain ⟨s', hs', hrest⟩ := M.exec_cons_eq_some.mp hrun
      rw [M.outputs_cons hs', M.outputs_cons hs', ← List.append_assoc, hstep s a s' hs',
        List.append_assoc, ih hrest, List.append_assoc]

/-- What a number read off every step of a run adds up to. -/
def tally (n : S → A → Nat) (s : S) : List A → Nat
  | [] => 0
  | a :: as =>
      match M.step s a with
      | some s' => n s a + tally n s' as
      | none => 0

theorem tally_cons {n : S → A → Nat} {s s' : S} {a : A} (h : M.step s a = some s') (as : List A) :
    M.tally n s (a :: as) = n s a + M.tally n s' as := by
  simp only [tally, h]

theorem tally_add (n m : S → A → Nat) (s : S) (as : List A) :
    M.tally (fun s a => n s a + m s a) s as = M.tally n s as + M.tally m s as := by
  induction as generalizing s with
  | nil => rfl
  | cons a as ih =>
      cases hstep : M.step s a with
      | none => simp only [tally, hstep, Nat.add_zero]
      | some s' =>
          rw [M.tally_cons hstep, M.tally_cons hstep, M.tally_cons hstep, ih s']
          omega

theorem tally_congr {n m : S → A → Nat} (h : ∀ s a s', M.step s a = some s' → n s a = m s a) (s : S)
    (as : List A) : M.tally n s as = M.tally m s as := by
  induction as generalizing s with
  | nil => rfl
  | cons a as ih =>
      cases hstep : M.step s a with
      | none => simp only [tally, hstep]
      | some s' => rw [M.tally_cons hstep, M.tally_cons hstep, h s a s' hstep, ih s']

theorem tally_zero (s : S) (as : List A) : M.tally (fun _ _ => 0) s as = 0 := by
  induction as generalizing s with
  | nil => rfl
  | cons a as ih =>
      cases hstep : M.step s a with
      | none => simp only [tally, hstep]
      | some s' => rw [M.tally_cons hstep, ih s']

/-- Counting outputs, step by step. -/
theorem countP_outputs (P : O → Bool) (out : S → A → List O) (s : S) (as : List A) :
    (M.outputs out s as).countP P = M.tally (fun s a => (out s a).countP P) s as := by
  induction as generalizing s with
  | nil => rfl
  | cons a as ih =>
      cases hstep : M.step s a with
      | none => simp only [tally, outputs, hstep, List.countP_nil]
      | some s' => rw [M.outputs_cons hstep, M.tally_cons hstep, List.countP_append, ih s']

/-- **The balance of a stock**: what it started with and what was put in is what was taken out and
what is left. -/
theorem balanced {Q : S → Nat} {put got : S → A → Nat}
    (hstep : ∀ s a s', M.step s a = some s' → Q s + put s a = got s a + Q s')
    {as : List A} {s t : S} (hrun : M.exec s as = some t) :
    Q s + M.tally put s as = M.tally got s as + Q t := by
  induction as generalizing s with
  | nil =>
      obtain rfl := Option.some.inj hrun
      exact Nat.add_comm _ _
  | cons a as ih =>
      obtain ⟨s', hs', hrest⟩ := M.exec_cons_eq_some.mp hrun
      have hone := hstep s a s' hs'
      have hmore := ih hrest
      rw [M.tally_cons hs', M.tally_cons hs']
      omega

/-- A part of the state that every step folds its outputs into is the fold of all of them. -/
theorem folded {D : Type*} {P : S → D} {apply : D → O → D} {out : S → A → List O}
    (hstep : ∀ s a s', M.step s a = some s' → P s' = (out s a).foldl apply (P s))
    {as : List A} {s t : S} (hrun : M.exec s as = some t) :
    P t = (M.outputs out s as).foldl apply (P s) := by
  induction as generalizing s with
  | nil =>
      obtain rfl := Option.some.inj hrun
      rfl
  | cons a as ih =>
      obtain ⟨s', hs', hrest⟩ := M.exec_cons_eq_some.mp hrun
      rw [M.outputs_cons hs', List.foldl_append, ← hstep s a s' hs', ih hrest]

/-- **Runs that end.**  Steps that each bring a measure down are at most as many as it starts
with. -/
theorem length_add_le {K : A → Prop} {W : S → Nat}
    (hstep : ∀ s a s', K a → M.step s a = some s' → W s' < W s) {as : List A} {s t : S}
    (hK : ∀ a ∈ as, K a) (hrun : M.exec s as = some t) : as.length + W t ≤ W s := by
  induction as generalizing s with
  | nil =>
      obtain rfl := Option.some.inj hrun
      simp
  | cons a as ih =>
      obtain ⟨s', hs', hrest⟩ := M.exec_cons_eq_some.mp hrun
      have hless := hstep s a s' (hK a List.mem_cons_self) hs'
      have hle := ih (fun b hb => hK b (List.mem_cons_of_mem a hb)) hrest
      rw [List.length_cons]
      omega

/-- Where a step of a kind is enabled as long as there is something to do, a run of that kind ends
with nothing to do. -/
theorem exists_finished {K : A → Prop} {D : S → Prop} {W : S → Nat}
    (hstep : ∀ s a s', K a → M.step s a = some s' → W s' < W s)
    (hsome : ∀ s, ¬ D s → ∃ a s', K a ∧ M.step s a = some s') (s : S) :
    ∃ as t, (∀ a ∈ as, K a) ∧ M.exec s as = some t ∧ D t := by
  induction hn : W s using Nat.strongRecOn generalizing s with
  | _ n ih =>
      by_cases hdone : D s
      · exact ⟨[], s, fun _ ha => absurd ha List.not_mem_nil, rfl, hdone⟩
      obtain ⟨a, s', hK, hs'⟩ := hsome s hdone
      obtain ⟨as, t, has, hrun, hend⟩ := ih (W s') (hn ▸ hstep s a s' hK hs') s' rfl
      refine ⟨a :: as, t, ?_, M.exec_cons_eq_some.mpr ⟨s', hs', hrun⟩, hend⟩
      intro b hb
      rcases List.mem_cons.mp hb with rfl | hb
      · exact hK
      · exact has b hb

end Machine

end CryptoTrader.Lib
