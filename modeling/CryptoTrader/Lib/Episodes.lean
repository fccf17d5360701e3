/-
# CryptoTrader.Lib.Episodes — transducers whose traces are made of episodes.

A transducer answers every input with one output, and its trace pairs the two.  Many of them work
in episodes: some events happen outside, one opens an episode, some are waited through, one closes
it.  A `Grammar` says which events may do that; what is waited for, and what closes, may depend on
the event that opened the episode and on everything since.

`episodes_trace` is the rule: a relation between the phase of the grammar and the state of the
transducer that every step preserves makes every trace a word of the grammar.  Forgetting the quiet
events leaves openings and closings in strict alternation (`Episodes.alternating`).
-/
import Mathlib.Data.List.Basic

namespace CryptoTrader.Lib

/-- A deterministic system that answers every input. -/
structure Transducer (S I O : Type*) where
  step : S → I → O × S

variable {S I O E : Type*}

namespace Transducer

variable (T : Transducer S I O)

/-! ## Runs -/

def after (s : S) (is : List I) : S := is.foldl (fun s i => (T.step s i).2) s

/-- The inputs with their outputs. -/
def trace : S → List I → List (I × O)
  | _, [] => []
  | s, i :: is => (i, (T.step s i).1) :: trace (T.step s i).2 is

@[simp] theorem after_nil (s : S) : T.after s [] = s := rfl

@[simp] theorem after_cons (s : S) (i : I) (is : List I) :
    T.after s (i :: is) = T.after (T.step s i).2 is := rfl

theorem after_append (s : S) (is js : List I) :
    T.after s (is ++ js) = T.after (T.after s is) js := List.foldl_append

@[simp] theorem trace_nil (s : S) : T.trace s [] = [] := rfl

@[simp] theorem trace_cons (s : S) (i : I) (is : List I) :
    T.trace s (i :: is) = (i, (T.step s i).1) :: T.trace (T.step s i).2 is := rfl

theorem trace_append (s : S) (is js : List I) :
    T.trace s (is ++ js) = T.trace s is ++ T.trace (T.after s is) js := by
  induction is generalizing s with
  | nil => rfl
  | cons i is ih => rw [List.cons_append, trace_cons, trace_cons, ih, List.cons_append, after_cons]

/-- What every step preserves holds after every run. -/
theorem after_invariant {P : S → Prop} (hstep : ∀ s i, P s → P (T.step s i).2) {s : S} (h : P s)
    (is : List I) : P (T.after s is) := by
  induction is generalizing s with
  | nil => exact h
  | cons i is ih => exact ih (hstep s i h)

/-- What holds of the history so far and the state, and is carried along by every step. -/
theorem after_history {P : List I → S → Prop}
    (hstep : ∀ is s i, P is s → P (is ++ [i]) (T.step s i).2) {s : S} (h : P [] s)
    (is : List I) : P is (T.after s is) := by
  have hrun : ∀ js is s, P is s → P (is ++ js) (T.after s js) := by
    intro js
    induction js with
    | nil =>
        intro is s h
        rwa [List.append_nil]
    | cons j js ih =>
        intro is s h
        have hnext := ih (is ++ [j]) _ (hstep is s j h)
        rwa [List.append_assoc] at hnext
  exact hrun is [] s h

end Transducer

/-! ## Episodes -/

/-- Where a trace stands: outside, or inside an episode, with what opened it and what has been
waited through since. -/
inductive Phase (E : Type*) where
  | outside
  | inside (opening : E) (since : List E)

/-- Which events may come outside, open an episode, be waited through and close it. -/
structure Grammar (E : Type*) where
  idle : E → Prop
  opens : E → Prop
  waits : E → List E → E → Prop
  closes : E → List E → E → Prop

/-- One event moves the phase. -/
inductive Grammar.Moves (G : Grammar E) : Phase E → E → Phase E → Prop where
  | idle {e : E} : G.idle e → Moves G .outside e .outside
  | opens {e : E} : G.opens e → Moves G .outside e (.inside e [])
  | waits {o : E} {since : List E} {e : E} : G.waits o since e →
      Moves G (.inside o since) e (.inside o (since ++ [e]))
  | closes {o : E} {since : List E} {e : E} : G.closes o since e →
      Moves G (.inside o since) e .outside

/-- A trace made of episodes, read from a phase; the last episode may be unfinished. -/
inductive Grammar.Episodes (G : Grammar E) : Phase E → List E → Prop where
  | nil (p : Phase E) : Episodes G p []
  | cons {p p' : Phase E} {e : E} {es : List E} :
      G.Moves p e p' → Episodes G p' es → Episodes G p (e :: es)

/-- **The rule.**  If every step moves the phase and keeps the relation, the trace is made of
episodes. -/
theorem episodes_trace {T : Transducer S I O} {G : Grammar (I × O)}
    {R : Phase (I × O) → S → Prop}
    (hstep : ∀ p s i, R p s → ∃ p', G.Moves p (i, (T.step s i).1) p' ∧ R p' (T.step s i).2)
    {p : Phase (I × O)} {s : S} (h : R p s) (is : List I) : G.Episodes p (T.trace s is) := by
  induction is generalizing p s with
  | nil => exact .nil p
  | cons i is ih =>
      obtain ⟨p', hmove, hR⟩ := hstep p s i h
      exact .cons hmove (ih hR)

/-! ## Alternation -/

/-- Openings and closings in turn, each closing fit for the opening before it. -/
inductive Alternating (opens : E → Prop) (closes : E → E → Prop) : List E → Prop where
  | nil : Alternating opens closes []
  | opened {o : E} : opens o → Alternating opens closes [o]
  | pair {o c : E} {es : List E} : opens o → closes o c → Alternating opens closes es →
      Alternating opens closes (o :: c :: es)

theorem Alternating.mono {opens opens' : E → Prop} {closes closes' : E → E → Prop} {es : List E}
    (h : Alternating opens closes es) (ho : ∀ o, opens o → opens' o)
    (hc : ∀ o c, opens o → closes o c → closes' o c) : Alternating opens' closes' es := by
  induction h with
  | nil => exact .nil
  | opened hopen => exact .opened (ho _ hopen)
  | pair hopen hclose _ ih => exact .pair (ho _ hopen) (hc _ _ hopen hclose) ih

/-- The openings that have been closed, each with what closed it. -/
def pairs : List E → List (E × E)
  | o :: c :: es => (o, c) :: pairs es
  | _ => []

theorem Alternating.of_mem_pairs {opens : E → Prop} {closes : E → E → Prop} {es : List E}
    (h : Alternating opens closes es) : ∀ p ∈ pairs es, opens p.1 ∧ closes p.1 p.2 := by
  induction h with
  | nil => exact fun p hp => absurd hp List.not_mem_nil
  | opened _ => exact fun p hp => absurd hp List.not_mem_nil
  | pair hopen hclose _ ih =>
      intro p hp
      rcases List.mem_cons.mp hp with rfl | hp
      · exact ⟨hopen, hclose⟩
      · exact ih p hp

/-- There are as many openings as closings, or one more. -/
theorem Alternating.countP {opens : E → Prop} {closes : E → E → Prop} {es : List E} {p : E → Bool}
    (h : Alternating opens closes es) (ho : ∀ o, opens o → p o = true)
    (hc : ∀ o c, opens o → closes o c → p c = false) :
    es.countP p = es.countP (fun e => !p e) ∨ es.countP p = es.countP (fun e => !p e) + 1 := by
  induction h with
  | nil => exact Or.inl rfl
  | opened hopen => exact Or.inr (by simp [ho _ hopen])
  | pair hopen hclose _ ih =>
      simp only [List.countP_cons, ho _ hopen, hc _ _ hopen hclose]
      simp only [Bool.not_true, Bool.not_false, Bool.false_eq_true, if_true, if_false, Nat.add_zero,
        Nat.add_right_cancel_iff]
      exact ih

/-- **Without its quiet events a trace of episodes alternates**, seen through a view that tells
openings and closings from the quiet events. -/
theorem Grammar.Episodes.alternating {G : Grammar E} {F : Type*} {view : E → Option F}
    {opens : F → Prop} {closes : F → F → Prop}
    (hidle : ∀ e, G.idle e → view e = none)
    (hopens : ∀ e, G.opens e → ∃ o, view e = some o ∧ opens o)
    (hwaits : ∀ o since e, G.waits o since e → view e = none)
    (hcloses : ∀ o since e, G.opens o → G.closes o since e → ∃ x y, view o = some x ∧
      view e = some y ∧ closes x y)
    {es : List E} (h : G.Episodes .outside es) : Alternating opens closes (es.filterMap view) := by
  have hrun : ∀ p, G.Episodes p es → match p with
      | .outside => Alternating opens closes (es.filterMap view)
      | .inside o _ => G.opens o → ∃ x, view o = some x ∧
          Alternating opens closes (x :: es.filterMap view) := by
    clear h
    intro p h
    induction h with
    | nil p =>
        cases p with
        | outside => exact .nil
        | inside o since =>
            intro hopen
            obtain ⟨x, hview, hx⟩ := hopens o hopen
            exact ⟨x, hview, .opened hx⟩
    | @cons _ _ e es hmove _ ih =>
        cases hmove with
        | idle hquiet =>
            rw [List.filterMap_cons_none (hidle e hquiet)]
            exact ih
        | opens hopen =>
            obtain ⟨x, hview, halt⟩ := ih hopen
            rw [List.filterMap_cons_some hview]
            exact halt
        | waits hwait =>
            rw [List.filterMap_cons_none (hwaits _ _ e hwait)]
            exact ih
        | closes hclose =>
            intro hopen
            obtain ⟨x, hview, hx⟩ := hopens _ hopen
            obtain ⟨x', y, hview', hviewe, hxy⟩ := hcloses _ _ e hopen hclose
            obtain rfl := Option.some.inj (hview.symm.trans hview')
            rw [List.filterMap_cons_some hviewe]
            exact ⟨x, hview, .pair hx hxy ih⟩
  exact hrun .outside h

end CryptoTrader.Lib
