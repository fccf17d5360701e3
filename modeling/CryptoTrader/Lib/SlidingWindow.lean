/-
# CryptoTrader.Lib.SlidingWindow — a rate limiter that keeps a log of admissions and prunes lazily.

The limiter holds the instants of past admissions.  A request may be turned away before the
limiter is asked (`skip`); asked, it prunes its log to the last `w` units of time and turns the
request away (`prune`) or, when fewer than `max` entries are left, admits and logs it (`accept`).
So the log depends on WHICH requests reached it, while what it is for, a bound on the admissions
of every window, is about the history of admissions alone.  `Limited` ties the two: read at any
later instant the log and the history look the same.

Instants are natural numbers and an age is the truncated difference, so an entry of the future
has age 0.
-/
import Mathlib.Data.List.Basic
import Mathlib.Order.Nat

namespace CryptoTrader.Lib.SlidingWindow

/-- The entries of the log younger than `w` at `now`. -/
def within (w now : Nat) (log : List Nat) : List Nat := log.filter fun t => now - t < w

/-- The instants of the half-open window `(t - w, t]`. -/
def window (w t : Nat) (history : List Nat) : List Nat :=
  history.filter fun a => a ≤ t ∧ t < a + w

theorem within_append (w now : Nat) (xs ys : List Nat) :
    within w now (xs ++ ys) = within w now xs ++ within w now ys := List.filter_append ..

theorem length_within_le (w now : Nat) (log : List Nat) : (within w now log).length ≤ log.length :=
  List.length_filter_le ..

/-- **Pruning early loses nothing.**  What is too old at `now` is too old at every later instant. -/
theorem within_within {w now later : Nat} (h : now ≤ later) (log : List Nat) :
    within w later (within w now log) = within w later log := by
  unfold within
  rw [List.filter_filter]
  apply List.filter_congr
  intro t _
  apply Bool.eq_iff_iff.mpr
  simp only [Bool.and_eq_true, decide_eq_true_eq]
  omega

/-- On instants of the past the age test is the half-open window. -/
theorem within_eq_window {w now : Nat} {log : List Nat} (h : ∀ t ∈ log, t ≤ now) :
    within w now log = window w now log := by
  apply List.filter_congr
  intro t ht
  have hle := h t ht
  apply Bool.eq_iff_iff.mpr
  simp only [decide_eq_true_eq]
  omega

/-- One request: whether it was admitted, and the log after it. -/
inductive Request (w max now : Nat) (log : List Nat) : Bool → List Nat → Prop
  | skip : Request w max now log false log
  | prune : Request w max now log false (within w now log)
  | accept : (within w now log).length < max →
      Request w max now log true (within w now log ++ [now])

/-- The history of admissions after a request. -/
def record (history : List Nat) (admitted : Bool) (now : Nat) : List Nat :=
  history ++ if admitted then [now] else []

theorem record_false (history : List Nat) (now : Nat) : record history false now = history :=
  List.append_nil _

/-- **The limiter's invariant**, between its log and the history of admissions up to `clock`. -/
structure Limited (w max clock : Nat) (log history : List Nat) : Prop where
  /-- from `clock` on, the log answers as the whole history would -/
  tracks : ∀ now, clock ≤ now → within w now log = within w now history
  bounded : log.length ≤ max
  past : ∀ t ∈ history, t ≤ clock
  windowed : ∀ t, (window w t history).length ≤ max

theorem Limited.nil (w max clock : Nat) : Limited w max clock [] [] where
  tracks _ _ := rfl
  bounded := Nat.zero_le _
  past _ ht := absurd ht List.not_mem_nil
  windowed _ := Nat.zero_le _

variable {w max clock now : Nat} {log log' history : List Nat} {admitted : Bool}

/-- The invariant holds on as the clock moves. -/
theorem Limited.mono (h : Limited w max clock log history) (hclock : clock ≤ now) :
    Limited w max now log history where
  tracks later hlater := h.tracks later (hclock.trans hlater)
  bounded := h.bounded
  past t ht := (h.past t ht).trans hclock
  windowed := h.windowed

/-- A window that ends at or after the newest admission holds no earlier one that the limiter
has forgotten. -/
theorem Limited.window_le (h : Limited w max clock log history) (hclock : clock ≤ now) {t : Nat}
    (ht : now ≤ t) : (window w t history).length ≤ (within w now log).length := by
  rw [h.tracks now hclock]
  apply List.Sublist.length_le
  apply List.monotone_filter_right
  intro a ha
  simp only [decide_eq_true_eq] at ha ⊢
  omega

/-- **One request keeps the invariant**, at the instant it was made. -/
theorem Limited.request (h : Limited w max clock log history) (hclock : clock ≤ now)
    (hreq : Request w max now log admitted log') :
    Limited w max now log' (record history admitted now) := by
  cases hreq with
  | skip =>
      rw [record_false]
      exact h.mono hclock
  | prune =>
      rw [record_false]
      have hnow := h.mono hclock
      refine ⟨?_, (length_within_le ..).trans h.bounded, hnow.past, hnow.windowed⟩
      intro later hlater
      rw [within_within hlater]
      exact hnow.tracks later hlater
  | accept hroom =>
      refine ⟨?_, ?_, ?_, ?_⟩
      · intro later hlater
        rw [record, within_append, within_append, within_within hlater,
          h.tracks later (hclock.trans hlater), if_pos rfl]
      · rw [List.length_append, List.length_singleton]
        exact hroom
      · intro t ht
        rcases List.mem_append.mp ht with ht | ht
        · exact (h.past t ht).trans hclock
        · exact (List.mem_singleton.mp ht).le
      · intro t
        show (window w t (history ++ [now])).length ≤ max
        unfold window
        rw [List.filter_append, List.length_append]
        by_cases hin : now ≤ t ∧ t < now + w
        · -- the window holds the new admission, so everything else in it still counted at `now`
          have hold := h.window_le hclock hin.1
          rw [List.filter_cons_of_pos (by simpa using hin), List.filter_nil,
            List.length_singleton]
          unfold window at hold
          omega
        · rw [List.filter_cons_of_neg (by simpa using hin), List.filter_nil, List.length_nil]
          exact h.windowed t

/-- A request is refused for lack of room only when the window ending now is exactly full. -/
theorem Limited.full (h : Limited w max clock log history) (hclock : clock ≤ now)
    (hfull : max ≤ (within w now log).length) :
    (within w now log).length = max ∧ (window w now history).length = max := by
  have hlog : (within w now log).length = max :=
    Nat.le_antisymm ((length_within_le ..).trans h.bounded) hfull
  refine ⟨hlog, ?_⟩
  rw [← within_eq_window fun t ht => (h.past t ht).trans hclock, ← h.tracks now hclock]
  exact hlog

end CryptoTrader.Lib.SlidingWindow
