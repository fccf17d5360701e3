/-
# CryptoTrader.DuplicateIds — which order ids the checker takes for duplicates.

The last gate of `check` turns away an id it has seen, and an approval records the new one: in
`seen_order_ids`, where the gate looks, and in `seen_order_queue`, which says what to forget when
`MAX_SEEN_ORDER_IDS` are remembered.  The two are the window of `Lib.RecentWindow` over the ids of
the approved orders, whatever ids are tried and whatever the earlier gates do; so an order that gets
as far as the last gate is a duplicate exactly when its id is one of the last 10000 approved.
-/
import CryptoTrader.RateLimit
import CryptoTrader.Lib.RecentWindow

namespace CryptoTrader

open Lib.RecentWindow

/-- The id of an approved order. -/
def CheckResult.approvedId? : CheckResult → Option String
  | .ok order => some order.clientOrderId
  | _ => none

namespace RiskChecker

/-- The ids of the approved orders of a sequence of calls, in order. -/
def approvedIds (risk : RiskChecker) (calls : List CheckCall) : List String :=
  (risk.results calls).filterMap CheckResult.approvedId?

/-- A call gets past every gate in front of the duplicate-id gate. -/
def ReachesIds (risk : RiskChecker) (c : CheckCall) : Prop :=
  { risk with halted := c.halted, freeBalanceUsdt := c.freeBalanceUsdt }.earlyGates c.signal
      c.midPrice c.env = none ∧
    (risk.recent c.env.now).length.toUInt32 < risk.maxOrdersPerSec

/-! ## §1 One call -/

/-- An approval pushes its id. -/
theorem approved_window (risk : RiskChecker) (env : Readings) :
    ((risk.approved env).seenOrderIds, (risk.approved env).seenOrderQueue)
      = push maxSeenOrderIds risk.seenOrderIds risk.seenOrderQueue env.uuid := by
  unfold approved remember push
  dsimp only
  split
  · cases risk.seenOrderQueue <;> rfl
  · rfl

/-- **What a call does to the window**: it is answered without being looked up, or its id is in the
window and the answer is the duplicate, or its id is new, pushed and approved. -/
theorem call_cases (risk : RiskChecker) (c : CheckCall) :
    (¬ risk.ReachesIds c ∧ (risk.call c).1.approvedId? = none ∧
      (risk.call c).1 ≠ .err (.duplicateOrderId c.env.uuid) ∧
      (risk.call c).2.seenOrderIds = risk.seenOrderIds ∧
      (risk.call c).2.seenOrderQueue = risk.seenOrderQueue) ∨
    (risk.ReachesIds c ∧ c.env.uuid ∈ risk.seenOrderIds ∧
      (risk.call c).1 = .err (.duplicateOrderId c.env.uuid) ∧
      (risk.call c).2.seenOrderIds = risk.seenOrderIds ∧
      (risk.call c).2.seenOrderQueue = risk.seenOrderQueue) ∨
    (risk.ReachesIds c ∧ c.env.uuid ∉ risk.seenOrderIds ∧
      (risk.call c).1 = .ok ⟨c.signal, c.env.uuid⟩ ∧
      ((risk.call c).2.seenOrderIds, (risk.call c).2.seenOrderQueue)
        = push maxSeenOrderIds risk.seenOrderIds risk.seenOrderQueue c.env.uuid) := by
  set ready : RiskChecker := { risk with halted := c.halted, freeBalanceUsdt := c.freeBalanceUsdt }
    with hready
  have hcall : risk.call c = ready.check c.signal c.midPrice c.env := rfl
  rw [check_eq _ c.isOrder] at hcall
  have hreaches : risk.ReachesIds c ↔ ready.earlyGates c.signal c.midPrice c.env = none ∧
      (ready.recent c.env.now).length.toUInt32 < ready.maxOrdersPerSec := Iff.rfl
  cases hgate : ready.earlyGates c.signal c.midPrice c.env with
  | some e =>
      rw [hgate] at hcall hreaches
      rw [hcall]
      refine Or.inl ⟨fun h => ?_, rfl, fun h => ?_, rfl, rfl⟩
      · cases (hreaches.mp h).1
      · rw [CheckResult.err.injEq] at h
        rw [h] at hgate
        exact earlyGates_ne_duplicateOrderId _ _ _ _ _ hgate
  | none =>
      rw [hgate] at hcall hreaches
      dsimp only at hcall
      rcases ready.register_cases c.signal c.env with ⟨hfull, heq⟩ | ⟨hroom, hseen, heq⟩ |
        ⟨hroom, hfresh, heq⟩
      · rw [hcall, heq]
        exact Or.inl ⟨fun h => UInt32.not_lt.mpr hfull (hreaches.mp h).2, rfl, nofun, rfl, rfl⟩
      · rw [hcall, heq]
        exact Or.inr (Or.inl ⟨hreaches.mpr ⟨rfl, hroom⟩, hseen, rfl, rfl, rfl⟩)
      · rw [hcall, heq]
        exact Or.inr (Or.inr ⟨hreaches.mpr ⟨rfl, hroom⟩, hfresh, rfl, ready.approved_window c.env⟩)

/-! ## §2 Every sequence of calls -/

theorem approvedIds_concat (risk : RiskChecker) (calls : List CheckCall) (c : CheckCall) :
    risk.approvedIds (calls ++ [c])
      = risk.approvedIds calls ++ ((risk.after calls).call c).1.approvedId?.toList := by
  unfold approvedIds
  rw [results_append, List.filterMap_append]
  rfl

/-- The window of the checker, against the ids it has approved. -/
def Window (risk : RiskChecker) (approved : List String) : Prop :=
  Remembers maxSeenOrderIds approved risk.seenOrderIds risk.seenOrderQueue

/-- **One call keeps the window.** -/
theorem Window.call {risk : RiskChecker} {approved : List String} (h : risk.Window approved)
    (c : CheckCall) :
    (risk.call c).2.Window (approved ++ (risk.call c).1.approvedId?.toList) := by
  unfold Window
  rcases risk.call_cases c with ⟨_, hnone, _, hids, hqueue⟩ | ⟨_, _, hdup, hids, hqueue⟩ |
    ⟨_, hfresh, hok, hpush⟩
  · rw [hids, hqueue, hnone, Option.toList_none, List.append_nil]
    exact h
  · rw [hids, hqueue, hdup]
    show Remembers _ (approved ++ []) _ _
    rw [List.append_nil]
    exact h
  · obtain ⟨hids, hqueue⟩ := Prod.mk.inj hpush
    rw [hids, hqueue, hok]
    exact Remembers.push h (by decide) hfresh

/-- **The run.** -/
theorem window_after {risk : RiskChecker} (hids : risk.seenOrderIds = ∅)
    (hqueue : risk.seenOrderQueue = []) (calls : List CheckCall) :
    (risk.after calls).Window (risk.approvedIds calls) := by
  induction calls using List.reverseRecOn with
  | nil =>
      show Remembers _ [] risk.seenOrderIds risk.seenOrderQueue
      rw [hids, hqueue]
      exact .nil _
  | append_singleton calls c ih =>
      rw [approvedIds_concat, after_append]
      exact ih.call c

/-- **The duplicate-id window is exact.**  After any sequence of calls, with any ids, on a checker
that has seen none: the queue has no duplicates, the set holds the same ids, and they are those of
the last `min(approvals, 10000)` approved orders, in order.  A further call is a duplicate exactly
when it passes the earlier gates and its id is one of them; if it passes with any other id it is
approved.  Any 10001 consecutive approved orders have different ids. -/
theorem duplicate_window_exact {risk : RiskChecker} (hids : risk.seenOrderIds = ∅)
    (hqueue : risk.seenOrderQueue = []) (calls : List CheckCall) :
    (risk.after calls).seenOrderQueue.Nodup ∧
    (risk.after calls).seenOrderIds = (risk.after calls).seenOrderQueue.toFinset ∧
    (risk.after calls).seenOrderQueue <:+ risk.approvedIds calls ∧
    (risk.after calls).seenOrderQueue.length = min (risk.approvedIds calls).length 10000 ∧
    (∀ c, (((risk.after calls).call c).1 = .err (.duplicateOrderId c.env.uuid) ↔
        (risk.after calls).ReachesIds c ∧ c.env.uuid ∈ (risk.after calls).seenOrderQueue) ∧
      (((risk.after calls).call c).1 = .ok ⟨c.signal, c.env.uuid⟩ ↔
        (risk.after calls).ReachesIds c ∧ c.env.uuid ∉ (risk.after calls).seenOrderQueue)) ∧
    ∀ run, run <:+: risk.approvedIds calls → run.length ≤ 10001 → run.Nodup := by
  have hwindow := window_after hids hqueue calls
  refine ⟨hwindow.nodup, hwindow.same, ?_, ?_, ?_, hwindow.stretches⟩
  · rw [hwindow.in_order]
    exact rtake_suffix _ _
  · rw [hwindow.in_order]
    exact length_rtake _ _
  · intro c
    rw [← Remembers.mem_ids hwindow]
    rcases (risk.after calls).call_cases c with ⟨hnot, hnone, hne, _⟩ | ⟨hreaches, hseen, hdup, _⟩ |
      ⟨hreaches, hfresh, hok, _⟩
    · refine ⟨iff_of_false hne fun h => hnot h.1, iff_of_false ?_ fun h => hnot h.1⟩
      intro hok
      rw [hok] at hnone
      cases hnone
    · rw [hdup]
      exact ⟨iff_of_true rfl ⟨hreaches, hseen⟩, iff_of_false nofun fun h => h.2 hseen⟩
    · rw [hok]
      exact ⟨iff_of_false nofun fun h => hfresh h.2, iff_of_true rfl ⟨hreaches, hfresh⟩⟩

/-! Two approvals, and the second id again. -/

def manyPerSecond : RiskChecker := RiskChecker.new 1 0 100 5

theorem second_id_again :
    (manyPerSecond.after [buyAt 0 "a", buyAt 1 "b"]).seenOrderQueue.length = 2 ∧
      ((manyPerSecond.after [buyAt 0 "a", buyAt 1 "b"]).call (buyAt 2 "b")).1 =
        .err (.duplicateOrderId "b") := by
  obtain ⟨_, _, _, hlength, hanswer, _⟩ :=
    @duplicate_window_exact manyPerSecond rfl rfl [buyAt 0 "a", buyAt 1 "b"]
  refine ⟨?_, (hanswer (buyAt 2 "b")).1.mpr ⟨?_, ?_⟩⟩
  · rw [hlength]
    decide +kernel
  · exact ⟨by decide +kernel, by decide +kernel⟩
  · decide +kernel

end RiskChecker

end CryptoTrader
