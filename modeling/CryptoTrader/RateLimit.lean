/-
# CryptoTrader.RateLimit — sequences of risk checks: the order rate, and what a rejection costs.

A `CheckCall` is one call of `check` with everything it reads, the two public fields its owner
may set in between included.  The rate limiter inside `check` is the pruned log of
`Lib.SlidingWindow`: an early gate never asks it, a full window or a duplicate id prunes it, an
approval logs the instant.  Its bound over EVERY one-second window is the library's invariant at
the checker's own log.

A rejected call may have pruned the log, so it does change the checker; but pruning early loses
nothing, and nothing else of a rejected call stays.  `SameFrom` says that of two checkers, and
deleting a rejected call is then a simulation between the two runs.
-/
import CryptoTrader.Risk
import CryptoTrader.Lib.SlidingWindow

namespace CryptoTrader

open Lib.SlidingWindow

def CheckResult.isOk : CheckResult → Bool
  | .ok _ => true
  | _ => false

/-- One call of `check`: the public fields as its owner has set them, the arguments and the
readings.  A `Hold` never gets there. -/
structure CheckCall where
  halted : Bool
  freeBalanceUsdt : ℚ
  signal : Signal
  midPrice : ℚ
  env : Readings
  isOrder : signal ≠ .hold

/-- `Duration::from_secs(1)`, in nanoseconds. -/
def oneSecond : Nat := 10 ^ 9

/-- The clock does not run backwards over the calls. -/
def Clocked (calls : List CheckCall) : Prop := calls.Pairwise fun c d => c.env.now ≤ d.env.now

namespace RiskChecker

def call (risk : RiskChecker) (c : CheckCall) : CheckResult × RiskChecker :=
  { risk with halted := c.halted, freeBalanceUsdt := c.freeBalanceUsdt }.check c.signal c.midPrice
    c.env

/-- The checker after a sequence of calls. -/
def after (risk : RiskChecker) (calls : List CheckCall) : RiskChecker :=
  calls.foldl (fun r c => (r.call c).2) risk

/-- What the calls of a sequence answer. -/
def results : RiskChecker → List CheckCall → List CheckResult
  | _, [] => []
  | risk, c :: calls => (risk.call c).1 :: results (risk.call c).2 calls

/-- The instants of the approved calls. -/
def approvals (risk : RiskChecker) (calls : List CheckCall) : List Nat :=
  ((calls.zip (risk.results calls)).filter fun x => x.2.isOk).map fun x => x.1.env.now

/-! ## §1 The gates in front of the limiter -/

/-- The first gate that rejects before the order rate is looked at. -/
def earlyGates (risk : RiskChecker) (signal : Signal) (midPrice : ℚ) (env : Readings) :
    Option RiskError :=
  if risk.killed env then some .killSwitch
  else if signal.qty > risk.maxOrderQty then some (.maxQtyExceeded signal.qty risk.maxOrderQty)
  else
    (if signal.isBuy then risk.balanceGate signal.price signal.qty env else none).or
      (risk.bandGate signal.price midPrice)

/-- **`check` in two halves.**  An order is turned away by an early gate, and then the checker is
untouched, or it reaches the rate limit and the duplicate-id gate. -/
theorem check_eq (risk : RiskChecker) {signal : Signal} (hs : signal ≠ .hold) (midPrice : ℚ)
    (env : Readings) :
    risk.check signal midPrice env =
      match risk.earlyGates signal midPrice env with
      | some e => (.err e, risk)
      | none => risk.register signal env := by
  have horder : ∀ isBuy, signal.isBuy = isBuy → risk.killed env = false →
      risk.checkOrder signal signal.price signal.qty isBuy midPrice env =
        match risk.earlyGates signal midPrice env with
        | some e => (.err e, risk)
        | none => risk.register signal env := by
    intro isBuy hb hk
    unfold checkOrder earlyGates
    rw [hk, hb]
    simp only [Bool.false_eq_true, if_false]
    split
    · rfl
    · cases (if isBuy = true then risk.balanceGate signal.price signal.qty env else none) with
      | some e => rfl
      | none => rfl
  unfold check
  cases hk : risk.killed env with
  | true => simp [earlyGates, hk]
  | false =>
      simp only [Bool.false_eq_true, if_false]
      cases signal with
      | buy price qty => exact horder true rfl hk
      | sell price qty => exact horder false rfl hk
      | hold => exact absurd rfl hs

/-- What the early gates can answer. -/
theorem earlyGates_error {risk : RiskChecker} {signal : Signal} {midPrice : ℚ} {env : Readings}
    {e : RiskError} (h : risk.earlyGates signal midPrice env = some e) :
    e = .killSwitch ∨ e = .maxQtyExceeded signal.qty risk.maxOrderQty ∨
      (∃ balance min, e = .insufficientBalance balance min) ∨
      (∃ notional balance, e = .insufficientFunds notional balance) ∨
      ∃ pct, e = .fatFinger signal.price midPrice pct risk.priceBandPct := by
  unfold earlyGates at h
  split at h
  · exact Or.inl (Option.some.inj h).symm
  · split at h
    · exact Or.inr (Or.inl (Option.some.inj h).symm)
    · rcases Option.or_eq_some_iff.mp h with hbalance | ⟨_, hband⟩
      · split at hbalance
        · rcases balanceGate_error hbalance with hfloor | hfunds
          · exact Or.inr (Or.inr (Or.inl hfloor))
          · exact Or.inr (Or.inr (Or.inr (Or.inl hfunds)))
        · cases hbalance
      · exact Or.inr (Or.inr (Or.inr (Or.inr (bandGate_error hband))))

theorem earlyGates_ne_rateLimit (risk : RiskChecker) (signal : Signal) (midPrice : ℚ)
    (env : Readings) (current : Nat) (max : UInt32) :
    risk.earlyGates signal midPrice env ≠ some (.rateLimit current max) := by
  intro h
  rcases earlyGates_error h with h | h | ⟨_, _, h⟩ | ⟨_, _, h⟩ | ⟨_, h⟩ <;> cases h

theorem earlyGates_ne_duplicateOrderId (risk : RiskChecker) (signal : Signal) (midPrice : ℚ)
    (env : Readings) (id : String) :
    risk.earlyGates signal midPrice env ≠ some (.duplicateOrderId id) := by
  intro h
  rcases earlyGates_error h with h | h | ⟨_, _, h⟩ | ⟨_, _, h⟩ | ⟨_, h⟩ <;> cases h

/-! ## §2 The limiter is a pruned log -/

/-- The log is short enough for `current_rate as u32` to be exact. -/
theorem toNat_recent {risk : RiskChecker} (h : risk.orderTimestamps.length < 2 ^ 32) (now : Nat) :
    (risk.recent now).length.toUInt32.toNat = (risk.recent now).length := by
  show (UInt32.ofNat _).toNat = _
  rw [UInt32.toNat_ofNat']
  exact Nat.mod_eq_of_lt ((List.length_filter_le ..).trans_lt h)

/-- The last two gates are one request to the limiter. -/
theorem register_request {risk : RiskChecker} (h : risk.orderTimestamps.length < 2 ^ 32)
    (signal : Signal) (env : Readings) :
    Request oneSecond risk.maxOrdersPerSec.toNat env.now risk.orderTimestamps
      (risk.register signal env).1.isOk (risk.register signal env).2.orderTimestamps := by
  have hcast := toNat_recent h env.now
  rcases risk.register_cases signal env with ⟨_, heq⟩ | ⟨_, _, heq⟩ | ⟨hrate, _, heq⟩
  · rw [heq]
    exact .prune
  · rw [heq]
    exact .prune
  · have hroom := UInt32.lt_iff_toNat_lt.mp hrate
    rw [hcast] at hroom
    rw [heq]
    exact .accept hroom

/-- So is every call. -/
theorem call_request {risk : RiskChecker} (h : risk.orderTimestamps.length < 2 ^ 32)
    (c : CheckCall) :
    Request oneSecond risk.maxOrdersPerSec.toNat c.env.now risk.orderTimestamps
      (risk.call c).1.isOk (risk.call c).2.orderTimestamps := by
  unfold call
  rw [check_eq _ c.isOrder]
  split
  · exact .skip
  · exact @register_request
      { risk with halted := c.halted, freeBalanceUsdt := c.freeBalanceUsdt } h c.signal c.env

theorem call_maxOrdersPerSec (risk : RiskChecker) (c : CheckCall) :
    (risk.call c).2.maxOrdersPerSec = risk.maxOrdersPerSec := by
  unfold call
  obtain ⟨ids, queue, log, h⟩ := check_sameSettings
    { risk with halted := c.halted, freeBalanceUsdt := c.freeBalanceUsdt } c.signal c.midPrice c.env
  rw [h]

/-- A rate rejection reports the log's length and the maximum, and found no room. -/
theorem call_eq_rateLimit {risk : RiskChecker} {c : CheckCall} {current : Nat} {max : UInt32}
    (h : (risk.call c).1 = .err (.rateLimit current max)) :
    current = (risk.recent c.env.now).length ∧ max = risk.maxOrdersPerSec ∧
      risk.maxOrdersPerSec ≤ (risk.recent c.env.now).length.toUInt32 := by
  unfold call at h
  rw [check_eq _ c.isOrder] at h
  split at h
  · next e he =>
      rw [CheckResult.err.injEq] at h
      rw [h] at he
      exact (earlyGates_ne_rateLimit _ _ _ _ _ _ he).elim
  · rcases register_cases { risk with halted := c.halted, freeBalanceUsdt := c.freeBalanceUsdt }
      c.signal c.env with ⟨hrate, heq⟩ | ⟨_, _, heq⟩ | ⟨_, _, heq⟩
    · rw [heq, CheckResult.err.injEq, RiskError.rateLimit.injEq] at h
      exact ⟨h.1.symm, h.2.symm, hrate⟩
    · rw [heq] at h
      cases h
    · rw [heq] at h
      cases h

/-! ## §3 Sequences of calls -/

theorem results_length (risk : RiskChecker) (calls : List CheckCall) :
    (risk.results calls).length = calls.length := by
  induction calls generalizing risk with
  | nil => rfl
  | cons c calls ih => exact congrArg (· + 1) (ih _)

theorem after_append (risk : RiskChecker) (xs ys : List CheckCall) :
    risk.after (xs ++ ys) = (risk.after xs).after ys := List.foldl_append

theorem results_append (risk : RiskChecker) (xs ys : List CheckCall) :
    risk.results (xs ++ ys) = risk.results xs ++ (risk.after xs).results ys := by
  induction xs generalizing risk with
  | nil => rfl
  | cons c xs ih => exact congrArg ((risk.call c).1 :: ·) (ih _)

/-- One more call extends the history by its instant when it is approved. -/
theorem approvals_concat (risk : RiskChecker) (calls : List CheckCall) (c : CheckCall) :
    risk.approvals (calls ++ [c]) =
      record (risk.approvals calls) ((risk.after calls).call c).1.isOk c.env.now := by
  unfold approvals record
  rw [results_append, List.zip_append (risk.results_length calls).symm, List.filter_append,
    List.map_append]
  congr 1
  show List.map _ (List.filter (fun x => x.2.isOk) [(c, ((risk.after calls).call c).1)]) = _
  rw [List.filter_singleton]
  cases ((risk.after calls).call c).1.isOk with
  | true => rfl
  | false => rfl

theorem after_maxOrdersPerSec (risk : RiskChecker) (calls : List CheckCall) :
    (risk.after calls).maxOrdersPerSec = risk.maxOrdersPerSec := by
  induction calls generalizing risk with
  | nil => rfl
  | cons c calls ih => exact (ih _).trans (risk.call_maxOrdersPerSec c)

/-- **The limiter's invariant along a run**: at any instant from the last call on, the log of the
checker and the history of its approvals are a `Limited` pair. -/
theorem limited_after {risk : RiskChecker} (hfresh : risk.orderTimestamps = [])
    {calls : List CheckCall} (hclock : Clocked calls) {now : Nat}
    (hnow : ∀ c ∈ calls, c.env.now ≤ now) :
    Limited oneSecond risk.maxOrdersPerSec.toNat now (risk.after calls).orderTimestamps
      (risk.approvals calls) := by
  induction calls using List.reverseRecOn generalizing now with
  | nil =>
      show Limited _ _ _ risk.orderTimestamps []
      rw [hfresh]
      exact .nil ..
  | append_singleton calls c ih =>
      have hsplit := List.pairwise_append.mp hclock
      have hbefore : ∀ d ∈ calls, d.env.now ≤ c.env.now := fun d hd =>
        hsplit.2.2 d hd c (List.mem_singleton.mpr rfl)
      have hold := ih hsplit.1 hbefore
      have hsmall : (risk.after calls).orderTimestamps.length < 2 ^ 32 :=
        hold.bounded.trans_lt (UInt32.toNat_lt _)
      have hreq := call_request hsmall c
      rw [after_maxOrdersPerSec] at hreq
      have hnew := hold.request (le_refl _) hreq
      rw [approvals_concat, after_append]
      exact hnew.mono (hnow c (by simp))

/-- **The order rate limit holds over every one-second window.**  After any sequence of calls on
a checker that starts with an empty log: every window `(t - 1s, t]` holds at most
`max_orders_per_sec` approvals; the log is no longer than that, so `current_rate as u32` is
exact; and a further call answers `RateLimit` only when the second that ends with it holds
exactly `max_orders_per_sec` approvals, which is the number it reports. -/
theorem rate_limit_every_window {risk : RiskChecker} (hfresh : risk.orderTimestamps = [])
    {calls : List CheckCall} (hclock : Clocked calls) :
    (∀ t, (window oneSecond t (risk.approvals calls)).length ≤ risk.maxOrdersPerSec.toNat) ∧
    (risk.after calls).orderTimestamps.length ≤ risk.maxOrdersPerSec.toNat ∧
    (∀ now, ((risk.after calls).recent now).length.toUInt32.toNat =
      ((risk.after calls).recent now).length) ∧
    ∀ c : CheckCall, Clocked (calls ++ [c]) → ∀ current max,
      ((risk.after calls).call c).1 = .err (.rateLimit current max) →
        max = risk.maxOrdersPerSec ∧ current = max.toNat ∧
        (window oneSecond c.env.now (risk.approvals calls)).length = max.toNat := by
  have hlast : ∀ d ∈ calls, d.env.now ≤ (calls.map (·.env.now)).sum := fun d hd =>
    List.le_sum_of_mem (List.mem_map_of_mem hd)
  have hrun := limited_after hfresh hclock hlast
  have hsmall : (risk.after calls).orderTimestamps.length < 2 ^ 32 :=
    hrun.bounded.trans_lt (UInt32.toNat_lt _)
  refine ⟨hrun.windowed, hrun.bounded, toNat_recent hsmall, ?_⟩
  intro c hc current max hresult
  have hbefore : ∀ d ∈ calls, d.env.now ≤ c.env.now := fun d hd =>
    (List.pairwise_append.mp hc).2.2 d hd c (List.mem_singleton.mpr rfl)
  obtain ⟨rfl, rfl, hge⟩ := call_eq_rateLimit hresult
  rw [UInt32.le_iff_toNat_le, toNat_recent hsmall] at hge
  rw [after_maxOrdersPerSec] at hge ⊢
  obtain ⟨hlog, hwindow⟩ := (limited_after hfresh hclock hbefore).full (le_refl _) hge
  exact ⟨rfl, hlog, hwindow⟩

/-- One order in a second, on a checker that lets everything else through. -/
def onePerSecond : RiskChecker := RiskChecker.new 1 0 100 1

def buyAt (now : Nat) (uuid : String) : CheckCall where
  halted := false
  freeBalanceUsdt := 10000
  signal := .buy 100 1
  midPrice := 100
  env := { haltFlag := false, cash := 0, now := now, uuid := uuid }
  isOrder := nofun

theorem rate_limit_full_second :
    ((onePerSecond.after [buyAt 0 "a"]).call (buyAt (oneSecond - 1) "b")).1 =
        .err (.rateLimit 1 1) ∧
      (window oneSecond (oneSecond - 1) (onePerSecond.approvals [buyAt 0 "a"])).length = 1 := by
  have hresult : ((onePerSecond.after [buyAt 0 "a"]).call (buyAt (oneSecond - 1) "b")).1 =
      .err (.rateLimit 1 1) := by decide +kernel
  have hlimit := @rate_limit_every_window onePerSecond rfl [buyAt 0 "a"]
    (List.pairwise_singleton ..)
  have hclock : Clocked [buyAt 0 "a", buyAt (oneSecond - 1) "b"] := by
    unfold Clocked
    decide
  exact ⟨hresult, (hlimit.2.2.2 (buyAt (oneSecond - 1) "b") hclock 1 1 hresult).2.2⟩

/-! ## §4 A rejected call is free -/

/-- Two checkers that no call from instant `n` on can tell apart: what differs is overwritten by
the next call (the public fields) or already too old to be counted (log entries). -/
def SameFrom (n : Nat) (risk risk' : RiskChecker) : Prop :=
  ∃ halted balance log,
    risk' = { risk with halted := halted, freeBalanceUsdt := balance, orderTimestamps := log } ∧
      ∀ m, n ≤ m → within oneSecond m log = within oneSecond m risk.orderTimestamps

theorem SameFrom.refl (n : Nat) (risk : RiskChecker) : SameFrom n risk risk :=
  ⟨_, _, _, rfl, fun _ _ => rfl⟩

/-- The last two gates see of the log only what is left after pruning. -/
theorem register_congr {risk : RiskChecker} {log : List Nat} (signal : Signal) {env : Readings}
    (h : within oneSecond env.now log = within oneSecond env.now risk.orderTimestamps) :
    { risk with orderTimestamps := log }.register signal env = risk.register signal env := by
  have hrecent : { risk with orderTimestamps := log }.recent env.now = risk.recent env.now := h
  unfold register
  rw [hrecent]

/-- **A call cannot tell such checkers apart**, and leaves them so. -/
theorem SameFrom.call {n : Nat} {risk risk' : RiskChecker} (h : SameFrom n risk risk')
    {c : CheckCall} (hn : n ≤ c.env.now) :
    (risk'.call c).1 = (risk.call c).1 ∧ SameFrom c.env.now (risk.call c).2 (risk'.call c).2 := by
  obtain ⟨halted, balance, log, rfl, hlog⟩ := h
  let ready : RiskChecker := { risk with halted := c.halted, freeBalanceUsdt := c.freeBalanceUsdt }
  have hgate : { ready with orderTimestamps := log }.earlyGates c.signal c.midPrice c.env =
      ready.earlyGates c.signal c.midPrice c.env := rfl
  show ({ ready with orderTimestamps := log }.check c.signal c.midPrice c.env).1 =
      (ready.check c.signal c.midPrice c.env).1 ∧
    SameFrom c.env.now (ready.check c.signal c.midPrice c.env).2
      ({ ready with orderTimestamps := log }.check c.signal c.midPrice c.env).2
  rw [check_eq _ c.isOrder, check_eq _ c.isOrder, hgate]
  cases ready.earlyGates c.signal c.midPrice c.env with
  | some e => exact ⟨rfl, _, _, log, rfl, fun m hm => hlog m (hn.trans hm)⟩
  | none =>
      have hreg : { ready with orderTimestamps := log }.register c.signal c.env =
          ready.register c.signal c.env := register_congr c.signal (hlog c.env.now hn)
      rw [hreg]
      exact ⟨rfl, .refl ..⟩

/-- The rate limit and the duplicate-id gate leave the pruned log when they reject. -/
theorem register_of_err {risk : RiskChecker} {signal : Signal} {env : Readings} {e : RiskError}
    (h : (risk.register signal env).1 = .err e) :
    (risk.register signal env).2 = { risk with orderTimestamps := risk.recent env.now } := by
  rcases risk.register_cases signal env with ⟨_, heq⟩ | ⟨_, _, heq⟩ | ⟨_, _, heq⟩
  · rw [heq]
  · rw [heq]
  · rw [heq] at h
    cases h

/-- An order that is not admitted leaves the checker with at most a pruned log. -/
theorem check_of_not_admits {risk : RiskChecker} {signal : Signal} {midPrice : ℚ} {env : Readings}
    (hs : signal ≠ .hold) (h : ¬ risk.Admits signal midPrice env) :
    ∃ log, (risk.check signal midPrice env).2 = { risk with orderTimestamps := log } ∧
      ∀ m, env.now ≤ m → within oneSecond m log = within oneSecond m risk.orderTimestamps := by
  have hne := check_ne_ok h
  rw [check_eq _ hs] at hne ⊢
  cases hearly : risk.earlyGates signal midPrice env with
  | some e => exact ⟨_, rfl, fun _ _ => rfl⟩
  | none =>
      rw [hearly] at hne
      cases hresult : (risk.register signal env).1 with
      | ok order => exact absurd hresult (hne order)
      | err e => exact ⟨_, register_of_err hresult, fun m hm => within_within hm _⟩
      | panicked =>
          rcases risk.register_cases signal env with ⟨_, heq⟩ | ⟨_, _, heq⟩ | ⟨_, _, heq⟩
          · rw [heq] at hresult
            cases hresult
          · rw [heq] at hresult
            cases hresult
          · rw [heq] at hresult
            cases hresult

/-- **What a rejected call leaves behind**: at most a pruned log. -/
theorem SameFrom.of_err {risk : RiskChecker} {c : CheckCall} {e : RiskError}
    (h : (risk.call c).1 = .err e) : SameFrom c.env.now risk (risk.call c).2 := by
  have hreject : ¬ { risk with halted := c.halted, freeBalanceUsdt := c.freeBalanceUsdt }.Admits
      c.signal c.midPrice c.env := by
    intro hadm
    rw [RiskChecker.call, check_of_admits hadm] at h
    cases h
  obtain ⟨log, hlog, hwithin⟩ := check_of_not_admits c.isOrder hreject
  exact ⟨_, _, log, hlog, hwithin⟩

/-- The runs of two such checkers answer alike. -/
theorem SameFrom.results {n : Nat} {risk risk' : RiskChecker} (h : SameFrom n risk risk')
    {calls : List CheckCall} (hclock : Clocked calls) (hn : ∀ c ∈ calls, n ≤ c.env.now) :
    risk'.results calls = risk.results calls := by
  induction calls generalizing n risk risk' with
  | nil => rfl
  | cons c calls ih =>
      obtain ⟨hresult, hsame⟩ := h.call (hn c List.mem_cons_self)
      have hrest := ih hsame (List.pairwise_cons.mp hclock).2 (List.pairwise_cons.mp hclock).1
      show (risk'.call c).1 :: _ = (risk.call c).1 :: _
      rw [hresult, hrest]

/-- **Rejected orders are free.**  Take any sequence of calls in the order of the clock, on any
checker, and delete a call that answered `Err`: every other call answers as before. -/
theorem rejected_call_is_free (risk : RiskChecker) {calls : List CheckCall}
    (hclock : Clocked calls) {i : Nat} {e : RiskError}
    (hrejected : (risk.results calls)[i]? = some (.err e)) :
    risk.results (calls.eraseIdx i) = (risk.results calls).eraseIdx i := by
  induction calls generalizing risk i with
  | nil => rfl
  | cons c calls ih =>
      obtain ⟨hfirst, hrest⟩ := List.pairwise_cons.mp hclock
      cases i with
      | zero =>
          have herr : (risk.call c).1 = .err e := Option.some.inj hrejected
          exact ((SameFrom.of_err herr).results hrest hfirst).symm
      | succ i => exact congrArg ((risk.call c).1 :: ·) (ih _ hrest hrejected)

theorem rejected_call_is_free_rate :
    onePerSecond.results [buyAt 0 "a", buyAt oneSecond "c"] =
      (onePerSecond.results [buyAt 0 "a", buyAt 7 "b", buyAt oneSecond "c"]).eraseIdx 1 :=
  @rejected_call_is_free onePerSecond [buyAt 0 "a", buyAt 7 "b", buyAt oneSecond "c"]
    (by unfold Clocked; decide) 1 (.rateLimit 1 1) (by decide +kernel)

end RiskChecker

end CryptoTrader
