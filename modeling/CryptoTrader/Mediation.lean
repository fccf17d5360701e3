/-
# CryptoTrader.Mediation — nothing reaches the account past the gates.

The gates of the risk checker and its two memories are understood for sequences of calls (`Risk`,
`RateLimit`, `DuplicateIds`).  In the program the calls come out of the main loop, while messages,
flags and the executor do as they please; what the checker has approved then has a queue and another
task before it on its way to the account.

Read over a run of the whole program: the decisions are the calls of one checker (`Checked`), so the
executed orders and those in flight are exactly its approved ones, and whatever `check` promises about
an approval, about a second or about a stretch of ids is true of them.
-/
import CryptoTrader.HaltedTrading
import CryptoTrader.DuplicateIds

namespace CryptoTrader

open Lib Lib.SlidingWindow

namespace RiskChecker

theorem SameSettings.trans {risk risk' risk'' : RiskChecker} (h : risk.SameSettings risk')
    (h' : risk'.SameSettings risk'') : risk.SameSettings risk'' := by
  obtain ⟨ids, queue, timestamps, rfl⟩ := h
  obtain ⟨ids', queue', timestamps', rfl⟩ := h'
  exact ⟨ids', queue', timestamps', rfl⟩

end RiskChecker

/-! ## §1 Decisions as calls of the checker -/

namespace Decision

/-- The call of the checker that a decision makes. -/
def call (d : Decision) (h : d.signal ≠ .hold) : CheckCall where
  halted := d.risk.halted
  freeBalanceUsdt := d.risk.freeBalanceUsdt
  signal := d.signal
  midPrice := referencePrice d.snapshot
  env := d.env
  isOrder := h

theorem risk_call (d : Decision) (h : d.signal ≠ .hold) : d.risk.call (d.call h) = d.outcome := rfl

theorem isOk_outcome (d : Decision) : d.outcome.1.isOk = decide d.Admitted := by
  by_cases hadm : d.Admitted
  · unfold outcome
    rw [RiskChecker.check_of_admits hadm, decide_eq_true hadm]
    rfl
  · have hne := RiskChecker.check_ne_ok hadm
    rw [decide_eq_false hadm]
    unfold outcome
    generalize d.risk.check d.signal (referencePrice d.snapshot) d.env = out at hne
    obtain ⟨result, risk⟩ := out
    cases result with
    | ok order => exact absurd rfl (hne order)
    | err _ => rfl
    | panicked => rfl

theorem approvedId_outcome (d : Decision) :
    d.outcome.1.approvedId? = if d.Admitted then some d.env.uuid else none := by
  split
  · next hadm =>
      unfold outcome
      rw [RiskChecker.check_of_admits hadm]
      rfl
  · next hadm =>
      have hok := d.isOk_outcome
      rw [decide_eq_false hadm] at hok
      generalize d.outcome.1 = result at hok
      cases result with
      | ok order => cases hok
      | err _ => rfl
      | panicked => rfl

/-- The approved ones of these decisions. -/
def approved (decisions : List Decision) : List Decision := decisions.filter fun d => d.Admitted

theorem approved_concat (decisions : List Decision) (d : Decision) :
    approved (decisions ++ [d]) = approved decisions ++ if d.Admitted then [d] else [] := by
  rw [approved, List.filter_append, List.filter_singleton]
  by_cases hadm : d.Admitted <;> simp [approved, hadm]

/-- The orders approved are those of the approved decisions. -/
theorem filterMap_order (decisions : List Decision) :
    decisions.filterMap order = (approved decisions).map fun d => ⟨d.signal, d.env.uuid⟩ := by
  induction decisions with
  | nil => rfl
  | cons d rest ih =>
      by_cases hadm : d.Admitted
      · rw [List.filterMap_cons_some (order_of_admitted hadm), ih]
        simp [approved, hadm]
      · rw [List.filterMap_cons_none (order_of_not_admitted hadm), ih]
        simp [approved, hadm]

end Decision

/-- One checker has judged these decisions one after the other, and this is what has become of it. -/
structure Checked (risk₀ : RiskChecker) (decisions : List Decision) (risk : RiskChecker) : Prop where
  settings : risk₀.SameSettings risk
  judged : ∀ d ∈ decisions, risk₀.SameSettings d.risk
  calls : ∃ calls : List CheckCall,
    calls.map (·.env) = decisions.map (·.env) ∧ risk = risk₀.after calls ∧
    risk₀.approvals calls = (Decision.approved decisions).map (·.env.now) ∧
    risk₀.approvedIds calls = (Decision.approved decisions).map (·.env.uuid)

namespace Checked

theorem nil (risk₀ : RiskChecker) : Checked risk₀ [] risk₀ :=
  ⟨.refl risk₀, fun _ h => absurd h List.not_mem_nil, [], rfl, rfl, rfl, rfl⟩

/-- **One more decision.** -/
theorem concat {risk₀ : RiskChecker} {decisions : List Decision} {d : Decision}
    (h : Checked risk₀ decisions d.risk) (horder : d.signal ≠ .hold) :
    Checked risk₀ (decisions ++ [d]) d.outcome.2 := by
  obtain ⟨hsettings, hjudged, calls, henvs, hrisk, hinstants, hids⟩ := h
  refine ⟨hsettings.trans (d.risk.check_sameSettings _ _ _), ?_, calls ++ [d.call horder], ?_, ?_,
    ?_, ?_⟩
  · intro e he
    rcases List.mem_append.mp he with he | he
    · exact hjudged e he
    · exact List.mem_singleton.mp he ▸ hsettings
  · rw [List.map_append, List.map_append, henvs]
    rfl
  · rw [RiskChecker.after_append, ← hrisk]
    rfl
  · rw [RiskChecker.approvals_concat, ← hrisk, d.risk_call, hinstants, d.isOk_outcome,
      Decision.approved_concat]
    unfold record
    by_cases hadm : d.Admitted <;> simp [hadm, Decision.call]
  · rw [RiskChecker.approvedIds_concat, ← hrisk, d.risk_call, hids, d.approvedId_outcome,
      Decision.approved_concat]
    by_cases hadm : d.Admitted <;> simp [hadm]

/-- The order rate, over every second. -/
theorem rate {risk₀ : RiskChecker} {decisions : List Decision} {risk : RiskChecker}
    (h : Checked risk₀ decisions risk) (hfresh : risk₀.orderTimestamps = [])
    (hclock : decisions.Pairwise fun d d' => d.env.now ≤ d'.env.now) (t : Nat) :
    (window oneSecond t ((Decision.approved decisions).map (·.env.now))).length
      ≤ risk₀.maxOrdersPerSec.toNat := by
  obtain ⟨-, -, calls, henvs, -, hinstants, -⟩ := h
  have hcalls : Clocked calls := by
    have hmap : (calls.map (·.env)).Pairwise fun env env' => env.now ≤ env'.now := by
      rw [henvs]
      exact List.pairwise_map.mpr hclock
    rwa [List.pairwise_map] at hmap
  have hlast : ∀ c ∈ calls, c.env.now ≤ (calls.map (·.env.now)).sum := fun c hc =>
    List.le_sum_of_mem (List.mem_map_of_mem hc)
  rw [← hinstants]
  exact (RiskChecker.limited_after hfresh hcalls hlast).windowed t

/-- The ids of a stretch of approvals. -/
theorem ids_nodup {risk₀ : RiskChecker} {decisions : List Decision} {risk : RiskChecker}
    (h : Checked risk₀ decisions risk) (hids : risk₀.seenOrderIds = ∅)
    (hqueue : risk₀.seenOrderQueue = []) {run : List String}
    (hrun : run <:+: (Decision.approved decisions).map (·.env.uuid)) (hlength : run.length ≤ 10001) :
    run.Nodup := by
  obtain ⟨-, -, calls, -, -, -, hcalls⟩ := h
  rw [← hcalls] at hrun
  exact (RiskChecker.window_after hids hqueue calls).stretches run hrun hlength

end Checked

/-! ## §2 The program -/

namespace Program

variable {σ : Type} [Strategy σ]

/-- **One step.** -/
theorem checked_step {risk₀ : RiskChecker} {decisions : List Decision} {p p' : Program σ} {l : Label}
    (h : Checked risk₀ decisions p.switch.risk) (hstep : p.step l = some p') :
    Checked risk₀ (decisions ++ p.decisionsOf l) p'.switch.risk := by
  rw [risk_step hstep]
  unfold decisionsOf
  cases hd : p.decision l with
  | none =>
      rw [Option.toList_none, List.append_nil]
      exact h
  | some d =>
      obtain ⟨-, -, horder, hrisk, -⟩ := decision_parts hd
      exact (hrisk ▸ h).concat horder

section

variable {p p' : Program σ} {ls : List Label}

/-- The decisions of a run, as calls of the checker. -/
theorem checked_of_run (hrun : machine.exec p ls = some p') :
    Checked p.switch.risk (machine.outputs decisionsOf p ls) p'.switch.risk :=
  machine.exec_history_of_step
    (I := fun (q : Program σ) (decisions : List Decision) =>
      Checked p.switch.risk decisions q.switch.risk)
    (fun _ _ _ _ h hstep => checked_step h hstep) (.nil _) hrun

/-- What a run has approved is what it has executed, and what is in flight. -/
theorem orders_of_run (hrun : machine.exec p ls = some p') :
    p.pipeline.path.pending ++ (machine.outputs decisionsOf p ls).filterMap Decision.order
      = machine.outputs executedOf p ls ++ p'.pipeline.path.pending := by
  rw [← machine.outputs_filterMap]
  refine machine.conserved (Q := fun q : Program σ => q.pipeline.path.pending) ?_ hrun
  intro q l q' hstep
  obtain ⟨hqueue, -⟩ := orders_step hstep
  rw [← hqueue]
  unfold decisionsOf
  cases hd : q.decision l with
  | none => rfl
  | some d => cases horder : d.order <;> simp [horder]

end

/-- **Complete mediation.**  In every run of the program, whatever the threads and the network do: the
orders executed and those in flight are, in order, the decisions that the checker approved, and nothing
else.  At each approval the kill switch was off, the order was within the size limit and, where there is a
bid, within the band around it, and a Buy with its headroom within the balance read, which was above the
floor.  Any 10001 approvals in a row have different ids, and if the clock does not run backwards every
second holds at most `max_orders_per_sec` of them. -/
theorem every_order_is_gated (symbol : String) (depthLevels : Nat) (strat : σ)
    (maxOrderQty minFreeBalanceUsdt priceBandPct : ℚ) (maxOrdersPerSec : UInt32)
    (initialCapitalUsdt feePct : ℚ) (haltFile : Bool) (timeoutSecs startMs : Nat)
    (ls : List Label) (p : Program σ)
    (hrun : machine.exec (init symbol depthLevels strat (RiskChecker.new maxOrderQty
      minFreeBalanceUsdt priceBandPct maxOrdersPerSec) initialCapitalUsdt feePct haltFile timeoutSecs
      startMs) ls = some p) :
    let p₀ := init symbol depthLevels strat (RiskChecker.new maxOrderQty minFreeBalanceUsdt
      priceBandPct maxOrdersPerSec) initialCapitalUsdt feePct haltFile timeoutSecs startMs
    let decisions := machine.outputs decisionsOf p₀ ls
    let approved := Decision.approved decisions
    (machine.outputs executedOf p₀ ls ++ p.pipeline.path.pending
      = approved.map fun d => ⟨d.signal, d.env.uuid⟩) ∧
    (∀ d ∈ approved, d.env.haltFlag = false ∧ d.signal.qty ≤ maxOrderQty ∧
      (0 < referencePrice d.snapshot →
        |(d.signal.price - referencePrice d.snapshot) / referencePrice d.snapshot| * 100
          ≤ priceBandPct) ∧
      (d.signal.isBuy = true → minFreeBalanceUsdt ≤ d.env.cash ∧
        d.signal.price * d.signal.qty * (1001 / 1000) ≤ d.env.cash)) ∧
    (∀ run, run <:+: approved.map (·.env.uuid) → run.length ≤ 10001 → run.Nodup) ∧
    ((decisions.Pairwise fun d d' => d.env.now ≤ d'.env.now) → ∀ t,
      (window oneSecond t (approved.map (·.env.now))).length ≤ maxOrdersPerSec.toNat) := by
  intro p₀ decisions approved
  have hchecked : Checked (RiskChecker.new maxOrderQty minFreeBalanceUsdt priceBandPct
      maxOrdersPerSec).withHaltFlag.withBalanceSource decisions p.switch.risk := checked_of_run hrun
  have horders := orders_of_run hrun
  refine ⟨?_, ?_, fun run => hchecked.ids_nodup rfl rfl, hchecked.rate rfl⟩
  · rw [← horders, Decision.filterMap_order]
    rfl
  · intro d hd
    obtain ⟨hmem, hadm⟩ := List.mem_filter.mp hd
    obtain ⟨-, hrunning, hsize, hfloor, hfunds, hband, -, -⟩ := of_decide_eq_true hadm
    obtain ⟨ids, queue, timestamps, hrisk⟩ := hchecked.judged d hmem
    rw [hrisk] at hrunning hsize hfloor hfunds hband
    exact ⟨hrunning, hsize, hband, fun hbuy => ⟨hfloor hbuy, hfunds hbuy⟩⟩

/-- An entry, from the messages to the account: it has been approved, and within the size limit. -/
theorem first_order_gated :
    ∃ p : Program PingPongStrategy,
      machine.exec (init "BTCUSDT" 20 PingPongStrategy.default (RiskChecker.new 1 0 1 5) 10000 0
        false 30 0) (firstMessages "100" "100.01" ++
          [.handle 0 0 "a", .handle 0 0 "b", .send, .take, .fill]) = some p ∧
      p.pipeline.path.shared.buyCount = 1 ∧
      ∀ order ∈ machine.outputs executedOf (init "BTCUSDT" 20 PingPongStrategy.default
          (RiskChecker.new 1 0 1 5) 10000 0 false 30 0) (firstMessages "100" "100.01" ++
            [.handle 0 0 "a", .handle 0 0 "b", .send, .take, .fill]),
        order.signal.qty ≤ 1 := by
  have hsome : ((machine.exec (init "BTCUSDT" 20 PingPongStrategy.default
      (RiskChecker.new 1 0 1 5) 10000 0 false 30 0) (firstMessages "100" "100.01" ++
        [.handle 0 0 "a", .handle 0 0 "b", .send, .take, .fill])).any fun p =>
          p.pipeline.path.shared.buyCount = 1) = true := by decide +kernel
  obtain ⟨p, hrun, hcount⟩ := (Option.any_eq_true _ _).mp hsome
  obtain ⟨horders, hgates, -⟩ := every_order_is_gated _ _ _ _ _ _ _ _ _ _ _ _ _ p hrun
  refine ⟨p, hrun, of_decide_eq_true hcount, ?_⟩
  intro order horder
  have hmem := List.mem_append_left p.pipeline.path.pending horder
  rw [horders] at hmem
  obtain ⟨d, hd, rfl⟩ := List.mem_map.mp hmem
  exact (hgates d hd).2.1

end Program

end CryptoTrader
