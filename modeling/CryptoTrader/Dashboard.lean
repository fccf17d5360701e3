/-
# CryptoTrader.Dashboard — the sampler task and what a dashboard push shows.

`sample_second` and `to_dashboard_state` of `dashboard/mod.rs`.  Both read the shared state while the
other threads write it, one field after the other, so a push is put together from twelve moments of
the run, and a sample from three.  `Monitored` is the main loop with the sampler task beside it;
reading changes nothing, so a client is not part of the state: a `Push` is the moments at which it
reads.

Each read is of one field under one lock, and what one field shows is right in itself: the figures of
the account come from one account, the prices from one snapshot.  Across fields the order of the
reads counts: the trades are read before the account and the account before the counters, so no push
shows a trade that is not in its account, nor an account that its counters have not counted.
-/
import CryptoTrader.LiveFlag
import CryptoTrader.PositionDrift
import CryptoTrader.ViewHistory
import CryptoTrader.Lib.Refinement

namespace CryptoTrader

open Lib Lib.Deferred Lib.RecentWindow PnlLedger Reconciliation

/-! ## §1 The sampler task -/

/-- Where `sample_second` is: before its first read, or with what it has read so far. -/
inductive SamplerPhase where
  | waiting
  | counted (count : UInt64)
  | stored
  | marked (mark : Option ℚ)
  | valued (totalPnl : ℚ)
  deriving DecidableEq

/-- The main loop, and the fields of `SharedState` that only the sampler writes. -/
structure Monitored (σ : Type) where
  pipeline : Pipeline σ
  eventsLastSec : UInt64
  eventsLastCheckpoint : UInt64
  pnlHistory : List ℚ
  phase : SamplerPhase

/-- `u64::saturating_sub` -/
def saturatingSub (a b : UInt64) : UInt64 := if b ≤ a then a - b else 0

theorem toNat_saturatingSub {a b : UInt64} (h : b ≤ a) :
    (saturatingSub a b).toNat = a.toNat - b.toNat := by
  unfold saturatingSub
  rw [if_pos h, UInt64.toNat_sub_of_le _ _ h]

/-! The figures of an account on the step. -/

/-- Equity over capital is realized and unrealized profit less fees. -/
theorem SteppedBooks.equity_sub_capital {initialCapital : ℚ} {acct : PaperAccount}
    (h : SteppedBooks initialCapital acct) (mark : Option ℚ) :
    acct.equity mark - acct.initialCapital
      = acct.pnl.realizedPnl + (mark.map acct.pnl.unrealizedPnl).getD 0 - acct.totalFees := by
  cases mark with
  | none =>
      rw [equity_none, h.balanced]
      show _ = acct.pnl.realizedPnl + 0 - acct.totalFees
      ring
  | some price =>
      rw [equity_some, h.balanced]
      show _ = acct.pnl.realizedPnl + acct.pnl.unrealizedPnl price - acct.totalFees
      ring

/-- The average entry price is there exactly when there is a position, and then it is the cost of a
unit. -/
theorem avgEntryPrice_cases {pnl : FifoPnl} (h : SteppedLots pnl) :
    (pnl.buyQueue = [] ∧ pnl.avgEntryPrice = none) ∨
      (qtyStep ≤ pnl.positionQty ∧
        pnl.avgEntryPrice = some (pnl.positionNotional / pnl.positionQty)) := by
  cases hqueue : pnl.buyQueue with
  | nil =>
      left
      have hzero : pnl.positionQty = 0 := by simp [FifoPnl.positionQty, hqueue]
      refine ⟨rfl, ?_⟩
      unfold FifoPnl.avgEntryPrice
      exact if_neg (by rw [hzero]; exact not_lt.mpr qtyEpsilon_pos.le)
  | cons lot rest =>
      right
      have hfront : lot ∈ pnl.buyQueue := by rw [hqueue]; exact List.mem_cons_self
      have hlot : qtyStep ≤ lot.2 :=
        (h.2 lot hfront).le_of_pos qtyStep_pos (h.1 lot hfront)
      have hrest : 0 ≤ FifoLedger.total rest := by
        have hopen : FifoLedger.Open (lot :: rest) := hqueue ▸ h.1
        exact (FifoLedger.open_cons hopen).2.total_nonneg
      have hqty : qtyStep ≤ pnl.positionQty := by
        rw [FifoPnl.positionQty_eq, hqueue]
        obtain ⟨price, qty⟩ := lot
        rw [FifoLedger.total_cons]
        linarith
      refine ⟨hqty, ?_⟩
      unfold FifoPnl.avgEntryPrice
      exact if_pos (qtyEpsilon_lt_qtyStep.trans_le hqty)

namespace Monitored

variable {σ : Type} [Strategy σ]

def init (pipeline : Pipeline σ) : Monitored σ where
  pipeline := pipeline
  eventsLastSec := 0
  eventsLastCheckpoint := 0
  pnlHistory := []
  phase := .waiting

inductive Label where
  | pipeline (l : Pipeline.Label)
  | loadCount
  | storeRate
  | readMark
  | readAccount
  | pushPnl

/-- The best bid in the dashboard slot. -/
def mark (m : Monitored σ) : Option ℚ :=
  m.pipeline.view.snapshot.bind OrderbookSnapshot.bestBid?

def step (m : Monitored σ) : Label → Option (Monitored σ)
  | .pipeline l => (m.pipeline.step l).map fun pipeline => { m with pipeline := pipeline }
  | .loadCount =>
      match m.phase with
      | .waiting => some { m with phase := .counted m.pipeline.view.eventCount }
      | _ => none
  -- the checkpoint is swapped and the difference stored
  | .storeRate =>
      match m.phase with
      | .counted count =>
          some { m with
            eventsLastSec := saturatingSub count m.eventsLastCheckpoint
            eventsLastCheckpoint := count
            phase := .stored }
      | _ => none
  | .readMark =>
      match m.phase with
      | .stored => some { m with phase := .marked m.mark }
      | _ => none
  -- under the read lock of the account
  | .readAccount =>
      match m.phase with
      | .marked mark =>
          let acct := m.pipeline.path.account
          some { m with phase := .valued (acct.equity mark - acct.initialCapital) }
      | _ => none
  | .pushPnl =>
      match m.phase with
      | .valued totalPnl =>
          some { m with
            pnlHistory := pushBounded 300 m.pnlHistory totalPnl
            phase := .waiting }
      | _ => none

def machine : Machine (Monitored σ) Label := ⟨step⟩

/-- The sampler does not touch the main loop. -/
def refinement :
    Refinement (machine : Machine (Monitored σ) Label)
      (Pipeline.machine : Machine (Pipeline σ) Pipeline.Label) where
  abs := pipeline
  labels _ l := match l with
    | .pipeline l => [l]
    | _ => []
  sound := by
    intro m m' l h
    cases l with
    | pipeline l =>
        obtain ⟨pipeline, hstep, rfl⟩ := Option.map_eq_some_iff.mp h
        exact (Pipeline.machine.exec_singleton _ l).trans hstep
    | loadCount | storeRate | readMark | readAccount | pushPnl =>
        simp only [machine, step] at h
        split at h
        · obtain rfl := Option.some.inj h
          rfl
        · cases h

/-! What the steps of the sampler do, and when. -/

theorem loadCount_spec {m m' : Monitored σ} (h : m.step .loadCount = some m') :
    m.phase = .waiting ∧ m' = { m with phase := .counted m.pipeline.view.eventCount } := by
  simp only [step] at h
  split at h
  · next hphase => exact ⟨hphase, (Option.some.inj h).symm⟩
  · cases h

theorem storeRate_spec {m m' : Monitored σ} (h : m.step .storeRate = some m') :
    ∃ count, m.phase = .counted count ∧ m' = { m with
      eventsLastSec := saturatingSub count m.eventsLastCheckpoint
      eventsLastCheckpoint := count
      phase := .stored } := by
  simp only [step] at h
  split at h
  · next count hphase => exact ⟨count, hphase, (Option.some.inj h).symm⟩
  · cases h

theorem readMark_spec {m m' : Monitored σ} (h : m.step .readMark = some m') :
    m.phase = .stored ∧ m' = { m with phase := .marked m.mark } := by
  simp only [step] at h
  split at h
  · next hphase => exact ⟨hphase, (Option.some.inj h).symm⟩
  · cases h

/-- The equity at a mark over the capital. -/
def pnlAt (m : Monitored σ) (mark : Option ℚ) : ℚ :=
  m.pipeline.path.account.equity mark - m.pipeline.path.account.initialCapital

theorem readAccount_spec {m m' : Monitored σ} (h : m.step .readAccount = some m') :
    ∃ mark, m.phase = .marked mark ∧ m' = { m with phase := .valued (m.pnlAt mark) } := by
  simp only [step] at h
  split at h
  · next mark hphase => exact ⟨mark, hphase, (Option.some.inj h).symm⟩
  · cases h

theorem pushPnl_spec {m m' : Monitored σ} (h : m.step .pushPnl = some m') :
    ∃ totalPnl, m.phase = .valued totalPnl ∧ m' = { m with
      pnlHistory := pushBounded 300 m.pnlHistory totalPnl
      phase := .waiting } := by
  simp only [step] at h
  split at h
  · next totalPnl hphase => exact ⟨totalPnl, hphase, (Option.some.inj h).symm⟩
  · cases h

/-! ## §2 Events per second -/

/-- The sample that a step stores. -/
def sampledOf (m : Monitored σ) : Label → List UInt64
  | .storeRate =>
      match m.phase with
      | .counted count => [saturatingSub count m.eventsLastCheckpoint]
      | _ => []
  | _ => []

/-- The depth update that a step handles. -/
def updatesOf : Label → List MarketEvent
  | .pipeline l => (Pipeline.handledOf l).filter MarketEvent.isUpdate
  | _ => []

/-- The event counter, as long as it has not wrapped, and the samples taken of it: they add up to the
count they were taken at, which is not ahead of the updates. -/
structure Sampled (updates : List MarketEvent) (samples : List UInt64) (m : Monitored σ) :
    Prop where
  waits : m.pipeline.toPublish.isSome = m.pipeline.path.sending.isSome
  count : m.pipeline.view.eventCount = UInt64.ofNat updates.length
  last : m.eventsLastSec = samples.getLast?.getD 0
  total : updates.length < 2 ^ 64 →
    (samples.map UInt64.toNat).sum = m.eventsLastCheckpoint.toNat ∧
    m.eventsLastCheckpoint.toNat ≤ updates.length ∧
    ∀ count, m.phase = .counted count →
      m.eventsLastCheckpoint.toNat ≤ count.toNat ∧ count.toNat ≤ updates.length

theorem Sampled.step {updates : List MarketEvent} {samples : List UInt64} {m m' : Monitored σ}
    {l : Label} (h : Sampled updates samples m) (hstep : m.step l = some m') :
    Sampled (updates ++ updatesOf l) (samples ++ m.sampledOf l) m' := by
  obtain ⟨hwaits, hcount, hlast, htotal⟩ := h
  cases l with
  | pipeline l =>
      -- the counter follows the updates
      obtain ⟨pipeline, hpipeline, rfl⟩ := Option.map_eq_some_iff.mp hstep
      obtain ⟨hcounted, -⟩ := Pipeline.counters_step hwaits hpipeline
      rw [show m.sampledOf (.pipeline l) = [] from rfl, List.append_nil]
      refine ⟨Pipeline.waiting_step hwaits hpipeline, ?_, hlast, ?_⟩
      · rw [hcounted, hcount, List.length_append, UInt64.ofNat_add, List.countP_eq_length_filter]
        rfl
      · intro hsmall
        rw [List.length_append] at hsmall ⊢
        obtain ⟨hsum, hbehind, hloaded⟩ := htotal (by omega)
        refine ⟨hsum, by show m.eventsLastCheckpoint.toNat ≤ _; omega, ?_⟩
        intro count hphase
        have hbounds := hloaded count hphase
        show m.eventsLastCheckpoint.toNat ≤ _ ∧ _
        omega
  | loadCount =>
      obtain ⟨-, rfl⟩ := loadCount_spec hstep
      rw [show updatesOf .loadCount = [] from rfl, show m.sampledOf .loadCount = [] from rfl,
        List.append_nil, List.append_nil]
      refine ⟨hwaits, hcount, hlast, fun hsmall => ?_⟩
      obtain ⟨hsum, hbehind, -⟩ := htotal hsmall
      refine ⟨hsum, hbehind, ?_⟩
      intro count hload
      obtain rfl := SamplerPhase.counted.inj hload
      rw [hcount, UInt64.toNat_ofNat_of_lt' hsmall]
      exact ⟨hbehind, le_refl _⟩
  | storeRate =>
      obtain ⟨count, hphase, rfl⟩ := storeRate_spec hstep
      have hsample : m.sampledOf .storeRate = [saturatingSub count m.eventsLastCheckpoint] := by
        simp only [sampledOf, hphase]
      rw [show updatesOf .storeRate = [] from rfl, hsample, List.append_nil]
      refine ⟨hwaits, hcount, by simp, fun hsmall => ?_⟩
      obtain ⟨hsum, hbehind, hloaded⟩ := htotal hsmall
      obtain ⟨hle, hcap⟩ := hloaded count hphase
      refine ⟨?_, hcap, nofun⟩
      rw [List.map_append, List.sum_append, hsum, List.map_singleton, List.sum_singleton,
        toNat_saturatingSub (UInt64.le_iff_toNat_le.mpr hle)]
      show _ = count.toNat
      omega
  | readMark =>
      obtain ⟨-, rfl⟩ := readMark_spec hstep
      rw [show updatesOf .readMark = [] from rfl, show m.sampledOf .readMark = [] from rfl,
        List.append_nil, List.append_nil]
      exact ⟨hwaits, hcount, hlast, fun hsmall => ⟨(htotal hsmall).1, (htotal hsmall).2.1, nofun⟩⟩
  | readAccount =>
      obtain ⟨mark, -, rfl⟩ := readAccount_spec hstep
      rw [show updatesOf .readAccount = [] from rfl, show m.sampledOf .readAccount = [] from rfl,
        List.append_nil, List.append_nil]
      exact ⟨hwaits, hcount, hlast, fun hsmall => ⟨(htotal hsmall).1, (htotal hsmall).2.1, nofun⟩⟩
  | pushPnl =>
      obtain ⟨totalPnl, -, rfl⟩ := pushPnl_spec hstep
      rw [show updatesOf .pushPnl = [] from rfl, show m.sampledOf .pushPnl = [] from rfl,
        List.append_nil, List.append_nil]
      exact ⟨hwaits, hcount, hlast, fun hsmall => ⟨(htotal hsmall).1, (htotal hsmall).2.1, nofun⟩⟩

/-- Between the load and the store the loaded count stays what it is. -/
theorem counted_until_store {m m' : Monitored σ} {count : UInt64} {l : Label}
    (h : m.phase = .counted count) (hl : l ≠ .storeRate) (hstep : m.step l = some m') :
    m'.phase = .counted count := by
  cases l with
  | pipeline l =>
      obtain ⟨pipeline, -, rfl⟩ := Option.map_eq_some_iff.mp hstep
      exact h
  | storeRate => exact absurd rfl hl
  | loadCount => exact absurd (h.symm.trans (loadCount_spec hstep).1) (by simp)
  | readMark => exact absurd (h.symm.trans (readMark_spec hstep).1) (by simp)
  | readAccount =>
      obtain ⟨mark, hphase, -⟩ := readAccount_spec hstep
      exact absurd (h.symm.trans hphase) (by simp)
  | pushPnl =>
      obtain ⟨totalPnl, hphase, -⟩ := pushPnl_spec hstep
      exact absurd (h.symm.trans hphase) (by simp)

/-- **The samples add up.**  Take any run of the main loop and the sampler, up to a load of the event
counter; let anything happen until the rate is stored.  The samples stored so far, this one included,
add up to the number of depth updates handled before the load: none is counted twice or left out,
as long as the counter has not wrapped.  And what the dashboard shows is the last sample. -/
theorem samples_add_up (symbol : String) (depthLevels : Nat) (strat : σ) (risk : RiskChecker)
    (initialCapitalUsdt feePct : ℚ) (haltFlag : Bool) (before between : List Label)
    (m loaded ready m' : Monitored σ)
    (hbefore : machine.exec (init (Pipeline.init symbol depthLevels strat risk initialCapitalUsdt
      feePct haltFlag)) before = some m)
    (hload : m.step .loadCount = some loaded)
    (hbetween : machine.exec loaded between = some ready) (hquiet : ∀ l ∈ between, l ≠ .storeRate)
    (hstore : ready.step .storeRate = some m')
    (hsmall : (machine.outputs (fun _ => updatesOf) (init (Pipeline.init symbol depthLevels strat
      risk initialCapitalUsdt feePct haltFlag)) (before ++ .loadCount :: between)).length
        < 2 ^ 64) :
    let m₀ := init (Pipeline.init symbol depthLevels strat risk initialCapitalUsdt feePct haltFlag)
    let samples := machine.outputs sampledOf m₀
      (before ++ .loadCount :: between ++ [.storeRate])
    (samples.map UInt64.toNat).sum
        = (machine.outputs (fun _ => updatesOf) m₀ before).length ∧
      m'.eventsLastSec = samples.getLast?.getD 0 := by
  intro m₀ samples
  set updates := machine.outputs (fun _ => updatesOf) m₀
  have hstart : Sampled [] [] m₀ :=
    ⟨rfl, rfl, rfl, fun _ => ⟨rfl, Nat.le_refl 0, fun _ h => by cases h⟩⟩
  have hsampled : ∀ {ls t}, machine.exec m₀ ls = some t →
      Sampled (updates ls) (machine.outputs sampledOf m₀ ls) t := fun hrun =>
    machine.exec_histories_of_step (I := fun m updates samples => Sampled updates samples m)
      (fun _ _ _ _ _ h hstep => h.step hstep) hstart hrun
  -- the count that is stored is the one that was loaded
  have hloaded : loaded.phase = .counted m.pipeline.view.eventCount := by
    rw [(loadCount_spec hload).2]
  have hphase : ready.phase = .counted m.pipeline.view.eventCount :=
    machine.exec_invariant (C := fun _ l => l ≠ .storeRate)
      (I := fun m' : Monitored σ => m'.phase = .counted m.pipeline.view.eventCount)
      (fun _ _ _ h hl hstep => counted_until_store h hl hstep) hloaded
      (machine.guarded_of_forall (fun _ l hl => hquiet l hl) loaded) hbetween
  have hready : machine.exec m₀ (before ++ .loadCount :: between) = some ready :=
    machine.exec_trans hbefore (machine.exec_cons_eq_some.mpr ⟨loaded, hload, hbetween⟩)
  have hend := hsampled (machine.exec_trans hready
    ((machine.exec_singleton ready .storeRate).trans hstore))
  have hlength : (updates (before ++ .loadCount :: between ++ [.storeRate])).length
      = (updates (before ++ .loadCount :: between)).length := by
    have hone : machine.outputs (fun _ => updatesOf) ready [.storeRate] = [] := by
      refine machine.outputs_eq_nil ?_ ready
      intro t l hl
      rw [List.mem_singleton.mp hl]
      rfl
    show (machine.outputs (fun _ => updatesOf) m₀ _).length = _
    rw [machine.outputs_append hready, hone, List.append_nil]
  have hmono : (updates before).length ≤ (updates (before ++ .loadCount :: between)).length := by
    show (updates before).length ≤ (machine.outputs (fun _ => updatesOf) m₀ _).length
    rw [machine.outputs_append hbefore, List.length_append]
    exact Nat.le_add_right _ _
  obtain ⟨count, hcount, rfl⟩ := storeRate_spec hstore
  obtain rfl := SamplerPhase.counted.inj (hcount.symm.trans hphase)
  obtain ⟨htotal, -, -⟩ := hend.total (hlength ▸ hsmall)
  refine ⟨htotal.trans ?_, hend.last⟩
  show m.pipeline.view.eventCount.toNat = _
  rw [(hsampled hbefore).count]
  exact UInt64.toNat_ofNat_of_lt' (hmono.trans_lt hsmall)

/-- One sample, and then the market that a strategy enters. -/
def sampledEntry : List Label :=
  [.loadCount, .storeRate, .readMark, .readAccount, .pushPnl]
    ++ (Pipeline.quoteEvents "100" "101").map .pipeline ++ [.pipeline .send]

/-- The depth update that makes the book live, between two samples: the second sample counts it. -/
theorem two_samples_count_one :
    ∃ m m' : Monitored PingPongStrategy,
      machine.exec (init (Pipeline.init "BTCUSDT" 20 PingPongStrategy.default
        (RiskChecker.new 1 0 1 5) 10000 0 false)) sampledEntry = some m ∧
      m'.eventsLastSec = 1 := by
  have hsome : ((machine.exec (init (Pipeline.init "BTCUSDT" 20 PingPongStrategy.default
      (RiskChecker.new 1 0 1 5) 10000 0 false)) sampledEntry).any fun m =>
        (m.step .loadCount).any fun loaded => (loaded.step .storeRate).isSome) = true := by
    decide +kernel
  obtain ⟨m, hrun, hend⟩ := (Option.any_eq_true _ _).mp hsome
  obtain ⟨loaded, hload, hready⟩ := (Option.any_eq_true _ _).mp hend
  obtain ⟨m', hstore⟩ := Option.isSome_iff_exists.mp hready
  obtain ⟨-, hlast⟩ := samples_add_up _ _ _ _ _ _ _ sampledEntry [] m loaded loaded m' hrun hload
    rfl (by simp) hstore (by decide +kernel)
  exact ⟨m, m', hrun, hlast.trans (by decide +kernel)⟩

/-! ## §3 The profit chart -/

/-- The point that a step adds to the chart. -/
def pushedOf (m : Monitored σ) : Label → List ℚ
  | .pushPnl =>
      match m.phase with
      | .valued totalPnl => [totalPnl]
      | _ => []
  | _ => []

/-- Where in a run a point is valued: how many steps come before the read of the mark, and how many
before that of the account. -/
structure Valuation where
  markRead : Nat
  acctRead : Nat

/-- The reads are those of the run, and this is the value they give. -/
structure Valuation.Gives (m₀ : Monitored σ) (ls : List Label) (v : Valuation) (totalPnl : ℚ) :
    Prop where
  ordered : v.markRead < v.acctRead
  readsMark : ls[v.markRead]? = some .readMark
  readsAccount : ls[v.acctRead]? = some .readAccount
  value : ∃ m₁ m₂, machine.exec m₀ (ls.take v.markRead) = some m₁ ∧
    machine.exec m₀ (ls.take v.acctRead) = some m₂ ∧ totalPnl = m₂.pnlAt m₁.mark

theorem Valuation.Gives.acctRead_lt {m₀ : Monitored σ} {ls : List Label} {v : Valuation}
    {totalPnl : ℚ} (h : v.Gives m₀ ls totalPnl) : v.acctRead < ls.length :=
  (List.getElem?_eq_some_iff.mp h.readsAccount).1

/-- A run that goes on has had the same reads. -/
theorem Valuation.Gives.append {m₀ : Monitored σ} {ls : List Label} {v : Valuation} {totalPnl : ℚ}
    (h : v.Gives m₀ ls totalPnl) (more : List Label) : v.Gives m₀ (ls ++ more) totalPnl := by
  have hacct := h.acctRead_lt
  have hmark := h.ordered.trans hacct
  refine ⟨h.ordered, ?_, ?_, ?_⟩
  · rw [List.getElem?_append_left hmark, h.readsMark]
  · rw [List.getElem?_append_left hacct, h.readsAccount]
  · rw [List.take_append_of_le_length hmark.le, List.take_append_of_le_length hacct.le]
    exact h.value

/-- **The chart so far**: the last points pushed, each valued after the one before it; and what the
sampler has in its hands comes from reads after all of those. -/
structure Charted (m₀ : Monitored σ) (points : List ℚ) (ls : List Label) (vs : List Valuation)
    (m : Monitored σ) : Prop where
  run : machine.exec m₀ ls = some m
  history : m.pnlHistory = points.rtake 300
  points : List.Forall₂ (Valuation.Gives m₀ ls) vs points
  ordered : vs.Pairwise fun v w => v.acctRead < w.markRead
  behind : ∀ v ∈ vs, v.acctRead < ls.length
  marked : ∀ mark, m.phase = .marked mark → ∃ i m₁, ls[i]? = some .readMark ∧
    (∀ v ∈ vs, v.acctRead < i) ∧ machine.exec m₀ (ls.take i) = some m₁ ∧ mark = m₁.mark
  valued : ∀ totalPnl, m.phase = .valued totalPnl → ∃ w : Valuation, w.Gives m₀ ls totalPnl ∧
    ∀ v ∈ vs, v.acctRead < w.markRead

section

variable {m₀ m m' : Monitored σ} {points : List ℚ} {ls : List Label} {vs : List Valuation}
  {l : Label}

theorem Charted.run_step (h : Charted m₀ points ls vs m) (hstep : m.step l = some m') :
    machine.exec m₀ (ls ++ [l]) = some m' :=
  machine.exec_trans h.run ((machine.exec_singleton m l).trans hstep)

theorem Charted.points_step (h : Charted m₀ points ls vs m) (l : Label) :
    List.Forall₂ (Valuation.Gives m₀ (ls ++ [l])) vs points :=
  h.points.imp fun _ _ hgives => hgives.append [l]

theorem Charted.behind_step (h : Charted m₀ points ls vs m) (l : Label) :
    ∀ v ∈ vs, v.acctRead < (ls ++ [l]).length := by
  intro v hv
  have hlt := h.behind v hv
  rw [List.length_append, List.length_singleton]
  omega

/-- A step that pushes no point and reads nothing into the sampler's hands. -/
theorem Charted.keep (h : Charted m₀ points ls vs m) (hstep : m.step l = some m')
    (hpushed : m.pushedOf l = []) (hhistory : m'.pnlHistory = m.pnlHistory)
    (hmarked : ∀ mark, m'.phase = .marked mark → m.phase = .marked mark)
    (hvalued : ∀ totalPnl, m'.phase = .valued totalPnl → m.phase = .valued totalPnl) :
    Charted m₀ (points ++ m.pushedOf l) (ls ++ [l]) vs m' := by
  rw [hpushed, List.append_nil]
  refine ⟨h.run_step hstep, hhistory.trans h.history, h.points_step l, h.ordered, h.behind_step l,
    ?_, ?_⟩
  · intro mark hphase
    obtain ⟨i, m₁, hread, hlater, hrun, hmark⟩ := h.marked mark (hmarked mark hphase)
    have hi : i < ls.length := (List.getElem?_eq_some_iff.mp hread).1
    refine ⟨i, m₁, ?_, hlater, ?_, hmark⟩
    · rw [List.getElem?_append_left hi, hread]
    · rw [List.take_append_of_le_length hi.le, hrun]
  · intro totalPnl hphase
    obtain ⟨w, hgives, hlater⟩ := h.valued totalPnl (hvalued totalPnl hphase)
    exact ⟨w, hgives.append [l], hlater⟩

/-- **One step**: only a push adds a point, and with it the reads that gave it. -/
theorem Charted.step (h : Charted m₀ points ls vs m) (hstep : m.step l = some m') :
    ∃ vs', Charted m₀ (points ++ m.pushedOf l) (ls ++ [l]) vs' m' := by
  have hnow : (ls ++ [l])[ls.length]? = some l := List.getElem?_concat_length
  have htaken : (ls ++ [l]).take ls.length = ls := List.take_left
  cases l with
  | pipeline l =>
      have hkept : m'.pnlHistory = m.pnlHistory ∧ m'.phase = m.phase := by
        obtain ⟨pipeline, -, rfl⟩ := Option.map_eq_some_iff.mp hstep
        exact ⟨rfl, rfl⟩
      obtain ⟨hhistory, hphase⟩ := hkept
      exact ⟨vs, h.keep hstep rfl hhistory (fun mark => hphase ▸ id) fun v => hphase ▸ id⟩
  | loadCount =>
      refine ⟨vs, h.keep hstep rfl ?_ ?_ ?_⟩ <;> obtain ⟨-, rfl⟩ := loadCount_spec hstep
      · rfl
      · exact nofun
      · exact nofun
  | storeRate =>
      refine ⟨vs, h.keep hstep rfl ?_ ?_ ?_⟩ <;> obtain ⟨count, -, rfl⟩ := storeRate_spec hstep
      · rfl
      · exact nofun
      · exact nofun
  | readMark =>
      have hrun := h.run_step hstep
      obtain ⟨-, rfl⟩ := readMark_spec hstep
      rw [show m.pushedOf .readMark = [] from rfl, List.append_nil]
      refine ⟨vs, hrun, h.history, h.points_step _, h.ordered, h.behind_step _, ?_, nofun⟩
      intro mark hphase
      exact ⟨ls.length, m, hnow, h.behind, by rw [htaken]; exact h.run,
        (SamplerPhase.marked.inj hphase).symm⟩
  | readAccount =>
      have hrun := h.run_step hstep
      obtain ⟨mark, hphase, rfl⟩ := readAccount_spec hstep
      rw [show m.pushedOf .readAccount = [] from rfl, List.append_nil]
      refine ⟨vs, hrun, h.history, h.points_step _, h.ordered, h.behind_step _, nofun, ?_⟩
      intro totalPnl hvalue
      obtain ⟨i, m₁, hread, hlater, hrun₁, rfl⟩ := h.marked mark hphase
      have hi : i < ls.length := (List.getElem?_eq_some_iff.mp hread).1
      refine ⟨⟨i, ls.length⟩, ⟨hi, ?_, hnow, m₁, m, ?_, ?_, ?_⟩, hlater⟩
      · rw [List.getElem?_append_left hi, hread]
      · rw [List.take_append_of_le_length hi.le, hrun₁]
      · rw [htaken]
        exact h.run
      · exact (SamplerPhase.valued.inj hvalue).symm
  | pushPnl =>
      have hrun := h.run_step hstep
      obtain ⟨totalPnl, hphase, rfl⟩ := pushPnl_spec hstep
      have hpushed : m.pushedOf .pushPnl = [totalPnl] := by simp only [pushedOf, hphase]
      rw [hpushed]
      obtain ⟨w, hgives, hlater⟩ := h.valued totalPnl hphase
      have hgives' := hgives.append [Label.pushPnl]
      refine ⟨vs ++ [w], hrun, ?_, ?_, ?_, ?_, nofun, nofun⟩
      · show pushBounded 300 m.pnlHistory totalPnl = _
        rw [h.history]
        exact Pipeline.pushBounded_rtake (by norm_num) points totalPnl
      · exact List.rel_append (h.points_step _) (.cons hgives' .nil)
      · rw [List.pairwise_append]
        refine ⟨h.ordered, List.pairwise_singleton _ _, ?_⟩
        intro v hv w' hw'
        rw [List.mem_singleton.mp hw']
        exact hlater v hv
      · intro v hv
        rcases List.mem_append.mp hv with hv | hv
        · exact h.behind_step _ v hv
        · rw [List.mem_singleton.mp hv]
          exact hgives'.acctRead_lt

end

theorem charted_of_run {pipeline : Pipeline σ} {ls : List Label} {m : Monitored σ}
    (hrun : machine.exec (init pipeline) ls = some m) :
    ∃ vs, Charted (init pipeline) (machine.outputs pushedOf (init pipeline) ls) ls vs m := by
  have hcharted : ∃ vs, Charted (init pipeline) (machine.outputs pushedOf (init pipeline) ls)
      (machine.outputs (fun _ l => [l]) (init pipeline) ls) vs m :=
    machine.exec_histories_of_step
      (I := fun m points done => ∃ vs, Charted (init pipeline) points done vs m)
      (fun _ _ _ _ _ ⟨_, h⟩ hstep => h.step hstep)
      ⟨[], rfl, rfl, .nil, .nil, nofun, nofun, nofun⟩ hrun
  rwa [machine.outputs_inputs hrun] at hcharted

/-- What the main loop puts out, beside the sampler. -/
def ofPipeline {O : Type*} (out : Pipeline σ → Pipeline.Label → List O) (m : Monitored σ) :
    Label → List O
  | .pipeline l => out m.pipeline l
  | _ => []

/-- The run of the main loop in a monitored one, and what it puts out. -/
theorem pipeline_of_run {m₀ m : Monitored σ} {ls : List Label}
    (hrun : machine.exec m₀ ls = some m) :
    ∃ ls', Pipeline.machine.exec m₀.pipeline ls' = some m.pipeline ∧
      ∀ {O : Type} (out : Pipeline σ → Pipeline.Label → List O),
        Pipeline.machine.outputs out m₀.pipeline ls' = machine.outputs (ofPipeline out) m₀ ls := by
  refine ⟨_, refinement.exec hrun, fun out => refinement.outputs_trace ?_ hrun⟩
  intro m l m' hstep
  cases l with
  | pipeline l =>
      obtain ⟨pipeline, hpipeline, -⟩ := Option.map_eq_some_iff.mp hstep
      exact Pipeline.machine.outputs_singleton hpipeline
  | _ => rfl

/-- **The points of the chart.**  For a strategy that trades on the step: the chart is the last 300
points pushed.  Each point is the realized profit of the account at a read of the run, plus what its
position gains at the best bid the dashboard showed at the read before it, if there was one, less its
fees; and the reads of a point come after those of the points before it. -/
theorem pnl_history_of_run {σ : Type} [SteppedStrategy σ] (strat : σ)
    (hflat : PositionStrategy.holding strat = false) (symbol : String) (depthLevels : Nat)
    (risk : RiskChecker) (initialCapitalUsdt feePct : ℚ) (haltFlag : Bool) (ls : List Label)
    (m : Monitored σ)
    (hrun : machine.exec (init (Pipeline.init symbol depthLevels strat risk initialCapitalUsdt
      feePct haltFlag)) ls = some m) :
    let m₀ := init (Pipeline.init symbol depthLevels strat risk initialCapitalUsdt feePct haltFlag)
    let points := machine.outputs pushedOf m₀ ls
    m.pnlHistory = points.rtake 300 ∧
    ∃ vs : List Valuation, (vs.Pairwise fun v w => v.acctRead < w.markRead) ∧
      List.Forall₂ (fun v totalPnl => v.markRead < v.acctRead ∧
        ls[v.markRead]? = some .readMark ∧ ls[v.acctRead]? = some .readAccount ∧
        ∃ m₁ m₂ : Monitored σ, machine.exec m₀ (ls.take v.markRead) = some m₁ ∧
          machine.exec m₀ (ls.take v.acctRead) = some m₂ ∧
          let acct := m₂.pipeline.path.account
          totalPnl = acct.pnl.realizedPnl + (m₁.mark.map acct.pnl.unrealizedPnl).getD 0
            - acct.totalFees) vs points := by
  intro m₀ points
  obtain ⟨vs, hcharted⟩ : ∃ vs, Charted m₀ points ls vs m := charted_of_run hrun
  refine ⟨hcharted.history, vs, hcharted.ordered, hcharted.points.imp ?_⟩
  rintro v totalPnl ⟨hordered, hmark, hacct, m₁, m₂, h₁, h₂, rfl⟩
  obtain ⟨ls', hrun', -⟩ := pipeline_of_run h₂
  have hbooks : SteppedBooks initialCapitalUsdt m₂.pipeline.path.account :=
    Pipeline.steppedBooks_of_run hflat hrun'
  exact ⟨hordered, hmark, hacct, m₁, m₂, h₁, h₂, hbooks.equity_sub_capital m₁.mark⟩

/-- An entry at 100 with a fee, executed and booked, a best bid of 99.80 after it, and a sample. -/
def sampledDip : List Label :=
  Pipeline.bookedEntry.map .pipeline ++
    [.pipeline (.event (.depthUpdate ⟨"depthUpdate", 0, "BTCUSDT", 12, 12, 11,
      [("100", "0"), ("99.8", "1")], []⟩) 0 1 "b"),
      .loadCount, .storeRate, .readMark, .readAccount, .pushPnl]

/-- Nothing is realized yet: the point is what the position has lost and what the entry has cost. -/
theorem dip_point :
    ∃ m : Monitored PingPongStrategy,
      machine.exec (init (Pipeline.init "BTCUSDT" 20 PingPongStrategy.default
        (RiskChecker.new 1 0 1 5) 10000 (1 / 20) false)) sampledDip = some m ∧
      m.pnlHistory = [-(2 / 1000) - 5 / 10000] := by
  have hsome : (machine.exec (init (Pipeline.init "BTCUSDT" 20 PingPongStrategy.default
      (RiskChecker.new 1 0 1 5) 10000 (1 / 20) false)) sampledDip).isSome = true := by
    decide +kernel
  obtain ⟨m, hrun⟩ := Option.isSome_iff_exists.mp hsome
  obtain ⟨hhistory, -⟩ := pnl_history_of_run _ rfl _ _ _ _ _ _ _ m hrun
  exact ⟨m, hrun, hhistory.trans (by decide +kernel)⟩

end Monitored

/-! ## §4 What a push shows -/

/-- The values that `to_dashboard_state` reads, in the order in which it reads them. -/
structure DashboardReads where
  snapshot : Option OrderbookSnapshot
  recentTrades : List PaperTrade
  priceHistory : List ℚ
  halted : Bool
  account : PaperAccount
  eventCount : UInt64
  eventsLastSec : UInt64
  pnlHistory : List ℚ
  connected : Bool
  isLive : Bool
  buyCount : UInt64
  sellCount : UInt64

structure DashboardState where
  connected : Bool
  syncState : String
  bestBid : Option ℚ
  bestAsk : Option ℚ
  spread : Option ℚ
  eventCount : UInt64
  eventsPerSec : ℚ
  bids : List (ℚ × ℚ)
  asks : List (ℚ × ℚ)
  recentTrades : List PaperTrade
  buyCount : UInt64
  sellCount : UInt64
  halted : Bool
  priceHistory : List ℚ
  realizedPnl : ℚ
  positionQty : ℚ
  avgEntryPrice : Option ℚ
  unrealizedPnl : Option ℚ
  pnlHistory : List ℚ
  initialCapital : ℚ
  cashBalance : ℚ
  equity : ℚ
  capitalReturnPct : ℚ
  totalFees : ℚ
  symbol : String
  startedAtMs : UInt64

/-- `to_dashboard_state`, on what it reads. -/
def DashboardReads.toDashboardState (reads : DashboardReads) (symbol : String)
    (startedAtMs : UInt64) : DashboardState :=
  let snap := reads.snapshot
  let bestBid := snap.bind OrderbookSnapshot.bestBid?
  let bestAsk := snap.bind OrderbookSnapshot.bestAsk?
  let acct := reads.account
  { connected := reads.connected
    syncState := if reads.isLive then "Live" else "Buffering"
    bestBid := bestBid
    bestAsk := bestAsk
    spread := bestBid.bind fun b => bestAsk.map fun a => a - b
    eventCount := reads.eventCount
    eventsPerSec := reads.eventsLastSec.toNat
    bids := (snap.map fun s => s.bids.take 10).getD []
    asks := (snap.map fun s => s.asks.take 10).getD []
    recentTrades := reads.recentTrades
    buyCount := reads.buyCount
    sellCount := reads.sellCount
    halted := reads.halted
    priceHistory := reads.priceHistory
    realizedPnl := acct.pnl.realizedPnl
    positionQty := acct.pnl.positionQty
    avgEntryPrice := acct.pnl.avgEntryPrice
    unrealizedPnl := bestBid.map acct.pnl.unrealizedPnl
    pnlHistory := reads.pnlHistory
    initialCapital := acct.initialCapital
    cashBalance := acct.cash
    equity := acct.equity bestBid
    capitalReturnPct := acct.returnOnCapitalPct bestBid
    totalFees := acct.totalFees
    symbol := symbol
    startedAtMs := startedAtMs }

/-- The best prices head the levels. -/
theorem DashboardReads.best_prices_head (reads : DashboardReads) (symbol : String)
    (startedAtMs : UInt64) :
    let d := reads.toDashboardState symbol startedAtMs
    d.bestBid = d.bids.head?.map Prod.fst ∧ d.bestAsk = d.asks.head?.map Prod.fst ∧
      d.bids.length ≤ 10 ∧ d.asks.length ≤ 10 := by
  intro d
  have hhead : ∀ levels : List (ℚ × ℚ), (levels.take 10).head? = levels.head? := by
    intro levels
    cases levels <;> rfl
  obtain ⟨snapshot, _⟩ := reads
  cases snapshot with
  | none => exact ⟨rfl, rfl, Nat.zero_le _, Nat.zero_le _⟩
  | some snapshot =>
      refine ⟨?_, ?_, List.length_take_le 10 snapshot.bids, List.length_take_le 10 snapshot.asks⟩
      · show snapshot.bids.head?.map Prod.fst = (snapshot.bids.take 10).head?.map Prod.fst
        rw [hhead]
      · show snapshot.asks.head?.map Prod.fst = (snapshot.asks.take 10).head?.map Prod.fst
        rw [hhead]

section

variable {σ : Type} [Strategy σ]

/-- The twelve reads of a push during a run: how far the run has come at each, and to what state. -/
structure Push (start : Monitored σ) (ls : List Monitored.Label) where
  steps : Fin 12 → Nat
  ordered : Monotone steps
  moments : Fin 12 → Monitored σ
  reached : ∀ i, Monitored.machine.exec start (ls.take (steps i)) = some (moments i)

namespace Push

variable {start : Monitored σ} {ls : List Monitored.Label} (push : Push start ls)

def reads : DashboardReads where
  snapshot := (push.moments 0).pipeline.view.snapshot
  recentTrades := (push.moments 1).pipeline.path.shared.recentTrades
  priceHistory := (push.moments 2).pipeline.view.priceHistory
  halted := (push.moments 3).pipeline.path.shared.haltFlag
  account := (push.moments 4).pipeline.path.account
  eventCount := (push.moments 5).pipeline.view.eventCount
  eventsLastSec := (push.moments 6).eventsLastSec
  pnlHistory := (push.moments 7).pnlHistory
  connected := (push.moments 8).pipeline.view.connected
  isLive := (push.moments 9).pipeline.view.isLive
  buyCount := (push.moments 10).pipeline.path.shared.buyCount
  sellCount := (push.moments 11).pipeline.path.shared.sellCount

/-- What the client is sent. -/
def dashboard (startedAtMs : UInt64) : DashboardState :=
  push.reads.toDashboardState start.pipeline.path.shared.symbol startedAtMs

/-- What the main loop has put out up to a read. -/
def upTo {O : Type} (out : Pipeline σ → Pipeline.Label → List O) (i : Fin 12) : List O :=
  Monitored.machine.outputs (Monitored.ofPipeline out) start (ls.take (push.steps i))

/-- Up to a later read it has put out the same, and perhaps more. -/
theorem upTo_prefix {O : Type} (out : Pipeline σ → Pipeline.Label → List O) {i j : Fin 12}
    (h : i ≤ j) : push.upTo out i <+: push.upTo out j := by
  have hsplit : ls.take (push.steps j)
      = ls.take (push.steps i) ++ (ls.take (push.steps j)).drop (push.steps i) := by
    conv_lhs => rw [← List.take_append_drop (push.steps i) (ls.take (push.steps j))]
    rw [List.take_take, min_eq_left (push.ordered h)]
  unfold upTo
  rw [hsplit, Monitored.machine.outputs_append (push.reached i)]
  exact List.prefix_append _ _

end Push

/-- **No trade without its account, no account without its counters.**  Whatever happens between the
reads: the trades shown are the last 50 that the run has recorded up to the read of the trades, the
account is that of all the orders it has executed up to the read of the account, and the counters
have counted those it has executed up to their own reads.  What is recorded is executed before the
account is read, and what is executed by then is counted before the counters are. -/
theorem Push.push_counts_what_it_shows (symbol : String) (depthLevels : Nat) (strat : σ)
    (risk : RiskChecker) (initialCapitalUsdt feePct : ℚ) (haltFlag : Bool)
    (ls : List Monitored.Label)
    (push : Push (Monitored.init (Pipeline.init symbol depthLevels strat risk initialCapitalUsdt
      feePct haltFlag)) ls) (startedAtMs : UInt64) :
    let d := push.dashboard startedAtMs
    let recorded := push.upTo Pipeline.recordedOf
    let executed := push.upTo Pipeline.executedOf
    ((recorded 1).map Prod.fst <+: executed 4 ∧ executed 4 <+: executed 10 ∧
      executed 10 <+: executed 11) ∧
    d.recentTrades = (pushed (recorded 1)).rtake 50 ∧
    (let acct := settle PaperAccount.applyOrder (PaperAccount.new initialCapitalUsdt feePct)
      (executed 4)
    d.cashBalance = acct.cash ∧ d.totalFees = acct.totalFees ∧
      d.realizedPnl = acct.pnl.realizedPnl ∧ d.positionQty = acct.pnl.positionQty) ∧
    d.buyCount = UInt64.ofNat ((executed 10).countP ValidatedOrder.isBuy) ∧
    d.sellCount = UInt64.ofNat ((executed 11).countP ValidatedOrder.isSell) := by
  intro d recorded executed
  -- the books of the main loop at a read, in terms of what has been put out up to it
  have hbooks : ∀ i, Pipeline.OrderBooks (PaperAccount.new initialCapitalUsdt feePct)
      (PaperExecutor.new symbol) (executed i) (push.moments i).pipeline := by
    intro i
    obtain ⟨ls', hrun, hout⟩ := Monitored.pipeline_of_run (push.reached i)
    show Pipeline.OrderBooks _ _ (push.upTo Pipeline.executedOf i) _
    rw [upTo, ← hout]
    exact Pipeline.orderBooks_of_run hrun
  obtain ⟨ls', hrun, hout⟩ := Monitored.pipeline_of_run (push.reached 1)
  have hrecorded : recorded 1 = Pipeline.machine.outputs Pipeline.recordedOf
      (Pipeline.init symbol depthLevels strat risk initialCapitalUsdt feePct haltFlag) ls' :=
    (hout Pipeline.recordedOf).symm
  refine ⟨⟨?_, push.upTo_prefix _ (by decide), push.upTo_prefix _ (by decide)⟩, ?_, ?_,
    (hbooks 10).buyCount, (hbooks 11).sellCount⟩
  · have hexecuted : (recorded 1).map Prod.fst <+: executed 1 := by
      show _ <+: push.upTo Pipeline.executedOf 1
      rw [upTo, ← hout, hrecorded]
      exact Pipeline.recorded_prefix_of_run hrun
    exact hexecuted.trans (push.upTo_prefix _ (by decide))
  · rw [hrecorded]
    exact Pipeline.recentTrades_of_run hrun
  · have hacct := (hbooks 4).account
    refine ⟨?_, ?_, ?_, ?_⟩ <;> rw [← hacct] <;> rfl

end

/-- **The figures of a push add up.**  For a strategy that trades on the step, whatever happens
between the reads: equity over capital is realized and unrealized profit less fees, and the return is
just that in percent of the capital; there is an average entry price exactly when there is a position,
and the unrealized profit is what the position gains from it to the best bid shown; the best prices
head the levels shown; and the histories are bounded. -/
theorem Push.figures_add_up {σ : Type} [SteppedStrategy σ] (strat : σ)
    (hflat : PositionStrategy.holding strat = false) (symbol : String) (depthLevels : Nat)
    (risk : RiskChecker) (initialCapitalUsdt feePct : ℚ) (haltFlag : Bool)
    (ls : List Monitored.Label)
    (push : Push (Monitored.init (Pipeline.init symbol depthLevels strat risk initialCapitalUsdt
      feePct haltFlag)) ls) (startedAtMs : UInt64) :
    let d := push.dashboard startedAtMs
    let profit := d.realizedPnl + d.unrealizedPnl.getD 0 - d.totalFees
    (d.initialCapital = initialCapitalUsdt ∧ d.equity - d.initialCapital = profit ∧
      (0 < initialCapitalUsdt → d.capitalReturnPct = profit / initialCapitalUsdt * 100)) ∧
    ((d.positionQty = 0 ∧ d.avgEntryPrice = none ∧ d.unrealizedPnl.getD 0 = 0) ∨
      (qtyStep ≤ d.positionQty ∧ ∃ avg, d.avgEntryPrice = some avg ∧
        d.unrealizedPnl = d.bestBid.map fun bid => d.positionQty * (bid - avg))) ∧
    (d.bestBid = d.bids.head?.map Prod.fst ∧ d.bestAsk = d.asks.head?.map Prod.fst ∧
      d.bids.length ≤ 10 ∧ d.asks.length ≤ 10) ∧
    (d.recentTrades.length ≤ 50 ∧ d.priceHistory.length ≤ 300 ∧ d.pnlHistory.length ≤ 300) := by
  intro d profit
  have hbooks : SteppedBooks initialCapitalUsdt push.reads.account := by
    obtain ⟨ls', hrun, -⟩ := Monitored.pipeline_of_run (push.reached 4)
    exact Pipeline.steppedBooks_of_run hflat hrun
  have hequity : d.equity - d.initialCapital = profit := hbooks.equity_sub_capital d.bestBid
  refine ⟨⟨hbooks.capital, hequity, ?_⟩, ?_, ?_, ?_⟩
  · intro hpos
    have hcapital : push.reads.account.initialCapital = initialCapitalUsdt := hbooks.capital
    show push.reads.account.returnOnCapitalPct d.bestBid = _
    unfold PaperAccount.returnOnCapitalPct
    rw [if_pos (by rw [hcapital]; exact hpos)]
    show (d.equity - d.initialCapital) / push.reads.account.initialCapital * 100 = _
    rw [hequity, hcapital]
  · have hunrealized : d.unrealizedPnl = d.bestBid.map push.reads.account.pnl.unrealizedPnl := rfl
    rcases avgEntryPrice_cases hbooks.lots with ⟨hempty, havg⟩ | ⟨hqty, havg⟩
    · left
      refine ⟨?_, havg, ?_⟩
      · show push.reads.account.pnl.positionQty = 0
        simp [FifoPnl.positionQty, hempty]
      · rw [hunrealized]
        cases d.bestBid with
        | none => rfl
        | some bid => simp [FifoPnl.unrealizedPnl, hempty]
    · right
      refine ⟨hqty, _, havg, ?_⟩
      have hne : push.reads.account.pnl.positionQty ≠ 0 := (qtyStep_pos.trans_le hqty).ne'
      rw [hunrealized]
      refine congrArg (fun f => d.bestBid.map f) (funext fun bid => ?_)
      show push.reads.account.pnl.unrealizedPnl bid = push.reads.account.pnl.positionQty * _
      rw [FifoPnl.unrealizedPnl_eq, mul_sub, mul_div_cancel₀ _ hne, mul_comm]
  · exact push.reads.best_prices_head _ startedAtMs
  · obtain ⟨ls₁, h₁, -⟩ := Monitored.pipeline_of_run (push.reached 1)
    obtain ⟨ls₂, h₂, -⟩ := Monitored.pipeline_of_run (push.reached 2)
    obtain ⟨vs, hcharted⟩ := Monitored.charted_of_run (push.reached 7)
    refine ⟨?_, ?_, ?_⟩
    · rw [show d.recentTrades = _ from Pipeline.recentTrades_of_run h₁, length_rtake]
      exact min_le_right _ _
    · rw [show d.priceHistory = _ from (Pipeline.shown_of_run h₂).prices, length_rtake]
      exact min_le_right _ _
    · rw [show d.pnlHistory = _ from hcharted.history, length_rtake]
      exact min_le_right _ _

/-- A push after the entry and the dip: the position is worth less than it cost, and the fee is
paid. -/
theorem push_after_dip :
    ∃ push : Push (Monitored.init (Pipeline.init "BTCUSDT" 20 PingPongStrategy.default
        (RiskChecker.new 1 0 1 5) 10000 (1 / 20) false)) Monitored.sampledDip,
      (push.dashboard 0).positionQty = 1 / 100 ∧ (push.dashboard 0).bestBid = some (998 / 10) ∧
        (push.dashboard 0).equity - (push.dashboard 0).initialCapital
          = -(2 / 1000) - 5 / 10000 := by
  set start := Monitored.init (Pipeline.init "BTCUSDT" 20 PingPongStrategy.default
    (RiskChecker.new 1 0 1 5) 10000 (1 / 20) false)
  have hsome : ((Monitored.machine.exec start Monitored.sampledDip).any fun m =>
      m.pipeline.path.account.pnl.positionQty = 1 / 100 ∧ m.mark = some (998 / 10) ∧
        m.pipeline.path.account.pnl.realizedPnl = 0 ∧
        m.pipeline.path.account.pnl.unrealizedPnl (998 / 10) = -(2 / 1000) ∧
        m.pipeline.path.account.totalFees = 5 / 10000) = true := by decide +kernel
  obtain ⟨m, hrun, hend⟩ := (Option.any_eq_true _ _).mp hsome
  obtain ⟨hqty, hmark, hrealized, hunrealized, hfees⟩ := of_decide_eq_true hend
  let push : Push start Monitored.sampledDip :=
    { steps := fun _ => Monitored.sampledDip.length
      ordered := monotone_const
      moments := fun _ => m
      reached := fun _ => by rw [List.take_length]; exact hrun }
  have hbid : (push.dashboard 0).bestBid = some (998 / 10) := hmark
  obtain ⟨⟨-, hequity, -⟩, -⟩ := Push.figures_add_up PingPongStrategy.default rfl "BTCUSDT" 20
    (RiskChecker.new 1 0 1 5) 10000 (1 / 20) false _ push 0
  have hgain : (push.dashboard 0).unrealizedPnl = some (-(2 / 1000)) := by
    show (push.dashboard 0).bestBid.map m.pipeline.path.account.pnl.unrealizedPnl = _
    rw [hbid, Option.map_some, hunrealized]
  refine ⟨push, hqty, hbid, ?_⟩
  rw [hequity, hgain, show (push.dashboard 0).realizedPnl = 0 from hrealized,
    show (push.dashboard 0).totalFees = 5 / 10000 from hfees]
  norm_num

end CryptoTrader
