/-
# CryptoTrader.KillSwitch — the flag, the HALT file and their writers.

The emergency stop is one flag that `check` reads, and four kinds of actors around it: the poller
of `main.rs`, which reads whether the HALT file exists and then stores the answer into the flag;
`halt_handler`, which writes the file (an error is discarded), stores `true` and returns;
`resume_handler`, which removes the file and stores `false`; and whoever touches or removes the
file by hand.  Every read and every write is a step of its own, any number of handler calls may
be in flight, and the steps interleave freely.

A halt that has returned is undone by a later store of `false`.  Two of its sources lie in the
past, a poller that read before the file was there and a resume call still on its way, and one in
the future, a poller that finds no file because the write has failed.  `Secured` excludes these
three; it is exactly what makes a confirmed halt stay in force.
-/
import CryptoTrader.Risk
import CryptoTrader.Lib.Machine

namespace CryptoTrader

open Lib

/-- A `halt_handler` call: before its write, before its store, before its return. -/
inductive HaltCall where
  | started
  | written
  | stored
  deriving DecidableEq

/-- A `resume_handler` call: before its removal of the file, before its store. -/
inductive ResumeCall where
  | started
  | removed
  deriving DecidableEq

structure KillSwitch where
  risk : RiskChecker
  haltFlag : Bool
  /-- the HALT file exists -/
  haltFile : Bool
  /-- what the poller has read and not stored yet -/
  poller : Option Bool
  halts : List HaltCall
  resumes : List ResumeCall
  deriving DecidableEq

namespace KillSwitch

/-- At startup the flag is what the file says. -/
def init (risk : RiskChecker) (haltFile : Bool) : KillSwitch where
  risk := risk.withHaltFlag
  haltFlag := haltFile
  haltFile := haltFile
  poller := none
  halts := []
  resumes := []

inductive Label where
  | pollRead
  | pollStore
  | haltStart
  | haltWrite (i : Nat) (ok : Bool)
  | haltStore (i : Nat)
  | haltReturn (i : Nat)
  | resumeStart
  | resumeRemove (i : Nat) (ok : Bool)
  | resumeStore (i : Nat)
  | touchFile
  | removeFile
  | check (signal : Signal) (midPrice : ℚ) (cash : ℚ) (now : Nat) (uuid : String)
  deriving DecidableEq

/-- What a check made now reads. -/
def readings (s : KillSwitch) (cash : ℚ) (now : Nat) (uuid : String) : Readings where
  haltFlag := s.haltFlag
  cash := cash
  now := now
  uuid := uuid

def step (s : KillSwitch) : Label → Option KillSwitch
  | .pollRead => if s.poller = none then some { s with poller := some s.haltFile } else none
  -- stores what it read, however old that is by now
  | .pollStore =>
      match s.poller with
      | some present => some { s with haltFlag := present, poller := none }
      | none => none
  | .haltStart => some { s with halts := s.halts ++ [.started] }
  -- a write error is discarded, and the handler goes on
  | .haltWrite i ok =>
      if s.halts[i]? = some .started then
        some { s with haltFile := s.haltFile || ok, halts := s.halts.set i .written }
      else none
  | .haltStore i =>
      if s.halts[i]? = some .written then
        some { s with haltFlag := true, halts := s.halts.set i .stored }
      else none
  | .haltReturn i =>
      if s.halts[i]? = some .stored then some { s with halts := s.halts.eraseIdx i } else none
  | .resumeStart => some { s with resumes := s.resumes ++ [.started] }
  | .resumeRemove i ok =>
      if s.resumes[i]? = some .started then
        some { s with haltFile := s.haltFile && !ok, resumes := s.resumes.set i .removed }
      else none
  | .resumeStore i =>
      if s.resumes[i]? = some .removed then
        some { s with haltFlag := false, resumes := s.resumes.eraseIdx i }
      else none
  | .touchFile => some { s with haltFile := true }
  | .removeFile => some { s with haltFile := false }
  -- the call sites never check a Hold
  | .check signal midPrice cash now uuid =>
      if signal = .hold then none
      else some { s with risk := (s.risk.check signal midPrice (s.readings cash now uuid)).2 }

def machine : Machine KillSwitch Label := ⟨step⟩

/-! ## §1 When orders are blocked -/

/-- Every check of a Buy or a Sell answers `Err(KillSwitch)`. -/
def Blocked (s : KillSwitch) : Prop :=
  ∀ signal midPrice cash now uuid, signal ≠ .hold →
    (s.risk.check signal midPrice (s.readings cash now uuid)).1 = .err .killSwitch

/-- The checker has the flag wired up and its own switch off, as in `main.rs`. -/
def Wired (s : KillSwitch) : Prop := s.risk.hasHaltFlag = true ∧ s.risk.halted = false

theorem blocked_iff {s : KillSwitch} (h : s.Wired) : s.Blocked ↔ s.haltFlag = true := by
  have hkilled : ∀ cash now uuid, s.risk.killed (s.readings cash now uuid) = s.haltFlag := by
    intro cash now uuid
    simp [RiskChecker.killed, readings, h.1, h.2]
  constructor
  · intro hblocked
    have hone := hblocked (.buy 0 0) 0 0 0 "" (by simp)
    rw [RiskChecker.check_eq_killSwitch_iff, hkilled] at hone
    exact hone
  · intro hflag signal midPrice cash now uuid _
    rw [RiskChecker.check_eq_killSwitch_iff, hkilled]
    exact hflag

/-- Wiring is never undone. -/
theorem Wired.step {s s' : KillSwitch} {l : Label} (h : s.Wired) (hstep : s.step l = some s') :
    s'.Wired := by
  cases l with
  | check signal midPrice cash now uuid =>
      -- the only step that touches the checker keeps its settings
      obtain ⟨-, hs⟩ := Option.ite_none_left_eq_some.mp hstep
      obtain rfl := Option.some.inj hs
      obtain ⟨ids, queue, timestamps, hrisk⟩ :=
        s.risk.check_sameSettings signal midPrice (s.readings cash now uuid)
      simp only [Wired, hrisk]
      exact h
  | pollStore =>
      simp only [KillSwitch.step] at hstep
      split at hstep
      · obtain rfl := Option.some.inj hstep
        exact h
      · cases hstep
  | haltStart | resumeStart | touchFile | removeFile =>
      obtain rfl := Option.some.inj hstep
      exact h
  | pollRead | haltWrite _ _ | haltStore _ | haltReturn _ | resumeRemove _ _ | resumeStore _ =>
      obtain ⟨-, rfl⟩ := Option.ite_some_none_eq_some.mp hstep
      exact h

/-! ## §2 When a halt stays in force -/

/-- Until a resume starts or the file is removed by hand. -/
def Label.Window (l : Label) : Prop := l ≠ .resumeStart ∧ l ≠ .removeFile

/-- The flag is set, the file is there, the poller has not read its absence and no resume call
is on its way. -/
structure Secured (s : KillSwitch) : Prop where
  flag : s.haltFlag = true
  file : s.haltFile = true
  poller : s.poller ≠ some false
  resumes : s.resumes = []

/-- **One step.**  Inside the window nothing undoes a secured halt. -/
theorem Secured.step {s s' : KillSwitch} {l : Label} (h : s.Secured) (hl : l.Window)
    (hstep : s.step l = some s') : s'.Secured := by
  obtain ⟨hflag, hfile, hpoller, hresumes⟩ := h
  cases l with
  | pollRead =>
      -- it reads that the file is there
      obtain ⟨-, rfl⟩ := Option.ite_some_none_eq_some.mp hstep
      exact ⟨hflag, hfile, by simp [hfile], hresumes⟩
  | pollStore =>
      simp only [KillSwitch.step] at hstep
      split at hstep
      · next present hread =>
          obtain rfl := Option.some.inj hstep
          -- what it read is not `false`
          have hpresent : present = true := by
            cases present with
            | true => rfl
            | false => exact absurd hread hpoller
          exact ⟨hpresent, hfile, by simp, hresumes⟩
      · cases hstep
  | haltWrite i ok =>
      -- a failed write leaves the file that is there
      obtain ⟨-, rfl⟩ := Option.ite_some_none_eq_some.mp hstep
      exact ⟨hflag, by simp [hfile], hpoller, hresumes⟩
  | haltStore i =>
      obtain ⟨-, rfl⟩ := Option.ite_some_none_eq_some.mp hstep
      exact ⟨rfl, hfile, hpoller, hresumes⟩
  | haltReturn i =>
      obtain ⟨-, rfl⟩ := Option.ite_some_none_eq_some.mp hstep
      exact ⟨hflag, hfile, hpoller, hresumes⟩
  | haltStart =>
      obtain rfl := Option.some.inj hstep
      exact ⟨hflag, hfile, hpoller, hresumes⟩
  | resumeStart => exact absurd rfl hl.1
  | resumeRemove i ok => simp [KillSwitch.step, hresumes] at hstep
  | resumeStore i => simp [KillSwitch.step, hresumes] at hstep
  | touchFile =>
      obtain rfl := Option.some.inj hstep
      exact ⟨hflag, rfl, hpoller, hresumes⟩
  | removeFile => exact absurd rfl hl.2
  | check signal midPrice cash now uuid =>
      obtain ⟨-, hs⟩ := Option.ite_none_left_eq_some.mp hstep
      obtain rfl := Option.some.inj hs
      exact ⟨hflag, hfile, hpoller, hresumes⟩

/-- A poller with a read of `false` in its hands clears the flag with its next step. -/
theorem exists_clear_of_poller {s : KillSwitch} (h : s.poller = some false) :
    ∃ ms t, (∀ m ∈ ms, Label.Window m) ∧ machine.exec s ms = some t ∧ t.haltFlag = false := by
  refine ⟨[.pollStore], { s with haltFlag := false, poller := none }, ?_, ?_, rfl⟩
  · simp [Label.Window]
  · rw [Machine.exec_singleton]
    simp only [machine, step, h]

/-- **What is not secured comes undone** inside the window. -/
theorem exists_clear_of_not_secured {s : KillSwitch} (h : ¬ s.Secured) :
    ∃ ms t, (∀ m ∈ ms, Label.Window m) ∧ machine.exec s ms = some t ∧ t.haltFlag = false := by
  by_cases hflag : s.haltFlag = true
  swap
  · exact ⟨[], s, by simp, rfl, by simpa using hflag⟩
  by_cases hpoller : s.poller = some false
  · exact exists_clear_of_poller hpoller
  cases hresumes : s.resumes with
  | cons call calls =>
      cases call with
      | removed =>
          refine ⟨[.resumeStore 0], { s with haltFlag := false, resumes := calls }, ?_, ?_, rfl⟩
          · simp [Label.Window]
          · simp [machine, Machine.exec, step, hresumes]
      | started =>
          refine ⟨[.resumeRemove 0 false, .resumeStore 0],
            { s with haltFlag := false, resumes := calls }, ?_, ?_, rfl⟩
          · simp [Label.Window]
          · simp [machine, Machine.exec, step, hresumes]
  | nil =>
      -- the file is missing, and the poller will find out
      have hfile : s.haltFile = false := by
        by_contra hfile
        exact h ⟨hflag, by simpa using hfile, hpoller, hresumes⟩
      cases hread : s.poller with
      | none =>
          refine ⟨[.pollRead, .pollStore], { s with haltFlag := false, poller := none }, ?_, ?_,
            rfl⟩
          · simp [Label.Window]
          · simp [machine, Machine.exec, step, hread, hfile]
      | some present =>
          refine ⟨[.pollStore, .pollRead, .pollStore],
            { s with haltFlag := false, poller := none }, ?_, ?_, rfl⟩
          · simp [Label.Window]
          · simp [machine, Machine.exec, step, hread, hfile]

/-- **A confirmed halt, exactly.**  Take any run from startup and any `halt_handler` call that
returns at its end.  Every check of a Buy or a Sell answers `Err(KillSwitch)` in all that can
follow, until a resume starts or the file is removed by hand, if and only if at the return the
halt is secured. -/
theorem halt_in_force_iff_secured (maxOrderQty minFreeBalanceUsdt priceBandPct : ℚ)
    (maxOrdersPerSec : UInt32) (haltFile : Bool) (ls : List Label) (i : Nat) (s s' : KillSwitch)
    (hrun : machine.exec (init (RiskChecker.new maxOrderQty minFreeBalanceUsdt priceBandPct
      maxOrdersPerSec) haltFile) ls = some s)
    (hreturn : s.step (.haltReturn i) = some s') :
    (∀ ms t, (∀ m ∈ ms, Label.Window m) → machine.exec s' ms = some t → t.Blocked) ↔
      s'.Secured := by
  have hwired : s'.Wired :=
    (machine.exec_invariant_of_step (I := Wired) (fun _ _ _ hs h => Wired.step hs h)
      ⟨rfl, rfl⟩ hrun).step hreturn
  have hwired_run : ∀ {ms t}, machine.exec s' ms = some t → t.Wired :=
    machine.exec_invariant_of_step (I := Wired) (fun _ _ _ hs h => Wired.step hs h) hwired
  constructor
  · intro hforce
    by_contra hsecured
    obtain ⟨ms, t, hms, hexec, hcleared⟩ := exists_clear_of_not_secured hsecured
    have hflag := (blocked_iff (hwired_run hexec)).mp (hforce ms t hms hexec)
    rw [hcleared] at hflag
    exact Bool.false_ne_true hflag
  · intro hsecured ms t hms hexec
    have hend : t.Secured :=
      machine.exec_invariant (C := fun _ m => Label.Window m)
        (fun _ _ _ hs hm hstep => Secured.step hs hm hstep) hsecured
        (machine.guarded_of_forall (fun _ m hm => hms m hm) s') hexec
    exact (blocked_iff (hwired_run hexec)).mpr hend.flag

/-- A halt whose write succeeds while nothing else is under way stays in force. -/
theorem undisturbed_halt_in_force :
    ∃ s s', machine.exec (init (RiskChecker.new 1 0 1 5) false)
        [.haltStart, .haltWrite 0 true, .haltStore 0] = some s ∧
      s.step (.haltReturn 0) = some s' ∧
      ∀ ms t, (∀ m ∈ ms, Label.Window m) → machine.exec s' ms = some t → t.Blocked := by
  let halted : KillSwitch :=
    { init (RiskChecker.new 1 0 1 5) true with halts := [.stored] }
  have hrun : machine.exec (init (RiskChecker.new 1 0 1 5) false)
      [.haltStart, .haltWrite 0 true, .haltStore 0] = some halted := by decide +kernel
  have hreturn : halted.step (.haltReturn 0) = some { halted with halts := [] } := by
    decide +kernel
  refine ⟨halted, _, hrun, hreturn, ?_⟩
  exact (halt_in_force_iff_secured 1 0 1 5 false _ 0 _ _ hrun hreturn).mpr
    ⟨rfl, rfl, by simp [halted, init], rfl⟩

/-- The poller reads before the file is written and stores after the halt has returned; the next
check approves an order. -/
theorem stale_poll_lifts_halt :
    ¬ ∀ (ls : List Label) (i : Nat) (s s' : KillSwitch),
      machine.exec (init (RiskChecker.new 1 0 1 5) false) ls = some s →
      s.step (.haltReturn i) = some s' →
      ∀ ms t, (∀ m ∈ ms, Label.Window m) → machine.exec s' ms = some t → t.Blocked := by
  intro h
  let halted : KillSwitch :=
    { init (RiskChecker.new 1 0 1 5) true with poller := some false, halts := [.stored] }
  have hrun : machine.exec (init (RiskChecker.new 1 0 1 5) false)
      [.pollRead, .haltStart, .haltWrite 0 true, .haltStore 0] = some halted := by decide +kernel
  have hreturn : halted.step (.haltReturn 0) = some { halted with halts := [] } := by
    decide +kernel
  have hlater : machine.exec { halted with halts := [] } [.pollStore]
      = some { init (RiskChecker.new 1 0 1 5) true with haltFlag := false } := by decide +kernel
  have hblocked := h _ 0 _ _ hrun hreturn [.pollStore] _ (by simp [Label.Window]) hlater
  have happroved := hblocked (.buy 100 1) 100 1000 0 "a" (by simp)
  exact absurd happroved (by decide +kernel)

end KillSwitch

end CryptoTrader
