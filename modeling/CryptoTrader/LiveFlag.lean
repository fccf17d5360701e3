/-
# CryptoTrader.LiveFlag — the dashboard's sync flag against the book.

The order book thread keeps a shared flag `is_live`, which the dashboard shows as "Live" or
"Buffering".  It is written after a depth update and on a reconnect, and two of these writes are not
the state of the book.  A snapshot brings the book live and does not touch the flag, which stays as
it was.  A stale update is skipped by a live book, but `handle_update` answers it with the `false`
of a buffered update or a gap, and the thread then stores `false`.

So the flag never says "Live" of a buffering book, and it can say "Buffering" of a live one.
`flagStep` says what each step does to the two, and `KeepsMirror` when they agree after it.
-/
import CryptoTrader.Pipeline

namespace CryptoTrader

open Lib

/-- `sync_state` of `to_dashboard_state`. -/
def MarketView.syncState (view : MarketView) : String := if view.isLive then "Live" else "Buffering"

/-- A live book skips the update: it does not continue the book, and ends at or before its id. -/
def Orderbook.Skips (book : Orderbook) (update : DepthUpdate) : Prop :=
  ∃ n, book.state = .live n ∧ update.prevLastUpdateId ≠ n ∧ update.lastUpdateId ≤ n

instance (book : Orderbook) (update : DepthUpdate) : Decidable (book.Skips update) :=
  match h : book.state with
  | .buffering _ => .isFalse fun ⟨_, hlive, _⟩ => by cases h.symm.trans hlive
  | .live n =>
      decidable_of_iff (update.prevLastUpdateId ≠ n ∧ update.lastUpdateId ≤ n)
        ⟨fun hstale => ⟨n, h, hstale⟩, fun ⟨_, hlive, hstale⟩ => by
          obtain rfl := SyncState.live.inj (h.symm.trans hlive)
          exact hstale⟩

namespace Pipeline

variable {σ : Type} [Strategy σ]

def isLiveFlag (s : Pipeline σ) : Bool := s.path.shared.view.isLive

/-- The flag is what the book says. -/
def Mirrored (s : Pipeline σ) : Prop := s.isLiveFlag = s.book.isLive

instance (s : Pipeline σ) : Decidable s.Mirrored :=
  inferInstanceAs (Decidable (s.isLiveFlag = s.book.isLive))

/-! ## §1 What a step does to the flag and the book -/

/-- The steps that touch neither: a trade, and everything but the events. -/
def Untouching : Label → Prop
  | .event (.trade _) _ _ _ => True
  | .event _ _ _ _ => False
  | _ => True

/-- The flag and the book after a step. -/
inductive FlagStep (s s' : Pipeline σ) : Label → Prop where
  | written {update : DepthUpdate} {nowMs : UInt64} {now : Nat} {uuid : String} :
      ¬ s.book.Skips update → s'.isLiveFlag = s'.book.isLive →
      FlagStep s s' (.event (.depthUpdate update) nowMs now uuid)
  | skipped {update : DepthUpdate} {nowMs : UInt64} {now : Nat} {uuid : String} :
      s.book.Skips update → s'.isLiveFlag = false → s'.book.isLive = true →
      FlagStep s s' (.event (.depthUpdate update) nowMs now uuid)
  | snapshot {snapshot : DepthSnapshot} {nowMs : UInt64} {now : Nat} {uuid : String} :
      s'.isLiveFlag = s.isLiveFlag → s'.book.isLive = true →
      FlagStep s s' (.event (.depthSnapshot snapshot) nowMs now uuid)
  | reconnect {nowMs : UInt64} {now : Nat} {uuid : String} :
      s'.isLiveFlag = false → s'.book.isLive = false →
      FlagStep s s' (.event .reconnect nowMs now uuid)
  | untouched {l : Label} : Untouching l → s'.isLiveFlag = s.isLiveFlag → s'.book = s.book →
      FlagStep s s' l

/-- A decision touches neither. -/
theorem onQuote_flag (s : Pipeline σ) (snapshot : OrderbookSnapshot) (now : Nat) (uuid : String) :
    (s.onQuote snapshot now uuid).isLiveFlag = s.isLiveFlag ∧
      (s.onQuote snapshot now uuid).book = s.book := by
  have hview : (s.path.shared.view.onQuote snapshot).isLive = s.path.shared.view.isLive := by
    unfold MarketView.onQuote
    cases snapshot.bids.head? <;> rfl
  by_cases hhold : (Strategy.onOrderbook s.strat snapshot).1 = .hold
  · rw [onQuote_of_hold hhold]
    exact ⟨hview, rfl⟩
  · have hcheck : ((s.path.withView (s.path.shared.view.onQuote snapshot)).onCheck
        (Strategy.onOrderbook s.strat snapshot).1 (referencePrice snapshot) now
        uuid).shared.view.isLive = s.path.shared.view.isLive := by
      rw [OrderPath.onCheck_shared]
      exact hview
    rw [onQuote_of_order hhold]
    dsimp only
    split
    · exact ⟨hcheck, rfl⟩
    · exact ⟨hcheck, rfl⟩

/-- **What an event does**, by its kind. -/
theorem flagStep_event (s : Pipeline σ) (event : MarketEvent) (nowMs : UInt64) (now : Nat)
    (uuid : String) :
    FlagStep s (s.onEvent event nowMs now uuid) (.event event nowMs now uuid) := by
  cases event with
  | depthUpdate update =>
      cases hstate : s.book.state with
      | buffering buf =>
          have hupdate := Orderbook.handleUpdate_buffering hstate update s.resyncNeeded
          have hskips : ¬ s.book.Skips update := by
            rintro ⟨n, hlive, _⟩
            rw [hstate] at hlive
            cases hlive
          refine .written hskips ?_
          simp only [onEvent, hupdate]
          rfl
      | live n =>
          have hupdate := Orderbook.handleUpdate_live hstate update s.resyncNeeded
          have hskips : s.book.Skips update ↔ Orderbook.sequencing n update = .stale := by
            rw [Orderbook.sequencing_eq_stale_iff, Orderbook.Skips, hstate]
            simp
          cases hseq : Orderbook.sequencing n update with
          | stale =>
              have hlive : s.book.isLive = true := by
                unfold Orderbook.isLive
                rw [hstate]
              rw [hseq] at hupdate
              refine .skipped (hskips.mpr hseq) ?_ ?_
              · simp only [onEvent, hupdate]
                rfl
              · simp only [onEvent, hupdate]
                exact hlive
          | gap =>
              rw [hseq] at hupdate hskips
              refine .written (fun h => by cases hskips.mp h) ?_
              simp only [onEvent, hupdate]
              rfl
          | apply =>
              rw [hseq] at hupdate hskips
              refine .written (fun h => by cases hskips.mp h) ?_
              have hlive : (s.book.liveAt (applyLevels s.book.sides update)
                  update.lastUpdateId).isLive = true := rfl
              simp only [onEvent, hupdate, hlive, if_true]
              rw [(onQuote_flag _ _ now uuid).1, (onQuote_flag _ _ now uuid).2]
              rfl
  | depthSnapshot snapshot => exact .snapshot rfl (s.book.handleSnapshot_isLive snapshot)
  | trade trade => exact .untouched trivial rfl rfl
  | reconnect => exact .reconnect rfl rfl

/-- **What a step does.** -/
theorem flagStep {s s' : Pipeline σ} {l : Label} (h : s.step l = some s') : FlagStep s s' l := by
  cases l with
  | event event nowMs now uuid =>
      obtain ⟨_, rfl⟩ := Option.ite_some_none_eq_some.mp h
      exact s.flagStep_event event nowMs now uuid
  | send =>
      obtain ⟨path, hstep, rfl⟩ := Option.map_eq_some_iff.mp h
      have hflag : path.shared.view.isLive = s.isLiveFlag :=
        congrArg MarketView.isLive (OrderPath.step_view hstep (by simp))
      cases s.toPublish with
      | none => exact .untouched trivial hflag rfl
      | some snapshot => exact .untouched trivial hflag rfl
  | take | fill | mirror | record _ =>
      obtain ⟨path, hstep, rfl⟩ := Option.map_eq_some_iff.mp h
      have hflag : path.shared.view.isLive = s.isLiveFlag :=
        congrArg MarketView.isLive (OrderPath.step_view hstep (by simp))
      exact .untouched trivial hflag rfl
  | setHalt _ | setResync _ =>
      obtain rfl := Option.some.inj h
      exact .untouched trivial rfl rfl

/-! ## §2 When they agree -/

/-- The condition on a step: an update that a live book does not skip, a snapshot while the flag is
set, a reconnect, or anything that touches neither while they agree. -/
def KeepsMirror (s : Pipeline σ) : Label → Prop
  | .event (.depthUpdate update) _ _ _ => ¬ s.book.Skips update
  | .event (.depthSnapshot _) _ _ _ => s.isLiveFlag = true
  | .event .reconnect _ _ _ => True
  | _ => s.Mirrored

instance (s : Pipeline σ) : (l : Label) → Decidable (s.KeepsMirror l)
  | .event (.depthUpdate update) _ _ _ => inferInstanceAs (Decidable (¬ s.book.Skips update))
  | .event (.depthSnapshot _) _ _ _ => inferInstanceAs (Decidable (s.isLiveFlag = true))
  | .event .reconnect _ _ _ => .isTrue trivial
  | .event (.trade _) _ _ _ | .send | .take | .fill | .mirror | .record _ | .setHalt _ | .setResync _ =>
      inferInstanceAs (Decidable s.Mirrored)

/-- **One step**: the flag and the book agree after it exactly when it meets the condition. -/
theorem mirrored_step {s s' : Pipeline σ} {l : Label} (h : s.step l = some s') :
    s'.Mirrored ↔ s.KeepsMirror l := by
  unfold Mirrored
  cases flagStep h with
  | written hskips hflag => exact iff_of_true hflag hskips
  | skipped hskips hflag hbook =>
      rw [hflag, hbook]
      exact iff_of_false Bool.false_ne_true (not_not_intro hskips)
  | snapshot hflag hbook =>
      rw [hflag, hbook]
      exact Iff.rfl
  | reconnect hflag hbook =>
      rw [hflag, hbook]
      exact iff_of_true rfl trivial
  | untouched hl hflag hbook =>
      rw [hflag, hbook]
      cases l with
      | event event nowMs now uuid =>
          cases event with
          | trade trade => exact Iff.rfl
          | depthUpdate update => exact hl.elim
          | depthSnapshot snapshot => exact hl.elim
          | reconnect => exact hl.elim
      | _ => exact Iff.rfl

/-- The flag never says more than the book. -/
def NeverAhead (s : Pipeline σ) : Prop := s.isLiveFlag = true → s.book.isLive = true

theorem NeverAhead.step {s s' : Pipeline σ} {l : Label} (hahead : s.NeverAhead)
    (h : s.step l = some s') : s'.NeverAhead := by
  intro hset
  cases flagStep h with
  | written _ hflag => rwa [← hflag]
  | skipped _ _ hbook => exact hbook
  | snapshot _ hbook => exact hbook
  | reconnect hflag _ => exact absurd (hflag.symm.trans hset) Bool.false_ne_true
  | untouched _ hflag hbook =>
      rw [hbook]
      exact hahead (hflag.symm.trans hset)

/-- **When the sync flag mirrors the book.**  In every state that the program reaches, whatever the
other threads do in between: the dashboard shows "Live" only when the book is live; a step leaves
the flag and the book in agreement exactly when it meets the condition; and so a run from a state in
which they agree, the initial one for instance, keeps them so throughout exactly when every step of
it meets the condition. -/
theorem live_flag_mirrors_iff (symbol : String) (depthLevels : Nat) (strat : σ)
    (risk : RiskChecker) (initialCapitalUsdt feePct : ℚ) (haltFlag : Bool) :
    let start := init symbol depthLevels strat risk initialCapitalUsdt feePct haltFlag
    start.Mirrored ∧
    ∀ (ls : List Label) (s : Pipeline σ), machine.exec start ls = some s →
      (s.path.shared.view.syncState = "Live" → s.book.isLive = true) ∧
      (∀ l s', s.step l = some s' → (s'.Mirrored ↔ s.KeepsMirror l)) ∧
      (∀ ms t, s.Mirrored → machine.exec s ms = some t →
        (machine.Throughout Mirrored s ms ↔ machine.Guarded KeepsMirror s ms)) := by
  intro start
  refine ⟨rfl, ?_⟩
  intro ls s hrun
  have hstart : start.NeverAhead := fun h => absurd h Bool.false_ne_true
  have hahead : s.NeverAhead :=
    machine.exec_invariant_of_step (fun _ _ _ h hstep => h.step hstep) hstart hrun
  refine ⟨?_, fun l s' hstep => mirrored_step hstep, ?_⟩
  · intro hshown
    apply hahead
    unfold MarketView.syncState at hshown
    unfold isLiveFlag
    cases hflag : s.path.shared.view.isLive with
    | true => rfl
    | false =>
        rw [hflag] at hshown
        exact absurd hshown (by decide)
  · intro ms t hmirrored hexec
    exact machine.throughout_iff_guarded (fun _ _ _ hstep => mirrored_step hstep) hmirrored hexec

/-! The thread with a strategy that never trades, and a market of one quote. -/

def quietStart : Pipeline NoOpStrategy :=
  init "BTCUSDT" 20 .mk (RiskChecker.new 1 0 1 5) 1000 0 false

/-- The update of the market once more. -/
def redelivered : Label :=
  .event (.depthUpdate ⟨"depthUpdate", 0, "BTCUSDT", 11, 11, 10, [], []⟩) 1 1 "a"

/-- The next update, and a reconnect. -/
def nextAndReconnect : List Label :=
  [.event (.depthUpdate ⟨"depthUpdate", 2, "BTCUSDT", 12, 12, 11, [], []⟩) 2 2 "a",
    .event .reconnect 3 3 "a"]

/-- Once the first update is applied, the next one and a reconnect keep the flag right. -/
theorem applied_updates_mirror :
    ∃ s, machine.exec quietStart (quoteEvents "100" "101") = some s ∧
      machine.Throughout Mirrored s nextAndReconnect := by
  have hsome : ((machine.exec quietStart (quoteEvents "100" "101")).any fun s =>
      s.Mirrored ∧ (machine.exec s nextAndReconnect).isSome ∧
        machine.Guarded KeepsMirror s nextAndReconnect) = true := by decide +kernel
  obtain ⟨s, hrun, hend⟩ := (Option.any_eq_true _ _).mp hsome
  obtain ⟨hmirrored, hexec, hguard⟩ := of_decide_eq_true hend
  obtain ⟨t, ht⟩ := Option.isSome_iff_exists.mp hexec
  have hiff := ((live_flag_mirrors_iff "BTCUSDT" 20 NoOpStrategy.mk (RiskChecker.new 1 0 1 5) 1000 0
    false).2 _ s hrun).2.2 nextAndReconnect t hmirrored ht
  exact ⟨s, hrun, hiff.mpr hguard⟩

/-- **The flag does not mirror the book** after the first snapshot, and after a stale update: the
book is live and the dashboard shows "Buffering". -/
theorem live_flag_lags :
    (∃ s, machine.exec quietStart ((quoteEvents "100" "101").take 1) = some s ∧
      s.book.isLive = true ∧ s.path.shared.view.syncState = "Buffering" ∧ ¬ s.Mirrored) ∧
    ∃ s, machine.exec quietStart (quoteEvents "100" "101" ++ [redelivered]) = some s ∧
      s.book.isLive = true ∧ s.path.shared.view.syncState = "Buffering" ∧ ¬ s.Mirrored := by
  have hlags : ∀ ls : List Label, ((machine.exec quietStart ls).any fun s =>
      s.book.isLive = true ∧ s.path.shared.view.syncState = "Buffering" ∧ ¬ s.Mirrored) = true →
      ∃ s, machine.exec quietStart ls = some s ∧ s.book.isLive = true ∧
        s.path.shared.view.syncState = "Buffering" ∧ ¬ s.Mirrored := by
    intro ls hsome
    obtain ⟨s, hrun, hend⟩ := (Option.any_eq_true _ _).mp hsome
    exact ⟨s, hrun, of_decide_eq_true hend⟩
  exact ⟨hlags _ (by decide +kernel), hlags _ (by decide +kernel)⟩

end Pipeline

end CryptoTrader
