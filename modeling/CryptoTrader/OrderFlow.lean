/-
# CryptoTrader.OrderFlow — every approved order is executed once, in order, and booked once.

The orders of a run of the pipeline, told apart by how far they have come: approved by the risk
checker, executed on the account, mirrored into the balance, recorded for the dashboard.  Between one
stage and the next an order is somewhere on its way: in the hands of the order book thread, in the
channel, in the hands of the executor.  None is lost, duplicated or overtaken on it
(`Machine.conserved`), whatever the interleaving, so everything the order path shows is a function of
these four lists: the account and the counters of the executed orders, the balance the risk checker
reads of the mirrored ones (`OrderBooks`), the trade log of the recorded ones.

The balance is therefore behind the approvals by the orders in flight and at most one more, and at
most 66 orders are in flight.  The trade log may be one order behind the balance, never before it.
-/
import CryptoTrader.DrainedLoop
import CryptoTrader.Reconciliation
import CryptoTrader.Lib.Outputs
import CryptoTrader.Lib.RecentWindow

namespace CryptoTrader

open Lib Lib.Deferred Lib.RecentWindow

/-- The order the executor has applied, whose cash is not mirrored yet. -/
def ExecTask.booking : ExecTask → List ValidatedOrder
  | .filled order => [order]
  | _ => []

/-- The order the executor has mirrored and not recorded yet. -/
def ExecTask.recording : ExecTask → List ValidatedOrder
  | .mirrored order => [order]
  | _ => []

/-- The side of an order. -/
def ValidatedOrder.isBuy (order : ValidatedOrder) : Bool := order.signal.isBuy

def ValidatedOrder.isSell (order : ValidatedOrder) : Bool :=
  match order.signal with
  | .sell _ _ => true
  | _ => false

namespace Pipeline

variable {σ : Type} [Strategy σ]

/-! ## §1 What a step of the thread does to the order path -/

/-- **An event**, whatever its kind: the strategy has seen the snapshot if there is one, the checker
has judged the decision if there is one, and an approved order waits to be sent.  Of the shared
state only the dashboard view may differ. -/
theorem event_spec {s : Pipeline σ} (hidle : s.path.sending = none) (event : MarketEvent)
    (nowMs : UInt64) (now : Nat) (uuid : String) :
    let decision := s.decision (.event event nowMs now uuid)
    (s.onEvent event nowMs now uuid).strat
      = strategyAfter s.strat (quote s.book s.resyncNeeded nowMs event) ∧
    ∃ view, (s.onEvent event nowMs now uuid).path = { s.path.withView view with
      risk := riskAfter s.path.risk decision
      sending := decision.bind Decision.order } := by
  have hquiet : ∀ view, s.path.withView view =
      { s.path.withView view with risk := s.path.risk, sending := none } := fun view =>
    congrArg (fun sending => { s.path.withView view with sending := sending }) hidle
  cases event with
  | depthUpdate update => exact onEvent_spec hidle ⟨update, nowMs, s.path.readings now uuid⟩
  | depthSnapshot snapshot => exact ⟨rfl, s.path.shared.view, hquiet _⟩
  | trade trade => exact ⟨rfl, s.path.shared.view, hquiet _⟩
  | reconnect => exact ⟨rfl, _, hquiet _⟩

/-- The other steps, as steps of the order path. -/
def pathLabel : Label → Option OrderPath.Label
  | .event .. => none
  | .send => some .send
  | .take => some .take
  | .fill => some .fill
  | .mirror => some .mirror
  | .record timestamp => some (.record timestamp)
  | .setHalt halted => some (.setHalt halted)
  | .setResync _ => none

/-- A step that is neither an event nor a flag of the book is a step of the order path, up to the
dashboard view. -/
theorem path_of_step {s s' : Pipeline σ} {l : Label} {m : OrderPath.Label}
    (h : s.step l = some s') (hl : pathLabel l = some m) :
    ∃ path view, s.path.step m = some path ∧ s'.path = path.withView view := by
  cases l with
  | event event nowMs now uuid => cases hl
  | send =>
      obtain rfl := Option.some.inj hl
      obtain ⟨path, hstep, rfl⟩ := Option.map_eq_some_iff.mp h
      cases s.toPublish with
      | none => exact ⟨path, path.shared.view, hstep, rfl⟩
      | some snapshot => exact ⟨path, _, hstep, rfl⟩
  | take | fill | mirror | record _ =>
      obtain rfl := Option.some.inj hl
      obtain ⟨path, hstep, rfl⟩ := Option.map_eq_some_iff.mp h
      exact ⟨path, path.shared.view, hstep, rfl⟩
  | setHalt halted =>
      obtain rfl := Option.some.inj hl
      obtain rfl := Option.some.inj h
      exact ⟨_, s.path.shared.view, rfl, rfl⟩
  | setResync resyncNeeded => cases hl

/-! ## §2 Approved, executed, recorded -/

/-- The order that a step approves. -/
def approvedOf (s : Pipeline σ) (l : Label) : List ValidatedOrder :=
  ((s.decision l).bind Decision.order).toList

/-- The order that a step executes. -/
def executedOf (s : Pipeline σ) : Label → List ValidatedOrder
  | .fill => s.path.task.held
  | _ => []

/-- The order whose cash a step mirrors. -/
def mirroredOf (s : Pipeline σ) : Label → List ValidatedOrder
  | .mirror => s.path.task.booking
  | _ => []

/-- The order that a step records, with the time of the record. -/
def recordedOf (s : Pipeline σ) : Label → List (ValidatedOrder × String)
  | .record timestamp => s.path.task.recording.map fun order => (order, timestamp)
  | _ => []

/-- **Conservation, one step**: an approved order joins the back of what is in flight, an executed
one leaves from the front. -/
theorem pending_step {s s' : Pipeline σ} {l : Label} (h : s.step l = some s') :
    s.path.pending ++ s.approvedOf l = s.executedOf l ++ s'.path.pending := by
  cases l with
  | event event nowMs now uuid =>
      obtain ⟨hidle, rfl⟩ := Option.ite_some_none_eq_some.mp h
      obtain ⟨-, view, hpath⟩ := event_spec hidle event nowMs now uuid
      rw [hpath]
      simp [OrderPath.pending, OrderPath.withView, hidle, approvedOf, executedOf]
  | setResync resyncNeeded =>
      obtain rfl := Option.some.inj h
      exact List.append_nil _
  | fill =>
      obtain ⟨path, view, hstep, hpath⟩ := path_of_step h rfl
      rw [hpath, OrderPath.withView_pending]
      simp only [OrderPath.step] at hstep
      split at hstep
      · next order htask =>
          obtain rfl := Option.some.inj hstep
          simp [OrderPath.pending, ExecTask.held, htask, approvedOf, executedOf, decision]
      · cases hstep
  | send | take | mirror | record _ | setHalt _ =>
      obtain ⟨path, view, hstep, hpath⟩ := path_of_step h rfl
      rw [hpath, OrderPath.withView_pending]
      rcases OrderPath.step_cases hstep with ⟨order, happ, -⟩ | ⟨hfill, -⟩ | ⟨-, -, -, hpend⟩
      · exact absurd happ (OrderPath.not_approves_of_ne_check (by simp) order)
      · cases hfill
      · rw [hpend]
        exact List.append_nil _

/-- **What a step does to the executor's task**: one of its four stages, or nothing. -/
theorem task_cases {s s' : Pipeline σ} {l : Label} (h : s.step l = some s') :
    (∃ order, l = .take ∧ s.path.task = .idle ∧ s'.path.task = .taken order) ∨
    (∃ order, l = .fill ∧ s.path.task = .taken order ∧ s'.path.task = .filled order) ∨
    (∃ order, l = .mirror ∧ s.path.task = .filled order ∧ s'.path.task = .mirrored order) ∨
    (∃ order timestamp, l = .record timestamp ∧ s.path.task = .mirrored order ∧
      s'.path.task = .idle) ∨
    ((s.executedOf l = [] ∧ s.mirroredOf l = [] ∧ s.recordedOf l = []) ∧
      s'.path.task = s.path.task) := by
  cases l with
  | event event nowMs now uuid =>
      obtain ⟨hidle, rfl⟩ := Option.ite_some_none_eq_some.mp h
      obtain ⟨-, view, hpath⟩ := event_spec hidle event nowMs now uuid
      rw [hpath]
      exact Or.inr (Or.inr (Or.inr (Or.inr ⟨⟨rfl, rfl, rfl⟩, rfl⟩)))
  | setHalt _ | setResync _ =>
      obtain rfl := Option.some.inj h
      exact Or.inr (Or.inr (Or.inr (Or.inr ⟨⟨rfl, rfl, rfl⟩, rfl⟩)))
  | send =>
      obtain ⟨path, view, hstep, hpath⟩ := path_of_step h rfl
      rw [hpath]
      simp only [OrderPath.step] at hstep
      split at hstep
      · obtain ⟨-, rfl⟩ := Option.ite_some_none_eq_some.mp hstep
        exact Or.inr (Or.inr (Or.inr (Or.inr ⟨⟨rfl, rfl, rfl⟩, rfl⟩)))
      · cases hstep
  | take =>
      obtain ⟨path, view, hstep, hpath⟩ := path_of_step h rfl
      rw [hpath]
      simp only [OrderPath.step] at hstep
      split at hstep
      · next order orders htask _ =>
          obtain rfl := Option.some.inj hstep
          exact Or.inl ⟨order, rfl, htask, rfl⟩
      · cases hstep
  | fill =>
      obtain ⟨path, view, hstep, hpath⟩ := path_of_step h rfl
      rw [hpath]
      simp only [OrderPath.step] at hstep
      split at hstep
      · next order htask =>
          obtain rfl := Option.some.inj hstep
          exact Or.inr (Or.inl ⟨order, rfl, htask, rfl⟩)
      · cases hstep
  | mirror =>
      obtain ⟨path, view, hstep, hpath⟩ := path_of_step h rfl
      rw [hpath]
      simp only [OrderPath.step] at hstep
      split at hstep
      · next order htask =>
          obtain rfl := Option.some.inj hstep
          exact Or.inr (Or.inr (Or.inl ⟨order, rfl, htask, rfl⟩))
      · cases hstep
  | record timestamp =>
      obtain ⟨path, view, hstep, hpath⟩ := path_of_step h rfl
      rw [hpath]
      simp only [OrderPath.step] at hstep
      split at hstep
      · next order htask =>
          obtain rfl := Option.some.inj hstep
          exact Or.inr (Or.inr (Or.inr (Or.inl ⟨order, timestamp, rfl, htask, rfl⟩)))
      · cases hstep

/-- Between execution and mirror there is at most one order, and it is mirrored first. -/
theorem booking_step {s s' : Pipeline σ} {l : Label} (h : s.step l = some s') :
    s.path.task.booking ++ s.executedOf l = s.mirroredOf l ++ s'.path.task.booking := by
  rcases task_cases h with ⟨order, rfl, htask, htask'⟩ | ⟨order, rfl, htask, htask'⟩ |
    ⟨order, rfl, htask, htask'⟩ | ⟨order, _, rfl, htask, htask'⟩ | ⟨⟨hexec, hmirror, -⟩, htask⟩
  · simp [htask, htask', ExecTask.booking, executedOf, mirroredOf]
  · simp [htask, htask', ExecTask.booking, ExecTask.held, executedOf, mirroredOf]
  · simp [htask, htask', ExecTask.booking, executedOf, mirroredOf]
  · simp [htask, htask', ExecTask.booking, executedOf, mirroredOf]
  · rw [hexec, hmirror, htask, List.append_nil, List.nil_append]

/-- So it is between mirror and record. -/
theorem recording_step {s s' : Pipeline σ} {l : Label} (h : s.step l = some s') :
    s.path.task.recording ++ s.mirroredOf l
      = (s.recordedOf l).map Prod.fst ++ s'.path.task.recording := by
  rcases task_cases h with ⟨order, rfl, htask, htask'⟩ | ⟨order, rfl, htask, htask'⟩ |
    ⟨order, rfl, htask, htask'⟩ | ⟨order, _, rfl, htask, htask'⟩ | ⟨⟨-, hmirror, hrecord⟩, htask⟩
  · simp [htask, htask', ExecTask.recording, mirroredOf, recordedOf]
  · simp [htask, htask', ExecTask.recording, mirroredOf, recordedOf]
  · simp [htask, htask', ExecTask.recording, ExecTask.booking, mirroredOf, recordedOf]
  · simp [htask, htask', ExecTask.recording, mirroredOf, recordedOf]
  · rw [hmirror, hrecord, htask, List.append_nil, List.map_nil, List.nil_append]

/-! ## §3 What each stage writes -/

/-- The executor's three writing steps. -/
theorem fill_spec {s s' : Pipeline σ} (h : s.step .fill = some s') :
    ∃ order, s.path.task = .taken order ∧ s' = { s with path := { s.path with
      executor := s.path.executor.execute order
      shared := s.path.shared.fill order
      task := .filled order } } := by
  obtain ⟨path, hstep, rfl⟩ := Option.map_eq_some_iff.mp h
  simp only [OrderPath.step] at hstep
  split at hstep
  · next order htask =>
      obtain rfl := Option.some.inj hstep
      exact ⟨order, htask, rfl⟩
  · cases hstep

theorem mirror_spec {s s' : Pipeline σ} (h : s.step .mirror = some s') :
    ∃ order, s.path.task = .filled order ∧ s' = { s with path := { s.path with
      shared := match order.signal with
        | .hold => s.path.shared
        | _ => s.path.shared.mirrorCash
      task := .mirrored order } } := by
  obtain ⟨path, hstep, rfl⟩ := Option.map_eq_some_iff.mp h
  simp only [OrderPath.step] at hstep
  split at hstep
  · next order htask =>
      obtain rfl := Option.some.inj hstep
      exact ⟨order, htask, rfl⟩
  · cases hstep

theorem record_spec {s s' : Pipeline σ} {timestamp : String}
    (h : s.step (.record timestamp) = some s') :
    ∃ order, s.path.task = .mirrored order ∧ s' = { s with path := { s.path with
      shared := match PaperTrade.ofOrder order timestamp with
        | some trade => s.path.shared.addTrade trade
        | none => s.path.shared
      task := .idle } } := by
  obtain ⟨path, hstep, rfl⟩ := Option.map_eq_some_iff.mp h
  simp only [OrderPath.step] at hstep
  split at hstep
  · next order htask =>
      obtain rfl := Option.some.inj hstep
      exact ⟨order, htask, rfl⟩
  · cases hstep

/-- The executor's labels that write. -/
def Label.Writes : Label → Prop
  | .fill | .mirror | .record _ => True
  | _ => False

/-- Every other step leaves the books alone: of the shared state only the dashboard view and the
kill-switch flag can change. -/
theorem books_frame {s s' : Pipeline σ} {l : Label} (h : s.step l = some s') (hl : ¬ l.Writes) :
    s'.path.executor = s.path.executor ∧ s'.path.task.booking = s.path.task.booking ∧
      ∃ view halted, s'.path.shared
        = { s.path.shared with view := view, haltFlag := halted } := by
  cases l with
  | event event nowMs now uuid =>
      obtain ⟨hidle, rfl⟩ := Option.ite_some_none_eq_some.mp h
      obtain ⟨-, view, hpath⟩ := event_spec hidle event nowMs now uuid
      rw [hpath]
      exact ⟨rfl, rfl, view, _, rfl⟩
  | setResync resyncNeeded =>
      obtain rfl := Option.some.inj h
      exact ⟨rfl, rfl, _, _, rfl⟩
  | setHalt halted =>
      obtain rfl := Option.some.inj h
      exact ⟨rfl, rfl, _, halted, rfl⟩
  | send =>
      obtain ⟨path, view, hstep, hpath⟩ := path_of_step h rfl
      rw [hpath]
      simp only [OrderPath.step] at hstep
      split at hstep
      · obtain ⟨-, rfl⟩ := Option.ite_some_none_eq_some.mp hstep
        exact ⟨rfl, rfl, view, _, rfl⟩
      · cases hstep
  | take =>
      obtain ⟨path, view, hstep, hpath⟩ := path_of_step h rfl
      rw [hpath]
      simp only [OrderPath.step] at hstep
      split at hstep
      · next order orders htask _ =>
          obtain rfl := Option.some.inj hstep
          exact ⟨rfl, by rw [htask]; rfl, view, _, rfl⟩
      · cases hstep
  | fill => exact absurd trivial hl
  | mirror => exact absurd trivial hl
  | record timestamp => exact absurd trivial hl

/-! ## §4 The books as functions of the history -/

/-- **The books after these orders.**  The balance the risk checker reads is that of the account
before the order that is being booked. -/
structure OrderBooks (acct₀ : PaperAccount) (executor₀ : PaperExecutor)
    (executed : List ValidatedOrder) (s : Pipeline σ) : Prop where
  account : s.path.account = settle PaperAccount.applyOrder acct₀ executed
  executor : s.path.executor = executed.foldl PaperExecutor.execute executor₀
  buyCount : s.path.shared.buyCount = UInt64.ofNat (executed.countP ValidatedOrder.isBuy)
  sellCount : s.path.shared.sellCount = UInt64.ofNat (executed.countP ValidatedOrder.isSell)
  cash : ∃ booked, executed = booked ++ s.path.task.booking ∧
    s.path.shared.cashBits = (settle PaperAccount.applyOrder acct₀ booked).cash

theorem OrderBooks.step {acct₀ : PaperAccount} {executor₀ : PaperExecutor}
    {executed : List ValidatedOrder} {s s' : Pipeline σ} {l : Label}
    (h : OrderBooks acct₀ executor₀ executed s) (hstep : s.step l = some s') :
    OrderBooks acct₀ executor₀ (executed ++ s.executedOf l) s' := by
  by_cases hwrites : l.Writes
  · cases l with
    | fill =>
        obtain ⟨order, htask, rfl⟩ := fill_spec hstep
        have hheld : s.executedOf .fill = [order] := by simp [executedOf, htask, ExecTask.held]
        obtain ⟨booked, hbooked, hcash⟩ := h.cash
        rw [htask, show (ExecTask.taken order).booking = [] from rfl, List.append_nil] at hbooked
        rw [hheld]
        refine ⟨?_, ?_, ?_, ?_, executed, rfl, hbooked ▸ hcash⟩
        · rw [settle_concat, ← h.account]
          rfl
        · rw [List.foldl_append, ← h.executor]
          rfl
        · rw [List.countP_append, UInt64.ofNat_add, ← h.buyCount]
          cases hsignal : order.signal <;>
            simp [SharedState.fill, ValidatedOrder.isBuy, Signal.isBuy, hsignal]
        · rw [List.countP_append, UInt64.ofNat_add, ← h.sellCount]
          cases hsignal : order.signal <;>
            simp [SharedState.fill, ValidatedOrder.isSell, hsignal]
    | mirror =>
        obtain ⟨order, htask, rfl⟩ := mirror_spec hstep
        obtain ⟨booked, hbooked, hcash⟩ := h.cash
        rw [htask] at hbooked
        have hnone : s.executedOf .mirror = [] := rfl
        rw [hnone, List.append_nil]
        have hacct : s.path.account.cash = (settle PaperAccount.applyOrder acct₀ executed).cash :=
          congrArg PaperAccount.cash h.account
        cases hsignal : order.signal with
        | buy price qty | sell price qty =>
            exact ⟨h.account, h.executor, h.buyCount, h.sellCount, executed,
              (List.append_nil _).symm, hacct⟩
        | hold =>
            -- a Hold is not mirrored, and it has not moved the account either
            refine ⟨h.account, h.executor, h.buyCount, h.sellCount, executed,
              (List.append_nil _).symm, ?_⟩
            rw [hbooked, show (ExecTask.filled order).booking = [order] from rfl, settle_concat]
            simp only [PaperAccount.applyOrder, hsignal]
            exact hcash
    | record timestamp =>
        obtain ⟨order, htask, rfl⟩ := record_spec hstep
        obtain ⟨booked, hbooked, hcash⟩ := h.cash
        rw [htask] at hbooked
        have hnone : s.executedOf (.record timestamp) = [] := rfl
        rw [hnone, List.append_nil]
        cases PaperTrade.ofOrder order timestamp with
        | some trade | none =>
            exact ⟨h.account, h.executor, h.buyCount, h.sellCount, booked, hbooked, hcash⟩
    | _ => exact hwrites.elim
  · obtain ⟨hexecutor, hbooking, view, halted, hshared⟩ := books_frame hstep hwrites
    have hnone : s.executedOf l = [] := by
      cases l with
      | fill => exact absurd trivial hwrites
      | _ => rfl
    rw [hnone, List.append_nil]
    obtain ⟨haccount, hexec, hbuy, hsell, booked, hbooked, hcash⟩ := h
    refine ⟨?_, hexecutor.trans hexec, ?_, ?_, booked, hbooking ▸ hbooked, ?_⟩
    · rw [OrderPath.account, hshared]
      exact haccount
    · rw [hshared]
      exact hbuy
    · rw [hshared]
      exact hsell
    · rw [hshared]
      exact hcash

/-- A push into a bounded log, as the window of the last entries. -/
theorem pushBounded_rtake {α : Type} {cap : Nat} (hcap : 0 < cap) (log : List α) (x : α) :
    pushBounded cap (log.rtake cap) x = (log ++ [x]).rtake cap :=
  (rtake_concat log x hcap).symm

/-- The trade log holds the newest records. -/
theorem recentTrades_step {s s' : Pipeline σ} {l : Label} {recorded : List (ValidatedOrder × String)}
    (h : s.path.shared.recentTrades = (Reconciliation.pushed recorded).rtake 50)
    (hstep : s.step l = some s') :
    s'.path.shared.recentTrades
      = (Reconciliation.pushed (recorded ++ s.recordedOf l)).rtake 50 := by
  by_cases hwrites : l.Writes
  · cases l with
    | fill =>
        obtain ⟨order, -, rfl⟩ := fill_spec hstep
        have hnone : s.recordedOf .fill = [] := rfl
        rw [hnone, List.append_nil]
        exact h
    | mirror =>
        obtain ⟨order, -, rfl⟩ := mirror_spec hstep
        have hnone : s.recordedOf .mirror = [] := rfl
        rw [hnone, List.append_nil]
        cases hsignal : order.signal <;> exact h
    | record timestamp =>
        obtain ⟨order, htask, rfl⟩ := record_spec hstep
        have hone : s.recordedOf (.record timestamp) = [(order, timestamp)] := by
          simp [recordedOf, htask, ExecTask.recording]
        have hpushed : Reconciliation.pushed (recorded ++ [(order, timestamp)])
            = Reconciliation.pushed recorded ++ (PaperTrade.ofOrder order timestamp).toList := by
          unfold Reconciliation.pushed
          rw [List.filterMap_append]
          cases htrade : PaperTrade.ofOrder order timestamp <;> simp [htrade]
        rw [hone, hpushed]
        cases PaperTrade.ofOrder order timestamp with
        | none => simpa using h
        | some trade =>
            show pushBounded 50 s.path.shared.recentTrades trade = _
            rw [h]
            exact pushBounded_rtake (by norm_num) _ trade
    | _ => exact hwrites.elim
  · obtain ⟨-, -, view, halted, hshared⟩ := books_frame hstep hwrites
    have hnone : s.recordedOf l = [] := by
      cases l with
      | record timestamp => exact absurd trivial hwrites
      | _ => rfl
    rw [hnone, List.append_nil, hshared]
    exact h

/-! ## §5 The order path over a whole run -/

/-- The channel never holds more than its capacity. -/
theorem orders_length_step {s s' : Pipeline σ} {l : Label}
    (h : s.path.orders.length ≤ orderChannelCap) (hstep : s.step l = some s') :
    s'.path.orders.length ≤ orderChannelCap := by
  cases l with
  | event event nowMs now uuid =>
      obtain ⟨hidle, rfl⟩ := Option.ite_some_none_eq_some.mp hstep
      obtain ⟨-, view, hpath⟩ := event_spec hidle event nowMs now uuid
      rw [hpath]
      exact h
  | setResync resyncNeeded =>
      obtain rfl := Option.some.inj hstep
      exact h
  | setHalt halted =>
      obtain rfl := Option.some.inj hstep
      exact h
  | send =>
      obtain ⟨path, view, hpath, heq⟩ := path_of_step hstep rfl
      rw [heq]
      simp only [OrderPath.step] at hpath
      split at hpath
      · obtain ⟨hroom, rfl⟩ := Option.ite_some_none_eq_some.mp hpath
        simpa [OrderPath.withView] using hroom
      · cases hpath
  | take =>
      obtain ⟨path, view, hpath, heq⟩ := path_of_step hstep rfl
      rw [heq]
      simp only [OrderPath.step] at hpath
      split at hpath
      · next order orders _ horders =>
          obtain rfl := Option.some.inj hpath
          rw [horders] at h
          exact Nat.le_of_succ_le h
      · cases hpath
  | fill =>
      obtain ⟨order, -, rfl⟩ := fill_spec hstep
      exact h
  | mirror =>
      obtain ⟨order, -, rfl⟩ := mirror_spec hstep
      exact h
  | record timestamp =>
      obtain ⟨order, -, rfl⟩ := record_spec hstep
      exact h

/-- In flight are the orders of the channel, one before it and one behind it. -/
theorem pending_length {path : OrderPath} (h : path.orders.length ≤ orderChannelCap) :
    path.pending.length ≤ orderChannelCap + 2 := by
  have hheld : path.task.held.length ≤ 1 := by
    cases path.task <;> simp [ExecTask.held]
  have hsending : path.sending.toList.length ≤ 1 := by
    cases path.sending <;> simp
  rw [OrderPath.pending, List.length_append, List.length_append]
  omega

/-- The executor's own counters, after these orders. -/
theorem foldl_execute (orders : List ValidatedOrder) (executor : PaperExecutor) :
    let out := orders.foldl PaperExecutor.execute executor
    out.buyCount = executor.buyCount + UInt64.ofNat (orders.countP ValidatedOrder.isBuy) ∧
    out.sellCount = executor.sellCount + UInt64.ofNat (orders.countP ValidatedOrder.isSell) ∧
    out.buyVolume
      = executor.buyVolume + Reconciliation.bought (orders.map ValidatedOrder.signal) ∧
    out.sellVolume
      = executor.sellVolume + Reconciliation.recordedSold (orders.map ValidatedOrder.signal) := by
  induction orders generalizing executor with
  | nil => exact ⟨(UInt64.add_zero _).symm, (UInt64.add_zero _).symm, (add_zero _).symm,
      (add_zero _).symm⟩
  | cons order orders ih =>
      obtain ⟨hbuy, hsell, hbuyVolume, hsellVolume⟩ := ih (executor.execute order)
      have hbought : Reconciliation.bought ((order :: orders).map ValidatedOrder.signal)
          = Reconciliation.buyQty order.signal
            + Reconciliation.bought (orders.map ValidatedOrder.signal) := rfl
      have hsold : Reconciliation.recordedSold ((order :: orders).map ValidatedOrder.signal)
          = Reconciliation.sellQty order.signal
            + Reconciliation.recordedSold (orders.map ValidatedOrder.signal) := rfl
      dsimp only
      rw [List.foldl_cons, hbuy, hsell, hbuyVolume, hsellVolume, hbought, hsold, List.countP_cons,
        List.countP_cons, UInt64.ofNat_add, UInt64.ofNat_add]
      cases hsignal : order.signal with
      | hold =>
          simp [PaperExecutor.execute, ValidatedOrder.isBuy, ValidatedOrder.isSell, Signal.isBuy,
            Reconciliation.buyQty, Reconciliation.sellQty, hsignal]
      | buy price qty =>
          simp [PaperExecutor.execute, ValidatedOrder.isBuy, ValidatedOrder.isSell, Signal.isBuy,
            Reconciliation.buyQty, Reconciliation.sellQty, hsignal, add_assoc,
            add_comm (1 : UInt64)]
      | sell price qty =>
          simp [PaperExecutor.execute, ValidatedOrder.isBuy, ValidatedOrder.isSell, Signal.isBuy,
            Reconciliation.buyQty, Reconciliation.sellQty, hsignal, add_assoc,
            add_comm (1 : UInt64)]

section

variable {symbol : String} {depthLevels : Nat} {strat : σ} {risk : RiskChecker}
  {initialCapitalUsdt feePct : ℚ} {haltFlag : Bool} {ls : List Label} {s : Pipeline σ}

/-- What a run has approved is what it has executed, and what is in flight. -/
theorem approved_eq_of_run
    (hrun : machine.exec (init symbol depthLevels strat risk initialCapitalUsdt feePct haltFlag) ls
      = some s) :
    machine.outputs approvedOf
        (init symbol depthLevels strat risk initialCapitalUsdt feePct haltFlag) ls
      = machine.outputs executedOf
          (init symbol depthLevels strat risk initialCapitalUsdt feePct haltFlag) ls
        ++ s.path.pending :=
  machine.conserved (fun _ _ _ hstep => pending_step hstep) hrun

/-- What a run has executed is what it has mirrored, and the order that is being booked. -/
theorem executed_eq_of_run
    (hrun : machine.exec (init symbol depthLevels strat risk initialCapitalUsdt feePct haltFlag) ls
      = some s) :
    machine.outputs executedOf
        (init symbol depthLevels strat risk initialCapitalUsdt feePct haltFlag) ls
      = machine.outputs mirroredOf
          (init symbol depthLevels strat risk initialCapitalUsdt feePct haltFlag) ls
        ++ s.path.task.booking :=
  machine.conserved (fun _ _ _ hstep => booking_step hstep) hrun

/-- What a run has mirrored is what it has recorded, and the order that is being recorded. -/
theorem mirrored_eq_of_run
    (hrun : machine.exec (init symbol depthLevels strat risk initialCapitalUsdt feePct haltFlag) ls
      = some s) :
    machine.outputs mirroredOf
        (init symbol depthLevels strat risk initialCapitalUsdt feePct haltFlag) ls
      = (machine.outputs recordedOf
          (init symbol depthLevels strat risk initialCapitalUsdt feePct haltFlag) ls).map Prod.fst
        ++ s.path.task.recording := by
  have hconserved := machine.conserved (fun _ _ _ hstep => recording_step hstep) hrun
  rw [machine.outputs_map] at hconserved
  exact hconserved

/-- What a run has recorded it has executed before. -/
theorem recorded_prefix_of_run
    (hrun : machine.exec (init symbol depthLevels strat risk initialCapitalUsdt feePct haltFlag) ls
      = some s) :
    (machine.outputs recordedOf
        (init symbol depthLevels strat risk initialCapitalUsdt feePct haltFlag) ls).map Prod.fst
      <+: machine.outputs executedOf
          (init symbol depthLevels strat risk initialCapitalUsdt feePct haltFlag) ls := by
  rw [executed_eq_of_run hrun, mirrored_eq_of_run hrun, List.append_assoc]
  exact List.prefix_append _ _

/-- The trade log of a run is the newest of what it has recorded. -/
theorem recentTrades_of_run
    (hrun : machine.exec (init symbol depthLevels strat risk initialCapitalUsdt feePct haltFlag) ls
      = some s) :
    s.path.shared.recentTrades = (Reconciliation.pushed (machine.outputs recordedOf
      (init symbol depthLevels strat risk initialCapitalUsdt feePct haltFlag) ls)).rtake 50 :=
  machine.exec_history_of_step
    (I := fun s recorded => s.path.shared.recentTrades
      = (Reconciliation.pushed recorded).rtake 50)
    (fun _ _ _ _ h hstep => recentTrades_step h hstep) rfl hrun

/-- The books of a run are those of what it has executed. -/
theorem orderBooks_of_run
    (hrun : machine.exec (init symbol depthLevels strat risk initialCapitalUsdt feePct haltFlag) ls
      = some s) :
    OrderBooks (PaperAccount.new initialCapitalUsdt feePct) (PaperExecutor.new symbol)
      (machine.outputs executedOf
        (init symbol depthLevels strat risk initialCapitalUsdt feePct haltFlag) ls) s :=
  machine.exec_history_of_step
    (I := fun s executed => OrderBooks (PaperAccount.new initialCapitalUsdt feePct)
      (PaperExecutor.new symbol) executed s)
    (fun _ _ _ _ h hstep => OrderBooks.step h hstep) ⟨rfl, rfl, rfl, rfl, [], rfl, rfl⟩ hrun

end

/-- **Exactly once, in order, and booked.**  In every run from startup, under every interleaving of
the order book thread, the executor and the kill switch: what has been executed is what was
approved, in that order, but for the at most 66 orders in flight; what has been mirrored is what was
executed, and what has been recorded is what was mirrored, but for one order between the two stages,
if any.  The account and both sets of counters are those of the executed orders, the balance the risk
checker reads is that of the mirrored ones, and the trade log is the last 50 records. -/
theorem orders_executed_once_in_order (symbol : String) (depthLevels : Nat) (strat : σ)
    (risk : RiskChecker) (initialCapitalUsdt feePct : ℚ) (haltFlag : Bool) (ls : List Label)
    (s : Pipeline σ)
    (hrun : machine.exec (init symbol depthLevels strat risk initialCapitalUsdt feePct haltFlag) ls
      = some s) :
    let s₀ := init symbol depthLevels strat risk initialCapitalUsdt feePct haltFlag
    let approved := machine.outputs approvedOf s₀ ls
    let executed := machine.outputs executedOf s₀ ls
    let mirrored := machine.outputs mirroredOf s₀ ls
    let recorded := machine.outputs recordedOf s₀ ls
    let acct := settle PaperAccount.applyOrder (PaperAccount.new initialCapitalUsdt feePct)
    (approved = executed ++ s.path.pending ∧ s.path.pending.length ≤ 66 ∧
      executed = mirrored ++ s.path.task.booking ∧
      mirrored = recorded.map Prod.fst ++ s.path.task.recording ∧
      s.path.task.booking.length + s.path.task.recording.length ≤ 1) ∧
    (s.path.account = acct executed ∧ s.path.settled = acct approved ∧
      s.path.shared.cashBits = (acct mirrored).cash ∧
      s.path.shared.recentTrades = (Reconciliation.pushed recorded).rtake 50) ∧
    (s.path.shared.buyCount = UInt64.ofNat (executed.countP ValidatedOrder.isBuy) ∧
      s.path.shared.sellCount = UInt64.ofNat (executed.countP ValidatedOrder.isSell) ∧
      s.path.executor.buyCount = s.path.shared.buyCount ∧
      s.path.executor.sellCount = s.path.shared.sellCount ∧
      s.path.executor.buyVolume
        = Reconciliation.bought (executed.map ValidatedOrder.signal) ∧
      s.path.executor.sellVolume
        = Reconciliation.recordedSold (executed.map ValidatedOrder.signal)) := by
  intro s₀ approved executed mirrored recorded acct
  have hflow : approved = executed ++ s.path.pending := approved_eq_of_run hrun
  have hbooking : executed = mirrored ++ s.path.task.booking := executed_eq_of_run hrun
  have hrecording : mirrored = recorded.map Prod.fst ++ s.path.task.recording :=
    mirrored_eq_of_run hrun
  have hone : s.path.task.booking.length + s.path.task.recording.length ≤ 1 := by
    cases s.path.task <;> simp [ExecTask.booking, ExecTask.recording]
  have hbooks : OrderBooks (PaperAccount.new initialCapitalUsdt feePct) (PaperExecutor.new symbol)
      executed s := orderBooks_of_run hrun
  have htrades : s.path.shared.recentTrades = (Reconciliation.pushed recorded).rtake 50 :=
    recentTrades_of_run hrun
  have hcap : s.path.orders.length ≤ orderChannelCap :=
    machine.exec_invariant_of_step
      (I := fun s : Pipeline σ => s.path.orders.length ≤ orderChannelCap)
      (fun _ _ _ h hstep => orders_length_step h hstep) (Nat.zero_le _) hrun
  obtain ⟨hacct, hexecutor, hbuy, hsell, booked, hbooked, hcash⟩ := hbooks
  have hmirrored : booked = mirrored := List.append_cancel_right (hbooked.symm.trans hbooking)
  obtain ⟨hbuyCount, hsellCount, hbuyVolume, hsellVolume⟩ :=
    foldl_execute executed (PaperExecutor.new symbol)
  refine ⟨⟨hflow, pending_length hcap, hbooking, hrecording, hone⟩,
    ⟨hacct, ?_, hmirrored ▸ hcash, htrades⟩, hbuy, hsell, ?_, ?_, ?_, ?_⟩
  · rw [OrderPath.settled, hacct, hflow]
    exact (settle_append _ _ _ _).symm
  · rw [hexecutor, hbuyCount, hbuy]
    exact UInt64.zero_add _
  · rw [hexecutor, hsellCount, hsell]
    exact UInt64.zero_add _
  · rw [hexecutor, hbuyVolume]
    exact zero_add _
  · rw [hexecutor, hsellVolume]
    exact zero_add _

/-- An entry that is approved, executed and booked. -/
def bookedEntry : List Label :=
  quoteEvents "100" "100.01" ++ [.send, .take, .fill, .mirror, .record "t"]

theorem entry_booked_once :
    ∃ s, machine.exec (init "BTCUSDT" 20 PingPongStrategy.default (RiskChecker.new 1 0 1 5)
        10000 (1 / 20) false) bookedEntry = some s ∧
      s.path.pending = [] ∧ s.path.shared.recentTrades = [⟨"t", "BUY", 100, 1 / 100, "a"⟩] ∧
      s.path.shared.cashBits = s.path.account.cash := by
  have hsome : ((machine.exec (init "BTCUSDT" 20 PingPongStrategy.default
      (RiskChecker.new 1 0 1 5) 10000 (1 / 20) false) bookedEntry).any fun s =>
        s.path.pending = [] ∧ s.path.task.booking = [] ∧
          s.path.shared.recentTrades = [⟨"t", "BUY", 100, 1 / 100, "a"⟩]) = true := by
    decide +kernel
  obtain ⟨s, hrun, hend⟩ := (Option.any_eq_true _ _).mp hsome
  obtain ⟨hpending, hbooking, htrades⟩ := of_decide_eq_true hend
  obtain ⟨⟨-, -, hexecuted, -⟩, ⟨hacct, -, hcash, -⟩, -⟩ :=
    orders_executed_once_in_order _ _ _ _ _ _ _ _ s hrun
  rw [hbooking, List.append_nil] at hexecuted
  refine ⟨s, hrun, hpending, htrades, ?_⟩
  rw [hcash, hacct, hexecuted]

end Pipeline

end CryptoTrader
