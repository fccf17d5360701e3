/-
# CryptoTrader.OrderPath — from the risk check to the account, as two threads and a channel.

The risk thread checks a signal against the shared flag and the mirrored cash, and sends what it
approves into a FIFO channel of 64 orders, waiting while the channel is full.  The executor task
takes the oldest order, applies it to the account, mirrors the new cash and records the trade.
Every moment at which one of them can be overtaken by the other is a step of its own; the
kill-switch flag and the dashboard view may be written at any time.  A check reads the flag and the
cash in one step: a write of one of them between the two reads has the same effect just before or
just after it.

`settled` is the account once everything in flight has been executed, and `step_cases` says that
only an approval changes it.  Safety properties of the account therefore only have to be checked
where an order is approved, against the settled account (`along_step`), and whatever is wrong
with the settled account does reach the real one (`exists_drain`).
-/
import CryptoTrader.Execution
import CryptoTrader.Risk
import CryptoTrader.Lib.Deferred
import CryptoTrader.Lib.Machine

namespace CryptoTrader

open Lib Lib.Deferred

/-- Capacity of the order channel. -/
def orderChannelCap : Nat := 64

/-- What the executor task is doing. -/
inductive ExecTask where
  | idle
  | taken (order : ValidatedOrder)
  | filled (order : ValidatedOrder)
  | mirrored (order : ValidatedOrder)
  deriving DecidableEq

/-- The order the executor holds and has not applied yet. -/
def ExecTask.held : ExecTask → List ValidatedOrder
  | .taken order => [order]
  | _ => []

structure OrderPath where
  risk : RiskChecker
  shared : SharedState
  /-- the order the risk thread is sending -/
  sending : Option ValidatedOrder
  orders : List ValidatedOrder
  executor : PaperExecutor
  task : ExecTask
  deriving DecidableEq

namespace OrderPath

def init (risk : RiskChecker) (symbol : String) (initialCapitalUsdt feePct : ℚ)
    (haltFlag : Bool) : OrderPath where
  risk := risk.withHaltFlag.withBalanceSource
  shared := SharedState.new symbol initialCapitalUsdt feePct haltFlag
  sending := none
  orders := []
  executor := PaperExecutor.new symbol
  task := .idle

/-! ## §1 The step relation -/

inductive Label where
  | check (signal : Signal) (midPrice : ℚ) (now : Nat) (uuid : String)
  | send
  | take
  | fill
  | mirror
  | record (timestamp : String)
  | setHalt (halted : Bool)
  | publish (view : MarketView)

/-- What a check made now reads. -/
def readings (path : OrderPath) (now : Nat) (uuid : String) : Readings where
  haltFlag := path.shared.haltFlag
  cash := path.shared.cashBits
  now := now
  uuid := uuid

/-- The risk check of the order book thread; an approved order is what it sends next. -/
def onCheck (path : OrderPath) (signal : Signal) (midPrice : ℚ) (now : Nat) (uuid : String) :
    OrderPath :=
  let (result, risk) := path.risk.check signal midPrice (path.readings now uuid)
  match result with
  | .ok order => { path with risk := risk, sending := some order }
  | _ => { path with risk := risk }

def step (path : OrderPath) : Label → Option OrderPath
  | .check signal midPrice now uuid =>
      if path.sending = none ∧ signal ≠ .hold then some (path.onCheck signal midPrice now uuid)
      else none
  -- `send` waits while the channel is full
  | .send =>
      match path.sending with
      | some order =>
          if path.orders.length < orderChannelCap then
            some { path with sending := none, orders := path.orders ++ [order] }
          else none
      | none => none
  | .take =>
      match path.task, path.orders with
      | .idle, order :: orders => some { path with task := .taken order, orders := orders }
      | _, _ => none
  | .fill =>
      match path.task with
      | .taken order =>
          some { path with
            executor := path.executor.execute order
            shared := path.shared.fill order
            task := .filled order }
      | _ => none
  -- still under the lock of the account
  | .mirror =>
      match path.task with
      | .filled order =>
          some { path with
            shared := match order.signal with
              | .hold => path.shared
              | _ => path.shared.mirrorCash
            task := .mirrored order }
      | _ => none
  -- after the lock has been released
  | .record timestamp =>
      match path.task with
      | .mirrored order =>
          some { path with
            shared := match PaperTrade.ofOrder order timestamp with
              | some trade => path.shared.addTrade trade
              | none => path.shared
            task := .idle }
      | _ => none
  | .setHalt halted => some { path with shared := { path.shared with haltFlag := halted } }
  | .publish view => some { path with shared := { path.shared with view := view } }

def machine : Machine OrderPath Label := ⟨step⟩

/-- A check leaves the shared state alone. -/
theorem onCheck_shared (path : OrderPath) (signal : Signal) (midPrice : ℚ) (now : Nat)
    (uuid : String) : (path.onCheck signal midPrice now uuid).shared = path.shared := by
  unfold onCheck
  dsimp only
  split <;> rfl

/-- The dashboard view changes when it is published, and not before. -/
theorem step_view {path path' : OrderPath} {l : Label} (h : path.step l = some path')
    (hl : ∀ view, l ≠ .publish view) : path'.shared.view = path.shared.view := by
  cases l with
  | check signal midPrice now uuid =>
      obtain ⟨_, rfl⟩ := Option.ite_some_none_eq_some.mp h
      rw [onCheck_shared]
  | send =>
      simp only [step] at h
      split at h
      · obtain ⟨_, rfl⟩ := Option.ite_some_none_eq_some.mp h
        rfl
      · cases h
  | take =>
      simp only [step] at h
      split at h
      · obtain rfl := Option.some.inj h
        rfl
      · cases h
  | fill =>
      simp only [step] at h
      split at h
      · obtain rfl := Option.some.inj h
        rfl
      · cases h
  | mirror =>
      simp only [step] at h
      split at h
      · next order _ =>
          obtain rfl := Option.some.inj h
          cases order.signal <;> rfl
      · cases h
  | record timestamp =>
      simp only [step] at h
      split at h
      · next order _ =>
          obtain rfl := Option.some.inj h
          cases hofOrder : PaperTrade.ofOrder order timestamp with
          | some trade => rfl
          | none => rfl
      · cases h
  | setHalt halted =>
      obtain rfl := Option.some.inj h
      rfl
  | publish view => exact absurd rfl (hl view)

/-- The account of a state. -/
def account (path : OrderPath) : PaperAccount := path.shared.account

/-! ## §2 Orders in flight -/

/-- The approved orders not executed yet, oldest first. -/
def pending (path : OrderPath) : List ValidatedOrder :=
  path.task.held ++ path.orders ++ path.sending.toList

/-- The account once everything in flight has been executed. -/
def settled (path : OrderPath) : PaperAccount :=
  settle PaperAccount.applyOrder path.account path.pending

/-- With nothing in flight the account is settled. -/
theorem settled_of_pending_nil {path : OrderPath} (h : path.pending = []) :
    path.settled = path.account := by rw [settled, h, settle_nil]

/-- At this state the step on this label is a check that approves this order. -/
def Approves (path : OrderPath) (l : Label) (order : ValidatedOrder) : Prop :=
  ∃ signal midPrice now uuid, l = .check signal midPrice now uuid ∧
    path.risk.Admits signal midPrice (path.readings now uuid) ∧ order = ⟨signal, uuid⟩

/-- A step approves at most one order. -/
theorem Approves.unique {path : OrderPath} {l : Label} {order order' : ValidatedOrder}
    (h : path.Approves l order) (h' : path.Approves l order') : order = order' := by
  obtain ⟨_, _, _, _, rfl, -, rfl⟩ := h
  obtain ⟨_, _, _, _, hl, -, rfl⟩ := h'
  cases hl
  rfl

/-- Only a check approves. -/
theorem not_approves_of_ne_check {path : OrderPath} {l : Label}
    (hl : ∀ signal midPrice now uuid, l ≠ .check signal midPrice now uuid)
    (order : ValidatedOrder) : ¬ path.Approves l order := by
  rintro ⟨signal, midPrice, now, uuid, hcheck, -⟩
  exact hl signal midPrice now uuid hcheck

theorem onCheck_of_admits {path : OrderPath} {signal : Signal} {midPrice : ℚ} {now : Nat}
    {uuid : String} (h : path.risk.Admits signal midPrice (path.readings now uuid)) :
    path.onCheck signal midPrice now uuid =
      { path with
        risk := path.risk.approved (path.readings now uuid), sending := some ⟨signal, uuid⟩ } := by
  simp only [onCheck, RiskChecker.check_of_admits h]
  rfl

theorem onCheck_of_not_admits {path : OrderPath} {signal : Signal} {midPrice : ℚ} {now : Nat}
    {uuid : String} (h : ¬ path.risk.Admits signal midPrice (path.readings now uuid)) :
    path.onCheck signal midPrice now uuid =
      { path with risk := (path.risk.check signal midPrice (path.readings now uuid)).2 } := by
  have hne := RiskChecker.check_ne_ok h
  unfold onCheck
  generalize path.risk.check signal midPrice (path.readings now uuid) = outcome at hne
  obtain ⟨result, risk⟩ := outcome
  cases result with
  | ok order => exact absurd rfl (hne order)
  | err error => rfl
  | panicked => rfl

/-- **What a step does to the account and to the orders in flight.**  It approves an order, which
joins the back; or it executes the order at the front; or it moves neither. -/
theorem step_cases {path path' : OrderPath} {l : Label} (h : path.step l = some path') :
    (∃ order, path.Approves l order ∧ path'.account = path.account ∧
      path'.pending = path.pending ++ [order]) ∨
    (l = .fill ∧ ∃ order rest, path.pending = order :: rest ∧
      path'.account = path.account.applyOrder order ∧ path'.pending = rest) ∨
    ((∀ order, ¬ path.Approves l order) ∧ l ≠ .fill ∧ path'.account = path.account ∧
      path'.pending = path.pending) := by
  cases l with
  | check signal midPrice now uuid =>
      obtain ⟨⟨hidle, -⟩, rfl⟩ := Option.ite_some_none_eq_some.mp h
      by_cases hadm : path.risk.Admits signal midPrice (path.readings now uuid)
      · left
        rw [onCheck_of_admits hadm]
        refine ⟨_, ⟨_, _, _, _, rfl, hadm, rfl⟩, rfl, ?_⟩
        simp [pending, hidle]
      · right; right
        rw [onCheck_of_not_admits hadm]
        refine ⟨?_, by simp, rfl, rfl⟩
        rintro order ⟨_, _, _, _, hl, hadm', -⟩
        cases hl
        exact hadm hadm'
  | send =>
      -- from the sending hand to the back of the channel
      right; right
      simp only [step] at h
      split at h
      · next order hsend =>
          obtain ⟨-, rfl⟩ := Option.ite_some_none_eq_some.mp h
          exact ⟨not_approves_of_ne_check (by simp), by simp, rfl, by simp [pending, hsend]⟩
      · cases h
  | take =>
      -- from the front of the channel to the executor's hand
      right; right
      simp only [step] at h
      split at h
      · next order orders htask horders =>
          obtain rfl := Option.some.inj h
          exact ⟨not_approves_of_ne_check (by simp), by simp, rfl,
            by simp [pending, ExecTask.held, htask, horders]⟩
      · cases h
  | fill =>
      simp only [step] at h
      split at h
      · next order htask =>
          obtain rfl := Option.some.inj h
          right; left
          refine ⟨rfl, order, path.orders ++ path.sending.toList, ?_, rfl, ?_⟩
          · simp [pending, ExecTask.held, htask]
          · simp [pending, ExecTask.held]
      · cases h
  | mirror | record _ =>
      -- the account has taken the order already
      right; right
      simp only [step] at h
      split at h
      · next order htask =>
          obtain rfl := Option.some.inj h
          refine ⟨not_approves_of_ne_check (by simp), by simp, ?_, ?_⟩
          · simp only [account]
            split <;> rfl
          · simp [pending, ExecTask.held, htask]
      · cases h
  | setHalt _ | publish _ =>
      obtain rfl := Option.some.inj h
      exact Or.inr (Or.inr ⟨not_approves_of_ne_check (by simp), by simp, rfl, rfl⟩)

/-- Only an approval changes the settled account. -/
theorem settled_step {path path' : OrderPath} {l : Label} (h : path.step l = some path') :
    (∃ order, path.Approves l order ∧ path'.settled = path.settled.applyOrder order) ∨
      ((∀ order, ¬ path.Approves l order) ∧ path'.settled = path.settled) := by
  rcases step_cases h with ⟨order, happ, hacct, hpend⟩ | ⟨rfl, order, rest, hpend, hacct, hrest⟩ |
    ⟨hno, -, hacct, hpend⟩
  · left
    refine ⟨order, happ, ?_⟩
    rw [settled, hacct, hpend, settle_concat, settled]
  · right
    refine ⟨not_approves_of_ne_check (by simp), ?_⟩
    rw [settled, settled, hacct, hrest, hpend, settle_cons]
  · right
    refine ⟨hno, ?_⟩
    rw [settled, settled, hacct, hpend]

/-- **The rule for the account.**  Orders in flight that will all meet `R` still will after a
step, when the order the step approves, if it does, meets `R` on the settled account. -/
theorem along_step {R : PaperAccount → ValidatedOrder → Prop} {path path' : OrderPath} {l : Label}
    (h : path.step l = some path')
    (halong : Along PaperAccount.applyOrder R path.account path.pending)
    (happroved : ∀ order, path.Approves l order → R path.settled order) :
    Along PaperAccount.applyOrder R path'.account path'.pending := by
  rcases step_cases h with ⟨order, happ, hacct, hpend⟩ | ⟨rfl, order, rest, hpend, hacct, hrest⟩ |
    ⟨-, -, hacct, hpend⟩
  · rw [hacct, hpend, along_concat]
    exact ⟨halong, happroved order happ⟩
  · rw [hpend] at halong
    rw [hacct, hrest]
    exact halong.2
  · rw [hacct, hpend]
    exact halong

/-- Its counterpart for the account of the moment: what every order that meets `R` preserves is
preserved by every step. -/
theorem account_step {P : PaperAccount → Prop} {R : PaperAccount → ValidatedOrder → Prop}
    (hP : ∀ acct order, P acct → R acct order → P (acct.applyOrder order))
    {path path' : OrderPath} {l : Label} (h : path.step l = some path')
    (halong : Along PaperAccount.applyOrder R path.account path.pending)
    (hacct : P path.account) : P path'.account := by
  rcases step_cases h with ⟨_, -, hsame, -⟩ | ⟨-, order, rest, hfront, happlied, -⟩ |
    ⟨-, -, hsame, -⟩
  · rw [hsame]
    exact hacct
  · -- the order at the front is the one whose turn has come
    rw [hfront] at halong
    rw [happlied]
    exact hP path.account order hacct halong.1
  · rw [hsame]
    exact hacct

/-- The fee rate never changes. -/
theorem settled_feePct (path : OrderPath) : path.settled.feePct = path.account.feePct :=
  settle_frame (f := PaperAccount.feePct) PaperAccount.applyOrder_feePct _ _

theorem step_feePct {path path' : OrderPath} {l : Label} (h : path.step l = some path') :
    path'.account.feePct = path.account.feePct := by
  rcases step_cases h with ⟨_, -, hacct, -⟩ | ⟨-, order, _, -, hacct, -⟩ | ⟨-, -, hacct, -⟩
  · rw [hacct]
  · rw [hacct, PaperAccount.applyOrder_feePct]
  · rw [hacct]

/-! ## §3 Draining -/

/-- The steps that only move orders already approved. -/
def Label.Draining : Label → Prop
  | .send | .take | .fill | .mirror | .record _ => True
  | _ => False

/-- How many such steps a state still has in it. -/
def backlog (path : OrderPath) : Nat :=
  (match path.task with
    | .idle => 0
    | .mirrored _ => 1
    | .filled _ => 2
    | .taken _ => 3)
  + 4 * path.orders.length + 5 * path.sending.toList.length

/-- A state with orders in flight takes a draining step, and has less of a backlog then. -/
theorem exists_draining_step {path : OrderPath} (h : path.pending ≠ []) :
    ∃ l path', l.Draining ∧ path.step l = some path' ∧ path'.backlog < path.backlog := by
  cases htask : path.task with
  | taken order =>
      refine ⟨.fill, _, trivial, by simp only [step, htask]; rfl, ?_⟩
      simp [backlog, htask]
  | filled order =>
      refine ⟨.mirror, _, trivial, by simp only [step, htask]; rfl, ?_⟩
      simp [backlog, htask]
  | mirrored order =>
      refine ⟨.record "", _, trivial, by simp only [step, htask]; rfl, ?_⟩
      simp [backlog, htask]
  | idle =>
      cases horders : path.orders with
      | cons order orders =>
          refine ⟨.take, _, trivial, by simp only [step, htask, horders]; rfl, ?_⟩
          simp [backlog, htask, horders]
          omega
      | nil =>
          cases hsend : path.sending with
          | some order =>
              refine ⟨.send, _, trivial, by simp [step, hsend, horders, orderChannelCap]; rfl, ?_⟩
              simp [backlog, htask, horders, hsend]
          | none => simp [pending, ExecTask.held, htask, horders, hsend] at h

theorem Label.Draining.not_approves {path : OrderPath} {l : Label} (hl : l.Draining)
    (order : ValidatedOrder) : ¬ path.Approves l order := by
  refine not_approves_of_ne_check ?_ order
  rintro signal midPrice now uuid rfl
  exact hl

/-- **Everything in flight can be executed**, and one can watch the last of it: from every state
with orders in flight there is a run of draining steps that ends with the last one in the
executor's hands and all the others executed. -/
theorem exists_run_to_last {path : OrderPath} {ops : List ValidatedOrder} {last : ValidatedOrder}
    (hpend : path.pending = ops ++ [last]) :
    ∃ ls path', (∀ l ∈ ls, Label.Draining l) ∧ machine.exec path ls = some path' ∧
      path'.task = .taken last ∧ path'.pending = [last] ∧
      path'.account = settle PaperAccount.applyOrder path.account ops := by
  induction hn : path.backlog using Nat.strong_induction_on generalizing path ops with
  | _ n ih =>
      -- done when the last order is in the executor's hands; otherwise one draining step more
      by_cases hlast : path.task = .taken last ∧ ops = []
      · obtain ⟨htask, rfl⟩ := hlast
        exact ⟨[], path, by simp, rfl, htask, hpend, rfl⟩
      have hbusy : path.pending ≠ [] := by
        rw [hpend]
        simp
      obtain ⟨l, mid, hl, hstep, hless⟩ := exists_draining_step hbusy
      -- what is left after this step still ends with the same order
      have hmid : ∃ ops', mid.pending = ops' ++ [last] ∧
          settle PaperAccount.applyOrder mid.account ops'
            = settle PaperAccount.applyOrder path.account ops := by
        rcases step_cases hstep with ⟨order, happ, -, -⟩ |
            ⟨rfl, order, rest, hfront, hacct, hrest⟩ | ⟨-, -, hacct, hsame⟩
        · exact absurd happ (hl.not_approves order)
        · cases ops with
          | nil =>
              have htaken : path.task = .taken last := by
                rw [hpend] at hfront
                cases htask : path.task with
                | taken order' =>
                    simp only [pending, htask, ExecTask.held, List.nil_append, List.cons_append,
                      List.cons.injEq] at hpend
                    rw [hpend.1]
                | idle => simp [step, htask] at hstep
                | filled order' => simp [step, htask] at hstep
                | mirrored order' => simp [step, htask] at hstep
              exact absurd ⟨htaken, rfl⟩ hlast
          | cons op ops' =>
              rw [hpend, List.cons_append, List.cons.injEq] at hfront
              obtain ⟨rfl, rfl⟩ := hfront
              exact ⟨ops', hrest, by rw [hacct, settle_cons]⟩
        · exact ⟨ops, hsame.trans hpend, by rw [hacct]⟩
      obtain ⟨ops', hpend', hsettle⟩ := hmid
      obtain ⟨ls, path', hls, hrun, htask, hpath', hacct⟩ :=
        ih mid.backlog (hn ▸ hless) hpend' rfl
      refine ⟨l :: ls, path', ?_, ?_, htask, hpath', hacct.trans hsettle⟩
      · intro m hm
        rcases List.mem_cons.mp hm with rfl | hm
        · exact hl
        · exact hls m hm
      · exact machine.exec_cons_eq_some.mpr ⟨mid, hstep, hrun⟩

/-- From every state there is a run of draining steps after which nothing is in flight and the
account is the settled one. -/
theorem exists_drain (path : OrderPath) :
    ∃ ls path', (∀ l ∈ ls, Label.Draining l) ∧ machine.exec path ls = some path' ∧
      path'.pending = [] ∧ path'.account = path.settled := by
  rcases List.eq_nil_or_concat' path.pending with hnil | ⟨ops, last, hpend⟩
  · exact ⟨[], path, by simp, rfl, hnil, (settled_of_pending_nil hnil).symm⟩
  obtain ⟨ls, mid, hls, hrun, htask, hmid, hacct⟩ := exists_run_to_last hpend
  obtain ⟨path', hfill⟩ : ∃ path', mid.step .fill = some path' := by
    simp only [step, htask]
    exact ⟨_, rfl⟩
  rcases step_cases hfill with ⟨order, happ, -, -⟩ | ⟨-, order, rest, hfront, hacct', hrest⟩ |
    ⟨-, hne, -, -⟩
  · exact absurd happ (Label.Draining.not_approves (l := .fill) trivial order)
  · rw [hmid, List.cons.injEq] at hfront
    obtain ⟨rfl, rfl⟩ := hfront
    refine ⟨ls ++ [.fill], path', ?_, ?_, hrest, ?_⟩
    · intro l hl
      rcases List.mem_append.mp hl with hl | hl
      · exact hls l hl
      · rw [List.mem_singleton.mp hl]; trivial
    · exact machine.exec_trans hrun ((machine.exec_singleton mid .fill).trans hfill)
    · rw [hacct', hacct, settled, hpend, settle_concat]
  · exact absurd rfl hne

/-- The four steps of a fill make one `execute_with_state`. -/
theorem exec_fill {path : OrderPath} {order : ValidatedOrder} {orders : List ValidatedOrder}
    (htask : path.task = .idle) (horders : path.orders = order :: orders) (timestamp : String)
    (hsignal : order.signal ≠ .hold) :
    machine.exec path [.take, .fill, .mirror, .record timestamp] = some { path with
      orders := orders
      executor := (path.executor.executeWithState order path.shared timestamp).1
      shared := (path.executor.executeWithState order path.shared timestamp).2 } := by
  obtain ⟨signal, id⟩ := order
  cases signal with
  | hold => exact absurd rfl hsignal
  | buy price qty => simp [machine, Machine.exec, step, htask, horders,
      PaperExecutor.executeWithState, PaperTrade.ofOrder]
  | sell price qty => simp [machine, Machine.exec, step, htask, horders,
      PaperExecutor.executeWithState, PaperTrade.ofOrder]

end OrderPath

end CryptoTrader
