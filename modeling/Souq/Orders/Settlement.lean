import Souq.Orders.Timers

/-!
# When a compensation settles

A compensating order should be cancelled as soon as both participants have
answered. The machine only sees the answers that left an acknowledged `RELEASE`
or `VOID` row. To say which answers were consumed, a run is observed together
with the answers applied so far.
-/

namespace Souq.Orders

open Saga Transact Transition Board Database Function Option

/-- What the participants have answered about one order: inventory since the
order started to compensate, payment in any state. -/
structure Answers where
  inventory : Bool := false
  payment : Bool := false

def Answers.hear (answers : Answers) (status : Option State) (trigger : Trigger)
    (retriable : Bool) : Answers where
  inventory := answers.inventory ||
    status == some .compensating && (trigger == .released || trigger == .reserveFailed)
  payment := answers.payment || trigger == .voided || trigger == .authFailed && !retriable

/-- The database, with the answers to each order. -/
structure Observed where
  db : Database := {}
  answers : ID → Answers := fun _ => {}

/-- The event an action applies: its transaction commits the claim on it. -/
def Database.applied (db : Database) : Action → Option (ID × Trigger × Bool)
  | .handle e mint now =>
    if e.id ∉ db.processed ∧ e.id ∈ (db.exec (.handle e mint now)).processed then do
      let trigger ← triggerFor e.type
      let body ← e.body
      let orderID ← body.orderID
      pure (orderID, trigger, body.retriable)
    else none
  | _ => none

def Observed.exec (s : Observed) (a : Action) : Observed where
  db := s.db.exec a
  answers :=
    match s.db.applied a with
    | some (orderID, trigger, retriable) =>
      update s.answers orderID
        ((s.answers orderID).hear (s.db.board orderID).status trigger retriable)
    | none => s.answers

/-- The actions, watched. -/
def observe (actions : List Action) : Observed := actions.foldl Observed.exec {}

/-- An order about which inventory has answered since it compensates and whose
payment is finished, because it was never charged or payment has answered, is
`CANCELLED`. -/
def Settled (board : Board) (answers : Answers) : Prop :=
  answers.inventory = true → board.charged = false ∨ answers.payment = true →
    board.status = some .cancelled

/-- The event is the second answer about a compensating order, but the rows do not
show the first one as an acknowledged `VOID` or `RELEASE`. -/
def LosesAnswer (board : Board) (answers : Answers) (trigger : Trigger) (retriable : Bool) :
    Prop :=
  board.status = some .compensating ∧ ((trigger = .released ∨ trigger = .reserveFailed) ∧
        board.timer .authorize ≠ .absent ∧ board.timer .void ≠ .acked ∧
        (board.charged = false ∨ answers.payment = true) ∨
      (trigger = .voided ∨ trigger = .authFailed ∧ retriable = false) ∧
        board.timer .release ≠ .acked ∧ answers.inventory = true)

def Counted (board : Board) (answers : Answers) : Prop :=
  answers.inventory = true → board.status = some .compensating ∨ board.status = some .cancelled

section Event

variable {board : Board} {answers : Answers} {status : State} {trigger : Trigger} {d : Decision}
  {retriable : Bool}

theorem Counted.after (counted : Counted board answers) (current : board.status = some status)
    (decided : Decides status trigger (board.ctx retriable) d) :
    Counted (board.after trigger d) (answers.hear board.status trigger retriable) := by
  simp only [Counted, current, Answers.hear, Board.after, some.injEq] at counted ⊢
  cases decided with
  | released | neverReserved | voided | neverAuthorized =>
    intro _
    exact (settleOrWait_next _).symm
  | _ => grind -ring -linarith

theorem settled_after_iff (counted : Counted board answers) (settled : Settled board answers)
    (current : board.status = some status)
    (decided : Decides status trigger (board.ctx retriable) d) :
    Settled (board.after trigger d) (answers.hear board.status trigger retriable) ↔
      ¬ LosesAnswer board answers trigger retriable := by
  simp only [Counted, Settled, LosesAnswer, current, Answers.hear, after,
    some.injEq] at counted settled ⊢
  cases decided with
  | released | neverReserved =>
    rcases settleOrWait_cases { board.ctx retriable with inventorySettled := true } with
      ⟨-, done, cancels⟩ | ⟨open', waits⟩
    · simp only [ctx] at done
      simp only [cancels]
      grind -ring -linarith
    · simp only [ctx] at open'
      simp only [waits]
      grind -ring -linarith
  | voided | neverAuthorized =>
    rcases settleOrWait_cases { board.ctx retriable with paymentSettled := true } with
      ⟨done, -, cancels⟩ | ⟨open', waits⟩
    · simp only [ctx] at done
      simp only [cancels]
      grind -ring -linarith
    · simp only [ctx] at open'
      simp only [waits]
      grind -ring -linarith
  | _ => grind -ring -linarith

end Event

theorem reacted_processed (mint : Mint) (now : Time) (e : Envelope) (trigger : Trigger)
    (body : Body) (ord : Order) (d : Decision) (rows : Rows) :
    (reacted mint now e trigger body ord d rows).processed = rows.processed ++ [e.id] :=
  persisted_processed ..

theorem Database.applied_eq_some {db : Database} {a : Action} {orderID : ID} {trigger : Trigger}
    {retriable : Bool} :
    db.applied a = some (orderID, trigger, retriable) ↔
      ∃ e mint now body ord d, a = .handle e mint now ∧ e.orderID = some orderID ∧
        body.retriable = retriable ∧ Reacts e (db.focus orderID) trigger body ord d := by
  constructor
  · intro applied
    cases a with
    | handle e mint now =>
      simp only [Database.applied, ite_none_right_eq_some, bind_eq_bind,
        bind_eq_some_iff, pure_def, some.injEq, Prod.mk.injEq] at applied
      obtain ⟨⟨fresh, claims⟩, trigger, modelled, body, parsed, orderID, owner, rfl, rfl, rfl⟩ :=
        applied
      have named : e.orderID = some orderID := by simp [Envelope.orderID, parsed, owner]
      rcases handle_inTx_cases mint now e (db.focus orderID) with
        stays | ⟨trigger', body', ord, d, reacts, -⟩
      · rw [db.exec_handle named, Database.transact, stays] at claims
        exact (fresh claims).elim
      · obtain rfl : body' = body := some.inj (reacts.parsed.symm.trans parsed)
        obtain rfl : trigger' = trigger := some.inj (reacts.modelled.symm.trans modelled)
        exact ⟨e, mint, now, body', ord, d, rfl, named, rfl, reacts⟩
    | place | tick | cancel => cases applied
  · rintro ⟨e, mint, now, body, ord, d, rfl, named, rfl, reacts⟩
    have owner : body.orderID = some orderID := by
      simpa [Envelope.orderID, reacts.parsed] using named
    have claims : e.id ∈ (db.exec (.handle e mint now)).processed := by
      rw [db.exec_handle named, transact, Program.inTx_of_ok (reacts.run mint now)]
      simp [store, reacted_processed]
    have fresh : e.id ∉ db.processed := reacts.fresh
    simp [applied, fresh, claims, reacts.modelled, reacts.parsed, owner]

def observation : System Observed Action := .ofFunction {} Observed.exec

theorem Observed.reachable_db {s : Observed} (reached : observation.Reachable s) :
    service.Reachable s.db := by
  induction reached with
  | init initial =>
    subst initial
    exact .init rfl
  | step _ taken ih =>
    subst taken
    exact ih.step rfl

theorem observe_db (actions : List Action) : (observe actions).db = history actions := by
  unfold observe history
  induction actions using List.reverseRecOn with
  | nil => rfl
  | append_singleton actions a ih =>
    rw [List.foldl_append, List.foldl_append, ← ih]
    rfl

theorem Board.timeout_charged (board : Board) : board.timeout.charged = board.charged := by
  cases current : board.status with
  | none => simp only [timeout, current]
  | some status =>
    simp only [timeout, current, after]
    cases status <;> simp [onTimeout, Saga.next, compensationsFor]

theorem Board.timeouts_charged (board : Board) (fires : Nat) :
    (timeout^[fires] board).charged = board.charged := by
  induction fires generalizing board with
  | zero => rfl
  | succ fires ih => exact (ih _).trans board.timeout_charged

/-- What an observed action does to one order: it applies an event to it, or it
is a move that applies none. -/
theorem Observed.exec_cases (s : Observed) (a : Action) (orderID : ID) :
    (∃ e mint now trigger body ord d, a = .handle e mint now ∧ e.orderID = some orderID ∧
        Reacts e (s.db.focus orderID) trigger body ord d ∧
        (s.exec a).answers orderID = (s.answers orderID).hear (s.db.board orderID).status trigger
          body.retriable ∧
        (s.exec a).db.board orderID = (s.db.board orderID).after trigger d) ∨
      ((s.exec a).answers orderID = s.answers orderID ∧
        ¬ ∃ e mint now trigger body ord d, a = .handle e mint now ∧ e.orderID = some orderID ∧
          Reacts e (s.db.focus orderID) trigger body ord d) := by
  by_cases applies : ∃ trigger retriable, s.db.applied a = some (orderID, trigger, retriable)
  · left
    obtain ⟨trigger, retriable, applied⟩ := applies
    obtain ⟨e, mint, now, body, ord, d, rfl, named, rfl, reacts⟩ :=
      applied_eq_some.mp applied
    refine ⟨e, mint, now, trigger, body, ord, d, rfl, named, reacts, ?_,
      reacts.exec_board named mint now⟩
    simp only [Observed.exec, applied, update_self]
  · right
    refine ⟨?_, ?_⟩
    · cases applied : s.db.applied a with
      | none => simp only [Observed.exec, applied]
      | some entry =>
        obtain ⟨other, trigger, retriable⟩ := entry
        have different : orderID ≠ other :=
          fun same => applies ⟨trigger, retriable, same ▸ applied⟩
        simp only [Observed.exec, applied, update_of_ne different]
    · rintro ⟨e, mint, now, trigger, body, ord, d, rfl, named, reacts⟩
      exact applies ⟨trigger, body.retriable, applied_eq_some.mpr
        ⟨e, mint, now, body, ord, d, rfl, named, rfl, reacts⟩⟩

theorem counted_of_reachable {s : Observed} (reached : observation.Reachable s) (orderID : ID) :
    Counted (s.db.board orderID) (s.answers orderID) := by
  induction reached with
  | init initial =>
    subst initial
    exact nofun
  | @step before after a reached taken counted =>
    obtain rfl : after = before.exec a := taken
    have coherent := coherent_of_reachable (Observed.reachable_db reached) orderID
    rcases before.exec_cases a orderID with
      ⟨e, mint, now, trigger, body, ord, d, -, -, reacts, hears, moves⟩ | ⟨deaf, quiet⟩
    · rw [hears, moves]
      exact counted.after (board_status reacts.found) reacts.decides
    · rw [deaf]
      have moves := exec_moves coherent a
      change Counted ((before.db.exec a).board orderID) _
      generalize (before.db.exec a).board orderID = board at moves ⊢
      cases moves with
      | stay => exact counted
      | place _ _ _ _ new => exact fun inventory => by simpa [new] using counted inventory
      | event mint now named reacts =>
        exact (quiet ⟨_, mint, now, _, _, _, _, rfl, named, reacts⟩).elim
      | cancel _ _ _ current early => exact fun _ => .inl rfl
      | fires claimed mint now current early some' =>
        exact fun _ => .inl (coherent.timeouts current early some').2

/-- The action handles a fresh event that loses an answer. -/
def Losing (s : Observed) : Action → Prop
  | .handle e _ _ => ∃ orderID trigger body, e.body = some body ∧ body.orderID = some orderID ∧
      triggerFor e.type = some trigger ∧ e.id ∉ s.db.processed ∧
      LosesAnswer (s.db.board orderID) (s.answers orderID) trigger body.retriable
  | _ => False

theorem LosesAnswer.decides {board : Board} {answers : Answers} {trigger : Trigger}
    {retriable : Bool} (loses : LosesAnswer board answers trigger retriable) :
    ∃ d, Decides .compensating trigger (board.ctx retriable) d ∧ isTerminal d.next = false := by
  obtain ⟨-, ⟨inventory, sent, unsettled, -⟩ | ⟨payment, unsettled, -⟩⟩ := loses
  · have waits : settleOrWait { board.ctx retriable with inventorySettled := true } =
        { next := .compensating, ackOnly := true } := by
      simp [settleOrWait, ctx, sent, unsettled]
    rcases inventory with rfl | rfl
    · exact ⟨_, .released _, by rw [waits]; rfl⟩
    · exact ⟨_, .neverReserved _, by rw [waits]; rfl⟩
  · have waits : settleOrWait { board.ctx retriable with paymentSettled := true } =
        { next := .compensating, ackOnly := true } := by
      simp [settleOrWait, ctx, unsettled]
    rcases payment with rfl | ⟨rfl, -⟩
    · exact ⟨_, .voided _, by rw [waits]; rfl⟩
    · exact ⟨_, .neverAuthorized _, by rw [waits]; rfl⟩

theorem settled_exec_iff {s : Observed} (a : Action) (reached : observation.Reachable s)
    (settled : ∀ orderID, Settled (s.db.board orderID) (s.answers orderID)) :
    (∀ orderID, Settled ((s.exec a).db.board orderID) ((s.exec a).answers orderID)) ↔
      ¬ Losing s a := by
  constructor
  · intro after losing
    cases a with
    | handle e mint now =>
      obtain ⟨orderID, trigger, body, parsed, owner, modelled, fresh, loses⟩ := losing
      obtain ⟨d, decides, live⟩ := loses.decides
      obtain ⟨ord, reacts⟩ : ∃ ord, Reacts e (s.db.focus orderID) trigger body ord d :=
        Reacts.of_decides modelled parsed (by simp [owner]) fresh loses.1 decides live
      have named : e.orderID = some orderID := by simp [Envelope.orderID, parsed, owner]
      have applied := applied_eq_some.mpr ⟨e, mint, now, body, ord, d, rfl, named, rfl, reacts⟩
      have kept := after orderID
      simp only [Observed.exec, applied, Function.update_self, reacts.exec_board named] at kept
      exact (settled_after_iff (counted_of_reachable reached orderID) (settled orderID) loses.1
        decides).mp kept loses
    | place | tick | cancel => exact losing
  · intro calm orderID
    have coherent := coherent_of_reachable (Observed.reachable_db reached) orderID
    have counted := counted_of_reachable reached orderID
    rcases s.exec_cases a orderID with
      ⟨e, mint, now, trigger, body, ord, d, rfl, named, reacts, hears, moves⟩ | ⟨deaf, quiet⟩
    · rw [hears, moves]
      refine (settled_after_iff counted (settled orderID) (board_status reacts.found)
        reacts.decides).mpr fun loses => calm ?_
      have owner : body.orderID = some orderID := by
        simpa [Envelope.orderID, reacts.parsed] using named
      exact ⟨orderID, trigger, body, reacts.parsed, owner, reacts.modelled, reacts.fresh, loses⟩
    · rw [deaf]
      have moves := exec_moves coherent a
      change Settled ((s.db.exec a).board orderID) _
      generalize (s.db.exec a).board orderID = board at moves ⊢
      cases moves with
      | stay => exact settled orderID
      | place _ _ _ _ new =>
        intro inventory
        simpa [new] using counted inventory
      | event mint now named reacts =>
        exact (quiet ⟨_, mint, now, _, _, _, _, rfl, named, reacts⟩).elim
      | cancel _ _ _ current early =>
        intro inventory
        rcases early with rfl | rfl <;> simpa [current] using counted inventory
      | fires claimed mint now current early some' =>
        intro inventory finished
        rw [timeouts_charged] at finished
        have cancelled := settled orderID inventory finished
        rw [current, some.injEq] at cancelled
        rcases early with rfl | rfl | rfl <;> cases cancelled

/-- **Settlement.** Throughout a run every order both sides have answered about is
cancelled, exactly when no step of the run loses an answer. -/
theorem settled_throughout_iff (actions : List Action) :
    (∀ front, front <+: actions → ∀ orderID,
        Settled ((history front).board orderID) ((observe front).answers orderID)) ↔
      ∀ front a, front ++ [a] <+: actions → ¬ Losing (observe front) a := by
  simp only [← observe_db]
  exact System.throughout_iff (fun _ => nofun) (fun _ a => settled_exec_iff a) actions

/-- A declined order whose stock is released keeps compensating. -/
theorem settled_fails :
    ¬ ∀ actions orderID, Settled ((history actions).board orderID)
      ((observe actions).answers orderID) := by
  intro settled
  have cancelled := settled [placeSingle, handleSingle 1 .inventoryReserved false 1,
    handleSingle 2 .paymentFailed false 2, handleSingle 3 .inventoryReleased false 3] 1 rfl
    (.inr rfl)
  cases cancelled

end Souq.Orders
