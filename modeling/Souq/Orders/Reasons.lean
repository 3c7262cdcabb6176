import Souq.Orders.Verdict

/-!
# The reason of a cancellation

The first failure of an order is the one worth keeping, and what is announced should be
what is stored. `apply` stores a reason only with the status `CANCELLED`, not on the way
into `COMPENSATING`, so the last acknowledgement names the reason unless the customer
cancelled. The announcement is computed apart from the columns: without the event's
reason and without the failed step the row already holds.
-/

namespace Souq.Orders

open Saga Transact Transition Database List Option Verdict

/-- The reason the machine gives when an order in this state is cancelled. -/
def cancelReason : State → CancelReason
  | .pending => .insufficientStock
  | _ => .paymentDeclined

/-- The trigger cancels an order: it is pending and has no stock, or it compensates and
the trigger is the second acknowledgement. -/
def Closes (board : Board) (trigger : Trigger) : Prop :=
  board.status = some .pending ∧ trigger = .reserveFailed ∨ board.status = some .compensating ∧
      ((trigger = .released ∨ trigger = .reserveFailed) ∧
          (board.timer .void = .acked ∨ board.timer .authorize = .absent) ∨
        (trigger = .voided ∨ trigger = .authFailed) ∧ board.timer .release = .acked)

/-- What the machine decides when it cancels an order. -/
def cancelling (status : State) : Decision where
  next := .cancelled
  reason := some (cancelReason status)
  failedStep := if status = .pending then some .reserve else none

section Decision

variable {board : Board} {status : State} {trigger : Trigger} {retriable : Bool} {d : Decision}

theorem closes_of_cancelled (current : board.status = some status)
    (decided : Decides status trigger (board.ctx retriable) d) (live : status ≠ .cancelled)
    (cancels : d.next = .cancelled) : Closes board trigger ∧ d = cancelling status := by
  cases decided with
  | outOfStock => exact ⟨.inl ⟨current, rfl⟩, rfl⟩
  | released | neverReserved =>
    rcases settleOrWait_cases { board.ctx retriable with inventorySettled := true } with
      ⟨-, done, settles⟩ | ⟨-, waits⟩
    · rw [settles]
      refine ⟨.inr ⟨current, .inl ⟨by simp, ?_⟩⟩, rfl⟩
      simpa [Board.ctx] using done
    · rw [waits] at cancels
      cases cancels
  | voided | neverAuthorized =>
    rcases settleOrWait_cases { board.ctx retriable with paymentSettled := true } with
      ⟨done, -, settles⟩ | ⟨-, waits⟩
    · rw [settles]
      refine ⟨.inr ⟨current, .inr ⟨by simp, ?_⟩⟩, rfl⟩
      simpa [Board.ctx] using done
    · rw [waits] at cancels
      cases cancels
  | afterCancelled => exact (live rfl).elim
  | _ => cases cancels

theorem Closes.decides (closes : Closes board trigger) (retriable : Bool) :
    ∃ status, board.status = some status ∧ status ≠ .cancelled ∧
      Decides status trigger (board.ctx retriable) (cancelling status) := by
  rcases closes with ⟨current, rfl⟩ | ⟨current, ⟨inventory, done⟩ | ⟨payment, done⟩⟩
  · exact ⟨.pending, current, by decide, .outOfStock _⟩
  · have settles : settleOrWait { board.ctx retriable with inventorySettled := true } =
        cancelling .compensating := by
      simp only [settleOrWait, Board.ctx]
      rcases done with acked | absent
      · simp [acked, cancelling, cancelReason]
      · simp [absent, cancelling, cancelReason]
    refine ⟨.compensating, current, by decide, settles ▸ ?_⟩
    rcases inventory with rfl | rfl
    · exact .released _
    · exact .neverReserved _
  · have settles : settleOrWait { board.ctx retriable with paymentSettled := true } =
        cancelling .compensating := by
      simp [settleOrWait, Board.ctx, done, cancelling, cancelReason]
    refine ⟨.compensating, current, by decide, settles ▸ ?_⟩
    rcases payment with rfl | rfl
    · exact .voided _
    · exact .neverAuthorized _

end Decision

theorem not_refused_cancelling (ord : Order) (status : State) (reservationID paymentID : Option ID)
    (reasonCode : String) :
    ¬ Refused ord (cancelling status) reservationID paymentID reasonCode := by
  rintro ⟨-, denied⟩
  obtain ⟨kept, reason⟩ : ∃ kept, pickReason (some (cancelReason status)) reasonCode
      ord.cancellationReason = some kept := by
    unfold pickReason
    cases ord.cancellationReason <;> cases knownReason reasonCode <;> exact ⟨_, rfl⟩
  simp [Order.admissible, Order.withStatus, statusFields, cancelling, reason] at denied

/-- The action handles a fresh event about an order that cancels it. -/
structure Cancels (db : Database) (e : Envelope) (orderID : ID) (trigger : Trigger) (body : Body)
    (ord : Order) : Prop where
  modelled : triggerFor e.type = some trigger
  parsed : e.body = some body
  named : body.orderID = some orderID
  fresh : e.id ∉ db.processed
  found : (db.focus orderID).order = some ord
  closes : Closes (db.board orderID) trigger

variable {db : Database} {e : Envelope} {orderID : ID} {body : Body} {ord : Order} {v : Verdict}
  {s : Witnessed} {a : Action}

theorem Cancels.reacts {trigger : Trigger} (cancels : Cancels db e orderID trigger body ord) :
    Reacts e (db.focus orderID) trigger body ord (cancelling ord.status) := by
  obtain ⟨status, current, -, decides⟩ := cancels.closes.decides body.retriable
  obtain rfl : ord.status = status :=
    some.inj ((board_status cancels.found).symm.trans current)
  exact ⟨cancels.modelled, cancels.parsed, by simp [cancels.named], cancels.fresh, cancels.found,
    (next_ctxOf _ _ _ _).trans (next_eq_ok.mpr decides), not_refused_cancelling _ _ _ _ _⟩

theorem Cancels.live {trigger : Trigger} (cancels : Cancels db e orderID trigger body ord) :
    ord.status ≠ .cancelled := by
  obtain ⟨status, current, live, -⟩ := cancels.closes.decides body.retriable
  obtain rfl : ord.status = status :=
    some.inj ((board_status cancels.found).symm.trans current)
  exact live

theorem Cancels.early {trigger : Trigger} (cancels : Cancels db e orderID trigger body ord) :
    ord.status = .pending ∨ ord.status = .compensating := by
  have current := board_status cancels.found
  rcases cancels.closes with ⟨held, -⟩ | ⟨held, -⟩
  · exact .inl (some.inj (current.symm.trans held))
  · exact .inr (some.inj (current.symm.trans held))

theorem Cancels.owner {trigger : Trigger} (cancels : Cancels db e orderID trigger body ord) :
    e.orderID = some orderID := by
  simp [Envelope.orderID, cancels.parsed, cancels.named]

theorem Reacts.cancels {trigger : Trigger} {d : Decision} (named : e.orderID = some orderID)
    (reacts : Reacts e (db.focus orderID) trigger body ord d) (live : ord.status ≠ .cancelled)
    (cancels : d.next = .cancelled) :
    Cancels db e orderID trigger body ord ∧ d = cancelling ord.status := by
  obtain ⟨closes, same⟩ := closes_of_cancelled (board_status reacts.found) reacts.decides
    live cancels
  have owner : body.orderID = some orderID := by
    simpa [Envelope.orderID, reacts.parsed] using named
  exact ⟨⟨reacts.modelled, reacts.parsed, owner, reacts.fresh, reacts.found, closes⟩, same⟩

/-- What the outbox announces is what the row holds: an order with a cancellation event
is cancelled, with the event's reason and failed step. -/
def Announced (v : Verdict) : Prop :=
  ∀ entry ∈ v.announced, v.status = some .cancelled ∧ entry = (v.reason, v.failedStep)

/-- The row an event is about holds something that its announcement leaves out: a failed
step when the order compensates, or the event's own reason. -/
def Differs (ord : Order) (body : Body) : Prop :=
  ord.status = .compensating ∧ ord.failedStep ≠ none ∨ ord.cancellationReason = none ∧
      ∃ reason, knownReason body.reasonCode = some reason ∧ reason ≠ cancelReason ord.status

/-- The action announces a cancellation that the row does not hold. -/
def Misannounces (db : Database) : Action → Prop
  | .handle e mint _ => ∃ orderID trigger body ord, Cancels db e orderID trigger body ord ∧
      (db.focus orderID).unseen mint.eventID = true ∧ Differs ord body
  | _ => False

theorem Announced.not_cancelled (announced : Announced v) (live : v.status ≠ some .cancelled) :
    v.announced = [] :=
  eq_nil_iff_forall_not_mem.mpr fun entry mem => live (announced entry mem).1

theorem Announced.quiet {w : Verdict} (announced : Announced v) (live : v.status ≠ some .cancelled)
    (same : w.announced = v.announced) : Announced w := by
  intro entry mem
  rw [same, announced.not_cancelled live] at mem
  cases mem

theorem Announced.turn (announced : Announced v) {d : Decision} {reasonCode : String}
    {unseen : Bool} (same : d.next = .cancelled ↔ v.status = some .cancelled) :
    Announced (v.turn d reasonCode unseen) := by
  unfold Verdict.turn
  split
  case isTrue => exact announced
  case isFalse moves =>
    have live : d.next ≠ .cancelled := fun cancels =>
      moves ((same.mp cancels).trans (congrArg some cancels.symm))
    have none' : v.announced = [] := announced.not_cancelled fun cancelled =>
      live (same.mpr cancelled)
    simp [Announced, live, none']

theorem announced_cancelling_iff {unseen : Bool} (announced : Announced v)
    (current : v.status = some ord.status) (live : ord.status ≠ .cancelled)
    (early : ord.status = .pending ∨ ord.status = .compensating)
    (reason : v.reason = ord.cancellationReason) (failedStep : v.failedStep = ord.failedStep) :
    Announced (v.turn (cancelling ord.status) body.reasonCode unseen) ↔
      ¬ (unseen = true ∧ Differs ord body) := by
  have none' : v.announced = [] := announced.not_cancelled fun cancelled =>
    live (some.inj (current.symm.trans cancelled))
  have moves : v.status ≠ some (cancelling ord.status).next := fun same =>
    live (some.inj (current.symm.trans same))
  rw [turn, if_neg moves]
  cases unseen with
  | false => simp [Announced, none']
  | true =>
    simp only [Announced, cancelling, Differs, none', reason, failedStep, and_self, ↓reduceIte,
      nil_append, mem_singleton, forall_eq, true_and, Prod.mk.injEq, pickReason,
      show knownReason "" = none from rfl]
    rcases early with held | held <;> cases ord.cancellationReason <;>
      cases knownReason body.reasonCode <;> cases ord.failedStep <;> simp [held, eq_comm]

theorem announced_exec_iff (a : Action) (reached : service.Reachable db)
    (announced : ∀ orderID, Announced (db.verdict orderID)) :
    (∀ orderID, Announced ((db.exec a).verdict orderID)) ↔ ¬ Misannounces db a := by
  have coherent := coherent_of_reachable reached
  constructor
  · intro after wrong
    cases a with
    | handle e mint now =>
      obtain ⟨orderID, trigger, body, ord, cancels, unseen, differs⟩ := wrong
      obtain ⟨current, reason, failedStep⟩ := verdict_of_found cancels.found
      have kept := after orderID
      rw [cancels.reacts.exec_verdict cancels.owner] at kept
      exact (announced_cancelling_iff (announced orderID) current cancels.live cancels.early
        reason failedStep).mp kept ⟨unseen, differs⟩
    | place | tick | cancel => exact wrong
  · intro right orderID
    have turns := exec_turns (coherent orderID) a
    generalize (db.exec a).verdict orderID = after at turns
    cases turns with
    | stay => exact announced orderID
    | place _ _ _ _ new => exact (announced orderID).quiet (by simp [new]) rfl
    | @event e mint now trigger body ord d named reacts =>
      obtain ⟨current, reason, failedStep⟩ := verdict_of_found reacts.found
      by_cases dead : ord.status = .cancelled
      · refine (announced orderID).turn ⟨fun _ => dead ▸ current, fun _ => ?_⟩
        rw [reacts.decides.terminal (by rw [dead]; rfl), dead]
      · by_cases moves : d.next = .cancelled
        · obtain ⟨cancels, rfl⟩ := reacts.cancels named dead moves
          refine (announced_cancelling_iff (announced orderID) current dead cancels.early reason
            failedStep).mpr fun ⟨unseen, differs⟩ => right ?_
          exact ⟨orderID, trigger, body, ord, cancels, unseen, differs⟩
        · refine (announced orderID).turn ⟨fun cancelled => (moves cancelled).elim, ?_⟩
          exact fun cancelled => (dead (some.inj (current.symm.trans cancelled))).elim
    | cancel _ _ _ current early =>
      refine (announced orderID).quiet ?_ rfl
      rcases early with rfl | rfl <;> simp [current]
    | fires claimed mint now current early =>
      refine (announced orderID).quiet ?_ rfl
      rcases early with rfl | rfl | rfl <;> simp [current]

/-- **The announced reason.** Throughout a run every cancellation is announced as it is
stored, exactly when no step of the run leaves something out. -/
theorem announced_throughout_iff (actions : List Action) :
    (∀ front, front <+: actions → ∀ orderID, Announced ((history front).verdict orderID)) ↔
      ∀ front a, front ++ [a] <+: actions → ¬ Misannounces (history front) a :=
  System.throughout_iff (fun _ => nofun) (fun _ a => announced_exec_iff a) actions

/-- An order whose authorization is never answered: its timeout fires, and both sides
acknowledge the compensation. -/
def unanswered : List Action :=
  [placeSingle, handleSingle 1 .inventoryReserved false 1,
    .tick [⟨1, .stockReserved, .authorize, 1, 1⟩] (fun _ _ => mintFrom 9000) (200 * second),
    handleSingle 2 .inventoryReleased false (201 * second),
    handleSingle 3 .paymentVoided false (202 * second)]

/-- The event of the unanswered order leaves out the failed step. -/
theorem announced_fails : ¬ ∀ actions orderID, Announced ((history actions).verdict orderID) := by
  intro announced
  have entry := announced unanswered 1 (some .paymentDeclined, none) (by decide +kernel)
  exact absurd entry.2 (by decide +kernel)

def branchReason (rows : Rows) (status : State) (trigger : Trigger) (retriable : Bool) :
    Option CancelReason :=
  match Saga.next status trigger (ctxOf rows.steps retriable) with
  | .ok d => d.reason
  | .error _ => none

/-- The reason an action gives for ending an order in a state: the event's own when it is
known, and otherwise that of the branch it takes. -/
def givenReason (rows : Rows) (status : State) : Action → Option CancelReason
  | .place .. => none
  | .handle e _ _ => do
    let body ← e.body
    let trigger ← triggerFor e.type
    knownReason body.reasonCode <|> branchReason rows status trigger body.retriable
  | .tick .. => branchReason rows status .timeout false
  | .cancel .. => some .customerCancelled

/-- The order is `PENDING` or `STOCK_RESERVED`. -/
def Verdict.early (v : Verdict) : Bool :=
  v.status == some .pending || v.status == some .stockReserved

/-- The order is being or has been cancelled. -/
def Verdict.ended (v : Verdict) : Bool :=
  v.status == some .compensating || v.status == some .cancelled

/-- The database, with the first reason given for each order. -/
structure Witnessed where
  db : Database := {}
  first : ID → Option (Option CancelReason) := fun _ => none

def Witnessed.exec (s : Witnessed) (a : Action) : Witnessed where
  db := s.db.exec a
  first := fun orderID =>
    if (s.db.verdict orderID).early && ((s.db.exec a).verdict orderID).ended then
      (s.db.verdict orderID).status.map fun status =>
        givenReason (s.db.focus orderID) status a
    else s.first orderID

/-- The actions, watched. -/
def witness (actions : List Action) : Witnessed := actions.foldl Witnessed.exec {}

/-- A cancelled order holds the reason of what ended it first. -/
def Kept (v : Verdict) (first : Option (Option CancelReason)) : Prop :=
  v.status = some .cancelled → first = some v.reason

/-- The action completes the compensation of an order that holds no reason, and names
another one than what ended it first. -/
def Overwrites (s : Witnessed) : Action → Prop
  | .handle e _ _ => ∃ orderID trigger body ord, Cancels s.db e orderID trigger body ord ∧
      ord.status = .compensating ∧ ord.cancellationReason = none ∧
      s.first orderID ≠ some (some ((knownReason body.reasonCode).getD .paymentDeclined))
  | _ => False

def testimony : System Witnessed Action := .ofFunction {} Witnessed.exec

theorem Witnessed.reachable_db (reached : testimony.Reachable s) :
    service.Reachable s.db := by
  induction reached with
  | init initial =>
    subst initial
    exact .init rfl
  | step _ taken ih =>
    subst taken
    exact ih.step rfl

theorem witness_db (actions : List Action) : (witness actions).db = history actions := by
  unfold witness history
  induction actions using List.reverseRecOn with
  | nil => rfl
  | append_singleton actions a ih =>
    rw [foldl_append, foldl_append, ← ih]
    rfl

/-- An order holds no reason before it ends, and while it compensates none but the first. -/
structure Reasoned (v : Verdict) (first : Option (Option CancelReason)) : Prop where
  before : v.status = none ∨ v.early = true → v.reason = none
  during : v.status = some .compensating → v.reason = none ∨ first = some v.reason

theorem Witnessed.first_of_late (late : (s.db.verdict orderID).early = false) :
    (s.exec a).first orderID = s.first orderID := by
  simp [Witnessed.exec, late]

theorem Witnessed.first_of_open (open' : ((s.db.exec a).verdict orderID).ended = false) :
    (s.exec a).first orderID = s.first orderID := by
  simp [Witnessed.exec, open']

theorem Witnessed.first_of_same (same : (s.db.exec a).verdict orderID = s.db.verdict orderID) :
    (s.exec a).first orderID = s.first orderID := by
  cases early : (s.db.verdict orderID).early with
  | false => exact first_of_late early
  | true =>
    apply first_of_open
    rw [same]
    simp only [Verdict.early, Bool.or_eq_true, beq_iff_eq] at early
    rcases early with held | held <;> simp [Verdict.ended, held]

theorem Witnessed.first_of_ended {status : State}
    (current : (s.db.verdict orderID).status = some status)
    (early : status = .pending ∨ status = .stockReserved)
    (ended : ((s.db.exec a).verdict orderID).ended = true) :
    (s.exec a).first orderID = some (givenReason (s.db.focus orderID) status a) := by
  have open' : (s.db.verdict orderID).early = true := by
    rcases early with rfl | rfl <;> simp [early, current]
  simp [Witnessed.exec, open', ended, current]

theorem reasoned_of_reachable (reached : testimony.Reachable s) (orderID : ID) :
    Reasoned (s.db.verdict orderID) (s.first orderID) := by
  induction reached with
  | init initial =>
    subst initial
    exact ⟨fun _ => rfl, nofun⟩
  | @step s t a reached taken ih =>
    obtain rfl : t = s.exec a := taken
    have turns := exec_turns (coherent_of_reachable (Witnessed.reachable_db reached) orderID) a
    change Reasoned ((s.db.exec a).verdict orderID) _
    generalize after : (s.db.exec a).verdict orderID = v at turns
    cases turns with
    | stay =>
      rw [Witnessed.first_of_same after]
      exact ih
    | place _ _ _ _ new => exact ⟨fun _ => rfl, nofun⟩
    | @event e mint now trigger body ord d named reacts =>
      obtain ⟨current, -, -⟩ := verdict_of_found reacts.found
      have course := reacts.decides.course
      by_cases same : d.next = ord.status
      · have stays : (s.db.verdict orderID).turn d body.reasonCode
            ((s.db.focus orderID).unseen mint.eventID) = s.db.verdict orderID :=
          if_pos (current.trans (congrArg some same.symm))
        rw [stays] at after ⊢
        rw [Witnessed.first_of_same after]
        exact ih
      · rw [turn, if_neg fun equal =>
          same (some.inj (current.symm.trans equal)).symm]
        constructor
        · intro before
          simp only [early, reduceCtorEq, false_or, Bool.or_eq_true, beq_iff_eq,
            some.injEq] at before
          rcases before with next | next
          · exact (same (next.trans (course.pending next).symm)).elim
          · rcases course.stockReserved next with origin | ⟨origin, -⟩
            · exact (same (next.trans origin.symm)).elim
            · simp only [next, reduceCtorEq, ↓reduceIte]
              exact ih.before (.inr (by simp [early, current, origin]))
        · intro during
          have next : d.next = .compensating := some.inj during
          apply Or.inl
          simp only [next, reduceCtorEq, ↓reduceIte]
          rcases course.compensating next with origin | origin | origin
          · exact (same (next.trans origin.symm)).elim
          · exact ih.before (.inr (by simp [early, current, origin]))
          · exact ih.before (.inr (by simp [early, current, origin]))
    | cancel userID mint now current early =>
      refine ⟨by simp [Verdict.cancel, Verdict.early], fun _ => .inr ?_⟩
      rw [Witnessed.first_of_ended current early (by rw [after]; rfl)]
      rfl
    | @fires claimed mint now status current early =>
      refine ⟨by simp [Verdict.timeout, Verdict.early], fun _ => ?_⟩
      rcases early with rfl | rfl | rfl
      · exact .inl (ih.before (.inr (by simp [Verdict.early, current])))
      · exact .inl (ih.before (.inr (by simp [Verdict.early, current])))
      · rw [Witnessed.first_of_late (by simp [early, current])]
        exact ih.during current

theorem givenReason_pending {trigger : Trigger} (cancels : Cancels db e orderID trigger body ord)
    (pending : ord.status = .pending) (mint : Mint) (now : Time) :
    givenReason (db.focus orderID) .pending (.handle e mint now) =
      (knownReason body.reasonCode <|> some .insufficientStock) := by
  have decided := cancels.reacts.decided
  rw [pending] at decided
  have branch : branchReason (db.focus orderID) .pending trigger body.retriable =
      some .insufficientStock := by
    simp only [branchReason, decided, cancelling, cancelReason]
  simp only [givenReason, cancels.parsed, cancels.modelled, bind_eq_bind, bind_some, branch]

theorem reason_cancelling (current : v.status = some ord.status) (live : ord.status ≠ .cancelled)
    (reasonCode : String) (unseen : Bool) :
    (v.turn (cancelling ord.status) reasonCode unseen).reason =
      pickReason (some (cancelReason ord.status)) reasonCode v.reason := by
  have moves : v.status ≠ some (cancelling ord.status).next := fun same =>
    live (some.inj (current.symm.trans same))
  rw [turn, if_neg moves]
  rfl

/-- A cancellation keeps the first reason of its order exactly when it does not overwrite
one. -/
theorem kept_cancelling_iff {mint : Mint} {now : Time} {trigger : Trigger}
    (reached : testimony.Reachable s) (cancels : Cancels s.db e orderID trigger body ord) :
    Kept ((s.exec (.handle e mint now)).db.verdict orderID)
        ((s.exec (.handle e mint now)).first orderID) ↔
      ¬ (ord.status = .compensating ∧ ord.cancellationReason = none ∧
        s.first orderID ≠ some (some ((knownReason body.reasonCode).getD .paymentDeclined))) := by
  have reasoned := reasoned_of_reachable reached orderID
  obtain ⟨current, reason, -⟩ := verdict_of_found cancels.found
  have after := cancels.reacts.exec_verdict cancels.owner mint now
  have stored := reason_cancelling current cancels.live body.reasonCode
    ((s.db.focus orderID).unseen mint.eventID)
  rw [← after] at stored
  have cancelled : ((s.db.exec (.handle e mint now)).verdict orderID).status = some .cancelled := by
    rw [after, turn]
    split
    case isTrue same => exact same
    case isFalse => rfl
  have kept : Kept ((s.exec (.handle e mint now)).db.verdict orderID)
      ((s.exec (.handle e mint now)).first orderID) ↔
      (s.exec (.handle e mint now)).first orderID =
        some (pickReason (some (cancelReason ord.status)) body.reasonCode
          (s.db.verdict orderID).reason) := by
    change (_ → _ = some ((s.db.exec (.handle e mint now)).verdict orderID).reason) ↔ _
    rw [stored]
    exact ⟨fun holds => holds cancelled, fun holds _ => holds⟩
  rw [kept]
  rcases cancels.early with held | held
  · have before : (s.db.verdict orderID).reason = none :=
      reasoned.before (.inr (by simp [early, current, held]))
    rw [Witnessed.first_of_ended current (.inl held) (by simp [ended, cancelled]), held,
      givenReason_pending cancels held, before]
    simp [pickReason, cancelReason]
  · rw [Witnessed.first_of_late (by simp [early, current, held]), held, reason]
    rcases reasoned.during (held ▸ current) with none' | first
    · rw [reason] at none'
      rw [none']
      cases known : knownReason body.reasonCode <;> simp [pickReason, cancelReason, known]
    · rw [reason] at first
      cases existing : ord.cancellationReason with
      | none =>
        rw [existing] at first
        cases known : knownReason body.reasonCode <;> simp [pickReason, first, known, cancelReason]
      | some kept =>
        rw [existing] at first
        simp [pickReason, first]

/-- One step keeps the first reason of every order exactly when it overwrites none. -/
theorem kept_exec_iff (a : Action) (reached : testimony.Reachable s)
    (kept : ∀ orderID, Kept (s.db.verdict orderID) (s.first orderID)) :
    (∀ orderID, Kept ((s.exec a).db.verdict orderID) ((s.exec a).first orderID)) ↔
      ¬ Overwrites s a := by
  constructor
  · intro after wrong
    cases a with
    | handle e mint now =>
      obtain ⟨orderID, trigger, body, ord, cancels, differs⟩ := wrong
      exact (kept_cancelling_iff reached cancels).mp (after orderID) differs
    | place | tick | cancel => exact wrong
  · intro right orderID
    have coherent := coherent_of_reachable (Witnessed.reachable_db reached) orderID
    have turns := exec_turns coherent a
    change Kept ((s.db.exec a).verdict orderID) _
    generalize after : (s.db.exec a).verdict orderID = v at turns
    cases turns with
    | stay =>
      rw [Witnessed.first_of_same after]
      exact kept orderID
    | place =>
      intro cancelled
      cases cancelled
    | @event e mint now trigger body ord d named reacts =>
      obtain ⟨current, -, -⟩ := verdict_of_found reacts.found
      by_cases dead : ord.status = .cancelled
      · have next : d.next = .cancelled :=
          (reacts.decides.terminal (by rw [dead]; rfl)).trans dead
        have stays : (s.db.verdict orderID).turn d body.reasonCode
            ((s.db.focus orderID).unseen mint.eventID) = s.db.verdict orderID :=
          if_pos (current.trans (congrArg some (dead.trans next.symm)))
        rw [stays] at after ⊢
        rw [Witnessed.first_of_same after]
        exact kept orderID
      · by_cases moves : d.next = .cancelled
        · obtain ⟨cancels, rfl⟩ := reacts.cancels named dead moves
          rw [← after]
          refine (kept_cancelling_iff reached cancels).mpr fun differs => right ?_
          exact ⟨orderID, trigger, body, ord, cancels, differs⟩
        · intro cancelled
          rw [turn] at cancelled
          split at cancelled
          · exact (dead (some.inj (current.symm.trans cancelled))).elim
          · exact (moves (some.inj cancelled)).elim
    | cancel | fires =>
      intro cancelled
      cases cancelled

/-- **The first failure's reason.** Throughout a run every cancelled order holds the reason
of what ended it first, exactly when no step of the run overwrites one. -/
theorem first_kept_throughout_iff (actions : List Action) :
    (∀ front, front <+: actions → ∀ orderID,
        Kept ((history front).verdict orderID) ((witness front).first orderID)) ↔
      ∀ front a, front ++ [a] <+: actions → ¬ Overwrites (witness front) a := by
  simp only [← witness_db]
  exact System.throughout_iff (fun _ => nofun) (fun _ a => kept_exec_iff a) actions

/-- The unanswered order ends because of its payment's timeout, and is stored as
declined. -/
theorem first_kept_fails : ¬ ∀ actions orderID,
    Kept ((history actions).verdict orderID) ((witness actions).first orderID) := by
  intro kept
  have timedOut : (witness unanswered).first 1 = some (some .paymentTimeout) := by decide +kernel
  have stored := kept unanswered 1 (by decide +kernel)
  rw [timedOut] at stored
  exact absurd stored (by decide +kernel)

end Souq.Orders
