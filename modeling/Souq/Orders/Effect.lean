import Souq.Orders.Orchestrator

/-!
# What the orchestrator's transactions do when they run alone

Each transaction is reduced to a function on the rows: the step rows it closes
and sends, the status it sets and the messages it appends. Invariants are proved
from these functions and never from the programs.
-/

namespace Souq.Orders

open Saga Transact Program Function

def isAcked (row : Option StepRow) : Bool :=
  row.any fun row => row.state == .acked

/-- The context `buildCtx` assembles from the step rows. -/
def ctxOf (steps : Step → Option StepRow) (retriable : Bool) : Ctx where
  authorizeSent := (steps .authorize).isSome
  inventorySettled := isAcked (steps .release)
  paymentSettled := isAcked (steps .void)
  rollForwardAttempts := max ((steps .commit).elim 0 StepRow.attempts)
    ((steps .capture).elim 0 StepRow.attempts)
  paymentRetriable := retriable

@[simp] theorem run_markProcessed (rows : Rows) (eventID : ID) :
    (markProcessed eventID).run rows = (.ok (!rows.processed.contains eventID),
        if rows.processed.contains eventID then rows
        else { rows with processed := rows.processed ++ [eventID] }) := by
  change (Except.ok (!rows.processed.contains eventID),
    dialect.replay (if rows.processed.contains eventID then [] else [.processed eventID]) rows) = _
  split <;> rfl

@[simp] theorem run_selectOrder (rows : Rows) : selectOrder.run rows = (.ok rows.order, rows) := rfl

@[simp] theorem run_selectItems (rows : Rows) :
    selectItems.run rows = (.ok (rows.order.elim [] Order.items), rows) := rfl

@[simp] theorem run_selectSteps (rows : Rows) :
    selectSteps.run rows = (.ok rows.stepRows, rows) := rfl

@[simp] theorem run_claimOverdue (limit : Nat) (now : Time) (rows : Rows) :
    (claimOverdue limit now).run rows = (.ok ((rows.overdue now).take limit), rows) := rfl

@[simp] theorem run_getOrder (rows : Rows) : getOrder.run rows = (.ok rows.order, rows) := by
  cases found : rows.order with
  | none => simp [getOrder, found]
  | some ord => simp [getOrder, found]

theorem foldl_scanStep (rows : Rows) (retriable : Bool) :
    rows.stepRows.foldl scanStep { paymentRetriable := retriable } =
      ctxOf rows.steps retriable := by
  obtain ⟨order, steps, outbox, processed⟩ := rows
  simp only [Rows.stepRows, allSteps, List.filterMap_cons, List.filterMap_nil, ctxOf, isAcked]
  cases steps .reserve <;> cases steps .authorize <;> cases steps .commit <;>
    cases steps .capture <;> cases steps .release <;> cases steps .void <;>
      simp [scanStep] <;> grind

@[simp] theorem run_buildCtx (rows : Rows) (retriable : Bool) :
    (buildCtx retriable).run rows = (.ok (ctxOf rows.steps retriable), rows) := by
  simp [buildCtx, foldl_scanStep]

theorem run_insertOrder (rows : Rows) (ord : Order) :
    (insertOrder ord).run rows = (.ok rows.order.isNone,
      if rows.order.isNone then { rows with order := some ord } else rows) := by
  change (Except.ok rows.order.isNone,
    dialect.replay (if rows.order.isNone then [.order ord] else []) rows) = _
  split <;> rfl

@[simp] theorem run_recordStepAcked (rows : Rows) (step : Step) (eventID : Option ID)
    (now : Time) :
    (recordStepAcked step eventID now).run rows =
      (.ok (), { rows with
        steps := update rows.steps step
          (some (ackedRow (rows.steps step) eventID now)) }) := rfl

@[simp] theorem run_recordStepSent (rows : Rows) (step : Step) (deadline : Option Time)
    (now : Time) :
    (recordStepSent step deadline now).run rows =
      (.ok (), { rows with
        steps := update rows.steps step
          (some (sentRow (rows.steps step) deadline now)) }) := rfl

@[simp] theorem run_postponeStep (rows : Rows) (step : Step) (deadline : Time) :
    (postponeStep step deadline).run rows =
      (.ok (), { rows with
        steps := update rows.steps step
          ((rows.steps step).map fun row => { row with deadlineAt := some deadline }) }) := by
  change (Except.ok (), dialect.replay ((rows.steps step).map fun row =>
    Write.step step { row with deadlineAt := some deadline }).toList rows) = _
  cases found : rows.steps step with
  | none =>
    have same : update rows.steps step none = rows.steps := by
      rw [← found, update_eq_self]
    simp only [Option.map_none, same]
    rfl
  | some row => rfl

@[simp] theorem run_fillIDs (rows : Rows) (reservationID paymentID : ID) :
    (fillIDs reservationID paymentID).run rows =
      (.ok (), { rows with
        order := rows.order.map fun ord => ord.withIDs reservationID paymentID }) := by
  change (Except.ok (), dialect.replay (rows.order.map fun ord =>
    Write.order (ord.withIDs reservationID paymentID)).toList rows) = _
  obtain ⟨order, steps, outbox, processed⟩ := rows
  cases order <;> rfl

def enqueued (outbox : List OutboxRecord) (record : OutboxRecord) : List OutboxRecord :=
  if outbox.any fun other => other.eventID == record.eventID then outbox else outbox ++ [record]

@[simp] theorem run_enqueue (rows : Rows) (record : OutboxRecord) :
    (enqueue record).run rows = (.ok (), { rows with outbox := enqueued rows.outbox record }) := by
  change (Except.ok (), dialect.replay
    (if rows.outbox.any fun other => other.eventID == record.eventID then []
      else [.outbox record]) rows) = _
  unfold enqueued
  split <;> rfl

def deadlineAt (now : Time) (deadline : Duration) : Option Time :=
  if deadline > 0 then some (now + deadline) else none

def sendStep (now : Time) (deadline : Duration) (steps : Step → Option StepRow) (step : Step) :
    Step → Option StepRow :=
  update steps step (some (sentRow (steps step) (deadlineAt now deadline) now))

/-- The outbox row of a command, with the identifiers it falls back to. -/
def commandRecord (mint : Mint) (ord : Order) (step : Step) : OutboxRecord :=
  ⟨mint.commandID step, .command (payload ord (ord.reservationID.getD (mint.reservationID step))
    (ord.paymentID.getD (mint.paymentID step)) step)⟩

def emitted (mint : Mint) (now : Time) (ord : Order) (deadline : Duration) (rows : Rows)
    (step : Step) : Rows where
  order := rows.order.map fun row => row.withIDs
    (ord.reservationID.getD (mint.reservationID step)) (ord.paymentID.getD (mint.paymentID step))
  steps := sendStep now deadline rows.steps step
  outbox := enqueued rows.outbox (commandRecord mint ord step)
  processed := rows.processed

variable (mint : Mint) (now : Time)

@[simp] theorem run_emitCommand (ord : Order) (deadline : Duration) (step : Step) (rows : Rows) :
    (emitCommand mint now ord deadline step).run rows =
      (.ok (), emitted mint now ord deadline rows step) := by
  simp [emitCommand, emitted, sendStep, deadlineAt, commandRecord]

@[simp] theorem run_forEach_emitCommand (ord : Order) (deadline : Duration) (emit : List Step)
    (rows : Rows) :
    (forEach (emitCommand mint now ord deadline) emit).run rows =
      (.ok (), emit.foldl (emitted mint now ord deadline) rows) := by
  induction emit generalizing rows with
  | nil => rfl
  | cons step emit ih => simp [ih]

def ackSteps (now : Time) (trigger : Trigger) (eventID : Option ID)
    (steps : Step → Option StepRow) : Step → Option StepRow :=
  match stepAckedBy trigger with
  | some step => update steps step (some (ackedRow (steps step) eventID now))
  | none => steps

@[simp] theorem run_acknowledge (trigger : Trigger) (eventID : Option ID) (rows : Rows) :
    (acknowledge now trigger eventID).run rows =
      (.ok (), { rows with steps := ackSteps now trigger eventID rows.steps }) := by
  unfold acknowledge ackSteps
  cases stepAckedBy trigger <;> simp

def publicEvents (mint : Mint) (ord : Order) (d : Decision)
    (reservationID paymentID : Option ID) (outbox : List OutboxRecord) : List OutboxRecord :=
  match d.next with
  | .confirmed =>
    enqueued outbox ⟨mint.eventID, .event (.confirmed ord.id ord.userID
      (paymentID <|> ord.paymentID) (reservationID <|> ord.reservationID) ord.total)⟩
  | .cancelled =>
    enqueued outbox ⟨mint.eventID, .event (.cancelled ord.id ord.userID
      (pickReason d.reason "" ord.cancellationReason) d.failedStep)⟩
  | _ => outbox

@[simp] theorem run_emitStateEvents (ord : Order) (d : Decision)
    (reservationID paymentID : Option ID) (rows : Rows) :
    (emitStateEvents mint ord d reservationID paymentID).run rows =
      (.ok (), { rows with
        outbox := publicEvents mint ord d reservationID paymentID rows.outbox }) := by
  unfold emitStateEvents publicEvents
  cases d.next <;> simp

variable {rows : Rows} {ord : Order}

theorem run_writeStatus (found : rows.order = some ord) (next : State) (fields : StatusFields) :
    (writeStatus ord.version next fields).run rows =
      if (ord.withStatus next fields).admissible then
        (.ok .updated, { rows with order := some (ord.withStatus next fields) })
      else (.ok .rejected, rows) := by
  have matched : rows.matching ord.version = some ord := by simp [Rows.matching, found]
  change (Except.ok (Stmt.answer (.updateStatus ord.version next fields) rows),
    dialect.replay (Stmt.writes (.updateStatus ord.version next fields) rows) rows) = _
  simp only [Stmt.answer, Stmt.writes, matched]
  by_cases admitted : (ord.withStatus next fields).admissible = true
  · simp only [admitted, ↓reduceIte]
    rfl
  · simp only [admitted, Bool.false_eq_true, ↓reduceIte]
    rfl

theorem run_updateStatus (found : rows.order = some ord) (next : State) (fields : StatusFields) :
    (updateStatus ord next fields).run rows =
      if (ord.withStatus next fields).admissible then
        (.ok (), { rows with order := some (ord.withStatus next fields) })
      else (.error .rejected, rows) := by
  rw [updateStatus, run_bind, run_writeStatus found]
  by_cases admitted : (ord.withStatus next fields).admissible = true <;> simp [admitted]

/-- The decision leaves the order where it is and only closes a step. -/
def Quiet (ord : Order) (d : Decision) : Prop :=
  (d.ackOnly && d.next == ord.status && d.emit.isEmpty) = true

instance (ord : Order) (d : Decision) : Decidable (Quiet ord d) :=
  inferInstanceAs (Decidable (_ = true))

def statusRow (ord : Order) (d : Decision) (reservationID paymentID : Option ID)
    (reasonCode : String) : Order :=
  if d.next = ord.status then ord
  else ord.withStatus d.next (statusFields ord d reservationID paymentID reasonCode)

def persisted (mint : Mint) (now : Time) (ord : Order) (trigger : Trigger) (d : Decision)
    (eventID reservationID paymentID : Option ID) (reasonCode : String) (rows : Rows) : Rows :=
  let acked := { rows with steps := ackSteps now trigger eventID rows.steps }
  if Quiet ord d then acked
  else
    let sent := d.emit.foldl (emitted mint now ord d.deadline)
      { acked with order := some (statusRow ord d reservationID paymentID reasonCode) }
    { sent with outbox := publicEvents mint ord d reservationID paymentID sent.outbox }

/-- A `CHECK` refuses the row a decision would write. -/
def Refused (ord : Order) (d : Decision) (reservationID paymentID : Option ID)
    (reasonCode : String) : Prop :=
  d.next ≠ ord.status ∧ (ord.withStatus d.next
      (statusFields ord d reservationID paymentID reasonCode)).admissible = false

theorem run_apply (trigger : Trigger) (d : Decision) (eventID reservationID paymentID : Option ID)
    (reasonCode : String) (found : rows.order = some ord)
    (admitted : ¬ Refused ord d reservationID paymentID reasonCode) :
    (apply mint now ord trigger d eventID reservationID paymentID reasonCode).run rows =
      (.ok (), persisted mint now ord trigger d eventID reservationID paymentID reasonCode
      rows) := by
  by_cases quiet : Quiet ord d
  · have quiet' : (d.ackOnly && d.next == ord.status && d.emit.isEmpty) = true := quiet
    simp [apply, persisted, quiet, quiet']
  · have loud : (d.ackOnly && d.next == ord.status && d.emit.isEmpty) = false := by
      simpa only [Quiet, Bool.not_eq_true] using quiet
    by_cases same : d.next = ord.status
    · have busy : ¬ (d.ackOnly = true ∧ d.emit = []) := by simpa [same] using loud
      simp [apply, persisted, quiet, busy, same, statusRow, found]
    · have allowed : (ord.withStatus d.next
          (statusFields ord d reservationID paymentID reasonCode)).admissible = true := by
        simpa [Refused, same] using admitted
      have found' : ({ rows with steps := ackSteps now trigger eventID rows.steps } : Rows).order =
          some ord := found
      simp [apply, persisted, quiet, loud, same, statusRow, allowed, run_updateStatus found']

theorem run_apply_refused (trigger : Trigger) (d : Decision)
    (eventID reservationID paymentID : Option ID) (reasonCode : String)
    (found : rows.order = some ord) (refused : Refused ord d reservationID paymentID reasonCode) :
    (apply mint now ord trigger d eventID reservationID paymentID reasonCode).run rows =
      (.error .rejected, { rows with steps := ackSteps now trigger eventID rows.steps }) := by
  obtain ⟨moved, denied⟩ := refused
  have loud : (d.ackOnly && d.next == ord.status && d.emit.isEmpty) = false := by simp [moved]
  have found' : ({ rows with steps := ackSteps now trigger eventID rows.steps } : Rows).order =
      some ord := found
  simp [apply, loud, moved, denied, run_updateStatus found']

/-- An event is fresh, concerns the order and leads to a decision the database
accepts. -/
structure Reacts (e : Envelope) (rows : Rows) (trigger : Trigger) (body : Body) (ord : Order)
    (d : Decision) : Prop where
  modelled : triggerFor e.type = some trigger
  parsed : e.body = some body
  named : body.orderID ≠ none
  fresh : e.id ∉ rows.processed
  found : rows.order = some ord
  decided : Saga.next ord.status trigger (ctxOf rows.steps body.retriable) = .ok d
  admitted : ¬ Refused ord d body.reservationID body.paymentID body.reasonCode

def reacted (mint : Mint) (now : Time) (e : Envelope) (trigger : Trigger) (body : Body)
    (ord : Order) (d : Decision) (rows : Rows) : Rows :=
  persisted mint now ord trigger d (some e.id) body.reservationID body.paymentID body.reasonCode
    { rows with processed := rows.processed ++ [e.id] }

theorem Reacts.run {e : Envelope} {trigger : Trigger} {body : Body} {d : Decision}
    (reacts : Reacts e rows trigger body ord d) (mint : Mint) (now : Time) :
    (handle mint now e).run rows = (.ok (), reacted mint now e trigger body ord d rows) := by
  obtain ⟨modelled, parsed, named, fresh, found, decided, admitted⟩ := reacts
  have found' : ({ rows with processed := rows.processed ++ [e.id] } : Rows).order =
      some ord := found
  have applied := run_apply mint now trigger d (some e.id) body.reservationID body.paymentID
    body.reasonCode found' admitted
  simp only [found] at applied
  simp [handle, react, modelled, parsed, named, fresh, found, decided, applied, reacted]

theorem handle_inTx_cases (e : Envelope) (rows : Rows) :
    (handle mint now e).inTx rows = rows ∨ ∃ trigger body ord d, Reacts e rows trigger body ord d ∧
        (handle mint now e).inTx rows = reacted mint now e trigger body ord d rows := by
  by_cases reacts : ∃ trigger body ord d, Reacts e rows trigger body ord d
  · obtain ⟨trigger, body, ord, d, reacts⟩ := reacts
    exact .inr ⟨trigger, body, ord, d, reacts, inTx_of_ok (reacts.run mint now)⟩
  · left
    cases modelled : triggerFor e.type with
    | none => simp [handle, modelled, inTx]
    | some trigger =>
      cases parsed : e.body with
      | none => simp [handle, modelled, parsed, inTx]
      | some body =>
        by_cases named : body.orderID = none
        · simp [handle, modelled, parsed, named, inTx]
        · by_cases fresh : e.id ∈ rows.processed
          · simp [handle, modelled, parsed, named, fresh, inTx]
          · cases found : rows.order with
            | none => simp [handle, modelled, parsed, named, fresh, found, inTx]
            | some ord =>
              cases decided : Saga.next ord.status trigger (ctxOf rows.steps body.retriable) with
              | error err =>
                simp [handle, react, modelled, parsed, named, fresh, found, decided, inTx]
              | ok d =>
                by_cases refused : Refused ord d body.reservationID body.paymentID body.reasonCode
                · have found' : ({ rows with
                      processed := rows.processed ++ [e.id] } : Rows).order =
                      some ord := found
                  have failed := run_apply_refused mint now trigger d (some e.id)
                    body.reservationID body.paymentID body.reasonCode found' refused
                  simp only [found] at failed
                  simp [handle, react, modelled, parsed, named, fresh, found, decided, failed, inTx]
                · exact (reacts ⟨trigger, body, ord, d, modelled, parsed, named, fresh,
                    found, decided, refused⟩).elim

/-- A handler that meets an illegal transition has a fresh event about the order
that its status has no branch for. -/
theorem handle_illegal {mint : Mint} {now : Time} {e : Envelope} {err : ErrIllegalTransition}
    (illegal : ((handle mint now e).run rows).1 = .error (.illegal err)) :
    ∃ trigger body ord, triggerFor e.type = some trigger ∧ e.id ∉ rows.processed ∧
      rows.order = some ord ∧
      Saga.next ord.status trigger (ctxOf rows.steps body) = .error err := by
  cases modelled : triggerFor e.type with
  | none => simp [handle, modelled] at illegal
  | some trigger =>
    cases parsed : e.body with
    | none => simp [handle, modelled, parsed] at illegal
    | some body =>
      by_cases named : body.orderID = none
      · simp [handle, modelled, parsed, named] at illegal
      · by_cases fresh : e.id ∈ rows.processed
        · simp [handle, modelled, parsed, named, fresh] at illegal
        · cases found : rows.order with
          | none => simp [handle, modelled, parsed, named, fresh, found] at illegal
          | some ord =>
            cases decided : Saga.next ord.status trigger (ctxOf rows.steps body.retriable) with
            | error err' =>
              have same : err' = err := by
                simpa [handle, react, modelled, parsed, named, fresh, found, decided] using illegal
              exact ⟨trigger, body.retriable, ord, rfl, fresh, rfl, by rw [decided, same]⟩
            | ok d =>
              have found' : ({ rows with
                  processed := rows.processed ++ [e.id] } : Rows).order = some ord := found
              by_cases refused : Refused ord d body.reservationID body.paymentID body.reasonCode
              · have failed := run_apply_refused mint now trigger d (some e.id)
                  body.reservationID body.paymentID body.reasonCode found' refused
                simp only [found] at failed
                simp [handle, react, modelled, parsed, named, fresh, found, decided,
                  failed] at illegal
              · have applied := run_apply mint now trigger d (some e.id)
                  body.reservationID body.paymentID body.reasonCode found' refused
                simp only [found] at applied
                simp [handle, react, modelled, parsed, named, fresh, found, decided,
                  applied] at illegal

def onTimeout (status : State) (c : Ctx) : Decision :=
  match Saga.next status .timeout c with
  | .ok d => d
  | .error _ => { next := status, ackOnly := true }

theorem next_timeout (status : State) (c : Ctx) :
    Saga.next status .timeout c = .ok (onTimeout status c) := by
  cases status <;> rfl

theorem onTimeout_permitted (status : State) (c : Ctx) : (rollbackForbidden status &&
    (onTimeout status c).emit.any fun step => step == .release || step == .void) = false := by
  cases status <;> rfl

theorem onTimeout_not_refused (ord : Order) (c : Ctx) (reservationID paymentID : Option ID)
    (reasonCode : String) :
    ¬ Refused ord (onTimeout ord.status c) reservationID paymentID reasonCode := by
  rintro ⟨moved, denied⟩
  cases held : ord.status <;>
    simp [held, onTimeout, Saga.next, Order.admissible, Order.withStatus] at moved denied

/-- The claimed row calls for a human instead of another attempt. -/
def Escalates (ov : OverdueOrder) : Prop :=
  (rollbackForbidden ov.status && decide (maxRollForwardRetries ≤ ov.attempts)) = true

def timedOut (mint : Mint) (now : Time) (ord : Order) (rows : Rows) : Rows :=
  persisted mint now ord .timeout (onTimeout ord.status (ctxOf rows.steps false)) none
    ord.reservationID ord.paymentID "" rows

theorem run_fire {ov : OverdueOrder} (found : rows.order = some ord) (retries : ¬ Escalates ov) :
    (fire mint now ov).run rows = (.ok (), timedOut mint now ord rows) := by
  have calm : (rollbackForbidden ov.status && decide (maxRollForwardRetries ≤ ov.attempts)) =
      false := by simpa only [Escalates, Bool.not_eq_true] using retries
  have applied := run_apply mint now .timeout (onTimeout ord.status (ctxOf rows.steps false)) none
    ord.reservationID ord.paymentID "" found (onTimeout_not_refused ord _ _ _ _)
  have permitted := onTimeout_permitted ord.status (ctxOf rows.steps false)
  simp only [fire, calm, Bool.false_eq_true, ↓reduceIte, run_bind, run_getOrder, found,
    run_buildCtx, next_timeout, permitted, applied, timedOut]

def swept (mint : Mint) (now : Time) (rows : Rows) (ov : OverdueOrder) : Rows :=
  ((fire mint now ov).run rows).2

theorem swept_of_retry {ov : OverdueOrder} (found : rows.order = some ord)
    (retries : ¬ Escalates ov) :
    swept mint now rows ov = timedOut mint now ord rows := by
  rw [swept, run_fire mint now found retries]

theorem run_fire_ok (ov : OverdueOrder) (rows : Rows) :
    (fire mint now ov).run rows = (.ok (), swept mint now rows ov) := by
  refine Prod.ext ?_ rfl
  by_cases escalates : Escalates ov
  · have stuck : (rollbackForbidden ov.status &&
        decide (maxRollForwardRetries ≤ ov.attempts)) = true := escalates
    simp [fire, stuck]
  · cases found : rows.order with
    | some ord => rw [run_fire mint now found escalates]
    | none =>
      have calm : (rollbackForbidden ov.status &&
          decide (maxRollForwardRetries ≤ ov.attempts)) = false := by
        simpa only [Escalates, Bool.not_eq_true] using escalates
      simp only [fire, calm, Bool.false_eq_true, ↓reduceIte, run_bind, run_getOrder,
        found, run_pure]

@[simp] theorem run_sweep (ov : OverdueOrder) (rows : Rows) :
    (sweep mint now ov).run rows = (.ok (), swept mint now rows ov) := by
  simp [sweep, run_fire_ok]

theorem run_tick (limit : Nat) (mint : Step → Mint) (now : Time) (rows : Rows) :
    (tick limit mint now).run rows = (.ok (), ((rows.overdue now).take limit).foldl
        (fun rows ov => swept (mint ov.step) now rows ov) rows) := by
  have fired : ∀ (claimed : List OverdueOrder) (rows : Rows),
      (forEach (fun ov => sweep (mint ov.step) now ov) claimed).run rows =
        (.ok (), claimed.foldl (fun rows ov => swept (mint ov.step) now rows ov) rows) := by
    intro claimed
    induction claimed with
    | nil => intro rows; rfl
    | cons ov claimed ih => intro rows; simp [ih]
  simp [tick, fired]

def withdrawn (mint : Mint) (now : Time) (ord : Order) (rows : Rows) : Rows :=
  (Step.release :: if (ctxOf rows.steps false).authorizeSent then [.void] else []).foldl
    (emitted mint now ord timeoutCompensating)
    { rows with
      order := some (ord.withStatus .compensating
        { cancellationReason := some .customerCancelled }) }

theorem cancelOrder_inTx_cases (userID : ID) (rows : Rows) :
    (cancelOrder mint now userID).inTx rows = rows ∨
      ∃ ord, rows.order = some ord ∧ ord.userID = userID ∧ ord.cancellable = true ∧
        (cancelOrder mint now userID).inTx rows = withdrawn mint now ord rows := by
  cases found : rows.order with
  | none => exact .inl (by simp [cancelOrder, found, inTx])
  | some ord =>
    by_cases own : ord.userID = userID
    · by_cases open' : ord.cancellable = true
      · refine .inr ⟨ord, rfl, own, open', ?_⟩
        have admitted : (ord.withStatus .compensating
            { cancellationReason := some .customerCancelled }).admissible = true := by
          simp [Order.admissible, Order.withStatus]
        apply inTx_of_ok (a := ())
        simp only [cancelOrder, run_bind, run_getOrder, found, own, ne_eq, not_true,
          open', Bool.not_true, Bool.false_eq_true, ↓reduceIte, run_buildCtx,
          run_updateStatus found, admitted, run_forEach_emitCommand, withdrawn]
      · exact .inl (by simp [cancelOrder, found, own, open', inTx])
    · exact .inl (by simp [cancelOrder, found, own, inTx])

def placed (mint : Mint) (now : Time) (ord : Order) (rows : Rows) : Rows :=
  let sent := emitted mint now ord timeoutPending { rows with order := some ord } .reserve
  { sent with outbox := enqueued sent.outbox ⟨mint.eventID, .event (.created ord)⟩ }

theorem placeOrder_inTx_cases (ord : Order) (rows : Rows) :
    (placeOrder mint now ord).inTx rows = rows ∨
      rows.order = none ∧ (placeOrder mint now ord).inTx rows = placed mint now ord rows := by
  cases found : rows.order with
  | some other => exact .inl (by simp [placeOrder, run_insertOrder, found, inTx])
  | none =>
    refine .inr ⟨rfl, inTx_of_ok (a := ()) ?_⟩
    simp [placeOrder, run_insertOrder, found, start, placed]

end Souq.Orders
