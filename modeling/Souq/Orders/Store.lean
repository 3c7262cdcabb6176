import Mathlib.Data.List.Sort
import Souq.Basic
import Souq.Lib.Program
import Souq.Saga.Table

/-!
# The order-service database

The rows of one order in `orders`, `order_items`, `saga_steps`, `outbox` and
`processed_events`, and the SQL statements of `order-service/internal/store`
and of the orchestrator that read and write them. Every one of these statements
names its order, so the rows of one order are what a statement acts on.
-/

namespace Souq.Orders

open Saga Transact

/-- A line of an order. -/
structure OrderItem where
  lineNo : Nat
  sku : ID
  productID : ID
  title : String
  quantity : Int
  unitPrice : Money
  lineTotal : Money
  deriving DecidableEq

/-- The order aggregate: a row of `orders` with its lines. An identifier or
reason the database holds as `NULL` is `none`. -/
structure Order where
  id : ID
  userID : ID
  status : State
  items : List OrderItem
  subtotal : Money
  discountTotal : Money
  shippingTotal : Money
  taxTotal : Money
  total : Money
  paymentMethodToken : String
  paymentID : Option ID := none
  reservationID : Option ID := none
  cancellationReason : Option CancelReason := none
  failedStep : Option Step := none
  version : Nat := 0
  deriving DecidableEq

/-- Whether a customer may still cancel this order themselves. -/
def Order.cancellable (ord : Order) : Bool :=
  ord.status == .pending || ord.status == .stockReserved

/-- The `CHECK` constraints of `orders` that a status change can violate:
`cancelled_has_reason` and `confirmed_is_settled`. -/
def Order.admissible (ord : Order) : Bool :=
  (ord.status != .cancelled || ord.cancellationReason.isSome) &&
    (ord.status != .confirmed || (ord.paymentID.isSome && ord.reservationID.isSome))

/-- The values of `saga_steps.state`. -/
inductive StepState where
  | pending
  | sent
  | acked
  | failed
  | timedOut
  | skipped
  deriving DecidableEq

/-- A row of `saga_steps`. -/
structure StepRow where
  state : StepState
  attempts : Nat
  lastEventID : Option ID := none
  sentAt : Option Time := none
  ackedAt : Option Time := none
  deadlineAt : Option Time := none

/-- The payload of a saga command, with the identifiers it names. -/
inductive Command where
  | reserve (orderID reservationID : ID) (items : List (ID × Int)) (ttlSeconds : Nat)
  | release (orderID reservationID : ID) (reasonCode : Option CancelReason)
  | commit (orderID reservationID : ID)
  | authorize (orderID paymentID userID : ID) (amount : Money) (paymentMethodToken : String)
  | capture (orderID paymentID : ID) (amount : Money)
  | void (orderID paymentID : ID) (reasonCode : String)
  deriving DecidableEq

def Command.step : Command → Step
  | .reserve .. => .reserve
  | .release .. => .release
  | .commit .. => .commit
  | .authorize .. => .authorize
  | .capture .. => .capture
  | .void .. => .void

/-- An event of an order. -/
inductive OrderEvent where
  | created (ord : Order)
  | confirmed (orderID userID : ID) (paymentID reservationID : Option ID) (total : Money)
  | cancelled (orderID userID : ID) (reasonCode : Option CancelReason) (failedStep : Option Step)
  deriving DecidableEq

/-- What the outbox carries. -/
inductive Message where
  | command (c : Command)
  | event (e : OrderEvent)
  deriving DecidableEq

/-- A row of `outbox`. -/
structure OutboxRecord where
  eventID : ID
  message : Message
  deriving DecidableEq

/-- The step whose command the record carries. -/
def OutboxRecord.step (record : OutboxRecord) : Option Step :=
  match record.message with
  | .command c => some c.step
  | .event _ => none

/-- The rows of one order. -/
structure Rows where
  order : Option Order := none
  steps : Step → Option StepRow := fun _ => none
  outbox : List OutboxRecord := []
  processed : List ID := []

/-- The columns a status change may set beside the status. -/
structure StatusFields where
  paymentID : Option ID := none
  reservationID : Option ID := none
  cancellationReason : Option CancelReason := none
  failedStep : Option Step := none

/-- A step whose deadline has passed. -/
structure OverdueOrder where
  orderID : ID
  status : State
  step : Step
  version : Nat
  attempts : Nat
  deriving DecidableEq

def allSteps : List Step := [.reserve, .authorize, .commit, .capture, .release, .void]

/-- The statements order-service sends about one order. -/
inductive Stmt where
  | markProcessed (eventID : ID)
  | insertOrder (ord : Order)
  | selectOrder
  | selectItems
  | selectSteps
  | updateStatus (expectVersion : Nat) (next : State) (fields : StatusFields)
  | fillIDs (reservationID paymentID : ID)
  | recordStepSent (step : Step) (deadline : Option Time) (now : Time)
  | recordStepAcked (step : Step) (eventID : Option ID) (now : Time)
  | postponeStep (step : Step) (deadline : Time)
  | enqueue (record : OutboxRecord)
  | claimOverdue (limit : Nat) (now : Time)

/-- What `UPDATE orders ... WHERE id = $1 AND version = $2` can report. -/
inductive UpdateAnswer where
  | updated
  | stale
  | rejected

def Stmt.Answer : Stmt → Type
  | .markProcessed _ => Bool
  | .insertOrder _ => Bool
  | .selectOrder => Option Order
  | .selectItems => List OrderItem
  | .selectSteps => List (Step × StepRow)
  | .updateStatus .. => UpdateAnswer
  | .claimOverdue .. => List OverdueOrder
  | _ => Unit

/-- The row `UpdateStatus` writes: `COALESCE` keeps a column the caller leaves
empty. -/
def Order.withStatus (ord : Order) (next : State) (fields : StatusFields) : Order :=
  { ord with
    status := next
    paymentID := fields.paymentID <|> ord.paymentID
    reservationID := fields.reservationID <|> ord.reservationID
    cancellationReason := fields.cancellationReason <|> ord.cancellationReason
    failedStep := fields.failedStep <|> ord.failedStep
    version := ord.version + 1 }

/-- The row after the minted identifiers are persisted; existing ones win. -/
def Order.withIDs (ord : Order) (reservationID paymentID : ID) : Order :=
  { ord with
    reservationID := ord.reservationID <|> some reservationID
    paymentID := ord.paymentID <|> some paymentID }

/-- The row `RecordStepSent` upserts. -/
def sentRow (row : Option StepRow) (deadline : Option Time) (now : Time) : StepRow :=
  match row with
  | none => { state := .sent, attempts := 1, sentAt := some now, deadlineAt := deadline }
  | some row =>
    { row with
      state := .sent
      attempts := row.attempts + 1
      sentAt := some now
      deadlineAt := deadline }

/-- The row `RecordStepAcked` upserts. -/
def ackedRow (row : Option StepRow) (eventID : Option ID) (now : Time) : StepRow :=
  match row with
  | none => { state := .acked, attempts := 1, ackedAt := some now, lastEventID := eventID }
  | some row =>
    { row with
      state := .acked
      ackedAt := some now
      lastEventID := eventID
      deadlineAt := none }

def StepRow.armed (row : StepRow) : Bool :=
  row.state == .sent && row.deadlineAt.isSome

/-- A step row is waiting for a reply past its deadline. -/
def StepRow.overdue (row : StepRow) (now : Time) : Bool :=
  row.state == .sent && row.deadlineAt.any (· < now)

/-- The step rows of the order, in the order the table returns them. -/
def Rows.stepRows (rows : Rows) : List (Step × StepRow) :=
  allSteps.filterMap fun step => (rows.steps step).map fun row => (step, row)

/-- The rows `ClaimOverdue` finds for this order, earliest deadline first. -/
def Rows.overdue (rows : Rows) (now : Time) : List OverdueOrder :=
  match rows.order with
  | none => []
  | some ord =>
    if isTerminal ord.status then []
    else
      ((rows.stepRows.filter fun entry => entry.2.overdue now).insertionSort
        fun a b => a.2.deadlineAt.getD 0 ≤ b.2.deadlineAt.getD 0).map fun entry =>
          { orderID := ord.id, status := ord.status, step := entry.1, version := ord.version,
            attempts := entry.2.attempts }

/-- What a statement writes. -/
inductive Write where
  | order (ord : Order)
  | step (step : Step) (row : StepRow)
  | outbox (record : OutboxRecord)
  | processed (eventID : ID)

/-- The row locks the statements take. -/
inductive Key where
  | order
  | step (step : Step)
  | inbox (eventID : ID)
  | outbox (eventID : ID)
  deriving DecidableEq

def Write.put : Write → Rows → Rows
  | .order ord, rows => { rows with order := some ord }
  | .step s row, rows => { rows with steps := Function.update rows.steps s (some row) }
  | .outbox record, rows => { rows with outbox := rows.outbox ++ [record] }
  | .processed eventID, rows => { rows with processed := rows.processed ++ [eventID] }

/-- The order row with the version an optimistic update expects. -/
def Rows.matching (rows : Rows) (expectVersion : Nat) : Option Order :=
  rows.order.filter fun ord => ord.version == expectVersion

/-- What a statement answers on the rows it sees. -/
def Stmt.answer : (q : Stmt) → Rows → q.Answer
  | .markProcessed eventID, rows => !rows.processed.contains eventID
  | .insertOrder _, rows => rows.order.isNone
  | .selectOrder, rows => rows.order
  | .selectItems, rows => rows.order.elim [] Order.items
  | .selectSteps, rows => rows.stepRows
  | .updateStatus expectVersion next fields, rows =>
    match rows.matching expectVersion with
    | none => UpdateAnswer.stale
    | some ord =>
      if (ord.withStatus next fields).admissible then UpdateAnswer.updated
      else UpdateAnswer.rejected
  | .claimOverdue limit now, rows => (rows.overdue now).take limit
  | .fillIDs .., _ => ()
  | .recordStepSent .., _ => ()
  | .recordStepAcked .., _ => ()
  | .postponeStep .., _ => ()
  | .enqueue _, _ => ()

/-- The row versions a statement writes, given the rows it sees. -/
def Stmt.writes : Stmt → Rows → List Write
  | .markProcessed eventID, rows =>
    if rows.processed.contains eventID then [] else [.processed eventID]
  | .insertOrder ord, rows => if rows.order.isNone then [.order ord] else []
  | .updateStatus expectVersion next fields, rows =>
    match rows.matching expectVersion with
    | none => []
    | some ord =>
      if (ord.withStatus next fields).admissible then [.order (ord.withStatus next fields)] else []
  | .fillIDs reservationID paymentID, rows =>
    (rows.order.map fun ord => Write.order (ord.withIDs reservationID paymentID)).toList
  | .recordStepSent step deadline now, rows => [.step step (sentRow (rows.steps step) deadline now)]
  | .recordStepAcked step eventID now, rows => [.step step (ackedRow (rows.steps step) eventID now)]
  | .postponeStep step deadline, rows =>
    ((rows.steps step).map fun row =>
      Write.step step { row with deadlineAt := some deadline }).toList
  | .enqueue record, rows =>
    if rows.outbox.any fun other => other.eventID == record.eventID then [] else [.outbox record]
  | .selectOrder, _ => []
  | .selectItems, _ => []
  | .selectSteps, _ => []
  | .claimOverdue .., _ => []

/-- The rows a statement locks, given the rows it sees. -/
def Stmt.keys : Stmt → Rows → List Key
  | .markProcessed eventID, rows => if rows.processed.contains eventID then [] else [.inbox eventID]
  | .insertOrder _, _ => [.order]
  | .updateStatus expectVersion _ _, rows =>
    if (rows.matching expectVersion).isSome then [.order] else []
  | .fillIDs .., rows => if rows.order.isSome then [.order] else []
  | .recordStepSent step _ _, _ => [.step step]
  | .recordStepAcked step _ _, _ => [.step step]
  | .postponeStep step _, _ => [.step step]
  | .claimOverdue limit now, rows =>
    if ((rows.overdue now).take limit).isEmpty then [] else [.order]
  | .enqueue record, _ => [.outbox record.eventID]
  | .selectOrder, _ => []
  | .selectItems, _ => []
  | .selectSteps, _ => []

/-- Only the sweeper's claim skips locked rows. -/
def Stmt.skip : (q : Stmt) → Option q.Answer
  | .claimOverdue .. => some []
  | _ => none

/-- The statements of order-service as a dialect. -/
abbrev dialect : Dialect where
  Db := Rows
  Stmt := Stmt
  Answer := Stmt.Answer
  Write := Write
  Key := Key
  answer := Stmt.answer
  writes := Stmt.writes
  put := Write.put
  keys := Stmt.keys
  skip := Stmt.skip

end Souq.Orders
