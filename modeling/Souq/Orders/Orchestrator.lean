import Souq.Orders.Store

/-!
# The orchestrator's transactions

The transactions of `order-service/internal/orchestrator`: placing an order,
handling a participant's event, firing a timeout and cancelling on behalf of the
customer. Each is a program of the store's statements, in the order the source
sends them. The identifiers the source draws at random and the clock it reads
are arguments.
-/

namespace Souq.Orders

open Saga Transact Program

/-- How a transaction fails. -/
inductive Err where
  | permanent
  | illegal (err : ErrIllegalTransition)
  | notFound
  | notCancellable
  | duplicateKey
  | versionStale
  | rejected
  deriving DecidableEq

abbrev Tx := Program dialect Err

/-- The identifiers a transaction draws: one set for each command it emits and
one event id for the public event. -/
structure Mint where
  reservationID : Step → ID
  paymentID : Step → ID
  commandID : Step → ID
  eventID : ID

/-- The fields of an inbound event's payload that the orchestrator reads. -/
structure Body where
  orderID : Option ID
  reservationID : Option ID := none
  paymentID : Option ID := none
  reasonCode : String := ""
  retriable : Bool := false
  deriving DecidableEq

/-- An inbound event; `body` is `none` when the payload does not parse. -/
structure Envelope where
  id : ID
  type : EventType
  body : Option Body
  deriving DecidableEq

/-- The reason a participant's code stands for, when it is a known one. -/
def knownReason : String → Option CancelReason
  | "INSUFFICIENT_STOCK" => some .insufficientStock
  | "PAYMENT_DECLINED" => some .paymentDeclined
  | "PAYMENT_TIMEOUT" => some .paymentTimeout
  | "RESERVATION_TIMEOUT" => some .reservationTimeout
  | "CUSTOMER_CANCELLED" => some .customerCancelled
  | "FRAUD_REJECTED" => some .fraudRejected
  | _ => none

def pickReason (fromDecision : Option CancelReason) (fromEvent : String)
    (existing : Option CancelReason) : Option CancelReason :=
  existing <|> knownReason fromEvent <|> fromDecision

/-- The step an inbound event closes out. -/
def stepAckedBy : Trigger → Option Step
  | .reserved | .reserveFailed => some .reserve
  | .authorized | .authFailed => some .authorize
  | .committed => some .commit
  | .captured => some .capture
  | .released => some .release
  | .voided => some .void
  | .timeout => none

/-- Claim an event for the inbox; `false` when it was already handled. -/
def markProcessed (eventID : ID) : Tx Bool :=
  stmt (D := dialect) (.markProcessed eventID)

/-- Persist a new order and its lines; `false` when its key is taken. -/
def insertOrder (ord : Order) : Tx Bool :=
  stmt (D := dialect) (.insertOrder ord)

def selectOrder : Tx (Option Order) :=
  stmt (D := dialect) .selectOrder

def selectItems : Tx (List OrderItem) :=
  stmt (D := dialect) .selectItems

/-- Load an order and its lines; `none` when there is no such order. -/
def getOrder : Tx (Option Order) := do
  match ← selectOrder with
  | none => pure none
  | some ord => do
    let items ← selectItems
    pure (some { ord with items := items })

def selectSteps : Tx (List (Step × StepRow)) :=
  stmt (D := dialect) .selectSteps

/-- Persist the identifiers a command was sent with. -/
def fillIDs (reservationID paymentID : ID) : Tx Unit :=
  stmt (D := dialect) (.fillIDs reservationID paymentID)

/-- Write an event into the outbox. -/
def enqueue (record : OutboxRecord) : Tx Unit :=
  stmt (D := dialect) (.enqueue record)

/-- Upsert a step as `SENT` and set its deadline. -/
def recordStepSent (step : Step) (deadline : Option Time) (now : Time) : Tx Unit :=
  stmt (D := dialect) (.recordStepSent step deadline now)

/-- Close a step out and clear its deadline. -/
def recordStepAcked (step : Step) (eventID : Option ID) (now : Time) : Tx Unit :=
  stmt (D := dialect) (.recordStepAcked step eventID now)

def postponeStep (step : Step) (deadline : Time) : Tx Unit :=
  stmt (D := dialect) (.postponeStep step deadline)

/-- Find and lock the overdue rows of the order. -/
def claimOverdue (limit : Nat) (now : Time) : Tx (List OverdueOrder) :=
  stmt (D := dialect) (.claimOverdue limit now)

/-- The optimistic `UPDATE` of the order's status. -/
def writeStatus (expectVersion : Nat) (next : State) (fields : StatusFields) : Tx UpdateAnswer :=
  stmt (D := dialect) (.updateStatus expectVersion next fields)

/-- Advance the saga state with optimistic locking. -/
def updateStatus (ord : Order) (next : State) (fields : StatusFields) : Tx Unit := do
  match ← writeStatus ord.version next fields with
  | .updated => pure ()
  | .stale => .fail .versionStale
  | .rejected => .fail .rejected

def scanStep (c : Ctx) : Step × StepRow → Ctx
  | (.authorize, _) => { c with authorizeSent := true }
  | (.release, row) => if row.state = .acked then { c with inventorySettled := true } else c
  | (.void, row) => if row.state = .acked then { c with paymentSettled := true } else c
  | (.commit, row) | (.capture, row) =>
    if c.rollForwardAttempts < row.attempts then { c with rollForwardAttempts := row.attempts }
    else c
  | (.reserve, _) => c

/-- Assemble from the step rows what the machine needs beyond the state. -/
def buildCtx (retriable : Bool) : Tx Ctx := do
  let rows ← selectSteps
  pure (rows.foldl scanStep { paymentRetriable := retriable })

def payload (ord : Order) (reservationID paymentID : ID) : Step → Command
  | .reserve =>
    .reserve ord.id reservationID (ord.items.map fun item => (item.sku, item.quantity)) 900
  | .release =>
    .release ord.id reservationID (pickReason (some .paymentTimeout) "" ord.cancellationReason)
  | .commit => .commit ord.id reservationID
  | .authorize => .authorize ord.id paymentID ord.userID ord.total ord.paymentMethodToken
  | .capture => .capture ord.id paymentID ord.total
  | .void => .void ord.id paymentID "SAGA_COMPENSATION"

theorem payload_step (ord : Order) (reservationID paymentID : ID) (step : Step) :
    (payload ord reservationID paymentID step).step = step := by
  cases step <;> rfl

/-- Write a saga command to the outbox and record the step. -/
def emitCommand (mint : Mint) (now : Time) (ord : Order) (deadline : Duration) (step : Step) :
    Tx Unit := do
  let reservationID := ord.reservationID.getD (mint.reservationID step)
  let paymentID := ord.paymentID.getD (mint.paymentID step)
  fillIDs reservationID paymentID
  enqueue ⟨mint.commandID step, .command (payload ord reservationID paymentID step)⟩
  recordStepSent step (if deadline > 0 then some (now + deadline) else none) now

/-- Publish the public order event of a terminal transition. -/
def emitStateEvents (mint : Mint) (ord : Order) (d : Decision)
    (reservationID paymentID : Option ID) : Tx Unit :=
  match d.next with
  | .confirmed =>
    enqueue ⟨mint.eventID, .event (.confirmed ord.id ord.userID (paymentID <|> ord.paymentID)
      (reservationID <|> ord.reservationID) ord.total)⟩
  | .cancelled =>
    enqueue ⟨mint.eventID, .event (.cancelled ord.id ord.userID
      (pickReason d.reason "" ord.cancellationReason) d.failedStep)⟩
  | _ => pure ()

def acknowledge (now : Time) (trigger : Trigger) (eventID : Option ID) : Tx Unit :=
  match stepAckedBy trigger with
  | some step => recordStepAcked step eventID now
  | none => pure ()

/-- The columns a decision sets with the new status. -/
def statusFields (ord : Order) (d : Decision) (reservationID paymentID : Option ID)
    (reasonCode : String) : StatusFields where
  paymentID := paymentID
  reservationID := reservationID
  failedStep := d.failedStep
  cancellationReason :=
    if d.next = .cancelled then pickReason d.reason reasonCode ord.cancellationReason else none

def apply (mint : Mint) (now : Time) (ord : Order) (trigger : Trigger) (d : Decision)
    (eventID reservationID paymentID : Option ID) (reasonCode : String) : Tx Unit := do
  acknowledge now trigger eventID
  if d.ackOnly && d.next == ord.status && d.emit.isEmpty then pure ()
  else do
    if d.next = ord.status then pure ()
    else updateStatus ord d.next (statusFields ord d reservationID paymentID reasonCode)
    forEach (emitCommand mint now ord d.deadline) d.emit
    emitStateEvents mint ord d reservationID paymentID

/-- Decide on a trigger from the rows as they are and persist the decision. -/
def react (mint : Mint) (now : Time) (ord : Order) (trigger : Trigger) (e : Envelope)
    (body : Body) : Tx Unit := do
  let sctx ← buildCtx body.retriable
  match Saga.next ord.status trigger sctx with
  | .error err => .fail (.illegal err)
  | .ok decision =>
    apply mint now ord trigger decision (some e.id) body.reservationID body.paymentID
      body.reasonCode

/-- Apply one event from inventory-service or payment-service. -/
def handle (mint : Mint) (now : Time) (e : Envelope) : Tx Unit :=
  match triggerFor e.type with
  | none => pure ()
  | some trigger =>
    match e.body with
    | none => .fail .permanent
    | some body =>
      if body.orderID = none then .fail .permanent
      else do
        let fresh ← markProcessed e.id
        if fresh then
          match ← getOrder with
          | none => .fail .permanent
          | some ord => react mint now ord trigger e body
        else pure ()

def placeOrder (mint : Mint) (now : Time) (ord : Order) : Tx Unit := do
  let inserted ← insertOrder ord
  if inserted then
    forEach (emitCommand mint now ord start.deadline) start.emit
    enqueue ⟨mint.eventID, .event (.created ord)⟩
  else .fail .duplicateKey

def cancelOrder (mint : Mint) (now : Time) (userID : ID) : Tx Unit := do
  match ← getOrder with
  | none => .fail .notFound
  | some ord =>
    if ord.userID ≠ userID then .fail .notFound
    else if !ord.cancellable then .fail .notCancellable
    else do
      let sctx ← buildCtx false
      updateStatus ord .compensating { cancellationReason := some .customerCancelled }
      forEach (emitCommand mint now ord timeoutCompensating)
        (.release :: if sctx.authorizeSent then [.void] else [])

def fire (mint : Mint) (now : Time) (ov : OverdueOrder) : Tx Unit :=
  if rollbackForbidden ov.status && decide (maxRollForwardRetries ≤ ov.attempts) then
    postponeStep ov.step (now + 300 * second)
  else do
    match ← getOrder with
    | none => pure ()
    | some ord =>
      let sctx ← buildCtx false
      match Saga.next ord.status .timeout sctx with
      | .error err => .fail (.illegal err)
      | .ok decision =>
        if rollbackForbidden ord.status &&
            decision.emit.any (fun step => step == .release || step == .void) then pure ()
        else
          apply mint now ord .timeout decision none ord.reservationID ord.paymentID ""

/-- Fire one claimed row of a tick. An error of the machine is logged and the
sweep goes on; a statement the database refused dooms the whole transaction. -/
def sweep (mint : Mint) (now : Time) (ov : OverdueOrder) : Tx Unit := do
  match ← (fire mint now ov).attempt with
  | .error .rejected => .fail .rejected
  | _ => pure ()

/-- One sweep, as far as it concerns this order: of the rows it claims, at most
`limit` are this order's. -/
def tick (limit : Nat) (mint : Step → Mint) (now : Time) : Tx Unit := do
  let overdue ← claimOverdue limit now
  forEach (fun ov => sweep (mint ov.step) now ov) overdue

end Souq.Orders
