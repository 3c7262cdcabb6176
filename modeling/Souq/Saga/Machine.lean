import Mathlib.Logic.Function.Basic

/-!
# The order saga's state machine

The pure decision function of `order-service/internal/saga/machine.go`. It maps
a state, a trigger and the facts the orchestrator reads from the step rows to
the decision the orchestrator persists, and refuses every pair it has no branch
for. Durations are microseconds, the resolution of a database timestamp; a zero
deadline means that the state entered has no timeout.
-/

namespace Souq.Saga

/-- A saga state; the values of `orders.status` this service writes. -/
inductive State where
  | pending
  | stockReserved
  | paid
  | stockCommitted
  | confirmed
  | compensating
  | cancelled
  deriving DecidableEq

/-- A command the orchestrator sends to a participant. -/
inductive Step where
  | reserve
  | authorize
  | commit
  | capture
  | release
  | void
  deriving DecidableEq

/-- What moves the machine: an inbound event, or a timeout. -/
inductive Trigger where
  | reserved
  | reserveFailed
  | released
  | committed
  | authorized
  | authFailed
  | captured
  | voided
  | timeout
  deriving DecidableEq

/-- Why an order was cancelled. -/
inductive CancelReason where
  | insufficientStock
  | paymentDeclined
  | paymentTimeout
  | reservationTimeout
  | customerCancelled
  | fraudRejected
  deriving DecidableEq

abbrev Duration := Nat

def second : Duration := 1000000

/-- How long a `PENDING` order waits for its reservation. -/
def timeoutPending : Duration := 30 * second

/-- How long a `STOCK_RESERVED` order waits for its authorization. -/
def timeoutStockReserved : Duration := 120 * second

/-- How long a `COMPENSATING` order waits for its acknowledgements. -/
def timeoutCompensating : Duration := 300 * second

/-- The pause before a `COMMIT` is sent again. -/
def retryCommitInterval : Duration := 5 * second

/-- The pause before a `CAPTURE` is sent again. -/
def retryCaptureInterval : Duration := 5 * second

/-- The number of roll-forward attempts after which a human is paged. -/
def maxRollForwardRetries : Nat := 5

/-- What the orchestrator should do as a result of a trigger. -/
structure Decision where
  next : State
  emit : List Step := []
  ackOnly : Bool := false
  reason : Option CancelReason := none
  failedStep : Option Step := none
  deadline : Duration := 0

/-- Everything the machine needs to know beyond the current state. -/
structure Ctx where
  authorizeSent : Bool := false
  inventorySettled : Bool := false
  paymentSettled : Bool := false
  rollForwardAttempts : Nat := 0
  paymentRetriable : Bool := false

/-- A trigger that the state does not take. -/
structure ErrIllegalTransition where
  origin : State
  trigger : Trigger
  deriving DecidableEq

/-- The decision for a freshly accepted order. -/
def start : Decision where
  next := .pending
  emit := [.reserve]
  deadline := timeoutPending

/-- Cancel once both participants have acknowledged, and wait otherwise. -/
def settleOrWait (c : Ctx) : Decision :=
  let paymentDone := c.paymentSettled || !c.authorizeSent
  if c.inventorySettled && paymentDone then
    { next := .cancelled, reason := some .paymentDeclined }
  else
    { next := .compensating, ackOnly := true }

def compensationsFor (c : Ctx) : List Step :=
  (if !c.inventorySettled then [.release] else []) ++
    (if c.authorizeSent && !c.paymentSettled then [.void] else [])

/-- Apply a trigger. Every pair without a branch is an illegal transition. -/
def next (origin : State) (t : Trigger) (c : Ctx) : Except ErrIllegalTransition Decision :=
  match origin with
  | .pending =>
    match t with
    | .reserved =>
      .ok { next := .stockReserved, emit := [.authorize], deadline := timeoutStockReserved }
    | .reserveFailed =>
      .ok { next := .cancelled, reason := some .insufficientStock, failedStep := some .reserve }
    | .timeout => .ok { next := .compensating, emit := [.release], deadline := timeoutCompensating }
    | .released | .voided => .ok { next := origin, ackOnly := true }
    | _ => .error ⟨origin, t⟩
  | .stockReserved =>
    match t with
    | .authorized => .ok { next := .paid, emit := [.commit], deadline := 0 }
    | .authFailed =>
      if c.paymentRetriable then
        .ok { next := origin, ackOnly := true }
      else
        .ok { next := .compensating, emit := [.release], reason := some .paymentDeclined,
              failedStep := some .authorize, deadline := timeoutCompensating }
    | .timeout =>
      .ok { next := .compensating, emit := [.release, .void], reason := some .paymentTimeout,
            failedStep := some .authorize, deadline := timeoutCompensating }
    | .reserved => .ok { next := origin, ackOnly := true }
    | _ => .error ⟨origin, t⟩
  | .paid =>
    match t with
    | .committed => .ok { next := .stockCommitted, emit := [.capture] }
    | .authorized => .ok { next := origin, ackOnly := true }
    | .timeout => .ok { next := origin, emit := [.commit], deadline := retryCommitInterval }
    | _ => .error ⟨origin, t⟩
  | .stockCommitted =>
    match t with
    | .captured => .ok { next := .confirmed }
    | .committed => .ok { next := origin, ackOnly := true }
    | .timeout => .ok { next := origin, emit := [.capture], deadline := retryCaptureInterval }
    | _ => .error ⟨origin, t⟩
  | .compensating =>
    match t with
    | .released | .reserveFailed => .ok (settleOrWait { c with inventorySettled := true })
    | .voided | .authFailed => .ok (settleOrWait { c with paymentSettled := true })
    | .reserved => .ok { next := origin, ackOnly := true }
    | .authorized =>
      if !c.authorizeSent then
        .ok { next := origin, ackOnly := true }
      else
        .ok { next := origin, emit := [.void], deadline := timeoutCompensating }
    | .timeout =>
      .ok { next := origin, emit := compensationsFor c, deadline := timeoutCompensating }
    | _ => .error ⟨origin, t⟩
  | .confirmed | .cancelled => .ok { next := origin, ackOnly := true }

/-- Whether no trigger leads on. -/
def isTerminal (s : State) : Bool :=
  s == .confirmed || s == .cancelled

/-- Whether the saga is past the point of no return. -/
def rollbackForbidden (s : State) : Bool :=
  s == .paid || s == .stockCommitted || s == .confirmed

/-- The CloudEvents types on the participants' topics. -/
inductive EventType where
  | inventoryReserved
  | inventoryReservationFailed
  | inventoryReleased
  | inventoryCommitted
  | paymentAuthorized
  | paymentFailed
  | paymentCaptured
  | paymentVoided
  | other (name : String)
  deriving DecidableEq

/-- The trigger an inbound event stands for; unmodelled types have none. -/
def triggerFor : EventType → Option Trigger
  | .inventoryReserved => some .reserved
  | .inventoryReservationFailed => some .reserveFailed
  | .inventoryReleased => some .released
  | .inventoryCommitted => some .committed
  | .paymentAuthorized => some .authorized
  | .paymentFailed => some .authFailed
  | .paymentCaptured => some .captured
  | .paymentVoided => some .voided
  | .other _ => none

end Souq.Saga
