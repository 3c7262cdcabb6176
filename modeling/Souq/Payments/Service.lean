import Souq.Payments.Store

/-!
# The payment operations

`Authorize`, `Capture` and `Void` of `payment-service/internal/service`, as saga
commands run them: a first transaction, a call to the provider, and a second
transaction that records the answer. Between the two an operation is a `Call`,
which waits for its answer and is lost in a crash.
-/

namespace Souq.Payments

open Transact

/-- How an operation fails. -/
inductive Err where
  | notFound
  | duplicate
  | versionStale
  | rejected
  | cannotCapture (state : State)
  | capturedCannotVoid
  | amountMismatch

abbrev Tx := Program dialect Err

/-- How the customer pays. -/
inductive PaymentMethod where
  | card
  | wallet
  | cashOnDelivery
  | installment

/-- What the service is configured with: its provider and the derivation of
provider keys from an operation, an order and the client's key. -/
structure Config where
  name : ProviderName
  supportsCapture : Option PaymentMethod → Bool
  derive : Operation → ID → ID → ID

/-- What the provider says. -/
inductive Outcome where
  | approved
  | declined
  | pending
  | unknown
  deriving DecidableEq

/-- The provider's answer. -/
structure Result where
  outcome : Outcome
  providerRef : Option ID := none
  authCode : Option String := none
  expiresAt : Option Time := none
  reasonCode : Option ReasonCode := none
  declineCode : Option String := none

/-- The ids that a transaction draws. -/
structure Mint where
  eventID : ID
  entryGroup : ID

/-- Claim a command for the inbox; `false` when it was already handled. -/
def claimEvent (eventID : ID) : Tx Bool :=
  Program.stmt (D := dialect) (.claimEvent eventID)

def getPaymentForUpdate (paymentID : ID) : Tx (Option Payment) :=
  Program.stmt (D := dialect) (.getPaymentForUpdate paymentID)

def orDuplicate : InsertAnswer → Tx Unit
  | .inserted => pure ()
  | .duplicate => .fail .duplicate
  | .rejected => .fail .rejected

def insertPayment (row : Payment) : Tx Unit :=
  Program.stmt (D := dialect) (.insertPayment row) >>= orDuplicate

def orStale : UpdateAnswer → Tx Unit
  | .updated => pure ()
  | .stale => .fail .versionStale
  | .rejected => .fail .rejected

/-- Advance the state of a payment with optimistic locking. -/
def updatePaymentState (row : Payment) (next : State) (fields : StateFields) : Tx Unit :=
  Program.stmt (D := dialect) (.updatePaymentState row.id row.version next fields) >>= orStale

def recordAttempt (attempt : Attempt) : Tx Unit :=
  Program.stmt (D := dialect) (.recordAttempt attempt)

/-- Go on after a write the database took, or give up. -/
def orReject (taken : Bool) : Tx Unit := if taken then pure () else .fail .rejected

def writeLedger (entry : LedgerEntry) : Tx Unit :=
  Program.stmt (D := dialect) (.writeLedger entry) >>= orReject

/-- Write an event into the outbox. -/
def emit (mint : Mint) (event : Event) : Tx Unit :=
  Program.stmt (D := dialect) (.enqueue ⟨mint.eventID, event⟩)

def eventFor (row : Payment) : Option Event :=
  match row.state with
  | .authorized => some (.authorized row.orderID row.id ⟨row.amount, row.currency⟩)
  | .captured => some (.captured row.orderID row.id ⟨row.capturedAmount, row.currency⟩)
  | .failed => some (.failed row.orderID row.id (some .cardDeclined) false)
  | .voided => some (.voided row.orderID row.id false)
  | _ => none

/-- Publish again the event that matches the state of a payment. -/
def emitForState (mint : Mint) (row : Payment) : Tx Unit :=
  match eventFor row with
  | some event => emit mint event
  | none => pure ()

def outcomeLabel : Outcome → AttemptOutcome
  | .approved | .pending => .success
  | .declined => .declined
  | .unknown => .unknown

/-- What is to be authorized. -/
structure AuthorizeCommand where
  orderID : ID
  paymentID : ID
  userID : ID
  amount : Money
  methodToken : String
  idempotencyKey : ID
  deriving DecidableEq

def newPayment (cfg : Config) (cmd : AuthorizeCommand) : Payment where
  id := cmd.paymentID
  orderID := cmd.orderID
  userID := some cmd.userID
  state := .pending
  amount := cmd.amount.amount
  currency := cmd.amount.currency
  provider := cfg.name
  methodToken := cmd.methodToken
  pspIdempotencyKey := cfg.derive .authorize cmd.orderID cmd.idempotencyKey

/-- The first transaction of `Authorize`; whether the provider is called. -/
def authorizeStart (cfg : Config) (mint : Mint) (eventID : ID) (cmd : AuthorizeCommand) :
    Tx Bool := do
  let fresh ← claimEvent eventID
  if fresh then do
    match ← getPaymentForUpdate cmd.paymentID with
    | some existing =>
      if existing.state ≠ .pending then do
        emitForState mint existing
        pure false
      else do
        updatePaymentState existing .authorizing {}
        pure true
    | none => do
      insertPayment (newPayment cfg cmd)
      updatePaymentState (newPayment cfg cmd) .authorizing {}
      pure true
  else pure false

/-- The second transaction of `Authorize`. -/
def authorizeFinish (cfg : Config) (mint : Mint) (cmd : AuthorizeCommand) (result : Result) :
    Tx Unit := do
  match ← getPaymentForUpdate cmd.paymentID with
  | none => .fail .notFound
  | some cur => do
    recordAttempt
      { paymentID := cmd.paymentID, operation := .authorize,
        pspKey := cfg.derive .authorize cmd.orderID cmd.idempotencyKey,
        outcome := outcomeLabel result.outcome, providerRef := result.providerRef }
    match result.outcome with
    | .approved => do
      updatePaymentState cur .authorized
        { providerAuthID := result.providerRef, authCode := result.authCode,
          authExpiresAt := result.expiresAt }
      emit mint (.authorized cur.orderID cur.id ⟨cur.amount, cur.currency⟩)
    | .pending | .unknown => pure ()
    | .declined => do
      let retriable := result.reasonCode.any ReasonCode.retriable
      updatePaymentState cur .failed
        { declineCode := result.declineCode, reasonCode := result.reasonCode,
          retriable := some retriable }
      emit mint (.failed cur.orderID cur.id result.reasonCode retriable)

/-- The first transaction of `Capture`; the payment to capture, if any. -/
def captureStart (mint : Mint) (eventID paymentID : ID) : Tx (Option Payment) := do
  let fresh ← claimEvent eventID
  if fresh then do
    match ← getPaymentForUpdate paymentID with
    | none => .fail .notFound
    | some pmt =>
      if pmt.state = .captured then do
        emit mint (.captured pmt.orderID pmt.id ⟨pmt.amount, pmt.currency⟩)
        pure none
      else if pmt.state ≠ .authorized then .fail (.cannotCapture pmt.state)
      else do
        updatePaymentState pmt .capturing {}
        pure (some pmt)
  else pure none

/-- The second transaction of `Capture`. -/
def settleCapture (mint : Mint) (paymentID pspKey : ID) (result : Result) : Tx Unit := do
  match ← getPaymentForUpdate paymentID with
  | none => .fail .notFound
  | some cur => do
    recordAttempt
      { paymentID := cur.id, operation := .capture, pspKey := pspKey,
        outcome := outcomeLabel result.outcome, providerRef := result.providerRef }
    if result.outcome ≠ .approved then pure ()
    else do
      updatePaymentState cur .captured
        { providerCaptureID := result.providerRef, capturedAmount := some cur.amount }
      writeLedger ⟨cur.id, cur.orderID, .pspClearing, .debit, cur.amount, cur.currency,
        mint.entryGroup⟩
      writeLedger ⟨cur.id, cur.orderID, .revenue, .credit, cur.amount, cur.currency,
        mint.entryGroup⟩
      emit mint (.captured cur.orderID cur.id ⟨cur.amount, cur.currency⟩)

/-- The row a `Void` writes for a payment nobody has seen. -/
def tombstone (cfg : Config) (orderID paymentID idempotencyKey : ID) : Payment where
  id := paymentID
  orderID := orderID
  state := .voided
  amount := 1
  currency := "EGP"
  provider := cfg.name
  methodToken := "tombstone"
  pspIdempotencyKey := cfg.derive .void orderID idempotencyKey

/-- The first transaction of `Void`; whether the provider is called. -/
def voidStart (cfg : Config) (mint : Mint) (eventID orderID paymentID idempotencyKey : ID) :
    Tx Bool := do
  let fresh ← claimEvent eventID
  if fresh then do
    match ← getPaymentForUpdate paymentID with
    | none => do
      insertPayment (tombstone cfg orderID paymentID idempotencyKey)
      emit mint (.voided orderID paymentID true)
      pure false
    | some pmt =>
      match pmt.state with
      | .voided | .failed => do
        emit mint (.voided orderID paymentID false)
        pure false
      | .captured => .fail .capturedCannotVoid
      | _ => pure true
  else pure false

/-- The second transaction of `Void`. -/
def voidFinish (mint : Mint) (orderID paymentID pspKey : ID) (result : Result) : Tx Unit := do
  match ← getPaymentForUpdate paymentID with
  | none => .fail .notFound
  | some cur => do
    recordAttempt
      { paymentID := cur.id, operation := .void, pspKey := pspKey,
        outcome := outcomeLabel result.outcome, providerRef := result.providerRef }
    if result.outcome ≠ .approved then pure ()
    else do
      updatePaymentState cur .voided {}
      emit mint (.voided orderID paymentID false)

/-- A command of the saga. -/
inductive Command where
  | authorize (cmd : AuthorizeCommand)
  | capture (orderID paymentID idempotencyKey : ID)
  | void (orderID paymentID idempotencyKey : ID)

/-- A call of the provider. -/
inductive Call where
  | authorize (cmd : AuthorizeCommand)
  | capture (orderID paymentID pspKey : ID) (providerAuthID : Option ID)
  | void (orderID paymentID pspKey : ID)
  deriving DecidableEq

/-- The first transaction of a command: the call to make, if any. -/
def Command.firstTx (cfg : Config) (mint : Mint) (eventID : ID) : Command → Tx (Option Call)
  | .authorize cmd => do
    let goes ← authorizeStart cfg mint eventID cmd
    pure (if goes then some (.authorize cmd) else none)
  | .capture orderID paymentID idempotencyKey => do
    let pmt ← captureStart mint eventID paymentID
    pure (pmt.map fun pmt => .capture orderID pmt.id
      (cfg.derive .capture orderID idempotencyKey) pmt.providerAuthID)
  | .void orderID paymentID idempotencyKey => do
    let goes ← voidStart cfg mint eventID orderID paymentID idempotencyKey
    pure (if goes then some (.void orderID paymentID (cfg.derive .void orderID idempotencyKey))
      else none)

/-- Run the first transaction of a command. A failure leaves the tables as they
are and the command to be delivered again. -/
def Command.start (cfg : Config) (mint : Mint) (eventID : ID) (command : Command)
    (db : Database) : Database × Option Call :=
  match (command.firstTx cfg mint eventID).run db with
  | (.ok call, after) => (after, call)
  | (.error _, _) => (db, none)

/-- Run the second transaction of an operation on the provider's answer. A rail
without a separate capture is captured without asking. -/
def Call.finish (cfg : Config) (mint : Mint) (result : Result) : Call → Database → Database
  | .authorize cmd, db => (authorizeFinish cfg mint cmd result).inTx db
  | .capture _ paymentID pspKey providerAuthID, db =>
    (settleCapture mint paymentID pspKey (if cfg.supportsCapture none then result
        else { outcome := .approved, providerRef := providerAuthID })).inTx db
  | .void orderID paymentID pspKey, db => (voidFinish mint orderID paymentID pspKey result).inTx db

end Souq.Payments
