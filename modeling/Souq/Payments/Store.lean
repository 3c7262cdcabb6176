import Souq.Basic
import Souq.Lib.Program
import Souq.Lib.Table

/-!
# The payment-service database

The tables of `payment-service/migrations` and the SQL statements of
`payment-service/internal/store`. The provider's references and the derived
idempotency keys are only stored and compared, so they are numbers; a `NULL` is
`none`. The payment method is no column: a loaded payment has none.
-/

namespace Souq.Payments

open Transact Table

/-- The values of `payments.state`. -/
inductive State where
  | pending
  | authorizing
  | authorized
  | capturing
  | captured
  | voided
  | failed
  | refunded
  | partiallyRefunded
  deriving DecidableEq

/-- The providers by their names. -/
inductive ProviderName where
  | stripe
  | adyen
  | checkout
  | mock
  | paymob
  deriving DecidableEq

/-- Why a payment was refused. -/
inductive ReasonCode where
  | insufficientFunds
  | cardDeclined
  | cardExpired
  | invalidCVC
  | fraudSuspected
  | threeDSFailed
  | providerUnavailable
  | authorizationExpired
  deriving DecidableEq

/-- Whether the saga should back off and try again. -/
def ReasonCode.retriable (reason : ReasonCode) : Bool := reason == .providerUnavailable

/-- A row of `payments`. -/
structure Payment where
  id : ID
  orderID : ID
  userID : Option ID := none
  state : State
  amount : Int
  currency : String
  capturedAmount : Int := 0
  refundedAmount : Int := 0
  provider : ProviderName
  methodToken : String
  pspIdempotencyKey : ID
  providerAuthID : Option ID := none
  providerCaptureID : Option ID := none
  authCode : Option String := none
  declineCode : Option String := none
  reasonCode : Option ReasonCode := none
  retriable : Option Bool := none
  authExpiresAt : Option Time := none
  version : Nat := 0
  deriving DecidableEq

/-- The `CHECK` on `payments.provider`. -/
def ProviderName.accepted (name : ProviderName) : Bool :=
  name == .stripe || name == .adyen || name == .checkout || name == .mock

/-- The `CHECK` constraints of `payments` and the width of its currency column. -/
def Payment.admissible (row : Payment) : Bool :=
  decide (0 < row.amount) && decide (0 ≤ row.capturedAmount) && decide (0 ≤ row.refundedAmount) &&
    decide (row.capturedAmount ≤ row.amount) && decide (row.refundedAmount ≤ row.capturedAmount) &&
    row.provider.accepted && decide (row.currency.length ≤ 3)

/-- The columns a state change may set beside the state. -/
structure StateFields where
  providerAuthID : Option ID := none
  providerCaptureID : Option ID := none
  authCode : Option String := none
  declineCode : Option String := none
  reasonCode : Option ReasonCode := none
  retriable : Option Bool := none
  capturedAmount : Option Int := none
  authExpiresAt : Option Time := none

/-- The row `UpdatePaymentState` writes. -/
def Payment.withState (row : Payment) (next : State) (fields : StateFields) : Payment :=
  { row with
    state := next
    providerAuthID := fields.providerAuthID <|> row.providerAuthID
    providerCaptureID := fields.providerCaptureID <|> row.providerCaptureID
    authCode := fields.authCode <|> row.authCode
    declineCode := fields.declineCode <|> row.declineCode
    reasonCode := fields.reasonCode <|> row.reasonCode
    retriable := fields.retriable <|> row.retriable
    capturedAmount := fields.capturedAmount.getD row.capturedAmount
    authExpiresAt := fields.authExpiresAt <|> row.authExpiresAt
    version := row.version + 1 }

/-- What a provider is asked for. -/
inductive Operation where
  | authorize
  | capture
  | void

/-- The values of `payment_attempts.outcome` the service writes. -/
inductive AttemptOutcome where
  | success
  | declined
  | unknown

/-- A row of `payment_attempts`. -/
structure Attempt where
  paymentID : ID
  operation : Operation
  pspKey : ID
  outcome : AttemptOutcome
  providerRef : Option ID := none

/-- An account of the ledger. -/
inductive Account where
  | pspClearing
  | revenue
  deriving DecidableEq

/-- The side of an entry. -/
inductive Direction where
  | debit
  | credit
  deriving DecidableEq

/-- A row of `ledger_entries`. -/
structure LedgerEntry where
  paymentID : ID
  orderID : ID
  account : Account
  direction : Direction
  amount : Int
  currency : String
  entryGroup : ID

/-- The events on `souq.payment.events.v1`. -/
inductive Event where
  | authorized (orderID paymentID : ID) (amount : Money)
  | failed (orderID paymentID : ID) (reasonCode : Option ReasonCode) (retriable : Bool)
  | captured (orderID paymentID : ID) (amount : Money)
  | voided (orderID paymentID : ID) (wasTombstone : Bool)
  deriving DecidableEq

/-- A row of `outbox`. -/
structure OutboxRecord where
  eventID : ID
  event : Event
  deriving DecidableEq

/-- The tables of the service. -/
structure Database where
  payments : List Payment := []
  attempts : List Attempt := []
  ledger : List LedgerEntry := []
  outbox : List OutboxRecord := []
  processed : List ID := []

/-- A statement of the store. -/
inductive Stmt where
  | claimEvent (eventID : ID)
  | getPaymentForUpdate (paymentID : ID)
  | insertPayment (row : Payment)
  | updatePaymentState (paymentID : ID) (expectVersion : Nat) (next : State) (fields : StateFields)
  | recordAttempt (attempt : Attempt)
  | writeLedger (entry : LedgerEntry)
  | enqueue (record : OutboxRecord)

/-- What an `INSERT` reports. -/
inductive InsertAnswer where
  | inserted
  | duplicate
  | rejected
  deriving DecidableEq

/-- What an optimistic `UPDATE` reports. -/
inductive UpdateAnswer where
  | updated
  | stale
  | rejected

def Stmt.Answer : Stmt → Type
  | .claimEvent _ => Bool
  | .getPaymentForUpdate _ => Option Payment
  | .insertPayment _ => InsertAnswer
  | .updatePaymentState .. => UpdateAnswer
  | .writeLedger _ => Bool
  | .recordAttempt _ => Unit
  | .enqueue _ => Unit

namespace Database

/-- The row of a payment. -/
def payment (db : Database) (paymentID : ID) : Option Payment :=
  find Payment.id db.payments paymentID

/-- The payment of an order; `payments_order_uniq` allows one. -/
def paymentOf (db : Database) (orderID : ID) : Option Payment :=
  find Payment.orderID db.payments orderID

/-- The outcome of an insert into `payments`. -/
def inserting (db : Database) (row : Payment) : InsertAnswer :=
  if (db.payment row.id).isSome || (db.paymentOf row.orderID).isSome ||
      (find Payment.pspIdempotencyKey db.payments row.pspIdempotencyKey).isSome then
    .duplicate
  else if row.admissible then .inserted
  else .rejected

def matching (db : Database) (paymentID : ID) (expectVersion : Nat) : Option Payment :=
  (db.payment paymentID).filter fun row => row.version == expectVersion

end Database

/-- The `CHECK` on `ledger_entries.amount` and the width of its currency column. -/
def LedgerEntry.admissible (entry : LedgerEntry) : Bool :=
  decide (0 < entry.amount) && decide (entry.currency.length ≤ 3)

/-- What a statement writes. -/
inductive Write where
  | payment (row : Payment)
  | attempt (row : Attempt)
  | ledger (entry : LedgerEntry)
  | outbox (record : OutboxRecord)
  | processed (eventID : ID)

/-- The row locks the statements take. -/
inductive Key where
  | payment (id : ID)
  | order (orderID : ID)
  | pspKey (key : ID)
  | inbox (eventID : ID)
  | outbox (eventID : ID)

def Write.put : Write → Database → Database
  | .payment row, db => { db with payments := upsert Payment.id row db.payments }
  | .attempt row, db => { db with attempts := db.attempts ++ [row] }
  | .ledger entry, db => { db with ledger := db.ledger ++ [entry] }
  | .outbox record, db =>
    { db with outbox := insertNew OutboxRecord.eventID db.outbox record }
  | .processed eventID, db => { db with processed := db.processed ++ [eventID] }

/-- What a statement answers on the tables it sees. -/
def Stmt.answer : (q : Stmt) → Database → q.Answer
  | .claimEvent eventID, db => !db.processed.contains eventID
  | .getPaymentForUpdate paymentID, db => db.payment paymentID
  | .insertPayment row, db => db.inserting row
  | .updatePaymentState paymentID expectVersion next fields, db =>
    match db.matching paymentID expectVersion with
    | none => UpdateAnswer.stale
    | some row =>
      if (row.withState next fields).admissible then UpdateAnswer.updated
      else UpdateAnswer.rejected
  | .writeLedger entry, _ => entry.admissible
  | .recordAttempt _, _ => ()
  | .enqueue _, _ => ()

/-- The row versions a statement writes, given the tables it sees. -/
def Stmt.writes : Stmt → Database → List Write
  | .claimEvent eventID, db => if db.processed.contains eventID then [] else [.processed eventID]
  | .insertPayment row, db => if db.inserting row = .inserted then [.payment row] else []
  | .updatePaymentState paymentID expectVersion next fields, db =>
    match db.matching paymentID expectVersion with
    | none => []
    | some row =>
      if (row.withState next fields).admissible then [.payment (row.withState next fields)] else []
  | .recordAttempt attempt, _ => [.attempt attempt]
  | .writeLedger entry, _ => if entry.admissible then [.ledger entry] else []
  | .enqueue record, _ => [.outbox record]
  | .getPaymentForUpdate _, _ => []

/-- The rows a statement locks, given the tables it sees. -/
def Stmt.keys : Stmt → Database → List Key
  | .claimEvent eventID, db => if db.processed.contains eventID then [] else [.inbox eventID]
  | .getPaymentForUpdate paymentID, db =>
    if (db.payment paymentID).isSome then [.payment paymentID] else []
  | .insertPayment row, _ => [.payment row.id, .order row.orderID, .pspKey row.pspIdempotencyKey]
  | .updatePaymentState paymentID expectVersion _ _, db =>
    if (db.matching paymentID expectVersion).isSome then [.payment paymentID] else []
  | .enqueue record, _ => [.outbox record.eventID]
  | .recordAttempt _, _ => []
  | .writeLedger _, _ => []

/-- The statements of payment-service as a dialect; none skips locked rows. -/
abbrev dialect : Dialect where
  Db := Database
  Stmt := Stmt
  Answer := Stmt.Answer
  Write := Write
  Key := Key
  answer := Stmt.answer
  writes := Stmt.writes
  put := Write.put
  keys := Stmt.keys
  skip := fun _ => none

end Souq.Payments
