import Souq.Lib.Transition
import Souq.Orders.Effect

/-!
# The order-service database and its runs

All orders together: the rows of each and the one inbox they share. A run is any
sequence of transactions, each executed alone, with any event contents, any
clock readings and any identifiers drawn.
-/

namespace Souq.Orders

open Saga Transact Transition

/-- The rows of every order, and the inbox. -/
structure Database where
  tables : ID → Rows := fun _ => {}
  processed : List ID := []

namespace Database

/-- What a transaction about one order sees. -/
def focus (db : Database) (orderID : ID) : Rows :=
  { db.tables orderID with processed := db.processed }

def store (db : Database) (orderID : ID) (rows : Rows) : Database where
  tables := Function.update db.tables orderID { rows with processed := [] }
  processed := rows.processed

/-- Run a transaction about one order. -/
def transact (db : Database) (orderID : ID) (p : Tx Unit) : Database :=
  db.store orderID (p.inTx (db.focus orderID))

end Database

/-- What a checkout request supplies to a new order. -/
structure PlaceOrderInput where
  userID : ID
  items : List OrderItem
  subtotal : Money
  discountTotal : Money
  shippingTotal : Money
  taxTotal : Money
  paymentMethodToken : String

/-- The order a checkout request creates. -/
def newOrder (id : ID) (input : PlaceOrderInput) (total : Money) : Order where
  id := id
  userID := input.userID
  status := .pending
  items := input.items
  subtotal := input.subtotal
  discountTotal := input.discountTotal
  shippingTotal := input.shippingTotal
  taxTotal := input.taxTotal
  total := total
  paymentMethodToken := input.paymentMethodToken

/-- How many rows one sweep claims at most. -/
def sweepBatch : Nat := 50

namespace Database

def deadlineOf (db : Database) (ov : OverdueOrder) : Time :=
  (((db.tables ov.orderID).steps ov.step).bind StepRow.deadlineAt).getD 0

/-- What `ClaimOverdue` may return: rows of the join as it stands, each step row
once, earliest deadline first, at most a batch. The rows of an order that another
transaction has locked are missing; of any other order a row is missing only when
it lies behind a full batch. -/
def claimable (db : Database) (now : Time) (claimed : List OverdueOrder) : Bool :=
  decide (claimed.length ≤ sweepBatch) &&
    claimed.all (fun ov => decide (ov ∈ (db.tables ov.orderID).overdue now)) &&
    decide (claimed.map fun ov => (ov.orderID, ov.step)).Nodup &&
    decide (claimed.Pairwise fun a b => db.deadlineOf a ≤ db.deadlineOf b) &&
    claimed.all (fun ov => ((db.tables ov.orderID).overdue now).all fun other =>
      decide (other ∈ claimed) || decide (claimed.length = sweepBatch) &&
        claimed.all fun taken => decide (db.deadlineOf taken ≤ db.deadlineOf other))

def sweepAll (mint : ID → Step → Mint) (now : Time) :
    List OverdueOrder → Database → Except Err Database
  | [], db => .ok db
  | ov :: claimed, db =>
    match (sweep (mint ov.orderID ov.step) now ov).run (db.focus ov.orderID) with
    | (.ok (), rows) => sweepAll mint now claimed (db.store ov.orderID rows)
    | (.error err, _) => .error err

def tick (db : Database) (mint : ID → Step → Mint) (now : Time) (claimed : List OverdueOrder) :
    Database :=
  if db.claimable now claimed then
    match db.sweepAll mint now claimed with
    | .ok after => after
    | .error _ => db
  else db

end Database

/-- A request, an event or a tick. -/
inductive Action where
  | place (id : ID) (input : PlaceOrderInput) (total : Money) (mint : Mint) (now : Time)
  | handle (e : Envelope) (mint : Mint) (now : Time)
  | tick (claimed : List OverdueOrder) (mint : ID → Step → Mint) (now : Time)
  | cancel (orderID userID : ID) (mint : Mint) (now : Time)

def Envelope.orderID (e : Envelope) : Option ID := e.body.bind Body.orderID

def Database.exec (db : Database) : Action → Database
  | .place id input total mint now => db.transact id (placeOrder mint now (newOrder id input total))
  | .handle e mint now =>
    match e.orderID with
    | some orderID => db.transact orderID (Orders.handle mint now e)
    | none => db
  | .tick claimed mint now => db.tick mint now claimed
  | .cancel orderID userID mint now => db.transact orderID (cancelOrder mint now userID)

/-- The service: an empty database and any sequence of transactions. -/
def service : System Database Action := .ofFunction {} Database.exec

/-- The database after these actions. -/
def history (actions : List Action) : Database := actions.foldl Database.exec {}

def singleLine : PlaceOrderInput where
  userID := 7
  items := [⟨1, 11, 12, "Oud", 2, ⟨500, "USD"⟩, ⟨1000, "USD"⟩⟩]
  subtotal := ⟨1000, "USD"⟩
  discountTotal := ⟨0, "USD"⟩
  shippingTotal := ⟨0, "USD"⟩
  taxTotal := ⟨0, "USD"⟩
  paymentMethodToken := "tok"

/-- Identifiers drawn from a block that starts at a number. -/
def mintFrom (n : Nat) : Mint where
  reservationID := fun _ => n
  paymentID := fun _ => n + 1
  commandID := fun step => n + 2 + allSteps.idxOf step
  eventID := n + 8

def placeSingle : Action := .place 1 singleLine ⟨1000, "USD"⟩ (mintFrom 100) 0

def eventOn (id : ID) (type : EventType) (retriable : Bool) : Envelope where
  id := id
  type := type
  body := some { orderID := some 1, retriable := retriable }

/-- An event about the order arrives. -/
def handleSingle (id : ID) (type : EventType) (retriable : Bool) (now : Time) : Action :=
  .handle (eventOn id type retriable) (mintFrom (1000 * id)) now

end Souq.Orders
