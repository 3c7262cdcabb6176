import Souq.Inventory.Engine
import Souq.Orders.Board
import Souq.Payments.Service

/-!
# The three services at work on one order

The databases of order-service, inventory-service and payment-service, the
handlers that are between two transactions, and every step any of them can take.
A message is what an outbox holds: it can be delivered at any time, in any order
and any number of times, or never. A handler that crashes is forgotten. Other
orders and the warehouse share only the stock levels with this one, and may change
them at any time.
-/

namespace Souq.Checkout

open Saga Transact Transition

/-- The databases of the three services, and their work in progress. -/
structure World where
  orders : Orders.Rows := {}
  inventory : Inventory.Database := {}
  payments : Payments.Database := {}
  /-- Handlers of inventory-service that have claimed their command. -/
  tasks : List Inventory.Task := []
  /-- Operations of payment-service that wait for the provider. -/
  calls : List Payments.Call := []

def reasonText : CancelReason → String
  | .insufficientStock => "INSUFFICIENT_STOCK"
  | .paymentDeclined => "PAYMENT_DECLINED"
  | .paymentTimeout => "PAYMENT_TIMEOUT"
  | .reservationTimeout => "RESERVATION_TIMEOUT"
  | .customerCancelled => "CUSTOMER_CANCELLED"
  | .fraudRejected => "FRAUD_REJECTED"

def declineText : Payments.ReasonCode → String
  | .insufficientFunds => "INSUFFICIENT_FUNDS"
  | .cardDeclined => "CARD_DECLINED"
  | .cardExpired => "CARD_EXPIRED"
  | .invalidCVC => "INVALID_CVC"
  | .fraudSuspected => "FRAUD_SUSPECTED"
  | .threeDSFailed => "THREE_DS_FAILED"
  | .providerUnavailable => "PROVIDER_UNAVAILABLE"
  | .authorizationExpired => "AUTHORIZATION_EXPIRED"

/-- A command as inventory-service reads it; the others are filtered out. -/
def toInventory : Orders.Command → Option Inventory.Command
  | .reserve orderID reservationID items ttlSeconds =>
    some (.reserve orderID reservationID (items.map fun item => ⟨item.1, item.2⟩) ttlSeconds)
  | .release orderID reservationID reasonCode =>
    some (.release orderID reservationID (reasonCode.elim "" reasonText))
  | .commit orderID reservationID => some (.commit orderID reservationID)
  | .authorize .. | .capture .. | .void .. => none

/-- A command as payment-service reads it; the others are filtered out. A saga
command names no client key, so the order id stands in. -/
def toPayments : Orders.Command → Option Payments.Command
  | .authorize orderID paymentID userID amount paymentMethodToken =>
    some (.authorize ⟨orderID, paymentID, userID, amount, paymentMethodToken, orderID⟩)
  | .capture orderID paymentID _ => some (.capture orderID paymentID orderID)
  | .void orderID paymentID _ => some (.void orderID paymentID orderID)
  | .reserve .. | .release .. | .commit .. => none

/-- The command an outbox row of order-service carries. -/
def commandOf (record : Orders.OutboxRecord) : Option Orders.Command :=
  match record.message with
  | .command c => some c
  | .event _ => none

/-- An event of inventory-service as order-service reads it. -/
def fromInventory (record : Inventory.OutboxRecord) : Orders.Envelope :=
  match record.event with
  | .reserved orderID reservationID _ _ =>
    ⟨record.eventID, .inventoryReserved,
      some { orderID := some orderID, reservationID := some reservationID }⟩
  | .reservationFailed orderID reservationID reasonCode _ =>
    ⟨record.eventID, .inventoryReservationFailed,
      some { orderID := some orderID, reservationID := some reservationID,
             reasonCode := reasonCode }⟩
  | .released orderID reservationID _ =>
    ⟨record.eventID, .inventoryReleased,
      some { orderID := some orderID, reservationID := some reservationID }⟩
  | .committed orderID reservationID =>
    ⟨record.eventID, .inventoryCommitted,
      some { orderID := some orderID, reservationID := some reservationID }⟩
  | .stockChanged .. =>
    ⟨record.eventID, .other "souq.inventory.stock_changed.v1", some { orderID := none }⟩

/-- An event of payment-service as order-service reads it. -/
def fromPayments (record : Payments.OutboxRecord) : Orders.Envelope :=
  match record.event with
  | .authorized orderID paymentID _ =>
    ⟨record.eventID, .paymentAuthorized,
      some { orderID := some orderID, paymentID := some paymentID }⟩
  | .failed orderID paymentID reasonCode retriable =>
    ⟨record.eventID, .paymentFailed,
      some { orderID := some orderID, paymentID := some paymentID,
             reasonCode := reasonCode.elim "" declineText, retriable := retriable }⟩
  | .captured orderID paymentID _ =>
    ⟨record.eventID, .paymentCaptured,
      some { orderID := some orderID, paymentID := some paymentID }⟩
  | .voided orderID paymentID _ =>
    ⟨record.eventID, .paymentVoided, some { orderID := some orderID, paymentID := some paymentID }⟩

namespace World

/-- All that the two services have announced. -/
def events (w : World) : List Orders.Envelope :=
  w.inventory.outbox.map fromInventory ++ w.payments.outbox.map fromPayments

/-- The status of the order. -/
def status (w : World) : Option State := w.orders.status

/-- The state of the order's reservation. -/
def reservation (w : World) (orderID : ID) : Option Inventory.ReservationState :=
  (w.inventory.reservationOf orderID).map Inventory.Reservation.state

/-- The state of the order's payment. -/
def payment (w : World) (orderID : ID) : Option Payments.State :=
  (w.payments.paymentOf orderID).map Payments.Payment.state

end World

/-- One step of one of the services. -/
inductive Action where
  | place (input : Orders.PlaceOrderInput) (total : Money) (mint : Orders.Mint) (now : Time)
  | handle (e : Orders.Envelope) (mint : Orders.Mint) (now : Time)
  | tick (limit : Nat) (mint : Step → Orders.Mint) (now : Time)
  | cancel (userID : ID) (mint : Orders.Mint) (now : Time)
  | receive (record : Orders.OutboxRecord)
  | work (task : Inventory.Task) (mint : Inventory.Mint) (now : Time)
  | abandon (task : Inventory.Task)
  | sweepExpired (mint : Inventory.Mint) (batch : Nat) (now : Time)
  | restock (stock : ID → Option Inventory.StockLevel)
  | command (record : Orders.OutboxRecord) (mint : Payments.Mint)
  | answer (call : Payments.Call) (result : Payments.Result) (mint : Payments.Mint)
  | hangUp (call : Payments.Call)

namespace World

def order (w : World) (p : Orders.Tx Unit) : World := { w with orders := p.inTx w.orders }

/-- inventory-service claims a command; a handler that gets the claim goes on. -/
def receive (w : World) (record : Orders.OutboxRecord) : World :=
  match (commandOf record).bind toInventory with
  | none => w
  | some c =>
    match (Inventory.claimEvent record.eventID).run w.inventory with
    | (.ok true, after) => { w with inventory := after, tasks := .apply c :: w.tasks }
    | (_, after) => { w with inventory := after }

/-- A handler of inventory-service does what is next. -/
def work (w : World) (task : Inventory.Task) (mint : Inventory.Mint) (now : Time) : World :=
  { w with
    inventory := (task.run mint now w.inventory).1
    tasks := (task.run mint now w.inventory).2.toList ++ w.tasks.erase task }

/-- payment-service runs the first transaction of a command. -/
def command (w : World) (cfg : Payments.Config) (record : Orders.OutboxRecord)
    (mint : Payments.Mint) : World :=
  match (commandOf record).bind toPayments with
  | none => w
  | some c =>
    { w with
      payments := (c.start cfg mint record.eventID w.payments).1
      calls := (c.start cfg mint record.eventID w.payments).2.toList ++ w.calls }

/-- The provider answers, and payment-service runs the second transaction. -/
def answer (w : World) (cfg : Payments.Config) (call : Payments.Call) (result : Payments.Result)
    (mint : Payments.Mint) : World :=
  { w with
    payments := call.finish cfg mint result w.payments
    calls := w.calls.erase call }

/-- The world after a step. A message that was not sent cannot be delivered, and
only a handler at work can go on. -/
def exec (cfg : Payments.Config) (orderID : ID) (w : World) : Action → World
  | .place input total mint now =>
    w.order (Orders.placeOrder mint now (Orders.newOrder orderID input total))
  | .handle e mint now =>
    if e ∈ w.events ∧ e.orderID = some orderID then w.order (Orders.handle mint now e) else w
  | .tick limit mint now => w.order (Orders.tick limit mint now)
  | .cancel userID mint now => w.order (Orders.cancelOrder mint now userID)
  | .receive record => if record ∈ w.orders.outbox then w.receive record else w
  | .work task mint now => if task ∈ w.tasks then w.work task mint now else w
  | .abandon task => { w with tasks := w.tasks.erase task }
  | .sweepExpired mint batch now =>
    { w with inventory := (Inventory.sweepExpired mint batch now).inTx w.inventory }
  | .restock stock => { w with inventory := { w.inventory with stock := stock } }
  | .command record mint => if record ∈ w.orders.outbox then w.command cfg record mint else w
  | .answer call result mint => if call ∈ w.calls then w.answer cfg call result mint else w
  | .hangUp call => { w with calls := w.calls.erase call }

end World

/-- The services at work on one order: any sequence of steps from empty
databases. -/
def services (cfg : Payments.Config) (orderID : ID) : System World Action :=
  .ofFunction {} (World.exec cfg orderID)

/-- The world after steps that are each chosen by looking at the world. -/
def play (cfg : Payments.Config) (orderID : ID) (cues : List (World → Action)) : World :=
  cues.foldl (fun w cue => w.exec cfg orderID (cue w)) {}

theorem play_reachable (cfg : Payments.Config) (orderID : ID) (cues : List (World → Action)) :
    (services cfg orderID).Reachable (play cfg orderID cues) := by
  induction cues using List.reverseRecOn with
  | nil => exact .init rfl
  | append_singleton cues cue ih =>
    rw [play, List.foldl_append]
    exact ih.step rfl

/-- Every step of a play meets a condition. -/
def Permits (cfg : Payments.Config) (orderID : ID) (ok : World → Action → Prop) :
    List (World → Action) → World → Prop
  | [], _ => True
  | cue :: cues, w => ok w (cue w) ∧ Permits cfg orderID ok cues (w.exec cfg orderID (cue w))

instance Permits.decide (cfg : Payments.Config) (orderID : ID) (ok : World → Action → Prop)
    [each : ∀ w a, Decidable (ok w a)] :
    (cues : List (World → Action)) → (w : World) → Decidable (Permits cfg orderID ok cues w)
  | [], _ => inferInstanceAs (Decidable True)
  | cue :: cues, w =>
    have := Permits.decide cfg orderID ok cues (w.exec cfg orderID (cue w))
    inferInstanceAs (Decidable (ok w (cue w) ∧ Permits cfg orderID ok cues _))

theorem play_restrict {cfg : Payments.Config} {orderID : ID} {ok : World → Action → Prop}
    {cues : List (World → Action)} (permitted : Permits cfg orderID ok cues {}) :
    ((services cfg orderID).restrict ok).Reachable (play cfg orderID cues) := by
  have from' : ∀ (cues : List (World → Action)) {w : World},
      ((services cfg orderID).restrict ok).Reachable w → Permits cfg orderID ok cues w →
      ((services cfg orderID).restrict ok).Reachable
        (cues.foldl (fun w cue => w.exec cfg orderID (cue w)) w) := by
    intro cues
    induction cues with
    | nil => exact fun reached _ => reached
    | cons cue cues ih =>
      exact fun reached permitted => ih (reached.step ⟨permitted.1, rfl⟩) permitted.2
  exact from' cues (.init rfl) permitted

/-- A provider whose keys differ for each operation. -/
def mockConfig : Payments.Config where
  name := .mock
  supportsCapture := fun _ => true
  derive := fun operation orderID key =>
    match operation with
    | .authorize => 30 * (orderID + key)
    | .capture => 30 * (orderID + key) + 1
    | .void => 30 * (orderID + key) + 2

def shelf : ID → Option Inventory.StockLevel := fun sku =>
  if sku = 11 then some { onHand := 5, reserved := 0 } else none

/-- Event ids drawn from a block that starts at a number. -/
def inventoryMint (n : Nat) : Inventory.Mint := ⟨n, fun k => n + 1 + k⟩

/-- Identifiers drawn from a block that starts at a number. -/
def paymentMint (n : Nat) : Payments.Mint := ⟨n, n + 1⟩

def idle (w : World) : Action := .restock w.inventory.stock

def World.commandFor (w : World) (step : Step) : Option Orders.OutboxRecord :=
  w.orders.outbox.find? fun record => record.step = some step

def claims (step : Step) (w : World) : Action := (w.commandFor step).elim (idle w) .receive

def starts (step : Step) (n : Nat) (w : World) : Action :=
  (w.commandFor step).elim (idle w) fun record => .command record (paymentMint n)

/-- The handler that claimed its command last goes on. -/
def works (n : Nat) (now : Time) (w : World) : Action :=
  w.tasks.head?.elim (idle w) fun task => .work task (inventoryMint n) now

/-- The provider answers the operation that started last. -/
def answers (outcome : Payments.Outcome) (n : Nat) (w : World) : Action :=
  w.calls.head?.elim (idle w) fun call =>
    .answer call { outcome := outcome, providerRef := some 1 } (paymentMint n)

def hears (eventID : ID) (n : Nat) (now : Time) (w : World) : Action :=
  (w.events.find? fun e => e.id = eventID).elim (idle w) fun e =>
    .handle e (Orders.mintFrom n) now

/-- The order is placed, reserved, authorized and paid. -/
def paying : List (World → Action) :=
  [fun _ => .restock shelf, fun _ => .place Orders.singleLine ⟨1000, "USD"⟩ (Orders.mintFrom 100) 0,
    claims .reserve, works 200 1, hears 200 300 2, starts .authorize 400,
    answers .approved 410, hears 410 500 3]

/-- Its stock is committed, its payment captured and the order confirmed. -/
def confirming : List (World → Action) :=
  paying ++ [claims .commit, works 600 4, hears 600 700 5, starts .capture 800,
    answers .approved 810, hears 810 900 6]

end Souq.Checkout
