import Souq.Orders.Database
import Souq.Reviews.Store

/-!
# Verified purchases

review-service derives whether a reviewer has bought the product from the confirmations of
orders: for each line of the order it records a purchase. The payload that order-service
gives the confirmation of an order has no lines. The consumer takes missing lines for an
empty list, so that no purchase is ever recorded.
-/

namespace Souq.Reviews.Purchases

open Orders (Action Order OrderEvent OrderItem)
open Saga (CancelReason Step)

def cancelReasonText : CancelReason → String
  | .insufficientStock => "INSUFFICIENT_STOCK"
  | .paymentDeclined => "PAYMENT_DECLINED"
  | .paymentTimeout => "PAYMENT_TIMEOUT"
  | .reservationTimeout => "RESERVATION_TIMEOUT"
  | .customerCancelled => "CUSTOMER_CANCELLED"
  | .fraudRejected => "FRAUD_REJECTED"

def stepText : Step → String
  | .reserve => "RESERVE"
  | .authorize => "AUTHORIZE"
  | .commit => "COMMIT"
  | .capture => "CAPTURE"
  | .release => "RELEASE"
  | .void => "VOID"

def moneyData (money : Money) : Json :=
  .obj [("amount", .num money.amount), ("currency", .str money.currency)]

def textOf {α : Type} (text : α → String) (value : Option α) : Json :=
  .str ((value.map text).getD "")

def itemData (item : OrderItem) : Json :=
  .obj [("sku", .str (idText item.sku)), ("productId", .str (idText item.productID)),
    ("title", .str item.title), ("quantity", .num item.quantity),
    ("unitPrice", moneyData item.unitPrice), ("lineTotal", moneyData item.lineTotal)]

/-- The `type` of the envelope. -/
def eventType : OrderEvent → String
  | .created _ => "souq.order.created.v1"
  | .confirmed .. => "souq.order.confirmed.v1"
  | .cancelled .. => "souq.order.cancelled.v1"

/-- The payloads of `emitOrderCreated` and of `emitStateEvents`. -/
def payload : OrderEvent → Json
  | .created ord =>
    .obj [("orderId", .str (idText ord.id)), ("userId", .str (idText ord.userID)),
      ("items", .arr (ord.items.map itemData)), ("subtotal", moneyData ord.subtotal),
      ("discountTotal", moneyData ord.discountTotal),
      ("shippingTotal", moneyData ord.shippingTotal), ("taxTotal", moneyData ord.taxTotal),
      ("total", moneyData ord.total)]
  | .confirmed orderID userID paymentID reservationID total =>
    .obj [("orderId", .str (idText orderID)), ("userId", .str (idText userID)),
      ("paymentId", textOf idText paymentID), ("reservationId", textOf idText reservationID),
      ("total", moneyData total)]
  | .cancelled orderID userID reasonCode failedStep =>
    .obj [("orderId", .str (idText orderID)), ("userId", .str (idText userID)),
      ("reasonCode", textOf cancelReasonText reasonCode),
      ("failedStep", textOf stepText failedStep)]

def envelope (eventID : ID) (event : OrderEvent) : Json :=
  .obj [("specversion", .str "1.0"), ("id", .str (idText eventID)),
    ("source", .str "souq/order-service"), ("type", .str (eventType event)),
    ("datacontenttype", .str "application/json"), ("data", payload event)]

/-- What `for (… of value)` goes through; `none` where that is an error. -/
def iterate : Json → Option (List Json)
  | .arr elements => some elements
  | .str value => some (value.toList.map fun char => .str (String.singleton char))
  | _ => none

def recordLines (digest : String → String) (now : Time) (userId orderId : Json) :
    List Json → List PurchaseRecord → List PurchaseRecord
  | [], purchases | .undefined :: _, purchases | .null :: _, purchases => purchases
  | line :: lines, purchases =>
    recordLines digest now userId orderId lines
      (recordPurchase digest now userId (line.get "productId") orderId purchases)

/-- `eachMessage`; `none` is a message that has no value or does not parse. Errors are
logged, and what was written before them stays. -/
def eachMessage (digest : String → String) (now : Time) (message : Option Json)
    (purchases : List PurchaseRecord) : List PurchaseRecord :=
  match message with
  | none => purchases
  | some envelope =>
    if (envelope.get "type").isStr "souq.order.confirmed.v1" then
      let data := envelope.get "data"
      match iterate ((data.get "items").orElse (.arr [])) with
      | some lines =>
        recordLines digest now (data.get "userId") (data.get "orderId") lines purchases
      | none => purchases
    else purchases

/-- The orders, and the purchases that were heard of. -/
structure Services where
  orders : Orders.Database := {}
  purchases : List PurchaseRecord := []
  /-- The orders whose confirmations were delivered. -/
  delivered : List ID := []

/-- One step of a run. -/
inductive Turn where
  | order (action : Action)
  /-- The event of an outbox row of an order is delivered, for the first time or again. -/
  | deliver (orderID : ID) (n : Nat) (now : Time)

def isConfirmation : OrderEvent → Bool
  | .confirmed .. => true
  | _ => false

def Services.step (digest : String → String) (s : Services) : Turn → Services
  | .order action => { s with orders := s.orders.exec action }
  | .deliver orderID n now =>
    match (s.orders.tables orderID).outbox[n]? with
    | some ⟨eventID, .event event⟩ =>
      { s with
        purchases := eachMessage digest now (some (envelope eventID event)) s.purchases
        delivered := if isConfirmation event then orderID :: s.delivered else s.delivered }
    | _ => s

/-- Some confirmed order whose confirmation was delivered is of this user and has a line
with this product. -/
def Services.Bought (s : Services) (userID productID : ID) : Prop :=
  ∃ orderID ∈ s.delivered, ∃ ord, (s.orders.tables orderID).order = some ord ∧
    ord.status = .confirmed ∧ ord.userID = userID ∧ ∃ item ∈ ord.items, item.productID = productID

theorem eachMessage_envelope (digest : String → String) (now : Time) (eventID : ID)
    (event : OrderEvent) (purchases : List PurchaseRecord) :
    eachMessage digest now (some (envelope eventID event)) purchases = purchases := by
  cases event with
  | created | confirmed | cancelled => rfl

theorem purchases_foldl (digest : String → String) (turns : List Turn) (s : Services) :
    (turns.foldl (Services.step digest) s).purchases = s.purchases := by
  induction turns generalizing s with
  | nil => rfl
  | cons turn turns ih =>
    rw [List.foldl_cons, ih]
    cases turn with
    | order action => rfl
    | deliver orderID n now =>
      simp only [Services.step]
      split
      · exact eachMessage_envelope _ _ _ _ _
      · rfl

/-- **No badge.** After any run of order-service and any deliveries of its order events,
`hasPurchased` is right about a user and a product exactly when no delivered confirmation
is of an order of that user with that product. -/
theorem hasPurchased_iff (digest : String → String) (turns : List Turn) (userID productID : ID) :
    (hasPurchased digest (idText userID) (idText productID)
        (turns.foldl (Services.step digest) {}).purchases = true ↔
      (turns.foldl (Services.step digest) {}).Bought userID productID) ↔
      ¬ (turns.foldl (Services.step digest) {}).Bought userID productID := by
  have unrecorded : hasPurchased digest (idText userID) (idText productID)
      (turns.foldl (Services.step digest) {}).purchases = false := by
    rw [purchases_foldl]
    rfl
  rw [unrecorded]
  simp

/-- An order is placed and confirmed, and its confirmation is delivered. -/
def bought : List Turn :=
  [.order Orders.placeSingle, .order (Orders.handleSingle 1 .inventoryReserved false 1),
    .order (Orders.handleSingle 2 .paymentAuthorized false 2),
    .order (Orders.handleSingle 3 .inventoryCommitted false 3),
    .order (Orders.handleSingle 4 .paymentCaptured false 4), .deliver 1 5 5]

/-- The customer has bought the product, and `hasPurchased` says no. -/
theorem bought_unverified :
    ¬ (hasPurchased id (idText 7) (idText 12)
    (bought.foldl (Services.step id) {}).purchases = true ↔
      (bought.foldl (Services.step id) {}).Bought 7 12) := by
  intro agrees
  have yes : (bought.foldl (Services.step id) {}).Bought 7 12 :=
    ⟨1, List.mem_singleton_self 1, _, rfl, rfl, rfl, _, List.mem_singleton_self _, rfl⟩
  have recorded := agrees.mpr yes
  rw [purchases_foldl] at recorded
  cases recorded

end Souq.Reviews.Purchases
