import Souq.Inventory.Engine
import Souq.Json
import Souq.Lib.Transition

/-!
# Availability in the catalogue

The catalogue keeps a figure for each SKU beside its price, and learns it from the events
of inventory-service. `InventoryConsumer` picks the events it wants by the end of their
type. None of the types that inventory-service gives its events ends so: every event is
acknowledged and passed over.
-/

namespace Souq.Catalog.Availability

open List

open Inventory (Event OutboxRecord Movement ReservationLine UnavailableSKU)

def movementText : Movement → String
  | .reservation => "RESERVATION"
  | .release => "RELEASE"
  | .commit => "COMMIT"
  | .restock => "RESTOCK"
  | .adjustment => "ADJUSTMENT"
  | .returned => "RETURN"
  | .shrinkage => "SHRINKAGE"

def itemData (item : ReservationLine) : Json :=
  .obj [("sku", .str (idText item.sku)), ("quantity", .num item.quantity)]

def unavailableData (short : UnavailableSKU) : Json :=
  .obj [("sku", .str (idText short.sku)), ("requested", .num short.requested),
    ("available", .num short.available)]

/-- The `type` of the envelope. -/
def eventType : Event → String
  | .reserved .. => "souq.inventory.reserved.v1"
  | .reservationFailed .. => "souq.inventory.reservation_failed.v1"
  | .released .. => "souq.inventory.released.v1"
  | .committed .. => "souq.inventory.committed.v1"
  | .stockChanged .. => "souq.inventory.stock_changed.v1"

/-- The `data` of the envelope. -/
def eventData : Event → Json
  | .reserved orderID reservationID items expiresAt =>
    .obj [("orderId", .str (idText orderID)), ("reservationId", .str (idText reservationID)),
      ("expiresAt", .str (toString expiresAt)), ("items", .arr (items.map itemData))]
  | .reservationFailed orderID reservationID reasonCode unavailable =>
    .obj [("orderId", .str (idText orderID)), ("reservationId", .str (idText reservationID)),
      ("reasonCode", .str reasonCode), ("unavailable", .arr (unavailable.map unavailableData))]
  | .released orderID reservationID wasTombstone =>
    .obj [("orderId", .str (idText orderID)), ("reservationId", .str (idText reservationID)),
      ("wasTombstone", .bool wasTombstone)]
  | .committed orderID reservationID =>
    .obj [("orderId", .str (idText orderID)), ("reservationId", .str (idText reservationID))]
  | .stockChanged sku onHand reserved available reasonCode =>
    .obj [("sku", .str (idText sku)), ("onHand", .num onHand), ("reserved", .num reserved),
      ("available", .num available), ("reasonCode", .str (movementText reasonCode))]

def build (record : OutboxRecord) : Json :=
  .obj [("specversion", .str "1.0"), ("id", .str (idText record.eventID)),
    ("source", .str "souq/inventory-service"), ("type", .str (eventType record.event)),
    ("datacontenttype", .str "application/json"), ("data", eventData record.event)]

/-- A row of `variants`; a figure that is absent means that inventory was not heard of. -/
structure Variant where
  available : Option Int := none

/-- What the consumer keeps. -/
structure Catalogue where
  /-- The variants by their SKU. -/
  variants : String → Option Variant
  /-- The events of `processed_events` that this consumer has claimed. -/
  processed : List String := []

/-- `JsonNode.asText(fallback)`. -/
def asText (fallback : Option String) : Json → Option String
  | .undefined | .null => fallback
  | .arr _ | .obj _ => some ""
  | value => some value.text

/-- `JsonNode.asInt()`. A number is cut to 32 bits; a text of digits beyond them is 0. -/
def asInt : Json → Int
  | .num value => value.bmod (2 ^ 32)
  | .bool true => 1
  | .str value => (value.toInt?.filter fun n => n.bmod (2 ^ 32) = n).getD 0
  | _ => 0

/-- `JsonNode.hasNonNull(key)`. -/
def hasNonNull (node : Json) (key : String) : Bool :=
  match node.get key with
  | .undefined | .null => false
  | _ => true

/-- `String.isBlank()`. -/
def isBlank (text : String) : Bool := text.toList.all Char.isWhitespace

/-- Only the events that carry an availability figure. -/
def wants (type : String) : Bool :=
  endsWith type "stock_level_changed.v1" || endsWith type "stock_adjusted.v1"

/-- An `UPDATE` guarded on the SKU existing. -/
def applyAvailability (db : Catalogue) (sku : String) (available : Int) : Catalogue :=
  match db.variants sku with
  | none => db
  | some row =>
    if row.available = some available then db
    else { db with variants :=
      Function.update db.variants sku (some { row with available := some available }) }

/-- One message; `none` is one that does not parse. Every path acknowledges it. -/
def onInventoryEvent (message : Option Json) (db : Catalogue) : Catalogue :=
  match message with
  | none => db
  | some envelope =>
    let eventId := asText none (envelope.get "id")
    let type := (asText (some "") (envelope.get "type")).getD ""
    match eventId with
    | none => db
    | some eventId =>
      if isBlank eventId then db
      else if !wants type then db
      else if eventId ∈ db.processed then db
      else
        let claimed := { db with processed := db.processed ++ [eventId] }
        let data := envelope.get "data"
        match asText none (data.get "sku") with
        | none => claimed
        | some sku =>
          if !hasNonNull data "available" then claimed
          else applyAvailability claimed sku (max 0 (asInt (data.get "available")))

/-- What is asked of inventory-service. -/
inductive Operation where
  | reserve (mint failure : Inventory.Mint) (now : Time) (reservationID orderID : ID)
      (items : List ReservationLine) (ttl : Nat)
  | release (mint : Inventory.Mint) (reservationID orderID : ID) (reasonCode : String)
  | commit (mint : Inventory.Mint) (reservationID orderID : ID)
  | sweepExpired (mint : Inventory.Mint) (batch : Nat) (now : Time)
  | adjust (mint : Inventory.Mint) (sku : ID) (delta : Int) (movement : Movement)
      (actor note : String)

/-- One operation, with the transaction that announces a reservation that fell short. -/
def Operation.run (db : Inventory.Database) : Operation → Inventory.Database
  | .reserve mint failure now reservationID orderID items ttl =>
    match (Inventory.reserve mint now reservationID orderID items ttl).run db with
    | (.ok _, after) => after
    | (.error (.insufficient unavailable), _) =>
      (Inventory.publishFailure failure reservationID orderID unavailable).inTx db
    | (.error _, _) => db
  | .release mint reservationID orderID reasonCode =>
    (Inventory.release mint reservationID orderID reasonCode).inTx db
  | .commit mint reservationID orderID => (Inventory.commit mint reservationID orderID).inTx db
  | .sweepExpired mint batch now => (Inventory.sweepExpired mint batch now).inTx db
  | .adjust mint sku delta movement actor note =>
    (Inventory.adjust mint sku delta movement actor note).inTx db

/-- Both services. -/
structure Services where
  inventory : Inventory.Database
  catalogue : Catalogue

/-- One step of a run. -/
inductive Turn where
  | operate (operation : Operation)
  /-- The event of an outbox row reaches the catalogue, for the first time or again. -/
  | deliver (n : Nat)

/-- An operation of inventory-service, or the delivery of an event. -/
def Services.step (s : Services) : Turn → Services
  | .operate operation => { s with inventory := operation.run s.inventory }
  | .deliver n =>
    match s.inventory.outbox[n]? with
    | some record => { s with catalogue := onInventoryEvent (some (build record)) s.catalogue }
    | none => s

/-- Inventory with some stock, and a catalogue that knows some SKUs and has heard of none. -/
def Services.start (inventory : Inventory.Database) (known : String → Bool) : Services where
  inventory := inventory
  catalogue := { variants := fun sku => if known sku then some {} else none }

/-- The operations have changed the stock level of a SKU. -/
def Touched (before after : Inventory.Database) (sku : ID) : Prop :=
  ∃ row, after.stock sku = some row ∧ before.stock sku ≠ some row

/-- The figure of every SKU that was touched is what inventory can promise. -/
def Services.Follows (before : Inventory.Database) (s : Services) : Prop :=
  ∀ sku variant, s.catalogue.variants (idText sku) = some variant →
    ∀ row, s.inventory.stock sku = some row → before.stock sku ≠ some row →
      variant.available = some (max 0 (row.onHand - row.reserved))

theorem not_wants (event : Event) : wants (eventType event) = false := by
  have unwanted : ∀ type ∈ ["souq.inventory.reserved.v1", "souq.inventory.reservation_failed.v1",
      "souq.inventory.released.v1", "souq.inventory.committed.v1",
      "souq.inventory.stock_changed.v1"], wants type = false := by decide +kernel
  apply unwanted
  cases event with
  | reserved => exact mem_of_getElem? (i := 0) rfl
  | reservationFailed => exact mem_of_getElem? (i := 1) rfl
  | released => exact mem_of_getElem? (i := 2) rfl
  | committed => exact mem_of_getElem? (i := 3) rfl
  | stockChanged => exact mem_of_getElem? (i := 4) rfl

theorem onInventoryEvent_build (record : OutboxRecord) (db : Catalogue) :
    onInventoryEvent (some (build record)) db = db := by
  have type : (asText (some "") ((build record).get "type")).getD "" = eventType record.event := rfl
  have id : asText none ((build record).get "id") = some (idText record.eventID) := rfl
  simp only [onInventoryEvent, type, id, not_wants]
  split
  · rfl
  · rfl

theorem catalogue_foldl (turns : List Turn) (s : Services) :
    (turns.foldl Services.step s).catalogue = s.catalogue := by
  induction turns generalizing s with
  | nil => rfl
  | cons turn turns ih =>
    rw [foldl_cons, ih]
    cases turn with
    | operate operation => rfl
    | deliver n =>
      simp only [Services.step]
      cases s.inventory.outbox[n]? with
      | none => rfl
      | some record => exact onInventoryEvent_build record s.catalogue

/-- **The catalogue does not follow.** After any operations and any deliveries of the
events they enqueued, the figures of the catalogue are right exactly when no operation
has touched a SKU that the catalogue knows. -/
theorem follows_iff (inventory : Inventory.Database) (known : String → Bool) (turns : List Turn) :
    (turns.foldl Services.step (.start inventory known)).Follows inventory ↔
      ∀ sku, known (idText sku) = true →
        ¬ Touched inventory (turns.foldl Services.step (.start inventory known)).inventory sku := by
  have unheard : ∀ sku variant,
      (turns.foldl Services.step (.start inventory known)).catalogue.variants sku = some variant →
        known sku = true ∧ variant.available = none := by
    intro sku variant found
    rw [catalogue_foldl] at found
    change (if known sku then some ({} : Variant) else none) = some variant at found
    cases knows : known sku with
    | false =>
      rw [knows] at found
      cases found
    | true =>
      rw [knows] at found
      cases found
      exact ⟨rfl, rfl⟩
  constructor
  · rintro follows sku knows ⟨row, level, changed⟩
    have found : (turns.foldl Services.step (.start inventory known)).catalogue.variants
        (idText sku) = some {} := by
      rw [catalogue_foldl]
      exact if_pos knows
    have figure := follows sku {} found row level changed
    cases figure
  · intro untouched sku variant found row level changed
    exact (untouched sku (unheard _ _ found).1 ⟨row, level, changed⟩).elim

/-- Ten units come in, and the event of it is delivered. -/
def restocked : List Turn :=
  [.operate (.adjust ⟨1, fun _ => 1⟩ 7 10 .restock "ops" ""), .deliver 0]

/-- The catalogue still says that it has not heard from inventory. -/
theorem restock_unheard :
    ¬ (restocked.foldl Services.step (.start
        { stock := fun sku => if sku = 7 then some { onHand := 0, reserved := 0 } else none }
        fun _ => true)).Follows
      { stock := fun sku => if sku = 7 then some { onHand := 0, reserved := 0 } else none } := by
  intro follows
  have figure :=
    follows 7 {} (by rw [catalogue_foldl]; rfl) { onHand := 10, reserved := 0, version := 1 }
    rfl (by decide)
  cases figure

end Souq.Catalog.Availability
