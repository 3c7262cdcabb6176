import Mathlib.Data.List.Sort
import Souq.Basic
import Souq.Lib.Program
import Souq.Lib.Table

/-!
# The inventory-service database

The tables of `inventory-service/migrations` and the SQL statements of
`inventory-service/internal/store` that the reservation engine sends. A statement
the database refuses (a `CHECK`, a key, a number that does not fit its column)
answers so, and the engine gives the transaction up.
-/

namespace Souq.Inventory

open Transact

/-- The values of `reservations.state`. -/
inductive ReservationState where
  | reserved
  | committed
  | released
  | failed
  deriving DecidableEq

/-- A row of `reservations`. -/
structure Reservation where
  id : ID
  orderID : ID
  state : ReservationState
  wasTombstone : Bool := false
  reasonCode : Option String := none
  expiresAt : Option Time := none
  deriving DecidableEq

/-- The `CHECK` `open_reservation_has_expiry`. -/
def Reservation.admissible (row : Reservation) : Bool :=
  row.state != .reserved || row.expiresAt.isSome

/-- The values of `stock_levels.status`. -/
inductive StockStatus where
  | active
  | discontinued
  | suspended
  deriving DecidableEq

/-- A row of `stock_levels`. -/
structure StockLevel where
  onHand : Int
  reserved : Int
  status : StockStatus := .active
  version : Nat := 0
  deriving DecidableEq

/-- A number fits an `INT` column. -/
def fitsInt (n : Int) : Bool := decide (-2147483648 ≤ n) && decide (n ≤ 2147483647)

/-- The `CHECK` constraints of `stock_levels`. -/
def StockLevel.admissible (row : StockLevel) : Bool :=
  decide (0 ≤ row.onHand) && decide (0 ≤ row.reserved) && decide (row.reserved ≤ row.onHand) &&
    fitsInt row.onHand

theorem StockLevel.admissible_iff {row : StockLevel} : row.admissible = true ↔
    0 ≤ row.onHand ∧ 0 ≤ row.reserved ∧ row.reserved ≤ row.onHand ∧ row.onHand ≤ 2147483647 := by
  simp only [admissible, fitsInt, Bool.and_eq_true, decide_eq_true_eq]
  omega

/-- A SKU and how much of it. -/
structure ReservationLine where
  sku : ID
  quantity : Int
  deriving DecidableEq

/-- A row of `reservation_items`. -/
structure ReservationItem where
  reservationID : ID
  line : ReservationLine

/-- The values of `stock_ledger.movement`. -/
inductive Movement where
  | reservation
  | release
  | commit
  | restock
  | adjustment
  | returned
  | shrinkage

/-- A row of `stock_ledger`. Its id is its place in the table. -/
structure LedgerEntry where
  sku : ID
  reservationID : Option ID := none
  orderID : Option ID := none
  movement : Movement
  quantity : Int
  onHandAfter : Int
  reservedAfter : Int
  actor : String := "system"
  note : Option String := none

/-- A SKU that fell short, and by how much. -/
structure UnavailableSKU where
  sku : ID
  requested : Int
  available : Int
  deriving DecidableEq

/-- The events on `souq.inventory.events.v1`. -/
inductive Event where
  | reserved (orderID reservationID : ID) (items : List ReservationLine) (expiresAt : Time)
  | reservationFailed (orderID reservationID : ID) (reasonCode : String)
      (unavailable : List UnavailableSKU)
  | released (orderID reservationID : ID) (wasTombstone : Bool)
  | committed (orderID reservationID : ID)
  | stockChanged (sku : ID) (onHand reserved available : Int) (reasonCode : Movement)

/-- A row of `outbox`. -/
structure OutboxRecord where
  eventID : ID
  event : Event

/-- The tables, and the order in which the database sorts text. -/
structure Database where
  stock : ID → Option StockLevel := fun _ => none
  reservations : List Reservation := []
  items : List ReservationItem := []
  ledger : List LedgerEntry := []
  outbox : List OutboxRecord := []
  processed : List ID := []
  collate : ID → ID → Bool := fun a b => decide (a ≤ b)

/-- The `UPDATE` statements on `stock_levels`: those of the engine, and a change of
status, which is made outside it. -/
inductive LevelUpdate where
  | take
  | commit
  | giveBack
  | adjust
  | setStatus (status : StockStatus)

/-- The condition in the `WHERE` clause beside the SKU. -/
def LevelUpdate.applies (update : LevelUpdate) (quantity : Int) (row : StockLevel) : Bool :=
  match update with
  | .take => row.status == .active && decide (quantity ≤ row.onHand - row.reserved)
  | .adjust => decide (row.reserved ≤ row.onHand + quantity) && decide (0 ≤ row.onHand + quantity)
  | .commit | .giveBack | .setStatus _ => true

/-- The row the `SET` clause computes. -/
def LevelUpdate.change (update : LevelUpdate) (quantity : Int) (row : StockLevel) : StockLevel :=
  match update with
  | .take => { row with reserved := row.reserved + quantity, version := row.version + 1 }
  | .commit =>
    { row with
      onHand := row.onHand - quantity
      reserved := row.reserved - quantity
      version := row.version + 1 }
  | .giveBack =>
    { row with reserved := max (row.reserved - quantity) 0, version := row.version + 1 }
  | .adjust => { row with onHand := row.onHand + quantity, version := row.version + 1 }
  | .setStatus status => { row with status := status, version := row.version + 1 }

/-- What an `UPDATE ... RETURNING` reports. -/
inductive LevelAnswer where
  | level (row : StockLevel)
  | noRow
  | rejected

/-- What an `INSERT` reports. -/
inductive InsertAnswer where
  | inserted
  | duplicate
  | rejected
  deriving DecidableEq

/-- A statement of the store. -/
inductive Stmt where
  | claimEvent (eventID : ID)
  | loadReservationForUpdate (id : ID)
  | reservationForOrder (orderID : ID)
  | insertReservation (row : Reservation)
  | insertReservationIfAbsent (row : Reservation)
  | markReservation (id : ID) (state : ReservationState) (reasonCode : Option String)
  | insertReservationItem (item : ReservationItem)
  | reservationItems (reservationID : ID)
  | updateLevel (update : LevelUpdate) (sku : ID) (quantity : Int)
  | availableFor (sku : ID)
  | writeLedger (entry : LedgerEntry)
  | enqueue (record : OutboxRecord)
  | claimExpired (limit : Nat) (now : Time) (locked : List ID)

def Stmt.Answer : Stmt → Type
  | .claimEvent _ => Bool
  | .loadReservationForUpdate _ => Option Reservation
  | .reservationForOrder _ => Option ID
  | .insertReservation _ => InsertAnswer
  | .insertReservationIfAbsent _ => InsertAnswer
  | .markReservation .. => Bool
  | .insertReservationItem _ => Bool
  | .reservationItems _ => List ReservationLine
  | .updateLevel .. => LevelAnswer
  | .availableFor _ => Option Int
  | .claimExpired .. => List Reservation
  | .writeLedger _ => Unit
  | .enqueue _ => Unit

namespace Database

/-- The row of a reservation. -/
def reservation (db : Database) (id : ID) : Option Reservation :=
  Table.find Reservation.id db.reservations id

/-- The reservation of an order; `reservations_order_uniq` allows one. -/
def reservationOf (db : Database) (orderID : ID) : Option Reservation :=
  Table.find Reservation.orderID db.reservations orderID

def lines (db : Database) (reservationID : ID) : List ReservationLine :=
  ((db.items.filter fun item => item.reservationID == reservationID).map
    ReservationItem.line).insertionSort fun a b => db.collate a.sku b.sku = true

/-- The outcome of an insert into `reservations`. -/
def inserting (db : Database) (row : Reservation) : InsertAnswer :=
  if (db.reservation row.id).isSome || (db.reservationOf row.orderID).isSome then .duplicate
  else if row.admissible then .inserted
  else .rejected

/-- The row `MarkReservation` writes, when there is one. -/
def marked (db : Database) (id : ID) (state : ReservationState) (reasonCode : Option String) :
    Option Reservation :=
  (db.reservation id).map fun row =>
    { row with state := state, reasonCode := reasonCode <|> row.reasonCode, expiresAt := none }

def updating (db : Database) (update : LevelUpdate) (sku : ID) (quantity : Int) : LevelAnswer :=
  if !fitsInt quantity then .rejected
  else
    match db.stock sku with
    | none => .noRow
    | some row =>
      if !update.applies quantity row then .noRow
      else if (update.change quantity row).admissible then .level (update.change quantity row)
      else .rejected

/-- Whether `reservation_items` takes a row: the key is free, the reservation
exists and the quantity is positive. -/
def admits (db : Database) (item : ReservationItem) : Bool :=
  (db.reservation item.reservationID).isSome && decide (0 < item.line.quantity) &&
    fitsInt item.line.quantity &&
    !db.items.any fun other =>
      other.reservationID == item.reservationID && other.line.sku == item.line.sku

/-- The units of a SKU that can be promised; `none` for an unknown SKU. -/
def available (db : Database) (sku : ID) : Option Int :=
  (db.stock sku).map fun row =>
    if row.status = .active then max (row.onHand - row.reserved) 0 else 0

/-- The open reservations past their expiry, earliest first. -/
def expired (db : Database) (now : Time) : List Reservation :=
  (db.reservations.filter fun row => row.state == .reserved && row.expiresAt.any (· < now))
    |>.insertionSort fun a b => a.expiresAt.getD 0 ≤ b.expiresAt.getD 0

/-- The rows a sweep claims: expired reservations, except those it finds locked. -/
def claimed (db : Database) (limit : Nat) (now : Time) (locked : List ID) : List Reservation :=
  ((db.expired now).filter fun row => !locked.contains row.id).take limit

@[simp] theorem claimed_nil (db : Database) (limit : Nat) (now : Time) :
    db.claimed limit now [] = (db.expired now).take limit := by
  simp [claimed]

end Database

/-- What a statement writes. -/
inductive Write where
  | reservation (row : Reservation)
  | item (item : ReservationItem)
  | stock (sku : ID) (row : StockLevel)
  | ledger (entry : LedgerEntry)
  | outbox (record : OutboxRecord)
  | processed (eventID : ID)

/-- The row locks the statements take. -/
inductive Key where
  | reservation (id : ID)
  | order (orderID : ID)
  | item (reservationID sku : ID)
  | stock (sku : ID)
  | inbox (eventID : ID)
  | outbox (eventID : ID)
  deriving DecidableEq

def Write.put : Write → Database → Database
  | .reservation row, db =>
    { db with reservations := Table.upsert Reservation.id row db.reservations }
  | .item entry, db => { db with items := db.items ++ [entry] }
  | .stock sku row, db => { db with stock := Function.update db.stock sku (some row) }
  | .ledger entry, db => { db with ledger := db.ledger ++ [entry] }
  | .outbox record, db =>
    { db with outbox := Table.insertNew OutboxRecord.eventID db.outbox record }
  | .processed eventID, db => { db with processed := db.processed ++ [eventID] }

/-- What a statement answers on the tables it sees. -/
def Stmt.answer : (q : Stmt) → Database → q.Answer
  | .claimEvent eventID, db => !db.processed.contains eventID
  | .loadReservationForUpdate id, db => db.reservation id
  | .reservationForOrder orderID, db => (db.reservationOf orderID).map Reservation.id
  | .insertReservation row, db => db.inserting row
  | .insertReservationIfAbsent row, db =>
    if (db.reservation row.id).isSome then InsertAnswer.inserted else db.inserting row
  | .markReservation id state reasonCode, db =>
    (db.marked id state reasonCode).all Reservation.admissible
  | .insertReservationItem item, db => db.admits item
  | .reservationItems reservationID, db => db.lines reservationID
  | .updateLevel update sku quantity, db => db.updating update sku quantity
  | .availableFor sku, db => db.available sku
  | .claimExpired limit now locked, db => db.claimed limit now locked
  | .writeLedger _, _ => ()
  | .enqueue _, _ => ()

/-- The row versions a statement writes, given the tables it sees. -/
def Stmt.writes : Stmt → Database → List Write
  | .claimEvent eventID, db => if db.processed.contains eventID then [] else [.processed eventID]
  | .insertReservation row, db => if db.inserting row = .inserted then [.reservation row] else []
  | .insertReservationIfAbsent row, db =>
    if db.inserting row = .inserted then [.reservation row] else []
  | .markReservation id state reasonCode, db =>
    (((db.marked id state reasonCode).filter Reservation.admissible).map Write.reservation).toList
  | .insertReservationItem item, db => if db.admits item then [.item item] else []
  | .updateLevel update sku quantity, db =>
    match db.updating update sku quantity with
    | .level row => [.stock sku row]
    | _ => []
  | .writeLedger entry, _ => [.ledger entry]
  | .enqueue record, _ => [.outbox record]
  | .loadReservationForUpdate _, _ => []
  | .reservationForOrder _, _ => []
  | .reservationItems _, _ => []
  | .availableFor _, _ => []
  | .claimExpired .., _ => []

/-- The rows a statement locks, given the tables it sees. -/
def Stmt.keys : Stmt → Database → List Key
  | .claimEvent eventID, db => if db.processed.contains eventID then [] else [.inbox eventID]
  | .loadReservationForUpdate id, db => if (db.reservation id).isSome then [.reservation id] else []
  | .insertReservation row, _ => [.reservation row.id, .order row.orderID]
  | .insertReservationIfAbsent row, db =>
    if (db.reservation row.id).isSome then [] else [.reservation row.id, .order row.orderID]
  | .markReservation id _ _, db => if (db.reservation id).isSome then [.reservation id] else []
  | .insertReservationItem item, _ => [.item item.reservationID item.line.sku]
  | .updateLevel update sku quantity, db =>
    if (db.stock sku).any (update.applies quantity) then [.stock sku] else []
  | .enqueue record, _ => [.outbox record.eventID]
  | .claimExpired limit now locked, db =>
    (db.claimed limit now locked).map fun row => .reservation row.id
  | .reservationForOrder _, _ => []
  | .reservationItems _, _ => []
  | .availableFor _, _ => []
  | .writeLedger _, _ => []

/-- Only the expiry sweep skips rows that were locked in the meantime. -/
def Stmt.skip : (q : Stmt) → Option q.Answer
  | .claimExpired .. => some []
  | _ => none

/-- The statements of inventory-service as a dialect. -/
abbrev dialect : Dialect where
  Db := Database
  Stmt := Stmt
  Answer := Stmt.Answer
  Write := Write
  Key := Key
  answer := Stmt.answer
  writes := Stmt.writes
  put := Write.put
  keys := Stmt.keys
  skip := Stmt.skip

end Souq.Inventory
