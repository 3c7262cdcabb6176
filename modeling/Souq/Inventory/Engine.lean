import Mathlib
import Souq.Inventory.Store

/-!
# The reservation engine

The transactions of `inventory-service/internal/stock`: reserving, releasing and
committing the stock of an order, and expiring reservations that outlived their
TTL; and what the command consumer of `internal/eventbus` does with a command it
has claimed.
-/

namespace Souq.Inventory

open Transact Program Inventory

/-- How an operation fails. -/
inductive Err where
  | emptyReservation
  | nonPositive (sku : ID) (quantity : Int)
  | insufficient (unavailable : List UnavailableSKU)
  | duplicateKey
  | releaseAfterCommit
  | reservationNotFound
  | notReserved (state : ReservationState)
  | noStockRow (sku : ID)
  | adjustmentRejected (sku : ID) (delta : Int)
  | rejected
  deriving DecidableEq

abbrev Tx := Program dialect Err

/-- The event ids a transaction draws: one for its own event and one for each SKU
or reservation it goes through. -/
structure Mint where
  eventID : ID
  eventIDFor : ID → ID

/-- How long a reservation holds stock by default: fifteen minutes. -/
def defaultTTL : Nat := 15 * 60 * 1000000

/-- An empty text is stored as `NULL`. -/
def nullIfEmpty (text : String) : Option String := if text = "" then none else some text

/-- Claim a command for the inbox; `false` when it was already handled. -/
def claimEvent (eventID : ID) : Tx Bool :=
  stmt (D := dialect) (.claimEvent eventID)

def loadReservationForUpdate (id : ID) : Tx (Option Reservation) :=
  stmt (D := dialect) (.loadReservationForUpdate id)

def reservationForOrder (orderID : ID) : Tx (Option ID) :=
  stmt (D := dialect) (.reservationForOrder orderID)

def orFail : InsertAnswer → Tx Unit
  | .inserted => pure ()
  | .duplicate => .fail .duplicateKey
  | .rejected => .fail .rejected

def insertReservation (row : Reservation) : Tx Unit :=
  stmt (D := dialect) (.insertReservation row) >>= orFail

/-- Create a reservation unless its id is taken. -/
def insertReservationIfAbsent (row : Reservation) : Tx Unit :=
  stmt (D := dialect) (.insertReservationIfAbsent row) >>= orFail

/-- Go on after a write the database took, or give up. -/
def orReject (taken : Bool) : Tx Unit := if taken then pure () else .fail .rejected

def markReservation (id : ID) (state : ReservationState) (reasonCode : String) : Tx Unit :=
  stmt (D := dialect) (.markReservation id state (nullIfEmpty reasonCode)) >>= orReject

def insertReservationItem (item : ReservationItem) : Tx Unit :=
  stmt (D := dialect) (.insertReservationItem item) >>= orReject

def reservationItems (reservationID : ID) : Tx (List ReservationLine) :=
  stmt (D := dialect) (.reservationItems reservationID)

def updateLevel (update : LevelUpdate) (sku : ID) (quantity : Int) : Tx LevelAnswer :=
  stmt (D := dialect) (.updateLevel update sku quantity)

def availableFor (sku : ID) : Tx (Option Int) :=
  stmt (D := dialect) (.availableFor sku)

def writeLedger (entry : LedgerEntry) : Tx Unit :=
  stmt (D := dialect) (.writeLedger entry)

/-- Write an event into the outbox. -/
def enqueue (record : OutboxRecord) : Tx Unit :=
  stmt (D := dialect) (.enqueue record)

/-- Find and lock expired reservations, passing over those already locked. -/
def claimExpired (limit : Nat) (now : Time) (locked : List ID) : Tx (List Reservation) :=
  stmt (D := dialect) (.claimExpired limit now locked)

/-- Update the level of a SKU the caller knows to exist. -/
def moveLine (update : LevelUpdate) (line : ReservationLine) : Tx StockLevel := do
  match ← updateLevel update line.sku line.quantity with
  | .level row => pure row
  | .noRow => .fail (.noStockRow line.sku)
  | .rejected => .fail .rejected

def addInt (a b : Int) : Int := (a + b).bmod (2 ^ 64)

def addWanted (item : ReservationLine) : List ReservationLine → List ReservationLine
  | [] => [item]
  | line :: lines =>
    if line.sku = item.sku then
      { line with quantity := addInt line.quantity item.quantity } :: lines
    else line :: addWanted item lines

def collect : List ReservationLine → List ReservationLine → Except Err (List ReservationLine)
  | [], collected => .ok collected
  | item :: items, collected =>
    if item.quantity ≤ 0 then .error (.nonPositive item.sku item.quantity)
    else collect items (addWanted item collected)

def wanted (items : List ReservationLine) : Except Err (List ReservationLine) :=
  (collect items []).map fun lines => lines.insertionSort fun a b => a.sku ≤ b.sku

/-- How a reservation attempt that did not fail ended. -/
inductive Outcome where
  | reserved
  | alreadyProcessed

/-- What `Reserve` returns. -/
structure ReserveResult where
  outcome : Outcome
  state : ReservationState
  expiresAt : Option Time := none

/-- Hold one line, or report how far it fell short. -/
def takeLine (reservationID orderID : ID) (line : ReservationLine) :
    Tx (Option UnavailableSKU) := do
  match ← updateLevel .take line.sku line.quantity with
  | .rejected => .fail .rejected
  | .noRow => do
    let available ← availableFor line.sku
    pure (some ⟨line.sku, line.quantity, available.getD 0⟩)
  | .level row => do
    insertReservationItem ⟨reservationID, line⟩
    writeLedger
      { sku := line.sku, reservationID := some reservationID, orderID := some orderID,
        movement := .reservation, quantity := line.quantity, onHandAfter := row.onHand,
        reservedAfter := row.reserved }
    pure none

/-- Try to hold every line, and report those that fell short. -/
def takeLines (reservationID orderID : ID) : List ReservationLine → Tx (List UnavailableSKU)
  | [] => pure []
  | line :: lines => do
    let short ← takeLine reservationID orderID line
    let others ← takeLines reservationID orderID lines
    pure (short.toList ++ others)

def hold (mint : Mint) (now : Time) (reservationID orderID : ID) (lines : List ReservationLine)
    (ttl : Nat) : Tx ReserveResult := do
  insertReservation
    { id := reservationID, orderID := orderID, state := .reserved, expiresAt := some (now + ttl) }
  let unavailable ← takeLines reservationID orderID lines
  if unavailable.isEmpty then do
    enqueue ⟨mint.eventID, .reserved orderID reservationID lines (now + ttl)⟩
    pure { outcome := .reserved, state := .reserved, expiresAt := some (now + ttl) }
  else .fail (.insufficient unavailable)

def reserve (mint : Mint) (now : Time) (reservationID orderID : ID) (items : List ReservationLine)
    (ttl : Nat) : Tx ReserveResult :=
  if items.isEmpty then .fail .emptyReservation
  else
    match wanted items with
    | .error err => .fail err
    | .ok lines => do
      match ← loadReservationForUpdate reservationID with
      | some existing => pure { outcome := .alreadyProcessed, state := existing.state }
      | none =>
        match ← reservationForOrder orderID with
        | some other =>
          if other ≠ reservationID then pure { outcome := .alreadyProcessed, state := .reserved }
          else hold mint now reservationID orderID lines ttl
        | none => hold mint now reservationID orderID lines ttl

def publishFailure (mint : Mint) (reservationID orderID : ID) (unavailable : List UnavailableSKU) :
    Tx Unit := do
  insertReservationIfAbsent
    { id := reservationID, orderID := orderID, state := .failed,
      reasonCode := some "INSUFFICIENT_STOCK" }
  enqueue ⟨mint.eventID, .reservationFailed orderID reservationID "INSUFFICIENT_STOCK" unavailable⟩

def returnLine (reservationID orderID : ID) (line : ReservationLine) : Tx Unit := do
  let row ← moveLine .giveBack line
  writeLedger
    { sku := line.sku, reservationID := some reservationID, orderID := some orderID,
      movement := .release, quantity := -line.quantity, onHandAfter := row.onHand,
      reservedAfter := row.reserved }

/-- Give held units back. -/
def returnStock (reservationID orderID : ID) : Tx Unit := do
  let lines ← reservationItems reservationID
  forEach (returnLine reservationID orderID) lines

/-- Return held stock to sale; whether a tombstone was written. -/
def release (mint : Mint) (reservationID orderID : ID) (reasonCode : String) : Tx Bool := do
  match ← loadReservationForUpdate reservationID with
  | none =>
    insertReservation
      { id := reservationID, orderID := orderID, state := .released, wasTombstone := true,
        reasonCode := nullIfEmpty reasonCode }
    enqueue ⟨mint.eventID, .released orderID reservationID true⟩
    pure true
  | some existing =>
    match existing.state with
    | .committed => .fail .releaseAfterCommit
    | .reserved => do
      returnStock reservationID orderID
      markReservation reservationID .released reasonCode
      enqueue ⟨mint.eventID, .released orderID reservationID false⟩
      pure false
    | .released | .failed => do
      enqueue ⟨mint.eventID, .released orderID reservationID false⟩
      pure false

def commitLine (mint : Mint) (reservationID orderID : ID) (line : ReservationLine) : Tx Unit := do
  let row ← moveLine .commit line
  writeLedger
    { sku := line.sku, reservationID := some reservationID, orderID := some orderID,
      movement := .commit, quantity := -line.quantity, onHandAfter := row.onHand,
      reservedAfter := row.reserved }
  enqueue ⟨mint.eventIDFor line.sku,
    .stockChanged line.sku row.onHand row.reserved (max (row.onHand - row.reserved) 0) .commit⟩

def commit (mint : Mint) (reservationID orderID : ID) : Tx Unit := do
  match ← loadReservationForUpdate reservationID with
  | none => .fail .reservationNotFound
  | some existing =>
    match existing.state with
    | .committed => enqueue ⟨mint.eventID, .committed orderID reservationID⟩
    | .reserved => do
      let lines ← reservationItems reservationID
      forEach (commitLine mint reservationID orderID) lines
      markReservation reservationID .committed ""
      enqueue ⟨mint.eventID, .committed orderID reservationID⟩
    | .released => .fail (.notReserved .released)
    | .failed => .fail (.notReserved .failed)

def expire (mint : Mint) (row : Reservation) : Tx Unit := do
  returnStock row.id row.orderID
  markReservation row.id .released "TTL_EXPIRED"
  enqueue ⟨mint.eventIDFor row.id, .released row.orderID row.id false⟩

/-- Release reservations past their TTL, passing over those it finds locked. -/
def sweepExpired (mint : Mint) (batch : Nat) (now : Time) (locked : List ID := []) : Tx Unit := do
  let expired ← claimExpired batch now locked
  forEach (expire mint) expired

/-- What `Adjust` returns. -/
structure Level where
  sku : ID
  onHand : Int
  reserved : Int
  available : Int
  status : StockStatus

def adjust (mint : Mint) (sku : ID) (delta : Int) (movement : Movement) (actor note : String) :
    Tx Level := do
  match ← updateLevel .adjust sku delta with
  | .rejected => .fail .rejected
  | .noRow => .fail (.adjustmentRejected sku delta)
  | .level row => do
    writeLedger
      { sku := sku, movement := movement, quantity := delta, onHandAfter := row.onHand,
        reservedAfter := row.reserved, actor := if actor = "" then "system" else actor,
        note := nullIfEmpty note }
    enqueue ⟨mint.eventID,
      .stockChanged sku row.onHand row.reserved (max (row.onHand - row.reserved) 0) movement⟩
    pure ⟨sku, row.onHand, row.reserved, max (row.onHand - row.reserved) 0, .active⟩

def allowed : String → Option Movement
  | "RESTOCK" => some .restock
  | "ADJUSTMENT" => some .adjustment
  | "RETURN" => some .returned
  | "SHRINKAGE" => some .shrinkage
  | _ => none

/-- The details of the problems an adjustment request is refused with. -/
inductive Refusal where
  | movement
  | actor

def Refusal.detail : Refusal → String
  | .movement => "movement must be RESTOCK, ADJUSTMENT, RETURN or SHRINKAGE."
  | .actor => "Adjustments require an X-Actor header identifying who made the change."

/-- The transaction `POST /v1/stock/:sku/adjust` starts. -/
def adjustRequest (mint : Mint) (sku : ID) (delta : Int) (movement note actor : String) :
    Except Refusal (Tx Level) :=
  match allowed movement with
  | none => .error .movement
  | some movement =>
    if actor = "" then .error .actor else .ok (adjust mint sku delta movement actor note)

/-- A command of the saga. -/
inductive Command where
  | reserve (orderID reservationID : ID) (items : List ReservationLine) (ttlSeconds : Int)
  | release (orderID reservationID : ID) (reasonCode : String)
  | commit (orderID reservationID : ID)
  deriving DecidableEq

/-- A command, or the answer that it has failed. -/
inductive Task where
  | apply (command : Command)
  | publishFailure (reservationID orderID : ID) (unavailable : List UnavailableSKU)
  deriving DecidableEq

def ttlOf (ttlSeconds : Int) : Nat :=
  if 0 < ttlSeconds then ttlSeconds.toNat * 1000000 else defaultTTL

/-- Carry out what a handler has to do next. A reservation that fell short leaves
its failure to publish; any other error dead-letters the command. -/
def Task.run (mint : Mint) (now : Time) : Task → Database → Database × Option Task
  | .apply (.reserve orderID reservationID items ttlSeconds), db =>
    match (reserve mint now reservationID orderID items (ttlOf ttlSeconds)).run db with
    | (.ok _, after) => (after, none)
    | (.error (.insufficient unavailable), _) =>
      (db, some (.publishFailure reservationID orderID unavailable))
    | (.error _, _) => (db, none)
  | .apply (.release orderID reservationID reasonCode), db =>
    ((release mint reservationID orderID
      (if reasonCode = "" then "SAGA_COMPENSATION" else reasonCode)).inTx db, none)
  | .apply (.commit orderID reservationID), db =>
    ((commit mint reservationID orderID).inTx db, none)
  | .publishFailure reservationID orderID unavailable, db =>
    ((Inventory.publishFailure mint reservationID orderID unavailable).inTx db, none)

end Souq.Inventory
