import Souq.Inventory.Effect
import Souq.Lib.Serial

/-!
# The engine's transactions under READ COMMITTED

The transactions of the engine interleave statement by statement. Each of them
locks a reservation before it touches its lines, and a stock level before it
counts on it, so whatever the interleaving commits, transactions that run one
after another commit as well.

A `SELECT ... FOR UPDATE` that finds no row locks nothing. `Reserve` and `Release`
then count from the statement after it, and the insert that follows finds out
whether the row is still absent.
-/

namespace Souq.Inventory

open Transact Program List

/-- The rows of `reservation_items` of a reservation. -/
def Database.itemsOf (db : Database) (id : ID) : List ReservationItem :=
  db.items.filter fun item => item.reservationID == id

/-- Two states of the tables agree on what a lock protects. The lines of a
reservation go with its row. -/
def Key.Same (db db' : Database) : Key → Prop
  | .reservation id => db'.reservation id = db.reservation id ∧ db'.itemsOf id = db.itemsOf id
  | .order orderID => (db'.reservationOf orderID).isSome = (db.reservationOf orderID).isSome
  | .stock sku => db'.stock sku = db.stock sku
  | .inbox _ => True
  | .item .. => True
  | .outbox _ => True

/-- What the commit of a transaction leaves alone for one that holds locks. -/
structure Rely (held : List Key) (db db' : Database) : Prop where
  collate : db'.collate = db.collate
  same : ∀ key ∈ held, key.Same db db'

/-- The locks cover the write of a row. A ledger row is written under the lock of
the stock level it is about. -/
def Owns (held : List Key) (db : Database) : Write → Prop
  | .reservation row => .reservation row.id ∈ held ∧
      (db.reservation row.id = none ∧ .order row.orderID ∈ held ∨
        ∃ old, db.reservation row.id = some old ∧ old.orderID = row.orderID)
  | .item item => .reservation item.reservationID ∈ held
  | .stock sku _ => .stock sku ∈ held
  | .ledger entry => .stock entry.sku ∈ held
  | .outbox _ => True
  | .processed _ => True

/-- The primary key of `reservations`. -/
def Database.Valid (db : Database) : Prop := (db.reservations.map Reservation.id).Nodup

/-- A statement that neither gives held units back nor deducts them. -/
def Stmt.Holds : Stmt → Prop
  | .updateLevel .giveBack .. => False
  | .updateLevel .commit .. => False
  | _ => True

theorem Key.Same.refl (db : Database) (key : Key) : key.Same db db := by
  cases key with
  | reservation id => exact ⟨rfl, rfl⟩
  | order orderID => rfl
  | stock sku => rfl
  | inbox | item | outbox => trivial

theorem Key.Same.trans {db db' db'' : Database} {key : Key} (first : key.Same db db')
    (second : key.Same db' db'') : key.Same db db'' := by
  cases key with
  | reservation id => exact ⟨second.1.trans first.1, second.2.trans first.2⟩
  | order | stock => exact Eq.trans second first
  | inbox | item | outbox => trivial

theorem Database.itemsOf_put_item (db : Database) (item : ReservationItem) (id : ID) :
    (Write.put (.item item) db).itemsOf id =
      db.itemsOf id ++ if item.reservationID = id then [item] else [] := by
  simp only [itemsOf, Write.put, filter_append, filter_cons, filter_nil, beq_iff_eq]

theorem Database.reservation_put (db : Database) (row : Reservation) (id : ID) :
    (Write.put (.reservation row) db).reservation id =
      if row.id = id then some row else db.reservation id :=
  Table.find_upsert row db.reservations id

variable {id sku : ID} {row : Reservation} {update : LevelUpdate} {quantity : Int}
  {rows : List Reservation}

theorem Key.Same.put_reservation {db db' : Database} (same : (Key.reservation id).Same db db')
    (w : Write) :
    (Key.reservation id).Same (w.put db) (w.put db') := by
  cases w with
  | reservation row =>
    refine ⟨?_, same.2⟩
    rw [Database.reservation_put, Database.reservation_put, same.1]
  | item item =>
    refine ⟨same.1, ?_⟩
    rw [Database.itemsOf_put_item, Database.itemsOf_put_item, same.2]
  | stock | ledger | outbox | processed => exact same

theorem Key.Same.put_stock {db db' : Database} (same : (Key.stock sku).Same db db') (w : Write) :
    (Key.stock sku).Same (w.put db) (w.put db') := by
  cases w with
  | stock other row =>
    change Function.update db'.stock other (some row) sku =
      Function.update db.stock other (some row) sku
    rw [Function.update_apply, Function.update_apply]
    exact congrArg (ite _ _) same
  | reservation | item | ledger | outbox | processed => exact same

variable {db db' : Database} {writes : List Write} {held : List Key}

theorem same_replay_reservation (same : (Key.reservation id).Same db db') (ws : List Write) :
    (Key.reservation id).Same (dialect.replay ws db) (dialect.replay ws db') := by
  induction ws generalizing db db' with
  | nil => exact same
  | cons w ws ih => exact ih (same.put_reservation w)

theorem same_replay_stock (same : (Key.stock sku).Same db db') (ws : List Write) :
    (Key.stock sku).Same (dialect.replay ws db) (dialect.replay ws db') := by
  induction ws generalizing db db' with
  | nil => exact same
  | cons w ws ih => exact ih (same.put_stock w)

theorem collate_put (w : Write) (db : Database) : (w.put db).collate = db.collate := by
  cases w <;> rfl

theorem collate_replay (ws : List Write) (db : Database) :
    (dialect.replay ws db).collate = db.collate := by
  induction ws generalizing db with
  | nil => rfl
  | cons w ws ih => exact (ih (w.put db)).trans (collate_put w db)

theorem isSome_replay (found : (db.reservation id).isSome) (ws : List Write) :
    ((dialect.replay ws db).reservation id).isSome := by
  induction ws generalizing db with
  | nil => exact found
  | cons w ws ih =>
    refine ih ?_
    cases w with
    | reservation row =>
      change ((Write.put (.reservation row) db).reservation id).isSome = true
      rw [Database.reservation_put]
      split
      · rfl
      · exact found
    | item | stock | ledger | outbox | processed => exact found

theorem valid_put (valid : db.Valid) (w : Write) : (w.put db).Valid := by
  cases w with
  | reservation row => exact Table.nodup_upsert valid row
  | item | stock | ledger | outbox | processed => exact valid

theorem isSome_reservationOf_put {orderID : ID}
    (alike : db.reservation row.id = none ∧ row.orderID ≠ orderID ∨ ∃ old, db.reservation row.id =
      some old ∧ old.orderID = row.orderID) :
    ((Write.put (.reservation row) db).reservationOf orderID).isSome =
      (db.reservationOf orderID).isSome := by
  simp only [Database.reservationOf, Table.find, Write.put, isSome_find?]
  apply Table.any_upsert
  rcases alike with ⟨fresh, different⟩ | ⟨old, found, same⟩
  · unfold Database.reservation at fresh
    simp [fresh, different]
  · unfold Database.reservation at found
    simp [found, same]

theorem rely_put {others : List Key} {w : Write} (owns : Owns held db w)
    (apart : ∀ key ∈ others, key ∉ held) : Rely others db (w.put db) := by
  refine ⟨collate_put w db, fun key member => ?_⟩
  have free := apart key member
  cases w with
  | reservation row =>
    obtain ⟨locked, alike⟩ := owns
    cases key with
    | reservation id =>
      refine ⟨?_, rfl⟩
      rw [Database.reservation_put, if_neg]
      rintro rfl
      exact free locked
    | order orderID =>
      apply isSome_reservationOf_put
      rcases alike with ⟨fresh, ordered⟩ | replaced
      · refine .inl ⟨fresh, ?_⟩
        rintro rfl
        exact free ordered
      · exact .inr replaced
    | stock sku => rfl
    | inbox | item | outbox => trivial
  | item item =>
    cases key with
    | reservation id =>
      refine ⟨rfl, ?_⟩
      rw [Database.itemsOf_put_item, if_neg, append_nil]
      rintro rfl
      exact free owns
    | order orderID => rfl
    | stock sku => rfl
    | inbox | item | outbox => trivial
  | stock sku row =>
    cases key with
    | stock other =>
      refine Function.update_of_ne ?_ _ _
      rintro rfl
      exact free owns
    | reservation id => exact ⟨rfl, rfl⟩
    | order orderID => rfl
    | inbox | item | outbox => trivial
  | processed | ledger | outbox => exact Key.Same.refl db key

/-- The session has the reservation locked. -/
structure Holding (db : Database) (id : ID) (writes : List Write) (held : List Key) : Prop where
  locked : .reservation id ∈ held
  found : ((dialect.replay writes db).reservation id).isSome

theorem Holding.append (holding : Holding db id writes held) (ws : List Write) (keys : List Key) :
    Holding db id (writes ++ ws) (held ++ keys) where
  locked := mem_append_left _ holding.locked
  found := by
    rw [Dialect.replay_append]
    exact isSome_replay holding.found ws

theorem covered_reservationItems (locked : .reservation id ∈ held) :
    Covered (D := dialect) Rely Owns (.reservationItems id) writes held db := by
  refine ⟨fun db' rely => ⟨?_, rfl, rfl⟩, trivial⟩
  have same := same_replay_reservation (rely.same _ (mem_append_left _ locked)) writes
  have collate : (dialect.replay writes db').collate = (dialect.replay writes db).collate := by
    rw [collate_replay, collate_replay, rely.collate]
  change ((Database.itemsOf _ id).map ReservationItem.line).insertionSort _ =
    ((Database.itemsOf _ id).map ReservationItem.line).insertionSort _
  rw [same.2, collate]

theorem covered_markReservation {state : ReservationState} {reasonCode : Option String}
    (holding : Holding db id writes held) :
    Covered (D := dialect) Rely Owns (.markReservation id state reasonCode) writes held db := by
  refine ⟨fun db' rely => ?_, ?_⟩
  · have same := same_replay_reservation (rely.same _ (mem_append_left _ holding.locked)) writes
    have found := same.1
    refine ⟨?_, ?_, ?_⟩
    · change (Database.marked _ id state reasonCode).all Reservation.admissible =
        (Database.marked _ id state reasonCode).all Reservation.admissible
      rw [Database.marked, Database.marked, found]
    · change (((Database.marked _ id state reasonCode).filter Reservation.admissible).map
        Write.reservation).toList = (((Database.marked _ id state reasonCode).filter
          Reservation.admissible).map Write.reservation).toList
      rw [Database.marked, Database.marked, found]
    · change (if (Database.reservation _ id).isSome then [Key.reservation id] else []) =
        if (Database.reservation _ id).isSome then [Key.reservation id] else []
      rw [found]
  · obtain ⟨old, found⟩ := Option.isSome_iff_exists.mp holding.found
    have named : old.id = id := Table.key_of_find found
    change OwnsAll (D := dialect) Owns _ _ (((Database.marked _ id state reasonCode).filter
      Reservation.admissible).map Write.reservation).toList
    rw [Database.marked, found, Option.map_some, Option.filter_some]
    split
    · refine ⟨⟨mem_append_left _ ?_, .inr ⟨old, ?_, rfl⟩⟩, trivial⟩
      · exact named ▸ holding.locked
      · exact named ▸ found
    · trivial

theorem covered_insertReservationItem {item : ReservationItem}
    (locked : .reservation item.reservationID ∈ held) :
    Covered (D := dialect) Rely Owns (.insertReservationItem item) writes held db := by
  refine ⟨fun db' rely => ?_, ?_⟩
  · have same := same_replay_reservation (rely.same _ (mem_append_left _ locked)) writes
    have admits : ∀ db : Database, db.admits item =
        ((db.reservation item.reservationID).isSome && decide (0 < item.line.quantity) &&
          fitsInt item.line.quantity &&
          !(db.itemsOf item.reservationID).any fun other => other.line.sku == item.line.sku) := by
      intro db
      rw [Database.admits, Database.itemsOf, any_filter]
    have agree : (dialect.replay writes db').admits item =
        (dialect.replay writes db).admits item := by
      rw [admits, admits, same.1, same.2]
    refine ⟨agree, ?_, rfl⟩
    change (if (Database.admits _ item) then [Write.item item] else []) =
      if (Database.admits _ item) then [Write.item item] else []
    rw [agree]
  · change OwnsAll (D := dialect) Owns _ _ (if (Database.admits _ item) then _ else _)
    split
    · exact ⟨mem_append_left _ locked, trivial⟩
    · trivial

theorem stock_mem_keys {row : StockLevel} (updates : db.updating update sku quantity = .level row) :
    .stock sku ∈ Stmt.keys (.updateLevel update sku quantity) db := by
  unfold Database.updating at updates
  split at updates
  · cases updates
  · split at updates
    · cases updates
    · rename_i found
      split at updates
      · cases updates
      · rename_i applies
        simpa [Stmt.keys, found] using applies

theorem covered_updateLevel {row : StockLevel}
    (updates : (dialect.replay writes db).updating update sku quantity = .level row) :
    Covered (D := dialect) Rely Owns (.updateLevel update sku quantity) writes held db := by
  have taken : .stock sku ∈
      held ++ Stmt.keys (.updateLevel update sku quantity) (dialect.replay writes db) :=
    mem_append_right _ (stock_mem_keys updates)
  refine ⟨fun db' rely => ?_, ?_⟩
  · have same := same_replay_stock (rely.same (.stock sku) taken) writes
    have agree : (dialect.replay writes db').updating update sku quantity =
        (dialect.replay writes db).updating update sku quantity := by
      rw [Database.updating, Database.updating, same]
    refine ⟨agree, ?_, ?_⟩
    · exact (writes_level (agree.trans updates)).trans (writes_level updates).symm
    · change (if (Database.stock _ sku).any (update.applies quantity) then [Key.stock sku]
        else []) =
        if (Database.stock _ sku).any (update.applies quantity) then [Key.stock sku] else []
      rw [same]
  · change OwnsAll (D := dialect) Owns _ _ ((Stmt.updateLevel update sku quantity).writes _)
    rw [writes_level updates]
    exact ⟨taken, trivial⟩

theorem covered_writeLedger {entry : LedgerEntry} (locked : .stock entry.sku ∈ held) :
    Covered (D := dialect) Rely Owns (.writeLedger entry) writes held db :=
  ⟨fun _ _ => ⟨rfl, rfl, rfl⟩, mem_append_left _ locked, trivial⟩

theorem covered_enqueue {record : OutboxRecord} :
    Covered (D := dialect) Rely Owns (.enqueue record) writes held db :=
  ⟨fun _ _ => ⟨rfl, rfl, rfl⟩, trivial, trivial⟩

/-- The rest of a transaction of the engine keeps to the locks. -/
abbrev Keeps {α : Type} (db : Database) (p : Tx α) (writes : List Write) (held : List Key)
    (post : α → List Write → List Key → Prop) : Prop :=
  Safe (D := dialect) Rely Owns Stmt.Holds db p writes held post

/-- The reservations a transaction goes through are locked. -/
def HoldingAll (db : Database) (ids : List ID) (writes : List Write) (held : List Key) : Prop :=
  ∀ id ∈ ids, Holding db id writes held

theorem HoldingAll.append {ids : List ID} (holding : HoldingAll db ids writes held)
    (ws : List Write) (keys : List Key) : HoldingAll db ids (writes ++ ws) (held ++ keys) :=
  fun id member => (holding id member).append ws keys

variable {ids : List ID}

theorem keeps_locks_enqueue (record : OutboxRecord) (holding : HoldingAll db ids writes held) :
    Keeps db (enqueue record) writes held fun _ => HoldingAll db ids :=
  ⟨rfl, .inr ⟨covered_enqueue, holding.append _ _⟩⟩

theorem keeps_locks_moveLine (update : LevelUpdate) (line : ReservationLine)
    (holding : HoldingAll db ids writes held) :
    Keeps db (moveLine update line) writes held fun _ writes held =>
      HoldingAll db ids writes held ∧ .stock line.sku ∈ held := by
  cases updates : (dialect.replay writes db).updating update line.sku line.quantity with
  | level row =>
    refine Safe.call rfl updates (covered_updateLevel updates) ⟨holding.append _ _, ?_⟩
    exact mem_append_right _ (stock_mem_keys updates)
  | noRow | rejected => exact Safe.call_doomed rfl updates trivial

theorem keeps_locks_writeLedger {entry : LedgerEntry} (holding : HoldingAll db ids writes held)
    (locked : .stock entry.sku ∈ held) :
    Keeps db (writeLedger entry) writes held fun _ => HoldingAll db ids :=
  ⟨rfl, .inr ⟨covered_writeLedger locked, holding.append _ _⟩⟩

theorem keeps_locks_returnLine (reservationID orderID : ID) (line : ReservationLine)
    (holding : HoldingAll db ids writes held) :
    Keeps db (returnLine reservationID orderID line) writes held fun _ => HoldingAll db ids :=
  (keeps_locks_moveLine .giveBack line holding).bind fun _ _ _ ⟨holding, locked⟩ =>
    keeps_locks_writeLedger holding locked

theorem keeps_locks_commitLine (mint : Mint) (reservationID orderID : ID) (line : ReservationLine)
    (holding : HoldingAll db ids writes held) :
    Keeps db (commitLine mint reservationID orderID line) writes held fun _ => HoldingAll db ids :=
  (keeps_locks_moveLine .commit line holding).bind fun _ _ _ ⟨holding, locked⟩ =>
    (keeps_locks_writeLedger holding locked).bind fun _ _ _ holding =>
      keeps_locks_enqueue _ holding

theorem keeps_locks_reservationItems (member : id ∈ ids) (holding : HoldingAll db ids writes held) :
    Keeps db (reservationItems id) writes held fun _ => HoldingAll db ids :=
  ⟨rfl, .inr ⟨covered_reservationItems (holding id member).locked, holding.append _ _⟩⟩

theorem keeps_locks_returnStock (orderID : ID) (member : id ∈ ids)
    (holding : HoldingAll db ids writes held) :
    Keeps db (returnStock id orderID) writes held fun _ => HoldingAll db ids :=
  (keeps_locks_reservationItems member holding).bind fun _ _ _ holding =>
    Safe.forEach (fun line _ _ _ holding => keeps_locks_returnLine id orderID line holding) holding

theorem keeps_locks_markReservation (state : ReservationState) (reasonCode : String)
    (member : id ∈ ids) (holding : HoldingAll db ids writes held) :
    Keeps db (markReservation id state reasonCode) writes held fun _ => HoldingAll db ids := by
  cases marks : Stmt.answer (.markReservation id state (nullIfEmpty reasonCode))
      (dialect.replay writes db) with
  | true =>
    exact Safe.call rfl marks (covered_markReservation (holding id member)) (holding.append _ _)
  | false => exact Safe.call_doomed rfl marks trivial

def recordLine (reservationID orderID : ID) (line : ReservationLine) (row : StockLevel) :
    Tx (Option UnavailableSKU) := do
  insertReservationItem ⟨reservationID, line⟩
  writeLedger
    { sku := line.sku, reservationID := some reservationID, orderID := some orderID,
      movement := .reservation, quantity := line.quantity, onHandAfter := row.onHand,
      reservedAfter := row.reserved }
  pure none

theorem keeps_locks_recordLine {reservationID : ID} (orderID : ID) (line : ReservationLine)
    (row : StockLevel) (member : reservationID ∈ ids) (holding : HoldingAll db ids writes held)
    (locked : .stock line.sku ∈ held) :
    Keeps db (recordLine reservationID orderID line row) writes held fun result writes held =>
      result = none ∧ HoldingAll db ids writes held := by
  cases takes : (dialect.replay writes db).admits ⟨reservationID, line⟩ with
  | true =>
    refine Safe.call rfl takes (covered_insertReservationItem (holding _ member).locked) ?_
    exact (keeps_locks_writeLedger (holding.append _ _) (mem_append_left _ locked)).bind
      fun _ _ _ holding => ⟨rfl, holding⟩
  | false => exact Safe.call_doomed rfl takes trivial

theorem only_orFail {good : Stmt → Prop} (answer : InsertAnswer) :
    (orFail answer).Only (D := dialect) good := by
  cases answer <;> trivial

/-- Statements of the kinds that taking the lines of a reservation sends. -/
structure SendsLines (good : Stmt → Prop) : Prop where
  update : ∀ sku quantity, good (.updateLevel .take sku quantity)
  available : ∀ sku, good (.availableFor sku)
  item : ∀ item, good (.insertReservationItem item)
  ledger : ∀ entry, good (.writeLedger entry)

theorem SendsLines.takeLines {good : Stmt → Prop} (sends : SendsLines good)
    (reservationID orderID : ID) (lines : List ReservationLine) :
    (takeLines reservationID orderID lines).Only good := by
  induction lines with
  | nil => trivial
  | cons line lines ih =>
    refine Program.Only.bind ⟨sends.update .., fun answer => ?_⟩ fun _ => ih.bind fun _ => trivial
    cases answer with
    | level row =>
      refine ⟨sends.item _, fun taken => ?_⟩
      cases taken
      · trivial
      · exact ⟨sends.ledger _, fun _ => trivial⟩
    | noRow => exact ⟨sends.available _, fun _ => trivial⟩
    | rejected => trivial

theorem only_takeLines (reservationID orderID : ID) (lines : List ReservationLine) :
    (takeLines reservationID orderID lines).Only Stmt.Holds :=
  SendsLines.takeLines ⟨fun _ _ => trivial, fun _ => trivial, fun _ => trivial, fun _ => trivial⟩
    reservationID orderID lines

section Taking

variable {α : Type} {post : α → List Write → List Key → Prop} {reservationID : ID}

/-- A line that fell short ends the reservation, whatever comes after. -/
theorem keeps_locks_takeLine {f : Option UnavailableSKU → Tx α} (orderID : ID)
    (line : ReservationLine) (member : reservationID ∈ ids)
    (holding : HoldingAll db ids writes held) (short : ∀ sku, (f (some sku)).Doomed Stmt.Holds)
    (full : ∀ writes held, HoldingAll db ids writes held → Keeps db (f none) writes held post) :
    Keeps db (takeLine reservationID orderID line >>= f) writes held post := by
  cases updates : (dialect.replay writes db).updating .take line.sku line.quantity with
  | level row =>
    refine Safe.call rfl updates (covered_updateLevel updates) ?_
    refine (keeps_locks_recordLine orderID line row member (holding.append _ _)
      (mem_append_right held (stock_mem_keys updates))).bind ?_
    rintro _ writes held ⟨rfl, holding⟩
    exact full writes held holding
  | noRow => exact Safe.call_doomed rfl updates ⟨trivial, fun _ => short _⟩
  | rejected => exact Safe.call_doomed rfl updates trivial

theorem keeps_locks_takeLines {f : List UnavailableSKU → Tx α} (orderID : ID)
    (lines : List ReservationLine) (member : reservationID ∈ ids)
    (holding : HoldingAll db ids writes held)
    (short : ∀ sku skus, (f (sku :: skus)).Doomed Stmt.Holds)
    (full : ∀ writes held, HoldingAll db ids writes held → Keeps db (f []) writes held post) :
    Keeps db (takeLines reservationID orderID lines >>= f) writes held post := by
  induction lines generalizing writes held with
  | nil => exact full writes held holding
  | cons line lines ih =>
    rw [takeLines, bind_assoc]
    refine keeps_locks_takeLine orderID line member holding (fun sku => ?_) ?_
    · rw [bind_assoc]
      exact (only_takeLines reservationID orderID lines).doomed_bind fun skus => short sku skus
    · intro writes held holding
      rw [bind_assoc]
      exact ih holding

end Taking

theorem keeps_locks_expire (mint : Mint) (member : row.id ∈ ids)
    (holding : HoldingAll db ids writes held) :
    Keeps db (expire mint row) writes held fun _ => HoldingAll db ids :=
  (keeps_locks_returnStock row.orderID member holding).bind fun _ _ _ holding =>
    (keeps_locks_markReservation .released "TTL_EXPIRED" member holding).bind fun _ _ _ holding =>
      keeps_locks_enqueue _ holding

def setStatus (sku : ID) (status : StockStatus) : Tx Unit := do
  match ← updateLevel (.setStatus status) sku 0 with
  | .rejected => .fail .rejected
  | .noRow => pure ()
  | .level _ => pure ()

/-- The transactions of the service, and the changes of status made outside it. -/
inductive Transaction : Tx Unit → Prop where
  | reserve (mint : Mint) (now : Time) (reservationID orderID : ID)
      (items : List ReservationLine) (ttl : Nat) :
      Transaction (reserve mint now reservationID orderID items ttl).void
  | publishFailure (mint : Mint) (reservationID orderID : ID)
      (unavailable : List UnavailableSKU) :
      Transaction (publishFailure mint reservationID orderID unavailable)
  | release (mint : Mint) (reservationID orderID : ID) (reasonCode : String) :
      Transaction (release mint reservationID orderID reasonCode).void
  | commit (mint : Mint) (reservationID orderID : ID) :
      Transaction (commit mint reservationID orderID)
  | sweepExpired (mint : Mint) (batch : Nat) (now : Time) (locked : List ID) :
      Transaction (sweepExpired mint batch now locked)
  | adjust (mint : Mint) (sku : ID) (delta : Int) (movement note actor : String) {tx : Tx Level}
      (accepted : adjustRequest mint sku delta movement note actor = .ok tx) :
      Transaction tx.void
  | setStatus (sku : ID) (status : StockStatus) :
      Transaction (setStatus sku status)

/-- What is left of `Reserve` when it found no reservation. -/
def holdUnlessOrdered (mint : Mint) (now : Time) (reservationID orderID : ID)
    (lines : List ReservationLine) (ttl : Nat) : Tx ReserveResult := do
  match ← reservationForOrder orderID with
  | some other =>
    if other ≠ reservationID then pure { outcome := .alreadyProcessed, state := .reserved }
    else hold mint now reservationID orderID lines ttl
  | none => hold mint now reservationID orderID lines ttl

/-- What is left of `Release` when it found no reservation. -/
def tombstone (mint : Mint) (reservationID orderID : ID) (reasonCode : String) : Tx Bool := do
  insertReservation
    { id := reservationID, orderID := orderID, state := .released, wasTombstone := true,
      reasonCode := nullIfEmpty reasonCode }
  enqueue ⟨mint.eventID, .released orderID reservationID true⟩
  pure true

def relock (row : Reservation) : Tx Unit := do
  match ← loadReservationForUpdate row.id with
  | some found => if found = row then pure () else .fail .rejected
  | none => .fail .reservationNotFound

/-- What a sweep amounts to once it has picked its rows. -/
def expireRows (mint : Mint) (rows : List Reservation) : Tx Unit := do
  Program.forEach relock rows
  Program.forEach (expire mint) rows

/-- The transactions, and what is left of them when their first reads locked
nothing. -/
inductive Residual : Tx Unit → Prop where
  | transaction {p : Tx Unit} (transaction : Transaction p) : Residual p
  | stop : Residual (pure ())
  | holdUnlessOrdered (mint : Mint) (now : Time) (reservationID orderID : ID)
      (lines : List ReservationLine) (ttl : Nat) :
      Residual (holdUnlessOrdered mint now reservationID orderID lines ttl).void
  | hold (mint : Mint) (now : Time) (reservationID orderID : ID) (lines : List ReservationLine)
      (ttl : Nat) : Residual (hold mint now reservationID orderID lines ttl).void
  | tombstone (mint : Mint) (reservationID orderID : ID) (reasonCode : String) :
      Residual (tombstone mint reservationID orderID reasonCode).void
  | enqueue (record : OutboxRecord) : Residual (enqueue record)
  | refused (e : Err) : Residual (.fail e)
  | expireRows (mint : Mint) (rows : List Reservation)
      (distinct : (rows.map Reservation.id).Nodup) (live : ∀ row ∈ rows, row.state = .reserved) :
      Residual (expireRows mint rows)

/-- Statements of the kinds that `reserve` sends. -/
structure SendsReserve (mint : Mint) (good : Stmt → Prop) : Prop extends SendsLines good where
  load : ∀ id, good (.loadReservationForUpdate id)
  ordered : ∀ orderID, good (.reservationForOrder orderID)
  insert : ∀ row, row.state = .reserved → good (.insertReservation row)
  announce : ∀ orderID id lines expiresAt,
    good (.enqueue ⟨mint.eventID, .reserved orderID id lines expiresAt⟩)

namespace SendsReserve

variable {good : Stmt → Prop} {mint : Mint} (sends : SendsReserve mint good) (now : Time)
  (reservationID orderID : ID) (lines : List ReservationLine) (ttl : Nat)

include sends

theorem hold : (hold mint now reservationID orderID lines ttl).Only good := by
  refine Program.Only.bind ⟨sends.insert _ rfl, only_orFail⟩ fun _ =>
    (sends.takeLines _ _ lines).bind fun unavailable => ?_
  cases unavailable with
  | nil => exact ⟨sends.announce .., fun _ => trivial⟩
  | cons sku skus => trivial

theorem holdUnlessOrdered :
    (holdUnlessOrdered mint now reservationID orderID lines ttl).Only good := by
  refine ⟨sends.ordered _, fun answer => ?_⟩
  cases answer with
  | none => exact sends.hold ..
  | some other =>
    change Program.Only (D := dialect) _ (if other ≠ reservationID then _ else _)
    split
    · trivial
    · exact sends.hold ..

theorem reserve : (reserve mint now reservationID orderID lines ttl).Only good := by
  unfold Inventory.reserve
  split
  · trivial
  · split
    · trivial
    · refine ⟨sends.load _, fun answer => ?_⟩
      cases answer with
      | some existing => trivial
      | none => exact sends.holdUnlessOrdered ..

end SendsReserve

/-- The program of a transaction begins as the locks demand, and what is left of it
is offered where it read only. -/
abbrev Begins (offered : Tx Unit → Prop) (p : Tx Unit) : Prop :=
  p.Opens (D := dialect) Database.Valid Rely Owns Stmt.Holds offered

theorem covered_load (found : (dialect.replay writes db).reservation id = some row) :
    Covered (D := dialect) Rely Owns (.loadReservationForUpdate id) writes held db := by
  have taken : .reservation id ∈
      held ++ Stmt.keys (.loadReservationForUpdate id) (dialect.replay writes db) := by
    simp [Stmt.keys, found]
  refine ⟨fun db' rely => ?_, trivial⟩
  have same := same_replay_reservation (rely.same _ taken) writes
  refine ⟨same.1, rfl, ?_⟩
  change (if (Database.reservation _ id).isSome then [Key.reservation id] else []) =
    if (Database.reservation _ id).isSome then [Key.reservation id] else []
  rw [same.1]

theorem covered_insertReservation (free : db.inserting row = .inserted) :
    Covered (D := dialect) Rely Owns (.insertReservation row) [] [] db := by
  refine ⟨fun db' rely => ?_, ?_⟩
  · have named := rely.same (.reservation row.id) mem_cons_self
    have ordered := rely.same (.order row.orderID) (mem_cons_of_mem _ mem_cons_self)
    have agree : db'.inserting row = db.inserting row := by
      rw [Database.inserting, Database.inserting, named.1, ordered]
    refine ⟨agree, ?_, rfl⟩
    change (if Database.inserting db' row = .inserted then [Write.reservation row] else []) =
      if db.inserting row = .inserted then [Write.reservation row] else []
    rw [agree]
  · change OwnsAll (D := dialect) Owns _ _
      (if db.inserting row = .inserted then [Write.reservation row] else [])
    rw [if_pos free]
    obtain ⟨absent, -⟩ := inserting_eq_inserted free
    exact ⟨⟨mem_cons_self, .inl ⟨absent, mem_cons_of_mem _ mem_cons_self⟩⟩,
      trivial⟩

theorem covered_insertReservationIfAbsent (free : db.inserting row = .inserted) :
    Covered (D := dialect) Rely Owns (.insertReservationIfAbsent row) [] [] db := by
  obtain ⟨absent, -⟩ := inserting_eq_inserted free
  have locks : dialect.keys (.insertReservationIfAbsent row) db =
      [.reservation row.id, .order row.orderID] := by
    simp [Stmt.keys, absent]
  have covered := covered_insertReservation free
  refine ⟨fun db' rely => ?_, ?_⟩
  · rw [Dialect.replay_nil, locks] at rely
    obtain ⟨answer, wrote, -⟩ := covered.steady db' rely
    have absent' : db'.reservation row.id = none :=
      (rely.same _ mem_cons_self).1.trans absent
    refine ⟨?_, wrote, ?_⟩
    · change (if (db'.reservation row.id).isSome then InsertAnswer.inserted else
        db'.inserting row) =
        if (db.reservation row.id).isSome then InsertAnswer.inserted else db.inserting row
      rw [absent, absent']
      exact answer
    · change (if (db'.reservation row.id).isSome then [] else _) =
        if (db.reservation row.id).isSome then [] else _
      rw [absent, absent']
  · have owns := covered.owns
    rw [Dialect.replay_nil] at owns ⊢
    rw [locks]
    exact owns

variable {offered : Tx Unit → Prop}

theorem holding_load (found : db.reservation id = some row) :
    HoldingAll db [id] [] [.reservation id] := by
  intro other member
  obtain rfl := mem_singleton.mp member
  refine ⟨mem_singleton_self _, ?_⟩
  change (db.reservation other).isSome = true
  rw [found]
  rfl

theorem begins_load {rest : Option Reservation → Tx Unit}
    (offers : offered (.call (.loadReservationForUpdate id) rest)) (absent : offered (rest none))
    (present : ∀ db row writes held, HoldingAll db [id] writes held → Keeps db (rest (some row))
      writes held fun _ _ _ => True) :
    Begins offered (.call (.loadReservationForUpdate id) rest) := by
  refine Opens.of_covered offers rfl ?_ ?_
  · rintro db answer rfl quiet
    have missing : db.reservation id = none := by
      simpa [Quiet, Stmt.keys] using quiet.2
    change offered (rest (db.reservation id))
    rwa [missing]
  · intro db answer answers loud
    cases answer with
    | none => exact (loud
        ⟨rfl, by simp [Stmt.keys, show db.reservation id = none from answers]⟩).elim
    | some row =>
      have found : db.reservation id = some row := answers
      have taken : dialect.keys (.loadReservationForUpdate id) db = [.reservation id] := by
        simp [Stmt.keys, found]
      refine .inr ⟨covered_load found, ?_⟩
      rw [taken]
      exact present db row _ _ (holding_load found)

theorem holding_insert (row : Reservation) (db : Database) :
    HoldingAll db [row.id] [.reservation row] [.reservation row.id, .order row.orderID] := by
  intro other member
  obtain rfl := mem_singleton.mp member
  refine ⟨mem_cons_self, ?_⟩
  change ((Write.put (.reservation row) db).reservation row.id).isSome = true
  rw [Database.reservation_put, if_pos rfl]
  rfl

theorem begins_insert {rest : InsertAnswer → Tx Unit}
    (offers : offered (.call (.insertReservation row) rest))
    (refuses : ∀ answer, answer ≠ .inserted → (rest answer).Doomed Stmt.Holds)
    (inserts : ∀ db writes held, HoldingAll db [row.id] writes held → Keeps db (rest .inserted)
      writes held fun _ _ _ => True) :
    Begins offered (.call (.insertReservation row) rest) := by
  refine Opens.of_covered offers rfl ?_ ?_
  · rintro db answer - quiet
    cases quiet.2
  · rintro db answer answers -
    by_cases free : answer = .inserted
    · subst free
      refine .inr ⟨covered_insertReservation answers, ?_⟩
      have wrote : dialect.writes (.insertReservation row) db = [.reservation row] :=
        if_pos answers
      rw [wrote]
      exact inserts db _ _ (holding_insert row db)
    · exact .inl (refuses answer free)

theorem begins_insertIfAbsent {rest : InsertAnswer → Tx Unit}
    (offers : offered (.call (.insertReservationIfAbsent row) rest))
    (refuses : ∀ answer, answer ≠ .inserted → (rest answer).Doomed Stmt.Holds)
    (taken : offered (rest .inserted))
    (inserts : ∀ db writes held, HoldingAll db [row.id] writes held → Keeps db (rest .inserted)
      writes held fun _ _ _ => True) :
    Begins offered (.call (.insertReservationIfAbsent row) rest) := by
  refine Opens.of_covered offers rfl ?_ ?_
  · rintro db answer rfl quiet
    have found : (db.reservation row.id).isSome = true := by
      simpa [Quiet, Stmt.keys, Option.isSome_iff_ne_none] using quiet.2
    change offered (rest (if (db.reservation row.id).isSome then _ else _))
    rwa [if_pos found]
  · rintro db answer answers loud
    by_cases found : (db.reservation row.id).isSome = true
    · refine (loud ⟨?_, if_pos found⟩).elim
      change (if db.inserting row = .inserted then _ else _) = _
      simp [Database.inserting, found]
    · have answers : db.inserting row = answer := by
        rw [← answers]
        exact (if_neg found).symm
      by_cases free : answer = .inserted
      · subst free
        have wrote : dialect.writes (.insertReservationIfAbsent row) db = [.reservation row] :=
          if_pos answers
        have locks : dialect.keys (.insertReservationIfAbsent row) db =
            [.reservation row.id, .order row.orderID] := if_neg found
        refine .inr ⟨covered_insertReservationIfAbsent answers, ?_⟩
        rw [wrote, locks]
        exact inserts db _ _ (holding_insert row db)
      · exact .inl (refuses answer free)

theorem begins_updateLevel {rest : LevelAnswer → Tx Unit}
    (offers : offered (.call (.updateLevel update sku quantity) rest))
    (refuses : (rest .rejected).Doomed Stmt.Holds) (rejects : offered (rest .rejected))
    (passes : offered (rest .noRow))
    (updates : ∀ db row writes held, .stock sku ∈ held → Keeps db (rest (.level row)) writes held
      fun _ _ _ => True) :
    Begins offered (.call (.updateLevel update sku quantity) rest) := by
  refine Opens.of_covered offers rfl ?_ ?_
  · intro db answer answers quiet
    cases answer with
    | level row =>
      have taken := stock_mem_keys answers
      rw [show Stmt.keys (.updateLevel update sku quantity) db = [] from quiet.2] at taken
      cases taken
    | noRow => exact passes
    | rejected => exact rejects
  · intro db answer answers loud
    cases answer with
    | level row =>
      exact .inr ⟨covered_updateLevel answers, updates db row _ _ (stock_mem_keys answers)⟩
    | noRow =>
      refine (loud ⟨?_, ?_⟩).elim
      · exact writes_noRow answers
      · have missing : db.updating update sku quantity = .noRow := answers
        unfold Database.updating at missing
        change (if (db.stock sku).any (update.applies quantity) then [Key.stock sku] else []) = []
        split at missing
        · cases missing
        · split at missing
          · rename_i absent
            simp [absent]
          · rename_i found
            split at missing
            · rename_i applies
              simpa [found] using applies
            · split at missing <;> cases missing
    | rejected => exact .inl refuses

theorem begins_hold (mint : Mint) (now : Time) (reservationID orderID : ID)
    (lines : List ReservationLine) (ttl : Nat)
    (offers : offered (hold mint now reservationID orderID lines ttl).void) :
    Begins offered (hold mint now reservationID orderID lines ttl).void := by
  refine begins_insert offers ?_ ?_
  · intro answer refused
    cases answer with
    | inserted => exact (refused rfl).elim
    | duplicate => trivial
    | rejected => trivial
  · intro db writes held holding
    refine Safe.void (keeps_locks_takeLines orderID lines (mem_singleton_self reservationID)
      holding (fun sku skus => trivial) fun writes held holding => ?_)
    exact (keeps_locks_enqueue _ holding).bind fun _ _ _ _ => trivial

theorem begins_tombstone (mint : Mint) (reservationID orderID : ID) (reasonCode : String)
    (offers : offered (tombstone mint reservationID orderID reasonCode).void) :
    Begins offered (tombstone mint reservationID orderID reasonCode).void := by
  refine begins_insert offers ?_ ?_
  · intro answer refused
    cases answer with
    | inserted => exact (refused rfl).elim
    | duplicate => trivial
    | rejected => trivial
  · intro db writes held holding
    have announced : Keeps db (do
        enqueue ⟨mint.eventID, .released orderID reservationID true⟩
        pure true) writes held fun _ _ _ => True :=
      (keeps_locks_enqueue _ holding).bind fun _ _ _ _ => trivial
    exact announced.void

theorem begins_publishFailure (mint : Mint) (reservationID orderID : ID)
    (unavailable : List UnavailableSKU)
    (offers : offered (publishFailure mint reservationID orderID unavailable))
    (announces : offered (enqueue ⟨mint.eventID,
      .reservationFailed orderID reservationID "INSUFFICIENT_STOCK" unavailable⟩)) :
    Begins offered (publishFailure mint reservationID orderID unavailable) := by
  refine begins_insertIfAbsent offers ?_ ?_ ?_
  · intro answer refused
    cases answer with
    | inserted => exact (refused rfl).elim
    | duplicate => trivial
    | rejected => trivial
  · exact announces
  · intro db writes held holding
    exact (keeps_locks_enqueue _ holding).mono fun _ _ _ _ => trivial

theorem begins_release (mint : Mint) (reservationID orderID : ID) (reasonCode : String)
    (offers : offered (release mint reservationID orderID reasonCode).void)
    (absent : offered (tombstone mint reservationID orderID reasonCode).void) :
    Begins offered (release mint reservationID orderID reasonCode).void := by
  refine begins_load offers absent fun db row writes held holding => ?_
  have announces : ∀ writes held, HoldingAll db [reservationID] writes held → Keeps db (do
        enqueue ⟨mint.eventID, .released orderID reservationID false⟩
        pure false) writes held fun _ _ _ => True := fun writes held holding =>
    (keeps_locks_enqueue _ holding).bind fun _ _ _ _ => trivial
  obtain ⟨id, order, state, wasTombstone, reason, expiresAt⟩ := row
  cases state with
  | committed => trivial
  | reserved =>
    exact Safe.void ((keeps_locks_returnStock orderID (mem_singleton_self _) holding).bind
      fun _ _ _ holding =>
        (keeps_locks_markReservation _ _ (mem_singleton_self _) holding).bind
          fun _ _ _ holding => announces _ _ holding)
  | released | failed => exact Safe.void (announces _ _ holding)

theorem begins_commit (mint : Mint) (reservationID orderID : ID)
    (offers : offered (commit mint reservationID orderID))
    (absent : offered (.fail .reservationNotFound)) :
    Begins offered (commit mint reservationID orderID) := by
  refine begins_load offers absent fun db row writes held holding => ?_
  have announces : ∀ writes held, HoldingAll db [reservationID] writes held →
      Keeps db (enqueue ⟨mint.eventID, .committed orderID reservationID⟩) writes held
        fun _ _ _ => True := fun writes held holding =>
    (keeps_locks_enqueue _ holding).mono fun _ _ _ _ => trivial
  obtain ⟨id, order, state, wasTombstone, reason, expiresAt⟩ := row
  cases state with
  | committed => exact announces _ _ holding
  | reserved =>
    refine (keeps_locks_reservationItems (mem_singleton_self _) holding).bind
      fun lines _ _ holding => ?_
    refine (Safe.forEach (fun line _ _ _ holding =>
      keeps_locks_commitLine mint reservationID orderID line holding) holding).bind
        fun _ _ _ holding => ?_
    exact (keeps_locks_markReservation _ _ (mem_singleton_self _) holding).bind
      fun _ _ _ holding => announces _ _ holding
  | released => trivial
  | failed => trivial

theorem begins_reserve (mint : Mint) (now : Time) (reservationID orderID : ID)
    (items : List ReservationLine) (ttl : Nat)
    (offers : offered (reserve mint now reservationID orderID items ttl).void)
    (absent : ∀ lines, offered (holdUnlessOrdered mint now reservationID orderID lines ttl).void) :
    Begins offered (reserve mint now reservationID orderID items ttl).void := by
  by_cases empty : items.isEmpty = true
  · simp only [reserve, empty, ↓reduceIte]
    trivial
  · simp only [reserve, empty, Bool.false_eq_true, ↓reduceIte] at offers ⊢
    cases collected : wanted items with
    | error err => trivial
    | ok lines =>
      rw [collected] at offers
      exact begins_load offers (absent lines) fun _ _ _ _ _ => trivial

theorem begins_holdUnlessOrdered (mint : Mint) (now : Time) (reservationID orderID : ID)
    (lines : List ReservationLine) (ttl : Nat)
    (offers : offered (holdUnlessOrdered mint now reservationID orderID lines ttl).void)
    (stops : offered (pure ()))
    (held : offered (hold mint now reservationID orderID lines ttl).void) :
    Begins offered (holdUnlessOrdered mint now reservationID orderID lines ttl).void := by
  refine Opens.of_covered offers rfl ?_ fun db answer _ loud => (loud ⟨rfl, rfl⟩).elim
  intro db answer _ _
  cases answer with
  | none => exact held
  | some other =>
    change offered (void (if other ≠ reservationID then _ else _))
    split
    · exact stops
    · exact held

theorem begins_enqueue (record : OutboxRecord) (offers : offered (enqueue record)) :
    Begins offered (enqueue record) := by
  refine Opens.of_covered offers rfl ?_ ?_
  · intro db answer _ quiet
    cases quiet.2
  · intro db answer _ _
    exact .inr ⟨covered_enqueue, trivial⟩

theorem begins_adjust {mint : Mint} {delta : Int} {movement note actor : String} {tx : Tx Level}
    (accepted : adjustRequest mint sku delta movement note actor = .ok tx) :
    Begins Residual tx.void := by
  have offers : Residual tx.void := .transaction (.adjust _ _ _ _ _ _ accepted)
  unfold adjustRequest at accepted
  split at accepted
  · cases accepted
  · split at accepted
    · cases accepted
    · rename_i kind _ _
      cases accepted
      refine begins_updateLevel offers trivial (.refused _) (.refused _)
        fun db row writes held locked => ?_
      have recorded : Keeps db (do
          writeLedger
            { sku := sku, movement := kind, quantity := delta, onHandAfter := row.onHand,
              reservedAfter := row.reserved, actor := if actor = "" then "system" else actor,
              note := nullIfEmpty note }
          enqueue ⟨mint.eventID, .stockChanged sku row.onHand row.reserved
            (max (row.onHand - row.reserved) 0) kind⟩
          pure ⟨sku, row.onHand, row.reserved, max (row.onHand - row.reserved) 0, .active⟩ :
            Tx Level) writes held fun _ _ _ => True :=
        (keeps_locks_writeLedger (fun _ => nofun : HoldingAll db [] writes held) locked).bind
          fun _ _ _ holding => (keeps_locks_enqueue _ holding).bind fun _ _ _ _ => trivial
      exact recorded.void

theorem begins_setStatus (sku : ID) (status : StockStatus) :
    Begins Residual (setStatus sku status) :=
  begins_updateLevel (.transaction (.setStatus sku status)) trivial (.refused _) .stop
    fun _ _ _ _ _ => trivial

/-! ### The sweep -/

theorem keeps_locks_relock (row : Reservation) (holding : HoldingAll db ids writes held) :
    Keeps db (relock row) writes held fun _ => HoldingAll db (row.id :: ids) := by
  cases found : (dialect.replay writes db).reservation row.id with
  | none => exact Safe.call_doomed rfl found trivial
  | some version =>
    refine Safe.call rfl found (covered_load found) ?_
    change Keeps db (if version = row then pure () else .fail .rejected) _ _ _
    split
    · intro id member
      rcases mem_cons.mp member with rfl | member
      · refine ⟨mem_append_right _ ?_, ?_⟩
        · change _ ∈ Stmt.keys (.loadReservationForUpdate row.id) _
          simp [Stmt.keys, found]
        · change ((dialect.replay (writes ++ []) db).reservation row.id).isSome = true
          rw [append_nil, found]
          rfl
      · exact (holding id member).append _ _
    · trivial

theorem keeps_locks_relocks (rows : List Reservation) (holding : HoldingAll db ids writes held) :
    Keeps db (forEach relock rows) writes held fun _ writes held =>
      HoldingAll db ids writes held ∧ HoldingAll db (rows.map Reservation.id) writes held := by
  induction rows generalizing ids writes held with
  | nil => exact ⟨holding, fun _ => nofun⟩
  | cons row rows ih =>
    rw [forEach_cons]
    refine (keeps_locks_relock row holding).bind fun _ _ _ holding => ?_
    refine (ih holding).mono fun _ _ _ ⟨earlier, later⟩ => ⟨fun id member => ?_, ?_⟩
    · exact earlier id (mem_cons_of_mem _ member)
    · intro id member
      rcases mem_cons.mp member with rfl | member
      · exact earlier _ mem_cons_self
      · exact later id member

theorem keeps_locks_expireAll (mint : Mint)
    (holding : HoldingAll db (rows.map Reservation.id) writes held) :
    Keeps db (forEach (expire mint) rows) writes held fun _ _ _ => True :=
  (Safe.forEach (fun _ member _ _ holding =>
    keeps_locks_expire mint (mem_map_of_mem member) holding) holding).mono fun _ _ _ _ => trivial

theorem begins_expireRows (mint : Mint) (distinct : (rows.map Reservation.id).Nodup)
    (live : ∀ row ∈ rows, row.state = .reserved) :
    Begins Residual (expireRows mint rows) := by
  have offers : Residual (expireRows mint rows) := .expireRows mint rows distinct live
  cases rows with
  | nil => trivial
  | cons row rows =>
    refine begins_load offers (.refused .reservationNotFound)
      fun db version writes held holding => ?_
    change Keeps db ((bind (if version = row then pure () else .fail .rejected)
      fun _ => forEach relock rows) >>= fun _ => forEach (expire mint) (row :: rows)) writes held _
    split
    · refine (keeps_locks_relocks rows holding).bind fun _ writes held ⟨first, others⟩ => ?_
      refine keeps_locks_expireAll mint fun id member => ?_
      rcases mem_cons.mp member with rfl | member
      · exact first _ mem_cons_self
      · exact others id member
    · trivial

theorem Follows.relocks {p : Tx Unit} {rest : Tx Unit}
    (found : ∀ row ∈ rows, db.reservation row.id = some row)
    (path : Follows (D := dialect) Rely p db (forEach relock rows >>= fun _ => rest) [] held) :
    Follows (D := dialect) Rely p db rest [] (held ++ rows.map fun row => .reservation row.id) := by
  induction rows generalizing held with
  | nil =>
    rw [map_nil, append_nil]
    exact path
  | cons row rows ih =>
    have present : db.reservation row.id = some row := found row mem_cons_self
    have covered : Covered (D := dialect) Rely Owns (.loadReservationForUpdate row.id) [] held db :=
      covered_load present
    have locks : dialect.keys (.loadReservationForUpdate row.id) (dialect.replay [] db) =
        [.reservation row.id] := by
      change (if (db.reservation row.id).isSome then _ else _) = _
      rw [present]
      rfl
    have next := Follows.next path covered.steady
    rw [show dialect.answer (.loadReservationForUpdate row.id) (dialect.replay [] db) = some row
      from present, locks] at next
    change Follows (D := dialect) Rely p db ((bind
      (if row = row then pure () else .fail .rejected) fun _ => forEach relock rows) >>=
        fun _ => rest) [] (held ++ [.reservation row.id]) at next
    rw [if_pos rfl] at next
    have later := ih (fun other member => found other (mem_cons_of_mem _ member)) next
    rwa [append_assoc] at later

theorem follows_expireRows (mint : Mint)
    (found : ∀ other ∈ row :: rows, db.reservation other.id = some other) :
    Follows (D := dialect) Rely (expireRows mint (row :: rows)) db
      (forEach (expire mint) (row :: rows)) []
      ((row :: rows).map fun other => .reservation other.id) := by
  have present : db.reservation row.id = some row := found row mem_cons_self
  have covered : Covered (D := dialect) Rely Owns (.loadReservationForUpdate row.id) [] [] db :=
    covered_load present
  have locks : dialect.keys (.loadReservationForUpdate row.id) db = [.reservation row.id] := by
    change (if (db.reservation row.id).isSome then _ else _) = _
    rw [present]
    rfl
  have loud : ¬ Quiet (D := dialect) (.loadReservationForUpdate row.id) db := by
    rintro ⟨-, quiet⟩
    cases locks.symm.trans quiet
  have first := Follows.first (p := expireRows mint (row :: rows)) rfl loud covered.steady
  rw [show dialect.answer (.loadReservationForUpdate row.id) db = some row from present,
    locks] at first
  change Follows (D := dialect) Rely _ db ((bind
    (if row = row then pure () else .fail .rejected) fun _ => forEach relock rows) >>=
      fun _ => forEach (expire mint) (row :: rows)) [] [.reservation row.id] at first
  rw [if_pos rfl] at first
  exact Follows.relocks (fun other member => found other (mem_cons_of_mem _ member)) first

theorem mem_claimed {batch : Nat} {now : Time} {locked : List ID}
    (member : row ∈ db.claimed batch now locked) :
    row ∈ db.reservations ∧ row.state = .reserved := by
  have expired := (mem_filter.mp (mem_of_mem_take member)).1
  have filtered := (mem_insertionSort _).mp expired
  obtain ⟨there, late⟩ := mem_filter.mp filtered
  simp only [Bool.and_eq_true, beq_iff_eq] at late
  exact ⟨there, late.1⟩

theorem nodup_claimed (valid : db.Valid) (batch : Nat) (now : Time) (locked : List ID) :
    ((db.claimed batch now locked).map Reservation.id).Nodup := by
  have part : (db.claimed batch now locked).Sublist (db.expired now) :=
    (take_sublist _ _).trans filter_sublist
  refine (part.map _).nodup (((perm_insertionSort _ _).map _).nodup_iff.mpr ?_)
  exact (filter_sublist.map _).nodup valid

theorem begins_sweepExpired (mint : Mint) (batch : Nat) (now : Time) (locked : List ID) :
    Begins Residual (sweepExpired mint batch now locked) := by
  refine ⟨fun answer skips => ?_, fun db quiet => ?_, fun db valid loud => .inr ?_,
    fun db loud => .inr ⟨trivial, ?_⟩⟩
  · cases skips
    exact .stop
  · have none' : db.claimed batch now locked = [] := map_eq_nil_iff.mp quiet.2
    change Residual (forEach (expire mint) (db.claimed batch now locked))
    rw [none']
    exact .stop
  · have found : ∀ row ∈ db.claimed batch now locked, db.reservation row.id = some row :=
      fun row member => Table.find_of_mem valid (mem_claimed member).1
    refine ⟨expireRows mint (db.claimed batch now locked),
      .expireRows mint _ (nodup_claimed valid batch now locked) fun _ member =>
        (mem_claimed member).2, ?_⟩
    change Follows (D := dialect) Rely _ db (forEach (expire mint) (db.claimed batch now locked)) []
      ((db.claimed batch now locked).map fun row => .reservation row.id)
    cases claimed : db.claimed batch now locked with
    | nil => exact (loud ⟨rfl, congrArg (List.map _) claimed⟩).elim
    | cons row rows =>
      rw [claimed] at found
      exact follows_expireRows mint found
  · refine keeps_locks_expireAll mint fun id member => ?_
    obtain ⟨row, claimed, rfl⟩ := mem_map.mp member
    refine ⟨mem_map.mpr ⟨row, claimed, rfl⟩, ?_⟩
    change (List.find? _ db.reservations).isSome = true
    rw [isSome_find?, any_eq_true]
    exact ⟨row, (mem_claimed claimed).1, decide_eq_true rfl⟩

/-- Transactions of the engine that begin as the locks demand keep to them. -/
theorem discipline_of (opens : ∀ p, offered p → Begins offered p) :
    Discipline (D := dialect) Database.Valid Rely Owns Stmt.Holds offered where
  valid := fun valid w => valid_put valid w
  refl := fun _ db => ⟨rfl, fun key _ => Key.Same.refl db key⟩
  trans := fun first second => ⟨second.collate.trans first.collate,
    fun key member => (first.same key member).trans (second.same key member)⟩
  mono := fun rely => ⟨rely.collate, fun key member =>
    rely.same key (mem_append_left _ member)⟩
  guarantee := rely_put
  opens := opens

/-- **The engine keeps to its locks.** -/
theorem discipline : Discipline (D := dialect) Database.Valid Rely Owns Stmt.Holds Residual := by
  refine discipline_of fun p offers => ?_
  cases offers with
  | transaction transaction =>
    cases transaction with
    | reserve mint now reservationID orderID items ttl =>
      exact begins_reserve mint now reservationID orderID items ttl
        (.transaction (.reserve ..)) fun lines => .holdUnlessOrdered ..
    | publishFailure mint reservationID orderID unavailable =>
      exact begins_publishFailure mint reservationID orderID unavailable
        (.transaction (.publishFailure ..)) (.enqueue _)
    | release mint reservationID orderID reasonCode =>
      exact begins_release mint reservationID orderID reasonCode
        (.transaction (.release ..)) (.tombstone ..)
    | commit mint reservationID orderID =>
      exact begins_commit mint reservationID orderID (.transaction (.commit ..)) (.refused _)
    | sweepExpired mint batch now locked => exact begins_sweepExpired ..
    | adjust mint sku delta movement note actor accepted => exact begins_adjust accepted
    | setStatus sku status => exact begins_setStatus ..
  | stop => trivial
  | holdUnlessOrdered mint now reservationID orderID lines ttl =>
    exact begins_holdUnlessOrdered mint now reservationID orderID lines ttl
      (.holdUnlessOrdered ..) .stop (.hold ..)
  | hold mint now reservationID orderID lines ttl =>
    exact begins_hold mint now reservationID orderID lines ttl (.hold ..)
  | tombstone mint reservationID orderID reasonCode =>
    exact begins_tombstone mint reservationID orderID reasonCode (.tombstone ..)
  | enqueue record => exact begins_enqueue record (.enqueue record)
  | refused e => trivial
  | expireRows mint rows distinct live => exact begins_expireRows mint distinct live

/-- **Serial equivalence.** Whatever interleaved transactions of the engine commit,
transactions that run one after another commit. -/
theorem concurrent_serial {ι : Type} [DecidableEq ι] {start : Database}
    {c : Config dialect ι Err Unit} (valid : start.Valid)
    (reached : (Config.concurrent start Transaction).Reachable c) :
    c.Serial Database.Valid Rely Stmt.Holds start Residual :=
  discipline.serial valid (Config.reachable_mono (fun _ => Residual.transaction) reached)

end Souq.Inventory
