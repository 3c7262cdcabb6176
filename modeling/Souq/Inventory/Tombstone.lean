import Souq.Inventory.Conservation

/-!
# The tombstone rule under concurrency

A `RELEASE` that overtakes its `RESERVE` leaves a tombstone, so that the late
`RESERVE` declines. Here two replicas of the consumer handle the two commands of
one reservation at the same time, statement by statement. A handler claims its
command in a transaction of its own, applies it, and dead-letters it when that
fails; it never tries again.
-/

namespace Souq.Inventory

open Transact Transition Program Database List

/-- Who of the two acts. -/
inductive Party where
  | reserver
  | releaser
  deriving DecidableEq

instance : Fintype Party where
  elems := {.reserver, .releaser}
  complete := by
    intro party
    cases party <;> decide

/-- The two commands of a reservation, and what their handlers draw. -/
structure Commands where
  reservationID : ID
  orderID : ID
  items : List ReservationLine
  ttlSeconds : Int
  reasonCode : String
  now : Time
  eventID : Party → ID
  mint : Party → Mint

namespace Commands

def reason (cmds : Commands) : String :=
  if cmds.reasonCode = "" then "SAGA_COMPENSATION" else cmds.reasonCode

def program (cmds : Commands) : Party → Tx Unit
  | .reserver => (reserve (cmds.mint .reserver) cmds.now cmds.reservationID cmds.orderID cmds.items
      (ttlOf cmds.ttlSeconds)).void
  | .releaser => (release (cmds.mint .releaser) cmds.reservationID cmds.orderID cmds.reason).void

/-- What a handler does when a transaction fails: a reservation that fell short
publishes its failure, and anything else is dead-lettered. -/
def again (cmds : Commands) : Party → Err → Option (Tx Unit)
  | .reserver, .insufficient unavailable =>
    some (publishFailure (cmds.mint .reserver) cmds.reservationID cmds.orderID unavailable)
  | _, _ => none

end Commands

/-- The tables, the transactions in progress, the commands not yet taken up and
the commands dead-lettered. -/
structure Race where
  config : Config dialect Party Err Unit
  pending : Party → Bool := fun _ => true
  dlq : List Party := []

namespace Race

def gives (m : Race) (cmds : Commands) (i : Party) : Bool :=
  match m.config.sessions i with
  | some ⟨.fail e, _, _⟩ => (cmds.again i e).isNone
  | _ => false

/-- A handler takes up its command: it claims the command in the inbox and begins,
or finds that the command was claimed before. -/
def take (m : Race) (cmds : Commands) (i : Party) : Race where
  config :=
    if m.config.db.processed.contains (cmds.eventID i) then m.config
    else
      { db := (claimEvent (cmds.eventID i)).inTx m.config.db
        sessions := Function.update m.config.sessions i (some { program := cmds.program i }) }
  pending := Function.update m.pending i false
  dlq := m.dlq

def act (cmds : Commands) (m : Race) (i : Party) : Race :=
  if m.pending i then m.take cmds i
  else
    { m with
      config := m.config.advance cmds.again i
      dlq := if m.gives cmds i then m.dlq ++ [i] else m.dlq }

/-- `Release` is about to write its tombstone, and the reservation or the order has a
row by now. -/
def collides (m : Race) : Party → Bool
  | .reserver => false
  | .releaser =>
    match m.config.sessions .releaser with
    | some ⟨.call (.insertReservation row) _, writes, _⟩ =>
      (dialect.replay writes m.config.db).inserting row != .inserted
    | _ => false

/-- Both handlers have come to an end. -/
def Finished (m : Race) : Prop := ∀ i, m.pending i = false ∧ m.config.sessions i = none

end Race

def Database.race (db : Database) : Race := ⟨Config.idle db, fun _ => true, []⟩

/-- The handlers at work, in any order of steps. -/
def racing (cmds : Commands) (start : Database) : System Race Party :=
  .ofFunction start.race (Race.act cmds)

/-- A `souq.inventory.released.v1` event of a reservation was enqueued. -/
def Database.Announced (db : Database) (orderID reservationID : ID) : Prop :=
  ∃ record ∈ db.outbox, ∃ wasTombstone, record.event = .released orderID reservationID wasTombstone

variable {db after : Database}

theorem moveLine_succeeds {owed : ID → Int} {line : ReservationLine} (balanced : Balanced db owed)
    (positive : 0 < line.quantity)
    (covered : owed line.sku + line.quantity ≤ db.held line.sku) :
    ∃ row after, (moveLine .giveBack line).run db = (.ok row, after) := by
  cases found : db.stock line.sku with
  | none =>
    have none' := balanced.absent line.sku found
    omega
  | some row =>
    have level := balanced.level line.sku row found
    have bounds := StockLevel.admissible_iff.mp (balanced.admissible line.sku row found)
    have fits : fitsInt line.quantity = true := by
      simp only [fitsInt, Bool.and_eq_true, decide_eq_true_eq]
      omega
    have changed : (LevelUpdate.giveBack.change line.quantity row).admissible = true := by
      rw [StockLevel.admissible_iff]
      simp only [LevelUpdate.change]
      omega
    have updating : db.updating .giveBack line.sku line.quantity =
        .level (LevelUpdate.giveBack.change line.quantity row) := by
      simp [updating, fits, found, LevelUpdate.applies, changed]
    simp only [moveLine, run_bind, run_updateLevel, updating]
    exact ⟨_, _, rfl⟩

theorem returnLines_succeed (reservationID orderID : ID) {lines : List ReservationLine}
    {owed : ID → Int} (balanced : Balanced db owed)
    (positive : ∀ line ∈ lines, 0 < line.quantity)
    (covered : ∀ sku, owed sku + quantityOf sku lines ≤ db.held sku) :
    ∃ after, (forEach (returnLine reservationID orderID) lines).run db = (.ok (), after) := by
  induction lines generalizing db owed with
  | nil => exact ⟨db, rfl⟩
  | cons line lines ih =>
    have first := covered_first positive covered
    have here : 0 < line.quantity := positive line mem_cons_self
    obtain ⟨row, moved, moves⟩ := moveLine_succeeds balanced here first
    obtain ⟨between, returned⟩ : ∃ between,
        (returnLine reservationID orderID line).run db = (.ok (), between) := by
      simp only [returnLine, run_bind, moves]
      exact ⟨_, rfl⟩
    have next : Moved db between owed [line] :=
      Program.Ensures.of_run (ends_returnLine reservationID orderID db owed line balanced first)
        returned
    obtain ⟨after, later⟩ := ih next.balanced
      (fun other member => positive other (mem_cons_of_mem _ member))
      (fun sku => by
        have total := covered sku
        rw [quantityOf_cons] at total
        rw [next.rows.held, quantityOf_cons]
        simp only [quantityOf, filter_nil, map_nil, sum_nil] at total ⊢
        omega)
    exact ⟨after, run_bind_ok.mpr ⟨(), between, returned, later⟩⟩

/-- The reservation is closed, and was answered. -/
structure Database.Settled (db : Database) (orderID reservationID : ID) : Prop where
  closed : ∃ row, db.reservation reservationID = some row ∧ row.state ≠ .reserved
  announced : db.Announced orderID reservationID

variable {orderID id : ID} {wasTombstone : Bool} {row : Reservation}

theorem Database.Settled.not_open (settled : db.Settled orderID id) :
    db.isOpen id = false := by
  obtain ⟨row, found, closed⟩ := settled.closed
  simp [isOpen, found, closed]

theorem announced_fresh {eventID : ID} (unused : ∀ record ∈ db.outbox, record.eventID ≠ eventID) :
    (Write.put (.outbox ⟨eventID, .released orderID id wasTombstone⟩) db).Announced orderID id := by
  have taken : Table.insertNew OutboxRecord.eventID db.outbox
      ⟨eventID, .released orderID id wasTombstone⟩ =
        db.outbox ++ [⟨eventID, .released orderID id wasTombstone⟩] := by
    unfold Table.insertNew
    rw [if_neg]
    simpa using unused
  refine ⟨⟨eventID, .released orderID id wasTombstone⟩, ?_, wasTombstone, rfl⟩
  change _ ∈ Table.insertNew OutboxRecord.eventID db.outbox _
  rw [taken]
  exact mem_append_right _ mem_cons_self

theorem settled_enqueue {mint : Mint} (found : db.reservation id = some row)
    (closed : row.state ≠ .reserved)
    (unused : ∀ record ∈ db.outbox, record.eventID ≠ mint.eventID) :
    (Write.put (.outbox ⟨mint.eventID, .released orderID id wasTombstone⟩) db).Settled orderID id :=
  ⟨⟨row, found, closed⟩, announced_fresh unused⟩

theorem settled_put {mint : Mint} (named : row.id = id) (closed : row.state ≠ .reserved)
    (unused : ∀ record ∈ db.outbox, record.eventID ≠ mint.eventID) :
    (Write.put (.outbox ⟨mint.eventID, .released orderID id wasTombstone⟩)
      (db.putReservation row)).Settled orderID id := by
  have found : (db.putReservation row).reservation id = some row :=
    (Table.find_upsert row db.reservations id).trans (if_pos named)
  exact settled_enqueue found closed unused

theorem tombstone_settles (mint : Mint) {reservationID orderID : ID} {reasonCode : String}
    (free : db.inserting
      { id := reservationID, orderID := orderID, state := .released, wasTombstone := true,
        reasonCode := nullIfEmpty reasonCode } = .inserted)
    (unused : ∀ record ∈ db.outbox, record.eventID ≠ mint.eventID) :
    ∃ after, (tombstone mint reservationID orderID reasonCode).void.run db = (.ok (), after) ∧
      after.Settled orderID reservationID ∧ after.processed = db.processed := by
  simp only [void, tombstone, run_bind, run_insertReservation, free]
  exact ⟨_, rfl, settled_put rfl (fun same => by cases same) unused, rfl⟩

theorem release_settles (mint : Mint) {reservationID : ID} (reasonCode : String)
    (balanced : Balanced db fun _ => 0) (found : db.reservation reservationID = some row)
    (live : row.state ≠ .committed) (unused : ∀ record ∈ db.outbox, record.eventID ≠ mint.eventID) :
    ∃ after, (release mint reservationID orderID reasonCode).void.run db = (.ok (), after) ∧
      after.Settled orderID reservationID ∧ after.processed = db.processed := by
  simp only [void, release, run_bind, run_loadReservationForUpdate, found]
  cases state : row.state with
  | committed => exact (live state).elim
  | released | failed => exact ⟨_, rfl, settled_enqueue found (by rw [state]; decide) unused, rfl⟩
  | reserved =>
    have isOpen : db.isOpen reservationID = true := by simp [isOpen, found, state]
    have positive : ∀ line ∈ db.lines reservationID, 0 < line.quantity := by
      intro line member
      obtain ⟨item, kept, rfl⟩ := mem_map.mp ((mem_insertionSort _).mp member)
      exact balanced.positive item (mem_filter.mp kept).1
    obtain ⟨between, returns⟩ := returnLines_succeed reservationID orderID balanced positive
      fun sku => by
        have part := quantityOf_lines_le_held balanced.positive isOpen sku
        omega
    have returned : (returnStock reservationID orderID).run db = (.ok (), between) := returns
    have beside := (keeps_returnStock reservationID orderID).of_run returned
    have marks := run_markReservation (show ReservationState.released ≠ .reserved by decide)
      reservationID reasonCode between
    have found' : between.reservation reservationID = some row := by
      have same := congrArg reservations beside
      change between.reservations = db.reservations at same
      rwa [reservation, same]
    rw [marked, found', Option.map_some, Option.elim_some] at marks
    simp only [run_bind, returned, marks]
    have named : row.id = reservationID := Table.key_of_find found
    have claims := congrArg processed beside
    refine ⟨_, rfl, settled_put named (fun same => by cases same) ?_, claims⟩
    have same := congrArg outbox beside
    change between.outbox = db.outbox at same
    rwa [same]

variable (cmds : Commands)

/-- The transactions of the reserver, and what is left of them when their first
reads locked nothing. -/
inductive Reserving : Tx Unit → Prop where
  | reserve : Reserving (cmds.program .reserver)
  | publishFailure (unavailable : List UnavailableSKU) :
      Reserving (publishFailure (cmds.mint .reserver) cmds.reservationID cmds.orderID unavailable)
  | stop : Reserving (pure ())
  | holdUnlessOrdered (lines : List ReservationLine) :
      Reserving (holdUnlessOrdered (cmds.mint .reserver) cmds.now cmds.reservationID cmds.orderID
        lines (ttlOf cmds.ttlSeconds)).void
  | hold (lines : List ReservationLine) :
      Reserving (hold (cmds.mint .reserver) cmds.now cmds.reservationID cmds.orderID lines
        (ttlOf cmds.ttlSeconds)).void
  | enqueue (event : Event) : Reserving (enqueue ⟨(cmds.mint .reserver).eventID, event⟩)

def Stmt.Reserves : Stmt → Prop
  | .insertReservation row => row.state = .reserved
  | .insertReservationIfAbsent row => row.state = .failed
  | .enqueue record => record.eventID = (cmds.mint .reserver).eventID
  | .markReservation .. => False
  | .claimEvent _ => False
  | _ => True

variable {cmds}

theorem Reserving.residual {p : Tx Unit} (reserving : Reserving cmds p) : Residual p := by
  cases reserving with
  | reserve => exact .transaction (.reserve ..)
  | publishFailure unavailable => exact .transaction (.publishFailure ..)
  | stop => exact .stop
  | holdUnlessOrdered lines => exact .holdUnlessOrdered ..
  | hold lines => exact .hold ..
  | enqueue event => exact .enqueue _

variable (cmds) in
theorem reserving_discipline :
    Discipline (D := dialect) Database.Valid Rely Owns Stmt.Holds (Reserving cmds) := by
  refine discipline_of fun p offers => ?_
  cases offers with
  | reserve => exact begins_reserve _ _ _ _ _ _ .reserve .holdUnlessOrdered
  | publishFailure unavailable =>
    exact begins_publishFailure _ _ _ _ (.publishFailure unavailable) (.enqueue _)
  | stop => trivial
  | holdUnlessOrdered lines =>
    exact begins_holdUnlessOrdered _ _ _ _ _ _ (.holdUnlessOrdered lines) .stop (.hold lines)
  | hold lines => exact begins_hold _ _ _ _ _ _ (.hold lines)
  | enqueue event => exact begins_enqueue _ (.enqueue event)

theorem reserves_reserving : SendsReserve (cmds.mint .reserver) (Stmt.Reserves cmds) where
  update _ _ := trivial
  available _ := trivial
  item _ := trivial
  ledger _ := trivial
  load _ := trivial
  ordered _ := trivial
  insert _ reserved := reserved
  announce _ _ _ _ := rfl

theorem Reserving.only {p : Tx Unit} (reserving : Reserving cmds p) :
    p.Only (Stmt.Reserves cmds) := by
  cases reserving with
  | reserve => exact (reserves_reserving.reserve ..).bind fun _ => trivial
  | publishFailure unavailable =>
    exact Program.Only.bind ⟨rfl, only_orFail⟩ fun _ => ⟨rfl, fun _ => trivial⟩
  | stop => trivial
  | holdUnlessOrdered lines => exact (reserves_reserving.holdUnlessOrdered ..).bind fun _ => trivial
  | hold lines => exact (reserves_reserving.hold ..).bind fun _ => trivial
  | enqueue event => exact ⟨rfl, fun _ => trivial⟩

/-- Reservations that are there, events that were enqueued and event ids that are
not the reserver's own are left alone, and a new reservation is not committed. -/
structure Spares (cmds : Commands) (db after : Database) : Prop where
  rows : ∀ id row, db.reservation id = some row → after.reservation id = some row
  fresh : ∀ id row, after.reservation id = some row → db.reservation id = some row ∨
    row.state ≠ .committed
  kept : ∀ record ∈ db.outbox, record ∈ after.outbox
  drawn : ∀ record ∈ after.outbox, record ∈ db.outbox ∨
    record.eventID = (cmds.mint .reserver).eventID

/-- What the reserver leaves. -/
structure Reserves (cmds : Commands) (db after : Database) : Prop extends Spares cmds db after where
  processed : after.processed = db.processed

theorem Spares.of_same (rows : after.reservations = db.reservations)
    (outbox : after.outbox = db.outbox) : Spares cmds db after := by
  refine ⟨fun id row found => ?_, fun id row found => .inl ?_, fun _ member => ?_,
    fun _ member => .inl ?_⟩
  · rwa [reservation, rows]
  · rwa [reservation, rows] at found
  · rwa [outbox]
  · rwa [outbox] at member

theorem Reserves.trans {between : Database} (first : Reserves cmds db between)
    (second : Reserves cmds between after) : Reserves cmds db after where
  rows := fun id row found => second.rows id row (first.rows id row found)
  fresh := fun id row found => (second.fresh id row found).elim (first.fresh id row) .inr
  kept := fun record member => second.kept record (first.kept record member)
  drawn := fun record member => (second.drawn record member).elim (first.drawn record) .inr
  processed := second.processed.trans first.processed

theorem reserves_insert (open' : row.state ≠ .committed) (db : Database) :
    Reserves cmds db (dialect.replay
      (if db.inserting row = .inserted then [.reservation row] else []) db) := by
  split
  case isFalse => exact ⟨.of_same rfl rfl, rfl⟩
  case isTrue free =>
    obtain ⟨absent, -⟩ := inserting_eq_inserted free
    refine ⟨⟨fun id other found => ?_, fun id other found => ?_, fun _ member => member,
      fun _ member => .inl member⟩, rfl⟩
    · change (Write.put (.reservation row) db).reservation id = _
      rw [reservation_put, if_neg]
      · exact found
      · rintro rfl
        cases absent.symm.trans found
    · change (Write.put (.reservation row) db).reservation id = _ at found
      rw [reservation_put] at found
      split at found
      · cases found
        exact .inr open'
      · exact .inl found

theorem reserves_enqueue {record : OutboxRecord}
    (own : record.eventID = (cmds.mint .reserver).eventID) (db : Database) :
    Reserves cmds db (Write.put (.outbox record) db) := by
  refine ⟨⟨fun _ _ found => found, fun _ _ found => .inl found, fun other member => ?_,
    fun other member => ?_⟩, rfl⟩
  all_goals
    change _ ∈ Table.insertNew OutboxRecord.eventID db.outbox record at *
    rcases Table.insertNew_cases OutboxRecord.eventID db.outbox record with same | more
  · rwa [same]
  · rw [more]
    exact mem_append_left _ member
  · rw [same] at member
    exact .inl member
  · rw [more] at member
    rcases mem_append.mp member with old | new
    · exact .inl old
    · obtain rfl := mem_singleton.mp new
      exact .inr own

theorem reserves_stmt (db : Database) (q : Stmt) (reserves : q.Reserves cmds) :
    Reserves cmds db (dialect.replay (dialect.writes q db) db) := by
  cases q with
  | insertReservation | insertReservationIfAbsent =>
    exact reserves_insert (by rw [reserves]; decide) db
  | enqueue record => exact reserves_enqueue reserves db
  | markReservation | claimEvent => exact reserves.elim
  | insertReservationItem item =>
    change Reserves cmds db (dialect.replay (if db.admits item then [.item item] else []) db)
    split <;> exact ⟨.of_same rfl rfl, rfl⟩
  | updateLevel update sku quantity =>
    exact updateLevel_elim (P := fun _ after => Reserves cmds db after)
      (fun _ _ => ⟨.of_same rfl rfl, rfl⟩) (fun _ => ⟨.of_same rfl rfl, rfl⟩)
      fun _ => ⟨.of_same rfl rfl, rfl⟩
  | writeLedger | loadReservationForUpdate | reservationForOrder | reservationItems
  | availableFor | claimExpired => exact ⟨.of_same rfl rfl, rfl⟩

theorem Reserving.reserves {p : Tx Unit} (reserving : Reserving cmds p) {a : Unit}
    (ran : p.run db = (.ok a, after)) : Reserves cmds db after := by
  have leads : Reserves cmds db (p.run db).2 := reserving.only.run_leads (Reserves cmds)
    (fun _ => ⟨.of_same rfl rfl, rfl⟩) Reserves.trans reserves_stmt db
  rwa [ran] at leads

namespace Commands

def late (cmds : Commands) : Tx Unit :=
  (tombstone (cmds.mint .releaser) cmds.reservationID cmds.orderID cmds.reason).void

/-- The row a release leaves when it finds none. -/
def tombstoneRow (cmds : Commands) : Reservation :=
  { id := cmds.reservationID, orderID := cmds.orderID, state := .released, wasTombstone := true,
    reasonCode := nullIfEmpty cmds.reason }

theorem releaser_begins (cmds : Commands) :
    ∃ rest, cmds.program .releaser = .call (.loadReservationForUpdate cmds.reservationID) rest ∧
      rest none = cmds.late := ⟨_, rfl, rfl⟩

theorem late_begins (cmds : Commands) :
    ∃ rest, cmds.late = .call (.insertReservation cmds.tombstoneRow) rest := ⟨_, rfl⟩

end Commands

/-- Where the releaser stands. -/
inductive Prepared (cmds : Commands) (db : Database) : Tx Unit → Prop where
  | found {row : Reservation} (found : db.reservation cmds.reservationID = some row)
      (live : row.state ≠ .committed) : Prepared cmds db (cmds.program .releaser)
  | absent (free : db.inserting cmds.tombstoneRow = .inserted) : Prepared cmds db cmds.late

def Database.Unused (db : Database) (cmds : Commands) : Prop :=
  ∀ record ∈ db.outbox, record.eventID ≠ (cmds.mint .releaser).eventID

namespace Prepared

variable {p rest : Tx Unit} {writes : List Write} {held : List Key} {db' : Database}

theorem residual (prepared : Prepared cmds db p) : Residual p := by
  cases prepared with
  | found => exact .transaction (.release ..)
  | absent => exact .tombstone ..

theorem settles (prepared : Prepared cmds db p) (balanced : Balanced db fun _ => 0)
    (unused : db.Unused cmds) :
    ∃ after, p.run db = (.ok (), after) ∧ after.Settled cmds.orderID cmds.reservationID ∧
      after.processed = db.processed := by
  cases prepared with
  | found found live => exact release_settles _ cmds.reason balanced found live unused
  | absent free => exact tombstone_settles _ free unused

/-- The first locks of a release protect what it has found. -/
theorem stable (prepared : Prepared cmds db p)
    (path : Follows (D := dialect) Rely p db rest writes held) (rely : Rely held db db') :
    Prepared cmds db' p := by
  cases prepared with
  | found found live =>
    obtain ⟨_, begins, -⟩ := cmds.releaser_begins
    have locked : .reservation cmds.reservationID ∈ held := by
      refine (path.opened begins).2 _ ?_
      change _ ∈ if (db.reservation cmds.reservationID).isSome then _ else _
      simp [found]
    exact .found ((rely.same _ locked).1.trans found) live
  | absent free =>
    obtain ⟨_, begins⟩ := cmds.late_begins
    have locks := (path.opened begins).2
    have named := rely.same (.reservation cmds.reservationID) (locks _ mem_cons_self)
    have ordered := rely.same (.order cmds.orderID) (locks _ (mem_cons_of_mem _ mem_cons_self))
    have agree : db'.inserting cmds.tombstoneRow = db.inserting cmds.tombstoneRow := by
      change (if (db'.reservation cmds.reservationID).isSome ||
        (db'.reservationOf cmds.orderID).isSome then _ else _) = _
      rw [named.1, ordered]
      rfl
    exact .absent (agree.trans free)

end Prepared

/-- How far the releaser has come. -/
inductive Stage (cmds : Commands) (db : Database) :
    Bool → Option (Session dialect Err Unit) → Prop where
  | waiting : Stage cmds db true none
  | looking : Stage cmds db false (some { program := cmds.program .releaser })
  | late : Stage cmds db false (some { program := cmds.late })
  | acting {p : Tx Unit} {s : Session dialect Err Unit} (prepared : Prepared cmds db p)
      (path : Follows (D := dialect) Rely p db s.program s.writes s.held) :
      Stage cmds db false (some s)

theorem Stage.stable {db' : Database} {pending : Bool} {session : Option (Session dialect Err Unit)}
    (stage : Stage cmds db pending session)
    (rely : ∀ s, session = some s → Rely s.held db db') : Stage cmds db' pending session := by
  cases stage with
  | waiting => exact .waiting
  | looking => exact .looking
  | late => exact .late
  | acting prepared path =>
    have same := rely _ rfl
    exact .acting (prepared.stable path same) (discipline.follows path same)

namespace Stage

variable {s : Session dialect Err Unit}

theorem exec {q : Stmt} {rest : q.Answer → Tx Unit} (stage : Stage cmds db false (some s))
    (balanced : Balanced db fun _ => 0) (unused : db.Unused cmds)
    (live : ∀ row, db.reservation cmds.reservationID = some row → row.state ≠ .committed)
    (clear : ∀ row rest, s.program = .call (.insertReservation row) rest →
      (s.view db).inserting row = .inserted) (calls : s.program = .call q rest) :
    Stage cmds db false (some (s.exec db q rest)) := by
  cases stage with
  | looking =>
    obtain ⟨found, begins, absent⟩ := cmds.releaser_begins
    cases begins.symm.trans calls
    cases there : db.reservation cmds.reservationID with
    | none =>
      have next : Session.exec { program := cmds.program .releaser } db
          (.loadReservationForUpdate cmds.reservationID) found = { program := cmds.late } := by
        change Session.mk (found (db.reservation cmds.reservationID)) []
          (if (db.reservation cmds.reservationID).isSome then _ else _) = _
        rw [there, absent]
        rfl
      rw [next]
      exact .late
    | some row =>
      have loud : ¬ Quiet (D := dialect) (.loadReservationForUpdate cmds.reservationID) db := by
        rintro ⟨-, quiet⟩
        change (if (db.reservation cmds.reservationID).isSome then _ else _) = _ at quiet
        rw [there] at quiet
        cases quiet
      have covered : Covered (D := dialect) Rely Owns
          (.loadReservationForUpdate cmds.reservationID) [] [] db := covered_load there
      exact .acting (.found there (live row there)) (Follows.first begins loud covered.steady)
  | late =>
    obtain ⟨_, begins⟩ := cmds.late_begins
    have free := clear _ _ begins
    cases begins.symm.trans calls
    exact .acting (.absent free)
      (Follows.first begins (fun quiet => nomatch quiet.2) (covered_insertReservation free).steady)
  | acting prepared path =>
    obtain ⟨after, succeeds, -⟩ := prepared.settles balanced unused
    exact .acting prepared (discipline.follows_exec prepared.residual path succeeds calls)

theorem waits {q : Stmt} {rest : q.Answer → Tx Unit} (stage : Stage cmds db false (some s))
    (balanced : Balanced db fun _ => 0) (unused : db.Unused cmds)
    (calls : s.program = .call q rest) : dialect.skip q = none := by
  cases stage with
  | looking =>
    obtain ⟨_, begins, -⟩ := cmds.releaser_begins
    cases begins.symm.trans calls
    rfl
  | late =>
    obtain ⟨_, begins⟩ := cmds.late_begins
    cases begins.symm.trans calls
    rfl
  | acting prepared path =>
    obtain ⟨after, succeeds, -⟩ := prepared.settles balanced unused
    exact discipline.follows_waits prepared.residual path succeeds calls

theorem not_fail {e : Err} (stage : Stage cmds db false (some s))
    (balanced : Balanced db fun _ => 0) (unused : db.Unused cmds) : s.program ≠ .fail e := by
  intro failed
  cases stage with
  | looking =>
    obtain ⟨_, begins, -⟩ := cmds.releaser_begins
    cases begins.symm.trans failed
  | late =>
    obtain ⟨_, begins⟩ := cmds.late_begins
    cases begins.symm.trans failed
  | acting prepared path =>
    obtain ⟨after, succeeds, -⟩ := prepared.settles balanced unused
    have runs := path.run
    rw [succeeds, failed] at runs
    cases runs

theorem commit (stage : Stage cmds db false (some s)) (valid : db.Valid)
    (balanced : Balanced db fun _ => 0) (unused : db.Unused cmds)
    (finished : s.program = .done ()) :
    (s.view db).Settled cmds.orderID cmds.reservationID ∧
      (s.view db).processed = db.processed ∧ Balanced (s.view db) (fun _ => 0) ∧
      ∀ others, (∀ key ∈ others, key ∉ s.held) → Rely others db (s.view db) := by
  cases stage with
  | looking =>
    obtain ⟨_, begins, -⟩ := cmds.releaser_begins
    cases begins.symm.trans finished
  | late =>
    obtain ⟨_, begins⟩ := cmds.late_begins
    cases begins.symm.trans finished
  | acting prepared path =>
    obtain ⟨after, succeeds, settled, processed⟩ := prepared.settles balanced unused
    rw [finished] at path
    have runs := path.run.symm.trans succeeds
    cases runs
    have ends := ends_residual prepared.residual valid balanced
    obtain doomed | ⟨-, undisturbed⟩ := discipline.safe prepared.residual path
    · exact doomed.elim
    · exact ⟨settled, processed, Program.Ensures.of_run ends succeeds, undisturbed⟩

end Stage

/-- Where the releaser stands: it has settled the reservation, or its event is still
to come. -/
inductive Releasing (cmds : Commands) (db : Database) (pending : Bool)
    (session : Option (Session dialect Err Unit)) : Prop where
  | settled (ended : pending = false ∧ session = none)
      (settled : db.Settled cmds.orderID cmds.reservationID)
  | under (unused : db.Unused cmds)
      (live : ∀ row, db.reservation cmds.reservationID = some row → row.state ≠ .committed)
      (stage : Stage cmds db pending session)

/-- What holds whenever no tombstone collides. -/
structure Race.Good (cmds : Commands) (m : Race) : Prop where
  valid : m.config.db.Valid
  balanced : Balanced m.config.db fun _ => 0
  unclaimed : ∀ i, m.pending i = true → m.config.db.processed.contains (cmds.eventID i) = false
  apart : m.config.Apart
  reserver : ∀ s, m.config.sessions .reserver = some s →
    Tracks (D := dialect) Rely Stmt.Holds (Reserving cmds) m.config.db s
  releaser : Releasing cmds m.config.db (m.pending .releaser) (m.config.sessions .releaser)

theorem Releasing.stable {db' : Database} {pending : Bool}
    {session : Option (Session dialect Err Unit)} (releasing : Releasing cmds db pending session)
    (spares : Spares cmds db db')
    (drawn : (cmds.mint .reserver).eventID ≠ (cmds.mint .releaser).eventID)
    (rely : ∀ s, session = some s → Rely s.held db db') : Releasing cmds db' pending session := by
  cases releasing with
  | settled ended settled =>
    obtain ⟨row, found, closed⟩ := settled.closed
    obtain ⟨record, member, announced⟩ := settled.announced
    exact .settled ended ⟨⟨row, spares.rows _ row found, closed⟩,
      ⟨record, spares.kept record member, announced⟩⟩
  | under unused live stage =>
    refine .under (fun record member => ?_) (fun row found => ?_) (stage.stable rely)
    · rcases spares.drawn record member with old | own
      · exact unused record old
      · rwa [own]
    · rcases spares.fresh _ row found with old | open'
      · exact live row old
      · exact open'

theorem claim_put {eventID : ID} (fresh : db.processed.contains eventID = false) :
    (claimEvent eventID).inTx db = Write.put (.processed eventID) db := by
  have ran := run_claimEvent eventID db
  rw [fresh] at ran
  exact inTx_of_ok ran

theorem rely_claim (held : List Key) (eventID : ID) (db : Database) :
    Rely held db (Write.put (.processed eventID) db) :=
  rely_put (show Owns [] db (.processed eventID) from trivial) fun _ _ => not_mem_nil

namespace Race.Good

variable {m : Race}

theorem take (good : m.Good cmds) {i : Party} (waits : m.pending i = true)
    (distinct : cmds.eventID .reserver ≠ cmds.eventID .releaser)
    (drawn : (cmds.mint .reserver).eventID ≠ (cmds.mint .releaser).eventID) :
    (m.take cmds i).Good cmds := by
  have shape : m.take cmds i =
      { config :=
          { db := Write.put (.processed (cmds.eventID i)) m.config.db
            sessions := Function.update m.config.sessions i (some { program := cmds.program i }) }
        pending := Function.update m.pending i false
        dlq := m.dlq } := by
    simp only [Race.take, good.unclaimed i waits, claim_put, Bool.false_eq_true, ↓reduceIte]
  have spares : Spares cmds m.config.db (Write.put (.processed (cmds.eventID i)) m.config.db) :=
    .of_same rfl rfl
  have apart : (m.config.set i (some { program := cmds.program i })).Apart := by
    refine good.apart.set _ ?_
    rintro s ⟨⟩ j other - - key member
    cases member
  rw [shape]
  refine ⟨good.valid, good.balanced.put_processed _, fun j pending => ?_, apart, ?_, ?_⟩
  · change Function.update m.pending i false j = true at pending
    have other : j ≠ i := by
      rintro rfl
      rw [Function.update_self] at pending
      cases pending
    rw [Function.update_of_ne other] at pending
    have before := good.unclaimed j pending
    change (m.config.db.processed ++ [cmds.eventID i]).contains (cmds.eventID j) = false
    have different : cmds.eventID j ≠ cmds.eventID i := by
      cases i <;> cases j
      · exact (other rfl).elim
      · exact distinct.symm
      · exact distinct
      · exact (other rfl).elim
    simpa [different] using before
  · intro s active
    cases i with
    | reserver =>
      cases active
      exact .reading .reserve rfl rfl
    | releaser =>
      refine (reserving_discipline cmds).tracks_rely (good.reserver s active) ?_
      exact rely_claim ..
  · cases i with
    | reserver => exact good.releaser.stable spares drawn fun s _ => rely_claim ..
    | releaser =>
      change Releasing cmds _ false (some { program := cmds.program .releaser })
      cases good.releaser.stable spares drawn fun s _ => rely_claim .. with
      | settled ended settled => cases ended.1.symm.trans waits
      | under unused live stage => exact .under unused live .looking

/-- The reserver sends a statement, ends its transaction or begins the next. -/
theorem advance_reserver (good : m.Good cmds)
    (drawn : (cmds.mint .reserver).eventID ≠ (cmds.mint .releaser).eventID) (dlq : List Party) :
    Race.Good cmds { m with config := m.config.advance cmds.again .reserver, dlq := dlq } := by
  have advances : Config.Advances cmds.again m.config .reserver
      (m.config.advance cmds.again .reserver) := m.config.advances .reserver
  generalize m.config.advance cmds.again .reserver = c at advances ⊢
  have kept : ∀ {session} (_ : (m.config.set .reserver session).Apart) (_ : ∀ s, session = some s →
        Tracks (D := dialect) Rely Stmt.Holds (Reserving cmds) m.config.db s),
      Race.Good cmds { m with config := m.config.set .reserver session, dlq := dlq } :=
    fun apart tracks => ⟨good.valid, good.balanced, good.unclaimed, apart, tracks, good.releaser⟩
  cases advances with
  | stays =>
    exact ⟨good.valid, good.balanced, good.unclaimed, good.apart, good.reserver, good.releaser⟩
  | @retry s e active failed =>
    refine kept (good.apart.set _ ?_) ?_
    · rintro s begun j other - - key member
      obtain ⟨p, -, rfl⟩ := Option.map_eq_some_iff.mp begun
      cases member
    · intro s begun
      obtain ⟨p, again, rfl⟩ := Option.map_eq_some_iff.mp begun
      refine .reading ?_ rfl rfl
      cases e <;> cases again
      exact .publishFailure _
  | @skip s q rest answer active calls blocked skips =>
    refine kept (good.apart.set _ ?_) ?_
    · rintro _ ⟨⟩ j other different found
      exact good.apart .reserver j s other different.symm active found
    · rintro _ ⟨⟩
      exact (reserving_discipline cmds).tracks_skip (good.reserver s active) calls skips
  | @exec s q rest active calls free =>
    refine kept (good.apart.exec active free) ?_
    rintro _ ⟨⟩
    exact (reserving_discipline cmds).tracks_exec good.valid (good.reserver s active) calls
  | @commit s a active finished =>
    obtain ⟨ran, undisturbed⟩ :=
      (reserving_discipline cmds).commit (good.reserver s active) finished
    have keep : ∀ (db : Database) w, db.Valid → (Write.put w db).Valid := fun _ w valid =>
      valid_put valid w
    have valid : (s.view m.config.db).Valid := Dialect.replay_keeps keep good.valid s.writes
    obtain ⟨balanced, reserves⟩ : Balanced (s.view m.config.db) (fun _ => 0) ∧
        Reserves cmds m.config.db (s.view m.config.db) := by
      rcases ran with same | ⟨p, offers, ran⟩
      · rw [same]
        exact ⟨good.balanced, .of_same rfl rfl, rfl⟩
      · have ends := ends_residual offers.residual good.valid good.balanced
        exact ⟨Program.Ensures.of_run ends ran, offers.reserves ran⟩
    refine ⟨valid, balanced, fun i pending => ?_,
      good.apart.set none (fun _ none => by cases none), nofun, ?_⟩
    · change (s.view m.config.db).processed.contains _ = false
      rw [reserves.processed]
      exact good.unclaimed i pending
    · refine good.releaser.stable reserves.toSpares drawn fun other found => ?_
      exact undisturbed other.held (good.apart .releaser .reserver other s (by decide) found active)

/-- The releaser takes a lock it will need, or commits. -/
theorem advance_releaser (good : m.Good cmds) (begun : m.pending .releaser = false)
    (clear : m.collides .releaser = false) (dlq : List Party) :
    Race.Good cmds { m with config := m.config.advance cmds.again .releaser, dlq := dlq } := by
  have advances : Config.Advances cmds.again m.config .releaser
      (m.config.advance cmds.again .releaser) := m.config.advances .releaser
  generalize m.config.advance cmds.again .releaser = c at advances ⊢
  have kept : Race.Good cmds { m with dlq := dlq } :=
    ⟨good.valid, good.balanced, good.unclaimed, good.apart, good.reserver, good.releaser⟩
  cases good.releaser with
  | settled ended settled =>
    cases advances with
    | stays => exact kept
    | commit active => cases ended.2.symm.trans active
    | retry active => cases ended.2.symm.trans active
    | skip active => cases ended.2.symm.trans active
    | exec active => cases ended.2.symm.trans active
  | under unused live stage =>
    rw [begun] at stage
    cases advances with
    | stays => exact kept
    | retry active failed =>
      rw [active] at stage
      exact (stage.not_fail good.balanced unused failed).elim
    | skip active calls blocked skips =>
      rw [active] at stage
      cases (stage.waits good.balanced unused calls).symm.trans skips
    | @exec s q rest active calls free =>
      rw [active] at stage
      have found : ∀ row rest, s.program = .call (.insertReservation row) rest →
          (s.view m.config.db).inserting row = .inserted := by
        intro row rest calls
        obtain ⟨program, writes, held⟩ := s
        subst calls
        simpa [Race.collides, active, Session.view] using clear
      have next := stage.exec good.balanced unused live found calls
      rw [← begun] at next
      exact ⟨good.valid, good.balanced, good.unclaimed, good.apart.exec active free,
        good.reserver, .under unused live next⟩
    | @commit s a active finished =>
      rw [active] at stage
      obtain ⟨settled, processed, balanced, undisturbed⟩ :=
        stage.commit good.valid good.balanced unused finished
      have keep : ∀ (db : Database) w, db.Valid → (Write.put w db).Valid := fun _ w valid =>
        valid_put valid w
      have valid : (s.view m.config.db).Valid := Dialect.replay_keeps keep good.valid s.writes
      refine ⟨valid, balanced, fun i pending => ?_,
        good.apart.set none (fun _ none => by cases none), fun other found => ?_,
        .settled ⟨begun, rfl⟩ settled⟩
      · change (s.view m.config.db).processed.contains _ = false
        rw [processed]
        exact good.unclaimed i pending
      · exact (reserving_discipline cmds).tracks_rely (good.reserver other found)
          (undisturbed other.held (good.apart .reserver .releaser other s (by decide) found active))

end Race.Good

/-- The commands reach tables that know nothing of them, and whose counters agree. -/
structure Arrive (cmds : Commands) (start : Database) : Prop where
  valid : start.Valid
  balanced : Balanced start fun _ => 0
  absent : start.reservation cmds.reservationID = none
  unclaimed : ∀ i, start.processed.contains (cmds.eventID i) = false
  distinct : cmds.eventID .reserver ≠ cmds.eventID .releaser
  drawn : (cmds.mint .reserver).eventID ≠ (cmds.mint .releaser).eventID
  unused : start.Unused cmds

theorem Arrive.good {start : Database} (arrive : Arrive cmds start) {m : Race}
    (reached : ((racing cmds start).restrict fun m i => m.collides i = false).Reachable m) :
    m.Good cmds := by
  refine reached.invariant ?_ ?_
  · rintro _ rfl
    refine ⟨arrive.valid, arrive.balanced, fun i _ => arrive.unclaimed i, fun _ _ _ _ _ => nofun,
      nofun, .under arrive.unused (fun row found => ?_) .waiting⟩
    cases arrive.absent.symm.trans found
  · rintro m i _ good ⟨clear, rfl⟩
    unfold Race.act
    split
    case isTrue waits => exact good.take waits arrive.distinct arrive.drawn
    case isFalse begun =>
      cases i with
      | reserver => exact good.advance_reserver arrive.drawn _
      | releaser => exact good.advance_releaser (by simpa using begun) clear _

/-- **The tombstone rule** in runs where no tombstone collides: once both commands
are finished, the reservation is not `RESERVED` and its release was announced. -/
theorem tombstone_rule {start : Database} (arrive : Arrive cmds start) {m : Race}
    (reached : ((racing cmds start).restrict fun m i => m.collides i = false).Reachable m)
    (finished : m.Finished) :
    m.config.db.isOpen cmds.reservationID = false ∧
      m.config.db.Announced cmds.orderID cmds.reservationID := by
  have good := arrive.good reached
  obtain ⟨begun, ended⟩ := finished .releaser
  cases good.releaser with
  | settled _ settled => exact ⟨settled.not_open, settled.announced⟩
  | under unused live stage =>
    rw [begun, ended] at stage
    cases stage

def oneUnit : Commands where
  reservationID := 10
  orderID := 20
  items := [⟨1, 1⟩]
  ttlSeconds := 900
  reasonCode := ""
  now := 0
  eventID := fun i => if i = .reserver then 501 else 502
  mint := fun i => if i = .reserver then mintFrom 600 else mintFrom 700

theorem oneUnit_arrive : Arrive oneUnit stocked where
  valid := stocked_opening.valid
  balanced := stocked_opening.balanced
  absent := rfl
  unclaimed := fun _ => rfl
  distinct := by decide
  drawn := by decide
  unused := fun _ => nofun

/-- Both handlers find no reservation; `RELEASE` writes its tombstone first, and
`RESERVE` waits for it. -/
def interleaved : List Party :=
  [.reserver, .releaser, .releaser, .reserver, .reserver, .releaser, .reserver, .releaser,
    .releaser, .reserver, .reserver]

theorem tombstone_rule_interleaved :
    (interleaved.foldl (Race.act oneUnit) stocked.race).Finished ∧
    (interleaved.foldl (Race.act oneUnit) stocked.race).config.db.isOpen 10 = false ∧
    (interleaved.foldl (Race.act oneUnit) stocked.race).config.db.Announced 20 10 := by
  have finished : (interleaved.foldl (Race.act oneUnit) stocked.race).Finished := by
    intro i
    cases i <;> decide +kernel
  have permits : System.Permits (Race.act oneUnit) (fun m i => m.collides i = false) interleaved
      stocked.race := by decide +kernel
  exact ⟨finished, tombstone_rule oneUnit_arrive (.foldl_restrict permits) finished⟩

/-- `RELEASE` looks for the reservation, `RESERVE` runs to its commit, `RELEASE` goes on. -/
def overtaking : List Party :=
  ([.releaser, .releaser] : List Party) ++ (List.replicate 9 .reserver : List Party) ++
    ([.releaser, .releaser] : List Party)

/-- The insert of the tombstone fails, the release is dead-lettered, and the
reservation stays. -/
theorem overtaking_keeps_reservation : ¬ ∀ cmds start m, Arrive cmds start →
    (racing cmds start).Reachable m → m.Finished →
    m.config.db.isOpen cmds.reservationID = false ∧
      m.config.db.Announced cmds.orderID cmds.reservationID := by
  intro holds
  have finished : (overtaking.foldl (Race.act oneUnit) stocked.race).Finished := by
    intro i
    cases i <;> decide +kernel
  have isOpen : (overtaking.foldl (Race.act oneUnit) stocked.race).config.db.isOpen 10 = true := by
    decide +kernel
  have closed := (holds oneUnit stocked _ oneUnit_arrive (.foldl overtaking) finished).1
  cases isOpen.symm.trans closed

end Souq.Inventory
