import Souq.Inventory.Engine

/-!
# What the engine's transactions do to a reservation

For the saga a transaction of the engine writes one row of `reservations` and
announces it with one event. The lines, levels and ledger rows it goes through
leave the rest alone.
-/

namespace Souq.Inventory

open Transact Program Database List

/-- Whether an event is about an order. -/
def Event.announces : Event → Bool
  | .stockChanged .. => false
  | _ => true

def Database.announced (db : Database) : List OutboxRecord :=
  db.outbox.filter fun record => record.event.announces

def Database.visible (db : Database) : List Reservation × List OutboxRecord × List ID :=
  (db.reservations, db.announced, db.processed)

def Database.besideLevels (db : Database) : Database :=
  { db with stock := fun _ => none, ledger := [] }

theorem keeps_updateLevel (update : LevelUpdate) (sku : ID) (quantity : Int) :
    (updateLevel update sku quantity).Keeps besideLevels := by
  intro db
  change besideLevels (dialect.replay (Stmt.writes (.updateLevel update sku quantity) db) db) = _
  simp only [Stmt.writes]
  split <;> rfl

theorem keeps_writeLedger (entry : LedgerEntry) : (writeLedger entry).Keeps besideLevels :=
  fun _ => rfl

theorem keeps_moveLine (update : LevelUpdate) (line : ReservationLine) :
    (moveLine update line).Keeps besideLevels := by
  refine (keeps_updateLevel update line.sku line.quantity).bind fun answer => ?_
  cases answer with
  | level row => exact Program.Keeps.pure row
  | noRow => exact Program.Keeps.fail _
  | rejected => exact Program.Keeps.fail _

variable (mint : Mint) (reservationID orderID : ID)

theorem keeps_returnStock :
    (returnStock reservationID orderID).Keeps besideLevels :=
  Program.Keeps.bind (fun _ => rfl) fun lines => Program.Keeps.forEach
    (fun line => (keeps_moveLine .giveBack line).bind fun _ => keeps_writeLedger _) lines

theorem keeps_visible {α : Type} {p : Tx α} (keeps : p.Keeps besideLevels) :
    p.Keeps visible := keeps.comp visible

theorem keeps_availableFor (sku : ID) : (availableFor sku).Keeps visible := fun _ => rfl

theorem keeps_orReject (taken : Bool) : (orReject taken).Keeps visible := by
  cases taken
  · exact Program.Keeps.fail _
  · exact Program.Keeps.pure _

theorem keeps_insertReservationItem (item : ReservationItem) :
    (insertReservationItem item).Keeps visible := by
  refine Program.Keeps.bind (Program.Keeps.stmt fun db => ?_) keeps_orReject
  change visible (dialect.replay (if db.admits item then [.item item] else []) db) = _
  split <;> rfl

theorem keeps_enqueue {record : OutboxRecord} (silent : record.event.announces = false) :
    (enqueue record).Keeps visible := by
  intro db
  change visible { db with
    outbox := Table.insertNew OutboxRecord.eventID db.outbox record } = _
  rcases Table.insertNew_cases OutboxRecord.eventID db.outbox record with same | more
  · rw [same]
  · simp [more, visible, announced, silent]

theorem keeps_takeLine (line : ReservationLine) :
    (takeLine reservationID orderID line).Keeps visible := by
  refine (keeps_visible (keeps_updateLevel .take line.sku line.quantity)).bind fun answer => ?_
  cases answer with
  | level row =>
    exact (keeps_insertReservationItem _).bind fun _ =>
      (keeps_visible (keeps_writeLedger _)).bind fun _ => Program.Keeps.pure none
  | noRow => exact (keeps_availableFor _).bind fun _ => Program.Keeps.pure _
  | rejected => exact Program.Keeps.fail _

theorem keeps_takeLines (lines : List ReservationLine) :
    (takeLines reservationID orderID lines).Keeps visible := by
  induction lines with
  | nil => exact Program.Keeps.pure []
  | cons line lines ih =>
    exact (keeps_takeLine reservationID orderID line).bind fun _ =>
      ih.bind fun _ => Program.Keeps.pure _

theorem keeps_commitLine (line : ReservationLine) :
    (commitLine mint reservationID orderID line).Keeps visible :=
  (keeps_visible (keeps_moveLine .commit line)).bind fun _ =>
    (keeps_visible (keeps_writeLedger _)).bind fun _ => keeps_enqueue rfl

@[simp] theorem run_loadReservationForUpdate (id : ID) (db : Database) :
    (loadReservationForUpdate id).run db = (.ok (db.reservation id), db) := rfl

@[simp] theorem run_reservationForOrder (db : Database) :
    (reservationForOrder orderID).run db =
      (.ok ((db.reservationOf orderID).map Reservation.id), db) := rfl

@[simp] theorem run_enqueue (record : OutboxRecord) (db : Database) :
    (enqueue record).run db = (.ok (), { db with
      outbox := Table.insertNew OutboxRecord.eventID db.outbox record }) := rfl

@[simp] theorem run_reservationItems (db : Database) :
    (reservationItems reservationID).run db = (.ok (db.lines reservationID), db) := rfl

section UpdateLevel

variable {db : Database} {update : LevelUpdate} {sku : ID} {quantity : Int}

theorem writes_level {row : StockLevel} (updates : db.updating update sku quantity = .level row) :
    (Stmt.updateLevel update sku quantity).writes db = [.stock sku row] := by
  simp only [Stmt.writes, updates]

theorem writes_noRow (updates : db.updating update sku quantity = .noRow) :
    (Stmt.updateLevel update sku quantity).writes db = [] := by
  simp only [Stmt.writes, updates]

theorem writes_rejected (updates : db.updating update sku quantity = .rejected) :
    (Stmt.updateLevel update sku quantity).writes db = [] := by
  simp only [Stmt.writes, updates]

theorem updateLevel_elim {P : LevelAnswer → Database → Prop}
    (level : ∀ row, db.updating update sku quantity = .level row →
      P (.level row) (Write.put (.stock sku row) db))
    (noRow : db.updating update sku quantity = .noRow → P .noRow db)
    (rejected : db.updating update sku quantity = .rejected → P .rejected db) :
    P (dialect.answer (.updateLevel update sku quantity) db)
      (dialect.replay (dialect.writes (.updateLevel update sku quantity) db) db) := by
  change P (db.updating update sku quantity)
    (dialect.replay ((Stmt.updateLevel update sku quantity).writes db) db)
  cases updates : db.updating update sku quantity with
  | level row =>
    rw [writes_level updates]
    exact level row updates
  | noRow =>
    rw [writes_noRow updates]
    exact noRow updates
  | rejected =>
    rw [writes_rejected updates]
    exact rejected updates

end UpdateLevel

theorem run_updateLevel (update : LevelUpdate) (sku : ID) (quantity : Int) (db : Database) :
    (updateLevel update sku quantity).run db = (.ok (db.updating update sku quantity),
        match db.updating update sku quantity with
        | .level row => { db with stock := Function.update db.stock sku (some row) }
        | _ => db) := by
  change (Except.ok (db.updating update sku quantity),
    dialect.replay ((Stmt.updateLevel update sku quantity).writes db) db) = _
  cases updates : db.updating update sku quantity with
  | level row => rw [writes_level updates]; rfl
  | noRow => rw [writes_noRow updates]; rfl
  | rejected => rw [writes_rejected updates]; rfl

theorem run_claimEvent (eventID : ID) (db : Database) :
    (claimEvent eventID).run db = (.ok (!db.processed.contains eventID),
      if db.processed.contains eventID then db
      else { db with processed := db.processed ++ [eventID] }) := by
  change (Except.ok (!db.processed.contains eventID),
    dialect.replay (if db.processed.contains eventID then [] else [.processed eventID]) db) = _
  split <;> rfl

/-- The tables after a row of `reservations` is written. -/
def Database.putReservation (db : Database) (row : Reservation) : Database :=
  { db with reservations := Table.upsert Reservation.id row db.reservations }

theorem run_insertReservation (row : Reservation) (db : Database) :
    (insertReservation row).run db =
      match db.inserting row with
      | .inserted => (.ok (), db.putReservation row)
      | .duplicate => (.error .duplicateKey, db)
      | .rejected => (.error .rejected, db) := by
  change run (orFail (db.inserting row))
    (dialect.replay (if db.inserting row = .inserted then [.reservation row] else []) db) = _
  cases db.inserting row <;> rfl

variable {row : Reservation} {after between : Database} {id : ID} {lines : List ReservationLine}

theorem insertReservation_ok {db : Database}
    (succeeds : (insertReservation row).run db = (.ok (), after)) :
    db.inserting row = .inserted ∧ after = db.putReservation row := by
  rw [run_insertReservation] at succeeds
  cases answer : db.inserting row <;> simp only [answer] at succeeds
  · exact ⟨rfl, (Prod.mk.inj succeeds).2.symm⟩
  · cases succeeds
  · cases succeeds

theorem run_insertReservationIfAbsent (row : Reservation) (db : Database) :
    (insertReservationIfAbsent row).run db =
      if (db.reservation row.id).isSome then (.ok (), db) else (insertReservation row).run db := by
  rw [run_insertReservation]
  change run
    (orFail (if (db.reservation row.id).isSome then InsertAnswer.inserted else db.inserting row))
    (dialect.replay (if db.inserting row = .inserted then [.reservation row] else []) db) = _
  by_cases taken : (db.reservation row.id).isSome = true
  · have refused : db.inserting row = .duplicate := by simp [inserting, taken]
    simp only [taken, refused, ↓reduceIte, reduceCtorEq]
    rfl
  · simp only [taken, Bool.false_eq_true, ↓reduceIte]
    cases db.inserting row <;> rfl

theorem run_markReservation {state : ReservationState} (closes : state ≠ .reserved)
    (id : ID) (reasonCode : String) (db : Database) :
    (markReservation id state reasonCode).run db =
      (.ok (), (db.marked id state (nullIfEmpty reasonCode)).elim db db.putReservation) := by
  change run (orReject ((db.marked id state (nullIfEmpty reasonCode)).all Reservation.admissible))
    (dialect.replay (((db.marked id state (nullIfEmpty reasonCode)).filter
      Reservation.admissible).map Write.reservation).toList db) = _
  cases found : db.marked id state (nullIfEmpty reasonCode) with
  | none => rfl
  | some row =>
    have closed : row.admissible = true := by
      obtain ⟨old, -, rfl⟩ := Option.map_eq_some_iff.mp found
      simp [Reservation.admissible, closes]
    simp only [Option.all_some, closed, Option.filter_some, ↓reduceIte, Option.map_some,
      Option.toList_some]
    rfl

/-- A transaction wrote a row of `reservations` and announced it. -/
structure Wrote (db after : Database) (row : Reservation) (record : OutboxRecord) : Prop where
  reservations : after.reservations = Table.upsert Reservation.id row db.reservations
  announced : after.announced = db.announced ∨ after.announced = db.announced ++ [record]
  processed : after.processed = db.processed

theorem announced_enqueue (db : Database) (record : OutboxRecord) :
    { db with outbox := Table.insertNew OutboxRecord.eventID db.outbox record }.announced =
        db.announced ∨
      { db with outbox := Table.insertNew OutboxRecord.eventID db.outbox record }.announced =
        db.announced ++ [record] := by
  rcases Table.insertNew_cases OutboxRecord.eventID db.outbox record with same | more
  · exact .inl (by rw [same])
  · cases announces : record.event.announces with
    | false => exact .inl (by simp [more, announced, announces])
    | true => exact .inr (by simp [more, announced, announces])

theorem visible_putReservation {db : Database} (unseen : between.visible = db.visible)
    (row : Reservation) :
    (between.putReservation row).visible = (db.putReservation row).visible := by
  simp only [visible, putReservation, announced, Prod.mk.injEq] at unseen ⊢
  obtain ⟨reservations, announced, processed⟩ := unseen
  exact ⟨by rw [reservations], announced, processed⟩

theorem Wrote.announce {db : Database} (put : between.visible = (db.putReservation row).visible)
    (record : OutboxRecord) :
    Wrote db { between with
      outbox := Table.insertNew OutboxRecord.eventID between.outbox record } row record := by
  simp only [visible, Prod.mk.injEq] at put
  obtain ⟨reservations, announced, processed⟩ := put
  have same : (db.putReservation row).announced = db.announced := rfl
  refine ⟨reservations, ?_, processed⟩
  rw [← same, ← announced]
  exact announced_enqueue between record

theorem Wrote.again {db : Database} (found : db.reservation id = some row) (record : OutboxRecord) :
    Wrote db { db with outbox := Table.insertNew OutboxRecord.eventID db.outbox record }
      row record := by
  apply Wrote.announce
  simp only [visible, putReservation, Table.upsert_of_find found]

theorem inserting_eq_inserted {db : Database} (free : db.inserting row = .inserted) :
    db.reservation row.id = none ∧ db.reservationOf row.orderID = none := by
  unfold inserting at free
  split at free
  · cases free
  · rename_i taken
    simpa using taken

theorem reserve_ok {mint : Mint} {now : Time} {reservationID orderID : ID}
    {items : List ReservationLine} {ttl : Nat} {db : Database} {result : ReserveResult}
    (succeeds : (reserve mint now reservationID orderID items ttl).run db = (.ok result, after)) :
    after = db ∨ db.reservation reservationID = none ∧ ∃ lines, Wrote db after
        { id := reservationID, orderID := orderID, state := .reserved,
          expiresAt := some (now + ttl) }
        ⟨mint.eventID, .reserved orderID reservationID lines (now + ttl)⟩ := by
  have held : ∀ {lines}, (hold mint now reservationID orderID lines ttl).run db =
      (.ok result, after) → Wrote db after
        { id := reservationID, orderID := orderID, state := .reserved,
          expiresAt := some (now + ttl) }
        ⟨mint.eventID, .reserved orderID reservationID lines (now + ttl)⟩ := by
    intro lines holds
    obtain ⟨_, between, inserted, holds⟩ := run_bind_ok.mp holds
    obtain ⟨-, rfl⟩ := insertReservation_ok inserted
    obtain ⟨unavailable, taken, takes, holds⟩ := run_bind_ok.mp holds
    have unseen := (keeps_takeLines reservationID orderID lines).of_run takes
    split at holds
    · obtain ⟨_, _, enqueues, returns⟩ := run_bind_ok.mp holds
      cases enqueues
      cases returns
      exact Wrote.announce unseen _
    · cases holds
  unfold reserve at succeeds
  split at succeeds
  · cases succeeds
  · split at succeeds
    · cases succeeds
    · simp only [run_bind, run_loadReservationForUpdate] at succeeds
      cases found : db.reservation reservationID with
      | some existing =>
        simp only [found] at succeeds
        cases succeeds
        exact .inl rfl
      | none =>
        simp only [found, run_bind, run_reservationForOrder] at succeeds
        cases other : (db.reservationOf orderID).map Reservation.id with
        | none =>
          simp only [other] at succeeds
          exact .inr ⟨rfl, _, held succeeds⟩
        | some otherID =>
          simp only [other] at succeeds
          split at succeeds
          · cases succeeds
            exact .inl rfl
          · exact .inr ⟨rfl, _, held succeeds⟩

theorem run_reserve_cases (now : Time) (orderID reservationID : ID) (items : List ReservationLine)
    (ttlSeconds : Int) (db : Database) :
    Task.run mint now (.apply (.reserve orderID reservationID items ttlSeconds)) db = (db, none) ∨
      (∃ unavailable,
        Task.run mint now (.apply (.reserve orderID reservationID items ttlSeconds)) db =
          (db, some (.publishFailure reservationID orderID unavailable))) ∨
      ∃ after lines expiresAt,
        Task.run mint now (.apply (.reserve orderID reservationID items ttlSeconds)) db =
          (after, none) ∧
        db.reservation reservationID = none ∧
        Wrote db after
          { id := reservationID, orderID := orderID, state := .reserved,
            expiresAt := some expiresAt }
          ⟨mint.eventID, .reserved orderID reservationID lines expiresAt⟩ := by
  rcases ran : (reserve mint now reservationID orderID items (ttlOf ttlSeconds)).run db with
    ⟨err | result, after⟩
  · cases err with
    | insufficient unavailable => exact .inr (.inl ⟨unavailable, by simp only [Task.run, ran]⟩)
    | _ => exact .inl (by simp only [Task.run, ran])
  · rcases reserve_ok ran with same | ⟨new, lines, wrote⟩
    · exact .inl (by simp only [Task.run, ran, same])
    · exact .inr (.inr ⟨after, lines, _, by simp only [Task.run, ran], new, wrote⟩)

theorem publishFailure_inTx_cases (unavailable : List UnavailableSKU) (db : Database) :
    (publishFailure mint reservationID orderID unavailable).inTx db = db ∨ ∃ row,
      (db.reservation reservationID = some row ∨ db.reservation reservationID = none ∧
        row = { id := reservationID, orderID := orderID, state := .failed,
                reasonCode := some "INSUFFICIENT_STOCK" }) ∧
      Wrote db ((publishFailure mint reservationID orderID unavailable).inTx db) row
        ⟨mint.eventID, .reservationFailed orderID reservationID "INSUFFICIENT_STOCK"
          unavailable⟩ := by
  rcases inTx_cases (publishFailure mint reservationID orderID unavailable) db with
    stays | ⟨_, publishes⟩
  · exact .inl stays
  · right
    generalize (publishFailure mint reservationID orderID unavailable).inTx db =
      after at publishes ⊢
    obtain ⟨_, between, inserts, enqueues⟩ := run_bind_ok.mp publishes
    cases enqueues
    rw [run_insertReservationIfAbsent] at inserts
    cases found : db.reservation reservationID with
    | some row =>
      simp only [found, Option.isSome_some, ↓reduceIte] at inserts
      cases inserts
      exact ⟨row, .inl rfl, Wrote.again found _⟩
    | none =>
      simp only [found, Option.isSome_none, Bool.false_eq_true, ↓reduceIte] at inserts
      obtain ⟨-, rfl⟩ := insertReservation_ok inserts
      exact ⟨_, .inr ⟨rfl, rfl⟩, Wrote.announce rfl _⟩

def Reservation.close (row : Reservation) (state : ReservationState) (reasonCode : String) :
    Reservation :=
  { row with
    state := state, reasonCode := nullIfEmpty reasonCode <|> row.reasonCode, expiresAt := none }

theorem markReservation_ok {db : Database} {state : ReservationState} {reasonCode : String}
    (found : db.reservation id = some row) (unseen : between.visible = db.visible)
    (closes : state ≠ .reserved)
    (marks : (markReservation id state reasonCode).run between = (.ok (), after)) :
    after.visible = (db.putReservation (row.close state reasonCode)).visible := by
  have found' : between.reservation id = some row := by
    have same : between.reservations = db.reservations := (Prod.mk.inj unseen).1
    rw [reservation, same]
    exact found
  rw [run_markReservation closes, marked, found', Option.map_some, Option.elim_some] at marks
  cases marks
  exact visible_putReservation unseen _

/-- What `Release` does to the row it finds. -/
inductive Released (reservationID orderID : ID) : Option Reservation → Reservation → Prop where
  | tombstone {row : Reservation} (named : row.id = reservationID) (owned : row.orderID = orderID)
      (state : row.state = .released) : Released reservationID orderID none row
  | open' {row : Reservation} (reasonCode : String) (held : row.state = .reserved) :
      Released reservationID orderID (some row) (row.close .released reasonCode)
  | again {row : Reservation} (settled : row.state = .released ∨ row.state = .failed) :
      Released reservationID orderID (some row) row

theorem release_inTx_cases (reasonCode : String) (db : Database) :
    (release mint reservationID orderID reasonCode).inTx db = db ∨ ∃ row wasTombstone,
      Released reservationID orderID (db.reservation reservationID) row ∧
      Wrote db ((release mint reservationID orderID reasonCode).inTx db) row
        ⟨mint.eventID, .released orderID reservationID wasTombstone⟩ := by
  rcases inTx_cases (release mint reservationID orderID reasonCode) db with
    stays | ⟨_, releases⟩
  · exact .inl stays
  · right
    generalize (release mint reservationID orderID reasonCode).inTx db = after at releases ⊢
    simp only [release, run_bind, run_loadReservationForUpdate] at releases
    cases found : db.reservation reservationID with
    | none =>
      simp only [found] at releases
      obtain ⟨_, _, inserts, releases⟩ := run_bind_ok.mp releases
      obtain ⟨-, rfl⟩ := insertReservation_ok inserts
      obtain ⟨_, _, enqueues, returns⟩ := run_bind_ok.mp releases
      cases enqueues
      cases returns
      exact ⟨_, true, .tombstone rfl rfl rfl, Wrote.announce rfl _⟩
    | some row =>
      simp only [found] at releases
      cases held : row.state with
      | committed =>
        simp only [held] at releases
        cases releases
      | reserved =>
        simp only [held] at releases
        obtain ⟨_, between, returned, releases⟩ := run_bind_ok.mp releases
        have unseen := (keeps_visible (keeps_returnStock reservationID orderID)).of_run returned
        obtain ⟨_, _, marks, releases⟩ := run_bind_ok.mp releases
        obtain ⟨_, _, enqueues, returns⟩ := run_bind_ok.mp releases
        cases enqueues
        cases returns
        have put := markReservation_ok found unseen (by decide) marks
        exact ⟨_, false, .open' reasonCode held, Wrote.announce put _⟩
      | released | failed =>
        simp only [held] at releases
        obtain ⟨_, _, enqueues, returns⟩ := run_bind_ok.mp releases
        cases enqueues
        cases returns
        exact ⟨row, false, .again (by simp [held]), Wrote.again found _⟩

/-- What `Commit` does to the row it finds. -/
inductive Committed : Reservation → Reservation → Prop where
  | open' {row : Reservation} (held : row.state = .reserved) :
      Committed row (row.close .committed "")
  | again {row : Reservation} (settled : row.state = .committed) : Committed row row

theorem commit_inTx_cases (db : Database) :
    (commit mint reservationID orderID).inTx db = db ∨ ∃ old row,
      db.reservation reservationID = some old ∧ Committed old row ∧
      Wrote db ((commit mint reservationID orderID).inTx db) row
        ⟨mint.eventID, .committed orderID reservationID⟩ := by
  rcases inTx_cases (commit mint reservationID orderID) db with stays | ⟨_, commits⟩
  · exact .inl stays
  · right
    generalize (commit mint reservationID orderID).inTx db = after at commits ⊢
    simp only [commit, run_bind, run_loadReservationForUpdate] at commits
    cases found : db.reservation reservationID with
    | none =>
      simp only [found] at commits
      cases commits
    | some row =>
      simp only [found] at commits
      cases held : row.state with
      | committed =>
        simp only [held] at commits
        cases commits
        exact ⟨row, row, rfl, .again held, Wrote.again found _⟩
      | reserved =>
        simp only [held] at commits
        obtain ⟨lines, _, reads, commits⟩ := run_bind_ok.mp commits
        cases reads
        obtain ⟨_, between, deducted, commits⟩ := run_bind_ok.mp commits
        have unseen := (Program.Keeps.forEach
          (keeps_commitLine mint reservationID orderID) _).of_run deducted
        obtain ⟨_, _, marks, enqueues⟩ := run_bind_ok.mp commits
        cases enqueues
        have put := markReservation_ok found unseen (by decide) marks
        exact ⟨row, _, rfl, .open' held, Wrote.announce put _⟩
      | released | failed =>
        simp only [held] at commits
        cases commits

/-- The quantity of a SKU over all its lines. -/
def quantityOf (sku : ID) (lines : List ReservationLine) : Int :=
  ((lines.filter fun line => line.sku = sku).map ReservationLine.quantity).sum

/-- The stock rows cover lines: each SKU has a row, and at least as much of it is
held as the lines add up to. -/
def Database.Covers (db : Database) (lines : List ReservationLine) : Prop :=
  ∀ line ∈ lines, 0 < line.quantity ∧ fitsInt line.quantity = true ∧
    ∃ row, db.stock line.sku = some row ∧ row.admissible = true ∧
      quantityOf line.sku lines ≤ row.reserved

theorem quantityOf_cons (sku : ID) (line : ReservationLine) (lines : List ReservationLine) :
    quantityOf sku (line :: lines) =
      (if line.sku = sku then line.quantity else 0) + quantityOf sku lines := by
  by_cases same : line.sku = sku <;> simp [quantityOf, same]

theorem Database.Covers.tail {db : Database} {line : ReservationLine}
    (covers : db.Covers (line :: lines)) {row : StockLevel} (found : db.stock line.sku = some row)
    (stock : after.stock = Function.update db.stock line.sku (some (LevelUpdate.commit.change
      line.quantity row)))
    (admitted : (LevelUpdate.commit.change line.quantity row).admissible = true) :
    after.Covers lines := by
  intro other member
  obtain ⟨positive, fits, row', found', admitted', enough⟩ :=
    covers other (mem_cons_of_mem _ member)
  refine ⟨positive, fits, ?_⟩
  rw [quantityOf_cons] at enough
  by_cases same : line.sku = other.sku
  · rw [same] at found stock
    obtain rfl := Option.some.inj (found.symm.trans found')
    refine ⟨_, by rw [stock, Function.update_self], admitted, ?_⟩
    rw [if_pos same] at enough
    simp only [LevelUpdate.change]
    omega
  · refine ⟨row', ?_, admitted', ?_⟩
    · rw [stock, Function.update_of_ne (Ne.symm same)]
      exact found'
    · rw [if_neg same] at enough
      omega

theorem quantityOf_nonneg {sku : ID} (positive : ∀ line ∈ lines, 0 < line.quantity) :
    0 ≤ quantityOf sku lines := by
  induction lines with
  | nil => exact Int.le_refl 0
  | cons line lines ih =>
    have first := positive line mem_cons_self
    have rest := ih fun other member => positive other (mem_cons_of_mem _ member)
    rw [quantityOf_cons]
    split <;> omega

theorem commitLine_succeeds {db : Database} {line : ReservationLine}
    (covers : db.Covers (line :: lines)) :
    ∃ after, (commitLine mint reservationID orderID line).run db = (.ok (), after) ∧
      after.Covers lines := by
  obtain ⟨positive, fits, row, found, admitted, enough⟩ := covers line mem_cons_self
  have rest : 0 ≤ quantityOf line.sku lines :=
    quantityOf_nonneg fun other member => (covers other (mem_cons_of_mem _ member)).1
  rw [quantityOf_cons, if_pos rfl] at enough
  have changed : (LevelUpdate.commit.change line.quantity row).admissible = true := by
    rw [StockLevel.admissible_iff] at admitted ⊢
    simp only [LevelUpdate.change]
    omega
  have updating : db.updating .commit line.sku line.quantity =
      .level (LevelUpdate.commit.change line.quantity row) := by
    simp [updating, fits, found, LevelUpdate.applies, changed]
  obtain ⟨after, ran, stock⟩ : ∃ after,
      (commitLine mint reservationID orderID line).run db = (.ok (), after) ∧
      after.stock = Function.update db.stock line.sku
        (some (LevelUpdate.commit.change line.quantity row)) := by
    simp only [commitLine, moveLine, run_bind, run_updateLevel, updating]
    exact ⟨_, rfl, rfl⟩
  exact ⟨after, ran, covers.tail found stock changed⟩

theorem commitLines_succeed (lines : List ReservationLine) {db : Database}
    (covers : db.Covers lines) :
    ∃ after, (forEach (commitLine mint reservationID orderID) lines).run db = (.ok (), after) := by
  induction lines generalizing db with
  | nil => exact ⟨db, rfl⟩
  | cons line lines ih =>
    obtain ⟨between, first, covers'⟩ := commitLine_succeeds mint reservationID orderID covers
    obtain ⟨after, rest⟩ := ih covers'
    exact ⟨after, run_bind_ok.mpr ⟨(), between, first, rest⟩⟩

theorem commit_succeeds {db : Database} (found : db.reservation id = some row)
    (live : row.state = .reserved ∨ row.state = .committed) (covers : db.Covers (db.lines id)) :
    ∃ after, (commit mint id orderID).run db = (.ok (), after) := by
  rcases live with held | settled
  · obtain ⟨between, deducts⟩ := commitLines_succeed mint id orderID (db.lines id) covers
    have marks := run_markReservation (show ReservationState.committed ≠ .reserved by decide) id ""
      between
    simp only [commit, run_bind, run_loadReservationForUpdate, found, held,
      run_reservationItems, deducts, marks, run_enqueue]
    exact ⟨_, rfl⟩
  · simp only [commit, run_bind, run_loadReservationForUpdate, found, settled, run_enqueue]
    exact ⟨_, rfl⟩

theorem claimed_cases {db : Database} (single : db.reservations.length ≤ 1) (batch : Nat)
    (now : Time) :
    (db.expired now).take batch = [] ∨ ∃ row, db.reservations = [row] ∧ row.state = .reserved ∧
      row.expiresAt.any (· < now) = true ∧ (db.expired now).take batch = [row] := by
  rcases held : db.reservations with _ | ⟨row, _ | ⟨other, rest⟩⟩
  · simp [expired, held]
  · by_cases late : row.state = .reserved ∧ row.expiresAt.any (· < now) = true
    · cases batch with
      | zero => exact .inl take_zero
      | succ batch =>
        exact .inr ⟨row, rfl, late.1, late.2, by simp [expired, held, late.1, late.2]⟩
    · left
      have kept : (row.state == .reserved && row.expiresAt.any (· < now)) = false := by
        simpa [Bool.and_eq_true] using late
      simp [expired, held, kept]
  · simp [held] at single

theorem sweepExpired_inTx_cases (batch : Nat) (now : Time) {db : Database}
    (single : db.reservations.length ≤ 1) :
    (sweepExpired mint batch now).inTx db = db ∨ ∃ row,
      db.reservations = [row] ∧ row.state = .reserved ∧ (db.expired now).take batch = [row] ∧
      Wrote db ((sweepExpired mint batch now).inTx db) (row.close .released "TTL_EXPIRED")
        ⟨mint.eventIDFor row.id, .released row.orderID row.id false⟩ := by
  rcases inTx_cases (sweepExpired mint batch now) db with stays | ⟨_, sweeps⟩
  · exact .inl stays
  · generalize (sweepExpired mint batch now).inTx db = after at sweeps ⊢
    obtain ⟨claimed, _, claims, sweeps⟩ := run_bind_ok.mp sweeps
    cases claims
    change (forEach (expire mint) (db.claimed batch now [])).run db = _ at sweeps
    rw [claimed_nil] at sweeps
    rcases claimed_cases single batch now with none' | ⟨row, only, held, -, one⟩
    · rw [none'] at sweeps
      cases sweeps
      exact .inl rfl
    · rw [one, forEach_cons] at sweeps
      obtain ⟨_, _, expires, ends⟩ := run_bind_ok.mp sweeps
      cases ends
      obtain ⟨_, between, returned, expires⟩ := run_bind_ok.mp expires
      have unseen := (keeps_visible (keeps_returnStock row.id row.orderID)).of_run returned
      obtain ⟨_, _, marks, enqueues⟩ := run_bind_ok.mp expires
      cases enqueues
      have found : db.reservation row.id = some row := by
        simp [reservation, Table.find, only]
      have put := markReservation_ok found unseen (by decide) marks
      exact .inr ⟨row, only, held, one, Wrote.announce put _⟩

end Souq.Inventory
