import Souq.Inventory.Conservation

/-!
# The ledger replays to the stock table

Every change of a stock level appends a row to `stock_ledger` in the same
transaction and under the lock of the level, so for one SKU the rows stand in the
order in which the levels changed. The main result `ledger_replays` is that folding
them from the initial levels gives the levels of every committed state, and that
the after-values of each row are those of the fold.
-/

namespace Souq.Inventory

open Transact Transition Program Database List

/-- The two counters of a stock level. -/
structure Counters where
  onHand : Int
  reserved : Int

/-- The counters of a row of `stock_levels`. -/
def StockLevel.counters (row : StockLevel) : Counters := ⟨row.onHand, row.reserved⟩

/-- The counters that the entry records. -/
def LedgerEntry.after (entry : LedgerEntry) : Counters := ⟨entry.onHandAfter, entry.reservedAfter⟩

/-- What a ledger row says was moved. -/
def LedgerEntry.apply (counters : Counters) (entry : LedgerEntry) : Counters :=
  match entry.movement with
  | .reservation | .release => { counters with reserved := counters.reserved + entry.quantity }
  | .commit => ⟨counters.onHand + entry.quantity, counters.reserved + entry.quantity⟩
  | .restock | .adjustment | .returned | .shrinkage =>
    { counters with onHand := counters.onHand + entry.quantity }

/-- The entries applied one by one. -/
def replayLedger (counters : Counters) (entries : List LedgerEntry) : Counters :=
  entries.foldl LedgerEntry.apply counters

/-- The entries of a SKU. -/
def Database.ledgerOf (db : Database) (sku : ID) : List LedgerEntry :=
  db.ledger.filter fun entry => entry.sku == sku

def Database.Live (db : Database) (id : ID) : Prop :=
  ∃ row, db.reservation id = some row ∧ row.state ≠ .failed

/-- The ledger accounts for what happened since the start. -/
structure Booked (start db : Database) : Prop where
  level : ∀ sku, (db.stock sku).map StockLevel.counters =
    (start.stock sku).map fun first => replayLedger first.counters (db.ledgerOf sku)
  after : ∀ sku first, start.stock sku = some first → ∀ front entry,
    front ++ [entry] <+: db.ledgerOf sku →
      entry.after = replayLedger first.counters (front ++ [entry])
  absent : ∀ sku, start.stock sku = none → db.ledgerOf sku = []
  named : ∀ entry ∈ db.ledger, ∀ id, entry.reservationID = some id → db.Live id

variable {start db after : Database}

namespace Booked

/-- What the ledger accounts for are the levels, its own rows and the reservations
they name. -/
theorem congr (booked : Booked start db)
    (stock : ∀ sku, (after.stock sku).map StockLevel.counters =
      (db.stock sku).map StockLevel.counters)
    (ledger : after.ledger = db.ledger) (live : ∀ id, db.Live id → after.Live id) :
    Booked start after where
  level := fun sku => by
    rw [stock, booked.level]
    unfold ledgerOf
    rw [ledger]
  after := fun sku => by
    unfold ledgerOf
    rw [ledger]
    exact booked.after sku
  absent := fun sku => by
    unfold ledgerOf
    rw [ledger]
    exact booked.absent sku
  named := fun entry member id names => by
    rw [ledger] at member
    exact live id (booked.named entry member id names)

theorem put_outbox (booked : Booked start db) (record : OutboxRecord) :
    Booked start (Write.put (.outbox record) db) :=
  booked.congr (fun _ => rfl) rfl fun _ live => live

theorem put_reservation (booked : Booked start db) {row : Reservation}
    (fresh : row.state ≠ .failed ∨ db.reservation row.id = none) :
    Booked start (Write.put (.reservation row) db) := by
  refine booked.congr (fun _ => rfl) rfl ?_
  rintro id ⟨old, found, sound⟩
  unfold Database.Live
  rw [reservation_put]
  by_cases same : row.id = id
  · refine ⟨row, if_pos same, ?_⟩
    rcases fresh with sound' | absent
    · exact sound'
    · rw [same, found] at absent
      cases absent
  · exact ⟨old, by rw [if_neg same, found], sound⟩

/-- **One movement.** A new version of a level and the ledger row that accounts for
it. -/
theorem post (booked : Booked start db) {sku : ID} {old row : StockLevel} {entry : LedgerEntry}
    (found : db.stock sku = some old)
    (stock : after.stock = Function.update db.stock sku (some row))
    (ledger : after.ledger = db.ledger ++ [entry])
    (reservations : after.reservations = db.reservations)
    (about : entry.sku = sku) (moves : LedgerEntry.apply old.counters entry = row.counters)
    (records : entry.after = row.counters)
    (names : ∀ id, entry.reservationID = some id → db.Live id) : Booked start after := by
  have mine : after.ledgerOf sku = db.ledgerOf sku ++ [entry] := by
    simp [ledgerOf, ledger, about]
  have others : ∀ other, other ≠ sku → after.ledgerOf other = db.ledgerOf other := by
    intro other different
    simp [ledgerOf, ledger, about, Ne.symm different]
  have live : ∀ id, db.Live id → after.Live id := by
    rintro id ⟨version, there, sound⟩
    exact ⟨version, by rw [reservation, reservations]; exact there, sound⟩
  obtain ⟨first, initial, level⟩ : ∃ first, start.stock sku = some first ∧
      replayLedger first.counters (db.ledgerOf sku) = old.counters := by
    have level := booked.level sku
    rw [found] at level
    cases initial : start.stock sku with
    | none => rw [initial] at level; cases level
    | some first =>
      rw [initial] at level
      exact ⟨first, rfl, (Option.some.inj level).symm⟩
  have replayed : replayLedger first.counters (db.ledgerOf sku ++ [entry]) = row.counters := by
    rw [replayLedger, foldl_append]
    change LedgerEntry.apply (replayLedger first.counters (db.ledgerOf sku)) entry = _
    rw [level, moves]
  refine ⟨fun other => ?_, fun other version there front last part => ?_, fun other missing => ?_,
    fun other member id named => ?_⟩
  · by_cases same : other = sku
    · rw [same, stock, Function.update_self, initial, mine]
      exact congrArg some replayed.symm
    · rw [stock, Function.update_of_ne same, others other same]
      exact booked.level other
  · by_cases same : other = sku
    · subst same
      rw [initial] at there
      cases there
      rw [mine] at part
      rcases prefix_concat_iff.mp part with whole | before
      · obtain ⟨rfl, rfl⟩ : front = db.ledgerOf other ∧ last = entry := by
          simpa using append_inj' whole rfl
        rw [replayed, records]
      · exact booked.after other first initial front last before
    · rw [others other same] at part
      exact booked.after other version there front last part
  · by_cases same : other = sku
    · rw [same, initial] at missing
      cases missing
    · rw [others other same]
      exact booked.absent other missing
  · rw [ledger] at member
    rcases mem_append.mp member with before | new
    · exact live id (booked.named other before id named)
    · obtain rfl := mem_singleton.mp new
      exact live id (names id named)

end Booked

/-- A program that finds the units it moves ends as stated. -/
abbrev Books {α : Type} (p : Tx α) (db : Database) (post : α → Database → Prop) : Prop :=
  p.Assuming (D := dialect) (fun view q => q.Sufficient view) db post

/-- The ledger accounts for everything and the reservations at hand are live. -/
structure Keeping (start db : Database) (ids : List ID) : Prop where
  booked : Booked start db
  live : ∀ id ∈ ids, db.Live id

variable {ids : List ID}

theorem Keeping.put_outbox (keeping : Keeping start db ids) (record : OutboxRecord) :
    Keeping start (Write.put (.outbox record) db) ids :=
  ⟨keeping.booked.put_outbox record, keeping.live⟩

variable {row : Reservation} {sku reservationID id : ID} {α : Type}

theorem Keeping.put_reservation (keeping : Keeping start db ids) (sound : row.state ≠ .failed) :
    Keeping start (Write.put (.reservation row) db) ids := by
  refine ⟨keeping.booked.put_reservation (.inl sound), fun id member => ?_⟩
  obtain ⟨old, found, sound'⟩ := keeping.live id member
  unfold Database.Live
  rw [reservation_put]
  split
  · exact ⟨row, rfl, sound⟩
  · exact ⟨old, found, sound'⟩

theorem Keeping.post (keeping : Keeping start db ids) {old row : StockLevel} {entry : LedgerEntry}
    (found : db.stock sku = some old)
    (stock : after.stock = Function.update db.stock sku (some row))
    (ledger : after.ledger = db.ledger ++ [entry])
    (reservations : after.reservations = db.reservations) (about : entry.sku = sku)
    (moves : LedgerEntry.apply old.counters entry = row.counters)
    (records : entry.after = row.counters)
    (names : ∀ id, entry.reservationID = some id → id ∈ ids) :
    Keeping start after ids := by
  refine ⟨keeping.booked.post found stock ledger reservations about moves records
    fun id named => keeping.live id (names id named), fun id member => ?_⟩
  obtain ⟨version, there, sound⟩ := keeping.live id member
  exact ⟨version, by rw [reservation, reservations]; exact there, sound⟩

theorem books_updateLevel {update : LevelUpdate} {quantity : Int} {rest : LevelAnswer → Tx α}
    {post : α → Database → Prop}
    (level : ∀ old, db.stock sku = some old → (Stmt.updateLevel update sku quantity).Sufficient db →
      Books (rest (.level (update.change quantity old))) (Write.put (.stock sku (update.change
      quantity old)) db) post) (noRow : Books (rest .noRow) db post)
    (rejected : Books (rest .rejected) db post) :
    Books (updateLevel update sku quantity >>= rest) db post := by
  intro finds
  refine updateLevel_elim (P := fun answer after => Books (rest answer) after post)
    (fun row updates => ?_) (fun _ => noRow) fun _ => rejected
  obtain ⟨old, found, -, rfl, -⟩ := updating_level updates
  exact level old found finds

variable (mint : Mint) (now : Time) (orderID : ID) (line : ReservationLine)

theorem books_returnLine (member : reservationID ∈ ids) (keeping : Keeping start db ids) :
    Books (returnLine reservationID orderID line) db fun _ after => Keeping start after ids := by
  refine Program.Assuming.bind (books_updateLevel (fun old found finds => fun _ => ?_) trivial
    trivial)
  have enough : line.quantity ≤ old.reserved := finds old found
  refine keeping.post found rfl rfl rfl rfl ?_ rfl fun id named => Option.some.inj named ▸ member
  simp only [LedgerEntry.apply, StockLevel.counters, LevelUpdate.change, Counters.mk.injEq,
    true_and]
  omega

theorem books_commitLine (member : reservationID ∈ ids) (keeping : Keeping start db ids) :
    Books (commitLine mint reservationID orderID line) db fun _ after =>
      Keeping start after ids := by
  refine Program.Assuming.bind (books_updateLevel (fun old found _ => fun _ _ => ?_) trivial
    trivial)
  refine Keeping.put_outbox ?_ _
  refine keeping.post found rfl rfl rfl rfl ?_ rfl fun id named => Option.some.inj named ▸ member
  simp only [LedgerEntry.apply, StockLevel.counters, LevelUpdate.change, Counters.mk.injEq]
  omega

theorem books_takeLine (member : reservationID ∈ ids) (keeping : Keeping start db ids) :
    Books (takeLine reservationID orderID line) db fun _ after => Keeping start after ids := by
  refine books_updateLevel (fun old found _ => fun _ => ?_) (fun _ => keeping) trivial
  change Books (bind (orReject (admits _ ⟨reservationID, line⟩)) fun _ => _)
    (dialect.replay (if admits _ ⟨reservationID, line⟩ then [.item ⟨reservationID, line⟩]
      else []) _) _
  cases (Write.put (.stock line.sku (LevelUpdate.take.change line.quantity old)) db).admits
      ⟨reservationID, line⟩ with
  | false => trivial
  | true =>
    refine fun _ => ?_
    refine keeping.post found rfl rfl rfl rfl ?_ rfl fun id named => Option.some.inj named ▸ member
    simp only [LedgerEntry.apply, StockLevel.counters, LevelUpdate.change]

theorem books_takeLines (lines : List ReservationLine) (member : reservationID ∈ ids)
    (keeping : Keeping start db ids) :
    Books (takeLines reservationID orderID lines) db fun _ after => Keeping start after ids := by
  induction lines generalizing db with
  | nil => exact keeping
  | cons line lines ih =>
    refine Program.Assuming.bind ((books_takeLine orderID line member keeping).mono
      fun _ between keeping => Program.Assuming.bind ?_)
    exact ih keeping

theorem books_markReservation {state : ReservationState} (closes : state ≠ .reserved)
    (sound : state ≠ .failed) (id : ID) (reasonCode : String) (keeping : Keeping start db ids) :
    Books (markReservation id state reasonCode) db fun _ after => Keeping start after ids := by
  refine Program.Assuming.of_run fun _ after ran => ?_
  rw [run_markReservation closes] at ran
  cases found : db.reservation id with
  | none =>
    simp only [marked, found, Option.map_none, Option.elim_none, Prod.mk.injEq, true_and] at ran
    exact ran ▸ keeping
  | some row =>
    simp only [marked, found, Option.map_some, Option.elim_some, Prod.mk.injEq, true_and] at ran
    subst ran
    exact keeping.put_reservation sound

theorem books_returnStock (member : id ∈ ids) (keeping : Keeping start db ids) :
    Books (returnStock id orderID) db fun _ after => Keeping start after ids := fun _ =>
  Program.Assuming.forEach (fun line _ _ keeping => books_returnLine orderID line member keeping)
    keeping

theorem books_expire (member : row.id ∈ ids) (keeping : Keeping start db ids) :
    Books (expire mint row) db fun _ after => Keeping start after ids := by
  refine Program.Assuming.bind ((books_returnStock row.orderID member keeping).mono
    fun _ _ keeping => ?_)
  refine Program.Assuming.bind ((books_markReservation (by decide) (by decide) row.id
    "TTL_EXPIRED" keeping).mono fun _ _ keeping => fun _ => ?_)
  exact keeping.put_outbox _

theorem books_expireAll {rows : List Reservation} (live : ∀ row ∈ rows, db.Live row.id)
    (booked : Booked start db) :
    Books (forEach (expire mint) rows) db fun _ after => Booked start after := by
  have keeping : Keeping start db (rows.map Reservation.id) := by
    refine ⟨booked, fun id member => ?_⟩
    obtain ⟨row, there, rfl⟩ := mem_map.mp member
    exact live row there
  have swept : Books (forEach (expire mint) rows) db fun _ after =>
      Keeping start after (rows.map Reservation.id) :=
    Program.Assuming.forEach (fun row there _ keeping =>
      books_expire mint (mem_map_of_mem there) keeping) keeping
  exact swept.mono fun _ _ keeping => keeping.booked

theorem books_insertReservation {post : Database → Prop}
    (inserts : db.inserting row = .inserted → post (Write.put (.reservation row) db)) :
    Books (insertReservation row) db fun _ => post := by
  refine Program.Assuming.of_run fun _ after ran => ?_
  obtain ⟨free, rfl⟩ := insertReservation_ok ran
  exact inserts free

theorem books_hold (reservationID orderID : ID) (lines : List ReservationLine) (ttl : Nat)
    (booked : Booked start db) :
    Books (hold mint now reservationID orderID lines ttl) db fun _ after =>
      Booked start after := by
  refine Program.Assuming.bind (books_insertReservation fun free => ?_)
  have keeping : Keeping start (Write.put (.reservation
      { id := reservationID, orderID := orderID, state := .reserved,
        expiresAt := some (now + ttl) }) db) [reservationID] := by
    refine ⟨booked.put_reservation (.inl (by simp)), fun id member => ?_⟩
    obtain rfl := mem_singleton.mp member
    exact ⟨_, (reservation_put db _ id).trans (if_pos rfl), by simp⟩
  refine Program.Assuming.bind ((books_takeLines orderID lines (mem_singleton_self _)
    keeping).mono fun unavailable after keeping => ?_)
  cases unavailable with
  | nil => exact fun _ => keeping.booked.put_outbox _
  | cons sku skus => trivial

theorem books_holdUnlessOrdered (reservationID orderID : ID) (lines : List ReservationLine)
    (ttl : Nat) (booked : Booked start db) :
    Books (holdUnlessOrdered mint now reservationID orderID lines ttl) db fun _ after =>
      Booked start after := by
  have held := books_hold mint now reservationID orderID lines ttl booked
  intro _
  generalize dialect.answer (.reservationForOrder orderID) db = answer
  cases answer with
  | none => exact held
  | some other =>
    change Books (if other ≠ reservationID then _ else _) db _
    split
    · exact booked
    · exact held

theorem books_load {f : Option Reservation → Tx α} {post : α → Database → Prop}
    (books : ∀ answer, db.reservation id = answer → Books (f answer) db post) :
    Books (loadReservationForUpdate id >>= f) db post := fun _ => books _ rfl

theorem books_reserve (reservationID orderID : ID) (items : List ReservationLine) (ttl : Nat)
    (booked : Booked start db) :
    Books (reserve mint now reservationID orderID items ttl) db fun _ after =>
      Booked start after := by
  unfold reserve
  split
  · trivial
  · cases wanted items with
    | error err => trivial
    | ok lines =>
      refine books_load fun answer _ => ?_
      cases answer with
      | some existing => exact booked
      | none => exact books_holdUnlessOrdered mint now reservationID orderID lines ttl booked

theorem books_tombstone (reservationID orderID : ID) (reasonCode : String)
    (booked : Booked start db) :
    Books (tombstone mint reservationID orderID reasonCode) db fun _ after =>
      Booked start after := by
  refine Program.Assuming.bind (books_insertReservation fun free => fun _ => ?_)
  exact Booked.put_outbox (booked.put_reservation (.inl (by simp))) _

theorem Booked.keeping (booked : Booked start db) (found : db.reservation id = some row)
    (sound : row.state ≠ .failed) :
    Keeping start db [id] := by
  refine ⟨booked, fun other member => ?_⟩
  obtain rfl := mem_singleton.mp member
  exact ⟨row, found, sound⟩

theorem books_release (reservationID orderID : ID) (reasonCode : String)
    (booked : Booked start db) :
    Books (release mint reservationID orderID reasonCode) db fun _ after =>
      Booked start after := by
  refine books_load fun answer found => ?_
  rcases answer with _ | ⟨id, order, state, wasTombstone, reason, expiresAt⟩
  · exact books_tombstone mint reservationID orderID reasonCode booked
  · cases state with
    | committed => trivial
    | reserved =>
      refine Program.Assuming.bind ((books_returnStock orderID (mem_singleton_self _)
        (booked.keeping found (by simp))).mono fun _ _ keeping => ?_)
      refine Program.Assuming.bind ((books_markReservation (by decide) (by decide) reservationID
        reasonCode keeping).mono fun _ _ keeping => fun _ => ?_)
      exact keeping.booked.put_outbox _
    | released | failed => exact fun _ => booked.put_outbox _

theorem books_commit (reservationID orderID : ID) (booked : Booked start db) :
    Books (commit mint reservationID orderID) db fun _ after => Booked start after := by
  refine books_load fun answer found => ?_
  rcases answer with _ | ⟨id, order, state, wasTombstone, reason, expiresAt⟩
  · trivial
  · cases state with
    | committed => exact fun _ => booked.put_outbox _
    | reserved =>
      have deducts : Books (do
          let lines ← reservationItems reservationID
          forEach (commitLine mint reservationID orderID) lines) db fun _ after =>
            Keeping start after [reservationID] := fun _ =>
        Program.Assuming.forEach (fun line _ _ keeping =>
          books_commitLine mint orderID line (mem_singleton_self _) keeping)
            (booked.keeping found (by simp))
      change Books (reservationItems reservationID >>= fun lines =>
        forEach (commitLine mint reservationID orderID) lines >>= fun _ => _) db _
      rw [← bind_assoc]
      refine Program.Assuming.bind (deducts.mono fun _ _ keeping => ?_)
      refine Program.Assuming.bind ((books_markReservation (by decide) (by decide) reservationID
        "" keeping).mono fun _ _ keeping => fun _ => ?_)
      exact keeping.booked.put_outbox _
    | released => trivial
    | failed => trivial

theorem books_publishFailure (reservationID orderID : ID) (unavailable : List UnavailableSKU)
    (booked : Booked start db) :
    Books (publishFailure mint reservationID orderID unavailable) db fun _ after =>
      Booked start after := by
  refine Program.Assuming.of_run fun _ after ran => ?_
  obtain ⟨_, between, inserts, enqueues⟩ := run_bind_ok.mp ran
  cases enqueues
  rw [run_insertReservationIfAbsent] at inserts
  split at inserts
  · cases inserts
    exact booked.put_outbox _
  · obtain ⟨free, rfl⟩ := insertReservation_ok inserts
    exact Booked.put_outbox (booked.put_reservation (.inr (inserting_eq_inserted free).1)) _

theorem apply_adjustment {movement : String} {kind : Movement}
    (accepted : allowed movement = some kind)
    (counters : Counters) (entry : LedgerEntry) (named : entry.movement = kind) :
    LedgerEntry.apply counters entry =
      { counters with onHand := counters.onHand + entry.quantity } := by
  unfold allowed at accepted
  split at accepted
  · cases accepted
    simp only [LedgerEntry.apply, named]
  · cases accepted
    simp only [LedgerEntry.apply, named]
  · cases accepted
    simp only [LedgerEntry.apply, named]
  · cases accepted
    simp only [LedgerEntry.apply, named]
  · cases accepted

theorem books_adjust {mint : Mint} {delta : Int} {movement note actor : String} {tx : Tx Level}
    (accepted : adjustRequest mint sku delta movement note actor = .ok tx)
    (booked : Booked start db) : Books tx db fun _ after => Booked start after := by
  unfold adjustRequest at accepted
  split at accepted
  · cases accepted
  · rename_i kind named
    split at accepted
    · cases accepted
    · cases accepted
      refine books_updateLevel (fun old found _ => fun _ _ => ?_) trivial trivial
      refine Booked.put_outbox ?_ _
      exact booked.post found rfl rfl rfl rfl (apply_adjustment named _ _ rfl) rfl fun _ => nofun

theorem books_setStatus (sku : ID) (status : StockStatus) (booked : Booked start db) :
    Books (setStatus sku status) db fun _ after => Booked start after := by
  refine books_updateLevel (fun old found _ => ?_) booked trivial
  refine booked.congr (fun other => ?_) rfl fun _ live => live
  change (Function.update db.stock sku _ other).map StockLevel.counters = _
  by_cases same : other = sku
  · rw [same, Function.update_self, found]
    rfl
  · rw [Function.update_of_ne same]

theorem books_expireRows {rows : List Reservation} (live : ∀ row ∈ rows, row.state = .reserved)
    (booked : Booked start db) :
    Books (expireRows mint rows) db fun _ after => Booked start after := by
  have relocked : Books (forEach relock rows) db fun _ after =>
      after = db ∧ ∀ row ∈ rows, db.reservation row.id = some row :=
    Program.Assuming.of_run fun _ after ran => Program.Ensures.of_run (ends_relocks rows) ran
  refine Program.Assuming.bind (relocked.mono ?_)
  rintro _ after ⟨rfl, found⟩
  exact books_expireAll mint (fun row member =>
    ⟨row, found row member, by simp [live row member]⟩) booked

theorem books_sweepExpired (batch : Nat) (now : Time) (locked : List ID) (valid : db.Valid)
    (booked : Booked start db) :
    Books (sweepExpired mint batch now locked) db fun _ after => Booked start after := by
  intro _
  refine books_expireAll mint (fun row member => ?_) booked
  obtain ⟨there, open'⟩ := mem_claimed member
  exact ⟨row, Table.find_of_mem valid there, by simp [open']⟩

theorem Books.void {p : Tx α} {holds : Database → Prop} (books : Books p db fun _ => holds) :
    Books p.void db fun _ => holds :=
  Program.Assuming.bind (books.mono fun _ _ now => now)

theorem books_residual {p : Tx Unit} (offered : Residual p) (valid : db.Valid)
    (booked : Booked start db) : Books p db fun _ after => Booked start after := by
  cases offered with
  | transaction transaction =>
    cases transaction with
    | reserve mint now reservationID orderID items ttl =>
      exact (books_reserve mint now reservationID orderID items ttl booked).void
    | publishFailure mint reservationID orderID unavailable =>
      exact books_publishFailure mint reservationID orderID unavailable booked
    | release mint reservationID orderID reasonCode =>
      exact (books_release mint reservationID orderID reasonCode booked).void
    | commit mint reservationID orderID => exact books_commit mint reservationID orderID booked
    | sweepExpired mint batch now locked =>
      exact books_sweepExpired mint batch now locked valid booked
    | adjust mint sku delta movement note actor accepted =>
      exact (books_adjust accepted booked).void
    | setStatus sku status => exact books_setStatus sku status booked
  | stop => exact booked
  | holdUnlessOrdered mint now reservationID orderID lines ttl =>
    exact (books_holdUnlessOrdered mint now reservationID orderID lines ttl booked).void
  | hold mint now reservationID orderID lines ttl =>
    exact (books_hold mint now reservationID orderID lines ttl booked).void
  | tombstone mint reservationID orderID reasonCode =>
    exact (books_tombstone mint reservationID orderID reasonCode booked).void
  | enqueue record => exact fun _ => booked.put_outbox record
  | refused e => trivial
  | expireRows mint rows distinct live => exact books_expireRows mint live booked

theorem serial_booked (valid : start.Valid) (balanced : Balanced start fun _ => 0)
    (fresh : start.ledger = [])
    (reached : (serial (D := dialect) start Residual).Reachable db) : Booked start db := by
  refine (reached.invariant (I := fun db => (db.Valid ∧ Balanced db fun _ => 0) ∧
    Booked start db) ?_ ?_).2
  · rintro _ rfl
    refine ⟨⟨valid, balanced⟩, fun sku => ?_, fun sku first _ front entry part => ?_,
      fun sku _ => ?_, fun entry member => ?_⟩
    · simp [ledgerOf, fresh, replayLedger]
    · simp [ledgerOf, fresh] at part
    · simp [ledgerOf, fresh]
    · rw [fresh] at member
      cases member
  · rintro db p _ ⟨⟨valid, balanced⟩, booked⟩ ⟨offered, rfl⟩
    have keep : ∀ (db : Database) w, db.Valid → (Write.put w db).Valid := fun _ w valid =>
      valid_put valid w
    have ends := (ends_residual offered valid balanced).assuming
        (books_residual offered valid booked)
    obtain ⟨balanced, booked⟩ := ends.inTx ⟨balanced, booked⟩
    exact ⟨⟨inTx_keeps keep p valid, balanced⟩, booked⟩

/-- **The ledger replays to the stock table.** In every committed state the rows of
a SKU, folded from its initial level, give its level, and the after-values of each
row are those of the fold up to it. A reservation that is not there, or has failed,
is named by no row. -/
theorem ledger_replays {ι : Type} [DecidableEq ι] {c : Config dialect ι Err Unit}
    (valid : start.Valid) (balanced : Balanced start fun _ => 0) (fresh : start.ledger = [])
    (reached : (Config.concurrent start Transaction).Reachable c) :
    (∀ sku first, start.stock sku = some first → (∃ row, c.db.stock sku = some row ∧
        replayLedger first.counters (c.db.ledgerOf sku) = row.counters) ∧
      ∀ front entry, front ++ [entry] <+: c.db.ledgerOf sku →
        entry.after = replayLedger first.counters (front ++ [entry])) ∧
    (∀ sku, start.stock sku = none → c.db.stock sku = none ∧ c.db.ledgerOf sku = []) ∧
    ∀ id, (∀ row, c.db.reservation id = some row → row.state = .failed) →
      ∀ entry ∈ c.db.ledger, entry.reservationID ≠ some id := by
  have booked := serial_booked valid balanced fresh (concurrent_serial valid reached).serial
  refine ⟨fun sku first initial => ⟨?_, booked.after sku first initial⟩, fun sku missing =>
    ⟨?_, booked.absent sku missing⟩, fun id failed entry member named => ?_⟩
  · have level := booked.level sku
    rw [initial] at level
    obtain ⟨row, found, same⟩ := Option.map_eq_some_iff.mp level
    exact ⟨row, found, same.symm⟩
  · have level := booked.level sku
    rw [missing] at level
    exact Option.map_eq_none_iff.mp level
  · obtain ⟨row, found, sound⟩ := booked.named entry member id named
    exact sound (failed row found)

theorem ledger_replays_reserving :
    ((reserve (mintFrom 100) 0 10 20 [⟨1, 1⟩] 5).void.inTx stocked).ledger.length = 1 ∧
      ∃ row, ((reserve (mintFrom 100) 0 10 20 [⟨1, 1⟩] 5).void.inTx stocked).stock 1 = some row ∧
        replayLedger ⟨2, 0⟩
          (((reserve (mintFrom 100) 0 10 20 [⟨1, 1⟩] 5).void.inTx stocked).ledgerOf 1) =
            row.counters := by
  refine ⟨by decide, ?_⟩
  have reached : (Config.concurrent stocked Transaction).Reachable
      (Config.idle _ : Config dialect Unit Err Unit) :=
    Config.reachable_inTx () (Transaction.reserve (mintFrom 100) 0 10 20 [⟨1, 1⟩] 5) (.init rfl)
  exact ((ledger_replays stocked_opening.valid stocked_opening.balanced rfl reached).1 1
    { onHand := 2, reserved := 0 } rfl).1

end Souq.Inventory
