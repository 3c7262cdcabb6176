import Souq.Inventory.Conservation

/-!
# What a failure reply says

`Reserve` decides that stock falls short in a transaction that is rolled back, and
announces it in a second one, which inserts a `FAILED` row unless the reservation has a
row by then and enqueues the event either way. Calls of the engine run at any number of
places at once, and a place can stop at any moment. A reservation that was announced to
have failed should not be held, then or later.
-/

namespace Souq.Inventory

open Transact Transition List Config Database Option Program.Only Function Stmt

/-- A call of the engine. -/
inductive Call where
  | reserve (mint : Mint) (now : Time) (reservationID orderID : ID)
      (items : List ReservationLine) (ttl : Nat)
  | release (mint : Mint) (reservationID orderID : ID) (reasonCode : String)
  | commit (mint : Mint) (reservationID orderID : ID)
  | adjust (mint : Mint) (sku : ID) (delta : Int) (movement note actor : String)
  | setStatus (sku : ID) (status : StockStatus)
  | sweepExpired (mint : Mint) (batch : Nat) (now : Time) (locked : List ID)

namespace Call

/-- The transaction of a call. A refused adjustment starts none. -/
def program : Call → Tx Unit
  | .reserve mint now reservationID orderID items ttl =>
    (Inventory.reserve mint now reservationID orderID items ttl).void
  | .release mint reservationID orderID reasonCode =>
    (Inventory.release mint reservationID orderID reasonCode).void
  | .commit mint reservationID orderID => Inventory.commit mint reservationID orderID
  | .adjust mint sku delta movement note actor =>
    match adjustRequest mint sku delta movement note actor with
    | .ok tx => tx.void
    | .error _ => pure ()
  | .setStatus sku status => Inventory.setStatus sku status
  | .sweepExpired mint batch now locked => Inventory.sweepExpired mint batch now locked

/-- What a call does when its transaction failed: a reservation that fell short
announces it, in a transaction of its own. -/
def again : Call → Err → Option (Tx Unit)
  | .reserve mint _ reservationID orderID _ _, .insufficient unavailable =>
    some (publishFailure mint reservationID orderID unavailable)
  | _, _ => none

end Call

/-- The tables, the transactions in progress and the calls they belong to. -/
structure Desk (ι : Type) where
  config : Config dialect ι Err Unit
  calls : ι → Option Call

/-- A place takes up a call, takes its next step, or stops. -/
inductive Desk.Move (ι : Type) where
  | begins (i : ι) (call : Call)
  | act (i : ι)
  | abort (i : ι)

namespace Desk

variable {ι : Type} [Fintype ι] [DecidableEq ι]

/-- What the call at a place does when its transaction failed. -/
def again (d : Desk ι) (i : ι) (e : Err) : Option (Tx Unit) := (d.calls i).bind (·.again e)

/-- One move. A place that is busy takes up nothing. -/
def move (d : Desk ι) : Move ι → Desk ι
  | .begins i call =>
    match d.config.sessions i with
    | some _ => d
    | none =>
      { config := d.config.set i (some { program := call.program })
        calls := update d.calls i (some call) }
  | .act i => { d with config := d.config.advance d.again i }
  | .abort i => { d with config := d.config.set i none }

end Desk

def Database.desk (ι : Type) (db : Database) : Desk ι := ⟨idle db, fun _ => none⟩

/-- The engine at work, in any order of moves. -/
def serving (ι : Type) [Fintype ι] [DecidableEq ι] (start : Database) :
    System (Desk ι) (Desk.Move ι) :=
  .ofFunction (start.desk ι) Desk.move

def Event.failed : Event → Option ID
  | .reservationFailed _ reservationID _ _ => some reservationID
  | _ => none

namespace Database

/-- A reservation is `RESERVED` or `COMMITTED`. -/
def stands (db : Database) (id : ID) : Bool :=
  (db.reservation id).any fun row => row.state == .reserved || row.state == .committed

/-- The reservation was released or has failed. -/
def closed (db : Database) (id : ID) : Bool :=
  (db.reservation id).any fun row => row.state == .released || row.state == .failed

/-- A `souq.inventory.reservation_failed.v1` event of a reservation is in the outbox. -/
def Refused (db : Database) (id : ID) : Prop := ∃ record ∈ db.outbox, record.event.failed = some id

instance (db : Database) (id : ID) : Decidable (db.Refused id) :=
  inferInstanceAs (Decidable (∃ record ∈ db.outbox, record.event.failed = some id))

/-- Every reservation that was announced to have failed is closed. -/
def Sealed (db : Database) : Prop := ∀ id, db.Refused id → db.closed id = true

end Database

/-- A failure is about to be announced, and the reservation was made in the meantime. -/
def Desk.overtaken {ι : Type} (d : Desk ι) : Desk.Move ι → Bool
  | .act i =>
    match d.config.sessions i with
    | some ⟨.call (.insertReservationIfAbsent row) _, writes, _⟩ =>
      (dialect.replay writes d.config.db).stands row.id
    | _ => false
  | _ => false

variable {db after : Database} {id : ID}

theorem not_stands_of_closed (closed : db.closed id = true) : db.stands id = false := by
  unfold Database.closed Database.stands at *
  cases found : db.reservation id with
  | none => rfl
  | some row =>
    rw [found, any_some] at closed
    cases state : row.state with
    | reserved => simp [state] at closed
    | committed => simp [state] at closed
    | released => simp [state]
    | failed => simp [state]

theorem closed_of_not_stands {row : Reservation} (found : db.reservation id = some row)
    (falls : db.stands id = false) : db.closed id = true := by
  simp only [closed, stands, found, any_some] at *
  cases state : row.state <;> simp [state] at falls ⊢

theorem closed_put (db : Database) (row : Reservation) (id : ID) :
    (Write.put (.reservation row) db).closed id =
      if row.id = id then row.state == .released || row.state == .failed else db.closed id := by
  rw [closed, reservation_put]
  split
  · rfl
  · rfl

/-- Whether a statement leaves a reservation that is closed as it is. -/
def Stmt.Spares (id : ID) : Stmt → Prop
  | .markReservation other state _ => other ≠ id ∨ state = .released
  | _ => True

/-- The statements of a call that announces no failure and commits one reservation at
most. -/
def Stmt.Plain (committing : Option ID) : Stmt → Prop
  | .markReservation id state _ => state = .released ∨ committing = some id
  | .enqueue record => record.event.failed = none
  | _ => True

theorem Stmt.Plain.spares {committing : Option ID} {q : Stmt} (plain : q.Plain committing)
    (other : committing ≠ some id) : q.Spares id := by
  cases q with
  | markReservation named state reasonCode =>
    refine plain.symm.imp_left fun same => ?_
    rintro rfl
    exact other same
  | _ => trivial

theorem closed_insert {row : Reservation} (closed : db.closed id = true) :
    (dialect.replay (if db.inserting row = .inserted then [.reservation row] else [])
    db).closed id = true := by
  split
  case isFalse => exact closed
  case isTrue free =>
    obtain ⟨absent, -⟩ := inserting_eq_inserted free
    change (Write.put (.reservation row) db).closed id = true
    rw [closed_put, if_neg]
    · exact closed
    · rintro rfl
      simp [Database.closed, absent] at closed

theorem closed_mark {other : ID} {state : ReservationState} {reasonCode : Option String}
    (spares : other ≠ id ∨ state = .released) (closed : db.closed id = true) :
    (dialect.replay (writes (.markReservation other state reasonCode) db) db).closed id = true := by
  simp only [writes, marked]
  cases found : db.reservation other with
  | none => exact closed
  | some row =>
    have named : row.id = other := Table.key_of_find found
    rw [map_some, filter_some]
    split
    · change (Write.put (.reservation _) db).closed id = true
      rw [closed_put]
      split
      case isFalse => exact closed
      case isTrue same =>
        have released : state = .released :=
          spares.resolve_left fun different => different (named.symm.trans same)
        rw [released]
        rfl
    · exact closed

theorem closed_stmt (db : Database) (q : Stmt) (spares : q.Spares id)
    (closed : db.closed id = true) :
    (dialect.replay (dialect.writes q db) db).closed id = true := by
  cases q with
  | insertReservation | insertReservationIfAbsent => exact closed_insert closed
  | markReservation other state reasonCode => exact closed_mark spares closed
  | claimEvent eventID =>
    change (dialect.replay (if db.processed.contains eventID then [] else _) db).closed id = true
    split <;> exact closed
  | insertReservationItem item =>
    change (dialect.replay (if db.admits item then [.item item] else []) db).closed id = true
    split <;> exact closed
  | updateLevel update sku quantity =>
    exact updateLevel_elim (P := fun _ after => after.closed id = true) (fun _ _ => closed)
      (fun _ => closed) fun _ => closed
  | enqueue | writeLedger | loadReservationForUpdate | reservationForOrder | reservationItems
  | availableFor | claimExpired => exact closed

theorem closed_run {p : Tx Unit} (only : p.Only (Stmt.Spares id)) (closed : db.closed id = true) :
    (p.run db).2.closed id = true :=
  only.run_leads (fun before after : Database => before.closed id = true → after.closed id = true)
    (fun _ held => held) (fun first second held => second (first held))
    (fun db q spares held => closed_stmt db q spares held) db closed

/-- What is written to the outbox announces the failure of a reservation, or of none. -/
def Write.Says (failed : Option ID) : Write → Prop
  | .outbox record => record.event.failed = failed
  | _ => True

theorem plain_optional {taken : Prop} [Decidable taken] {w : Write} (silent : w.Says none) :
    ∀ other ∈ (if taken then [w] else []), other.Says none := by
  split
  · exact forall_mem_singleton.mpr silent
  · exact fun _ => nofun

theorem plain_writes {committing : Option ID} {q : Stmt} (plain : q.Plain committing)
    (db : Database) : ∀ w ∈ q.writes db, w.Says none := by
  cases q with
  | enqueue record => exact forall_mem_singleton.mpr plain
  | insertReservation | insertReservationIfAbsent | insertReservationItem =>
    exact plain_optional trivial
  | markReservation id state reasonCode =>
    intro w member
    obtain ⟨row, -, rfl⟩ := map_eq_some_iff.mp (mem_toList.mp member)
    trivial
  | updateLevel update sku quantity =>
    intro w member
    simp only [writes] at member
    split at member
    · obtain rfl := mem_singleton.mp member
      trivial
    · cases member
  | claimEvent eventID =>
    change ∀ w ∈ (if db.processed.contains eventID then [] else [.processed eventID]),
      Write.Says none w
    split
    · exact forall_mem_nil _
    · exact forall_mem_singleton.mpr trivial
  | writeLedger entry => exact forall_mem_singleton.mpr trivial
  | loadReservationForUpdate | reservationForOrder | reservationItems | availableFor
  | claimExpired => exact forall_mem_nil _

section Calls

variable {good : Stmt → Prop}

theorem only_orReject (taken : Bool) : (orReject taken).Only (D := dialect) good := by
  cases taken <;> trivial

variable {committing : Option ID}

theorem plain_moveLine (update : LevelUpdate) (line : ReservationLine) :
    (moveLine update line).Only (Stmt.Plain committing) := by
  refine ⟨trivial, fun answer => ?_⟩
  cases answer <;> trivial

variable (mint : Mint) (reservationID orderID : ID)

theorem plain_reserving : SendsReserve mint (Stmt.Plain committing) where
  update _ _ := trivial
  available _ := trivial
  item _ := trivial
  ledger _ := trivial
  load _ := trivial
  ordered _ := trivial
  insert _ _ := trivial
  announce _ _ _ _ := rfl

theorem plain_returnStock :
    (returnStock reservationID orderID).Only (Stmt.Plain committing) := by
  refine ⟨trivial, forEach fun line => ?_⟩
  exact (plain_moveLine .giveBack line).bind fun _ => ⟨trivial, fun _ => trivial⟩

theorem plain_tombstone (reasonCode : String) :
    (tombstone mint reservationID orderID reasonCode).Only (Stmt.Plain committing) :=
  bind ⟨trivial, only_orFail⟩ fun _ => ⟨rfl, fun _ => trivial⟩

theorem plain_release (reasonCode : String) :
    (release mint reservationID orderID reasonCode).Only (Stmt.Plain committing) := by
  refine ⟨trivial, fun answer => ?_⟩
  cases answer with
  | none => exact plain_tombstone ..
  | some existing =>
    obtain ⟨id, order, state, wasTombstone, reason, expiresAt⟩ := existing
    cases state with
    | committed => trivial
    | reserved =>
      refine (plain_returnStock ..).bind fun _ => ?_
      exact bind ⟨.inl rfl, only_orReject⟩ fun _ => ⟨rfl, fun _ => trivial⟩
    | released | failed => exact ⟨rfl, fun _ => trivial⟩

theorem plain_commit :
    (commit mint reservationID orderID).Only (Stmt.Plain (some reservationID)) := by
  refine ⟨trivial, fun answer => ?_⟩
  cases answer with
  | none => trivial
  | some existing =>
    obtain ⟨id, order, state, wasTombstone, reason, expiresAt⟩ := existing
    cases state with
    | committed => exact ⟨rfl, fun _ => trivial⟩
    | reserved =>
      refine ⟨trivial, fun lines => ?_⟩
      refine (forEach (fun line => ?_) lines).bind fun _ =>
        bind ⟨.inr rfl, only_orReject⟩ fun _ => ⟨rfl, fun _ => trivial⟩
      exact (plain_moveLine .commit line).bind fun _ =>
        ⟨trivial, fun _ => ⟨rfl, fun _ => trivial⟩⟩
    | released => trivial
    | failed => trivial

theorem plain_expire (row : Reservation) :
    (expire mint row).Only (Stmt.Plain committing) :=
  (plain_returnStock row.id row.orderID).bind fun _ =>
    bind ⟨.inl rfl, only_orReject⟩ fun _ => ⟨rfl, fun _ => trivial⟩

theorem plain_sweepExpired (batch : Nat) (now : Time) (locked : List ID) :
    (sweepExpired mint batch now locked).Only (Stmt.Plain committing) :=
  ⟨trivial, forEach (plain_expire mint)⟩

theorem plain_setStatus (sku : ID) (status : StockStatus) :
    (setStatus sku status).Only (Stmt.Plain committing) := by
  refine ⟨trivial, fun answer => ?_⟩
  cases answer <;> trivial

theorem plain_adjust {mint : Mint} {sku : ID} {delta : Int} {movement note actor : String}
    {tx : Tx Level} (accepted : adjustRequest mint sku delta movement note actor = .ok tx) :
    tx.Only (Stmt.Plain committing) := by
  unfold adjustRequest at accepted
  split at accepted
  · cases accepted
  · split at accepted
    · cases accepted
    · cases accepted
      refine ⟨trivial, fun answer => ?_⟩
      cases answer with
      | level row => exact ⟨trivial, fun _ => ⟨rfl, fun _ => trivial⟩⟩
      | noRow => trivial
      | rejected => trivial

theorem plain_relock (row : Reservation) : (relock row).Only (Stmt.Plain committing) := by
  refine ⟨trivial, fun answer => ?_⟩
  cases answer with
  | none => trivial
  | some found =>
    change Program.Only (D := dialect) _ (if found = row then pure () else .fail Err.rejected)
    split <;> trivial

theorem plain_expireRows (rows : List Reservation) :
    (expireRows mint rows).Only (Stmt.Plain committing) :=
  (forEach plain_relock rows).bind fun _ =>
    forEach (plain_expire mint) rows

end Calls

namespace Call

theorem plain (call : Call) : ∃ committing, call.program.Only (Stmt.Plain committing) := by
  cases call with
  | reserve mint now reservationID orderID items ttl =>
    exact ⟨none, ((plain_reserving _).reserve ..).bind fun _ => trivial⟩
  | release mint reservationID orderID reasonCode =>
    exact ⟨none, (plain_release ..).bind fun _ => trivial⟩
  | commit mint reservationID orderID => exact ⟨some reservationID, plain_commit ..⟩
  | adjust mint sku delta movement note actor =>
    refine ⟨none, ?_⟩
    simp only [program]
    cases accepted : adjustRequest mint sku delta movement note actor with
    | ok tx => exact (plain_adjust accepted).bind fun _ => trivial
    | error refusal => trivial
  | setStatus sku status => exact ⟨none, plain_setStatus ..⟩
  | sweepExpired mint batch now locked => exact ⟨none, plain_sweepExpired ..⟩

theorem residual (call : Call) : Residual call.program := by
  cases call with
  | reserve mint now reservationID orderID items ttl => exact .transaction (.reserve ..)
  | release mint reservationID orderID reasonCode => exact .transaction (.release ..)
  | commit mint reservationID orderID => exact .transaction (.commit ..)
  | adjust mint sku delta movement note actor =>
    simp only [program]
    cases accepted : adjustRequest mint sku delta movement note actor with
    | ok tx => exact .transaction (.adjust _ _ _ _ _ _ accepted)
    | error refusal => exact .stop
  | setStatus sku status => exact .transaction (.setStatus ..)
  | sweepExpired mint batch now locked => exact .transaction (.sweepExpired ..)

end Call

theorem commit_of_closed {mint : Mint} {orderID : ID} (closed : db.closed id = true) :
    (commit mint id orderID).run db ≠ (.ok (), after) := by
  intro ran
  unfold Database.closed at closed
  simp only [commit, Program.run_bind, run_loadReservationForUpdate] at ran
  cases found : db.reservation id with
  | none =>
    rw [found] at closed
    cases closed
  | some row =>
    rw [found, any_some] at closed
    cases state : row.state <;> simp [state, found] at closed ran

/-- Whatever commits, a reservation that is closed stays closed. -/
theorem closed_residual {p : Tx Unit} (offered : Residual p)
    (ran : p.run db = (.ok (), after)) (closed : db.closed id = true) :
    after.closed id = true := by
  have kept : p.Only (Stmt.Spares id) → after.closed id = true := fun only => by
    have ends := closed_run only closed
    rwa [ran] at ends
  have spares : ∀ {α : Type} {q : Tx α}, q.Only (Stmt.Plain none) → q.Only (Stmt.Spares id) :=
    fun only => only.mono fun _ plain => plain.spares nofun
  cases offered with
  | transaction transaction =>
    cases transaction with
    | reserve mint now reservationID orderID items ttl =>
      exact kept ((spares ((plain_reserving _).reserve ..)).bind fun _ => trivial)
    | publishFailure mint reservationID orderID unavailable =>
      exact kept (bind ⟨trivial, only_orFail⟩ fun _ => ⟨trivial, fun _ => trivial⟩)
    | release mint reservationID orderID reasonCode =>
      exact kept ((spares (plain_release ..)).bind fun _ => trivial)
    | commit mint reservationID orderID =>
      by_cases own : reservationID = id
      · subst own
        exact (commit_of_closed closed ran).elim
      · refine kept ((plain_commit ..).mono fun _ plain => plain.spares fun same => ?_)
        exact own (some.inj same)
    | sweepExpired mint batch now locked => exact kept (spares (plain_sweepExpired ..))
    | adjust mint sku delta movement note actor accepted =>
      exact kept ((spares (plain_adjust accepted)).bind fun _ => trivial)
    | setStatus sku status => exact kept (spares (plain_setStatus ..))
  | stop => exact kept trivial
  | holdUnlessOrdered mint now reservationID orderID lines ttl =>
    exact kept ((spares ((plain_reserving _).holdUnlessOrdered ..)).bind fun _ => trivial)
  | hold mint now reservationID orderID lines ttl =>
    exact kept ((spares ((plain_reserving _).hold ..)).bind fun _ => trivial)
  | tombstone mint reservationID orderID reasonCode =>
    exact kept ((spares (plain_tombstone ..)).bind fun _ => trivial)
  | enqueue record => exact kept ⟨trivial, fun _ => trivial⟩
  | refused e => cases ran
  | expireRows mint rows distinct live => exact kept (spares (plain_expireRows mint rows))

theorem mem_outbox_replay {record : OutboxRecord} {writes : List Write}
    (member : record ∈ (dialect.replay writes db).outbox) :
    record ∈ db.outbox ∨ .outbox record ∈ writes := by
  induction writes generalizing db with
  | nil => exact .inl member
  | cons w writes ih =>
    rcases ih member with earlier | later
    · cases w with
      | outbox other =>
        change record ∈ Table.insertNew OutboxRecord.eventID db.outbox other at earlier
        rcases Table.insertNew_cases OutboxRecord.eventID db.outbox other with same | more
        · exact .inl (same ▸ earlier)
        · rw [more] at earlier
          rcases mem_append.mp earlier with old | new
          · exact .inl old
          · obtain rfl := mem_singleton.mp new
            exact .inr mem_cons_self
      | _ => exact .inl earlier
    · exact .inr (mem_cons_of_mem _ later)

/-- A statement that announces the failure of a reservation. -/
def Stmt.Tells (id : ID) : Stmt → Prop
  | .enqueue record => record.event.failed = some id
  | _ => False

/-- A reservation is closed already, or the transaction closes it, whatever others do. -/
def Closes (db : Database) (writes : List Write) (id : ID) : Prop :=
  db.closed id = true ∨ ∀ db', (dialect.replay writes db').closed id = true

/-- What a transaction in progress has said, and can still say. -/
inductive Saying (db : Database) (s : Session dialect Err Unit) : Prop where
  | nothing {committing : Option ID} (only : s.program.Only (Stmt.Plain committing))
      (writes : ∀ w ∈ s.writes, w.Says none)
  | before (mint : Mint) (reservationID orderID : ID) (unavailable : List UnavailableSKU)
      (program : s.program = publishFailure mint reservationID orderID unavailable)
      (writes : s.writes = [])
  | failure (id : ID) (only : s.program.Only (Stmt.Tells id))
      (writes : ∀ w ∈ s.writes, w.Says (some id)) (closes : Closes db s.writes id)

def failedRow (reservationID orderID : ID) : Reservation where
  id := reservationID
  orderID := orderID
  state := .failed
  reasonCode := some "INSUFFICIENT_STOCK"

theorem publishFailure_begins (mint : Mint) (reservationID orderID : ID)
    (unavailable : List UnavailableSKU) :
    publishFailure mint reservationID orderID unavailable =
      .call (.insertReservationIfAbsent (failedRow reservationID orderID)) fun answer =>
        orFail answer >>= fun _ => enqueue ⟨mint.eventID,
          .reservationFailed orderID reservationID "INSUFFICIENT_STOCK" unavailable⟩ := rfl

namespace Saying

variable {s : Session dialect Err Unit}

theorem of_fail (e : Err) (held : List Key) : Saying db ⟨.fail e, [], held⟩ :=
  @nothing _ _ none trivial fun _ => nofun

theorem announce {reservationID orderID : ID} (record : OutboxRecord)
    (named : record.event.failed = some reservationID)
    (falls : db.stands reservationID = false) (held : List Key) :
    Saying db ⟨orFail
    (answer (.insertReservationIfAbsent (failedRow reservationID orderID)) db)
      >>= fun _ => enqueue record,
      writes (.insertReservationIfAbsent (failedRow reservationID orderID)) db, held⟩ := by
  have tells : (enqueue record).Only (Stmt.Tells reservationID) := ⟨named, fun _ => trivial⟩
  by_cases present : (db.reservation reservationID).isSome = true
  · obtain ⟨row, found⟩ := isSome_iff_exists.mp present
    have taken : (db.reservation (failedRow reservationID orderID).id).isSome = true := present
    have refused : db.inserting (failedRow reservationID orderID) = .duplicate := by
      simp [inserting, taken]
    simp only [answer, writes, taken, refused, ↓reduceIte, reduceCtorEq]
    exact .failure reservationID tells (by simp) (.inl (closed_of_not_stands found falls))
  · have absent : ¬ (db.reservation (failedRow reservationID orderID).id).isSome = true := present
    simp only [answer, writes, absent, Bool.false_eq_true, ↓reduceIte]
    cases inserting : db.inserting (failedRow reservationID orderID) with
    | inserted =>
      refine .failure reservationID tells (forall_mem_singleton.mpr trivial) (.inr ?_)
      intro db'
      exact (closed_put db' (failedRow reservationID orderID) reservationID).trans (if_pos rfl)
    | duplicate => exact of_fail .duplicateKey held
    | rejected => exact of_fail .rejected held

theorem exec {q : Stmt} {rest : q.Answer → Tx Unit} (saying : Saying db s)
    (calls : s.program = .call q rest)
    (ahead : ∀ row, q = .insertReservationIfAbsent row →
      (dialect.replay s.writes db).stands row.id = false) : Saying db (s.exec db q rest) := by
  cases saying with
  | nothing only writes =>
    rw [calls] at only
    refine .nothing (only.2 _) fun w member => ?_
    rcases mem_append.mp member with old | new
    · exact writes w old
    · exact plain_writes only.1 _ w new
  | before mint reservationID orderID unavailable program writes =>
    obtain ⟨program', writes', held⟩ := s
    subst writes
    cases calls.symm.trans (program.trans (publishFailure_begins ..))
    exact announce _ rfl (ahead _ rfl) _
  | failure id only writes closes =>
    rw [calls] at only
    cases q with
    | enqueue record =>
      refine .failure id (only.2 _) (fun w member => ?_) (closes.imp_right fun always db' => ?_)
      · rcases mem_append.mp member with old | new
        · exact writes w old
        · obtain rfl := mem_singleton.mp new
          exact only.1
      · have later := always db'
        change (dialect.replay (s.writes ++ [.outbox record]) db').closed id = true
        rwa [Dialect.replay_append]
    | _ => exact only.1.elim

theorem skip {q : Stmt} {rest : q.Answer → Tx Unit} {answer : q.Answer} (saying : Saying db s)
    (calls : s.program = .call q rest) (skips : q.skip = some answer) :
    Saying db { s with program := rest answer } := by
  cases saying with
  | nothing only writes =>
    rw [calls] at only
    exact .nothing (only.2 _) writes
  | before mint reservationID orderID unavailable program writes =>
    cases calls.symm.trans (program.trans (publishFailure_begins ..))
    cases skips
  | failure id only writes closes =>
    rw [calls] at only
    cases q with
    | enqueue record => cases skips
    | _ => exact only.1.elim

theorem stable {db' : Database} (saying : Saying db s)
    (kept : ∀ id, db.closed id = true → db'.closed id = true) : Saying db' s := by
  cases saying with
  | nothing only writes => exact .nothing only writes
  | before mint reservationID orderID unavailable program writes =>
    exact .before mint reservationID orderID unavailable program writes
  | failure id only writes closes => exact .failure id only writes (closes.imp_left (kept id))

theorem commit (saying : Saying db s) (finished : s.program = .done ())
    (sealed : db.Sealed) (kept : ∀ id, db.closed id = true → (s.view db).closed id = true) :
    (s.view db).Sealed := by
  rintro id ⟨record, member, failed⟩
  rcases mem_outbox_replay member with old | new
  · exact kept id (sealed id ⟨record, old, failed⟩)
  · cases saying with
    | nothing only writes =>
      have none : record.event.failed = none := writes _ new
      cases none.symm.trans failed
    | before mint reservationID orderID unavailable program writes =>
      cases finished.symm.trans (program.trans (publishFailure_begins ..))
    | failure other only writes closes =>
      have some : record.event.failed = some other := writes _ new
      cases some.symm.trans failed
      exact closes.elim (kept id) fun always => always db

end Saying

section Runs

variable {ι : Type} [DecidableEq ι] {start : Database}

/-- **A closed reservation stays closed.** However calls of the engine interleave, stock that
was given back, or never held, is not held again under the same id, nor committed. -/
theorem closed_for_good (valid : start.Valid) {c c' : Config dialect ι Err Unit}
    (reached : (concurrent start Transaction).Reachable c)
    (later : (concurrent start Transaction).Leads c c') (closed : c.db.closed id = true) :
    c'.db.closed id = true := by
  refine reached.persists (Q := fun c => c.db.closed id = true) ?_ closed later
  intro c i c' reached closed taken
  cases taken with
  | commit active finished =>
    have tracks := (concurrent_serial valid reached).tracks i _ active
    obtain ⟨same | ⟨p, offers, ran⟩, -⟩ := discipline.commit tracks finished
    · rwa [same]
    · exact closed_residual offers ran closed
  | start | exec | skip | abort => exact closed

/-- The invariant of the desk. -/
structure Desk.Good (start : Database) (d : Desk ι) : Prop where
  reached : (concurrent start Residual).Reachable d.config
  sealed : d.config.db.Sealed
  saying : ∀ i s, d.config.sessions i = some s → Saying d.config.db s

namespace Desk.Good

variable {d : Desk ι}

omit [DecidableEq ι] in
theorem residual_again {i : ι} {e : Err} {p : Tx Unit}
    (retries : d.again i e = some p) :
    ∃ mint reservationID orderID unavailable,
      p = publishFailure mint reservationID orderID unavailable := by
  obtain ⟨call, -, again⟩ := bind_eq_some_iff.mp retries
  unfold Call.again at again
  split at again
  · exact ⟨_, _, _, _, (some.inj again).symm⟩
  · cases again

theorem set {session : Option (Session dialect Err Unit)} (good : d.Good start) (i : ι)
    (calls : ι → Option Call)
    (reached : (concurrent start Residual).Reachable (d.config.set i session))
    (saying : ∀ s, session = some s → Saying d.config.db s) :
    (Desk.mk (d.config.set i session) calls).Good start := by
  refine ⟨reached, good.sealed, fun j s found => ?_⟩
  simp only [Config.set, update_apply] at found
  split at found
  · exact saying s found
  · exact good.saying j s found

theorem commit_keeps (valid : start.Valid) (good : d.Good start) {i : ι}
    {s : Session dialect Err Unit} (active : d.config.sessions i = some s)
    (finished : s.program = .done ()) :
    ∀ id, d.config.db.closed id = true → (s.view d.config.db).closed id = true := by
  intro id closed
  have serial := discipline.serial valid good.reached
  obtain ⟨same | ⟨p, offers, ran⟩, -⟩ := discipline.commit (serial.tracks i s active) finished
  · rwa [same]
  · exact closed_residual offers ran closed

variable [Fintype ι]

theorem act (valid : start.Valid) (good : d.Good start) (i : ι)
    (ahead : d.overtaken (.act i) = false) :
    (d.move (.act i)).Good start ∧
      ∀ id, d.config.db.closed id = true → (d.move (.act i)).config.db.closed id = true := by
  have reached : (concurrent start Residual).Reachable (d.config.advance d.again i) :=
    good.reached.leads (leads_advance (fun j e p retries => by
      obtain ⟨mint, reservationID, orderID, unavailable, rfl⟩ := residual_again retries
      exact .transaction (.publishFailure ..)) d.config i)
  have advances : Config.Advances d.again d.config i (d.config.advance d.again i) :=
    d.config.advances i
  change (Desk.mk (d.config.advance d.again i) d.calls).Good start ∧
    ∀ id, _ → (d.config.advance d.again i).db.closed id = true
  generalize d.config.advance d.again i = config at advances reached
  cases advances with
  | stays => exact ⟨⟨reached, good.sealed, good.saying⟩, fun _ closed => closed⟩
  | @commit s a active finished =>
    have kept := good.commit_keeps valid active finished
    refine ⟨⟨reached, (good.saying i s active).commit finished good.sealed kept, ?_⟩, kept⟩
    intro j other found
    simp only [update_apply] at found
    split at found
    · cases found
    · exact (good.saying j other found).stable kept
  | @retry s e active failed =>
    refine ⟨good.set i d.calls reached ?_, fun _ closed => closed⟩
    rintro _ retried
    obtain ⟨p, retries, rfl⟩ := map_eq_some_iff.mp retried
    obtain ⟨mint, reservationID, orderID, unavailable, rfl⟩ := residual_again retries
    exact .before mint reservationID orderID unavailable rfl rfl
  | @skip s q rest answer active calls blocked skips =>
    refine ⟨good.set i d.calls reached ?_, fun _ closed => closed⟩
    rintro _ ⟨⟩
    exact (good.saying i s active).skip calls skips
  | @exec s q rest active calls free =>
    refine ⟨good.set i d.calls reached ?_, fun _ closed => closed⟩
    rintro _ ⟨⟩
    apply (good.saying i s active).exec calls
    rintro row rfl
    obtain ⟨program, writes, held⟩ := s
    cases calls
    simpa only [overtaken, active] using ahead

theorem move (valid : start.Valid) (good : d.Good start) (m : Desk.Move ι)
    (ahead : d.overtaken m = false) :
    (d.move m).Good start ∧
      ∀ id, d.config.db.closed id = true → (d.move m).config.db.closed id = true := by
  cases m with
  | act i => exact good.act valid i ahead
  | begins i call =>
    unfold Desk.move
    cases active : d.config.sessions i with
    | some s =>
      simp only [active]
      exact ⟨good, fun _ closed => closed⟩
    | none =>
      simp only [active]
      refine ⟨good.set i _ (good.reached.step (Config.Step.start active call.residual)) ?_,
        fun _ closed => closed⟩
      rintro _ ⟨⟩
      obtain ⟨committing, only⟩ := call.plain
      exact .nothing only fun _ => nofun
  | abort i =>
    refine ⟨good.set i _ ?_ nofun, fun _ closed => closed⟩
    cases active : d.config.sessions i with
    | some s => exact good.reached.step (Config.Step.abort active)
    | none =>
      have same : d.config.set i none = d.config := by
        simp only [Config.set]
        rw [update_eq_self_iff.mpr active.symm]
      rw [same]
      exact good.reached

end Desk.Good

variable [Fintype ι]

/-- **A failure reply is truthful**, then and later, in a run in which no announcement is
overtaken. -/
theorem failure_truthful (valid : start.Valid) (sealed : start.Sealed) {d later : Desk ι} {id : ID}
    (reached : ((serving ι start).restrict fun d m => d.overtaken m = false).Reachable d)
    (refused : d.config.db.Refused id)
    (leads : ((serving ι start).restrict fun d m => d.overtaken m = false).Leads d later) :
    later.config.db.stands id = false := by
  have good : d.Good start := by
    apply reached.invariant
    · rintro _ rfl
      exact ⟨.init rfl, sealed, fun _ _ => nofun⟩
    · rintro d m _ good ⟨ahead, rfl⟩
      exact (good.move valid m ahead).1
  have kept : later.Good start ∧ later.config.db.closed id = true := by
    induction leads with
    | refl => exact ⟨good, good.sealed id refused⟩
    | tail _ taken ih =>
      obtain ⟨m, ahead, rfl⟩ := taken
      obtain ⟨next, closed⟩ := ih.1.move valid m ahead
      exact ⟨next, closed id ih.2⟩
  exact not_stands_of_closed kept.2

end Runs

/-- A release that comes before its reservation. -/
theorem closed_tombstoned :
    ((reserve (mintFrom 200) 1 10 20 [⟨1, 1⟩] 5).void.inTx
      ((release (mintFrom 100) 10 20 "").void.inTx stocked)).closed 10 = true := by
  have released : (concurrent stocked Transaction).Reachable
      (idle _ : Config dialect Unit Err Unit) :=
    reachable_inTx () (Transaction.release (mintFrom 100) 10 20 "") (.init rfl)
  exact closed_for_good stocked_opening.valid released
    (leads_inTx _ () (.reserve (mintFrom 200) 1 10 20 [⟨1, 1⟩] 5)) (by decide)

/-- Five of the two units of SKU 1 are wanted for reservation 10, and restocking comes
before the failure is announced. -/
def shortThenStocked : List (Desk.Move Bool) :=
  .begins false (.reserve (mintFrom 100) 0 10 20 [⟨1, 5⟩] 900) :: List.replicate 6 (.act false) ++
    .begins true (.adjust (mintFrom 200) 1 10 "RESTOCK" "" "clerk") :: List.replicate 4 (.act true)

def askedAgain : List (Desk.Move Bool) :=
  .begins true (.reserve (mintFrom 300) 0 10 20 [⟨1, 5⟩] 900) :: List.replicate 8 (.act true)

def announcement : List (Desk.Move Bool) := List.replicate 3 (.act false)

def toldInTime : List (Desk.Move Bool) := shortThenStocked ++ announcement

/-- The other place makes the reservation before the announcement. -/
def toldTooLate : List (Desk.Move Bool) := shortThenStocked ++ askedAgain ++ announcement

theorem stocked_sealed : stocked.Sealed := by
  rintro id ⟨record, member, -⟩
  cases member

theorem failure_truthful_toldInTime :
    (toldInTime.foldl Desk.move (stocked.desk Bool)).config.db.Refused 10 ∧
    (askedAgain.foldl Desk.move
      (toldInTime.foldl Desk.move (stocked.desk Bool))).config.db.stands 10 = false := by
  have refused : (toldInTime.foldl Desk.move (stocked.desk Bool)).config.db.Refused 10 := by
    decide +kernel
  have permits : System.Permits Desk.move (fun d m => d.overtaken m = false) toldInTime
      (stocked.desk Bool) := by decide +kernel
  have later : System.Permits Desk.move (fun d m => d.overtaken m = false) askedAgain
      (toldInTime.foldl Desk.move (stocked.desk Bool)) := by decide +kernel
  exact ⟨refused, failure_truthful stocked_opening.valid stocked_sealed (.foldl_restrict permits)
    refused (.foldl_restrict later)⟩

/-- The failure of a reservation that is held is announced. -/
theorem failure_untruthful : ¬ ∀ start (d : Desk Bool) id, start.Valid → start.Sealed →
    (serving Bool start).Reachable d → d.config.db.Refused id →
    d.config.db.stands id = false := by
  intro holds
  have refused : (toldTooLate.foldl Desk.move (stocked.desk Bool)).config.db.Refused 10 := by
    decide +kernel
  have stands : (toldTooLate.foldl Desk.move (stocked.desk Bool)).config.db.stands 10 = true := by
    decide +kernel
  have falls := holds stocked _ 10 stocked_opening.valid stocked_sealed (.foldl toldTooLate) refused
  cases stands.symm.trans falls

end Souq.Inventory
