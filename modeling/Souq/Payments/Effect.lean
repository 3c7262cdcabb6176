import Souq.Payments.Service

/-!
# What the payment operations do to a payment

For the saga each of the two transactions of an operation writes one row of
`payments` and announces it with at most one event. The first one also claims its
command.
-/

namespace Souq.Payments

open Transact Program Database Command OutboxRecord Program.Keeps Table

def Database.visible (db : Database) : List Payment × List OutboxRecord × List ID :=
  (db.payments, db.outbox, db.processed)

def Database.claim (db : Database) (eventIDs : List ID) : Database :=
  { db with processed := db.processed ++ eventIDs }

/-- The tables after a row of `payments` is written. -/
def Database.putPayment (db : Database) (row : Payment) : Database :=
  { db with payments := upsert Payment.id row db.payments }

@[simp] theorem run_getPaymentForUpdate (paymentID : ID) (db : Database) :
    (getPaymentForUpdate paymentID).run db = (.ok (db.payment paymentID), db) := rfl

@[simp] theorem run_emit (mint : Mint) (event : Event) (db : Database) :
    (emit mint event).run db = (.ok (), { db with
      outbox := insertNew eventID db.outbox ⟨mint.eventID, event⟩ }) := rfl

@[simp] theorem run_recordAttempt (attempt : Attempt) (db : Database) :
    (recordAttempt attempt).run db =
      (.ok (), { db with attempts := db.attempts ++ [attempt] }) := rfl

theorem run_claimEvent (eventID : ID) (db : Database) :
    (claimEvent eventID).run db = (.ok (!db.processed.contains eventID),
      if db.processed.contains eventID then db else db.claim [eventID]) := by
  change (Except.ok (!db.processed.contains eventID),
    dialect.replay (if db.processed.contains eventID then [] else [.processed eventID]) db) = _
  split <;> rfl

theorem keeps_writeLedger (entry : LedgerEntry) : (writeLedger entry).Keeps visible := by
  refine bind (stmt fun db => ?_) fun taken => ?_
  · change visible (dialect.replay (if entry.admissible then [.ledger entry] else []) db) = _
    split <;> rfl
  · cases taken
    · exact fail _
    · exact pure _

variable {after : Database} {eventID paymentID : ID} {mint : Mint}

theorem insertPayment_ok {row : Payment} {db : Database}
    (succeeds : (insertPayment row).run db = (.ok (), after)) : after = db.putPayment row := by
  change run (orDuplicate (db.inserting row))
    (dialect.replay (if db.inserting row = .inserted then [.payment row] else []) db) =
      _ at succeeds
  cases answer : db.inserting row with
  | inserted =>
    rw [answer] at succeeds
    exact (Prod.mk.inj succeeds).2.symm
  | duplicate =>
    rw [answer] at succeeds
    cases succeeds
  | rejected =>
    rw [answer] at succeeds
    cases succeeds

theorem run_updatePaymentState {row : Payment} {db : Database}
    (found : db.payment row.id = some row) (next : State) (fields : StateFields) :
    (updatePaymentState row next fields).run db =
      if (row.withState next fields).admissible then
        (.ok (), db.putPayment (row.withState next fields))
      else (.error .rejected, db) := by
  have matched : db.matching row.id row.version = some row := by simp [matching, found]
  change run (orStale (Stmt.answer (.updatePaymentState row.id row.version next fields) db))
    (dialect.replay (Stmt.writes (.updatePaymentState row.id row.version next fields) db) db) = _
  simp only [Stmt.answer, Stmt.writes, matched]
  by_cases admitted : (row.withState next fields).admissible = true
  · simp only [admitted, ↓reduceIte]
    rfl
  · simp only [admitted, Bool.false_eq_true, ↓reduceIte]
    rfl

theorem updatePaymentState_admitted {row : Payment} {next : State} {fields : StateFields}
    {db : Database} (found : db.payment row.id = some row)
    (succeeds : (updatePaymentState row next fields).run db = (.ok (), after)) :
    (row.withState next fields).admissible = true := by
  rw [run_updatePaymentState found] at succeeds
  split at succeeds
  · assumption
  · cases succeeds

theorem updatePaymentState_ok {row : Payment} {next : State} {fields : StateFields} {db : Database}
    (found : db.payment row.id = some row)
    (succeeds : (updatePaymentState row next fields).run db = (.ok (), after)) :
    after = db.putPayment (row.withState next fields) := by
  rw [run_updatePaymentState found] at succeeds
  split at succeeds <;> cases succeeds
  rfl

/-- A transaction claimed commands, wrote a row of `payments` and announced it. -/
structure Wrote (db after : Database) (row : Payment) (record : Option OutboxRecord)
    (claimed : List ID) : Prop where
  payments : after.payments = upsert Payment.id row db.payments
  outbox : after.outbox = db.outbox ∨
    ∃ announced, record = some announced ∧ after.outbox = db.outbox ++ [announced]
  processed : after.processed = db.processed ++ claimed

section Wrote

variable {db between : Database} {row : Payment} {claimed : List ID}

theorem Wrote.silent (put : between.visible = ((db.claim claimed).putPayment row).visible) :
    Wrote db between row none claimed := by
  simp only [visible, Prod.mk.injEq] at put
  exact ⟨put.1, .inl put.2.1, put.2.2⟩

theorem Wrote.announce (put : between.visible = ((db.claim claimed).putPayment row).visible)
    (record : OutboxRecord) :
    Wrote db { between with
      outbox := insertNew OutboxRecord.eventID between.outbox record }
      row (some record) claimed := by
  simp only [visible, Prod.mk.injEq] at put
  obtain ⟨payments, outbox, processed⟩ := put
  refine ⟨payments, ?_, processed⟩
  rcases insertNew_cases OutboxRecord.eventID between.outbox record with same | more
  · exact .inl (same.trans outbox)
  · exact .inr ⟨record, rfl, more.trans (by rw [outbox]; rfl)⟩

theorem visible_putPayment_self {paymentID : ID} (found : db.payment paymentID = some row) :
    (db.claim claimed).visible = ((db.claim claimed).putPayment row).visible := by
  simp only [visible, putPayment, claim, upsert_of_find found]

end Wrote

theorem claim_ok {α : Type} {body : Tx α} {otherwise : α} {db : Database} {a : α}
    (succeeds : (claimEvent eventID >>= fun fresh => if fresh = true then body else pure
      otherwise).run db = (.ok a, after)) :
    (after = db ∧ a = otherwise) ∨
      eventID ∉ db.processed ∧ body.run (db.claim [eventID]) = (.ok a, after) := by
  rw [run_bind, run_claimEvent] at succeeds
  by_cases handled : eventID ∈ db.processed
  · simp only [List.contains_eq_mem, handled, decide_true, Bool.not_true, Bool.false_eq_true,
      ↓reduceIte, run_pure] at succeeds
    cases succeeds
    exact .inl ⟨rfl, rfl⟩
  · simp only [List.contains_eq_mem, handled, decide_false, Bool.not_false, ↓reduceIte,
      Bool.false_eq_true] at succeeds
    exact .inr ⟨handled, succeeds⟩

theorem claim_nil (db : Database) : db.claim [] = db := by
  simp only [claim, List.append_nil]

theorem payment_claim (db : Database) (eventIDs : List ID) (paymentID : ID) :
    (db.claim eventIDs).payment paymentID = db.payment paymentID := rfl

theorem payment_of_find {db : Database} {row : Payment} (found : db.payment paymentID = some row) :
    db.payment row.id = some row := by
  have named : row.id = paymentID := key_of_find found
  rw [named]
  exact found

/-- What the first transaction of `Authorize` does to the row it finds, the event
it announces and whether the provider is called. -/
inductive Authorizing (cmd : AuthorizeCommand) :
    Option Payment → Payment → Option Event → Bool → Prop where
  | new {row : Payment} (named : row.id = cmd.paymentID) (owned : row.orderID = cmd.orderID)
      (state : row.state = .authorizing) : Authorizing cmd none row none true
  | resumed {row : Payment} (held : row.state = .pending) :
      Authorizing cmd (some row) (row.withState .authorizing {}) none true
  | again {row : Payment} (settled : row.state ≠ .pending) :
      Authorizing cmd (some row) row (eventFor row) false

theorem authorizeStart_ok {cfg : Config} {cmd : AuthorizeCommand} {db : Database} {goes : Bool}
    (succeeds : (authorizeStart cfg mint eventID cmd).run db = (.ok goes, after)) :
    (after = db ∧ goes = false) ∨ eventID ∉ db.processed ∧ ∃ row event,
      Authorizing cmd (db.payment cmd.paymentID) row event goes ∧
      Wrote db after row (event.map (mk mint.eventID)) [eventID] := by
  rcases claim_ok succeeds with same | ⟨fresh, succeeds⟩
  · exact .inl same
  · refine .inr ⟨fresh, ?_⟩
    simp only [run_bind, run_getPaymentForUpdate, payment_claim] at succeeds
    cases found : db.payment cmd.paymentID with
    | none =>
      simp only [found] at succeeds
      obtain ⟨_, inserted, inserts, succeeds⟩ := run_bind_ok.mp succeeds
      obtain rfl := insertPayment_ok inserts
      obtain ⟨_, updated, updates, returns⟩ := run_bind_ok.mp succeeds
      have there : ((db.claim [eventID]).putPayment (newPayment cfg cmd)).payment
          (newPayment cfg cmd).id = some (newPayment cfg cmd) := by
        simp [payment, putPayment, find_upsert]
      obtain rfl := updatePaymentState_ok there updates
      cases returns
      refine ⟨(newPayment cfg cmd).withState .authorizing {}, none, .new rfl rfl rfl,
        Wrote.silent ?_⟩
      have same : (newPayment cfg cmd).id =
          ((newPayment cfg cmd).withState .authorizing {}).id := rfl
      simp only [visible, putPayment, upsert_upsert same]
    | some row =>
      simp only [found] at succeeds
      split at succeeds
      case isTrue settled =>
        obtain ⟨_, emitted, emits, returns⟩ := run_bind_ok.mp succeeds
        cases returns
        refine ⟨row, eventFor row, .again settled, ?_⟩
        unfold emitForState at emits
        cases event : eventFor row with
        | none =>
          simp only [event] at emits
          cases emits
          exact Wrote.silent (visible_putPayment_self found)
        | some event' =>
          simp only [event] at emits
          cases emits
          exact Wrote.announce (visible_putPayment_self found) _
      case isFalse open' =>
        obtain ⟨_, updated, updates, returns⟩ := run_bind_ok.mp succeeds
        have there : (db.claim [eventID]).payment row.id = some row := payment_of_find found
        obtain rfl := updatePaymentState_ok there updates
        cases returns
        exact ⟨_, none, .resumed (not_not.mp open'), Wrote.silent rfl⟩

/-- What the second transaction of `Authorize` does to the row it finds, and the
event it announces. -/
inductive Authorized : Outcome → Payment → Payment → Event → Prop where
  | approved {old : Payment} (fields : StateFields) (amount : Money) :
      Authorized .approved old (old.withState .authorized fields)
        (.authorized old.orderID old.id amount)
  | declined {old : Payment} (fields : StateFields) (reasonCode : Option ReasonCode)
      (retriable : Bool) :
      Authorized .declined old (old.withState .failed fields)
        (.failed old.orderID old.id reasonCode retriable)

theorem authorizeFinish_inTx_cases (cfg : Config) (mint : Mint) (cmd : AuthorizeCommand)
    (result : Result) (db : Database) :
    ((authorizeFinish cfg mint cmd result).inTx db).visible = db.visible ∨ ∃ old row event,
      db.payment cmd.paymentID = some old ∧ Authorized result.outcome old row event ∧
      Wrote db ((authorizeFinish cfg mint cmd result).inTx db) row
        (some ⟨mint.eventID, event⟩) [] := by
  rcases inTx_cases (authorizeFinish cfg mint cmd result) db with stays | ⟨_, finishes⟩
  · exact .inl (by rw [stays])
  · generalize (authorizeFinish cfg mint cmd result).inTx db = after at finishes ⊢
    simp only [authorizeFinish, run_bind, run_getPaymentForUpdate] at finishes
    cases found : db.payment cmd.paymentID with
    | none =>
      simp only [found] at finishes
      cases finishes
    | some old =>
      simp only [found, run_bind, run_recordAttempt] at finishes
      cases answer : result.outcome with
      | pending | unknown =>
        simp only [answer] at finishes
        cases finishes
        exact .inl rfl
      | approved | declined =>
        simp only [answer] at finishes
        obtain ⟨_, updated, updates, emits⟩ := run_bind_ok.mp finishes
        obtain rfl := updatePaymentState_ok (by exact payment_of_find found) updates
        cases emits
        refine .inr ⟨old, _, _, rfl, ?_, Wrote.announce (by rw [claim_nil]; rfl) _⟩
        constructor

/-- What the first transaction of `Capture` does to the row it finds, the event it
announces and the payment the provider is asked to capture. -/
inductive Capturing : Payment → Payment → Option Event → Option Payment → Prop where
  | open' {row : Payment} (held : row.state = .authorized) :
      Capturing row (row.withState .capturing {}) none (some row)
  | again {row : Payment} (settled : row.state = .captured) (amount : Money) :
      Capturing row row (some (.captured row.orderID row.id amount)) none

theorem captureStart_ok {db : Database} {pmt : Option Payment}
    (succeeds : (captureStart mint eventID paymentID).run db = (.ok pmt, after)) :
    (after = db ∧ pmt = none) ∨ eventID ∉ db.processed ∧ ∃ old row event,
      db.payment paymentID = some old ∧ Capturing old row event pmt ∧
      Wrote db after row (event.map (mk mint.eventID)) [eventID] := by
  rcases claim_ok succeeds with same | ⟨fresh, succeeds⟩
  · exact .inl same
  · refine .inr ⟨fresh, ?_⟩
    simp only [run_bind, run_getPaymentForUpdate, payment_claim] at succeeds
    cases found : db.payment paymentID with
    | none =>
      simp only [found] at succeeds
      cases succeeds
    | some old =>
      simp only [found] at succeeds
      split at succeeds
      case isTrue settled =>
        obtain ⟨_, _, emits, returns⟩ := run_bind_ok.mp succeeds
        cases emits
        cases returns
        exact ⟨old, old, _, rfl, .again settled _, Wrote.announce (visible_putPayment_self found) _⟩
      case isFalse =>
        split at succeeds
        case isTrue => cases succeeds
        case isFalse held =>
          obtain ⟨_, _, updates, returns⟩ := run_bind_ok.mp succeeds
          have there : (db.claim [eventID]).payment old.id = some old := payment_of_find found
          obtain rfl := updatePaymentState_ok there updates
          cases returns
          exact ⟨old, _, none, rfl, .open' (not_not.mp held), Wrote.silent rfl⟩

theorem settleCapture_inTx_cases (mint : Mint) (paymentID pspKey : ID) (result : Result)
    (db : Database) :
    ((settleCapture mint paymentID pspKey result).inTx db).visible = db.visible ∨
      ∃ old fields amount, result.outcome = .approved ∧ db.payment paymentID = some old ∧
      Wrote db ((settleCapture mint paymentID pspKey result).inTx db)
        (old.withState .captured fields)
        (some ⟨mint.eventID, .captured old.orderID old.id amount⟩) [] := by
  rcases inTx_cases (settleCapture mint paymentID pspKey result) db with
    stays | ⟨_, settles⟩
  · exact .inl (by rw [stays])
  · generalize (settleCapture mint paymentID pspKey result).inTx db = after at settles ⊢
    simp only [settleCapture, run_bind, run_getPaymentForUpdate] at settles
    cases found : db.payment paymentID with
    | none =>
      simp only [found] at settles
      cases settles
    | some old =>
      simp only [found, run_bind, run_recordAttempt] at settles
      split at settles
      case isTrue =>
        cases settles
        exact .inl rfl
      case isFalse approved =>
        obtain ⟨_, updated, updates, settles⟩ := run_bind_ok.mp settles
        obtain rfl := updatePaymentState_ok (by exact payment_of_find found) updates
        obtain ⟨_, debited, debits, settles⟩ := run_bind_ok.mp settles
        obtain ⟨_, credited, credits, emits⟩ := run_bind_ok.mp settles
        cases emits
        have unseen := ((keeps_writeLedger _).of_run credits).trans
          ((keeps_writeLedger _).of_run debits)
        exact .inr ⟨old, _, _, not_not.mp approved, rfl,
          Wrote.announce (unseen.trans (by rw [claim_nil]; rfl)) _⟩

/-- What the first transaction of `Void` does to the row it finds, whether it
announces it and whether the provider is called. -/
inductive Voiding (orderID paymentID : ID) : Option Payment → Payment → Bool → Bool → Prop where
  | tombstone {row : Payment} (named : row.id = paymentID) (owned : row.orderID = orderID)
      (state : row.state = .voided) : Voiding orderID paymentID none row true false
  | again {row : Payment} (settled : row.state = .voided ∨ row.state = .failed) :
      Voiding orderID paymentID (some row) row true false
  | open' {row : Payment} (live : row.state ≠ .captured) :
      Voiding orderID paymentID (some row) row false true

theorem voidStart_ok {cfg : Config} {orderID idempotencyKey : ID} {db : Database} {goes : Bool}
    (succeeds : (voidStart cfg mint eventID orderID paymentID idempotencyKey).run db = (.ok goes,
      after)) :
    (after = db ∧ goes = false) ∨ eventID ∉ db.processed ∧ ∃ row announces wasTombstone,
      Voiding orderID paymentID (db.payment paymentID) row announces goes ∧
      Wrote db after row (Option.map (mk mint.eventID)
          (if announces then some (.voided orderID paymentID wasTombstone) else none))
        [eventID] := by
  rcases claim_ok succeeds with same | ⟨fresh, succeeds⟩
  · exact .inl same
  · refine .inr ⟨fresh, ?_⟩
    simp only [run_bind, run_getPaymentForUpdate, payment_claim] at succeeds
    cases found : db.payment paymentID with
    | none =>
      simp only [found] at succeeds
      obtain ⟨_, _, inserts, succeeds⟩ := run_bind_ok.mp succeeds
      obtain rfl := insertPayment_ok inserts
      obtain ⟨_, _, emits, returns⟩ := run_bind_ok.mp succeeds
      cases emits
      cases returns
      exact ⟨tombstone cfg orderID paymentID idempotencyKey, true, true, .tombstone rfl rfl rfl,
        Wrote.announce rfl _⟩
    | some old =>
      simp only [found] at succeeds
      cases held : old.state with
      | voided | failed =>
        simp only [held] at succeeds
        obtain ⟨_, _, emits, returns⟩ := run_bind_ok.mp succeeds
        cases emits
        cases returns
        exact ⟨old, true, false, .again (by simp [held]),
          Wrote.announce (visible_putPayment_self found) _⟩
      | captured =>
        simp only [held] at succeeds
        cases succeeds
      | _ =>
        simp only [held] at succeeds
        cases succeeds
        exact ⟨old, false, false, .open' (by simp [held]),
          Wrote.silent (visible_putPayment_self found)⟩

theorem voidFinish_inTx_cases (mint : Mint) (orderID paymentID pspKey : ID) (result : Result)
    (db : Database) :
    ((voidFinish mint orderID paymentID pspKey result).inTx db).visible = db.visible ∨
      ∃ old, result.outcome = .approved ∧ db.payment paymentID = some old ∧
      Wrote db ((voidFinish mint orderID paymentID pspKey result).inTx db)
        (old.withState .voided {}) (some ⟨mint.eventID, .voided orderID paymentID false⟩) [] := by
  rcases inTx_cases (voidFinish mint orderID paymentID pspKey result) db with
    stays | ⟨_, finishes⟩
  · exact .inl (by rw [stays])
  · generalize (voidFinish mint orderID paymentID pspKey result).inTx db = after at finishes ⊢
    simp only [voidFinish, run_bind, run_getPaymentForUpdate] at finishes
    cases found : db.payment paymentID with
    | none =>
      simp only [found] at finishes
      cases finishes
    | some old =>
      simp only [found, run_bind, run_recordAttempt] at finishes
      split at finishes
      case isTrue =>
        cases finishes
        exact .inl rfl
      case isFalse approved =>
        obtain ⟨_, updated, updates, emits⟩ := run_bind_ok.mp finishes
        obtain rfl := updatePaymentState_ok (by exact payment_of_find found) updates
        cases emits
        exact .inr ⟨old, not_not.mp approved, rfl, Wrote.announce (by rw [claim_nil]; rfl) _⟩

theorem start_authorize_cases (cfg : Config) (mint : Mint) (eventID : ID) (cmd : AuthorizeCommand)
    (db : Database) :
    start cfg mint eventID (.authorize cmd) db = (db, none) ∨ ∃ after row event goes,
        start cfg mint eventID (.authorize cmd) db =
          (after, if goes then some (.authorize cmd) else none) ∧
        eventID ∉ db.processed ∧ Authorizing cmd (db.payment cmd.paymentID) row event goes ∧
        Wrote db after row (event.map (mk mint.eventID)) [eventID] := by
  rcases ran : (authorizeStart cfg mint eventID cmd).run db with ⟨_ | goes, after⟩
  · exact .inl (by simp only [start, firstTx, run_bind, ran])
  · have begun : start cfg mint eventID (.authorize cmd) db =
        (after, if goes then some (.authorize cmd) else none) := by
      simp only [start, firstTx, run_bind, run_pure, ran]
    rcases authorizeStart_ok ran with ⟨same, stays⟩ | ⟨fresh, row, event, authorizing, wrote⟩
    · exact .inl (by rw [begun, same, stays]; rfl)
    · exact .inr ⟨after, row, event, goes, begun, fresh, authorizing, wrote⟩

theorem start_capture_cases (cfg : Config) (mint : Mint) (eventID orderID paymentID
    idempotencyKey : ID) (db : Database) :
    start cfg mint eventID (.capture orderID paymentID idempotencyKey) db = (db, none) ∨
      ∃ after old row event pmt,
        start cfg mint eventID (.capture orderID paymentID idempotencyKey) db =
          (after, Option.map (fun pmt => .capture orderID pmt.id
            (cfg.derive .capture orderID idempotencyKey) pmt.providerAuthID) pmt) ∧
        db.payment paymentID = some old ∧ Capturing old row event pmt ∧
        Wrote db after row (event.map (mk mint.eventID)) [eventID] := by
  rcases ran : (captureStart mint eventID paymentID).run db with ⟨_ | pmt, after⟩
  · exact .inl (by simp only [start, firstTx, run_bind, ran])
  · have begun : start cfg mint eventID (.capture orderID paymentID idempotencyKey) db =
        (after, pmt.map fun pmt => .capture orderID pmt.id
          (cfg.derive .capture orderID idempotencyKey) pmt.providerAuthID) := by
      simp only [start, firstTx, run_bind, run_pure, ran]
    rcases captureStart_ok ran with ⟨same, stays⟩ | ⟨-, old, row, event, found, capturing, wrote⟩
    · exact .inl (by rw [begun, same, stays]; rfl)
    · exact .inr ⟨after, old, row, event, pmt, begun, found, capturing, wrote⟩

theorem start_void_cases (cfg : Config) (mint : Mint) (eventID orderID paymentID
    idempotencyKey : ID) (db : Database) :
    start cfg mint eventID (.void orderID paymentID idempotencyKey) db = (db, none) ∨
      ∃ after row announces wasTombstone goes,
        start cfg mint eventID (.void orderID paymentID idempotencyKey) db =
          (after, if goes then some (.void orderID paymentID
            (cfg.derive .void orderID idempotencyKey)) else none) ∧
        Voiding orderID paymentID (db.payment paymentID) row announces goes ∧
        Wrote db after row (Option.map (mk mint.eventID)
            (if announces then some (.voided orderID paymentID wasTombstone) else none))
          [eventID] := by
  rcases ran : (voidStart cfg mint eventID orderID paymentID idempotencyKey).run db with
    ⟨_ | goes, after⟩
  · exact .inl (by simp only [start, firstTx, run_bind, ran])
  · have begun : start cfg mint eventID (.void orderID paymentID idempotencyKey) db =
        (after, if goes then some (.void orderID paymentID
          (cfg.derive .void orderID idempotencyKey)) else none) := by
      simp only [start, firstTx, run_bind, run_pure, ran]
    rcases voidStart_ok ran with ⟨same, stays⟩ | ⟨-, row, announces, wasTombstone, voiding, wrote⟩
    · exact .inl (by rw [begun, same, stays]; rfl)
    · exact .inr ⟨after, row, announces, wasTombstone, goes, begun, voiding, wrote⟩

end Souq.Payments
