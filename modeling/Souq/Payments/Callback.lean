import Souq.Lib.Transition
import Souq.Payments.Effect

/-!
# Provider callbacks and concurrent handlers

`HandleCallback` of `payment-service/internal/service`, and the service as a system
of handlers that share the tables. A command is a first transaction, a call to the
provider and a second transaction; a callback looks its payment up and then runs one
transaction. Anything can happen between two transactions of a handler, and a crash
there loses it.
-/

namespace Souq.Payments

open Transact Transition

/-- What a callback reports. -/
inductive CallbackKind where
  | authorized
  | captured
  | failed
  | voided
  | refunded
  deriving DecidableEq

/-- A provider's notification. `orderID` carries the merchant reference. -/
structure Callback where
  verified : Bool
  kind : CallbackKind
  providerRef : Option ID := none
  orderID : ID
  amount : Money
  success : Bool
  reasonCode : Option ReasonCode := none
  declineCode : Option String := none
  deriving DecidableEq

/-- How the inbox names a callback: by its provider reference and its kind. -/
abbrev CallbackKey := Option ID → CallbackKind → ID

def Database.paymentByMerchantRef (db : Database) (merchantRef : ID) : Option Payment :=
  Table.find Payment.pspIdempotencyKey db.payments merchantRef

def writeCapture (mint : Mint) (cur : Payment) (captured : Int) : Tx Unit := do
  writeLedger ⟨cur.id, cur.orderID, .pspClearing, .debit, captured, cur.currency, mint.entryGroup⟩
  writeLedger ⟨cur.id, cur.orderID, .revenue, .credit, captured, cur.currency, mint.entryGroup⟩

def Callback.apply (mint : Mint) (cb : Callback) (cur : Payment) : Tx Unit :=
  match cb.kind with
  | .authorized =>
    if cb.success = false then pure ()
    else if cur.state = .authorized ∨ cur.state = .captured then pure ()
    else if cb.amount.amount ≠ cur.amount then .fail .amountMismatch
    else do
      updatePaymentState cur .authorized { providerAuthID := cb.providerRef }
      emit mint (.authorized cur.orderID cur.id ⟨cur.amount, cur.currency⟩)
  | .captured => do
    updatePaymentState cur .captured
      { providerCaptureID := cb.providerRef, capturedAmount := some cb.amount.amount }
    writeCapture mint cur cb.amount.amount
    emit mint (.captured cur.orderID cur.id ⟨cb.amount.amount, cur.currency⟩)
  | .failed =>
    if cur.state = .captured ∨ cur.state = .authorized then pure ()
    else do
      let retriable := cb.reasonCode.any ReasonCode.retriable
      updatePaymentState cur .failed
        { declineCode := cb.declineCode, reasonCode := cb.reasonCode, retriable := some retriable }
      emit mint (.failed cur.orderID cur.id cb.reasonCode retriable)
  | .voided => do
    updatePaymentState cur .voided {}
    emit mint (.voided cur.orderID cur.id false)
  | .refunded => pure ()

def orNotFound (body : Payment → Tx Unit) : Option Payment → Tx Unit
  | none => .fail .notFound
  | some cur => body cur

/-- The transaction of `HandleCallback`. -/
def handleCallback (key : CallbackKey) (mint : Mint) (cb : Callback) (paymentID : ID) :
    Tx Unit := do
  let fresh ← claimEvent (key cb.providerRef cb.kind)
  if fresh then getPaymentForUpdate paymentID >>= orNotFound (cb.apply mint)
  else pure ()

/-- A handler between two steps: it waits for the provider's answer, or has found the
payment of a callback. -/
inductive Work where
  | call (call : Call)
  | callback (cb : Callback) (paymentID : ID)
  deriving DecidableEq

/-- The database, and what each worker has in hand. -/
structure Service (ι : Type) where
  db : Database := {}
  work : ι → Option Work := fun _ => none

/-- What can happen next: a command is delivered, for the first time or again, the
provider answers, a callback arrives and is applied, or a handler is lost. A
transaction that the database refuses changes nothing. -/
inductive Turn (ι : Type) where
  | start (i : ι) (eventID : ID) (command : Command) (mint : Mint)
  | answer (i : ι) (result : Result) (mint : Mint)
  | receive (i : ι) (cb : Callback)
  | apply (i : ι) (mint : Mint)
  | crash (i : ι)

namespace Service

variable {ι : Type} [DecidableEq ι]

/-- The work a callback gives; one that is not verified or names no payment gives none. -/
def lookup (db : Database) (cb : Callback) : Option Work :=
  if cb.verified then
    (db.paymentByMerchantRef cb.orderID).map fun pmt => .callback cb pmt.id
  else none

/-- A step of one worker. -/
def step (cfg : Config) (key : CallbackKey) (s : Service ι) : Turn ι → Service ι
  | .start i eventID command mint =>
    match s.work i with
    | none =>
      { db := (command.start cfg mint eventID s.db).1
        work := Function.update s.work i ((command.start cfg mint eventID s.db).2.map .call) }
    | some _ => s
  | .answer i result mint =>
    match s.work i with
    | some (.call call) =>
      { db := call.finish cfg mint result s.db, work := Function.update s.work i none }
    | _ => s
  | .receive i cb =>
    match s.work i with
    | none => { s with work := Function.update s.work i (lookup s.db cb) }
    | some _ => s
  | .apply i mint =>
    match s.work i with
    | some (.callback cb paymentID) =>
      { db := (handleCallback key mint cb paymentID).inTx s.db
        work := Function.update s.work i none }
    | _ => s
  | .crash i => { s with work := Function.update s.work i none }

end Service

/-- The service at work, from empty tables. -/
def serving (ι : Type) [DecidableEq ι] (cfg : Config) (key : CallbackKey) :
    System (Service ι) (Turn ι) :=
  .ofFunction {} (Service.step cfg key)

/-- What a callback does to the row it finds, and the event it announces. -/
inductive Applied (cb : Callback) : Payment → Payment → Event → Prop where
  | authorized {old : Payment} (kind : cb.kind = .authorized) (success : cb.success = true)
      (unknown : ¬(old.state = .authorized ∨ old.state = .captured))
      (agrees : cb.amount.amount = old.amount) (fields : StateFields) (amount : Money) :
      Applied cb old (old.withState .authorized fields) (.authorized old.orderID old.id amount)
  | captured {old : Payment} (kind : cb.kind = .captured) (positive : 0 < cb.amount.amount)
      (within : cb.amount.amount ≤ old.amount) (fields : StateFields) (amount : Money) :
      Applied cb old (old.withState .captured fields) (.captured old.orderID old.id amount)
  | failed {old : Payment} (kind : cb.kind = .failed)
      (open' : ¬(old.state = .captured ∨ old.state = .authorized)) (fields : StateFields)
      (reasonCode : Option ReasonCode) (retriable : Bool) :
      Applied cb old (old.withState .failed fields)
        (.failed old.orderID old.id reasonCode retriable)
  | voided {old : Payment} (kind : cb.kind = .voided) :
      Applied cb old (old.withState .voided {}) (.voided old.orderID old.id false)

variable {db after : Database} {mint : Mint}

theorem writeLedger_ok {entry : LedgerEntry}
    (succeeds : (writeLedger entry).run db = (.ok (), after)) :
    entry.admissible = true ∧ after = { db with ledger := db.ledger ++ [entry] } := by
  change Program.run (orReject entry.admissible)
    (dialect.replay (if entry.admissible then [.ledger entry] else []) db) = _ at succeeds
  cases taken : entry.admissible with
  | false =>
    simp only [taken, orReject, Bool.false_eq_true, ↓reduceIte] at succeeds
    cases succeeds
  | true =>
    simp only [taken, orReject, ↓reduceIte] at succeeds
    cases succeeds
    exact ⟨rfl, rfl⟩

def captureEntries (mint : Mint) (cur : Payment) (captured : Int) : List LedgerEntry :=
  [⟨cur.id, cur.orderID, .pspClearing, .debit, captured, cur.currency, mint.entryGroup⟩,
    ⟨cur.id, cur.orderID, .revenue, .credit, captured, cur.currency, mint.entryGroup⟩]

theorem writeCapture_ok {cur : Payment} {captured : Int}
    (succeeds : (writeCapture mint cur captured).run db = (.ok (), after)) :
    0 < captured ∧ after = { db with ledger := db.ledger ++ captureEntries mint cur captured } := by
  obtain ⟨_, debited, debits, credits⟩ := Program.run_bind_ok.mp succeeds
  obtain ⟨positive, rfl⟩ := writeLedger_ok debits
  obtain ⟨-, rfl⟩ := writeLedger_ok credits
  simp only [LedgerEntry.admissible, Bool.and_eq_true, decide_eq_true_eq] at positive
  refine ⟨positive.1, ?_⟩
  simp only [List.append_assoc]
  rfl

theorem Callback.apply_ok {cb : Callback} {cur : Payment} {eventID : ID}
    (found : db.payment cur.id = some cur)
    (succeeds : (cb.apply mint cur).run (db.claim [eventID]) = (.ok (), after)) :
    after.visible = (db.claim [eventID]).visible ∨ ∃ row event, Applied cb cur row event ∧
      Wrote db after row (some ⟨mint.eventID, event⟩) [eventID] := by
  have there : (db.claim [eventID]).payment cur.id = some cur := found
  unfold Callback.apply at succeeds
  cases kind : cb.kind with
  | authorized =>
    simp only [kind] at succeeds
    split at succeeds
    case isTrue =>
      cases succeeds
      exact .inl rfl
    case isFalse success =>
      split at succeeds
      case isTrue =>
        cases succeeds
        exact .inl rfl
      case isFalse unknown =>
        split at succeeds
        case isTrue => cases succeeds
        case isFalse agrees =>
          obtain ⟨_, _, updates, emits⟩ := Program.run_bind_ok.mp succeeds
          obtain rfl := updatePaymentState_ok there updates
          cases emits
          exact .inr ⟨_, _, .authorized kind (by simpa using success) unknown
            (not_not.mp agrees) _ _, Wrote.announce rfl _⟩
  | captured =>
    simp only [kind] at succeeds
    obtain ⟨_, _, updates, succeeds⟩ := Program.run_bind_ok.mp succeeds
    have admitted := updatePaymentState_admitted there updates
    obtain rfl := updatePaymentState_ok there updates
    obtain ⟨_, between, books, emits⟩ := Program.run_bind_ok.mp succeeds
    obtain ⟨positive, booked⟩ := writeCapture_ok books
    have unseen : between.visible = _ := congrArg Database.visible booked
    cases emits
    refine .inr ⟨_, _, .captured kind positive ?_ _ _, Wrote.announce unseen _⟩
    simp only [Payment.admissible, Payment.withState, Option.getD_some,
      Bool.and_eq_true] at admitted
    exact of_decide_eq_true admitted.1.1.1.2
  | failed =>
    simp only [kind] at succeeds
    split at succeeds
    case isTrue =>
      cases succeeds
      exact .inl rfl
    case isFalse open' =>
      obtain ⟨_, _, updates, emits⟩ := Program.run_bind_ok.mp succeeds
      obtain rfl := updatePaymentState_ok there updates
      cases emits
      exact .inr ⟨_, _, .failed kind open' _ _ _, Wrote.announce rfl _⟩
  | voided =>
    simp only [kind] at succeeds
    obtain ⟨_, _, updates, emits⟩ := Program.run_bind_ok.mp succeeds
    obtain rfl := updatePaymentState_ok there updates
    cases emits
    exact .inr ⟨_, _, .voided kind, Wrote.announce rfl _⟩
  | refunded =>
    simp only [kind] at succeeds
    cases succeeds
    exact .inl rfl

theorem handleCallback_inTx_cases (key : CallbackKey) (mint : Mint) (cb : Callback)
    (paymentID : ID) (db : Database) :
    (((handleCallback key mint cb paymentID).inTx db).payments = db.payments ∧
        ((handleCallback key mint cb paymentID).inTx db).outbox = db.outbox) ∨
      key cb.providerRef cb.kind ∉ db.processed ∧ ∃ old row event,
        db.payment paymentID = some old ∧ Applied cb old row event ∧
        Wrote db ((handleCallback key mint cb paymentID).inTx db) row
          (some ⟨mint.eventID, event⟩) [key cb.providerRef cb.kind] := by
  rcases Program.inTx_cases (handleCallback key mint cb paymentID) db with stays | ⟨_, handles⟩
  · exact .inl (by rw [stays]; exact ⟨rfl, rfl⟩)
  · generalize (handleCallback key mint cb paymentID).inTx db = after at handles ⊢
    rcases claim_ok handles with ⟨rfl, -⟩ | ⟨fresh, handles⟩
    · exact .inl ⟨rfl, rfl⟩
    · rw [Program.run_bind, run_getPaymentForUpdate, payment_claim] at handles
      cases found : db.payment paymentID with
      | none =>
        simp only [found, orNotFound] at handles
        cases handles
      | some old =>
        simp only [found, orNotFound] at handles
        rcases Callback.apply_ok (payment_of_find found) handles with
          same | ⟨row, event, applied, wrote⟩
        · simp only [Database.visible, Prod.mk.injEq] at same
          exact .inl ⟨same.1, same.2.1⟩
        · exact .inr ⟨fresh, old, row, event, rfl, applied, wrote⟩

theorem settleCapture_unapproved {paymentID pspKey : ID} {result : Result}
    (unapproved : result.outcome ≠ .approved) (db : Database) :
    ((settleCapture mint paymentID pspKey result).inTx db).visible = db.visible :=
  (settleCapture_inTx_cases mint paymentID pspKey result db).resolve_right
    fun ⟨_, _, _, approved, _⟩ => unapproved approved

theorem voidFinish_unapproved {orderID paymentID pspKey : ID} {result : Result}
    (unapproved : result.outcome ≠ .approved) (db : Database) :
    ((voidFinish mint orderID paymentID pspKey result).inTx db).visible = db.visible :=
  (voidFinish_inTx_cases mint orderID paymentID pspKey result db).resolve_right
    fun ⟨_, approved, _⟩ => unapproved approved

namespace Service

variable {ι : Type} {s : Service ι}

/-- How a turn changes a payment, and what it announces. -/
inductive Changed (cfg : Config) (key : CallbackKey) (s : Service ι) :
    Turn ι → Option Payment → Payment → Option Event → Prop where
  | authorizeStart {i : ι} {eventID : ID} {cmd : AuthorizeCommand} {mint : Mint} {row : Payment}
      {found : Option Payment} {event : Option Event} {goes : Bool}
      (finds : s.db.payment cmd.paymentID = found)
      (change : Authorizing cmd found row event goes) :
      Changed cfg key s (.start i eventID (.authorize cmd) mint) found row event
  | authorizeAnswer {i : ι} {cmd : AuthorizeCommand} {result : Result} {mint : Mint}
      {old row : Payment} {event : Event} {outcome : Outcome}
      (waits : s.work i = some (.call (.authorize cmd)))
      (found : s.db.payment cmd.paymentID = some old) (answered : result.outcome = outcome)
      (change : Authorized outcome old row event) :
      Changed cfg key s (.answer i result mint) (some old) row (some event)
  | captureStart {i : ι} {eventID orderID paymentID idempotencyKey : ID} {mint : Mint}
      {old row : Payment} {event : Option Event} {pmt : Option Payment}
      (found : s.db.payment paymentID = some old) (change : Capturing old row event pmt) :
      Changed cfg key s (.start i eventID (.capture orderID paymentID idempotencyKey) mint)
        (some old) row event
  | captureAnswer {i : ι} {orderID paymentID pspKey : ID} {providerAuthID : Option ID}
      {result : Result} {mint : Mint} {old : Payment}
      (waits : s.work i = some (.call (.capture orderID paymentID pspKey providerAuthID)))
      (approved : cfg.supportsCapture none = true → result.outcome = .approved)
      (found : s.db.payment paymentID = some old) (fields : StateFields) (amount : Money) :
      Changed cfg key s (.answer i result mint) (some old) (old.withState .captured fields)
        (some (.captured old.orderID old.id amount))
  | voidStart {i : ι} {eventID orderID paymentID idempotencyKey : ID} {mint : Mint}
      {found : Option Payment} {row : Payment} {announces goes wasTombstone : Bool}
      (finds : s.db.payment paymentID = found)
      (change : Voiding orderID paymentID found row announces goes) :
      Changed cfg key s (.start i eventID (.void orderID paymentID idempotencyKey) mint) found row
        (if announces then some (.voided orderID paymentID wasTombstone) else none)
  | voidAnswer {i : ι} {orderID paymentID pspKey : ID} {result : Result} {mint : Mint}
      {old : Payment} (waits : s.work i = some (.call (.void orderID paymentID pspKey)))
      (approved : result.outcome = .approved) (found : s.db.payment paymentID = some old) :
      Changed cfg key s (.answer i result mint) (some old) (old.withState .voided {})
        (some (.voided orderID paymentID false))
  | callback {i : ι} {mint : Mint} {cb : Callback} {paymentID : ID} {old row : Payment}
      {event : Event} (waits : s.work i = some (.callback cb paymentID))
      (fresh : key cb.providerRef cb.kind ∉ s.db.processed)
      (found : s.db.payment paymentID = some old) (change : Applied cb old row event) :
      Changed cfg key s (.apply i mint) (some old) row (some event)

/-- **Step lemma.** A step leaves the payments and the outbox, or changes one payment. -/
theorem step_cases [DecidableEq ι] (cfg : Config) (key : CallbackKey) (s : Service ι)
    (turn : Turn ι) :
    ((s.step cfg key turn).db.payments = s.db.payments ∧
        (s.step cfg key turn).db.outbox = s.db.outbox) ∨
      ∃ old row event eventID claimed, Changed cfg key s turn old row event ∧
        Wrote s.db (s.step cfg key turn).db row (event.map (OutboxRecord.mk eventID)) claimed := by
  have quiet : ∀ {after : Database}, after.visible = s.db.visible →
      after.payments = s.db.payments ∧ after.outbox = s.db.outbox := by
    intro after same
    simp only [Database.visible, Prod.mk.injEq] at same
    exact ⟨same.1, same.2.1⟩
  cases turn with
  | start i eventID command mint =>
    cases busy : s.work i with
    | some work => exact .inl (by simp only [step, busy, and_self])
    | none =>
      simp only [step, busy]
      cases command with
      | authorize cmd =>
        rcases start_authorize_cases cfg mint eventID cmd s.db with
          same | ⟨after, row, event, goes, starts, -, change, wrote⟩
        · exact .inl (by simp only [same, and_self])
        · rw [starts]
          exact .inr ⟨_, row, event, mint.eventID, [eventID], .authorizeStart rfl change, wrote⟩
      | capture orderID paymentID idempotencyKey =>
        rcases start_capture_cases cfg mint eventID orderID paymentID idempotencyKey s.db with
          same | ⟨after, old, row, event, pmt, starts, found, change, wrote⟩
        · exact .inl (by simp only [same, and_self])
        · rw [starts]
          exact .inr ⟨_, row, event, mint.eventID, [eventID], .captureStart found change, wrote⟩
      | void orderID paymentID idempotencyKey =>
        rcases start_void_cases cfg mint eventID orderID paymentID idempotencyKey s.db with
          same | ⟨after, row, announces, wasTombstone, goes, starts, change, wrote⟩
        · exact .inl (by simp only [same, and_self])
        · rw [starts]
          exact .inr ⟨_, row, _, mint.eventID, [eventID], .voidStart rfl change, wrote⟩
  | answer i result mint =>
    rcases waits : s.work i with _ | ⟨call⟩ | ⟨cb, paymentID⟩
    · exact .inl (by simp only [step, waits, and_self])
    · simp only [step, waits]
      cases call with
      | authorize cmd =>
        rcases authorizeFinish_inTx_cases cfg mint cmd result s.db with
          same | ⟨old, row, event, found, change, wrote⟩
        · exact .inl (quiet same)
        · exact .inr ⟨_, row, some event, mint.eventID, [],
            .authorizeAnswer waits found rfl change, wrote⟩
      | capture orderID paymentID pspKey providerAuthID =>
        rcases settleCapture_inTx_cases mint paymentID pspKey _ s.db with
          same | ⟨old, fields, amount, approved, found, wrote⟩
        · exact .inl (quiet same)
        · refine .inr ⟨_, _, some _, mint.eventID, [],
            .captureAnswer waits (fun asks => ?_) found fields amount, wrote⟩
          rwa [if_pos asks] at approved
      | void orderID paymentID pspKey =>
        rcases voidFinish_inTx_cases mint orderID paymentID pspKey result s.db with
          same | ⟨old, approved, found, wrote⟩
        · exact .inl (quiet same)
        · exact .inr ⟨_, _, some _, mint.eventID, [], .voidAnswer waits approved found, wrote⟩
    · exact .inl (by simp only [step, waits, and_self])
  | receive i cb =>
    refine .inl ?_
    cases busy : s.work i <;> simp only [step, busy, and_self]
  | apply i mint =>
    rcases waits : s.work i with _ | ⟨call⟩ | ⟨cb, paymentID⟩
    · exact .inl (by simp only [step, waits, and_self])
    · exact .inl (by simp only [step, waits, and_self])
    · simp only [step, waits]
      rcases handleCallback_inTx_cases key mint cb paymentID s.db with
        same | ⟨fresh, old, row, event, found, change, wrote⟩
      · exact .inl same
      · exact .inr ⟨_, row, some event, mint.eventID, _, .callback waits fresh found change, wrote⟩
  | crash i => exact .inl ⟨rfl, rfl⟩

end Service

end Souq.Payments
