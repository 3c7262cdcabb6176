import Souq.Payments.CaptureRetry

/-!
# Announcing a settled payment again

A command that is delivered again for a payment that is settled announces it again. The event is
built from the row, by `emitForState` for `Authorize` and in place for `Capture`, while the first
one was built from the answer or the callback that settled the payment. The two agree for an
authorization; a failure is announced again as `CARD_DECLINED` whatever it was, `Capture`
announces the amount of the payment even where a callback reported less, and a second capture
overwrites what the row says of the first.
-/

namespace Souq.Payments

open Transact Transition Command Service Database Program Table

/-- Two events tell the saga the same: their type, order, payment, amount, reason and whether to
try again. Whether a void was a tombstone is not compared. -/
def Event.agrees : Event → Event → Bool
  | .authorized orderID paymentID amount, .authorized orderID' paymentID' amount' =>
    orderID == orderID' && paymentID == paymentID' && amount == amount'
  | .captured orderID paymentID amount, .captured orderID' paymentID' amount' =>
    orderID == orderID' && paymentID == paymentID' && amount == amount'
  | .failed orderID paymentID reasonCode retriable,
    .failed orderID' paymentID' reasonCode' retriable' =>
    orderID == orderID' && paymentID == paymentID' && reasonCode == reasonCode' &&
      retriable == retriable'
  | .voided orderID paymentID _, .voided orderID' paymentID' _ =>
    orderID == orderID' && paymentID == paymentID'
  | _, _ => false

/-- A state that is announced again. -/
def State.Settled (state : State) : Prop :=
  state = .authorized ∨ state = .captured ∨ state = .failed ∨ state = .voided

instance (state : State) : Decidable state.Settled := inferInstanceAs (Decidable (_ ∨ _))

/-- What a step has put into the outbox. -/
def Database.added (before after : Database) : List OutboxRecord :=
  after.outbox.drop before.outbox.length

/-- The service, and for each payment the event of the step in which it entered its state. A row
that is written again in the same state has entered nothing. -/
structure Chronicle (ι : Type) where
  service : Service ι := {}
  entered : ID → Option Event := fun _ => none

/-- The id a step's transaction draws for its event. -/
def Turn.eventID {ι : Type} : Turn ι → Option ID
  | .start _ _ _ mint => some mint.eventID
  | .answer _ _ mint => some mint.eventID
  | .receive _ _ => none
  | .apply _ mint => some mint.eventID
  | .crash _ => none

def Unused {ι : Type} (db : Database) (turn : Turn ι) : Prop :=
  ∀ eventID ∈ turn.eventID, ∀ record ∈ db.outbox, record.eventID ≠ eventID

instance {ι : Type} (db : Database) (turn : Turn ι) : Decidable (Unused db turn) :=
  inferInstanceAs (Decidable (∀ eventID ∈ turn.eventID, ∀ record ∈ db.outbox, _))

section

variable {ι : Type} [DecidableEq ι]

def Chronicle.step (cfg : Config) (key : CallbackKey) (c : Chronicle ι) (turn : Turn ι) :
    Chronicle ι where
  service := c.service.step cfg key turn
  entered := fun paymentID =>
    if (c.service.step cfg key turn).db.stateOf paymentID = c.service.db.stateOf paymentID then
      c.entered paymentID
    else
      (c.service.db.added (c.service.step cfg key turn).db).getLast?.map OutboxRecord.event

/-- The service at work, from empty tables, with ids that are drawn once. -/
def chronicle (ι : Type) [DecidableEq ι] (cfg : Config) (key : CallbackKey) :
    System (Chronicle ι) (Turn ι) :=
  (System.ofFunction {} (Chronicle.step cfg key)).restrict fun c turn => Unused c.service.db turn

end

/-- The event names the payment, and the amount of an authorization. -/
def Payment.ToldBy (row : Payment) (event : Option Event) : Prop :=
  match row.state with
  | .authorized => event = some (.authorized row.orderID row.id ⟨row.amount, row.currency⟩)
  | .captured => ∃ captured, event = some (.captured row.orderID row.id ⟨captured, row.currency⟩)
  | .failed => ∃ reasonCode : Option ReasonCode,
    event = some (.failed row.orderID row.id reasonCode (reasonCode.any ReasonCode.retriable))
  | .voided => ∃ orderID wasTombstone, event = some (.voided orderID row.id wasTombstone)
  | _ => True

theorem Payment.toldBy_of_unsettled {row : Payment} (unsettled : ¬row.state.Settled)
    (event : Option Event) : row.ToldBy event := by
  unfold Payment.ToldBy
  unfold State.Settled at unsettled
  cases state : row.state <;> simp [state] at unsettled ⊢

/-- What no statement changes in a row. -/
structure SameCharge (old row : Payment) : Prop where
  id : row.id = old.id
  orderID : row.orderID = old.orderID
  amount : row.amount = old.amount
  currency : row.currency = old.currency

theorem SameCharge.toldBy {old row : Payment} (same : SameCharge old row)
    (state : row.state = old.state) {event : Option Event} (told : old.ToldBy event) :
    row.ToldBy event := by
  unfold Payment.ToldBy at told ⊢
  rw [state, same.id, same.orderID, same.amount, same.currency]
  exact told

def KeepsCharges (db after : Database) : Prop :=
  ∀ paymentID old, db.payment paymentID = some old →
    ∃ row, after.payment paymentID = some row ∧ SameCharge old row

theorem keepsCharges_refl (db : Database) : KeepsCharges db db :=
  fun _ old found => ⟨old, found, rfl, rfl, rfl, rfl⟩

theorem KeepsCharges.trans {first second third : Database} (one : KeepsCharges first second)
    (two : KeepsCharges second third) : KeepsCharges first third := by
  intro paymentID old found
  obtain ⟨row, there, same⟩ := one paymentID old found
  obtain ⟨last, kept, again⟩ := two paymentID row there
  exact ⟨last, kept, again.id.trans same.id, again.orderID.trans same.orderID,
    again.amount.trans same.amount, again.currency.trans same.currency⟩

theorem keepsCharges_put {db : Database} {row : Payment}
    (same : ∀ old, db.payment row.id = some old → SameCharge old row) :
    KeepsCharges db (db.putPayment row) := by
  intro paymentID old found
  have put : (db.putPayment row).payment paymentID =
      if row.id = paymentID then some row else db.payment paymentID :=
    find_upsert row db.payments paymentID
  rw [put]
  split
  · next named => exact ⟨row, rfl, same old (named ▸ found)⟩
  · exact ⟨old, found, rfl, rfl, rfl, rfl⟩

theorem keepsCharges_stmt (q : Stmt) (db : Database) :
    KeepsCharges db (dialect.replay (q.writes db) db) := by
  cases q with
  | getPaymentForUpdate | recordAttempt | enqueue => exact keepsCharges_refl db
  | claimEvent | writeLedger =>
    simp only [Stmt.writes]
    split <;> exact keepsCharges_refl db
  | insertPayment row =>
    simp only [Stmt.writes]
    split
    · next inserted =>
        refine keepsCharges_put fun old found => ?_
        simp [inserting, found] at inserted
    · exact keepsCharges_refl db
  | updatePaymentState paymentID expectVersion next fields =>
    cases matched : db.matching paymentID expectVersion with
    | none =>
      simp only [Stmt.writes, matched]
      exact keepsCharges_refl db
    | some row =>
      simp only [Stmt.writes, matched]
      split
      · refine keepsCharges_put fun old found => ?_
        have there := payment_of_find (Option.filter_eq_some_iff.mp matched).1
        cases there.symm.trans found
        exact ⟨rfl, rfl, rfl, rfl⟩
      · exact keepsCharges_refl db

/-- A step leaves a payment, writes a state that is not announced, or announces what it writes. -/
def Tells (db after : Database) (paymentID : ID) : Prop :=
  after.payment paymentID = db.payment paymentID ∨ ∃ row, after.payment paymentID = some row ∧
    (¬row.state.Settled ∨ ∃ record, db.added after = [record] ∧ row.ToldBy (some record.event))

section

variable {db after : Database} {row : Payment} {record : OutboxRecord} {claimed : List ID}

theorem Entered.added (entered : Entered db after row record claimed)
    (unused : ∀ other ∈ db.outbox, other.eventID ≠ record.eventID) :
    db.added after = [record] := by
  unfold Database.added
  rw [entered.outbox, insertNew_of_absent unused, List.drop_left]

theorem Entered.tells (entered : Entered db after row record claimed)
    (unused : ∀ other ∈ db.outbox, other.eventID ≠ record.eventID)
    (told : row.ToldBy (some record.event)) (paymentID : ID) : Tells db after paymentID := by
  unfold Tells
  rw [entered.payment]
  split
  · exact .inr ⟨row, rfl, .inr ⟨record, entered.added unused, told⟩⟩
  · exact .inl rfl

theorem tells_of_visible (same : after.visible = db.visible) (paymentID : ID) :
    Tells db after paymentID := by
  simp only [visible, Prod.mk.injEq] at same
  apply Or.inl
  unfold payment
  rw [same.1]

theorem Wrote.tells {written : Option OutboxRecord} (wrote : Wrote db after row written claimed)
    (silent : db.payment row.id = some row ∨ ¬row.state.Settled) (paymentID : ID) :
    Tells db after paymentID := by
  unfold Tells
  rw [wrote.payment]
  split
  · next named =>
      cases silent with
      | inl same => exact .inl (named ▸ same.symm)
      | inr unsettled => exact .inr ⟨row, rfl, .inl unsettled⟩
  · exact .inl rfl

end

theorem start_void_absent (cfg : Config) (mint : Mint) {eventID orderID paymentID
    idempotencyKey : ID} {db : Database} (absent : db.payment paymentID = none) :
    (start cfg mint eventID (.void orderID paymentID idempotencyKey) db).1 = db ∨
      Entered db (start cfg mint eventID (.void orderID paymentID idempotencyKey) db).1
        (tombstone cfg orderID paymentID idempotencyKey)
        ⟨mint.eventID, .voided orderID paymentID true⟩ [eventID] := by
  rcases ran : (voidStart cfg mint eventID orderID paymentID idempotencyKey).run db with
    ⟨_ | goes, after⟩
  · exact .inl (by simp only [start, firstTx, run_bind, ran])
  · simp only [start, firstTx, run_bind, run_pure, ran]
    rcases claim_ok ran with ⟨same, -⟩ | ⟨-, succeeds⟩
    · exact .inl same
    · simp only [run_bind, run_getPaymentForUpdate, payment_claim] at succeeds
      simp only [absent] at succeeds
      obtain ⟨_, _, inserts, succeeds⟩ := run_bind_ok.mp succeeds
      obtain rfl := insertPayment_ok inserts
      obtain ⟨_, _, emits, returns⟩ := run_bind_ok.mp succeeds
      cases emits
      cases returns
      exact .inr ⟨rfl, rfl, rfl⟩

section

variable {ι : Type} [DecidableEq ι] {cfg : Config} {key : CallbackKey} {s : Service ι}

theorem tells_start (i : ι) (eventID : ID) (command : Command) {mint : Mint}
    (unused : ∀ record ∈ s.db.outbox, record.eventID ≠ mint.eventID) (paymentID : ID) :
    Tells s.db (s.step cfg key (.start i eventID command mint)).db paymentID := by
  cases busy : s.work i with
  | some work =>
    simp only [step, busy]
    exact .inl rfl
  | none =>
    simp only [step, busy]
    cases command with
    | authorize cmd =>
      rcases start_authorize_cases cfg mint eventID cmd s.db with
        same | ⟨after, row, event, goes, starts, -, change, wrote⟩
      · rw [same]
        exact .inl rfl
      · rw [starts]
        apply wrote.tells
        generalize found : s.db.payment cmd.paymentID = existing at change
        cases change with
        | new named owned state => exact .inr (by rw [state]; decide)
        | resumed held => exact .inr (show ¬State.authorizing.Settled by decide)
        | again settled => exact .inl (payment_of_find found)
    | capture orderID captured idempotencyKey =>
      rcases start_capture_cases cfg mint eventID orderID captured idempotencyKey s.db with
        same | ⟨after, old, row, event, pmt, starts, found, change, wrote⟩
      · rw [same]
        exact .inl rfl
      · rw [starts]
        apply wrote.tells
        cases change with
        | open' held => exact .inr (show ¬State.capturing.Settled by decide)
        | again settled amount => exact .inl (payment_of_find found)
    | void orderID voided idempotencyKey =>
      cases found : s.db.payment voided with
      | none =>
        rcases start_void_absent cfg mint found with same | entered
        · rw [same]
          exact .inl rfl
        · exact entered.tells unused ⟨orderID, true, rfl⟩ paymentID
      | some old =>
        rcases start_void_cases cfg mint eventID orderID voided idempotencyKey s.db with
          same | ⟨after, row, announces, wasTombstone, goes, starts, change, wrote⟩
        · rw [same]
          exact .inl rfl
        · rw [starts]
          apply wrote.tells
          rw [found] at change
          cases change with
          | again | open' => exact .inl (payment_of_find found)

theorem tells_answer (admits : s.db.Admitted) (i : ι) (result : Result) {mint : Mint}
    (unused : ∀ record ∈ s.db.outbox, record.eventID ≠ mint.eventID) (paymentID : ID) :
    Tells s.db (s.step cfg key (.answer i result mint)).db paymentID := by
  have meets : ∀ {about : ID} {row : Payment}, s.db.payment about = some row →
      row.admissible = true := fun found => admits _ (mem_of_find found)
  rcases waits : s.work i with _ | ⟨call⟩ | ⟨cb, about⟩
  · simp only [step, waits]
    exact .inl rfl
  · simp only [step, waits]
    cases call with
    | authorize cmd =>
      rcases authorizeFinish_inTx_cases cfg mint cmd result s.db with
        same | ⟨old, row, event, found, change, -⟩
      · exact tells_of_visible same paymentID
      · generalize answered : result.outcome = outcome at change
        cases change with
        | approved =>
          exact (authorizeFinish_approved cfg mint found (meets found) answered).tells unused rfl
            paymentID
        | declined =>
          exact (authorizeFinish_declined cfg mint found (meets found) answered).tells unused
            ⟨_, rfl⟩ paymentID
    | capture orderID captured pspKey providerAuthID =>
      simp only [Call.finish]
      generalize (if cfg.supportsCapture none = true then result
        else { outcome := .approved, providerRef := providerAuthID }) = answer
      rcases settleCapture_inTx_cases mint captured pspKey answer s.db with
        same | ⟨old, fields, amount, approved, found, -⟩
      · exact tells_of_visible same paymentID
      · exact (settleCapture_approved mint pspKey found (meets found) approved).tells unused
          ⟨_, rfl⟩ paymentID
    | void orderID voided pspKey =>
      rcases voidFinish_inTx_cases mint orderID voided pspKey result s.db with
        same | ⟨old, approved, found, -⟩
      · exact tells_of_visible same paymentID
      · have entered := voidFinish_approved mint orderID pspKey found (meets found) approved
        have named : old.id = voided := key_of_find found
        exact entered.tells unused ⟨orderID, false, by rw [← named]; rfl⟩ paymentID
  · simp only [step, waits]
    exact .inl rfl

theorem tells_apply (admits : s.db.Admitted) (i : ι) {mint : Mint}
    (unused : ∀ record ∈ s.db.outbox, record.eventID ≠ mint.eventID) (paymentID : ID) :
    Tells s.db (s.step cfg key (.apply i mint)).db paymentID := by
  rcases waits : s.work i with _ | ⟨call⟩ | ⟨cb, about⟩
  · simp only [step, waits]
    exact .inl rfl
  · simp only [step, waits]
    exact .inl rfl
  · simp only [step, waits]
    rcases handleCallback_inTx_cases key mint cb about s.db with
      ⟨same, -⟩ | ⟨fresh, old, -, -, found, -, -⟩
    · apply Or.inl
      unfold payment
      rw [same]
    · rcases handleCallback_cases mint fresh found (admits _ (mem_of_find found)) with
        ⟨-, after⟩ | ⟨-, after⟩ | ⟨row, event, enters, entered⟩
      · rw [after]
        exact .inl rfl
      · rw [after]
        exact .inl rfl
      · apply entered.tells unused _ paymentID
        cases enters with
        | authorized => rfl
        | captured | failed => exact ⟨_, rfl⟩
        | voided => exact ⟨_, _, rfl⟩

/-- **Step lemma.** -/
theorem tells_step (admits : s.db.Admitted) {turn : Turn ι} (unused : Unused s.db turn)
    (paymentID : ID) : Tells s.db (s.step cfg key turn).db paymentID := by
  cases turn with
  | start i eventID command mint => exact tells_start i eventID command (unused _ rfl) paymentID
  | answer i result mint => exact tells_answer admits i result (unused _ rfl) paymentID
  | receive i cb =>
    apply Or.inl
    cases busy : s.work i <;> simp only [step, busy]
  | apply i mint => exact tells_apply admits i (unused _ rfl) paymentID
  | crash i => exact .inl rfl

theorem keepsCharges_step (turn : Turn ι) : KeepsCharges s.db (s.step cfg key turn).db := by
  obtain ⟨p, ran⟩ := s.step_inTx cfg key turn
  rw [ran]
  have respects : p.Respects KeepsCharges :=
    Program.Respects.of_stmts keepsCharges_refl (fun _ _ _ one two => one.trans two)
      keepsCharges_stmt p
  exact respects.inTx keepsCharges_refl s.db

/-- **Run lemma.** The tables meet their `CHECK`s, and the event that told of the state of a
payment fits its row. -/
theorem chronicled_of_reachable {c : Chronicle ι} (reached : (chronicle ι cfg key).Reachable c) :
    c.service.db.Admitted ∧ ∀ paymentID row, c.service.db.payment paymentID = some row →
      row.ToldBy (c.entered paymentID) := by
  apply reached.invariant
  · rintro _ rfl
    constructor
    · intro row member
      cases member
    · intro paymentID row found
      cases found
  · rintro c turn _ ⟨admits, told⟩ ⟨unused, rfl⟩
    constructor
    · exact step_admitted admits
    · intro paymentID row found
      simp only [Chronicle.step] at found ⊢
      split
      · next same =>
          rw [stateOf_of_found found] at same
          obtain ⟨old, there, state⟩ := found_of_stateOf same.symm
          obtain ⟨kept, written, charge⟩ := keepsCharges_step turn paymentID old there
          cases written.symm.trans found
          exact charge.toldBy state.symm (told paymentID old there)
      · next changed =>
          rcases tells_step admits unused paymentID with same | ⟨_, written, silent | tells⟩
          · refine absurd ?_ changed
            unfold stateOf
            rw [same]
          · rw [found] at written
            cases written
            exact Payment.toldBy_of_unsettled silent _
          · rw [found] at written
            cases written
            obtain ⟨record, added, fits⟩ := tells
            rw [added]
            exact fits

end

/-- An authorize or a capture of the payment. -/
def Command.Pays (paymentID : ID) : Command → Prop
  | .authorize cmd => cmd.paymentID = paymentID
  | .capture _ captured _ => captured = paymentID
  | .void .. => False

/-- A command adds one event, which agrees with the first one, or it is a capture that has
nothing to announce again. -/
def Faithful (command : Command) (row : Payment) (added : List OutboxRecord)
    (first : Option Event) : Prop :=
  (added = [] ∧ row.state ≠ .captured ∧ ∃ orderID paymentID idempotencyKey,
      command = .capture orderID paymentID idempotencyKey) ∨
    ∃ record event, added = [record] ∧ first = some event ∧ record.event.agrees event = true

/-- What the row, or a constant, still says of the first event: an `Authorize` finds a failure
that was `CARD_DECLINED`, a void that named the order of the payment, or a captured amount that
was not overwritten since, and a `Capture` finds a payment that was captured whole at first. -/
def Repeatable (command : Command) (row : Payment) (first : Option Event) : Prop :=
  match command, row.state with
  | .authorize _, .failed =>
    ∃ orderID paymentID, first = some (.failed orderID paymentID (some .cardDeclined) false)
  | .authorize _, .voided =>
    ∃ paymentID wasTombstone, first = some (.voided row.orderID paymentID wasTombstone)
  | .authorize _, .captured => ∃ orderID paymentID currency,
    first = some (.captured orderID paymentID ⟨row.capturedAmount, currency⟩)
  | .capture .., .captured => ∃ orderID paymentID currency,
    first = some (.captured orderID paymentID ⟨row.amount, currency⟩)
  | _, _ => True

section

variable {cfg : Config} {db : Database} {mint : Mint} {row : Payment}

theorem run_authorizeStart_settled {eventID : ID} {cmd : AuthorizeCommand} {event : Event}
    (fresh : eventID ∉ db.processed) (found : db.payment cmd.paymentID = some row)
    (settled : row.state ≠ .pending) (announces : eventFor row = some event) :
    (authorizeStart cfg mint eventID cmd).run db =
      (.ok false, { db.claim [eventID] with
        outbox := insertNew OutboxRecord.eventID db.outbox ⟨mint.eventID, event⟩ }) := by
  unfold authorizeStart
  rw [run_bind, run_claimEvent]
  simp only [List.contains_eq_mem, fresh, decide_false, Bool.not_false, Bool.false_eq_true,
    ↓reduceIte, run_bind, run_getPaymentForUpdate, payment_claim, found, settled, ne_eq,
    not_false_eq_true, emitForState, announces]
  rfl

theorem added_append {after : Database} {record : OutboxRecord}
    (appended : after.outbox = db.outbox ++ [record]) : db.added after = [record] := by
  unfold added
  rw [appended, List.drop_left]

theorem added_same {after : Database} (same : after.outbox = db.outbox) : db.added after = [] := by
  unfold added
  rw [same, List.drop_length]

theorem added_authorize {eventID : ID} {cmd : AuthorizeCommand} {event : Event}
    (fresh : eventID ∉ db.processed)
    (unused : ∀ record ∈ db.outbox, record.eventID ≠ mint.eventID)
    (found : db.payment cmd.paymentID = some row) (settled : row.state ≠ .pending)
    (announces : eventFor row = some event) :
    db.added (start cfg mint eventID (.authorize cmd) db).1 = [⟨mint.eventID, event⟩] := by
  apply added_append
  simp only [start, firstTx, run_bind, run_pure,
    run_authorizeStart_settled fresh found settled announces]
  exact insertNew_of_absent unused

theorem added_capture {eventID orderID paymentID idempotencyKey : ID}
    (fresh : eventID ∉ db.processed)
    (unused : ∀ record ∈ db.outbox, record.eventID ≠ mint.eventID)
    (found : db.payment paymentID = some row) (admits : row.admissible = true) :
    db.added (start cfg mint eventID (.capture orderID paymentID idempotencyKey) db).1 =
      if row.state = .captured then
        [⟨mint.eventID, .captured row.orderID row.id ⟨row.amount, row.currency⟩⟩]
      else [] := by
  have ran := run_captureStart mint fresh found admits
  split
  · next state =>
      rw [if_pos state] at ran
      apply added_append
      simp only [start, firstTx, run_bind, run_pure, ran]
      exact insertNew_of_absent unused
  · next state =>
      rw [if_neg state] at ran
      apply added_same
      split at ran
      · simp only [start, firstTx, run_bind, ran]
      · simp only [start, firstTx, run_bind, ran]
        rfl

theorem eventFor_of_settled (settled : row.state.Settled) {first : Option Event}
    (told : row.ToldBy first) : ∃ event, eventFor row = some event ∧
      ∀ cmd : AuthorizeCommand, (∃ one, first = some one ∧ event.agrees one = true) ↔
        Repeatable (.authorize cmd) row first := by
  unfold Payment.ToldBy at told
  unfold eventFor Repeatable
  rcases settled with state | state | state | state
  · simp only [state] at told ⊢
    apply Exists.intro _
    constructor
    · rfl
    · simp [told, Event.agrees]
  · simp only [state] at told ⊢
    obtain ⟨captured, told⟩ := told
    apply Exists.intro _
    constructor
    · rfl
    · simp [told, Event.agrees]
      exact fun _ => eq_comm
  · simp only [state] at told ⊢
    obtain ⟨reasonCode, told⟩ := told
    apply Exists.intro _
    constructor
    · rfl
    · intro cmd
      subst told
      constructor
      · rintro ⟨_, same, agrees⟩
        cases same
        simp only [Event.agrees, Bool.and_eq_true, beq_iff_eq] at agrees
        obtain ⟨⟨-, reason⟩, -⟩ := agrees
        exact ⟨row.orderID, row.id, by rw [← reason]; rfl⟩
      · rintro ⟨orderID, paymentID, same⟩
        obtain ⟨rfl, rfl, rfl, retriable⟩ := Event.failed.inj (Option.some.inj same)
        exact ⟨_, rfl, by simp [Event.agrees, retriable]⟩
  · simp only [state] at told ⊢
    obtain ⟨orderID, wasTombstone, told⟩ := told
    apply Exists.intro _
    constructor
    · rfl
    · intro cmd
      subst told
      constructor
      · rintro ⟨_, same, agrees⟩
        cases same
        simp only [Event.agrees, Bool.and_eq_true, beq_iff_eq] at agrees
        exact ⟨row.id, wasTombstone, by rw [agrees.1]⟩
      · rintro ⟨paymentID, tombstone, same⟩
        obtain ⟨rfl, -, -⟩ := Event.voided.inj (Option.some.inj same)
        exact ⟨_, rfl, by simp [Event.agrees]⟩

end

/-- **Announcing again is faithful where the row says enough.** When an authorize or capture
command is delivered under a new event id for a payment that is settled, the event it enqueues
agrees with the one that told of the payment's state exactly where that is repeatable. -/
theorem reemission_faithful_iff {ι : Type} [DecidableEq ι] {cfg : Config} {key : CallbackKey}
    {c : Chronicle ι} (reached : (chronicle ι cfg key).Reachable c) {i : ι}
    (free : c.service.work i = none) {eventID paymentID : ID} {command : Command}
    (pays : command.Pays paymentID) (fresh : eventID ∉ c.service.db.processed) {mint : Mint}
    (unused : ∀ record ∈ c.service.db.outbox, record.eventID ≠ mint.eventID) {row : Payment}
    (found : c.service.db.payment paymentID = some row) (settled : row.state.Settled) :
    Faithful command row
        (c.service.db.added (c.service.step cfg key (.start i eventID command mint)).db)
        (c.entered paymentID) ↔
      Repeatable command row (c.entered paymentID) := by
  obtain ⟨admits, told⟩ := chronicled_of_reachable reached
  have toldBy := told paymentID row found
  simp only [step, free]
  cases command with
  | authorize cmd =>
    obtain rfl : cmd.paymentID = paymentID := pays
    have active : row.state ≠ .pending := by
      intro pending
      rw [pending] at settled
      exact absurd settled (by decide)
    obtain ⟨event, announces, repeats⟩ := eventFor_of_settled settled toldBy
    rw [added_authorize fresh unused found active announces, ← repeats cmd]
    simp [Faithful]
  | capture orderID captured idempotencyKey =>
    obtain rfl : captured = paymentID := pays
    rw [added_capture fresh unused found (admits row (Table.mem_of_find found))]
    unfold Payment.ToldBy at toldBy
    by_cases state : row.state = .captured
    · simp only [state] at toldBy
      obtain ⟨captured, toldBy⟩ := toldBy
      simp [Faithful, Repeatable, state, toldBy, Event.agrees]
      exact eq_comm
    · rw [if_neg state]
      apply iff_of_true
      · exact .inl ⟨rfl, state, _, _, _, rfl⟩
      · unfold Repeatable
        cases held : row.state <;> trivial
  | void => exact pays.elim

def declined (reason : ReasonCode) : List (Turn (Fin 2)) :=
  [.start 0 501 (.authorize authorizeOrder) ⟨601, 701⟩,
    .answer 0 { outcome := .declined, reasonCode := some reason } ⟨602, 702⟩]

def declinedOrder (reason : ReasonCode) : Chronicle (Fin 2) :=
  (declined reason).foldl (Chronicle.step mocked callbackKeys) {}

theorem declinedOrder_reachable (reason : ReasonCode) :
    (chronicle (Fin 2) mocked callbackKeys).Reachable (declinedOrder reason) := by
  apply System.Reachable.foldl_restrict
  cases reason <;> decide +kernel

def declinedRow (reason : ReasonCode) : Payment :=
  ((newPayment mocked authorizeOrder).withState .authorizing {}).withState .failed
    { reasonCode := some reason, retriable := some reason.retriable }

/-- A declined card is announced again as it was. -/
theorem declined_card_repeated : Faithful (.authorize authorizeOrder) (declinedRow .cardDeclined)
    ((declinedOrder .cardDeclined).service.db.added
      ((declinedOrder .cardDeclined).service.step mocked callbackKeys
        (.start 1 502 (.authorize authorizeOrder) ⟨603, 703⟩)).db)
    ((declinedOrder .cardDeclined).entered 30) := by
  have told : (declinedOrder .cardDeclined).entered 30 =
      some (.failed 20 30 (some .cardDeclined) false) := by decide +kernel
  have pays : (authorize authorizeOrder).Pays 30 := rfl
  have found : (declinedOrder .cardDeclined).service.db.payment 30 =
      some (declinedRow .cardDeclined) := by decide +kernel
  exact (reemission_faithful_iff (declinedOrder_reachable .cardDeclined) (by decide +kernel) pays
    (by decide +kernel) (by decide +kernel) found (by decide)).mpr ⟨20, 30, told⟩

/-- An outage is announced again as a declined card. -/
theorem outage_announced_as_decline : ¬ ∀ (cfg : Config) (key : CallbackKey)
    (c : Chronicle (Fin 2)) (i : Fin 2) (eventID paymentID : ID) (command : Command) (mint : Mint)
    (row : Payment), (chronicle (Fin 2) cfg key).Reachable c → c.service.work i = none →
    command.Pays paymentID → eventID ∉ c.service.db.processed →
    (∀ record ∈ c.service.db.outbox, record.eventID ≠ mint.eventID) →
    c.service.db.payment paymentID = some row → row.state.Settled →
    ∀ record ∈ c.service.db.added (c.service.step cfg key (.start i eventID command mint)).db,
      ∃ first, c.entered paymentID = some first ∧ record.event.agrees first = true := by
  intro repeated
  have added : ⟨603, .failed 20 30 (some .cardDeclined) false⟩ ∈
      (declinedOrder .providerUnavailable).service.db.added
        ((declinedOrder .providerUnavailable).service.step mocked callbackKeys
          (.start 1 502 (.authorize authorizeOrder) ⟨603, 703⟩)).db := by decide +kernel
  obtain ⟨first, told, agrees⟩ := repeated mocked callbackKeys (declinedOrder .providerUnavailable)
    1 502 30 (.authorize authorizeOrder) ⟨603, 703⟩ (declinedRow .providerUnavailable)
    (declinedOrder_reachable _) (by decide +kernel) rfl (by decide +kernel) (by decide +kernel)
    (by decide +kernel) (by decide) _ added
  have outage : (declinedOrder .providerUnavailable).entered 30 =
      some (.failed 20 30 (some .providerUnavailable) true) := by decide +kernel
  rw [outage] at told
  cases told
  exact absurd agrees (by decide)

end Souq.Payments
