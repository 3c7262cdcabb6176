import Souq.Payments.Books

/-!
# What a transaction commits

Rows in the tables meet the `CHECK`s, so only a callback for a capture can be refused by them.
Every other transaction that changes the state of a payment commits: it writes one row, appends
one event and claims what it claims.
-/

namespace Souq.Payments

open Transact Program Callback Payment Bool Database OutboxRecord ReasonCode Table

/-- A transaction wrote a row of `payments`, announced it and claimed events. -/
structure Entered (db after : Database) (row : Payment) (record : OutboxRecord)
    (claimed : List ID) : Prop where
  payments : after.payments = upsert Payment.id row db.payments
  outbox : after.outbox = insertNew eventID db.outbox record
  processed : after.processed = db.processed ++ claimed

theorem Entered.payment {db after : Database} {row : Payment} {record : OutboxRecord}
    {claimed : List ID} (entered : Entered db after row record claimed) (paymentID : ID) :
    after.payment paymentID = if row.id = paymentID then some row else db.payment paymentID := by
  unfold Database.payment
  rw [entered.payments, Table.find_upsert]

theorem Payment.admissible_withState {row : Payment} (admits : row.admissible = true) (next : State)
    {fields : StateFields} (uncaptured : fields.capturedAmount = none) :
    (row.withState next fields).admissible = true := by
  unfold admissible withState at *
  rw [uncaptured]
  exact admits

theorem Payment.admissible_capture {row : Payment} (admits : row.admissible = true) (next : State)
    {fields : StateFields} (whole : fields.capturedAmount = some row.amount) :
    (row.withState next fields).admissible = true := by
  simp only [admissible, and_eq_true, decide_eq_true_eq] at admits
  obtain ⟨⟨⟨⟨⟨⟨positive, captured⟩, refunded⟩, within⟩, covered⟩, provider⟩, currency⟩ := admits
  simp only [admissible, withState, whole, Option.getD_some, and_eq_true,
    decide_eq_true_eq]
  exact ⟨⟨⟨⟨⟨⟨positive, positive.le⟩, refunded⟩, le_refl _⟩, covered.trans within⟩, provider⟩,
    currency⟩

theorem Payment.positive_of_admissible {row : Payment} (admits : row.admissible = true) :
    0 < row.amount ∧ row.currency.length ≤ 3 := by
  simp only [admissible, and_eq_true, decide_eq_true_eq] at admits
  exact ⟨admits.1.1.1.1.1.1, admits.2⟩

section

variable {db : Database} {row : Payment} {mint : Mint}

theorem run_enter (found : db.payment row.id = some row) {next : State} {fields : StateFields}
    (admitted : (row.withState next fields).admissible = true) (event : Event) :
    (updatePaymentState row next fields >>= fun _ => emit mint event).run db =
      (.ok (), { db.putPayment (row.withState next fields) with
        outbox := insertNew eventID db.outbox ⟨mint.eventID, event⟩ }) := by
  rw [run_bind, run_updatePaymentState found, if_pos admitted]
  rfl

theorem Entered.of_run {p : Tx Unit} {between : Database} {claimed : List ID} {next : State}
    {fields : StateFields} {event : Event} (found : db.payment row.id = some row)
    (admitted : (row.withState next fields).admissible = true)
    (seen : between.visible = (db.claim claimed).visible)
    (runs : p.run db =
      (updatePaymentState row next fields >>= fun _ => emit mint event).run between) :
    Entered db (p.inTx db) (row.withState next fields) ⟨mint.eventID, event⟩ claimed := by
  simp only [visible, claim, Prod.mk.injEq] at seen
  obtain ⟨payments, outbox, processed⟩ := seen
  have there : between.payment row.id = some row := by
    unfold Database.payment
    rw [payments]
    exact found
  rw [run_enter there admitted] at runs
  rw [inTx_of_ok runs]
  constructor
  · exact congrArg (upsert Payment.id _) payments
  · exact congrArg (insertNew eventID · _) outbox
  · exact processed

theorem run_writeLedger {entry : LedgerEntry} (positive : 0 < entry.amount)
    (short : entry.currency.length ≤ 3) :
    (writeLedger entry).run db = (.ok (), { db with ledger := db.ledger ++ [entry] }) := by
  have admits : entry.admissible = true := by
    simp only [LedgerEntry.admissible, positive, short, decide_true, Bool.and_self]
  change run (orReject entry.admissible)
    (dialect.replay (if entry.admissible then [.ledger entry] else []) db) = _
  rw [admits]
  rfl

end

section

variable {db : Database} {row : Payment} {result : Result} {paymentID : ID}

theorem Entered.of_attempt {p : Tx Unit} {mint : Mint} {next : State} {fields : StateFields}
    {event : Event}
    (attempt : Attempt) (found : db.payment paymentID = some row)
    (admitted : (row.withState next fields).admissible = true)
    (runs : p.run db = (updatePaymentState row next fields >>= fun _ => emit mint event).run
      { db with attempts := db.attempts ++ [attempt] }) :
    Entered db (p.inTx db) (row.withState next fields) ⟨mint.eventID, event⟩ [] := by
  apply Entered.of_run (payment_of_find found) admitted _ runs
  rw [claim_nil]
  rfl

variable (cfg : Config) (mint : Mint)

theorem authorizeFinish_approved {cmd : AuthorizeCommand}
    (found : db.payment cmd.paymentID = some row) (admits : row.admissible = true)
    (approved : result.outcome = .approved) :
    Entered db ((authorizeFinish cfg mint cmd result).inTx db) (row.withState .authorized
        { providerAuthID := result.providerRef, authCode := result.authCode,
          authExpiresAt := result.expiresAt })
      ⟨mint.eventID, .authorized row.orderID row.id ⟨row.amount, row.currency⟩⟩ [] := by
  apply Entered.of_attempt
    { paymentID := cmd.paymentID, operation := .authorize,
      pspKey := cfg.derive .authorize cmd.orderID cmd.idempotencyKey,
      outcome := .success, providerRef := result.providerRef }
    found (row.admissible_withState admits _ rfl)
  simp only [authorizeFinish, run_bind, run_getPaymentForUpdate, found,
    run_recordAttempt, approved, outcomeLabel]

theorem authorizeFinish_declined {cmd : AuthorizeCommand}
    (found : db.payment cmd.paymentID = some row) (admits : row.admissible = true)
    (declined : result.outcome = .declined) :
    Entered db ((authorizeFinish cfg mint cmd result).inTx db) (row.withState .failed
        { declineCode := result.declineCode, reasonCode := result.reasonCode,
          retriable := some (result.reasonCode.any retriable) })
      ⟨mint.eventID, .failed row.orderID row.id result.reasonCode
        (result.reasonCode.any retriable)⟩ [] := by
  apply Entered.of_attempt
    { paymentID := cmd.paymentID, operation := .authorize,
      pspKey := cfg.derive .authorize cmd.orderID cmd.idempotencyKey,
      outcome := .declined, providerRef := result.providerRef }
    found (row.admissible_withState admits _ rfl)
  simp only [authorizeFinish, run_bind, run_getPaymentForUpdate, found,
    run_recordAttempt, declined, outcomeLabel]

theorem authorizeFinish_undecided (cmd : AuthorizeCommand) (db : Database)
    (undecided : result.outcome = .pending ∨ result.outcome = .unknown) :
    ((authorizeFinish cfg mint cmd result).inTx db).visible = db.visible := by
  rcases authorizeFinish_inTx_cases cfg mint cmd result db with same | ⟨_, _, _, -, change, -⟩
  · exact same
  · cases undecided with
    | inl pending =>
      rw [pending] at change
      cases change
    | inr unknown =>
      rw [unknown] at change
      cases change

theorem settleCapture_approved (pspKey : ID) (found : db.payment paymentID = some row)
    (admits : row.admissible = true) (approved : result.outcome = .approved) :
    Entered db ((settleCapture mint paymentID pspKey result).inTx db) (row.withState .captured
        { providerCaptureID := result.providerRef, capturedAmount := some row.amount })
      ⟨mint.eventID, .captured row.orderID row.id ⟨row.amount, row.currency⟩⟩ [] := by
  obtain ⟨positive, short⟩ := positive_of_admissible admits
  have there : ∀ attempts, payment { db with attempts := attempts } row.id = some row :=
    fun _ => payment_of_find found
  have admitted : (row.withState .captured
      { providerCaptureID := result.providerRef, capturedAmount := some row.amount }).admissible :=
    row.admissible_capture admits .captured rfl
  have ran : ∃ attempts ledger, (settleCapture mint paymentID pspKey result).run db =
      (.ok (), { db.putPayment (row.withState .captured
          { providerCaptureID := result.providerRef, capturedAmount := some row.amount }) with
        attempts := attempts
        ledger := ledger
        outbox := insertNew eventID db.outbox
          ⟨mint.eventID, .captured row.orderID row.id ⟨row.amount, row.currency⟩⟩ }) := by
    simp only [settleCapture, run_bind, run_getPaymentForUpdate, found, run_recordAttempt,
      approved, ne_eq, not_true_eq_false, ↓reduceIte, run_updatePaymentState (there _), admitted]
    rw [run_writeLedger (by exact positive) (by exact short)]
    dsimp only
    rw [run_writeLedger (by exact positive) (by exact short)]
    exact ⟨_, _, rfl⟩
  obtain ⟨attempts, ledger, ran⟩ := ran
  rw [inTx_of_ok ran]
  exact ⟨rfl, rfl, (List.append_nil _).symm⟩

theorem voidFinish_approved (orderID pspKey : ID) (found : db.payment paymentID = some row)
    (admits : row.admissible = true) (approved : result.outcome = .approved) :
    Entered db ((voidFinish mint orderID paymentID pspKey result).inTx db)
      (row.withState .voided {}) ⟨mint.eventID, .voided orderID paymentID false⟩ [] := by
  apply Entered.of_attempt
    { paymentID := row.id, operation := .void, pspKey := pspKey, outcome := .success,
      providerRef := result.providerRef }
    found (row.admissible_withState admits _ rfl)
  simp only [voidFinish, run_bind, run_getPaymentForUpdate, found, run_recordAttempt,
    approved, outcomeLabel, ne_eq, not_true_eq_false, ↓reduceIte]

end

section

variable {key : CallbackKey} {db : Database} {row : Payment} {mint : Mint} {cb : Callback}
  {paymentID : ID}

theorem run_handleCallback (fresh : key cb.providerRef cb.kind ∉ db.processed)
    (found : db.payment paymentID = some row) :
    (handleCallback key mint cb paymentID).run db =
      (cb.apply mint row).run (db.claim [key cb.providerRef cb.kind]) := by
  unfold handleCallback
  rw [run_bind, run_claimEvent]
  simp only [List.contains_eq_mem, fresh, decide_false, Bool.not_false, Bool.false_eq_true,
    ↓reduceIte, run_bind, run_getPaymentForUpdate, payment_claim, found, orNotFound]

theorem handleCallback_again (known : key cb.providerRef cb.kind ∈ db.processed) :
    (handleCallback key mint cb paymentID).inTx db = db := by
  have ran : (handleCallback key mint cb paymentID).run db = (.ok (), db) := by
    unfold handleCallback
    rw [run_bind, run_claimEvent]
    simp only [List.contains_eq_mem, known, decide_true, Bool.not_true, Bool.false_eq_true,
      ↓reduceIte, run_pure]
  exact inTx_of_ok ran

theorem handleCallback_silent (fresh : key cb.providerRef cb.kind ∉ db.processed)
    (found : db.payment paymentID = some row) (silent : cb.apply mint row = pure ()) :
    (handleCallback key mint cb paymentID).inTx db = db.claim [key cb.providerRef cb.kind] := by
  apply @inTx_of_ok _ _ _ _ _ _ ()
  rw [run_handleCallback fresh found, silent, run_pure]

theorem handleCallback_refused (fresh : key cb.providerRef cb.kind ∉ db.processed)
    (found : db.payment paymentID = some row) {e : Err} (refused : cb.apply mint row = .fail e) :
    (handleCallback key mint cb paymentID).inTx db = db := by
  apply @inTx_of_error _ _ _ _ _ (db.claim [key cb.providerRef cb.kind]) e
  rw [run_handleCallback fresh found, refused, run_fail]

theorem handleCallback_enters {next : State} {fields : StateFields} {event : Event}
    (fresh : key cb.providerRef cb.kind ∉ db.processed) (found : db.payment paymentID = some row)
    (admitted : (row.withState next fields).admissible = true)
    (enters : cb.apply mint row = updatePaymentState row next fields >>= fun _ => emit mint event) :
    Entered db ((handleCallback key mint cb paymentID).inTx db) (row.withState next fields)
      ⟨mint.eventID, event⟩ [key cb.providerRef cb.kind] := by
  apply Entered.of_run (payment_of_find found) admitted rfl
  rw [run_handleCallback fresh found, enters]

/-- The `CHECK`s admit a capture of an amount. -/
def Payment.covers (row : Payment) (captured : Int) : Prop :=
  0 < captured ∧ row.refundedAmount ≤ captured ∧ captured ≤ row.amount

instance (row : Payment) (captured : Int) : Decidable (row.covers captured) :=
  inferInstanceAs (Decidable (_ ∧ _ ∧ _))

theorem Payment.admissible_covers (admits : row.admissible = true) {captured : Int}
    {fields : StateFields} (amount : fields.capturedAmount = some captured) :
    row.covers captured ↔ 0 < captured ∧ (row.withState .captured fields).admissible = true := by
  simp only [admissible, and_eq_true, decide_eq_true_eq] at admits
  simp only [covers, admissible, withState, amount, Option.getD_some,
    and_eq_true, decide_eq_true_eq]
  grind

theorem handleCallback_captured (kind : cb.kind = .captured)
    (fresh : key cb.providerRef cb.kind ∉ db.processed) (found : db.payment paymentID = some row)
    (admits : row.admissible = true) (covers : row.covers cb.amount.amount) :
    Entered db ((handleCallback key mint cb paymentID).inTx db) (row.withState .captured
        { providerCaptureID := cb.providerRef, capturedAmount := some cb.amount.amount })
      ⟨mint.eventID, .captured row.orderID row.id ⟨cb.amount.amount, row.currency⟩⟩
      [key cb.providerRef cb.kind] := by
  have short := (positive_of_admissible admits).2
  obtain ⟨positive, admitted⟩ : 0 < cb.amount.amount ∧ (row.withState .captured
      { providerCaptureID := cb.providerRef,
        capturedAmount := some cb.amount.amount }).admissible = true :=
    (row.admissible_covers admits rfl).mp covers
  have there : (db.claim [key cb.providerRef cb.kind]).payment row.id = some row :=
    payment_of_find found
  have ran : ∃ ledger, (handleCallback key mint cb paymentID).run db =
      (.ok (), { (db.claim [key cb.providerRef cb.kind]).putPayment (row.withState .captured
          { providerCaptureID := cb.providerRef, capturedAmount := some cb.amount.amount }) with
        ledger := ledger
        outbox := insertNew eventID db.outbox
          ⟨mint.eventID, .captured row.orderID row.id ⟨cb.amount.amount, row.currency⟩⟩ }) := by
    rw [run_handleCallback fresh found]
    simp only [apply, kind, run_bind, writeCapture]
    rw [kind] at there
    rw [run_updatePaymentState there, if_pos admitted]
    dsimp only
    rw [run_writeLedger (by exact positive) (by exact short)]
    dsimp only
    rw [run_writeLedger (by exact positive) (by exact short)]
    exact ⟨_, rfl⟩
  obtain ⟨ledger, ran⟩ := ran
  rw [inTx_of_ok ran]
  exact ⟨rfl, rfl, rfl⟩

theorem handleCallback_uncovered (kind : cb.kind = .captured)
    (fresh : key cb.providerRef cb.kind ∉ db.processed) (found : db.payment paymentID = some row)
    (admits : row.admissible = true) (uncovered : ¬row.covers cb.amount.amount) :
    (handleCallback key mint cb paymentID).inTx db = db := by
  rcases inTx_cases (handleCallback key mint cb paymentID) db with same | ⟨_, handles⟩
  · exact same
  · have there : (db.claim [key cb.providerRef .captured]).payment row.id = some row :=
      payment_of_find found
    rw [run_handleCallback fresh found] at handles
    simp only [apply, kind] at handles
    obtain ⟨_, _, updates, handles⟩ := run_bind_ok.mp handles
    have admitted := updatePaymentState_admitted there updates
    obtain ⟨_, _, books, -⟩ := run_bind_ok.mp handles
    exact absurd ((row.admissible_covers admits rfl).mpr ⟨(writeCapture_ok books).1, admitted⟩)
      uncovered

def Payment.Known (row : Payment) : Prop := row.state = .authorized ∨ row.state = .captured

instance (row : Payment) : Decidable row.Known := inferInstanceAs (Decidable (_ ∨ _))

/-- Why a callback changes nothing. -/
inductive Callback.Ignored (cb : Callback) (row : Payment) : Prop where
  | unsuccessful (kind : cb.kind = .authorized) (success : cb.success = false)
  | known (kind : cb.kind = .authorized) (known : row.Known)
  | late (kind : cb.kind = .failed) (known : row.Known)
  | refunded (kind : cb.kind = .refunded)

/-- Why a callback is an error. -/
inductive Callback.Refused (cb : Callback) (row : Payment) : Prop where
  | mismatch (kind : cb.kind = .authorized) (success : cb.success = true) (unknown : ¬row.Known)
      (differs : cb.amount.amount ≠ row.amount)
  | uncovered (kind : cb.kind = .captured) (uncovered : ¬row.covers cb.amount.amount)

/-- The state a callback enters, and what it announces. -/
inductive Callback.Enters (cb : Callback) (old : Payment) : Payment → Event → Prop where
  | authorized (kind : cb.kind = .authorized) (success : cb.success = true) (unknown : ¬old.Known)
      (agrees : cb.amount.amount = old.amount) :
      Enters cb old (old.withState .authorized { providerAuthID := cb.providerRef })
        (.authorized old.orderID old.id ⟨old.amount, old.currency⟩)
  | captured (kind : cb.kind = .captured) (covers : old.covers cb.amount.amount) :
      Enters cb old (old.withState .captured
          { providerCaptureID := cb.providerRef, capturedAmount := some cb.amount.amount })
        (.captured old.orderID old.id ⟨cb.amount.amount, old.currency⟩)
  | failed (kind : cb.kind = .failed) (unknown : ¬old.Known) :
      Enters cb old (old.withState .failed
          { declineCode := cb.declineCode, reasonCode := cb.reasonCode,
            retriable := some (cb.reasonCode.any retriable) })
        (.failed old.orderID old.id cb.reasonCode (cb.reasonCode.any retriable))
  | voided (kind : cb.kind = .voided) :
      Enters cb old (old.withState .voided {}) (.voided old.orderID old.id false)

/-- **The callback.** A new callback is claimed and ignored, or refused, or changes its payment. -/
theorem handleCallback_cases (mint : Mint) (fresh : key cb.providerRef cb.kind ∉ db.processed)
    (found : db.payment paymentID = some row) (admits : row.admissible = true) :
    cb.Ignored row ∧
        (handleCallback key mint cb paymentID).inTx db = db.claim [key cb.providerRef cb.kind] ∨
      cb.Refused row ∧ (handleCallback key mint cb paymentID).inTx db = db ∨
      ∃ after event, cb.Enters row after event ∧
        Entered db ((handleCallback key mint cb paymentID).inTx db) after ⟨mint.eventID, event⟩
          [key cb.providerRef cb.kind] := by
  cases kind : cb.kind with
  | authorized =>
    rw [← kind]
    cases success : cb.success with
    | false =>
      apply Or.inl
      constructor
      · exact .unsuccessful kind success
      · apply handleCallback_silent fresh found
        simp only [apply, kind, success, ↓reduceIte]
    | true =>
      by_cases known : row.Known
      · apply Or.inl
        constructor
        · exact .known kind known
        · apply handleCallback_silent fresh found
          unfold Payment.Known at known
          simp only [apply, kind, success, known, true_eq_false, ↓reduceIte]
      · have unknown := known
        unfold Payment.Known at unknown
        by_cases agrees : cb.amount.amount = row.amount
        · apply Or.inr
          apply Or.inr
          apply Exists.intro _
          apply Exists.intro _
          constructor
          · exact .authorized kind success known agrees
          · apply handleCallback_enters fresh found (row.admissible_withState admits _ rfl)
            simp only [apply, kind, success, unknown, agrees, true_eq_false,
              ne_eq, not_true_eq_false, ↓reduceIte]
        · apply Or.inr
          apply Or.inl
          constructor
          · exact .mismatch kind success known agrees
          · apply @handleCallback_refused _ _ _ _ _ _ fresh found .amountMismatch
            simp only [apply, kind, success, unknown, agrees, true_eq_false,
              ne_eq, not_false_eq_true, ↓reduceIte]
  | captured =>
    rw [← kind]
    by_cases covers : row.covers cb.amount.amount
    · exact .inr (.inr ⟨_, _, .captured kind covers,
        handleCallback_captured kind fresh found admits covers⟩)
    · exact .inr (.inl ⟨.uncovered kind covers,
        handleCallback_uncovered kind fresh found admits covers⟩)
  | failed =>
    rw [← kind]
    by_cases known : row.Known
    · apply Or.inl
      constructor
      · exact .late kind known
      · apply handleCallback_silent fresh found
        simp only [apply, kind, known.symm, ↓reduceIte]
    · have unknown : ¬(row.state = .captured ∨ row.state = .authorized) := fun either =>
        known either.symm
      apply Or.inr
      apply Or.inr
      apply Exists.intro _
      apply Exists.intro _
      constructor
      · exact .failed kind known
      · apply handleCallback_enters fresh found (row.admissible_withState admits _ rfl)
        simp only [apply, kind, unknown, ↓reduceIte]
  | voided =>
    rw [← kind]
    apply Or.inr
    apply Or.inr
    apply Exists.intro _
    apply Exists.intro _
    constructor
    · exact .voided kind
    · apply handleCallback_enters fresh found (row.admissible_withState admits _ rfl)
      simp only [apply, kind]
  | refunded =>
    rw [← kind]
    apply Or.inl
    constructor
    · exact .refunded kind
    · apply handleCallback_silent fresh found
      simp only [apply, kind]

end

end Souq.Payments
