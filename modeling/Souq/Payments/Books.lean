import Mathlib
import Souq.Payments.Absorbing

/-!
# The ledger and the captured money

A capture writes the state, the captured amount and a balanced pair of ledger entries in
one transaction. Two paths do that: the second transaction of `Capture` and the callback
for a capture. Each books the whole movement, and the callback's key in the inbox is
its own, so one capture that is reported by both is booked twice. `booksTwice` is
that step; without it the ledger of every payment is its captured amount.
-/

namespace Souq.Payments

open Transact Transition Program List Database Service

def Database.captured (db : Database) (paymentID : ID) : Int :=
  (db.payment paymentID).elim 0 Payment.capturedAmount

/-- What is booked for a payment on one side of an account. -/
def Database.booked (db : Database) (account : Account) (direction : Direction)
    (paymentID : ID) : Int :=
  ((db.ledger.filter fun entry => decide (entry.paymentID = paymentID ∧
    entry.account = account ∧ entry.direction = direction)).map LedgerEntry.amount).sum

/-- Nothing was captured or booked. -/
structure Unbooked (db after : Database) : Prop where
  ledger : after.ledger = db.ledger
  captured : ∀ paymentID, after.captured paymentID = db.captured paymentID
  settled : ∀ paymentID, after.holds paymentID .captured = true →
    db.holds paymentID .captured = true

namespace Unbooked

theorem refl (db : Database) : Unbooked db db := ⟨rfl, fun _ => rfl, fun _ held => held⟩

theorem trans {first second third : Database} (one : Unbooked first second)
    (two : Unbooked second third) : Unbooked first third :=
  ⟨two.ledger.trans one.ledger, fun p => (two.captured p).trans (one.captured p),
    fun p held => one.settled p (two.settled p held)⟩

theorem of_same {db after : Database} (payments : after.payments = db.payments)
    (ledger : after.ledger = db.ledger) : Unbooked db after := by
  refine ⟨ledger, fun p => ?_, fun p held => ?_⟩
  · simp only [Database.captured, Database.payment, payments]
  · simpa only [Database.holds, Database.payment, payments] using held

theorem of_put {db : Database} {row : Payment}
    (same : row.capturedAmount = db.captured row.id) (uncaptured : row.state ≠ .captured) :
    Unbooked db (db.putPayment row) := by
  have found : ∀ p, (db.putPayment row).payment p =
      if row.id = p then some row else db.payment p := Table.find_upsert row db.payments
  refine ⟨rfl, fun p => ?_, fun p held => ?_⟩
  · unfold Database.captured
    rw [found]
    split
    · rename_i named
      rw [← named]
      exact same
    · rfl
  · obtain ⟨other, there, state⟩ := holds_iff.mp held
    rw [found] at there
    split at there
    · cases there
      exact absurd state uncaptured
    · exact holds_iff.mpr ⟨other, there, state⟩

end Unbooked

abbrev Quiet {α : Type} (p : Tx α) : Prop := p.Respects Unbooked

namespace Quiet

variable {α β : Type}

theorem pure (a : α) : Quiet (pure a : Tx α) := Program.Respects.pure Unbooked.refl a

theorem fail (err : Err) : Quiet (.fail err : Tx α) := Program.Respects.fail Unbooked.refl err

theorem bind {p : Tx α} {f : α → Tx β} (first : Quiet p) (second : ∀ a, Quiet (f a)) :
    Quiet (p >>= f) := by
  refine Program.Respects.bind ?_ first second
  exact fun _ _ _ one two => one.trans two

theorem claimEvent (eventID : ID) : Quiet (claimEvent eventID) := by
  intro db
  rw [run_claimEvent]
  split
  · exact Unbooked.refl db
  · exact Unbooked.of_same rfl rfl

theorem getPaymentForUpdate (paymentID : ID) : Quiet (getPaymentForUpdate paymentID) :=
  Unbooked.refl

theorem emit (mint : Mint) (event : Event) : Quiet (emit mint event) :=
  fun _ => Unbooked.of_same rfl rfl

theorem recordAttempt (attempt : Attempt) : Quiet (recordAttempt attempt) :=
  fun _ => Unbooked.of_same rfl rfl

theorem insertPayment {row : Payment} (nothing : row.capturedAmount = 0)
    (uncaptured : row.state ≠ .captured) : Quiet (insertPayment row) := by
  refine bind (fun db => ?_) fun answer => ?_
  · change Unbooked db
      (dialect.replay (if db.inserting row = .inserted then [.payment row] else []) db)
    split
    · rename_i inserted
      refine Unbooked.of_put ?_ uncaptured
      have absent : db.payment row.id = none := by
        unfold inserting at inserted
        split at inserted
        · cases inserted
        · rename_i free
          simp only [Bool.or_eq_true, not_or, Bool.not_eq_true, Option.isSome_eq_false_iff,
            Option.isNone_iff_eq_none] at free
          exact free.1.1
      rw [nothing, captured, absent]
      rfl
    · exact Unbooked.refl db
  · cases answer
    · exact pure ()
    · exact fail _
    · exact fail _

theorem updatePaymentState (row : Payment) {next : State} {fields : StateFields}
    (uncaptured : next ≠ .captured) (nothing : fields.capturedAmount = none) :
    Quiet (updatePaymentState row next fields) := by
  refine bind (fun db => ?_) fun answer => ?_
  · change Unbooked db (dialect.replay
      (Stmt.writes (.updatePaymentState row.id row.version next fields) db) db)
    cases matched : db.matching row.id row.version with
    | none =>
      simp only [Stmt.writes, matched]
      exact Unbooked.refl db
    | some found =>
      simp only [Stmt.writes, matched]
      split
      · refine Unbooked.of_put ?_ uncaptured
        have there : db.payment row.id = some found := (Option.filter_eq_some_iff.mp matched).1
        have named : found.id = row.id := Table.key_of_find there
        simp only [Payment.withState, nothing, Option.getD_none, captured, named, there]
        rfl
      · exact Unbooked.refl db
  · cases answer
    · exact pure ()
    · exact fail _
    · exact fail _

theorem emitForState (mint : Mint) (row : Payment) : Quiet (emitForState mint row) := by
  unfold Payments.emitForState
  split
  · exact emit mint _
  · exact pure ()

theorem claimed {eventID : ID} {body : Tx α} {otherwise : α} (quiet : Quiet body) :
    Quiet (Payments.claimEvent eventID >>= fun fresh =>
      if fresh = true then body else Pure.pure otherwise) := by
  refine bind (claimEvent eventID) fun fresh => ?_
  cases fresh
  · exact pure otherwise
  · exact quiet

theorem authorizeStart (cfg : Config) (mint : Mint) (eventID : ID) (cmd : AuthorizeCommand) :
    Quiet (authorizeStart cfg mint eventID cmd) := by
  refine claimed (bind (getPaymentForUpdate cmd.paymentID) fun found => ?_)
  cases found with
  | none =>
    refine bind (insertPayment rfl (show State.pending ≠ .captured by decide)) fun _ => ?_
    exact bind (updatePaymentState _ (by decide) rfl) fun _ => pure true
  | some existing =>
    simp only
    split
    · exact bind (emitForState mint existing) fun _ => pure false
    · exact bind (updatePaymentState existing (by decide) rfl) fun _ => pure true

theorem authorizeFinish (cfg : Config) (mint : Mint) (cmd : AuthorizeCommand) (result : Result) :
    Quiet (authorizeFinish cfg mint cmd result) := by
  refine bind (getPaymentForUpdate cmd.paymentID) fun found => ?_
  cases found with
  | none => exact fail _
  | some cur =>
    refine bind (recordAttempt _) fun _ => ?_
    cases result.outcome with
    | approved => exact bind (updatePaymentState cur (by decide) rfl) fun _ => emit mint _
    | pending | unknown => exact pure ()
    | declined => exact bind (updatePaymentState cur (by decide) rfl) fun _ => emit mint _

theorem captureStart (mint : Mint) (eventID paymentID : ID) :
    Quiet (captureStart mint eventID paymentID) := by
  refine claimed (bind (getPaymentForUpdate paymentID) fun found => ?_)
  cases found with
  | none => exact fail _
  | some pmt =>
    simp only
    split
    · exact bind (emit mint _) fun _ => pure none
    · split
      · exact fail _
      · exact bind (updatePaymentState pmt (by decide) rfl) fun _ => pure (some pmt)

theorem voidStart (cfg : Config) (mint : Mint) (eventID orderID paymentID idempotencyKey : ID) :
    Quiet (voidStart cfg mint eventID orderID paymentID idempotencyKey) := by
  refine claimed (bind (getPaymentForUpdate paymentID) fun found => ?_)
  cases found with
  | none =>
    refine bind (insertPayment rfl (show State.voided ≠ .captured by decide)) fun _ => ?_
    exact bind (emit mint _) fun _ => pure false
  | some pmt =>
    simp only
    split
    · exact bind (emit mint _) fun _ => pure false
    · exact bind (emit mint _) fun _ => pure false
    · exact fail _
    · exact pure true

theorem voidFinish (mint : Mint) (orderID paymentID pspKey : ID) (result : Result) :
    Quiet (voidFinish mint orderID paymentID pspKey result) := by
  refine bind (getPaymentForUpdate paymentID) fun found => ?_
  cases found with
  | none => exact fail _
  | some cur =>
    refine bind (recordAttempt _) fun _ => ?_
    split
    · exact pure ()
    · exact bind (updatePaymentState cur (by decide) rfl) fun _ => emit mint _

theorem handleCallback {cb : Callback} (other : cb.kind ≠ .captured) (key : CallbackKey)
    (mint : Mint) (paymentID : ID) : Quiet (handleCallback key mint cb paymentID) := by
  refine claimed (bind (getPaymentForUpdate paymentID) fun found => ?_)
  cases found with
  | none => exact fail _
  | some cur =>
    unfold orNotFound Callback.apply
    cases kind : cb.kind with
    | authorized =>
      simp only
      split
      · exact pure ()
      · split
        · exact pure ()
        · split
          · exact fail _
          · exact bind (updatePaymentState cur (by decide) rfl) fun _ => emit mint _
    | captured => exact absurd kind other
    | failed =>
      simp only
      split
      · exact pure ()
      · exact bind (updatePaymentState cur (by decide) rfl) fun _ => emit mint _
    | voided => exact bind (updatePaymentState cur (by decide) rfl) fun _ => emit mint _
    | refunded => exact pure ()

end Quiet

theorem Command.start_eq_inTx (cfg : Config) (mint : Mint) (eventID : ID) (command : Command)
    (db : Database) :
    (command.start cfg mint eventID db).1 = (command.firstTx cfg mint eventID).void.inTx db := by
  rw [inTx_void]
  unfold Command.start inTx
  split <;> rename_i ran <;> simp only [ran]

theorem Quiet.firstTx (cfg : Config) (mint : Mint) (eventID : ID) (command : Command) :
    Quiet (command.firstTx cfg mint eventID).void := by
  refine Quiet.bind ?_ fun _ => Quiet.pure ()
  cases command with
  | authorize cmd => exact bind (authorizeStart cfg mint eventID cmd) fun _ => pure _
  | capture orderID paymentID idempotencyKey =>
    exact bind (captureStart mint eventID paymentID) fun _ => pure _
  | void orderID paymentID idempotencyKey =>
    exact bind (voidStart cfg mint eventID orderID paymentID idempotencyKey) fun _ => pure _

/-- The amount was captured and booked. -/
structure Booked (db after : Database) (old : Payment) (amount : Int) : Prop where
  found : db.payment old.id = some old
  positive : 0 < amount
  payments : ∃ fields : StateFields, fields.capturedAmount = some amount ∧
    after.payments = Table.upsert Payment.id (old.withState .captured fields) db.payments
  ledger : ∃ mint, after.ledger = db.ledger ++ captureEntries mint old amount

/-- The second transaction of `Capture` books nothing, or the whole amount of an
approved capture. -/
theorem settleCapture_books (mint : Mint) (paymentID pspKey : ID) (result : Result)
    (db : Database) :
    Unbooked db ((settleCapture mint paymentID pspKey result).inTx db) ∨
      result.outcome = .approved ∧ ∃ old, old.id = paymentID ∧
        Booked db ((settleCapture mint paymentID pspKey result).inTx db) old old.amount := by
  rcases inTx_cases (settleCapture mint paymentID pspKey result) db with
    stays | ⟨_, settles⟩
  · exact .inl (by rw [stays]; exact Unbooked.refl db)
  · generalize (settleCapture mint paymentID pspKey result).inTx db = after at settles ⊢
    simp only [settleCapture, run_bind, run_getPaymentForUpdate] at settles
    cases found : db.payment paymentID with
    | none =>
      simp only [found] at settles
      cases settles
    | some old =>
      simp only [found, run_bind, run_recordAttempt] at settles
      split at settles
      case isTrue =>
        cases settles
        exact .inl (Unbooked.of_same rfl rfl)
      case isFalse approved =>
        obtain ⟨_, updated, updates, settles⟩ := run_bind_ok.mp settles
        obtain rfl := updatePaymentState_ok (by exact payment_of_find found) updates
        obtain ⟨_, debited, debits, settles⟩ := run_bind_ok.mp settles
        obtain ⟨_, credited, credits, emits⟩ := run_bind_ok.mp settles
        have booked : (writeCapture mint old old.amount).run _ = (.ok (), credited) :=
          run_bind_ok.mpr ⟨_, debited, debits, credits⟩
        obtain ⟨positive, rfl⟩ := writeCapture_ok booked
        cases emits
        exact .inr ⟨not_not.mp approved, old, Table.key_of_find found,
          payment_of_find found, positive, ⟨_, rfl, rfl⟩, mint, rfl⟩

theorem handleCallback_books {cb : Callback} (kind : cb.kind = .captured) (key : CallbackKey)
    (mint : Mint) (paymentID : ID) (db : Database) :
    Unbooked db ((handleCallback key mint cb paymentID).inTx db) ∨
      key cb.providerRef cb.kind ∉ db.processed ∧ ∃ old, old.id = paymentID ∧
        cb.amount.amount ≤ old.amount ∧
        Booked db ((handleCallback key mint cb paymentID).inTx db) old cb.amount.amount := by
  rcases inTx_cases (handleCallback key mint cb paymentID) db with stays | ⟨_, handles⟩
  · exact .inl (by rw [stays]; exact Unbooked.refl db)
  · generalize (handleCallback key mint cb paymentID).inTx db = after at handles ⊢
    rcases claim_ok handles with ⟨rfl, -⟩ | ⟨fresh, handles⟩
    · exact .inl (Unbooked.refl after)
    · rw [run_bind, run_getPaymentForUpdate, payment_claim] at handles
      cases found : db.payment paymentID with
      | none =>
        simp only [found, orNotFound] at handles
        cases handles
      | some old =>
        simp only [found, orNotFound, Callback.apply, kind] at handles
        have there : (db.claim [key cb.providerRef .captured]).payment old.id = some old :=
          payment_of_find found
        rw [kind] at fresh
        obtain ⟨_, updated, updates, handles⟩ := run_bind_ok.mp handles
        have admitted := updatePaymentState_admitted there updates
        obtain rfl := updatePaymentState_ok there updates
        obtain ⟨_, booked, books, emits⟩ := run_bind_ok.mp handles
        obtain ⟨positive, rfl⟩ := writeCapture_ok books
        cases emits
        simp only [Payment.admissible, Payment.withState, Option.getD_some,
          Bool.and_eq_true] at admitted
        exact .inr ⟨by rwa [kind], old, Table.key_of_find found,
          of_decide_eq_true admitted.1.1.1.2, payment_of_find found, positive, ⟨_, rfl, rfl⟩,
          mint, rfl⟩

variable {ι : Type} {cfg : Config} {key : CallbackKey} {s : Service ι} {turn : Turn ι}

/-- A step books a capture of a payment that has captured money already: a capture that
was under way goes through, or a new callback reports a capture the `CHECK`s admit. -/
def Service.booksTwice (cfg : Config) (key : CallbackKey) (s : Service ι) : Turn ι → Bool
  | .answer i result _ =>
    match s.work i with
    | some (.call (.capture _ paymentID _ _)) =>
      (!cfg.supportsCapture none || result.outcome == .approved) &&
        decide (s.db.captured paymentID ≠ 0)
    | _ => false
  | .apply i _ =>
    match s.work i with
    | some (.callback cb paymentID) =>
      cb.kind == .captured && !s.db.processed.contains (key cb.providerRef cb.kind) &&
        decide (0 < cb.amount.amount) &&
        (s.db.payment paymentID).any (fun row => decide (cb.amount.amount ≤ row.amount)) &&
        decide (s.db.captured paymentID ≠ 0)
    | _ => false
  | _ => false

theorem Service.step_books [DecidableEq ι] (once : s.booksTwice cfg key turn = false) :
    Unbooked s.db (s.step cfg key turn).db ∨ ∃ old amount, s.db.captured old.id = 0 ∧
      Booked s.db (s.step cfg key turn).db old amount := by
  have quiet : ∀ {α : Type} {p : Tx α}, Quiet p → Unbooked s.db (p.inTx s.db) := fun respects =>
    Program.Respects.inTx Unbooked.refl respects s.db
  cases turn with
  | start i eventID command mint =>
    refine .inl ?_
    cases busy : s.work i with
    | some work => simpa only [step, busy] using Unbooked.refl s.db
    | none =>
      simp only [step, busy]
      rw [command.start_eq_inTx]
      exact quiet (Quiet.firstTx cfg mint eventID command)
  | answer i result mint =>
    rcases waits : s.work i with _ | ⟨call⟩ | ⟨cb, paymentID⟩
    · exact .inl (by simpa only [step, waits] using Unbooked.refl s.db)
    · simp only [step, waits]
      cases call with
      | authorize cmd => exact .inl (quiet (Quiet.authorizeFinish cfg mint cmd result))
      | capture orderID paymentID pspKey providerAuthID =>
        rcases settleCapture_books mint paymentID pspKey _ s.db with
          books | ⟨approved, old, named, books⟩
        · exact .inl books
        · refine .inr ⟨old, old.amount, ?_, books⟩
          by_contra again
          rw [named] at again
          simp only [booksTwice, waits, again, not_false_eq_true, decide_true, Bool.and_true,
            Bool.or_eq_false_iff, Bool.not_eq_false', beq_eq_false_iff_ne, ne_eq] at once
          rw [if_pos once.1] at approved
          exact once.2 approved
      | void orderID paymentID pspKey =>
        exact .inl (quiet (Quiet.voidFinish mint orderID paymentID pspKey result))
    · exact .inl (by simpa only [step, waits] using Unbooked.refl s.db)
  | receive i cb =>
    refine .inl ?_
    cases busy : s.work i <;> simpa only [step, busy] using Unbooked.refl s.db
  | apply i mint =>
    rcases waits : s.work i with _ | ⟨call⟩ | ⟨cb, paymentID⟩
    · exact .inl (by simpa only [step, waits] using Unbooked.refl s.db)
    · exact .inl (by simpa only [step, waits] using Unbooked.refl s.db)
    · simp only [step, waits]
      by_cases kind : cb.kind = .captured
      · rcases handleCallback_books kind key mint paymentID s.db with
          books | ⟨fresh, old, named, within, books⟩
        · exact .inl books
        · refine .inr ⟨old, _, ?_, books⟩
          by_contra again
          have found := books.found
          rw [named] at again found
          rw [kind] at fresh
          simp [booksTwice, waits, kind, fresh, books.positive, found, within, again] at once
      · exact .inl (quiet (Quiet.handleCallback kind key mint paymentID))
  | crash i => exact .inl (Unbooked.refl s.db)

/-- Every row meets the `CHECK`s. -/
def Database.Admitted (db : Database) : Prop := ∀ row ∈ db.payments, row.admissible = true

theorem admitted_stmt (q : Stmt) (db : Database) (before : db.Admitted) :
    Database.Admitted (dialect.replay (q.writes db) db) := by
  have put : ∀ {row : Payment}, row.admissible = true → (db.putPayment row).Admitted := by
    intro row admits other member
    rcases Table.mem_upsert member with rfl | member
    · exact admits
    · exact before other member
  cases q with
  | claimEvent eventID =>
    simp only [Stmt.writes]
    split <;> exact before
  | getPaymentForUpdate paymentID => exact before
  | insertPayment row =>
    simp only [Stmt.writes]
    split
    · rename_i inserted
      refine put ?_
      unfold inserting at inserted
      split at inserted
      · cases inserted
      · split at inserted
        · assumption
        · cases inserted
    · exact before
  | updatePaymentState paymentID expectVersion next fields =>
    cases matched : db.matching paymentID expectVersion with
    | none =>
      simp only [Stmt.writes, matched]
      exact before
    | some row =>
      simp only [Stmt.writes, matched]
      split
      · exact put (by assumption)
      · exact before
  | recordAttempt attempt => exact before
  | writeLedger entry =>
    simp only [Stmt.writes]
    split <;> exact before
  | enqueue record => exact before

theorem admitted_inTx {α : Type} (p : Tx α) {db : Database} (admits : db.Admitted) :
    Database.Admitted (p.inTx db) := by
  have respects : p.Respects fun db after => Database.Admitted db → Database.Admitted after :=
    Program.Respects.of_stmts (fun _ before => before)
      (fun _ _ _ one two before => two (one before)) admitted_stmt p
  exact respects.inTx (fun _ before => before) db admits

theorem Service.step_inTx [DecidableEq ι] (cfg : Config) (key : CallbackKey) (s : Service ι)
    (turn : Turn ι) : ∃ p : Tx Unit, (s.step cfg key turn).db = p.inTx s.db := by
  cases turn with
  | start i eventID command mint =>
    cases busy : s.work i with
    | some work => exact ⟨pure (), by simp only [step, busy]; rfl⟩
    | none =>
      simp only [step, busy]
      exact ⟨_, command.start_eq_inTx cfg mint eventID s.db⟩
  | answer i result mint =>
    rcases waits : s.work i with _ | ⟨call⟩ | ⟨cb, paymentID⟩
    · exact ⟨pure (), by simp only [step, waits]; rfl⟩
    · simp only [step, waits]
      exact ⟨_, call.finish_eq_settle cfg mint result s.db⟩
    · exact ⟨pure (), by simp only [step, waits]; rfl⟩
  | receive i cb =>
    refine ⟨pure (), ?_⟩
    cases busy : s.work i <;> simp only [step, busy] <;> rfl
  | apply i mint =>
    rcases waits : s.work i with _ | ⟨call⟩ | ⟨cb, paymentID⟩
    · exact ⟨pure (), by simp only [step, waits]; rfl⟩
    · exact ⟨pure (), by simp only [step, waits]; rfl⟩
    · simp only [step, waits]
      exact ⟨_, rfl⟩
  | crash i => exact ⟨pure (), rfl⟩

theorem Service.step_admitted [DecidableEq ι] (admits : s.db.Admitted) :
    (s.step cfg key turn).db.Admitted := by
  obtain ⟨p, ran⟩ := s.step_inTx cfg key turn
  rw [ran]
  exact admitted_inTx p admits

/-- The books of the tables: both sides of every payment are its captured amount, which
is there as soon as the payment is captured. -/
structure Database.Balanced (db : Database) : Prop where
  debits : ∀ p, db.booked .pspClearing .debit p = db.captured p
  credits : ∀ p, db.booked .revenue .credit p = db.captured p
  settled : ∀ p, db.holds p .captured = true → db.captured p ≠ 0

section Balanced

variable {db after : Database}

theorem Unbooked.booked (books : Unbooked db after) (account : Account) (direction : Direction)
    (p : ID) : after.booked account direction p = db.booked account direction p := by
  unfold Database.booked
  rw [books.ledger]

theorem Unbooked.balanced (books : Unbooked db after) (before : db.Balanced) : after.Balanced := by
  refine ⟨fun p => ?_, fun p => ?_, fun p held => ?_⟩
  · rw [books.booked, books.captured, before.debits]
  · rw [books.booked, books.captured, before.credits]
  · rw [books.captured]
    exact before.settled p (books.settled p held)

variable {old : Payment} {amount : Int}

theorem Booked.payment (books : Booked db after old amount) : ∃ row : Payment,
    row.state = .captured ∧ row.capturedAmount = amount ∧
      ∀ p, after.payment p = if old.id = p then some row else db.payment p := by
  obtain ⟨fields, captures, payments⟩ := books.payments
  refine ⟨old.withState .captured fields, rfl, ?_, fun p => ?_⟩
  · simp only [Payment.withState, captures, Option.getD_some]
  · unfold Database.payment
    rw [payments, Table.find_upsert]
    rfl

theorem Booked.captured (books : Booked db after old amount) (p : ID) :
    after.captured p = if old.id = p then amount else db.captured p := by
  obtain ⟨row, -, captures, found⟩ := books.payment
  unfold Database.captured
  rw [found]
  split
  · exact captures
  · rfl

theorem Booked.debits (books : Booked db after old amount) (p : ID) :
    after.booked .pspClearing .debit p =
      db.booked .pspClearing .debit p + if old.id = p then amount else 0 := by
  obtain ⟨mint, ledger⟩ := books.ledger
  unfold booked
  rw [ledger, filter_append, map_append, sum_append]
  by_cases same : old.id = p <;> simp [captureEntries, same]

theorem Booked.credits (books : Booked db after old amount) (p : ID) :
    after.booked .revenue .credit p =
      db.booked .revenue .credit p + if old.id = p then amount else 0 := by
  obtain ⟨mint, ledger⟩ := books.ledger
  unfold booked
  rw [ledger, filter_append, map_append, sum_append]
  by_cases same : old.id = p <;> simp [captureEntries, same]

theorem Booked.holds (books : Booked db after old amount) {p : ID}
    (held : after.holds p .captured = true) : old.id = p ∨ db.holds p .captured = true := by
  obtain ⟨row, -, -, found⟩ := books.payment
  by_cases same : old.id = p
  · exact .inl same
  · unfold Database.holds at held ⊢
    rw [found, if_neg same] at held
    exact .inr held

theorem Booked.balanced (books : Booked db after old amount) (first : db.captured old.id = 0)
    (before : db.Balanced) : after.Balanced := by
  refine ⟨fun p => ?_, fun p => ?_, fun p held => ?_⟩
  · rw [books.debits, books.captured, before.debits]
    by_cases same : old.id = p
    · rw [if_pos same, if_pos same, ← same, first, Int.zero_add]
    · rw [if_neg same, if_neg same, Int.add_zero]
  · rw [books.credits, books.captured, before.credits]
    by_cases same : old.id = p
    · rw [if_pos same, if_pos same, ← same, first, Int.zero_add]
    · rw [if_neg same, if_neg same, Int.add_zero]
  · rw [books.captured]
    split
    · exact Int.ne_of_gt books.positive
    · rename_i other
      exact before.settled p ((books.holds held).resolve_left other)

end Balanced

namespace Service

variable [DecidableEq ι]

theorem captured_ne_zero (once : s.booksTwice cfg key turn = false) (balanced : s.db.Balanced)
    (p : ID) : (s.step cfg key turn).db.captured p ≠ 0 ↔
      s.db.captured p ≠ 0 ∨ (s.step cfg key turn).db.holds p .captured = true := by
  rcases step_books once with books | ⟨old, amount, -, books⟩
  · rw [books.captured]
    refine ⟨.inl, fun either => either.elim id fun held => ?_⟩
    exact balanced.settled p (books.settled p held)
  · obtain ⟨row, state, -, found⟩ := books.payment
    rw [books.captured]
    by_cases same : old.id = p
    · have held : (s.step cfg key turn).db.holds p .captured = true :=
        holds_iff.mpr ⟨row, by rw [found, if_pos same], state⟩
      simp only [same, ↓reduceIte, held, or_true, iff_true]
      exact Int.ne_of_gt books.positive
    · rw [if_neg same]
      refine ⟨.inl, fun either => either.elim id fun held => ?_⟩
      exact balanced.settled p ((books.holds held).resolve_left same)

theorem step_balanced (once : s.booksTwice cfg key turn = false) (balanced : s.db.Balanced) :
    (s.step cfg key turn).db.Balanced := by
  rcases step_books once with books | ⟨old, amount, first, books⟩
  · exact books.balanced balanced
  · exact books.balanced first balanced

/-- Where a run that does not book twice stands. -/
structure Accounted (cfg : Config) (key : CallbackKey) (turns : List (Turn ι)) : Prop where
  balanced : (turns.foldl (step cfg key) {}).db.Balanced
  admitted : (turns.foldl (step cfg key) {}).db.Admitted
  history : ∀ p, (turns.foldl (step cfg key) {}).db.captured p ≠ 0 ↔
    ∃ front, front <+: turns ∧ (front.foldl (step cfg key) {}).db.holds p .captured = true

/-- **Run lemma.** -/
theorem accounted (turns : List (Turn ι))
    (once : System.Permits (step cfg key) (fun s turn => s.booksTwice cfg key turn = false)
      turns {}) : Accounted cfg key turns := by
  induction turns using List.reverseRecOn with
  | nil =>
    refine ⟨⟨fun p => rfl, fun p => rfl, fun p held => ?_⟩, fun row member => ?_, fun p => ?_⟩
    · cases held
    · cases member
    · refine ⟨fun nonzero => absurd rfl nonzero, fun ⟨front, prefix', held⟩ => ?_⟩
      rw [prefix_nil.mp prefix'] at held
      cases held
  | append_singleton turns turn ih =>
    obtain ⟨before, once⟩ := System.permits_concat.mp once
    obtain ⟨balanced, admitted, history⟩ := ih before
    refine ⟨?_, ?_, fun p => ?_⟩
    · rw [foldl_append]
      exact step_balanced once balanced
    · rw [foldl_append]
      exact step_admitted admitted
    · have now : ((turns ++ [turn]).foldl (step cfg key) {}).db.captured p ≠ 0 ↔
          (turns.foldl (step cfg key) {}).db.captured p ≠ 0 ∨
            ((turns ++ [turn]).foldl (step cfg key) {}).db.holds p .captured = true := by
        rw [foldl_append]
        exact captured_ne_zero once balanced p
      rw [now, history]
      constructor
      · rintro (⟨front, earlier, held⟩ | held)
        · exact ⟨front, earlier.trans (prefix_append turns [turn]), held⟩
        · exact ⟨_, prefix_rfl, held⟩
      · rintro ⟨front, earlier, held⟩
        rcases prefix_concat_iff.mp earlier with rfl | earlier
        · exact .inr held
        · exact .inl ⟨front, earlier, held⟩

end Service

/-- **The ledger is the captured money.** In every run that does not book a payment
twice, both sides of the ledger of a payment are its captured amount, which is at most
its amount, and is there exactly when the payment has been captured. -/
theorem ledger_is_captured [DecidableEq ι] (cfg : Config) (key : CallbackKey)
    (turns : List (Turn ι))
    (once : System.Permits (step cfg key) (fun s turn => s.booksTwice cfg key turn = false)
      turns {}) (paymentID : ID) (row : Payment)
    (found : (turns.foldl (step cfg key) {}).db.payment paymentID = some row) :
    (turns.foldl (step cfg key) {}).db.booked .pspClearing .debit paymentID = row.capturedAmount ∧
      (turns.foldl (step cfg key) {}).db.booked .revenue .credit paymentID = row.capturedAmount ∧
      row.capturedAmount ≤ row.amount ∧
      (row.capturedAmount ≠ 0 ↔ ∃ front, front <+: turns ∧
        (front.foldl (step cfg key) {}).db.holds paymentID .captured = true) := by
  obtain ⟨balanced, admitted, history⟩ := accounted turns once
  have captured : (turns.foldl (step cfg key) {}).db.captured paymentID = row.capturedAmount := by
    unfold captured
    rw [found]
    rfl
  have admits := admitted row (Table.mem_of_find found)
  simp only [Payment.admissible, Bool.and_eq_true] at admits
  rw [← captured]
  exact ⟨balanced.debits paymentID, balanced.credits paymentID,
    captured ▸ of_decide_eq_true admits.1.1.1.2, history paymentID⟩

/-- A payment of 500 is authorized, and its capture waits for the provider. -/
def capturePending : List (Turn Nat) :=
  [.start 0 501 (.authorize authorizeOrder) ⟨601, 701⟩,
    .answer 0 { outcome := .approved } ⟨602, 702⟩,
    .start 0 503 (.capture 20 30 7) ⟨603, 703⟩]

def captureCallback : Callback where
  verified := true
  kind := .captured
  providerRef := some 80
  orderID := 200
  amount := ⟨500, "EGP"⟩
  success := true

def captureReported : List (Turn Nat) :=
  capturePending ++ [.receive 1 captureCallback, .apply 1 ⟨604, 704⟩]

/-- A capture that only the callback reports is booked once. -/
theorem booked_by_callback :
    (captureReported.foldl (step mocked callbackKeys) {}).db.booked .pspClearing .debit 30 = 500 ∧
      (captureReported.foldl (step mocked callbackKeys) {}).db.booked
        .revenue .credit 30 = 500 := by
  obtain ⟨row, found, state⟩ := holds_iff.mp (show
    (captureReported.foldl (step mocked callbackKeys) {}).db.holds 30
      .captured = true by decide +kernel)
  have books := ledger_is_captured mocked callbackKeys captureReported
    (by decide +kernel) 30 row found
  have amount : row.capturedAmount = 500 := by
    have captured : (captureReported.foldl
        (Service.step mocked callbackKeys) {}).db.captured 30 = 500 := by decide +kernel
    unfold Database.captured at captured
    rwa [found] at captured
  rw [amount] at books
  exact ⟨books.1, books.2.1⟩

/-- The callback and the answer to the call report one capture, and it is booked twice. -/
theorem capture_booked_twice : ¬ ∀ (cfg : Config) (key : CallbackKey) (s : Service Nat)
    (paymentID : ID) (row : Payment), (serving Nat cfg key).Reachable s →
    s.db.payment paymentID = some row →
    s.db.booked .pspClearing .debit paymentID = row.capturedAmount := by
  intro balanced
  obtain ⟨row, found, state⟩ := holds_iff.mp (show
    ((captureReported ++ [lateAnswer 0 .approved]).foldl (step mocked callbackKeys)
      {}).db.holds 30 .captured = true by decide +kernel)
  have books := balanced mocked callbackKeys _ 30 row (.foldl _) found
  have captured : ((captureReported ++ [lateAnswer 0 .approved]).foldl
      (Service.step mocked callbackKeys) {}).db.captured 30 = 500 := by decide +kernel
  unfold Database.captured at captured
  rw [found] at captured
  rw [show row.capturedAmount = 500 from captured] at books
  exact absurd books (by decide +kernel)

end Souq.Payments
