import Souq.Payments.Callback
import Souq.Payments.Consumer

/-!
# What a second transaction overwrites

`VOIDED` and `CAPTURED` are meant to be final for everything but a refund. The first
transactions of the operations and some callbacks look at the state before they change
it. The second transactions do not: they lock the row, take its version and write the
state of their own outcome over whatever they find, and so do the callbacks for a
capture and for a void. `revives` and `unrecords` are the steps that overwrite such a
row; a run without them keeps it.
-/

namespace Souq.Payments

open Transact Transition List Database Service

/-- The payment is in the state. -/
def Database.holds (db : Database) (paymentID : ID) (state : State) : Bool :=
  (db.payment paymentID).any fun row => row.state == state

def Event.authorizes (paymentID : ID) : Event → Bool
  | .authorized _ of _ => of == paymentID
  | _ => false

/-- What announces that a payment was authorized. -/
def Database.authorizations (db : Database) (paymentID : ID) : List OutboxRecord :=
  db.outbox.filter fun record => record.event.authorizes paymentID

theorem holds_iff {db : Database} {paymentID : ID} {state : State} :
    db.holds paymentID state = true ↔ ∃ row, db.payment paymentID = some row ∧
      row.state = state := by
  unfold holds
  cases db.payment paymentID <;> simp

section Wrote

variable {db after : Database} {row : Payment} {record : Option OutboxRecord} {claimed : List ID}

theorem Wrote.payment (wrote : Wrote db after row record claimed) (paymentID : ID) :
    after.payment paymentID = if row.id = paymentID then some row else db.payment paymentID := by
  unfold Database.payment
  rw [wrote.payments, Table.find_upsert]

theorem Wrote.authorizations (wrote : Wrote db after row record claimed) {paymentID : ID}
    (other : ∀ announced, record = some announced → announced.event.authorizes paymentID = false) :
    after.authorizations paymentID = db.authorizations paymentID := by
  unfold Database.authorizations
  rcases wrote.outbox with same | ⟨announced, emitted, more⟩
  · rw [same]
  · rw [more, filter_append, filter_singleton, other announced emitted]
    simp

end Wrote

variable {ι : Type} {cfg : Config} {key : CallbackKey} {s : Service ι} {turn : Turn ι}
  {old : Option Payment} {row : Payment} {event : Option Event}

namespace Service

theorem Changed.found (change : Changed cfg key s turn old row event) :
    s.db.payment row.id = old := by
  cases change with
  | authorizeStart finds change =>
    cases change with
    | new named owned state => rw [named, finds]
    | resumed | again => exact payment_of_find finds
  | authorizeAnswer waits found answered change => cases change <;> exact payment_of_find found
  | captureStart found change => cases change <;> exact payment_of_find found
  | captureAnswer waits approved found fields amount => exact payment_of_find found
  | voidStart finds change =>
    cases change with
    | tombstone named owned state => rw [named, finds]
    | again | open' => exact payment_of_find finds
  | voidAnswer waits approved found => exact payment_of_find found
  | callback waits fresh found change => cases change <;> exact payment_of_find found

theorem Changed.authorizes (change : Changed cfg key s turn old row event) {paymentID : ID}
    {announced : Event} (emitted : event = some announced)
    (authorizes : announced.authorizes paymentID = true) :
    row.id = paymentID ∧ row.state = .authorized := by
  cases change with
  | authorizeStart finds change =>
    cases change with
    | new | resumed => cases emitted
    | again settled =>
      unfold eventFor at emitted
      split at emitted <;> cases emitted
      · exact ⟨of_decide_eq_true authorizes, by assumption⟩
      all_goals cases authorizes
  | authorizeAnswer waits found answered change =>
    cases emitted
    cases change with
    | approved fields amount => exact ⟨of_decide_eq_true authorizes, rfl⟩
    | declined fields reasonCode retriable => cases authorizes
  | captureStart found change =>
    cases change with
    | open' held => cases emitted
    | again settled amount =>
      cases emitted
      cases authorizes
  | captureAnswer waits approved found fields amount =>
    cases emitted
    cases authorizes
  | voidStart finds change =>
    split at emitted <;> cases emitted
    cases authorizes
  | voidAnswer waits approved found =>
    cases emitted
    cases authorizes
  | callback waits fresh found change =>
    cases emitted
    cases change with
    | authorized kind success unknown agrees fields amount =>
      exact ⟨of_decide_eq_true authorizes, rfl⟩
    | captured | failed | voided => cases authorizes

/-- The callbacks that change the state of a voided payment: an authorization of its
amount, a capture the `CHECK`s admit, and a failure. -/
def overrides (cb : Callback) (row : Payment) : Bool :=
  match cb.kind with
  | .authorized => cb.success && cb.amount.amount == row.amount
  | .captured => decide (0 < cb.amount.amount) && decide (cb.amount.amount ≤ row.amount)
  | .failed => true
  | .voided | .refunded => false

/-- A step writes another state over a voided payment: the provider approves or declines
an authorization that was under way when the payment was voided, a capture that was under
way goes through, or a new callback overrides the void. -/
def revives (cfg : Config) (key : CallbackKey) (s : Service ι) : Turn ι → Bool
  | .answer i result _ =>
    match s.work i with
    | some (.call (.authorize cmd)) =>
      s.db.holds cmd.paymentID .voided &&
        (result.outcome == .approved || result.outcome == .declined)
    | some (.call (.capture _ paymentID _ _)) =>
      s.db.holds paymentID .voided && (!cfg.supportsCapture none || result.outcome == .approved)
    | _ => false
  | .apply i _ =>
    match s.work i with
    | some (.callback cb paymentID) =>
      s.db.holds paymentID .voided && !s.db.processed.contains (key cb.providerRef cb.kind) &&
        (s.db.payment paymentID).any (overrides cb)
    | _ => false
  | _ => false

theorem Changed.voided (change : Changed cfg key s turn old row event)
    (kept : s.revives cfg key turn = false) {was : Payment} (before : old = some was)
    (held : was.state = .voided) : row.state = .voided := by
  cases change with
  | authorizeStart finds change =>
    cases change with
    | new named owned state => cases before
    | resumed pending =>
      cases before
      rw [held] at pending
      cases pending
    | again settled =>
      cases before
      exact held
  | authorizeAnswer waits found answered change =>
    cases before
    have here := holds_iff.mpr ⟨was, found, held⟩
    cases change <;> simp [revives, waits, here, answered] at kept
  | captureStart found change =>
    cases before
    cases change with
    | open' authorized =>
      rw [held] at authorized
      cases authorized
    | again settled amount => exact held
  | captureAnswer waits approved found fields amount =>
    cases before
    have here := holds_iff.mpr ⟨was, found, held⟩
    simp only [revives, waits, here, Bool.true_and, Bool.or_eq_false_iff, Bool.not_eq_false',
      beq_eq_false_iff_ne] at kept
    exact absurd (approved kept.1) kept.2
  | voidStart finds change =>
    cases change with
    | tombstone named owned state => cases before
    | again settled =>
      cases before
      exact held
    | open' live =>
      cases before
      exact held
  | voidAnswer waits approved found => rfl
  | callback waits fresh found change =>
    cases before
    have here := holds_iff.mpr ⟨was, found, held⟩
    simp only [revives, waits, here, found, fresh, contains_eq_mem, decide_false,
      Bool.not_false, Bool.true_and, Option.any_some] at kept
    cases change with
    | authorized kind success unknown agrees fields amount =>
      simp [overrides, kind, success, agrees] at kept
    | captured kind positive within fields amount =>
      simp [overrides, kind, positive, within] at kept
    | failed kind open' fields reasonCode retriable => simp [overrides, kind] at kept
    | voided kind => rfl

theorem voided_step [DecidableEq ι] (kept : s.revives cfg key turn = false) {paymentID : ID}
    (held : s.db.holds paymentID .voided = true) :
    (s.step cfg key turn).db.holds paymentID .voided = true ∧
      (s.step cfg key turn).db.authorizations paymentID = s.db.authorizations paymentID := by
  rcases step_cases cfg key s turn with
    ⟨payments, outbox⟩ | ⟨old, row, event, eventID, claimed, change, wrote⟩
  · simp only [holds, payment, authorizations, payments, outbox]
    exact ⟨held, trivial⟩
  · obtain ⟨was, found, state⟩ := holds_iff.mp held
    have voided : row.id = paymentID → row.state = .voided := fun same =>
      change.voided kept (by rw [← change.found, same, found]) state
    constructor
    · rw [holds_iff, wrote.payment paymentID]
      by_cases same : row.id = paymentID
      · exact ⟨row, if_pos same, voided same⟩
      · exact ⟨was, (if_neg same).trans found, state⟩
    · refine wrote.authorizations fun announced emitted => ?_
      obtain ⟨event', emits, rfl⟩ := Option.map_eq_some_iff.mp emitted
      refine Bool.eq_false_iff.mpr fun authorizes => ?_
      obtain ⟨same, authorized⟩ := change.authorizes emits authorizes
      rw [voided same] at authorized
      cases authorized

end Service

/-- **A voided payment stays voided.** In every continuation whose steps do not revive a
voided payment, whatever else is interleaved, it stays `VOIDED` and no authorization of
it is announced. -/
theorem voided_absorbing [DecidableEq ι] (cfg : Config) (key : CallbackKey)
    {s t : Service ι} {paymentID : ID} (held : s.db.holds paymentID .voided = true)
    (later : ((serving ι cfg key).restrict fun s turn =>
      s.revives cfg key turn = false).Leads s t) :
    t.db.holds paymentID .voided = true ∧
      t.db.authorizations paymentID = s.db.authorizations paymentID := by
  induction later with
  | refl => exact ⟨held, rfl⟩
  | tail _ last ih =>
    obtain ⟨turn, kept, rfl⟩ := last
    obtain ⟨still, quiet⟩ := voided_step kept ih.1
    exact ⟨still, quiet.trans ih.2⟩

/-- The callbacks' names in the inbox of the examples below. -/
def callbackKeys : CallbackKey := fun providerRef kind =>
  10 * providerRef.getD 0 +
    match kind with
    | .authorized => 1
    | .captured => 2
    | .failed => 3
    | .voided => 4
    | .refunded => 5

def authorizeOrder : AuthorizeCommand where
  orderID := 20
  paymentID := 30
  userID := 40
  amount := ⟨500, "EGP"⟩
  methodToken := "tok"
  idempotencyKey := 7

/-- Payment 30 is voided while its authorization waits for the provider. -/
def voidedMeanwhile : List (Turn Nat) :=
  [.start 0 501 (.authorize authorizeOrder) ⟨601, 701⟩, .start 1 502 (.void 20 30 7) ⟨602, 702⟩,
    .answer 1 { outcome := .approved } ⟨603, 703⟩]

def lateAnswer (i : Nat) (outcome : Outcome) : Turn Nat :=
  .answer i { outcome := outcome } ⟨609, 709⟩

/-- An answer that leaves the outcome open is no danger to the void. -/
theorem voided_after_unknown :
    ((voidedMeanwhile ++ [lateAnswer 0 .unknown]).foldl
      (step mocked callbackKeys) {}).db.holds 30 .voided = true ∧
    ((voidedMeanwhile ++ [lateAnswer 0 .unknown]).foldl
      (step mocked callbackKeys) {}).db.authorizations 30 =
      (voidedMeanwhile.foldl (step mocked callbackKeys) {}).db.authorizations 30 := by
  refine voided_absorbing mocked callbackKeys (by decide +kernel) ?_
  rw [foldl_append]
  exact .single ⟨lateAnswer 0 .unknown, by decide +kernel, rfl⟩

/-- The authorization that was under way is approved, and the voided payment is
authorized. -/
theorem late_approval_revives : ¬ ∀ (cfg : Config) (key : CallbackKey) (s t : Service Nat)
    (paymentID : ID), (serving Nat cfg key).Reachable s → s.db.holds paymentID .voided = true →
    (serving Nat cfg key).Leads s t → t.db.holds paymentID .voided = true ∧
      t.db.authorizations paymentID = s.db.authorizations paymentID := by
  intro absorbing
  have still := absorbing mocked callbackKeys _ _ 30 (.foldl voidedMeanwhile) (by decide +kernel)
    (.single ⟨lateAnswer 0 .approved, rfl⟩)
  exact absurd still.1 (by decide +kernel)

namespace Service

/-- A step writes another state over a captured payment: the provider approves or declines
an authorization that was still under way, approves a void that was under way when the
payment was captured, or a new callback reports a void. -/
def unrecords (key : CallbackKey) (s : Service ι) : Turn ι → Bool
  | .answer i result _ =>
    match s.work i with
    | some (.call (.authorize cmd)) =>
      s.db.holds cmd.paymentID .captured &&
        (result.outcome == .approved || result.outcome == .declined)
    | some (.call (.void _ paymentID _)) =>
      s.db.holds paymentID .captured && result.outcome == .approved
    | _ => false
  | .apply i _ =>
    match s.work i with
    | some (.callback cb paymentID) =>
      s.db.holds paymentID .captured && !s.db.processed.contains (key cb.providerRef cb.kind) &&
        cb.kind == .voided
    | _ => false
  | _ => false

theorem Changed.captured (change : Changed cfg key s turn old row event)
    (kept : s.unrecords key turn = false) {was : Payment} (before : old = some was)
    (held : was.state = .captured) : row.state = .captured := by
  cases change with
  | authorizeStart finds change =>
    cases change with
    | new named owned state => cases before
    | resumed pending =>
      cases before
      rw [held] at pending
      cases pending
    | again settled =>
      cases before
      exact held
  | authorizeAnswer waits found answered change =>
    cases before
    have here := holds_iff.mpr ⟨was, found, held⟩
    cases change <;> simp [unrecords, waits, here, answered] at kept
  | captureStart found change =>
    cases before
    cases change with
    | open' authorized =>
      rw [held] at authorized
      cases authorized
    | again settled amount => exact held
  | captureAnswer waits approved found fields amount => rfl
  | voidStart finds change =>
    cases change with
    | tombstone named owned state => cases before
    | again settled =>
      cases before
      exact held
    | open' live =>
      cases before
      exact held
  | voidAnswer waits approved found =>
    cases before
    have here := holds_iff.mpr ⟨was, found, held⟩
    simp [unrecords, waits, here, approved] at kept
  | callback waits fresh found change =>
    cases before
    have here := holds_iff.mpr ⟨was, found, held⟩
    cases change with
    | authorized kind success unknown agrees fields amount => exact absurd (.inr held) unknown
    | captured kind positive within fields amount => rfl
    | failed kind open' fields reasonCode retriable => exact absurd (.inl held) open'
    | voided kind =>
      rw [kind] at fresh
      simp [unrecords, waits, here, fresh, kind] at kept

theorem captured_step [DecidableEq ι] (kept : s.unrecords key turn = false) {paymentID : ID}
    (held : s.db.holds paymentID .captured = true) :
    (s.step cfg key turn).db.holds paymentID .captured = true := by
  rcases step_cases cfg key s turn with
    ⟨payments, -⟩ | ⟨old, row, event, eventID, claimed, change, wrote⟩
  · simp only [holds, payment, payments]
    exact held
  · obtain ⟨was, found, state⟩ := holds_iff.mp held
    rw [holds_iff, wrote.payment paymentID]
    by_cases same : row.id = paymentID
    · exact ⟨row, if_pos same, change.captured kept (by rw [← change.found, same, found]) state⟩
    · exact ⟨was, (if_neg same).trans found, state⟩

end Service

/-- **A captured payment stays captured.** In every continuation whose steps do not
unrecord a captured payment, whatever else is interleaved, it stays `CAPTURED`. -/
theorem captured_absorbing [DecidableEq ι] (cfg : Config) (key : CallbackKey)
    {s t : Service ι} {paymentID : ID} (held : s.db.holds paymentID .captured = true)
    (later : ((serving ι cfg key).restrict fun s turn => s.unrecords key turn = false).Leads s t) :
    t.db.holds paymentID .captured = true := by
  induction later with
  | refl => exact held
  | tail _ last ih =>
    obtain ⟨turn, kept, rfl⟩ := last
    exact captured_step kept ih

/-- Payment 30 is captured while a void of it waits for the provider. -/
def capturedMeanwhile : List (Turn Nat) :=
  [.start 0 501 (.authorize authorizeOrder) ⟨601, 701⟩,
    .answer 0 { outcome := .approved } ⟨602, 702⟩,
    .start 1 502 (.void 20 30 7) ⟨603, 703⟩, .start 0 503 (.capture 20 30 7) ⟨604, 704⟩,
    .answer 0 { outcome := .approved } ⟨605, 705⟩]

/-- A void that the provider declines is no danger to the capture. -/
theorem captured_after_declined :
    ((capturedMeanwhile ++ [lateAnswer 1 .declined]).foldl
      (step mocked callbackKeys) {}).db.holds 30 .captured = true := by
  refine captured_absorbing mocked callbackKeys
    (s := capturedMeanwhile.foldl (step mocked callbackKeys) {}) (by decide +kernel) ?_
  rw [foldl_append]
  exact .single ⟨lateAnswer 1 .declined, by decide +kernel, rfl⟩

/-- The void that was under way is approved, and the captured payment is voided. -/
theorem late_void_unrecords : ¬ ∀ (cfg : Config) (key : CallbackKey) (s t : Service Nat)
    (paymentID : ID), (serving Nat cfg key).Reachable s → s.db.holds paymentID .captured = true →
    (serving Nat cfg key).Leads s t → ∀ row, t.db.payment paymentID = some row →
      row.state ≠ .voided ∧ row.state ≠ .failed ∧ row.state ≠ .authorized ∧
        row.state ≠ .authorizing ∧ row.state ≠ .capturing := by
  intro absorbing
  have still := absorbing mocked callbackKeys _ _ 30 (.foldl capturedMeanwhile) (by decide +kernel)
    (.single ⟨lateAnswer 1 .approved, rfl⟩)
  have voided : ((capturedMeanwhile ++ [lateAnswer 1 .approved]).foldl
      (step mocked callbackKeys) {}).db.holds 30 .voided = true := by decide +kernel
  rw [foldl_append] at voided
  obtain ⟨row, found, state⟩ := holds_iff.mp voided
  exact (still row found).1 state

end Souq.Payments
