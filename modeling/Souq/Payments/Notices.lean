import Souq.Paymob.Signature
import Souq.Payments.CaptureRetry

/-!
# What a sequence of callbacks adds up to

The inbox names a callback by its transaction and its kind, and Paymob reports a transaction that
is still pending under the kind of an authorization. A pending report therefore spends the name
that the success of the same transaction comes under later, and that success is dropped as one
that was handled before.
-/

namespace Souq.Payments

open Transact Transition Table List Database

/-- Callbacks with one inbox key have one reference and kind. -/
def Apart (key : CallbackKey) : Prop :=
  ∀ ref kind ref' kind', key ref kind = key ref' kind' → ref = ref' ∧ kind = kind'

/-- A callback is handled, with the ids its transaction draws. -/
def Database.notify (key : CallbackKey) (db : Database) (notice : Callback × Mint) : Database :=
  match Service.lookup db notice.1 with
  | some (.callback cb paymentID) => (handleCallback key notice.2 cb paymentID).inTx db
  | _ => db

/-- A success that is new to the inbox comes before a pending report of its transaction and
before a capture that goes through. -/
def Arrives (key : CallbackKey) (db : Database) (row : Payment) (cbs : List Callback) : Prop :=
  ∃ (before : List Callback) (cb : Callback) (after : List Callback), cbs = before ++ cb :: after ∧
    cb.kind = .authorized ∧ cb.success = true ∧ cb.amount.amount = row.amount ∧
    key cb.providerRef .authorized ∉ db.processed ∧
    (∀ other ∈ before, other.kind = .authorized → other.success = false →
      other.providerRef ≠ cb.providerRef) ∧
    ∀ other ∈ before, other.kind = .captured → row.covers other.amount.amount →
      key other.providerRef .captured ∈ db.processed

def Captures (key : CallbackKey) (db : Database) (row : Payment) (cbs : List Callback) : Prop :=
  ∃ cb ∈ cbs, cb.kind = .captured ∧ row.covers cb.amount.amount ∧
    key cb.providerRef .captured ∉ db.processed

section

variable {key : CallbackKey} {db : Database} {row : Payment} {cbs : List Callback} {cb : Callback}

theorem Arrives.more (arrives : Arrives key db row cbs) (cb : Callback) :
    Arrives key db row (cbs ++ [cb]) := by
  obtain ⟨before, success, after, rfl, rest⟩ := arrives
  exact ⟨before, success, after ++ [cb], by simp, rest⟩

theorem arrives_concat (not : ¬Arrives key db row cbs) :
    Arrives key db row (cbs ++ [cb]) ↔
      cb.kind = .authorized ∧ cb.success = true ∧ cb.amount.amount = row.amount ∧
        key cb.providerRef .authorized ∉ db.processed ∧
        (∀ other ∈ cbs, other.kind = .authorized → other.success = false →
          other.providerRef ≠ cb.providerRef) ∧ ¬Captures key db row cbs := by
  have uncaptured : ¬Captures key db row cbs ↔ ∀ other ∈ cbs, other.kind = .captured →
      row.covers other.amount.amount → key other.providerRef .captured ∈ db.processed := by
    simp only [Captures, not_exists, not_and, not_not]
  rw [uncaptured]
  constructor
  · rintro ⟨before, success, after, split, rest⟩
    rcases eq_nil_or_concat after with rfl | ⟨after, last, rfl⟩
    · obtain ⟨rfl, same⟩ := append_inj' split rfl
      cases same
      exact rest
    · rw [concat_eq_append, ← cons_append, ← append_assoc] at split
      exact absurd ⟨before, success, after, (append_inj' split rfl).1, rest⟩ not
  · intro rest
    exact ⟨cbs, cb, [], rfl, rest⟩

theorem captures_concat : Captures key db row (cbs ++ [cb]) ↔ Captures key db row cbs ∨
    cb.kind = .captured ∧ row.covers cb.amount.amount ∧
      key cb.providerRef .captured ∉ db.processed := by
  unfold Captures
  simp only [mem_append, mem_singleton, or_and_right, exists_or, exists_eq_left]

theorem not_arrives_of_captures (not : ¬Arrives key db row cbs)
    (captures : Captures key db row cbs) : ¬Arrives key db row (cbs ++ [cb]) := by
  rw [arrives_concat not]
  exact fun last => last.2.2.2.2.2 captures

theorem not_arrives_of_kind (not : ¬Arrives key db row cbs) (other : cb.kind ≠ .authorized) :
    ¬Arrives key db row (cbs ++ [cb]) := by
  rw [arrives_concat not]
  exact fun last => other last.1

theorem not_captures_of_kind (not : ¬Captures key db row cbs) (other : cb.kind ≠ .captured) :
    ¬Captures key db row (cbs ++ [cb]) := by
  rw [captures_concat]
  rintro (before | last)
  · exact not before
  · exact other last.1

end

/-- A verified callback about the payment of the row, and no void. -/
structure Callback.About (cb : Callback) (row : Payment) : Prop where
  verified : cb.verified = true
  reference : cb.orderID = row.pspIdempotencyKey
  kept : cb.kind ≠ .voided

/-- The payment as it is now: what no state change touches is as it was. -/
structure Payment.Continues (now row : Payment) : Prop where
  id : now.id = row.id
  reference : now.pspIdempotencyKey = row.pspIdempotencyKey
  amount : now.amount = row.amount
  refunded : now.refundedAmount = row.refundedAmount

theorem Payment.Continues.withState {now row : Payment} (continues : now.Continues row)
    (next : State) (fields : StateFields) : (now.withState next fields).Continues row :=
  ⟨continues.id, continues.reference, continues.amount, continues.refunded⟩

theorem Payment.Continues.covers {now row : Payment} (continues : now.Continues row)
    {amount : Int} : now.covers amount ↔ row.covers amount := by
  unfold Payment.covers
  rw [continues.amount, continues.refunded]

/-- How far the callbacks so far have brought a payment. -/
inductive Reckoning (key : CallbackKey) (start : Database) (row : Payment) (cbs : List Callback)
    (db : Database) (now : Payment) : Prop where
  | authorized (arrives : Arrives key start row cbs) (known : now.Known)
      (announced : (db.authorizations row.id).length = (start.authorizations row.id).length + 1)
  | captured (arrives : ¬Arrives key start row cbs) (captures : Captures key start row cbs)
      (state : now.state = .captured)
      (announced : (db.authorizations row.id).length = (start.authorizations row.id).length)
  | open' (arrives : ¬Arrives key start row cbs) (captures : ¬Captures key start row cbs)
      (unknown : ¬now.Known)
      (announced : (db.authorizations row.id).length = (start.authorizations row.id).length)
      (spent : ∀ ref, key ref .authorized ∈ db.processed ↔
        key ref .authorized ∈ start.processed ∨ ∃ other ∈ cbs,
          other.kind = .authorized ∧ other.success = false ∧ other.providerRef = ref)
      (unspent : ∀ ref, key ref .captured ∈ db.processed ↔ key ref .captured ∈ start.processed)

/-- Where the callbacks so far have left the tables. -/
structure Progress (key : CallbackKey) (start : Database) (row : Payment) (cbs : List Callback)
    (db : Database) : Prop where
  admitted : db.Admitted
  payment : ∃ now, db.payment row.id = some now ∧
    db.paymentByMerchantRef row.pspIdempotencyKey = some now ∧ now.Continues row ∧
    Reckoning key start row cbs db now

theorem find_upsert_reference {rows : List Payment} {now next : Payment} {reference : ID}
    (found : find Payment.id rows next.id = some now)
    (referenced : find Payment.pspIdempotencyKey rows reference = some now)
    (same : next.pspIdempotencyKey = reference) :
    find Payment.pspIdempotencyKey (upsert Payment.id next rows) reference = some next := by
  induction rows with
  | nil => cases found
  | cons other rows ih =>
    by_cases replaced : other.id = next.id
    · simp [upsert, find, replaced, same]
    · have later : other.pspIdempotencyKey ≠ reference := by
        intro hit
        have first : find Payment.pspIdempotencyKey (other :: rows) reference =
            some other := by simp [find, hit]
        rw [first] at referenced
        cases referenced
        exact replaced (key_of_find found)
      have found' : find Payment.id rows next.id = some now := by
        simpa [find, replaced] using found
      have referenced' : find Payment.pspIdempotencyKey rows reference = some now := by
        simpa [find, later] using referenced
      have rest := ih found' referenced'
      unfold find at rest ⊢
      simp [upsert, replaced, later, rest]

theorem Entered.authorizations {db after : Database} {row : Payment} {record : OutboxRecord}
    {claimed : List ID} (entered : Entered db after row record claimed)
    (unused : ∀ other ∈ db.outbox, other.eventID ≠ record.eventID) (paymentID : ID) :
    after.authorizations paymentID = db.authorizations paymentID ++
        if record.event.authorizes paymentID then [record] else [] := by
  unfold Database.authorizations
  rw [entered.outbox, insertNew_of_absent unused, filter_append, filter_singleton, Bool.cond_eq_ite]

section

variable {key : CallbackKey} {start db : Database} {row now : Payment} {cbs : List Callback}
  {cb : Callback} {mint : Mint}

theorem notify_about (about : cb.About row)
    (referenced : db.paymentByMerchantRef row.pspIdempotencyKey = some now) :
    db.notify key (cb, mint) = (handleCallback key mint cb now.id).inTx db := by
  simp only [notify, Service.lookup, about.verified, about.reference, referenced,
    ↓reduceIte, Option.map_some]

theorem spent_concat {processed : List ID}
    (spent : ∀ ref, key ref .authorized ∈ db.processed ↔
      key ref .authorized ∈ start.processed ∨ ∃ other ∈ cbs,
        other.kind = .authorized ∧ other.success = false ∧ other.providerRef = ref)
    (names : ∀ ref, key ref .authorized ∈ processed ↔ key ref .authorized ∈ db.processed ∨
      cb.kind = .authorized ∧ cb.success = false ∧ cb.providerRef = ref) (ref : Option ID) :
    key ref .authorized ∈ processed ↔ key ref .authorized ∈ start.processed ∨ ∃ other ∈ cbs ++ [cb],
        other.kind = .authorized ∧ other.success = false ∧ other.providerRef = ref := by
  rw [names, spent]
  simp only [mem_append, mem_singleton, or_and_right, exists_or, exists_eq_left, or_assoc]

theorem Callback.Ignored.uncaptured (ignored : cb.Ignored now) : cb.kind ≠ .captured := by
  intro kind
  cases ignored with
  | unsuccessful kind' => simp [kind] at kind'
  | known kind' => simp [kind] at kind'
  | late kind' => simp [kind] at kind'
  | refunded kind' => simp [kind] at kind'

/-- A callback that leaves the tables: its name is taken, or it contradicts the payment. -/
theorem Reckoning.refused (reckoning : Reckoning key start row cbs db now)
    (continues : now.Continues row)
    (refused : key cb.providerRef cb.kind ∈ db.processed ∨ cb.Refused now) :
    Reckoning key start row (cbs ++ [cb]) db now := by
  cases reckoning with
  | authorized arrives known announced => exact .authorized (arrives.more cb) known announced
  | captured arrives captures state announced =>
    exact .captured (not_arrives_of_captures arrives captures)
      (captures_concat.mpr (.inl captures)) state announced
  | open' arrives captures unknown announced spent unspent =>
    refine .open' ?_ ?_ unknown announced (spent_concat spent ?_) unspent
    · rw [arrives_concat arrives]
      rintro ⟨kind, success, agrees, fresh, quiet, -⟩
      rcases refused with taken | ⟨-, -, -, differs⟩ | ⟨kind', -⟩
      · rw [kind] at taken
        rcases (spent _).mp taken with before | ⟨other, member, pending, failed, same⟩
        · exact fresh before
        · exact quiet other member pending failed same
      · exact differs (agrees.trans continues.amount.symm)
      · rw [kind] at kind'
        cases kind'
    · rw [captures_concat]
      rintro (before | ⟨kind, covers, fresh⟩)
      · exact captures before
      · rcases refused with taken | ⟨kind', -, -, -⟩ | ⟨-, uncovered⟩
        · rw [kind] at taken
          exact fresh ((unspent _).mp taken)
        · rw [kind] at kind'
          cases kind'
        · exact uncovered (continues.covers.mpr covers)
    · intro ref
      constructor
      · exact .inl
      · rintro (taken | ⟨kind, success, same⟩)
        · exact taken
        · rcases refused with taken | ⟨-, success', -, -⟩ | ⟨kind', -⟩
          · rwa [kind, same] at taken
          · rw [success] at success'
            cases success'
          · rw [kind] at kind'
            cases kind'

theorem Reckoning.ignored (apart : Apart key) (reckoning : Reckoning key start row cbs db now)
    (ignored : cb.Ignored now) :
    Reckoning key start row (cbs ++ [cb]) (db.claim [key cb.providerRef cb.kind]) now := by
  cases reckoning with
  | authorized arrives known announced => exact .authorized (arrives.more cb) known announced
  | captured arrives captures state announced =>
    exact .captured (not_arrives_of_captures arrives captures)
      (captures_concat.mpr (.inl captures)) state announced
  | open' arrives captures unknown announced spent unspent =>
    have claimed : ∀ ref kind, key ref kind ∈ (db.claim [key cb.providerRef cb.kind]).processed ↔
        key ref kind ∈ db.processed ∨ cb.providerRef = ref ∧ cb.kind = kind := by
      intro ref kind
      change _ ∈ db.processed ++ _ ↔ _
      rw [mem_append, mem_singleton]
      apply or_congr_right
      constructor
      · intro same
        exact (apart _ _ _ _ same).imp Eq.symm Eq.symm
      · rintro ⟨rfl, rfl⟩
        rfl
    refine .open' ?_ (not_captures_of_kind captures ignored.uncaptured) unknown announced
      (spent_concat spent ?_) ?_
    · cases ignored with
      | unsuccessful _ failed =>
        rw [arrives_concat arrives]
        rintro ⟨-, success, -⟩
        simp [success] at failed
      | known _ known => exact absurd known unknown
      | late kind _ => exact not_arrives_of_kind arrives (by simp [kind])
      | refunded kind => exact not_arrives_of_kind arrives (by simp [kind])
    · intro ref
      rw [claimed]
      apply or_congr_right
      cases ignored with
      | unsuccessful kind success => simp [kind, success]
      | known _ known => exact absurd known unknown
      | late _ known => exact absurd known unknown
      | refunded kind => simp [kind]
    · intro ref
      rw [claimed, ← unspent]
      apply or_iff_left
      exact fun same => ignored.uncaptured same.2

theorem Reckoning.entered (apart : Apart key) {next : Payment} {event : Event} {after : Database}
    (reckoning : Reckoning key start row cbs db now) (continues : now.Continues row)
    (about : cb.About row) (fresh : key cb.providerRef cb.kind ∉ db.processed)
    (unused : ∀ record ∈ db.outbox, record.eventID ≠ mint.eventID)
    (enters : cb.Enters now next event)
    (entered : Entered db after next ⟨mint.eventID, event⟩ [key cb.providerRef cb.kind]) :
    Reckoning key start row (cbs ++ [cb]) after next := by
  have announced' := congrArg List.length (entered.authorizations unused row.id)
  rw [length_append] at announced'
  cases enters with
  | authorized kind success unknown agrees =>
    cases reckoning with
    | authorized _ known _ => exact absurd known unknown
    | captured _ _ state _ => exact absurd (.inr state) unknown
    | open' arrives captures _ announced spent _ =>
      refine .authorized ((arrives_concat arrives).mpr ?_) (.inl rfl) ?_
      · rw [kind] at fresh
        refine ⟨kind, success, agrees.trans continues.amount, ?_, ?_, captures⟩
        · exact fun before => fresh ((spent _).mpr (.inl before))
        · exact fun other member pending failed same =>
            fresh ((spent _).mpr (.inr ⟨other, member, pending, failed, same⟩))
      · rw [announced', announced]
        simp [Event.authorizes, continues.id]
  | captured kind covers =>
    have quiet : (after.authorizations row.id).length = (db.authorizations row.id).length :=
      announced'
    cases reckoning with
    | authorized arrives known announced =>
      exact .authorized (arrives.more cb) (.inr rfl) (quiet.trans announced)
    | captured arrives captures state announced =>
      exact .captured (not_arrives_of_captures arrives captures)
        (captures_concat.mpr (.inl captures)) rfl (quiet.trans announced)
    | open' arrives captures unknown announced spent unspent =>
      have other : cb.kind ≠ .authorized := by simp [kind]
      have unclaimed : key cb.providerRef .captured ∉ start.processed := by
        rw [← unspent, ← kind]
        exact fresh
      exact .captured (not_arrives_of_kind arrives other)
        (captures_concat.mpr (.inr ⟨kind, continues.covers.mp covers, unclaimed⟩)) rfl
        (quiet.trans announced)
  | failed kind unknown =>
    have quiet : (after.authorizations row.id).length = (db.authorizations row.id).length :=
      announced'
    cases reckoning with
    | authorized _ known _ => exact absurd known unknown
    | captured _ _ state _ => exact absurd (.inr state) unknown
    | open' arrives captures _ announced spent unspent =>
      have claimed : ∀ ref kind', kind' ≠ .failed →
          (key ref kind' ∈ after.processed ↔ key ref kind' ∈ db.processed) := by
        intro ref kind' other
        rw [entered.processed, mem_append, mem_singleton]
        apply or_iff_left
        intro same
        exact other ((apart _ _ _ _ same).2.trans kind)
      refine .open' (not_arrives_of_kind arrives (by simp [kind]))
        (not_captures_of_kind captures (by simp [kind])) ?_ (quiet.trans announced)
        (spent_concat spent ?_) ?_
      · rintro (state | state) <;> cases state
      · intro ref
        rw [claimed ref _ (by decide)]
        simp [kind]
      · intro ref
        rw [claimed ref _ (by decide), unspent]
  | voided kind => exact absurd kind about.kept

/-- **Step lemma.** -/
theorem Progress.notify (apart : Apart key) (progress : Progress key start row cbs db)
    (about : cb.About row) (unused : ∀ record ∈ db.outbox, record.eventID ≠ mint.eventID) :
    Progress key start row (cbs ++ [cb]) (db.notify key (cb, mint)) := by
  obtain ⟨admitted, now, found, referenced, continues, reckoning⟩ := progress
  have found' : db.payment now.id = some now := payment_of_find found
  have admits : now.admissible = true := admitted now (mem_of_find found)
  rw [notify_about about referenced]
  by_cases fresh : key cb.providerRef cb.kind ∈ db.processed
  · rw [handleCallback_again fresh]
    exact ⟨admitted, now, found, referenced, continues, reckoning.refused continues (.inl fresh)⟩
  · rcases handleCallback_cases mint fresh found' admits with
      ⟨ignored, after⟩ | ⟨refused, after⟩ | ⟨next, event, enters, entered⟩
    · rw [after]
      exact ⟨admitted, now, found, referenced, continues, reckoning.ignored apart ignored⟩
    · rw [after]
      exact ⟨admitted, now, found, referenced, continues,
        reckoning.refused continues (.inr refused)⟩
    · have continues' : next.Continues row := by
        cases enters <;> exact continues.withState _ _
      have named : next.id = now.id := continues'.id.trans continues.id.symm
      refine ⟨admitted_inTx _ admitted, next, ?_, ?_, continues',
        reckoning.entered apart continues about fresh unused enters entered⟩
      · rw [entered.payment, if_pos continues'.id]
      · unfold paymentByMerchantRef at referenced ⊢
        rw [entered.payments]
        exact find_upsert_reference (named ▸ found') referenced continues'.reference

/-- **Run lemma.** -/
theorem progress_run (apart : Apart key) {notices : List (Callback × Mint)}
    (start' : Progress key start row [] start)
    (about : ∀ notice ∈ notices, notice.1.About row)
    (unused : System.Permits (notify key)
      (fun db notice => ∀ record ∈ db.outbox, record.eventID ≠ notice.2.eventID) notices start) :
    Progress key start row (notices.map Prod.fst) (notices.foldl (notify key) start) := by
  induction notices using List.reverseRecOn with
  | nil => exact start'
  | append_singleton notices notice ih =>
    obtain ⟨before, last⟩ := System.permits_concat.mp unused
    have progress := ih (fun other member => about other (mem_append_left _ member)) before
    rw [map_append, foldl_append]
    exact progress.notify apart (about notice (mem_append_right _ mem_cons_self)) last

end

/-- **What a sequence of callbacks adds up to.** After any verified callbacks about an authorizing
payment, none of which reports a void, the payment is authorized or captured and exactly one
authorization was announced, exactly where a success of its amount is new to the inbox and comes
before a pending report of the same transaction and before a capture that goes through. -/
theorem settled_once_iff {key : CallbackKey} (apart : Apart key) {db : Database} {row : Payment}
    (admitted : db.Admitted) (found : db.payment row.id = some row)
    (referenced : db.paymentByMerchantRef row.pspIdempotencyKey = some row)
    (authorizing : row.state = .authorizing) {notices : List (Callback × Mint)}
    (about : ∀ notice ∈ notices, notice.1.About row)
    (unused : System.Permits (notify key)
      (fun db notice => ∀ record ∈ db.outbox, record.eventID ≠ notice.2.eventID) notices db) :
    (((notices.foldl (notify key) db).stateOf row.id = some .authorized ∨
        (notices.foldl (notify key) db).stateOf row.id = some .captured) ∧
      ((notices.foldl (notify key) db).authorizations row.id).length =
        (db.authorizations row.id).length + 1) ↔
      Arrives key db row (notices.map Prod.fst) := by
  have start : Progress key db row [] db := by
    refine ⟨admitted, row, found, referenced, ⟨rfl, rfl, rfl, rfl⟩, .open' ?_ ?_ ?_ rfl ?_ ?_⟩
    · rintro ⟨before, cb, after, split, -⟩
      exact absurd split (by simp)
    · rintro ⟨cb, member, -⟩
      cases member
    · unfold Payment.Known
      rw [authorizing]
      decide
    · exact fun ref => ⟨.inl, fun either => either.resolve_right (by simp)⟩
    · exact fun ref => Iff.rfl
  obtain ⟨-, now, there, -, -, reckoning⟩ := progress_run apart start about unused
  rw [stateOf_of_found there, Option.some.injEq, Option.some.injEq]
  cases reckoning with
  | authorized arrives known announced => exact iff_of_true ⟨known, announced⟩ arrives
  | captured arrives captures state announced =>
    exact iff_of_false (fun settled => by omega) arrives
  | open' arrives captures unknown announced spent unspent =>
    exact iff_of_false (fun settled => unknown settled.1) arrives

/-- What `HandleCallback` gets from the adapter; references are numbers. -/
def received (number : String → ID) (cb : Paymob.Adapter.Callback) : Callback where
  verified := cb.verified
  kind := cb.kind
  providerRef := some (number cb.providerRef)
  orderID := number cb.orderID
  amount := ⟨cb.amount, cb.currency⟩
  success := cb.success
  reasonCode := cb.reasonCode
  declineCode := some cb.declineCode

def CallbackKind.rank : CallbackKind → Nat
  | .authorized => 0
  | .captured => 1
  | .failed => 2
  | .voided => 3
  | .refunded => 4

def inboxNames : CallbackKey := fun providerRef kind => 5 * providerRef.elim 0 (· + 1) + kind.rank

theorem inboxNames_apart : Apart inboxNames := by
  intro ref kind ref' kind' same
  have small : ∀ kind : CallbackKind, kind.rank < 5 := by
    intro kind
    cases kind <;> decide
  have digits : ∀ a b m n : Nat, m < 5 → n < 5 → 5 * a + m = 5 * b + n → a = b ∧ m = n := by
    omega
  obtain ⟨refs, ranks⟩ := digits _ _ _ _ (small kind) (small kind') same
  constructor
  · cases ref <;> cases ref' <;> simp at refs ⊢
    exact refs
  · cases kind <;> cases kind' <;> first | rfl | exact absurd ranks (by decide)

/-- Transaction 111 as Paymob reports it to the customer's browser. -/
def transaction (pending success : String) : Paymob.Adapter.Input where
  query := [("amount_cents", "500"), ("created_at", "2026-08-01"), ("error_occured", "false"),
    ("has_parent_transaction", "false"), ("id", "111"), ("integration_id", "42"),
    ("is_3d_secure", "true"), ("is_auth", "true"), ("is_capture", "false"),
    ("is_refunded", "false"), ("is_standalone_payment", "true"), ("is_voided", "false"),
    ("order.id", "222"), ("owner", "7"), ("pending", pending), ("source_data.pan", "2346"),
    ("source_data.sub_type", "visa"), ("source_data.type", "card"), ("success", success),
    ("merchant_order_id", "souq-200"),
    ("hmac", "5002026-08-01falsefalse11142truetruefalsefalsetruefalse2227" ++ pending ++
      "2346visacard" ++ success)]

def reported (success : Bool) : Paymob.Adapter.Callback where
  verified := true
  kind := .authorized
  providerRef := "111"
  orderID := "souq-200"
  amount := 500
  currency := "EGP"
  success := success

theorem transaction_reported :
    Paymob.transparent.parseCallback (transaction "true" "false") = .ok (reported false) ∧
      Paymob.transparent.parseCallback (transaction "false" "true") = .ok (reported true) := by
  constructor
  · decide +kernel
  · decide +kernel

def reference (text : String) : ID := if text = "111" then 111 else 200

def waitingOrder : Database :=
  ([Turn.start 0 501 (.authorize authorizeOrder) ⟨601, 701⟩,
    .answer 0 { outcome := .pending } ⟨602, 702⟩].foldl (Service.step mocked inboxNames)
      ({} : Service (Fin 2))).db

def waitingRow : Payment :=
  (newPayment mocked authorizeOrder).withState .authorizing {}

theorem waitingOrder_about (notices : List (Callback × Mint))
    (reports : ∀ notice ∈ notices, ∃ success, notice.1 = received reference (reported success)) :
    ∀ notice ∈ notices, notice.1.About waitingRow := by
  intro notice member
  obtain ⟨success, same⟩ := reports notice member
  rw [same]
  constructor
  · rfl
  · cases success <;> decide
  · exact nofun

theorem waitingOrder_admitted : waitingOrder.Admitted := by
  unfold Database.Admitted
  decide +kernel

/-- The success is reported, then a pending report that came late, then the success again. -/
def paidAtOnce : List (Callback × Mint) :=
  [(received reference (reported true), ⟨801, 901⟩),
    (received reference (reported false), ⟨802, 902⟩),
    (received reference (reported true), ⟨803, 903⟩)]

theorem paidAtOnce_settled :
    ((paidAtOnce.foldl (notify inboxNames) waitingOrder).stateOf 30 = some .authorized ∨
      (paidAtOnce.foldl (notify inboxNames) waitingOrder).stateOf 30 = some .captured) ∧
    ((paidAtOnce.foldl (notify inboxNames) waitingOrder).authorizations 30).length = 1 := by
  have arrives : Arrives inboxNames waitingOrder waitingRow (paidAtOnce.map Prod.fst) := by
    refine ⟨[], received reference (reported true), _, rfl, rfl, rfl,
      rfl, by decide +kernel, ?_, ?_⟩
    · simp
    · simp
  exact (settled_once_iff inboxNames_apart waitingOrder_admitted (by decide +kernel)
    (by decide +kernel) rfl (waitingOrder_about paidAtOnce (by simp [paidAtOnce]))
    (by decide +kernel)).mpr arrives

/-- The transaction is reported while it is pending, and again when it has succeeded. -/
def paidLater : List (Callback × Mint) :=
  [(received reference (reported false), ⟨801, 901⟩),
    (received reference (reported true), ⟨802, 902⟩)]

/-- The success is dropped, although both are callbacks Paymob signs. -/
theorem success_dropped : ¬ ∀ (key : CallbackKey) (db : Database) (row : Payment)
    (notices : List (Callback × Mint)), Apart key → db.Admitted → db.payment row.id = some row →
    db.paymentByMerchantRef row.pspIdempotencyKey = some row → row.state = .authorizing →
    (∀ notice ∈ notices, notice.1.About row) →
    (∀ notice ∈ notices, ∃ input cb, Paymob.transparent.parseCallback input = .ok cb ∧
      notice.1 = received reference cb) →
    System.Permits (notify key)
      (fun db notice => ∀ record ∈ db.outbox, record.eventID ≠ notice.2.eventID) notices db →
    (∃ notice ∈ notices, notice.1.kind = .authorized ∧ notice.1.success = true ∧
      notice.1.amount.amount = row.amount) →
    (notices.foldl (notify key) db).stateOf row.id = some .authorized ∨
      (notices.foldl (notify key) db).stateOf row.id = some .captured := by
  intro settled
  have genuine : ∀ notice ∈ paidLater, ∃ input cb,
      Paymob.transparent.parseCallback input = .ok cb ∧ notice.1 = received reference cb := by
    intro notice member
    simp only [paidLater, mem_cons, not_mem_nil, or_false] at member
    rcases member with rfl | rfl
    · exact ⟨_, _, transaction_reported.1, rfl⟩
    · exact ⟨_, _, transaction_reported.2, rfl⟩
  have lost := settled inboxNames waitingOrder waitingRow paidLater inboxNames_apart
    waitingOrder_admitted (by decide +kernel) (by decide +kernel) rfl
    (waitingOrder_about paidLater (by simp [paidLater])) genuine (by decide +kernel)
    ⟨(received reference (reported true), ⟨802, 902⟩), by simp [paidLater], rfl, rfl, rfl⟩
  revert lost
  decide +kernel

end Souq.Payments
