import Souq.Lib.ReadCommitted
import Souq.Payments.Callback
import Souq.Payments.Consumer

/-!
# One charge attempt for an order

The transactions of payment-service interleaved statement by statement. A handler
that commits the first transaction of an `Authorize` is the only one that ever does
so for its order: it inserted the payment of the order, whose unique keys it held
locked until the commit, and the row never leaves the table. A payment is never
committed as pending, so no later handler takes a committed row up again.
-/

namespace Souq.Payments

open Transact Transition Database List Table

/-- What a transaction has done to `payments`: nothing, a row it loaded and locked, or a
row it wrote over one it had locked or in a new place. -/
inductive Stage where
  | clean
  | locked (old : Payment)
  | wrote (old : Option Payment) (row : Payment)

def Stage.Settled : Stage → Prop
  | .wrote _ row => row.state ≠ .pending
  | _ => True

/-- Two versions of a payment belong to the same order under the same provider key. -/
structure SamePayment (old row : Payment) : Prop where
  id : row.id = old.id
  orderID : row.orderID = old.orderID
  pspIdempotencyKey : row.pspIdempotencyKey = old.pspIdempotencyKey

theorem SamePayment.withState (row : Payment) (next : State) (fields : StateFields) :
    SamePayment row (row.withState next fields) := ⟨rfl, rfl, rfl⟩

namespace Charges

def NonePending (db : Database) : Prop := ∀ row ∈ db.payments, row.state ≠ .pending

/-- What others leave to a transaction: the rows it locked and the orders it locked. -/
structure Undisturbed (held : List Key) (db db' : Database) : Prop where
  payment : ∀ id, .payment id ∈ held → db'.payment id = db.payment id
  order : ∀ orderID, .order orderID ∈ held → db.paymentOf orderID = none →
    db'.paymentOf orderID = none

def Replaces (old : Option Payment) (row : Payment) (db : Database) (held : List Key) : Prop :=
  match old with
  | some old => db.payment old.id = some old ∧ SamePayment old row
  | none => .order row.orderID ∈ held ∧ db.payment row.id = none ∧ db.paymentOf row.orderID = none

/-- What a transaction knows of the committed tables. -/
def Note : Stage → Database → List Write → List Key → Prop
  | .clean, _, writes, _ => ∀ db, (dialect.replay writes db).payments = db.payments
  | .locked old, db, writes, held =>
    (∀ db, (dialect.replay writes db).payments = db.payments) ∧ .payment old.id ∈ held ∧
      db.payment old.id = some old
  | .wrote old row, db, writes, held =>
    (∀ db, (dialect.replay writes db).payments = upsert Payment.id row db.payments) ∧
      .payment row.id ∈ held ∧ Replaces old row db held

variable {old : Option Payment} {row : Payment} {db : Database} {held : List Key}

theorem Replaces.stable {db' : Database} (locked : .payment row.id ∈ held)
    (replaces : Replaces old row db held) (rely : Undisturbed held db db') :
    Replaces old row db' held := by
  cases old with
  | some old =>
    obtain ⟨found, same⟩ := replaces
    refine ⟨(rely.payment old.id ?_).trans found, same⟩
    rwa [← same.id]
  | none =>
    obtain ⟨order, new, free⟩ := replaces
    exact ⟨order, (rely.payment row.id locked).trans new, rely.order _ order free⟩

theorem paymentOf_none {orderID : ID} :
    db.paymentOf orderID = none ↔ ∀ row ∈ db.payments, row.orderID ≠ orderID := by
  simp [paymentOf, find]

theorem Replaces.undisturbed {after : Database} {others : List Key}
    (locked : .payment row.id ∈ held) (replaces : Replaces old row db held)
    (writes : after.payments = upsert Payment.id row db.payments)
    (apart : ∀ key ∈ others, key ∉ held) : Undisturbed others db after := by
  refine ⟨fun id taken => ?_, fun orderID taken free => ?_⟩
  · have different : row.id ≠ id := by
      rintro rfl
      exact apart _ taken locked
    rw [payment, writes, find_upsert, if_neg different]
    rfl
  · rw [paymentOf_none] at free ⊢
    intro other member owned
    rw [writes] at member
    rcases mem_upsert member with rfl | member
    · cases old with
      | some old =>
        obtain ⟨found, same⟩ := replaces
        exact free old (mem_of_find found) (same.orderID.symm.trans owned)
      | none => exact apart _ taken (owned ▸ replaces.1)
    · exact free other member owned

variable {α : Type}

variable {post : α → Stage → Prop} {k : Stage}

theorem agreement (settles : ∀ a k, post a k → k.Settled) :
    Agreement (D := dialect) NonePending Undisturbed Note post where
  stable := by
    intro k db db' writes held _ note rely
    cases k with
    | clean => exact note
    | locked old => exact ⟨note.1, note.2.1, (rely.payment old.id note.2.1).trans note.2.2⟩
    | wrote old row => exact ⟨note.1, note.2.1, note.2.2.stable note.2.1 rely⟩
  commit := by
    intro a k db writes held inv note result
    have quiet : (dialect.replay writes db).payments = db.payments →
        NonePending (dialect.replay writes db) ∧ ∀ others, (∀ key ∈ others, key ∉ held) →
          Undisturbed others db (dialect.replay writes db) := by
      intro same
      refine ⟨fun row member => inv row (same ▸ member), fun others _ => ⟨fun id _ => ?_, ?_⟩⟩
      · simp only [payment, same]
      · intro orderID _ free
        simpa only [paymentOf, same] using free
    cases k with
    | clean => exact quiet (note db)
    | locked old => exact quiet (note.1 db)
    | wrote old row =>
      refine ⟨fun other member => ?_, fun others apart =>
        note.2.2.undisturbed note.2.1 (note.1 db) apart⟩
      rw [note.1 db] at member
      rcases mem_upsert member with rfl | member
      · exact settles a _ result
      · exact inv other member

variable {β : Type}

/-- From a stage a program comes to its results with a stage that meets a
postcondition. -/
def Ends (p : Tx α) (k : Stage) (post : α → Stage → Prop) : Prop :=
  Sound (D := dialect) NonePending Note p k (Promised post)

theorem Ends.pure {a : α} (holds : post a k) :
    Ends (pure a) k post := by
  rintro _ ⟨⟩
  exact holds

theorem Ends.fail (e : Err) : Ends (.fail e) k post :=
  nofun

theorem Ends.mono {p : Tx α} {post' : α → Stage → Prop} (ends : Ends p k post)
    (weaker : ∀ a k, post a k → post' a k) : Ends p k post' :=
  Sound.mono ends fun _ _ holds a same => weaker a _ (holds a same)

theorem Ends.bind {p : Tx α} {f : α → Tx β} {post' : β → Stage → Prop} (ends : Ends p k post)
    (continues : ∀ a k, post a k → Ends (f a) k post') : Ends (p >>= f) k post' :=
  Sound.bind ends (fun a k holds => continues a k (holds a rfl)) fun _ _ _ => nofun

theorem Note.extend {writes more : List Write} {keys : List Key} (note : Note k db writes held)
    (quiet : ∀ db, (dialect.replay more db).payments = db.payments) :
    Note k db (writes ++ more) (held ++ keys) := by
  have same : ∀ db, (dialect.replay (writes ++ more) db).payments =
      (dialect.replay writes db).payments := fun db => by rw [Dialect.replay_append, quiet]
  cases k with
  | clean => exact fun db => (same db).trans (note db)
  | locked old =>
    exact ⟨fun db => (same db).trans (note.1 db), mem_append_left _ note.2.1, note.2.2⟩
  | wrote old row =>
    refine ⟨fun db => (same db).trans (note.1 db), mem_append_left _ note.2.1, ?_⟩
    cases old with
    | some old => exact note.2.2
    | none => exact ⟨mem_append_left _ note.2.2.1, note.2.2.2⟩

theorem ends_quiet {q : Stmt} (k : Stage)
    (quiet : ∀ view db, (dialect.replay (q.writes view) db).payments = db.payments) :
    Ends (Program.stmt (D := dialect) q) k fun _ k' => k' = k := by
  refine ⟨fun db writes held inv note =>
    ⟨k, note.extend (quiet _), ?_⟩, fun _ skips => by cases skips⟩
  rintro _ ⟨⟩
  rfl

variable (cfg : Config) (mint : Mint) (eventID paymentID : ID)

theorem ends_claimEvent (k : Stage) :
    Ends (claimEvent eventID) k fun _ k' => k' = k := by
  refine ends_quiet k fun view db => ?_
  simp only [Stmt.writes]
  split <;> rfl

theorem ends_recordAttempt (attempt : Attempt) (k : Stage) :
    Ends (recordAttempt attempt) k fun _ k' => k' = k := ends_quiet k fun _ _ => rfl

theorem ends_emit (event : Event) (k : Stage) :
    Ends (emit mint event) k fun _ k' => k' = k := ends_quiet k fun _ _ => rfl

theorem ends_writeLedger (entry : LedgerEntry) (k : Stage) :
    Ends (writeLedger entry) k fun _ k' => k' = k := by
  refine (ends_quiet k fun view db => ?_).bind fun taken k' same => ?_
  · simp only [Stmt.writes]
    split <;> rfl
  · cases taken
    · exact .fail _
    · exact .pure same

def Loaded : Option Payment → Stage → Prop
  | none, k => k = .clean
  | some row, k => k = .locked row ∧ row.state ≠ .pending

theorem ends_getPaymentForUpdate :
    Ends (getPaymentForUpdate paymentID) .clean Loaded := by
  refine ⟨fun db writes held inv note => ?_, fun _ skips => by cases skips⟩
  have view : (dialect.replay writes db).payment paymentID = db.payment paymentID := by
    simp only [payment, note db]
  have extends' : ∀ keys, Note .clean db (writes ++ []) (held ++ keys) :=
    fun keys => note.extend fun _ => rfl
  cases found : db.payment paymentID with
  | none =>
    refine ⟨.clean, extends' _, ?_⟩
    rintro _ ⟨⟩
    simp only [Stmt.answer, view, found]
    rfl
  | some row =>
    have named : row.id = paymentID := key_of_find found
    refine ⟨.locked row, ⟨extends' [], mem_append_right _ ?_, payment_of_find found⟩, ?_⟩
    · simp only [Stmt.keys, view, found, named, Option.isSome_some, ↓reduceIte, mem_singleton]
    · rintro _ ⟨⟩
      simp only [Stmt.answer, view, found]
      exact ⟨rfl, inv row (mem_of_find found)⟩

theorem ends_found {paymentID : ID} {f : Option Payment → Tx α}
    (missing : ∀ k, Ends (f none) k post)
    (each : ∀ row, Ends (f (some row)) (.locked row) post) :
    Ends (getPaymentForUpdate paymentID >>= f) .clean post := by
  refine (ends_getPaymentForUpdate paymentID).bind fun found k loaded => ?_
  cases found with
  | none => exact missing k
  | some row =>
    obtain ⟨rfl, -⟩ := loaded
    exact each row

theorem ends_insertPayment (row : Payment) :
    Ends (insertPayment row) .clean fun _ k => k = .wrote none row := by
  have inserts : Ends (Program.stmt (D := dialect) (.insertPayment row)) .clean
      fun answer k => answer = InsertAnswer.inserted → k = .wrote none row := by
    refine ⟨fun db writes held inv note => ?_, fun _ skips => by cases skips⟩
    by_cases inserted : (dialect.replay writes db).inserting row = .inserted
    · have free : db.payment row.id = none ∧ db.paymentOf row.orderID = none := by
        simp only [inserting, payment, paymentOf, note db] at inserted
        split at inserted
        · cases inserted
        · rename_i taken
          simp only [Bool.or_eq_true, Option.isSome_iff_ne_none, not_or, not_not] at taken
          exact taken.1
      refine ⟨.wrote none row, ⟨fun other => ?_, ?_, ?_, free⟩, ?_⟩
      · simp only [Stmt.writes, inserted, ↓reduceIte]
        rw [Dialect.replay_append]
        exact congrArg _ (note other)
      · exact mem_append_right _ mem_cons_self
      · exact mem_append_right _ (mem_cons_of_mem _ mem_cons_self)
      · rintro _ ⟨⟩ _
        rfl
    · refine ⟨.clean, note.extend fun _ => ?_, ?_⟩
      · simp only [Stmt.writes, inserted, ↓reduceIte]
        rfl
      · rintro _ ⟨⟩ now
        exact (inserted now).elim
  refine inserts.bind fun answer k wrote => ?_
  cases answer with
  | inserted => exact .pure (wrote rfl)
  | duplicate => exact .fail _
  | rejected => exact .fail _

theorem ends_update {k' : Stage} (next : State) (fields : StateFields)
    (there : ∀ db writes held, Note k db writes held → (dialect.replay writes db).payment row.id =
      some row)
    (advances : ∀ db writes held, Note k db writes held → Note k' db (writes ++ [.payment
      (row.withState next fields)]) (held ++ [.payment row.id])) :
    Ends (updatePaymentState row next fields) k fun _ k'' => k'' = k' := by
  have updates : Ends (Program.stmt (D := dialect)
      (.updatePaymentState row.id row.version next fields)) k
      fun answer k'' => answer = UpdateAnswer.updated → k'' = k' := by
    refine ⟨fun db writes held inv note => ?_, fun _ skips => by cases skips⟩
    have matched : (dialect.replay writes db).matching row.id row.version = some row := by
      simp [matching, there db writes held note]
    by_cases admitted : (row.withState next fields).admissible = true
    · refine ⟨k', ?_, ?_⟩
      · simpa only [Stmt.writes, Stmt.keys, matched, admitted, Option.isSome_some, ↓reduceIte]
          using advances db writes held note
      · rintro _ ⟨⟩ _
        rfl
    · refine ⟨k, note.extend fun _ => ?_, ?_⟩
      · simp only [Stmt.writes, matched, admitted, Bool.false_eq_true, ↓reduceIte]
        rfl
      · rintro _ ⟨⟩ now
        simp only [Stmt.answer, matched, admitted, Bool.false_eq_true, ↓reduceIte] at now
        cases now
  refine updates.bind fun answer k'' wrote => ?_
  cases answer with
  | updated => exact .pure (wrote rfl)
  | stale => exact .fail _
  | rejected => exact .fail _

theorem ends_update_locked (row : Payment) (next : State) (fields : StateFields) :
    Ends (updatePaymentState row next fields) (.locked row)
      fun _ k => k = .wrote (some row) (row.withState next fields) := by
  refine ends_update next fields (fun db writes held note => ?_) fun db writes held note => ?_
  · simpa only [payment, note.1 db] using note.2.2
  · refine ⟨fun other => ?_, mem_append_left _ note.2.1, note.2.2, .withState ..⟩
    rw [Dialect.replay_append]
    exact congrArg _ (note.1 other)

theorem ends_update_new (row : Payment) (next : State) (fields : StateFields) :
    Ends (updatePaymentState row next fields) (.wrote none row)
      fun _ k => k = .wrote none (row.withState next fields) := by
  refine ends_update next fields (fun db writes held note => ?_) fun db writes held note => ?_
  · simp [payment, note.1 db, find_upsert]
  · obtain ⟨wrote, locked, order, free⟩ := note
    have same : row.id = (row.withState next fields).id := rfl
    refine ⟨fun other => ?_, mem_append_left _ locked, mem_append_left _ order, free⟩
    rw [Dialect.replay_append]
    exact (congrArg _ (wrote other)).trans (upsert_upsert same _)

theorem ends_emitForState (row : Payment) (k : Stage) :
    Ends (emitForState mint row) k fun _ k' => k' = k := by
  unfold emitForState
  cases eventFor row with
  | none => exact .pure rfl
  | some event => exact ends_emit mint event k

theorem ends_claim {eventID : ID} {body : Tx α} {otherwise : α} (ends : Ends body .clean post)
    (holds : post otherwise .clean) :
    Ends (claimEvent eventID >>= fun fresh => if fresh = true then body else pure otherwise)
      .clean post := by
  refine (ends_claimEvent eventID .clean).bind fun fresh k same => ?_
  subst same
  cases fresh with
  | false => exact .pure holds
  | true => exact ends

def Inserted (cfg : Config) (cmd : AuthorizeCommand) (goes : Bool) (k : Stage) : Prop :=
  k.Settled ∧ (goes = true → ∃ row, k = .wrote none row ∧ row.id = cmd.paymentID ∧
    row.orderID = cmd.orderID ∧
    row.pspIdempotencyKey = cfg.derive .authorize cmd.orderID cmd.idempotencyKey)

theorem ends_authorizeStart (cmd : AuthorizeCommand) :
    Ends (authorizeStart cfg mint eventID cmd) .clean (Inserted cfg cmd) := by
  refine ends_claim ?_ ⟨trivial, nofun⟩
  refine (ends_getPaymentForUpdate cmd.paymentID).bind fun found k loaded => ?_
  cases found with
  | none =>
    obtain rfl : k = .clean := loaded
    refine (ends_insertPayment (newPayment cfg cmd)).bind fun _ k wrote => ?_
    subst wrote
    refine (ends_update_new (newPayment cfg cmd) .authorizing {}).bind fun _ k wrote => ?_
    subst wrote
    exact .pure ⟨by simp [Stage.Settled, Payment.withState], fun _ => ⟨_, rfl, rfl, rfl, rfl⟩⟩
  | some row =>
    obtain ⟨rfl, settled⟩ := loaded
    simp only [ne_eq, settled, not_false_eq_true, ↓reduceIte]
    refine (ends_emitForState mint row (.locked row)).bind fun _ k same => ?_
    subst same
    exact .pure ⟨trivial, nofun⟩

/-- The stage of a transaction that leaves no pending row. -/
abbrev Settling (_ : α) (k : Stage) : Prop := k.Settled

theorem settled_withState {next : State} {fields : StateFields} (settled : next ≠ .pending) :
    (Stage.wrote old (row.withState next fields)).Settled := settled

theorem ends_update_emit {next : State} (settled : next ≠ .pending) (fields : StateFields)
    (mint : Mint) (event : Event) :
    Ends (updatePaymentState row next fields >>= fun _ => emit mint event) (.locked row)
      Settling := by
  refine (ends_update_locked row next fields).bind fun _ k wrote => ?_
  subst wrote
  refine (ends_emit mint event _).mono fun _ k same => ?_
  subst same
  exact settled_withState settled

theorem ends_captureStart :
    Ends (captureStart mint eventID paymentID) .clean Settling := by
  refine ends_claim ?_ trivial
  refine ends_found (fun _ => .fail _) fun row => ?_
  by_cases captured : row.state = .captured
  · simp only [captured, ↓reduceIte]
    refine (ends_emit mint _ (.locked row)).bind fun _ k same => ?_
    subst same
    exact .pure trivial
  by_cases authorized : row.state = .authorized
  · simp only [authorized, reduceCtorEq, not_true_eq_false, ne_eq, ↓reduceIte]
    refine (ends_update_locked row .capturing {}).bind fun _ k wrote => ?_
    subst wrote
    exact .pure (settled_withState (by decide))
  · simp only [captured, authorized, ne_eq, not_false_eq_true, ↓reduceIte]
    exact .fail _

theorem ends_voidStart (orderID paymentID key : ID) :
    Ends (voidStart cfg mint eventID orderID paymentID key) .clean Settling := by
  refine ends_claim ?_ trivial
  refine (ends_getPaymentForUpdate paymentID).bind fun found k loaded => ?_
  cases found with
  | none =>
    obtain rfl : k = .clean := loaded
    refine (ends_insertPayment (tombstone cfg orderID paymentID key)).bind fun _ k wrote => ?_
    subst wrote
    refine (ends_emit mint _ _).bind fun _ k same => ?_
    subst same
    exact .pure (by simp [Settling, Stage.Settled, tombstone])
  | some row =>
    obtain ⟨rfl, -⟩ := loaded
    have announces : Ends (emit mint (.voided orderID paymentID false) >>= fun _ => pure false)
        (.locked row) Settling := by
      refine (ends_emit mint _ (.locked row)).bind fun _ k same => ?_
      subst same
      exact .pure trivial
    cases state : row.state <;> simp only [state] <;>
      first | exact .pure trivial | exact .fail _ | exact announces

theorem ends_authorizeFinish (cmd : AuthorizeCommand) (result : Result) :
    Ends (authorizeFinish cfg mint cmd result) .clean Settling := by
  refine ends_found (fun _ => .fail _) fun row => ?_
  refine (ends_recordAttempt _ (.locked row)).bind fun _ k same => ?_
  subst same
  cases result.outcome with
  | approved | declined => exact ends_update_emit (by decide) ..
  | pending => exact .pure trivial
  | unknown => exact .pure trivial

theorem ends_settleCapture (pspKey : ID) (result : Result) :
    Ends (settleCapture mint paymentID pspKey result) .clean Settling := by
  refine ends_found (fun _ => .fail _) fun row => ?_
  refine (ends_recordAttempt _ (.locked row)).bind fun _ k same => ?_
  subst same
  by_cases approved : result.outcome = .approved
  · simp only [approved, ne_eq, not_true_eq_false, ↓reduceIte]
    refine (ends_update_locked row .captured _).bind fun _ k wrote => ?_
    subst wrote
    refine (ends_writeLedger _ _).bind fun _ k same => ?_
    subst same
    refine (ends_writeLedger _ _).bind fun _ k same => ?_
    subst same
    refine (ends_emit mint _ _).mono fun _ k same => ?_
    subst same
    exact settled_withState (by decide)
  · simp only [approved, ne_eq, not_false_eq_true, ↓reduceIte]
    exact .pure trivial

theorem ends_voidFinish (orderID paymentID pspKey : ID) (result : Result) :
    Ends (voidFinish mint orderID paymentID pspKey result) .clean Settling := by
  refine ends_found (fun _ => .fail _) fun row => ?_
  refine (ends_recordAttempt _ (.locked row)).bind fun _ k same => ?_
  subst same
  by_cases approved : result.outcome = .approved
  · simp only [approved, ne_eq, not_true_eq_false, ↓reduceIte]
    exact ends_update_emit (by decide) ..
  · simp only [approved, ne_eq, not_false_eq_true, ↓reduceIte]
    exact .pure trivial

theorem ends_settle (result : Result) (call : Call) :
    Ends (call.settle cfg mint result) .clean Settling := by
  cases call with
  | authorize cmd => exact ends_authorizeFinish cfg mint cmd result
  | capture orderID paymentID pspKey providerAuthID => exact ends_settleCapture mint ..
  | void orderID paymentID pspKey => exact ends_voidFinish mint ..

theorem ends_writeCapture (cur : Payment) (captured : Int) (settled : k.Settled) :
    Ends (writeCapture mint cur captured) k Settling := by
  refine (ends_writeLedger _ k).bind fun _ k' same => ?_
  subst same
  refine (ends_writeLedger _ k').mono fun _ k'' same => ?_
  subst same
  exact settled

theorem ends_apply (cb : Callback) (row : Payment) :
    Ends (cb.apply mint row) (.locked row) Settling := by
  unfold Callback.apply
  cases cb.kind with
  | authorized =>
    dsimp only
    split
    · exact .pure trivial
    split
    · exact .pure trivial
    split
    · exact .fail _
    · exact ends_update_emit (by decide) ..
  | captured =>
    refine (ends_update_locked row .captured _).bind fun _ k wrote => ?_
    subst wrote
    refine (ends_writeCapture mint row _ (settled_withState (by decide))).bind fun _ k settled => ?_
    refine (ends_emit mint _ k).mono fun _ k' same => ?_
    subst same
    exact settled
  | failed =>
    dsimp only
    split
    · exact .pure trivial
    · exact ends_update_emit (by decide) ..
  | voided => exact ends_update_emit (by decide) ..
  | refunded => exact .pure trivial

theorem ends_handleCallback (key : CallbackKey) (mint : Mint) (cb : Callback) (paymentID : ID) :
    Ends (handleCallback key mint cb paymentID) .clean Settling := by
  refine ends_claim ?_ trivial
  refine ends_found (fun _ => .fail _) fun row => ?_
  exact ends_apply mint cb row

end Charges

end Souq.Payments
