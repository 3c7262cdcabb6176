import Souq.Orders.EffectivelyOnce

/-!
# The lock behind the outbox

Every transaction that writes a row for an order into the outbox holds the lock of
the order's row by then, and keeps it until it ends. So of two transactions that
write for one order, the second one draws its row ids after the first one has
committed: the rows of one order become visible in the order of their ids.
-/

namespace Souq.Orders

open Saga Transact Transition Function List Database SharedWrite Stmt

/-- A transaction has not seen the order's row, has seen it, or has locked it. -/
inductive Grip where
  | blind
  | seen
  | locked
  deriving DecidableEq

namespace Grip

def see : Grip → Grip
  | .locked => .locked
  | _ => .seen

/-- An `UPDATE` of the row by its id locks it, if it is there. -/
def touch : Grip → Grip
  | .blind => .blind
  | _ => .locked

def after (grip : Grip) : (q : Stmt) → q.Answer → Grip
  | .insertOrder _, _ => .locked
  | .selectOrder, some _ => grip.see
  | .updateStatus .., .updated => .locked
  | .fillIDs .., _ => grip.touch
  | _, _ => grip

/-- Only a transaction that has locked the order writes to the outbox. -/
def allows (grip : Grip) : Stmt → Prop
  | .enqueue _ => grip = .locked
  | _ => True

theorem see_ne (grip : Grip) : grip.see ≠ .blind := by cases grip <;> nofun

theorem touch_eq {grip : Grip} (known : grip ≠ .blind) : grip.touch = .locked := by
  cases grip with
  | blind => exact (known rfl).elim
  | seen | locked => rfl

end Grip

section Programs

variable {α : Type} {grip : Grip}

/-- A program locks an order before it writes to its outbox. -/
abbrev Locks (p : Tx α) (grip : Grip) (post : Except Err α → Grip → Prop) : Prop :=
  Typestate (D := dialect) Grip.allows Grip.after p grip post

theorem locks_getOrder : Locks getOrder grip fun r grip' =>
    (r = .ok none → grip' = grip) ∧ ∀ ord, r = .ok (some ord) → grip' = grip.see := by
  refine ⟨trivial, fun answer => ?_⟩
  cases answer with
  | none => exact ⟨fun _ => rfl, fun _ => nofun⟩
  | some ord => exact ⟨trivial, fun items => ⟨nofun, fun _ _ => rfl⟩⟩

theorem locks_buildCtx (retriable : Bool) :
    Locks (buildCtx retriable) grip fun _ grip' => grip' = grip :=
  ⟨trivial, fun _ => rfl⟩

theorem locks_read {f : Option Order → Tx α} (absent : Locks (f none) grip fun _ _ => True)
    (found : ∀ ord : Order, Locks (f (some ord)) grip.see fun _ _ => True) :
    Locks (getOrder >>= f) grip fun _ _ => True := by
  refine locks_getOrder.bind ?_ fun _ _ _ => trivial
  rintro (_ | ord) grip' ⟨unknown, known⟩
  · obtain rfl := unknown rfl
    exact absent
  · obtain rfl := known ord rfl
    exact found ord

theorem locks_context (retriable : Bool) {f : Ctx → Tx α}
    (continues : ∀ c, Locks (f c) grip fun _ _ => True) :
    Locks (buildCtx retriable >>= f) grip fun _ _ => True := by
  refine (locks_buildCtx retriable).bind ?_ fun _ _ _ => trivial
  rintro c grip' rfl
  exact continues c

variable (mint : Mint) (now : Time) (ord : Order)

theorem locks_emitCommand (deadline : Duration) (step : Step) (known : grip ≠ .blind) :
    Locks (emitCommand mint now ord deadline step) grip fun _ grip' => grip' = .locked :=
  ⟨trivial, fun _ => ⟨Grip.touch_eq known, fun _ => ⟨trivial, fun _ => Grip.touch_eq known⟩⟩⟩

theorem locks_emitCommands (deadline : Duration) (emit : List Step) (good : Grip → Prop)
    (known : ∀ grip, good grip → grip ≠ .blind) (locked : good .locked) (start : good grip) :
    Locks (Program.forEach (emitCommand mint now ord deadline) emit) grip
      fun _ grip' => good grip' := by
  refine Typestate.forEach (fun step _ grip' held => ?_) start
  refine (locks_emitCommand mint now ord deadline step (known grip' held)).mono ?_
  rintro _ _ rfl
  exact locked

theorem locks_acknowledge (trigger : Trigger) (eventID : Option ID) :
    Locks (acknowledge now trigger eventID) grip fun _ grip' => grip' = grip := by
  unfold acknowledge
  cases stepAckedBy trigger with
  | none => exact rfl
  | some step => exact ⟨trivial, fun _ => rfl⟩

theorem locks_updateStatus (next : State) (fields : StatusFields) :
    Locks (updateStatus ord next fields) grip fun r grip' => r = .ok () → grip' = .locked := by
  refine ⟨trivial, fun answer => ?_⟩
  cases answer with
  | updated => exact fun _ => rfl
  | stale | rejected => exact nofun

theorem locks_emitStateEvents (d : Decision) (reservationID paymentID : Option ID)
    (held : isTerminal d.next = true → grip = .locked) :
    Locks (emitStateEvents mint ord d reservationID paymentID) grip fun _ _ => True := by
  unfold emitStateEvents
  cases next : d.next with
  | confirmed | cancelled => exact ⟨held (by rw [next]; rfl), fun _ => trivial⟩
  | pending | stockReserved | paid | stockCommitted | compensating => trivial

theorem ackOnly_of_terminal {status : State} {trigger : Trigger} {c : Ctx} {d : Decision}
    (decided : Decides status trigger c d) (stays : d.next = status)
    (terminal : isTerminal d.next = true) :
    (d.ackOnly && d.next == status && d.emit.isEmpty) = true := by
  subst stays
  generalize status : d.next = s at decided terminal ⊢
  cases decided <;> simp_all [isTerminal]

theorem locks_apply {ord : Order} {trigger : Trigger} {c : Ctx} {d : Decision}
    (decided : Decides ord.status trigger c d) (eventID reservationID paymentID : Option ID)
    (reasonCode : String) (known : grip ≠ .blind) :
    Locks (apply mint now ord trigger d eventID reservationID paymentID reasonCode) grip
      fun _ _ => True := by
  refine (locks_acknowledge now trigger eventID).bind ?_ fun _ _ _ => trivial
  rintro _ grip' rfl
  split
  case isTrue => trivial
  case isFalse acts =>
    split
    case isTrue stays =>
      -- the status stays, so there is no event to announce
      refine (locks_emitCommands mint now ord d.deadline d.emit (· ≠ .blind) (fun _ held => held)
        nofun known).bind ?_ fun _ _ _ => trivial
      intro _ grip' _
      refine locks_emitStateEvents mint ord d _ _ fun terminal => ?_
      exact (acts (ackOnly_of_terminal decided stays terminal)).elim
    case isFalse =>
      refine (locks_updateStatus ord d.next _).bind ?_ fun _ _ _ => trivial
      intro _ grip' changed
      refine (locks_emitCommands mint now ord d.deadline d.emit (· = .locked) ?_ rfl
        (changed rfl)).bind ?_ fun _ _ _ => trivial
      · rintro _ rfl
        nofun
      · rintro _ grip' held
        exact locks_emitStateEvents mint ord d _ _ fun _ => held

theorem locks_handle (e : Envelope) :
    Locks (handle mint now e) grip fun _ _ => True := by
  unfold handle
  cases triggerFor e.type with
  | none => trivial
  | some trigger =>
    cases e.body with
    | none => trivial
    | some body =>
      simp only
      split
      · trivial
      · refine ⟨trivial, fun fresh => ?_⟩
        cases fresh with
        | false => trivial
        | true =>
          refine locks_read trivial fun ord => locks_context body.retriable fun c => ?_
          cases decided : Saga.next ord.status trigger c with
          | error err => trivial
          | ok d => exact locks_apply mint now (next_eq_ok.mp decided) _ _ _ _ grip.see_ne

theorem locks_placeOrder :
    Locks (placeOrder mint now ord) grip fun _ _ => True := by
  refine ⟨trivial, fun inserted => ?_⟩
  cases inserted with
  | false => trivial
  | true =>
    refine (locks_emitCommands mint now ord start.deadline start.emit (· = .locked)
      ?_ rfl rfl).bind ?_ fun _ _ _ => trivial
    · rintro _ rfl
      nofun
    · rintro _ grip' held
      exact ⟨held, fun _ => trivial⟩

theorem locks_cancelOrder (userID : ID) :
    Locks (cancelOrder mint now userID) grip fun _ _ => True := by
  refine locks_read trivial fun ord => ?_
  simp only
  split
  case isTrue => trivial
  case isFalse =>
    split
    case isTrue => trivial
    case isFalse =>
      refine locks_context false fun c => ?_
      refine (locks_updateStatus ord .compensating _).bind ?_ fun _ _ _ => trivial
      intro _ grip' changed
      refine (locks_emitCommands mint now ord timeoutCompensating _ (· = .locked) ?_ rfl
        (changed rfl)).mono fun _ _ _ => trivial
      rintro _ rfl
      nofun

theorem locks_fire (ov : OverdueOrder) :
    Locks (fire mint now ov) grip fun _ _ => True := by
  unfold fire
  split
  · exact ⟨trivial, fun _ => trivial⟩
  · refine locks_read trivial fun ord => locks_context false fun c => ?_
    cases decided : Saga.next ord.status .timeout c with
    | error err => trivial
    | ok d =>
      simp only
      split
      · trivial
      · exact locks_apply mint now (next_eq_ok.mp decided) _ _ _ _ grip.see_ne

theorem locks_sweep (ov : OverdueOrder) :
    Locks (sweep mint now ov) grip fun _ _ => True := by
  have fires : Locks (fire mint now ov).attempt grip
      fun (_ : Except Err (Except Err Unit)) _ => True :=
    Typestate.attempt (locks_fire mint now ov)
  refine fires.bind ?_ fun _ _ _ => trivial
  intro r grip' _
  split <;> trivial

end Programs

/-- What a statement makes of what a transaction has of the orders. -/
def Grip.afterShared (grips : ID → Grip) : (q : SharedStmt) → q.Answer → ID → Grip
  | .about orderID q, answer => Function.update grips orderID ((grips orderID).after q answer)
  | .purgeProcessed _, _ => grips

def Grip.allowsShared (grips : ID → Grip) : SharedStmt → Prop
  | .about orderID q => (grips orderID).allows q
  | .purgeProcessed _ => True

/-- A program locks every order before it writes to its outbox. -/
abbrev LocksAll {α : Type} (p : SharedTx α) (grips : ID → Grip)
    (post : Except Err α → (ID → Grip) → Prop) : Prop :=
  Typestate (D := shared) Grip.allowsShared Grip.afterShared p grips post

section Shared

variable {α : Type}

theorem locksAll_about (orderID : ID) {p : Tx α} {grips : ID → Grip}
    (locks : Locks p (grips orderID) fun _ _ => True) :
    LocksAll (about orderID p) grips fun _ _ => True := by
  induction p generalizing grips with
  | done a => trivial
  | fail e => trivial
  | call q rest ih =>
    refine ⟨locks.1, fun answer => ih answer ?_⟩
    change Locks _ (update grips orderID ((grips orderID).after q answer) orderID) _
    rw [update_self]
    exact locks.2 answer

theorem locksAll_claimAll (now : Time) (orderIDs : List ID) (grips : ID → Grip) :
    LocksAll (claimAll now orderIDs) grips fun _ _ => True := by
  induction orderIDs generalizing grips with
  | nil => trivial
  | cons orderID orderIDs ih =>
    have claims : Locks (claimOverdue sweepBatch now) (grips orderID) fun _ _ => True :=
      ⟨trivial, fun _ => trivial⟩
    refine (locksAll_about orderID claims).bind ?_ fun _ _ _ => trivial
    exact fun found grips' _ => (ih grips').bind (fun _ _ _ => trivial) fun _ _ _ => trivial

theorem locksAll_body (job : Job) (grips : ID → Grip) :
    LocksAll job.body grips fun _ _ => True := by
  cases job with
  | handle e mint now => exact locksAll_about _ (locks_handle mint now e)
  | place id input total mint now => exact locksAll_about _ (locks_placeOrder mint now _)
  | cancel orderID userID mint now => exact locksAll_about _ (locks_cancelOrder mint now userID)
  | sweep batch mint now =>
    refine (locksAll_claimAll now _ grips).bind ?_ fun _ _ _ => trivial
    intro found grips' _
    refine Typestate.forEach (fun ov _ grips'' _ => ?_) trivial
    exact locksAll_about _ (locks_sweep _ now ov)
  | purge ids => exact ⟨trivial, fun _ => trivial⟩

theorem locksAll_program (job : Job) (grips : ID → Grip) :
    LocksAll job.program grips fun _ _ => True :=
  (locksAll_body job grips).bind (fun _ _ _ => trivial) fun _ _ _ => trivial

end Shared

def Database.Present (db : Database) (orderID : ID) : Prop :=
  (db.tables orderID).order.isSome = true

theorem present_put (w : SharedWrite) (db : Database) (orderID : ID) :
    (w.put db).Present orderID ↔ db.Present orderID ∨ ∃ ord, w = .about orderID (.order ord) := by
  cases w with
  | purge ids => simp [put, Database.Present]
  | about other w =>
    by_cases here : orderID = other
    · subst here
      cases w with
      | order ord => simp [put, Database.Present, store, Write.put]
      | step | outbox | processed =>
        simp [put, Database.Present, store, focus, Write.put]
    · simp [put, Database.Present, store, update_of_ne here, Ne.symm here]

theorem present_replay (ws : List SharedWrite) (db : Database) (orderID : ID) :
    Database.Present (shared.replay ws db) orderID ↔
      db.Present orderID ∨ ∃ ord, .about orderID (.order ord) ∈ ws := by
  induction ws generalizing db with
  | nil =>
    change db.Present orderID ↔ _
    simp
  | cons w ws ih =>
    rw [Dialect.replay_cons, ih, present_put]
    simp only [mem_cons, or_assoc, exists_or, eq_comm]

/-- What a transaction has: the rows it has seen are there, those it has locked are held,
and so is every order it has written for. -/
structure Gripped (grips : ID → Grip) (db : Database) (writes : List SharedWrite)
    (held : List SharedKey) : Prop where
  present : ∀ orderID, grips orderID ≠ .blind → Database.Present (shared.replay writes db) orderID
  locked : ∀ orderID, grips orderID = .locked → .order orderID ∈ held
  covered : ∀ orderID record, .about orderID (.outbox record) ∈ writes → .order orderID ∈ held

def Persists (_ : List SharedKey) (db db' : Database) : Prop :=
  ∀ orderID, db.Present orderID → db'.Present orderID

theorem lockProtocol : Protocol (D := shared) (fun _ => True) Persists Gripped where
  stable := by
    intro grips db db' writes held _ gripped persists
    refine ⟨fun orderID known => ?_, gripped.locked, gripped.covered⟩
    rw [present_replay]
    exact ((present_replay ..).mp (gripped.present orderID known)).imp_left (persists orderID)
  commit := by
    intro grips db writes held _ _
    exact ⟨trivial, fun others _ orderID there => (present_replay ..).mpr (.inl there)⟩

variable {q : Stmt} {rows : Rows}

theorem after_present {grip : Grip} (known : grip ≠ .blind → rows.order.isSome = true)
    (after : grip.after q (q.answer rows) ≠ .blind) :
    rows.order.isSome = true ∨ ∃ ord, .order ord ∈ q.writes rows := by
  cases row : rows.order with
  | some ord => exact .inl rfl
  | none =>
    have blind : grip = .blind := by
      by_contra seen
      have there := known seen
      rw [row] at there
      cases there
    subst blind
    cases q with
    | insertOrder ord => exact .inr ⟨ord, by simp [writes, row]⟩
    | selectOrder =>
      simp only [answer, row] at after
      exact (after rfl).elim
    | updateStatus expectVersion next fields =>
      have missing : rows.matching expectVersion = none := by simp [Rows.matching, row]
      simp only [answer, missing] at after
      exact (after rfl).elim
    | _ => exact (after rfl).elim

theorem after_locked {grip : Grip} (known : grip ≠ .blind → rows.order.isSome = true)
    (after : grip.after q (q.answer rows) = .locked) :
    grip = .locked ∨ .order ∈ q.keys rows := by
  cases q with
  | insertOrder ord => exact .inr mem_cons_self
  | selectOrder =>
    refine .inl ?_
    cases row : rows.order <;> simp only [answer, row] at after
    · exact after
    · cases grip with
      | locked => rfl
      | blind | seen => cases after
  | updateStatus expectVersion next fields =>
    cases matched : rows.matching expectVersion with
    | none =>
      simp only [answer, matched] at after
      exact .inl after
    | some ord => exact .inr (by simp [Stmt.keys, matched])
  | fillIDs reservationID paymentID =>
    have seen : grip ≠ .blind := by
      rintro rfl
      cases after
    exact .inr (by simp [Stmt.keys, known seen])
  | _ => exact .inl after

theorem enqueue_of_outbox {record : OutboxRecord} (member : .outbox record ∈ q.writes rows) :
    ∃ record', q = .enqueue record' := by
  cases q with
  | enqueue record' => exact ⟨record', rfl⟩
  | markProcessed | insertOrder =>
    simp only [writes] at member
    split at member <;> simp at member
  | updateStatus =>
    simp only [writes] at member
    split at member
    · cases member
    · split at member <;> simp at member
  | _ => simp [writes] at member

theorem Gripped.exec {grips : ID → Grip} {q : SharedStmt} {db : Database}
    {writes : List SharedWrite} {held : List SharedKey} (allowed : Grip.allowsShared grips q)
    (gripped : Gripped grips db writes held) :
    Gripped (Grip.afterShared grips q (shared.answer q (shared.replay writes db))) db
      (writes ++ shared.writes q (shared.replay writes db))
      (held ++ shared.keys q (shared.replay writes db)) := by
  generalize viewed : shared.replay writes db = view
  have present : ∀ orderID, grips orderID ≠ .blind → Database.Present view orderID :=
    viewed ▸ gripped.present
  have grows : ∀ {orderID}, Database.Present view orderID →
      Database.Present (shared.replay (writes ++ shared.writes q view) db) orderID := by
    intro orderID there
    rw [Dialect.replay_append, viewed, present_replay]
    exact .inl there
  cases q with
  | purgeProcessed ids =>
    refine ⟨fun orderID known => grows (present orderID known), fun orderID locked => ?_,
      fun orderID record member => ?_⟩
    · exact mem_append_left _ (gripped.locked orderID locked)
    · rcases mem_append.mp member with old | new
      · exact mem_append_left _ (gripped.covered orderID record old)
      · cases mem_singleton.mp new
  | about other q =>
    have known : grips other ≠ .blind → (focus view other).order.isSome = true :=
      present other
    refine ⟨fun orderID after => ?_, fun orderID after => ?_, fun orderID record member => ?_⟩
    · by_cases here : orderID = other
      · subst here
        change update grips orderID _ orderID ≠ _ at after
        rw [update_self] at after
        rcases after_present known after with there | ⟨ord, written⟩
        · exact grows there
        · rw [present_replay]
          exact .inr ⟨ord, mem_append_right _ (mem_map_of_mem written)⟩
      · change update grips other _ orderID ≠ _ at after
        rw [update_of_ne here] at after
        exact grows (present orderID after)
    · by_cases here : orderID = other
      · subst here
        change update grips orderID _ orderID = _ at after
        rw [update_self] at after
        rcases after_locked known after with before | taken
        · exact mem_append_left _ (gripped.locked orderID before)
        · exact mem_append_right _ (mem_map_of_mem taken)
      · change update grips other _ orderID = _ at after
        rw [update_of_ne here] at after
        exact mem_append_left _ (gripped.locked orderID after)
    · refine mem_append_left _ ?_
      rcases mem_append.mp member with old | new
      · exact gripped.covered orderID record old
      · obtain ⟨w, written, same⟩ := mem_map.mp new
        cases same
        obtain ⟨record', rfl⟩ := enqueue_of_outbox written
        exact gripped.locked other allowed

theorem Gripped.skip {grips : ID → Grip} {q : SharedStmt} {answer : q.Answer} {db : Database}
    {writes : List SharedWrite} {held : List SharedKey} (skips : shared.skip q = some answer)
    (gripped : Gripped grips db writes held) :
    Gripped (Grip.afterShared grips q answer) db writes held := by
  have same : Grip.afterShared grips q answer = grips := by
    cases q with
    | purgeProcessed ids => cases skips
    | about orderID q =>
      cases q with
      | claimOverdue limit now => exact update_eq_self orderID grips
      | _ => cases skips
  rwa [same]

/-- **The lock behind the outbox.** A transaction that has written for an order holds its
lock. -/
theorem order_held {ι : Type} [DecidableEq ι] {c : Config shared ι Err Job}
    (reached : (Pipeline.transactions ι).Reachable c) {i : ι} {session : Session shared Err Job}
    (active : c.sessions i = some session) {orderID : ID} {record : OutboxRecord}
    (wrote : .about orderID (.outbox record) ∈ session.writes) :
    .order orderID ∈ session.held := by
  have good : c.Good (fun _ => True) Gripped := by
    refine lockProtocol.good trivial (fun p offered => ?_) reached
    obtain ⟨job, rfl⟩ := offered
    refine ⟨fun _ => .blind, fun db _ => ⟨fun _ blind => (blind rfl).elim, fun _ => nofun,
      fun _ _ => nofun⟩, ?_⟩
    exact (locksAll_program job _).sound (fun _ _ _ _ _ allowed _ gripped => gripped.exec allowed)
      fun _ _ _ _ _ _ skips gripped => gripped.skip skips
  obtain ⟨grips, gripped, -⟩ := good.sound i session active
  exact gripped.covered orderID record wrote

end Souq.Orders
