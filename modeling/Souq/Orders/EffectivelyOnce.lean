import Mathlib.Data.Fintype.Basic
import Mathlib.Data.List.Pairwise
import Souq.Lib.Serial
import Souq.Orders.Pipeline

/-!
# Effectively-once processing

Nothing is published that was not committed, a row is marked as published only when the
broker acknowledged it, and an inbound event changes the tables in one transaction for
each time it is entered in the inbox.

A transaction of `Handle` enters its event in the inbox before it does anything else.
While it is open it holds the lock on that entry, so that no other transaction can
enter the same event, and an event that is already there ends the transaction at once.
Only the janitor takes entries out.
-/

namespace Souq.Orders

open Saga Transact Transition Function List

def Stmt.plain : Stmt → Prop
  | .markProcessed _ => False
  | _ => True

def Stmt.acks (eventID : ID) : Stmt → Prop
  | .recordStepAcked _ (some other) _ => other = eventID
  | _ => False

def Write.plain : Write → Prop
  | .processed _ => False
  | _ => True

theorem Stmt.plain.writes {q : Stmt} (plain : q.plain) (rows : Rows) :
    ∀ w ∈ q.writes rows, w.plain := by
  intro w member
  cases q with
  | markProcessed eventID => exact plain.elim
  | insertOrder ord =>
    simp only [Stmt.writes] at member
    split at member
    · cases mem_singleton.mp member
      trivial
    · cases member
  | selectOrder => cases member
  | selectItems => cases member
  | selectSteps => cases member
  | updateStatus expectVersion next fields =>
    simp only [Stmt.writes] at member
    split at member
    · cases member
    · split at member
      · cases mem_singleton.mp member
        trivial
      · cases member
  | fillIDs reservationID paymentID =>
    obtain ⟨ord, -, rfl⟩ := Option.map_eq_some_iff.mp (Option.mem_toList.mp member)
    trivial
  | recordStepSent step deadline now =>
    cases mem_singleton.mp member
    trivial
  | recordStepAcked step eventID now =>
    cases mem_singleton.mp member
    trivial
  | postponeStep step deadline =>
    obtain ⟨row, -, rfl⟩ := Option.map_eq_some_iff.mp (Option.mem_toList.mp member)
    trivial
  | enqueue record =>
    simp only [Stmt.writes] at member
    split at member
    · cases member
    · cases mem_singleton.mp member
      trivial
  | claimOverdue limit now => cases member

section Programs

variable {α : Type}

theorem only_getOrder : getOrder.Only Stmt.plain := by
  refine Program.Only.bind ⟨trivial, fun _ => trivial⟩ ?_
  rintro (_ | ord)
  · trivial
  · exact ⟨trivial, fun _ => trivial⟩

theorem only_buildCtx (retriable : Bool) : (buildCtx retriable).Only Stmt.plain :=
  Program.Only.bind ⟨trivial, fun _ => trivial⟩ fun _ => trivial

variable (mint : Mint) (now : Time) (ord : Order)

theorem only_emitCommand (deadline : Duration) (step : Step) :
    (emitCommand mint now ord deadline step).Only Stmt.plain :=
  ⟨trivial, fun _ => ⟨trivial, fun _ => ⟨trivial, fun _ => trivial⟩⟩⟩

theorem only_emitStateEvents (d : Decision) (reservationID paymentID : Option ID) :
    (emitStateEvents mint ord d reservationID paymentID).Only Stmt.plain := by
  unfold emitStateEvents
  cases d.next with
  | confirmed | cancelled => exact ⟨trivial, fun _ => trivial⟩
  | _ => trivial

theorem only_acknowledge (trigger : Trigger) (eventID : Option ID) :
    (acknowledge now trigger eventID).Only Stmt.plain := by
  unfold acknowledge
  cases stepAckedBy trigger with
  | none => trivial
  | some step => exact ⟨trivial, fun _ => trivial⟩

theorem only_updateStatus (next : State) (fields : StatusFields) :
    (updateStatus ord next fields).Only Stmt.plain := by
  refine ⟨trivial, fun answer => ?_⟩
  cases answer with
  | updated => trivial
  | stale => trivial
  | rejected => trivial

theorem only_apply (trigger : Trigger) (d : Decision) (eventID reservationID paymentID : Option ID)
    (reasonCode : String) :
    (apply mint now ord trigger d eventID reservationID paymentID reasonCode).Only Stmt.plain := by
  refine (only_acknowledge now trigger eventID).bind fun _ => ?_
  split
  · trivial
  · have emits : (do
        Program.forEach (emitCommand mint now ord d.deadline) d.emit
        emitStateEvents mint ord d reservationID paymentID : Tx Unit).Only Stmt.plain :=
      (Program.Only.forEach (only_emitCommand mint now ord d.deadline) d.emit).bind fun _ =>
        only_emitStateEvents mint ord d reservationID paymentID
    split
    · exact emits
    · exact (only_updateStatus ord d.next _).bind fun _ => emits

theorem only_react (trigger : Trigger) (e : Envelope) (body : Body) :
    (react mint now ord trigger e body).Only Stmt.plain := by
  refine (only_buildCtx body.retriable).bind fun sctx => ?_
  split
  · trivial
  · exact only_apply ..

theorem only_placeOrder :
    (placeOrder mint now ord).Only Stmt.plain := by
  refine Program.Only.bind (p := insertOrder ord) ⟨trivial, fun _ => trivial⟩ fun inserted => ?_
  split
  · exact (Program.Only.forEach (only_emitCommand mint now ord start.deadline) start.emit).bind
      fun _ =>
      ⟨trivial, fun _ => trivial⟩
  · trivial

theorem only_cancelOrder (userID : ID) :
    (cancelOrder mint now userID).Only Stmt.plain := by
  refine only_getOrder.bind ?_
  rintro (_ | ord)
  · trivial
  · simp only
    split
    · trivial
    · split
      · trivial
      · refine (only_buildCtx false).bind fun sctx => ?_
        exact (only_updateStatus ord .compensating _).bind fun _ =>
          Program.Only.forEach (only_emitCommand mint now ord timeoutCompensating) _

theorem only_attempt {ε' : Type} {p : Tx α} (only : p.Only Stmt.plain) :
    (p.attempt : Program dialect ε' (Except Err α)).Only Stmt.plain := by
  induction p with
  | done a => trivial
  | fail e => trivial
  | call q rest ih => exact ⟨only.1, fun answer => ih answer (only.2 answer)⟩

theorem only_fire (ov : OverdueOrder) :
    (fire mint now ov).Only Stmt.plain := by
  unfold fire
  split
  · exact ⟨trivial, fun _ => trivial⟩
  · refine only_getOrder.bind ?_
    rintro (_ | ord)
    · trivial
    · refine (only_buildCtx false).bind fun sctx => ?_
      split
      · trivial
      · split
        · trivial
        · exact only_apply ..

theorem only_sweep (ov : OverdueOrder) :
    (sweep mint now ov).Only Stmt.plain := by
  refine (only_attempt (only_fire mint now ov)).bind fun result => ?_
  split
  · trivial
  · trivial

theorem stepAckedBy_of_accepted {type : EventType} (accepted : acceptType type = true) :
    ∃ trigger step, triggerFor type = some trigger ∧ stepAckedBy trigger = some step := by
  cases type with
  | other name => cases accepted
  | _ => exact ⟨_, _, rfl, rfl⟩

theorem through_react {trigger : Trigger} {step : Step} (acked : stepAckedBy trigger = some step)
    (e : Envelope) (body : Body) :
    (react mint now ord trigger e body).Through (Stmt.acks e.id) := by
  refine Program.Through.after _ fun sctx => ?_
  split
  · trivial
  · refine Program.Through.bind ?_ _
    rw [acknowledge, acked]
    exact .inl rfl

/-- `Handle` enters the event in the inbox first. It is done when the event was already
there, and acknowledges a step otherwise. -/
theorem handle_begins {e : Envelope} (accepted : acceptType e.type = true) :
    handle mint now e = .fail .permanent ∨
      ∃ rest, handle mint now e = .call (.markProcessed e.id) rest ∧
      rest false = .done () ∧ Program.Only Stmt.plain (rest true) ∧
        Program.Through (Stmt.acks e.id) (rest true) := by
  obtain ⟨trigger, step, known, acked⟩ := stepAckedBy_of_accepted accepted
  unfold handle
  rw [known]
  cases e.body with
  | none => exact .inl rfl
  | some body =>
    simp only
    split
    · exact .inl rfl
    · refine .inr ⟨_, rfl, rfl, ?_, ?_⟩
      · change (getOrder >>= _ : Tx Unit).Only Stmt.plain
        refine only_getOrder.bind ?_
        rintro (_ | ord)
        · trivial
        · exact only_react mint now ord trigger e body
      · change (getOrder >>= _ : Tx Unit).Through (Stmt.acks e.id)
        refine Program.Through.after _ ?_
        rintro (_ | ord)
        · trivial
        · exact through_react mint now ord acked e body

end Programs

/-- A statement that leaves the inbox alone. -/
def SharedStmt.plain : SharedStmt → Prop
  | .about _ q => q.plain
  | .purgeProcessed _ => False

/-- A write that leaves the inbox alone. -/
def SharedWrite.plain : SharedWrite → Prop
  | .about _ w => w.plain
  | .purge _ => False

/-- The statement that records an event as the answer to a step. -/
def SharedStmt.acks (eventID : ID) : SharedStmt → Prop
  | .about _ q => q.acks eventID
  | .purgeProcessed _ => False

/-- A write to an order, its step rows or the outbox. -/
def SharedWrite.visible : SharedWrite → Bool
  | .about _ (.processed _) => false
  | .about _ _ => true
  | .purge _ => false

/-- A write that takes an event out of the inbox. -/
def SharedWrite.purges (eventID : ID) : SharedWrite → Bool
  | .about _ _ => false
  | .purge ids => ids.contains eventID

def SharedWrite.acks (eventID : ID) : SharedWrite → Bool
  | .about _ (.step _ row) => row.state == .acked && row.lastEventID == some eventID
  | _ => false

def Job.handles (eventID : ID) : Job → Bool
  | .handle e _ _ => e.id == eventID
  | _ => false

namespace Commit

/-- A transaction of `Handle` for an event changed an order, its step rows or the
outbox. -/
def changes (eventID : ID) (commit : Commit) : Bool :=
  commit.job.handles eventID && commit.writes.any SharedWrite.visible

/-- A transaction of the janitor took an event out of the inbox. -/
def purges (eventID : ID) (commit : Commit) : Bool :=
  commit.writes.any (SharedWrite.purges eventID)

/-- A transaction of `Handle` applied an event: it recorded the event as the answer to a
step. -/
def applies (eventID : ID) (commit : Commit) : Bool :=
  commit.job.handles eventID && commit.writes.any (SharedWrite.acks eventID)

end Commit

theorem only_about {α : Type} (orderID : ID) {p : Tx α} (only : p.Only Stmt.plain) :
    (about orderID p).Only SharedStmt.plain := by
  induction p with
  | done a => trivial
  | fail e => trivial
  | call q rest ih => exact ⟨only.1, fun answer => ih answer (only.2 answer)⟩

theorem through_about {α : Type} (orderID : ID) {eventID : ID} {p : Tx α}
    (through : p.Through (Stmt.acks eventID)) :
    (about orderID p).Through (SharedStmt.acks eventID) := by
  induction p with
  | done a => exact through.elim
  | fail e => trivial
  | call q rest ih => exact through.imp id fun later answer => ih answer (later answer)

theorem only_claimAll (now : Time) (orderIDs : List ID) :
    (claimAll now orderIDs).Only SharedStmt.plain := by
  induction orderIDs with
  | nil => trivial
  | cons orderID orderIDs ih =>
    refine Program.Only.bind (only_about orderID ⟨trivial, fun _ => trivial⟩) fun found => ?_
    exact ih.bind fun others => trivial

theorem only_sweepBatchOf (mint : ID → Step → Mint) (now : Time) (batch : List OverdueOrder) :
    (sweepBatchOf mint now batch).Only SharedStmt.plain := by
  refine (only_claimAll now _).bind fun found => ?_
  induction batch.filter fun ov => decide (ov ∈ found) with
  | nil => trivial
  | cons ov batch ih => exact (only_about ov.orderID (only_sweep _ now ov)).bind fun _ => ih

theorem SharedStmt.plain.writes {q : SharedStmt} (plain : q.plain) (db : Database) :
    ∀ w ∈ shared.writes q db, w.plain := by
  cases q with
  | purgeProcessed ids => exact plain.elim
  | about orderID q =>
    intro w member
    obtain ⟨inner, inside, rfl⟩ := mem_map.mp member
    exact Stmt.plain.writes plain (db.focus orderID) inner inside

theorem SharedStmt.acks.writes {q : SharedStmt} {eventID : ID} (acks : q.acks eventID)
    (db : Database) : ∃ w ∈ shared.writes q db, w.acks eventID = true := by
  cases q with
  | purgeProcessed ids => exact acks.elim
  | about orderID q =>
    cases q with
    | recordStepAcked step answered now =>
      cases answered with
      | none => exact acks.elim
      | some other =>
        refine ⟨_, mem_map_of_mem mem_cons_self, ?_⟩
        change other = eventID at acks
        subst acks
        simp only [SharedWrite.acks, ackedRow]
        cases (db.focus orderID).steps step with
        | none => exact Bool.and_eq_true_iff.mpr ⟨rfl, beq_self_eq_true _⟩
        | some row => exact Bool.and_eq_true_iff.mpr ⟨rfl, beq_self_eq_true _⟩
    | _ => exact acks.elim

theorem SharedWrite.plain.processed {w : SharedWrite} (plain : w.plain) (db : Database) :
    (w.put db).processed = db.processed := by
  cases w with
  | purge ids => exact plain.elim
  | about orderID w =>
    cases w with
    | processed eventID => exact plain.elim
    | _ => rfl

theorem processed_replay {ws : List SharedWrite} (plain : ∀ w ∈ ws, w.plain) (db : Database) :
    (shared.replay ws db).processed = db.processed := by
  induction ws generalizing db with
  | nil => rfl
  | cons w ws ih =>
    rw [Dialect.replay_cons, ih fun other member => plain other (mem_cons_of_mem w member)]
    exact (plain w mem_cons_self).processed db

/-- What is known about a transaction in progress. -/
inductive Stage (commits : List Commit) (db : Database) (session : Session shared Err Job) :
    Prop where
  | other {job : Job} (another : ∀ eventID, job.handles eventID = false)
      (yields : session.program.Yields (· = job)) (only : session.program.Only SharedStmt.plain)
      (plain : ∀ w ∈ session.writes, w.plain)
  | purges {ids : List ID} (program : session.program = (Job.purge ids).program)
      (nothing : session.writes = [])
  | purged {ids removed : List ID} (program : session.program = .done (.purge ids))
      (wrote : session.writes = [.purge removed])
  | fresh {e : Envelope} {mint : Mint} {now : Time} (accepted : acceptType e.type = true)
      (program : session.program = (Job.handle e mint now).program) (nothing : session.writes = [])
  | claimed {e : Envelope} {mint : Mint} {now : Time} {orderID : ID} {writes : List SharedWrite}
      (yields : session.program.Yields (· = .handle e mint now))
      (only : session.program.Only SharedStmt.plain)
      (through : (∃ w ∈ writes, w.acks e.id = true) ∨
        session.program.Through (SharedStmt.acks e.id))
      (wrote : session.writes = .about orderID (.processed e.id) :: writes)
      (plain : ∀ w ∈ writes, w.plain) (held : .inbox e.id ∈ session.held)
      (absent : e.id ∉ db.processed)
  | duplicate {e : Envelope} {mint : Mint} {now : Time}
      (program : session.program = .done (.handle e mint now)) (nothing : session.writes = [])
      (applied : ∃ first ∈ commits, first.applies e.id = true)

namespace Stage

variable {commits : List Commit} {db : Database} {session : Session shared Err Job}

theorem begins (db : Database) {job : Job} (another : ∀ eventID, job.handles eventID = false)
    (only : job.body.Only SharedStmt.plain) : Stage commits db { program := job.program } := by
  refine .other another ?_ ?_ fun _ => (not_mem_nil · |>.elim)
  · exact Program.Yields.bind job.body fun _ => rfl
  · exact Program.Only.bind only fun _ => trivial

theorem start (db : Database) {job : Job} (admitted : job.admitted = true) :
    Stage commits db { program := job.program } := by
  cases job with
  | handle e mint now => exact .fresh admitted rfl rfl
  | purge ids => exact .purges rfl rfl
  | place id input total mint now =>
    exact begins db (fun _ => rfl) (only_about id (only_placeOrder mint now _))
  | cancel orderID userID mint now =>
    exact begins db (fun _ => rfl) (only_about orderID (only_cancelOrder mint now userID))
  | sweep batch mint now => exact begins db (fun _ => rfl) (only_sweepBatchOf mint now batch)

variable {q : SharedStmt} {rest : q.Answer → SharedTx Job}

/-- The first statement of `Handle` claims the event or finds it handled. -/
theorem claim (applied : ∀ eventID ∈ db.processed, ∃ first ∈ commits, first.applies eventID = true)
    {e : Envelope} {mint : Mint} {now : Time} (accepted : acceptType e.type = true)
    (program : session.program = (Job.handle e mint now).program) (nothing : session.writes = [])
    (calls : session.program = .call q rest) :
    Stage commits db (session.exec db q rest) := by
  have whole : (Job.handle e mint now).program = (about (e.orderID.getD 0) (handle mint now e)).bind
      fun _ => .done (.handle e mint now) := rfl
  obtain ⟨body, writes, held⟩ := session
  cases nothing
  rw [show body = _ from program, whole] at calls
  rcases handle_begins mint now accepted with fails | ⟨next, begins, done, only, through⟩
  · rw [fails] at calls
    cases calls
  · rw [begins] at calls
    cases calls
    change Stage commits db
      { program := (about (e.orderID.getD 0) (next !db.processed.contains e.id)).bind
          fun _ => .done (.handle e mint now)
        writes := (if db.processed.contains e.id then [] else
          [Write.processed e.id]).map (.about (e.orderID.getD 0))
        held := held ++ (if db.processed.contains e.id then [] else
          [Key.inbox e.id]).map (.of (e.orderID.getD 0)) }
    cases handled : db.processed.contains e.id with
    | true =>
      have program : (about (e.orderID.getD 0) (next false)).bind
          (fun _ => .done (Job.handle e mint now)) = .done (Job.handle e mint now) := by
        rw [done]
        rfl
      exact .duplicate program rfl (applied e.id (contains_iff_mem.mp handled))
    | false =>
      have absent : e.id ∉ db.processed := by
        intro member
        rw [contains_iff_mem.mpr member] at handled
        cases handled
      have yields : Program.Yields (· = Job.handle e mint now)
          ((about (e.orderID.getD 0) (next true)).bind fun _ => .done (Job.handle e mint now)) :=
        Program.Yields.bind _ fun _ => rfl
      have plain : Program.Only SharedStmt.plain
          ((about (e.orderID.getD 0) (next true)).bind fun _ => .done (Job.handle e mint now)) :=
        (only_about _ only).bind fun _ => trivial
      have acks : Program.Through (SharedStmt.acks e.id)
          ((about (e.orderID.getD 0) (next true)).bind fun _ => .done (Job.handle e mint now)) :=
        (through_about _ through).bind _
      have nothing : ∀ w ∈ ([] : List SharedWrite), w.plain :=
        fun _ member => (not_mem_nil member).elim
      exact .claimed yields plain (.inr acks) rfl nothing (mem_append_right _ mem_cons_self) absent

theorem exec (applied : ∀ eventID ∈ db.processed, ∃ first ∈ commits, first.applies eventID = true)
    (stage : Stage commits db session) (calls : session.program = .call q rest) :
    Stage commits db (session.exec db q rest) := by
  cases stage with
  | other another yields only plain =>
    rw [calls] at yields only
    refine .other another (yields _) (only.2 _) fun w member => ?_
    rcases mem_append.mp member with old | new
    · exact plain w old
    · exact SharedStmt.plain.writes only.1 _ w new
  | @purges ids program nothing =>
    rw [program] at calls
    cases calls
    have wrote : session.writes ++ [SharedWrite.purge (Database.purged (session.view db) ids)] =
        [.purge (Database.purged (session.view db) ids)] := by
      rw [nothing]
      rfl
    exact .purged rfl wrote
  | purged program wrote =>
    rw [program] at calls
    cases calls
  | fresh accepted program nothing => exact claim applied accepted program nothing calls
  | claimed yields only through wrote plain held absent =>
    rw [calls] at yields only through
    refine .claimed (yields _) (only.2 _) ?_ (congrArg (· ++ _) wrote) ?_
      (mem_append_left _ held) absent
    · rcases through with ⟨w, member, acks⟩ | here | later
      · exact .inl ⟨w, mem_append_left _ member, acks⟩
      · obtain ⟨w, member, acks⟩ := here.writes (session.view db)
        exact .inl ⟨w, mem_append_right _ member, acks⟩
      · exact .inr (later _)
    · intro w member
      rcases mem_append.mp member with old | new
      · exact plain w old
      · exact SharedStmt.plain.writes only.1 _ w new
  | duplicate program nothing found =>
    rw [program] at calls
    cases calls

theorem skip (stage : Stage commits db session) (calls : session.program = .call q rest)
    {answer : q.Answer} (skips : shared.skip q = some answer) :
    Stage commits db { session with program := rest answer } := by
  cases stage with
  | other another yields only plain =>
    rw [calls] at yields only
    exact .other another (yields answer) (only.2 answer) plain
  | purges program nothing =>
    rw [program] at calls
    cases calls
    cases skips
  | purged program wrote =>
    rw [program] at calls
    cases calls
  | @fresh e mint now accepted program nothing =>
    have whole : (Job.handle e mint now).program =
        (about (e.orderID.getD 0) (handle mint now e)).bind fun _ => .done (.handle e mint now) :=
      rfl
    rw [program, whole] at calls
    rcases handle_begins mint now accepted with fails | ⟨next, begins, -⟩
    · rw [fails] at calls
      cases calls
    · rw [begins] at calls
      cases calls
      cases skips
  | claimed yields only through wrote plain held absent =>
    rw [calls] at yields only through
    refine .claimed (yields answer) (only.2 answer) ?_ wrote plain held absent
    rcases through with written | here | later
    · exact .inl written
    · cases q with
      | purgeProcessed ids => exact here.elim
      | about orderID q =>
        cases q with
        | claimOverdue limit now => exact here.elim
        | _ => cases skips
    · exact .inr (later answer)
  | duplicate program nothing found =>
    rw [program] at calls
    cases calls

theorem stable (stage : Stage commits db session) {commits' : List Commit} {db' : Database}
    (more : commits ⊆ commits')
    (guarded : ∀ eventID, .inbox eventID ∈ session.held → eventID ∉ db.processed →
      eventID ∉ db'.processed) : Stage commits' db' session := by
  cases stage with
  | other another yields only plain => exact .other another yields only plain
  | purges program nothing => exact .purges program nothing
  | purged program wrote => exact .purged program wrote
  | fresh accepted program nothing => exact .fresh accepted program nothing
  | claimed yields only through wrote plain held absent =>
    exact .claimed yields only through wrote plain held (guarded _ held absent)
  | duplicate program nothing found =>
    obtain ⟨first, member, applies⟩ := found
    exact .duplicate program nothing ⟨first, more member, applies⟩

end Stage

namespace Pipeline

variable {ι κ : Type}

/-- The account of the inbox. An event was applied in as many transactions as it was
entered, and is there when it was entered more often than purged. -/
structure Inbox (s : Pipeline ι κ) : Prop where
  stages : ∀ i session, s.config.sessions i = some session → Stage s.commits s.config.db session
  present : ∀ eventID ∈ s.config.db.processed,
    s.commits.countP (Commit.changes eventID) ≤ s.commits.countP (Commit.purges eventID) + 1
  absent : ∀ eventID ∉ s.config.db.processed,
    s.commits.countP (Commit.changes eventID) ≤ s.commits.countP (Commit.purges eventID)
  applied : ∀ eventID ∈ s.config.db.processed, ∃ first ∈ s.commits, first.applies eventID = true
  returned : ∀ commit ∈ s.commits, ∀ eventID, commit.job.handles eventID = true →
    ∃ first ∈ s.commits, first.applies eventID = true

variable {s : Pipeline ι κ}

/-- The commit changes no order twice for one inbox row. -/
structure Settles (s : Pipeline ι κ) (session : Session shared Err Job) (commit : Commit) :
    Prop where
  entered : ∀ eventID ∉ s.config.db.processed, .inbox eventID ∉ session.held →
    eventID ∉ (session.view s.config.db).processed
  present : ∀ eventID ∈ (session.view s.config.db).processed,
    (s.commits ++ [commit]).countP (Commit.changes eventID) ≤
      (s.commits ++ [commit]).countP (Commit.purges eventID) + 1
  absent : ∀ eventID ∉ (session.view s.config.db).processed,
    (s.commits ++ [commit]).countP (Commit.changes eventID) ≤
      (s.commits ++ [commit]).countP (Commit.purges eventID)
  applied : ∀ eventID ∈ (session.view s.config.db).processed,
    ∃ first ∈ s.commits ++ [commit], first.applies eventID = true
  returned : ∀ eventID, commit.job.handles eventID = true →
    ∃ first ∈ s.commits ++ [commit], first.applies eventID = true

variable {session : Session shared Err Job} {job : Job}

theorem Inbox.settles_plain (inbox : s.Inbox)
    (same : (session.view s.config.db).processed = s.config.db.processed)
    (another : ∀ eventID, Commit.changes eventID ⟨job, session.writes⟩ = false)
    (returned : ∀ eventID, job.handles eventID = true →
      ∃ first ∈ s.commits, first.applies eventID = true) :
        s.Settles session ⟨job, session.writes⟩ := by
  have kept : ∀ {eventID}, (∃ first ∈ s.commits, first.applies eventID = true) →
      ∃ first ∈ s.commits ++ [⟨job, session.writes⟩], first.applies eventID = true :=
    fun ⟨first, member, applies⟩ => ⟨first, mem_append_left _ member, applies⟩
  refine ⟨fun eventID absent _ => by rwa [same], fun eventID member => ?_, fun eventID member => ?_,
    fun eventID member => kept (inbox.applied eventID (same ▸ member)),
    fun eventID handles => kept (returned eventID handles)⟩
  all_goals
    simp only [countP_append, countP_singleton, another eventID, Bool.false_eq_true,
      ↓reduceIte, Nat.add_zero]
  · exact Nat.le_trans (inbox.present eventID (same ▸ member)) (by omega)
  · exact Nat.le_trans (inbox.absent eventID (same ▸ member)) (by omega)

theorem Inbox.settles_purge (inbox : s.Inbox) {ids removed : List ID}
    (wrote : session.writes = [.purge removed]) :
    s.Settles session ⟨.purge ids, session.writes⟩ := by
  have view : (session.view s.config.db).processed =
      s.config.db.processed.filter fun id => !removed.contains id := by
    rw [Session.view, wrote]
    rfl
  have remains : ∀ {eventID}, eventID ∈ (session.view s.config.db).processed →
      eventID ∈ s.config.db.processed ∧ removed.contains eventID = false := by
    intro eventID member
    rw [view, mem_filter, Bool.not_eq_true'] at member
    exact member
  have purges : ∀ eventID, Commit.purges eventID ⟨.purge ids, session.writes⟩ =
      removed.contains eventID := by
    intro eventID
    simp only [Commit.purges, wrote, any_cons, any_nil, Bool.or_false, SharedWrite.purges]
  have kept : ∀ {eventID}, (∃ first ∈ s.commits, first.applies eventID = true) →
      ∃ first ∈ s.commits ++ [⟨.purge ids, session.writes⟩], first.applies eventID = true := by
    rintro eventID ⟨first, member, applies⟩
    exact ⟨first, mem_append_left _ member, applies⟩
  have changes : ∀ eventID, Commit.changes eventID ⟨.purge ids, session.writes⟩ = false :=
    fun _ => rfl
  refine ⟨fun eventID absent _ member => absent (remains member).1, fun eventID member => ?_,
    fun eventID gone => ?_, fun eventID member => kept (inbox.applied eventID (remains member).1),
    fun eventID handles => by cases handles⟩
  all_goals
    simp only [countP_append, countP_singleton, changes eventID, purges eventID,
      Bool.false_eq_true, ↓reduceIte, Nat.add_zero]
  · exact Nat.le_trans (inbox.present eventID (remains member).1) (by omega)
  · by_cases before : eventID ∈ s.config.db.processed
    · have taken : removed.contains eventID = true := by
        rw [view, mem_filter, not_and, Bool.not_eq_true', Bool.not_eq_false] at gone
        exact gone before
      simp only [taken, ↓reduceIte]
      exact inbox.present eventID before
    · exact Nat.le_trans (inbox.absent eventID before) (by omega)

/-- A transaction of `Handle` that entered its event in the inbox. -/
theorem Inbox.settles_claimed (inbox : s.Inbox) {e : Envelope} {mint : Mint} {now : Time}
    {orderID : ID} {writes : List SharedWrite} (acked : ∃ w ∈ writes, w.acks e.id = true)
    (wrote : session.writes = .about orderID (.processed e.id) :: writes)
    (plain : ∀ w ∈ writes, w.plain) (held : .inbox e.id ∈ session.held)
    (absent : e.id ∉ s.config.db.processed) :
    s.Settles session ⟨.handle e mint now, session.writes⟩ := by
  have view : (session.view s.config.db).processed = s.config.db.processed ++ [e.id] := by
    rw [Session.view, wrote, Dialect.replay_cons, processed_replay plain]
    rfl
  have own : Commit.applies e.id ⟨.handle e mint now, session.writes⟩ = true := by
    obtain ⟨w, member, acks⟩ := acked
    rw [Commit.applies, Bool.and_eq_true, any_eq_true]
    exact ⟨beq_self_eq_true e.id, w, by rw [wrote]; exact mem_cons_of_mem _ member, acks⟩
  have other : ∀ {eventID}, eventID ≠ e.id →
      Commit.changes eventID ⟨.handle e mint now, session.writes⟩ = false := by
    intro eventID different
    rw [Commit.changes, Bool.and_eq_false_iff]
    exact .inl (beq_eq_false_iff_ne.mpr different.symm)
  have applied : ∀ {eventID}, eventID = e.id ∨ eventID ∈ s.config.db.processed →
      ∃ first ∈ s.commits ++ [⟨.handle e mint now, session.writes⟩],
        first.applies eventID = true := by
    rintro eventID (rfl | member)
    · exact ⟨_, mem_append_right _ mem_cons_self, own⟩
    · obtain ⟨first, member, applies⟩ := inbox.applied eventID member
      exact ⟨first, mem_append_left _ member, applies⟩
  have entered : ∀ {eventID}, eventID ∈ (session.view s.config.db).processed ↔
      eventID = e.id ∨ eventID ∈ s.config.db.processed := by
    intro eventID
    rw [view, mem_append, mem_singleton, or_comm]
  refine ⟨fun eventID missing free member => ?_, fun eventID member => ?_, fun eventID gone => ?_,
    fun eventID member => applied (entered.mp member), fun eventID handles => ?_⟩
  · rcases entered.mp member with rfl | old
    · exact free held
    · exact missing old
  · simp only [countP_append, countP_singleton]
    by_cases same : eventID = e.id
    · subst same
      have before := inbox.absent e.id absent
      split <;> split <;> omega
    · have before := inbox.present eventID ((entered.mp member).resolve_left same)
      simp only [other same, Bool.false_eq_true, ↓reduceIte, Nat.add_zero]
      omega
  · have fresh := not_or.mp fun known => gone (entered.mpr known)
    have before := inbox.absent eventID fresh.2
    simp only [countP_append, countP_singleton, other fresh.1, Bool.false_eq_true,
      ↓reduceIte, Nat.add_zero]
    omega
  · exact applied (.inl (beq_iff_eq.mp handles).symm)

/-- Every transaction keeps the account of the inbox when it commits. -/
theorem Inbox.settles (inbox : s.Inbox) (stage : Stage s.commits s.config.db session)
    (finished : session.program = .done job) : s.Settles session ⟨job, session.writes⟩ := by
  cases stage with
  | other another yields only plain =>
    rw [finished] at yields
    cases yields
    refine inbox.settles_plain (processed_replay plain _) (fun eventID => ?_) fun eventID handles =>
      ?_
    · rw [Commit.changes, another eventID]
      rfl
    · rw [another eventID] at handles
      cases handles
  | purges program nothing =>
    rw [program] at finished
    cases finished
  | purged program wrote =>
    rw [program] at finished
    cases finished
    exact inbox.settles_purge wrote
  | @fresh e mint now accepted program nothing =>
    have whole : (Job.handle e mint now).program =
        (about (e.orderID.getD 0) (handle mint now e)).bind fun _ => .done (.handle e mint now) :=
      rfl
    rw [program, whole] at finished
    rcases handle_begins mint now accepted with fails | ⟨next, begins, -⟩
    · rw [fails] at finished
      cases finished
    · rw [begins] at finished
      cases finished
  | claimed yields only through wrote plain held absent =>
    rw [finished] at yields through
    cases yields
    exact inbox.settles_claimed (through.resolve_right id) wrote plain held absent
  | @duplicate e mint now program nothing found =>
    rw [program] at finished
    cases finished
    have view : session.view s.config.db = s.config.db := by rw [Session.view, nothing]; rfl
    refine inbox.settles_plain (by rw [view]) (fun eventID => ?_) fun eventID handles => ?_
    · rw [Commit.changes, nothing]
      exact Bool.and_false _
    · cases beq_iff_eq.mp handles
      exact found

section Steps

variable [DecidableEq ι]

theorem Inbox.set (inbox : s.Inbox) {s' : Pipeline ι κ} {i : ι}
    {session : Option (Session shared Err Job)} (config : s'.config = s.config.set i session)
    (commits : s'.commits = s.commits)
    (stage : ∀ next, session = some next → Stage s.commits s.config.db next) : s'.Inbox := by
  refine ⟨fun j other found => ?_, ?_, ?_, ?_, ?_⟩
  · rw [config] at found
    change update s.config.sessions i session j = some other at found
    rw [config, commits]
    by_cases here : j = i
    · subst here
      rw [update_self] at found
      exact stage other found
    · rw [update_of_ne here] at found
      exact inbox.stages j other found
  · rw [config, commits]
    exact inbox.present
  · rw [config, commits]
    exact inbox.absent
  · rw [config, commits]
    exact inbox.applied
  · rw [commits]
    exact inbox.returned

theorem Inbox.commit (inbox : s.Inbox) {i : ι} (active : s.config.sessions i = some session)
    (finished : session.program = .done job)
    (apart : ∀ j other, j ≠ i → s.config.sessions j = some other →
      ∀ key ∈ other.held, key ∉ session.held) : (s.commit i session job).Inbox := by
  have settles := inbox.settles (inbox.stages i session active) finished
  refine ⟨fun j other found => ?_, settles.present, settles.absent, settles.applied,
    fun commit member => ?_⟩
  · change update s.config.sessions i none j = some other at found
    by_cases here : j = i
    · subst here
      rw [update_self] at found
      cases found
    · rw [update_of_ne here] at found
      refine (inbox.stages j other found).stable (subset_append_left _ _) ?_
      exact fun eventID held absent =>
        settles.entered eventID absent (apart j other here found _ held)
  · rcases mem_append.mp member with old | new
    · intro eventID handles
      obtain ⟨first, inside, applies⟩ := inbox.returned commit old eventID handles
      exact ⟨first, mem_append_left _ inside, applies⟩
    · cases mem_singleton.mp new
      exact settles.returned

theorem Inbox.step [DecidableEq κ] [Fintype κ] {s' : Pipeline ι κ} (inbox : s.Inbox)
    (apart : ∀ {j k : ι} {session other}, j ≠ k → s.config.sessions j = some session →
      s.config.sessions k = some other → ∀ {key}, key ∈ session.held → key ∉ other.held)
    (moves : s.Moves s') : s'.Inbox := by
  have same : ∀ {s' : Pipeline ι κ}, s'.config = s.config → s'.commits = s.commits → s'.Inbox := by
    intro s' config commits
    refine ⟨?_, ?_, ?_, ?_, ?_⟩
    all_goals simp only [config, commits]
    exacts [inbox.stages, inbox.present, inbox.absent, inbox.applied, inbox.returned]
  cases moves with
  | stays => exact inbox
  | start idle admitted =>
    refine inbox.set rfl rfl ?_
    rintro next ⟨⟩
    exact Stage.start s.config.db admitted
  | exec active calls free =>
    refine inbox.set rfl rfl ?_
    rintro next ⟨⟩
    exact (inbox.stages _ _ active).exec inbox.applied calls
  | skip active calls blocked skips =>
    refine inbox.set rfl rfl ?_
    rintro next ⟨⟩
    exact (inbox.stages _ _ active).skip calls skips
  | commit active finished =>
    exact inbox.commit active finished fun j other different found key held =>
      apart different found active held
  | abort i => exact inbox.set rfl rfl nofun
  | claim | took | refused | marked | drop => exact same rfl rfl

end Steps

/-- The transactions of order-service on their own. -/
def transactions (ι : Type) [DecidableEq ι] : System (Config shared ι Err Job) ι :=
  Config.concurrent ({} : Database) fun p => ∃ job : Job, p = job.program

theorem leads_of_moves [DecidableEq ι] [DecidableEq κ] [Fintype κ] {s' : Pipeline ι κ}
    (moves : s.Moves s') : (transactions ι).Leads s.config s'.config := by
  cases moves with
  | start idle admitted => exact .single ⟨_, .start idle ⟨_, rfl⟩⟩
  | exec active calls free => exact .single ⟨_, .exec active calls free⟩
  | skip active calls blocked skips => exact .single ⟨_, .skip active calls blocked skips⟩
  | commit active finished => exact .single ⟨_, .commit active finished⟩
  | abort i =>
    cases active : s.config.sessions i with
    | some session => exact .single ⟨i, .abort active⟩
    | none =>
      have same : (s.abort i).config = s.config := by
        change { s.config with sessions := update s.config.sessions i none } = s.config
        rw [← active, update_eq_self]
      rw [same]
      exact .refl
  | _ => exact .refl

theorem config_reachable [DecidableEq ι] [DecidableEq κ] [Fintype ι] [Fintype κ]
    (reached : (pipeline ι κ).Reachable s) : (transactions ι).Reachable s.config := by
  induction reached with
  | init initial =>
    cases initial
    exact .init rfl
  | step _ taken ih =>
    cases taken
    exact ih.leads (leads_of_moves (moves_step _ _))

theorem inbox_of_reachable [DecidableEq ι] [DecidableEq κ] [Fintype ι] [Fintype κ]
    (reached : (pipeline ι κ).Reachable s) : s.Inbox := by
  induction reached with
  | init initial =>
    cases initial
    exact ⟨fun _ _ active => (by cases active), fun _ member => (by cases member),
      fun _ _ => Nat.le_refl _, fun _ member => (by cases member), fun _ member =>
        (by cases member)⟩
  | step before taken ih =>
    cases taken
    exact ih.step (Config.apart_of_reachable (config_reachable before)) (moves_step _ _)

variable {row : OutboxRow}

theorem mem_numbered {next : Nat} {records : List (ID × OutboxRecord)}
    (member : row ∈ numbered next records) : next ≤ row.id ∧ row.id < next + records.length := by
  induction records generalizing next with
  | nil => cases member
  | cons record records ih =>
    rcases mem_cons.mp member with rfl | later
    · exact ⟨Nat.le_refl _, by simp⟩
    · have bounds := ih later
      simp only [length_cons]
      omega

variable (next : Nat) (records : List (ID × OutboxRecord))

theorem pairwise_numbered :
    (numbered next records).Pairwise fun a b => a.id < b.id := by
  induction records generalizing next with
  | nil => exact .nil
  | cons record records ih =>
    refine .cons (fun row member => ?_) (ih (next + 1))
    exact Nat.lt_of_succ_le (mem_numbered member).1

theorem unmarked_numbered {next : Nat} {records : List (ID × OutboxRecord)}
    (member : row ∈ numbered next records) : row.published = false := by
  induction records generalizing next with
  | nil => cases member
  | cons record records ih =>
    rcases mem_cons.mp member with rfl | later
    · rfl
    · exact ih later

theorem content_numbered :
    (numbered next records).map OutboxRow.content = records := by
  induction records generalizing next with
  | nil => rfl
  | cons record records ih => exact congrArg (record :: ·) (ih (next + 1))

theorem length_numbered :
    (numbered next records).length = records.length := by
  induction records generalizing next with
  | nil => rfl
  | cons record records ih => exact congrArg (· + 1) (ih (next + 1))

/-- The updates of the relay leave the id and the content of a row alone. -/
theorem key_foldl_on (updates : List Update) (row : OutboxRow) :
    (updates.foldl Update.on row).id = row.id ∧
      (updates.foldl Update.on row).content = row.content := by
  induction updates generalizing row with
  | nil => exact ⟨rfl, rfl⟩
  | cons update updates ih =>
    have same : (Update.on row update).id = row.id ∧
        (Update.on row update).content = row.content := by
      cases update with
      | markPublished ids =>
        simp only [Update.on]
        split <;> exact ⟨rfl, rfl⟩
      | markFailed ids =>
        simp only [Update.on]
        split <;> exact ⟨rfl, rfl⟩
    exact ⟨(ih _).1.trans same.1, (ih _).2.trans same.2⟩

/-- The ids of outbox rows tell them apart, in the order of insertion. -/
structure Numbered (s : Pipeline ι κ) : Prop where
  committed : ∀ row ∈ s.outbox, row.id < s.sequence
  drawn : ∀ i, ∀ row ∈ s.inserted i, row.id < s.sequence
  distinct : s.outbox.Pairwise fun a b => a.id ≠ b.id
  ascending : ∀ i, (s.inserted i).Pairwise fun a b => a.id < b.id
  apart : ∀ i, ∀ a ∈ s.inserted i, ∀ b ∈ s.outbox, a.id ≠ b.id
  others : ∀ i j, i ≠ j → ∀ a ∈ s.inserted i, ∀ b ∈ s.inserted j, a.id ≠ b.id

namespace Numbered

theorem mark {s' : Pipeline ι κ} (numbers : s.Numbered) {f : OutboxRow → OutboxRow}
    (same : ∀ row, (f row).id = row.id) (outbox : s'.outbox = s.outbox.map f)
    (inserted : s'.inserted = s.inserted) (sequence : s'.sequence = s.sequence) : s'.Numbered := by
  refine ⟨?_, ?_, ?_, ?_, ?_, ?_⟩
  all_goals simp only [outbox, inserted, sequence, mem_map, pairwise_map]
  · rintro row ⟨old, member, rfl⟩
    rw [same]
    exact numbers.committed old member
  · exact numbers.drawn
  · simp only [same]
    exact numbers.distinct
  · exact numbers.ascending
  · rintro i a member _ ⟨old, inside, rfl⟩
    rw [same]
    exact numbers.apart i a member old inside
  · exact numbers.others

variable [DecidableEq ι]

theorem abort (numbers : s.Numbered) (i : ι) : (s.abort i).Numbered := by
  have inside : ∀ j, ∀ row ∈ (s.abort i).inserted j, row ∈ s.inserted j := by
    intro j row member
    change row ∈ update s.inserted i [] j at member
    rw [update_apply] at member
    split at member
    · cases member
    · exact member
  refine ⟨numbers.committed, fun j row member => numbers.drawn j row (inside j row member),
    numbers.distinct, fun j => ?_, fun j a member => numbers.apart j a (inside j a member),
    fun j k different a member b other =>
      numbers.others j k different a (inside j a member) b (inside k b other)⟩
  change (update s.inserted i [] j).Pairwise _
  rw [update_apply]
  split
  · exact .nil
  · exact numbers.ascending j

theorem commit (numbers : s.Numbered) (i : ι) (session : Session shared Err Job) (job : Job) :
    (s.commit i session job).Numbered := by
  have cleared := numbers.abort i
  refine ⟨fun row member => ?_, cleared.drawn, ?_, cleared.ascending, fun j a member b other => ?_,
    cleared.others⟩
  · rcases mem_append.mp member with old | new
    · exact numbers.committed row old
    · exact numbers.drawn i row new
  · refine pairwise_append.mpr ⟨numbers.distinct, ?_, fun a old b new => ?_⟩
    · exact (numbers.ascending i).imp Nat.ne_of_lt
    · exact (numbers.apart i b new a old).symm
  · rcases mem_append.mp other with old | new
    · exact cleared.apart j a member b old
    · change a ∈ update s.inserted i [] j at member
      rw [update_apply] at member
      split at member
      · cases member
      · rename_i different
        exact numbers.others j i different a member b new

theorem exec (numbers : s.Numbered) (i : ι) (session : Session shared Err Job) (q : SharedStmt)
    (rest : q.Answer → SharedTx Job) : (s.exec i session q rest).Numbered := by
  let rows := numbered s.sequence
    ((shared.writes q (session.view s.config.db)).filterMap SharedWrite.insert)
  have fresh : ∀ row ∈ rows, s.sequence ≤ row.id ∧ row.id < s.sequence + rows.length := by
    intro row member
    have bounds := mem_numbered member
    rwa [← length_numbered s.sequence] at bounds
  have inserted : ∀ {j row}, row ∈ (s.exec i session q rest).inserted j →
      row ∈ s.inserted j ∨ j = i ∧ row ∈ rows := by
    intro j row member
    change row ∈ update s.inserted i (s.inserted i ++ rows) j at member
    rw [update_apply] at member
    split at member
    · rename_i same
      subst same
      exact (mem_append.mp member).imp_right fun new => ⟨rfl, new⟩
    · exact .inl member
  refine ⟨fun row member => ?_, fun j row member => ?_, numbers.distinct, fun j => ?_,
    fun j a member b other => ?_, fun j k different a member b other => ?_⟩
  · exact Nat.lt_add_right _ (numbers.committed row member)
  · rcases inserted member with old | ⟨-, new⟩
    · exact Nat.lt_add_right _ (numbers.drawn j row old)
    · exact (fresh row new).2
  · change (update s.inserted i (s.inserted i ++ rows) j).Pairwise _
    rw [update_apply]
    split
    · refine pairwise_append.mpr ⟨numbers.ascending i, pairwise_numbered _ _, ?_⟩
      exact fun a old b new => Nat.lt_of_lt_of_le (numbers.drawn i a old) (fresh b new).1
    · exact numbers.ascending j
  · rcases inserted member with old | ⟨-, new⟩
    · exact numbers.apart j a old b other
    · exact Nat.ne_of_gt (Nat.lt_of_lt_of_le (numbers.committed b other) (fresh a new).1)
  · rcases inserted member with old | ⟨rfl, new⟩
    · rcases inserted other with old' | ⟨rfl, new'⟩
      · exact numbers.others j k different a old b old'
      · exact Nat.ne_of_lt (Nat.lt_of_lt_of_le (numbers.drawn j a old) (fresh b new').1)
    · rcases inserted other with old' | ⟨rfl, -⟩
      · exact Nat.ne_of_gt (Nat.lt_of_lt_of_le (numbers.drawn k b old') (fresh a new).1)
      · exact (different rfl).elim

theorem step [DecidableEq κ] [Fintype κ] {s' : Pipeline ι κ} (numbers : s.Numbered)
    (moves : s.Moves s') : s'.Numbered := by
  have kept : ∀ {s' : Pipeline ι κ}, s'.outbox = s.outbox → s'.inserted = s.inserted →
      s'.sequence = s.sequence → s'.Numbered := fun outbox inserted sequence =>
    numbers.mark (f := id) (fun _ => rfl) (by rw [outbox, map_id]) inserted sequence
  cases moves with
  | stays => exact numbers
  | start idle admitted => exact kept rfl rfl rfl
  | exec active calls free => exact numbers.exec _ _ _ _
  | skip active calls blocked skips => exact kept rfl rfl rfl
  | commit active finished => exact numbers.commit _ _ _
  | abort i => exact numbers.abort i
  | claim | took | refused => exact kept rfl rfl rfl
  | marked active finished succeeded =>
    exact numbers.mark (fun row => (key_foldl_on _ row).1) rfl rfl rfl
  | drop j => exact kept rfl rfl rfl

end Numbered

/-- A row is committed to the outbox, up to the columns of the relay. -/
def Has (s : Pipeline ι κ) (row : OutboxRow) : Prop :=
  ∃ other ∈ s.outbox, other.id = row.id ∧ other.content = row.content

/-- What a tick has marked was acknowledged. -/
structure PostedTick (s : Pipeline ι κ) (tick : Tick) : Prop where
  batch : ∀ row ∈ tick.batch, s.Has row
  succeeded : ∀ id ∈ tick.succeeded, ∃ row ∈ s.acked, row.id = id
  calm : tick.firstErr = none → tick.updates = []

/-- The account of the outbox: what is inserted was written by a transaction, what is
taken was committed, and what is marked was acknowledged. -/
structure Posted (s : Pipeline ι κ) : Prop where
  inserted : ∀ i session, s.config.sessions i = some session →
    (s.inserted i).map OutboxRow.content = session.writes.filterMap SharedWrite.insert
  idle : ∀ i, s.config.sessions i = none → s.inserted i = []
  unmarked : ∀ i, ∀ row ∈ s.inserted i, row.published = false
  enqueued : ∀ row ∈ s.outbox, ∃ commit ∈ s.commits,
    .about row.partitionKey (.outbox row.record) ∈ commit.writes
  ticks : ∀ j tick, s.relays j = some tick → PostedTick s tick
  taken : ∀ row ∈ s.broker, s.Has row
  acknowledged : ∀ row ∈ s.acked, row ∈ s.broker
  marked : ∀ row ∈ s.outbox, row.published = true → ∃ ack ∈ s.acked, ack.id = row.id

theorem PostedTick.mono {tick : Tick} {s' : Pipeline ι κ} (posted : PostedTick s tick)
    (has : ∀ row, s.Has row → s'.Has row) (acked : s.acked ⊆ s'.acked) : PostedTick s' tick where
  batch := fun row member => has row (posted.batch row member)
  succeeded := fun id member =>
    have ⟨row, inside, same⟩ := posted.succeeded id member
    ⟨row, acked inside, same⟩
  calm := posted.calm

theorem about_of_insert {w : SharedWrite} (inserts : w.insert = some row.content) :
    w = .about row.partitionKey (.outbox row.record) := by
  cases w with
  | purge ids => cases inserts
  | about orderID w =>
    cases w with
    | outbox record =>
      cases inserts
      rfl
    | _ => cases inserts

namespace Posted

section Sessions

variable [DecidableEq ι]

variable {i : ι}

theorem set (posted : s.Posted) {s' : Pipeline ι κ} {session : Option (Session shared Err Job)}
    {rows : List OutboxRow} (config : s'.config = s.config.set i session)
    (inserted : s'.inserted = update s.inserted i rows) (outbox : s'.outbox = s.outbox)
    (relays : s'.relays = s.relays) (broker : s'.broker = s.broker) (acked : s'.acked = s.acked)
    (commits : s'.commits = s.commits)
    (active : ∀ next, session = some next → rows.map OutboxRow.content = next.writes.filterMap
      SharedWrite.insert) (ended : session = none → rows = [])
    (unmarked : ∀ row ∈ rows, row.published = false) :
    s'.Posted := by
  have has : s'.Has = s.Has := by
    funext row
    rw [Has, Has, outbox]
  refine ⟨fun j other found => ?_, fun j none' => ?_, fun j => ?_, ?_, fun j tick found => ?_, ?_,
    ?_, ?_⟩
  · rw [config] at found
    change update s.config.sessions i session j = some other at found
    rw [inserted]
    by_cases here : j = i
    · subst here
      rw [update_self] at found ⊢
      exact active other found
    · rw [update_of_ne here] at found ⊢
      exact posted.inserted j other found
  · rw [config] at none'
    change update s.config.sessions i session j = none at none'
    rw [inserted]
    by_cases here : j = i
    · subst here
      rw [update_self] at none' ⊢
      exact ended none'
    · rw [update_of_ne here] at none' ⊢
      exact posted.idle j none'
  · rw [inserted, update_apply]
    split
    · exact unmarked
    · exact posted.unmarked j
  · rw [outbox, commits]
    exact posted.enqueued
  · rw [relays] at found
    refine (posted.ticks j tick found).mono (by rw [has]; exact fun _ => id) ?_
    rw [acked]
    exact List.Subset.refl _
  · rw [broker, has]
    exact posted.taken
  · rw [acked, broker]
    exact posted.acknowledged
  · rw [outbox, acked]
    exact posted.marked

theorem commit (posted : s.Posted) (active : s.config.sessions i = some session) :
    (s.commit i session job).Posted := by
  have has : ∀ row, s.Has row → (s.commit i session job).Has row :=
    fun row ⟨other, member, same⟩ => ⟨other, mem_append_left _ member, same⟩
  refine ⟨fun j other found => ?_, fun j none' => ?_, fun j => ?_, fun row member => ?_,
    fun j tick found => ?_, fun row member => has row (posted.taken row member),
    posted.acknowledged, fun row member published => ?_⟩
  · change update s.config.sessions i none j = some other at found
    change (update s.inserted i [] j).map _ = _
    by_cases here : j = i
    · subst here
      rw [update_self] at found
      cases found
    · rw [update_of_ne here] at found ⊢
      exact posted.inserted j other found
  · change update s.config.sessions i none j = none at none'
    change update s.inserted i [] j = []
    by_cases here : j = i
    · subst here
      exact update_self ..
    · rw [update_of_ne here] at none' ⊢
      exact posted.idle j none'
  · change ∀ row ∈ update s.inserted i [] j, _
    rw [update_apply]
    split
    · exact fun row member => (not_mem_nil member).elim
    · exact posted.unmarked j
  · rcases mem_append.mp member with old | new
    · obtain ⟨commit, inside, wrote⟩ := posted.enqueued row old
      exact ⟨commit, mem_append_left _ inside, wrote⟩
    · refine ⟨_, mem_append_right _ mem_cons_self, ?_⟩
      have content : row.content ∈ session.writes.filterMap SharedWrite.insert := by
        rw [← posted.inserted i session active]
        exact mem_map_of_mem new
      obtain ⟨w, inside, inserts⟩ := mem_filterMap.mp content
      exact about_of_insert inserts ▸ inside
  · exact (posted.ticks j tick found).mono has (List.Subset.refl _)
  · rcases mem_append.mp member with old | new
    · exact posted.marked row old published
    · rw [posted.unmarked i row new] at published
      cases published

theorem exec (posted : s.Posted) (active : s.config.sessions i = some session) (q : SharedStmt)
    (rest : q.Answer → SharedTx Job) : (s.exec i session q rest).Posted := by
  refine posted.set rfl rfl rfl rfl rfl rfl rfl ?_ nofun fun row member => ?_
  · rintro next ⟨⟩
    rw [map_append, content_numbered, posted.inserted i session active]
    exact filterMap_append.symm
  · rcases mem_append.mp member with old | new
    · exact posted.unmarked i row old
    · exact unmarked_numbered new

end Sessions

section Relay

variable [DecidableEq κ]

variable {j : κ} {tick : Tick}

theorem relay (posted : s.Posted) {s' : Pipeline ι κ} {tick : Option Tick}
    {taken acked : List OutboxRow} (config : s'.config = s.config)
    (inserted : s'.inserted = s.inserted) (commits : s'.commits = s.commits)
    (outbox : s'.outbox = s.outbox) (relays : s'.relays = update s.relays j tick)
    (broker : s'.broker = s.broker ++ taken) (acks : s'.acked = s.acked ++ acked)
    (known : ∀ row ∈ taken, s.Has row) (within : ∀ row ∈ acked, row ∈ taken)
    (next : ∀ t, tick = some t → PostedTick s' t) : s'.Posted := by
  have has : s'.Has = s.Has := by
    funext row
    rw [Has, Has, outbox]
  refine ⟨?_, ?_, ?_, ?_, fun k other found => ?_, fun row member => ?_, fun row member => ?_,
    fun row member published => ?_⟩
  · rw [config, inserted]
    exact posted.inserted
  · rw [config, inserted]
    exact posted.idle
  · rw [inserted]
    exact posted.unmarked
  · rw [outbox, commits]
    exact posted.enqueued
  · rw [relays] at found
    by_cases here : k = j
    · subst here
      rw [update_self] at found
      exact next other found
    · rw [update_of_ne here] at found
      refine (posted.ticks k other found).mono (by rw [has]; exact fun _ => id) ?_
      rw [acks]
      exact subset_append_left _ _
  · rw [broker] at member
    rw [has]
    exact (mem_append.mp member).elim (posted.taken row) (known row)
  · rw [acks] at member
    rw [broker]
    rcases mem_append.mp member with old | new
    · exact mem_append_left _ (posted.acknowledged row old)
    · exact mem_append_right _ (within row new)
  · rw [outbox] at member
    obtain ⟨ack, inside, same⟩ := posted.marked row member published
    exact ⟨ack, by rw [acks]; exact mem_append_left _ inside, same⟩

theorem quiet (posted : s.Posted) (j : κ) (tick : Option Tick)
    (next : ∀ t, tick = some t → PostedTick s t) :
    Posted { s with relays := update s.relays j tick } := by
  have none' : ∀ {known : OutboxRow → Prop}, ∀ row ∈ ([] : List OutboxRow), known row :=
    fun _ member => (not_mem_nil member).elim
  refine posted.relay rfl rfl rfl rfl rfl (append_nil _).symm (append_nil _).symm none'
    none' fun t found => (next t found).mono (fun _ => id) (List.Subset.refl _)

theorem drop (posted : s.Posted) (j : κ) : (s.drop j).Posted := posted.quiet j none nofun

theorem claim [Fintype κ] (posted : s.Posted) (j : κ) (limit : Nat) (topics : List Topic) :
    Posted { s with
      relays := update s.relays j (some { batch := s.claimBatch j limit, topics := topics }) } := by
  refine posted.quiet j _ ?_
  rintro t ⟨⟩
  refine ⟨fun row member => ⟨row, ?_, rfl, rfl⟩, nofun, fun _ => rfl⟩
  exact (mem_filter.mp ((mem_insertionSort _).mp (mem_of_mem_take member))).1

theorem took (posted : s.Posted) (active : s.relays j = some tick) (topic : Topic) :
    (s.took j tick topic).Posted := by
  have own := posted.ticks j tick active
  refine posted.relay rfl rfl rfl rfl rfl rfl rfl (fun row member => ?_) (fun _ => id) ?_
  · exact own.batch row (mem_of_mem_filter member)
  · rintro t ⟨⟩
    refine ⟨own.batch, fun id member => ?_, own.calm⟩
    rcases mem_append.mp member with old | new
    · obtain ⟨row, inside, same⟩ := own.succeeded id old
      exact ⟨row, mem_append_left _ inside, same⟩
    · obtain ⟨row, inside, same⟩ := mem_map.mp new
      exact ⟨row, mem_append_right _ inside, same⟩

theorem refused (posted : s.Posted) (active : s.relays j = some tick) (topic : Topic) (err : String)
    (written : List Nat) :
    (s.refused j tick topic err written).Posted := by
  have own := posted.ticks j tick active
  refine posted.relay rfl rfl rfl rfl rfl rfl (append_nil _).symm (fun row member => ?_)
    (fun _ member => (not_mem_nil member).elim) ?_
  · exact own.batch row (mem_of_mem_filter (mem_of_mem_filter member))
  · rintro t ⟨⟩
    refine ⟨own.batch, own.succeeded, fun failed => ?_⟩
    cases first : tick.firstErr <;> simp [first] at failed

theorem marked' (posted : s.Posted) (active : s.relays j = some tick)
    (succeeded : tick.firstErr = none) : (s.marked j tick).Posted := by
  have own := posted.ticks j tick active
  have has : ∀ row, s.Has row → (s.marked j tick).Has row := by
    rintro row ⟨other, member, same⟩
    have key := key_foldl_on (tick.updates ++ [Update.markPublished tick.succeeded]) other
    exact ⟨_, mem_map_of_mem member, key.1.trans same.1, key.2.trans same.2⟩
  refine ⟨posted.inserted, posted.idle, posted.unmarked, fun row member => ?_,
    fun k other found => ?_,
    fun row member => has row (posted.taken row member), posted.acknowledged,
    fun row member published => ?_⟩
  · obtain ⟨old, inside, rfl⟩ := mem_map.mp member
    obtain ⟨commit, within, wrote⟩ := posted.enqueued old inside
    have key := (key_foldl_on (tick.updates ++ [Update.markPublished tick.succeeded]) old).2
    rw [OutboxRow.content, OutboxRow.content, Prod.mk.injEq] at key
    rw [key.1, key.2]
    exact ⟨commit, within, wrote⟩
  · change update s.relays j none k = some other at found
    by_cases here : k = j
    · subst here
      rw [update_self] at found
      cases found
    · rw [update_of_ne here] at found
      exact (posted.ticks k other found).mono has (List.Subset.refl _)
  · obtain ⟨old, inside, rfl⟩ := mem_map.mp member
    rw [own.calm succeeded] at published ⊢
    change (Update.on old (.markPublished tick.succeeded)).published = true at published
    change ∃ ack ∈ s.acked, ack.id = (Update.on old (.markPublished tick.succeeded)).id
    unfold Update.on at published ⊢
    simp only at published ⊢
    split at published
    · rename_i taken
      rw [if_pos taken]
      exact own.succeeded old.id (contains_iff_mem.mp taken)
    · rename_i missed
      rw [if_neg missed]
      exact posted.marked old inside published

end Relay

theorem step [DecidableEq ι] [DecidableEq κ] [Fintype κ] {s' : Pipeline ι κ} (posted : s.Posted)
    (moves : s.Moves s') : s'.Posted := by
  have kept : ∀ {i : ι}, s.inserted = update s.inserted i (s.inserted i) :=
    fun {i} => (update_eq_self i s.inserted).symm
  cases moves with
  | stays => exact posted
  | start idle admitted =>
    refine posted.set rfl kept rfl rfl rfl rfl rfl ?_ nofun (posted.unmarked _)
    rintro next ⟨⟩
    rw [posted.idle _ idle]
    rfl
  | exec active calls free => exact posted.exec active _ _
  | @skip i session q rest answer active calls blocked skips =>
    refine posted.set rfl kept rfl rfl rfl rfl rfl ?_ nofun (posted.unmarked _)
    rintro next ⟨⟩
    exact posted.inserted i session active
  | commit active finished => exact posted.commit active
  | abort i =>
    exact posted.set rfl rfl rfl rfl rfl rfl rfl nofun (fun _ => rfl)
      fun _ member => (not_mem_nil member).elim
  | claim idle => exact posted.claim _ _ _
  | took active pending => exact posted.took active _
  | refused active pending => exact posted.refused active _ _ _
  | marked active finished succeeded => exact posted.marked' active succeeded
  | drop j => exact posted.drop j

end Posted

theorem Numbered.eq_of_id (numbers : s.Numbered) {a b : OutboxRow} (inside : a ∈ s.outbox)
    (inside' : b ∈ s.outbox) (same : a.id = b.id) : a = b := by
  by_contra different
  have symmetric : Std.Symm fun a b : OutboxRow => a.id ≠ b.id := ⟨fun _ _ => Ne.symm⟩
  exact numbers.distinct.forall inside inside' different same

section Runs

variable [DecidableEq ι] [DecidableEq κ] [Fintype ι] [Fintype κ]

theorem numbered_of_reachable (reached : (pipeline ι κ).Reachable s) : s.Numbered := by
  refine reached.invariant ?_ fun s a s' numbers taken => ?_
  · rintro _ rfl
    have none' : ∀ {known : OutboxRow → Prop}, ∀ row ∈ ([] : List OutboxRow), known row :=
      fun _ member => (not_mem_nil member).elim
    exact ⟨none', fun _ => none', .nil, fun _ => .nil, fun _ => none', fun _ _ _ => none'⟩
  · cases taken
    exact numbers.step (moves_step s a)

theorem posted_of_reachable (reached : (pipeline ι κ).Reachable s) : s.Posted := by
  refine reached.invariant ?_ fun s a s' posted taken => ?_
  · rintro _ rfl
    have none' : ∀ {known : OutboxRow → Prop}, ∀ row ∈ ([] : List OutboxRow), known row :=
      fun _ member => (not_mem_nil member).elim
    have idle : ∀ {α : Type} {x : α}, none ≠ some x := nofun
    exact ⟨fun _ _ found => (idle found).elim, fun _ _ => rfl, fun _ => none', none',
      fun _ _ found => (idle found).elim, none', none', none'⟩
  · cases taken
    exact posted.step (moves_step s a)

end Runs

/-- Outbox, relay and inbox together. Nothing is published that was not committed, a row
is marked only when the broker acknowledged it, an event changes the tables in one
transaction for each time it is entered in the inbox, and an event whose handling
succeeded was applied. -/
structure EffectivelyOnce (s : Pipeline ι κ) : Prop where
  published : ∀ row ∈ s.broker, ∃ commit ∈ s.commits,
    .about row.partitionKey (.outbox row.record) ∈ commit.writes
  acknowledged : ∀ row ∈ s.outbox, row.published = true → ∃ ack ∈ s.acked,
    ack.id = row.id ∧ ack.content = row.content ∧ ack ∈ s.broker
  once : ∀ eventID, s.commits.countP (Commit.changes eventID) ≤
    s.commits.countP (Commit.purges eventID) + 1
  applied : ∀ commit ∈ s.commits, ∀ eventID, commit.job.handles eventID = true →
    ∃ first ∈ s.commits, first.applies eventID = true

end Pipeline

/-- **Effectively-once processing**, in every run with any number of transactions and
relays. -/
theorem effectively_once (ι κ : Type) [DecidableEq ι] [DecidableEq κ] [Fintype ι] [Fintype κ]
    (actions : List (PipelineAction ι κ)) :
    (actions.foldl Pipeline.step ({} : Pipeline ι κ)).EffectivelyOnce := by
  have reached : (pipeline ι κ).Reachable (actions.foldl Pipeline.step {}) := .foldl actions
  generalize actions.foldl Pipeline.step ({} : Pipeline ι κ) = s at reached ⊢
  have inbox := Pipeline.inbox_of_reachable reached
  have numbers := Pipeline.numbered_of_reachable reached
  have posted := Pipeline.posted_of_reachable reached
  refine ⟨fun row member => ?_, fun row member published => ?_, fun eventID => ?_, inbox.returned⟩
  · obtain ⟨other, inside, -, content⟩ := posted.taken row member
    rw [OutboxRow.content, OutboxRow.content, Prod.mk.injEq] at content
    rw [← content.1, ← content.2]
    exact posted.enqueued other inside
  · obtain ⟨ack, inside, same⟩ := posted.marked row member published
    have taken := posted.acknowledged ack inside
    obtain ⟨other, there, id, content⟩ := posted.taken ack taken
    cases numbers.eq_of_id there member (id.trans same)
    exact ⟨ack, inside, same, content.symm, taken⟩
  · by_cases present : eventID ∈ s.config.db.processed
    · exact inbox.present eventID present
    · exact Nat.le_succ_of_le (inbox.absent eventID present)

/-- The inbox entry of an event is purged, and the event is delivered again. -/
def redelivered : List (PipelineAction (Fin 1) (Fin 1)) :=
  ([.start 0 (.place 1 singleLine ⟨1000, "USD"⟩ (mintFrom 100) 0)] : List (PipelineAction _ _)) ++
    (List.replicate 6 (.run 0) : List (PipelineAction _ _)) ++
    ([.start 0 (.handle (eventOn 500 .inventoryReserved false) (mintFrom 200) 5)] :
      List (PipelineAction _ _)) ++
    (List.replicate 10 (.run 0) : List (PipelineAction _ _)) ++
    ([.start 0 (.purge [500]), .run 0, .run 0] : List (PipelineAction _ _)) ++
    ([.start 0 (.handle (eventOn 500 .inventoryReserved false) (mintFrom 300) 5)] :
      List (PipelineAction _ _)) ++
    (List.replicate 10 (.run 0) : List (PipelineAction _ _))

theorem redelivered_changes_again : ¬ ∀ (ι κ : Type) [DecidableEq ι] [DecidableEq κ] [Fintype ι]
    [Fintype κ] (actions : List (PipelineAction ι κ)) (eventID : ID),
    (actions.foldl Pipeline.step ({} : Pipeline ι κ)).commits.countP (Commit.changes eventID) ≤
      1 := by
  intro once
  have twice : (redelivered.foldl Pipeline.step {}).commits.countP (Commit.changes 500) = 2 := by
    decide +kernel
  have bound := once (Fin 1) (Fin 1) redelivered 500
  rw [twice] at bound
  exact absurd bound (by decide)

end Souq.Orders
