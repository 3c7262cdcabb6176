import Mathlib.Algebra.GroupWithZero.Nat
import Souq.Orders.EffectivelyOnce
import Souq.Orders.Verdict

/-!
# A sweep in which fires fail

All rows a sweep claims are fired in one transaction, and what one fire returns as an error is
logged and forgotten. A statement the database refuses aborts the transaction, of which then
nothing is committed. When the code gives up between two statements the transaction goes on,
and what the fire has written until then is committed with the rest.
-/

namespace Souq.Orders

open Saga Transact Transition Program Database List Nat Option Rows Stmt

/-- How the fire of a claimed row fails. -/
inductive Fault where
  /-- The database refuses a statement. -/
  | statement
  /-- The code gives up after so many statements. -/
  | program (statements : Nat)
  deriving DecidableEq

/-- A sweep under way. -/
structure Sweeping where
  db : Database
  aborted : Bool := false

/-- Fire one claimed row. In an aborted transaction every statement fails. -/
def Sweeping.fire (mint : ID → Step → Mint) (now : Time) (faults : OverdueOrder → Option Fault)
    (s : Sweeping) (ov : OverdueOrder) : Sweeping :=
  if s.aborted then s
  else
    let fire := Orders.fire (mint ov.orderID ov.step) now ov
    let rows := s.db.focus ov.orderID
    match faults ov with
    | some .statement => { s with aborted := true }
    | some (.program n) => { s with db := s.db.store ov.orderID (fire.stopped n rows) }
    | none =>
      match fire.run rows with
      | (.error .rejected, _) => { s with aborted := true }
      | (_, after) => { s with db := s.db.store ov.orderID after }

/-- The database after a sweep. An aborted transaction is rolled back when it is to be
committed. -/
def Database.tickWith (db : Database) (mint : ID → Step → Mint) (now : Time)
    (claimed : List OverdueOrder) (faults : OverdueOrder → Option Fault) : Database :=
  if db.claimable now claimed then
    let s := claimed.foldl (Sweeping.fire mint now faults) { db := db }
    if s.aborted then db else s.db
  else db

/-- The rows of the order after one of its claimed rows, in a transaction that goes on. -/
def faulted (mint : ID → Step → Mint) (now : Time) (faults : OverdueOrder → Option Fault)
    (rows : Rows) (ov : OverdueOrder) : Rows :=
  match faults ov with
  | some (.program n) => (fire (mint ov.orderID ov.step) now ov).stopped n rows
  | _ => swept (mint ov.orderID ov.step) now rows ov

section Transaction

variable {mint : ID → Step → Mint} {now : Time} {faults : OverdueOrder → Option Fault}

variable {s : Sweeping}

theorem Sweeping.fire_aborted (aborted : s.aborted = true) (claimed : List OverdueOrder) :
    claimed.foldl (Sweeping.fire mint now faults) s = s := by
  induction claimed with
  | nil => rfl
  | cons ov claimed ih =>
    have stays : s.fire mint now faults ov = s := if_pos aborted
    rw [foldl_cons, stays, ih]

variable (mint now) in
theorem Sweeping.fire_statement {ov : OverdueOrder} (refused : faults ov = some .statement) :
    (s.fire mint now faults ov).aborted = true := by
  unfold Sweeping.fire
  split
  · assumption
  · simp only [refused]

theorem Sweeping.fire_live (live : s.aborted = false) {ov : OverdueOrder}
    (accepted : faults ov ≠ some .statement) :
    s.fire mint now faults ov =
      { s with db :=
        s.db.store ov.orderID (faulted mint now faults (s.db.focus ov.orderID) ov) } := by
  cases fault : faults ov with
  | none =>
    simp only [Sweeping.fire, live, Bool.false_eq_true, ↓reduceIte, fault, run_fire_ok, faulted]
  | some fault' =>
    cases fault' with
    | statement => exact absurd fault accepted
    | program n => simp only [Sweeping.fire, live, Bool.false_eq_true, ↓reduceIte, fault, faulted]

theorem replay_processed {ws : List Write} (plain : ∀ w ∈ ws, w.plain) (rows : Rows) :
    (dialect.replay ws rows).processed = rows.processed := by
  induction ws generalizing rows with
  | nil => rfl
  | cons w ws ih =>
    obtain ⟨first, others⟩ := forall_mem_cons.mp plain
    rw [Dialect.replay_cons, ih others]
    cases w with
    | processed eventID => exact first.elim
    | _ => rfl

theorem stopped_processed (ov : OverdueOrder) (mint : Mint) (n : Nat) (rows : Rows) :
    ((fire mint now ov).stopped n rows).processed = rows.processed :=
  stopped_keeps (D := dialect)
    (fun _ plain rows => replay_processed (Stmt.plain.writes plain rows) rows)
    (only_fire mint now ov) n rows

theorem faulted_processed (rows : Rows) (ov : OverdueOrder) :
    (faulted mint now faults rows ov).processed = rows.processed := by
  unfold faulted
  split
  · exact stopped_processed ov _ _ rows
  · exact swept_processed _ _ rows ov

variable (mint now) in
theorem foldl_fire_focus {claimed : List OverdueOrder}
    (accepted : ∀ ov ∈ claimed, faults ov ≠ some .statement) (live : s.aborted = false) :
    (claimed.foldl (Sweeping.fire mint now faults) s).aborted = false ∧
      ∀ orderID, (claimed.foldl (Sweeping.fire mint now faults) s).db.focus orderID =
        (claimedOf claimed orderID).foldl (faulted mint now faults) (s.db.focus orderID) := by
  induction claimed generalizing s with
  | nil => exact ⟨live, fun _ => rfl⟩
  | cons ov claimed ih =>
    obtain ⟨first, others⟩ := forall_mem_cons.mp accepted
    rw [foldl_cons, Sweeping.fire_live live first]
    obtain ⟨goes, focused⟩ := ih others (s := { s with
      db := s.db.store ov.orderID (faulted mint now faults (s.db.focus ov.orderID) ov) }) live
    refine ⟨goes, fun orderID => ?_⟩
    rw [focused orderID]
    by_cases same : ov.orderID = orderID
    · subst same
      simp only [claimedOf, focus_store_self, beq_self_eq_true, filter_cons_of_pos, foldl_cons]
    · have other : ¬ (ov.orderID == orderID) = true := by simpa only [beq_iff_eq] using same
      have kept : (s.db.store ov.orderID
          (faulted mint now faults (s.db.focus ov.orderID) ov)).focus orderID =
            s.db.focus orderID :=
        focus_store_of_ne s.db (Ne.symm same) (faulted_processed (s.db.focus ov.orderID) ov)
      have left : claimedOf (ov :: claimed) orderID = claimedOf claimed orderID :=
        filter_cons_of_neg other
      rw [left, kept]

end Transaction

/-- An order carries both identifiers. -/
def Rows.Identified (rows : Rows) : Prop :=
  ∀ ord ∈ rows.order, ord.reservationID.isSome = true ∧ ord.paymentID.isSome = true

variable {ord : Order}

theorem Rows.Identified.of_some {rows : Rows} (found : rows.order = some ord)
    (reserved : ord.reservationID.isSome = true) (paid : ord.paymentID.isSome = true) :
    rows.Identified := by
  intro row held
  cases found.symm.trans held
  exact ⟨reserved, paid⟩

def Abides (before after : Rows) : Prop :=
  before.order.isSome = true → before.Identified → after.order.isSome = true ∧ after.Identified

theorem abides_stmt (q : Stmt) (rows : Rows) :
    Abides rows (dialect.replay (q.writes rows) rows) := by
  intro present identified
  obtain ⟨ord, found⟩ := isSome_iff_exists.mp present
  obtain ⟨reserved, paid⟩ := identified ord found
  cases q with
  | markProcessed eventID =>
    simp only [writes]
    split <;> exact ⟨present, identified⟩
  | insertOrder new =>
    rw [writes, found]
    exact ⟨present, identified⟩
  | updateStatus expectVersion next fields =>
    simp only [writes]
    split
    · exact ⟨present, identified⟩
    · rename_i row matched
      cases found.symm.trans (filter_eq_some_iff.mp matched).1
      split
      · refine ⟨rfl, Rows.Identified.of_some rfl ?_ ?_⟩
        · simp [Order.withStatus, reserved]
        · simp [Order.withStatus, paid]
      · exact ⟨present, identified⟩
  | fillIDs reservationID paymentID =>
    rw [writes, found]
    refine ⟨rfl, Rows.Identified.of_some rfl ?_ ?_⟩
    · simp [Order.withIDs]
    · simp [Order.withIDs]
  | postponeStep step deadline =>
    simp only [writes]
    cases rows.steps step <;> exact ⟨present, identified⟩
  | enqueue record =>
    simp only [writes]
    split <;> exact ⟨present, identified⟩
  | recordStepSent | recordStepAcked | selectOrder | selectItems | selectSteps | claimOverdue =>
    exact ⟨present, identified⟩

theorem abides (p : Tx Unit) : Program.Respects Abides p :=
  Program.Respects.of_stmts (fun _ present identified => ⟨present, identified⟩)
    (fun _ _ _ first second present identified =>
      second (first present identified).1 (first present identified).2)
    abides_stmt p

theorem Rows.Identified.inTx {rows : Rows} (identified : rows.Identified)
    (found : rows.order = some ord) (p : Tx Unit) : (p.inTx rows).Identified :=
  ((abides p).inTx (fun _ present identified => ⟨present, identified⟩) rows
    (isSome_iff_exists.mpr ⟨ord, found⟩) identified).2

theorem Rows.Identified.foldl_swept {rows : Rows} (identified : rows.Identified)
    (present : rows.order.isSome = true) (mint : Step → Mint) (now : Time)
    (claimed : List OverdueOrder) :
    (claimed.foldl (fun rows ov => swept (mint ov.step) now rows ov) rows).Identified := by
  induction claimed generalizing rows with
  | nil => exact identified
  | cons ov claimed ih =>
    have kept := abides (fire (mint ov.step) now ov) rows present identified
    exact ih kept.2 kept.1

/-- **Identified orders.** Every order in the database carries both identifiers. -/
theorem identified_of_reachable {db : Database} (reached : service.Reachable db) (orderID : ID) :
    (db.focus orderID).Identified := by
  induction reached with
  | init initial =>
    subst initial
    intro ord held
    cases held
  | @step before after a _ taken ih =>
    obtain rfl : after = before.exec a := taken
    obtain ⟨rows, rewrites, alike⟩ := exec_rewrites before orderID a
    have shows : ((before.exec a).focus orderID).Identified ↔ rows.Identified :=
      iff_of_eq (alike.congr Rows.Identified fun _ => rfl)
    rw [shows]
    cases rewrites with
    | stay => exact ih
    | place input total mint now new =>
      have unreserved : (newOrder orderID input total).reservationID = none := rfl
      obtain ⟨⟨row, found, -, reserved, paid⟩, -⟩ :=
        placed_sending mint now (before.focus orderID) unreserved rfl
      exact Rows.Identified.of_some found (by rw [reserved]; rfl) (by rw [paid]; rfl)
    | event mint now named reacts =>
      exact inTx_of_ok (reacts.run mint now) ▸ ih.inTx reacts.found (handle mint now _)
    | cancel userID mint now found _ cancels => exact cancels ▸ ih.inTx found _
    | sweep claimed mint now claims =>
      cases found : (before.focus orderID).order with
      | some ord =>
        exact ih.foldl_swept (isSome_iff_exists.mpr ⟨ord, found⟩) (mint orderID) now _
      | none =>
        have unclaimed : claimedOf claimed orderID = [] := by
          refine eq_nil_iff_forall_not_mem.mpr fun ov member => ?_
          obtain ⟨ord, -, held, -⟩ :=
            mem_overdue.mp (overdue_of_claimed claims member)
          cases found.symm.trans held
        rw [unclaimed]
        exact ih

/-- How much has been done for an order: each statement that changes its rows adds to it,
unless it moves a deadline or fills in an identifier. -/
def Rows.activity (rows : Rows) : Nat :=
  rows.order.elim 0 Order.version + (allSteps.map fun step =>
    (rows.steps step).elim 0 StepRow.attempts).sum + rows.outbox.length

theorem attempts_update (steps : Step → Option StepRow) (step : Step) (row : StepRow) :
    (allSteps.map fun other =>
      (Function.update steps step (some row) other).elim 0 StepRow.attempts).sum +
        (steps step).elim 0 StepRow.attempts =
      (allSteps.map fun other => (steps other).elim 0 StepRow.attempts).sum + row.attempts := by
  cases step <;>
    simp only [allSteps, map_cons, map_nil, sum_cons, sum_nil,
      Function.update_apply, reduceCtorEq, ↓reduceIte, elim_some] <;> omega

theorem sentRow_attempts (row : Option StepRow) (deadline : Option Time) (now : Time) :
    (sentRow row deadline now).attempts = row.elim 0 StepRow.attempts + 1 := by
  cases row <;> simp [sentRow]

theorem ackedRow_attempts (row : Option StepRow) (eventID : Option ID) (now : Time) :
    row.elim 0 StepRow.attempts ≤ (ackedRow row eventID now).attempts := by
  cases row <;> simp [ackedRow]

theorem activity_stmt (q : Stmt) (rows : Rows) :
    rows.activity ≤ (dialect.replay (q.writes rows) rows).activity := by
  cases q with
  | markProcessed eventID =>
    simp only [writes]
    split <;> exact le_refl _
  | insertOrder ord =>
    simp only [writes]
    split
    · rename_i new
      have absent := isNone_iff_eq_none.mp new
      change rows.activity ≤ activity { rows with order := some ord }
      simp only [activity, absent, elim_none, elim_some]
      omega
    · exact le_refl _
  | updateStatus expectVersion next fields =>
    simp only [writes]
    split
    · exact le_refl _
    · rename_i ord matched
      have found : rows.order = some ord := (filter_eq_some_iff.mp matched).1
      split
      · change rows.activity ≤ activity { rows with order := some (ord.withStatus next fields) }
        simp only [activity, found, elim_some, Order.withStatus]
        omega
      · exact le_refl _
  | fillIDs reservationID paymentID =>
    have ran := congrArg (fun result => result.2.activity)
        (run_fillIDs rows reservationID paymentID)
    refine le_of_eq (Eq.trans ?_ ran.symm)
    simp only [activity]
    cases rows.order <;> rfl
  | recordStepSent step deadline now =>
    have counted := attempts_update rows.steps step (sentRow (rows.steps step) deadline now)
    rw [sentRow_attempts] at counted
    change rows.activity ≤ activity { rows with
      steps := Function.update rows.steps step (some (sentRow (rows.steps step) deadline now)) }
    simp only [activity]
    omega
  | recordStepAcked step eventID now =>
    have counted := attempts_update rows.steps step (ackedRow (rows.steps step) eventID now)
    have more := ackedRow_attempts (rows.steps step) eventID now
    change rows.activity ≤ activity { rows with
      steps := Function.update rows.steps step (some (ackedRow (rows.steps step) eventID now)) }
    simp only [activity]
    omega
  | postponeStep step deadline =>
    simp only [writes]
    cases held : rows.steps step with
    | none => exact le_refl _
    | some row =>
      have counted := attempts_update rows.steps step { row with deadlineAt := some deadline }
      simp only [held, elim_some] at counted
      change rows.activity ≤ activity { rows with
        steps := Function.update rows.steps step (some { row with deadlineAt := some deadline }) }
      simp only [activity]
      omega
  | enqueue record =>
    simp only [writes]
    split
    · exact le_refl _
    · change rows.activity ≤ activity { rows with outbox := rows.outbox ++ [record] }
      simp only [activity, length_append]
      omega
  | selectOrder | selectItems | selectSteps | claimOverdue => exact le_refl _

theorem activity_stopped (p : Tx Unit) {n m : Nat} (more : n ≤ m) (rows : Rows) :
    (p.stopped n rows).activity ≤ (p.stopped m rows).activity :=
  stopped_mono activity_stmt p more rows

theorem stopped_reading (mint : Mint) (now : Time) {ov : OverdueOrder} {rows : Rows}
    (found : rows.order = some ord) (retries : ¬ Escalates ov) :
    (∀ n ≤ 3, (fire mint now ov).stopped n rows = rows) ∧
      ∀ n, (fire mint now ov).stopped (n + 3) rows =
        (apply mint now ord .timeout (onTimeout ord.status (ctxOf rows.steps false)) none
          ord.reservationID ord.paymentID "").stopped n rows := by
  have calm : (rollbackForbidden ov.status && decide (maxRollForwardRetries ≤ ov.attempts)) =
      false := by simpa only [Escalates, Bool.not_eq_true] using retries
  obtain ⟨order, steps, outbox, processed⟩ := rows
  cases found
  have permitted := onTimeout_permitted ord.status (ctxOf steps false)
  have fetched (k : Option Order → Tx Unit) (n : Nat) :
      (getOrder >>= k).stopped (n + 2) ⟨some ord, steps, outbox, processed⟩ =
        (k (some ord)).stopped n ⟨some ord, steps, outbox, processed⟩ := rfl
  have scanned (k : Ctx → Tx Unit) (n : Nat) :
      (buildCtx false >>= k).stopped (n + 1) ⟨some ord, steps, outbox, processed⟩ =
        (k (ctxOf steps false)).stopped n ⟨some ord, steps, outbox, processed⟩ := by
    rw [← foldl_scanStep ⟨some ord, steps, outbox, processed⟩]
    rfl
  unfold fire
  rw [calm]
  constructor
  · intro n few
    rcases n with _ | _ | _ | _ | n
    · rfl
    · rfl
    · rfl
    · exact stopped_zero _ _
    · omega
  · intro n
    simp only [Bool.false_eq_true, ↓reduceIte, fetched, scanned, next_timeout, permitted]

theorem activity_transition (mint : Mint) (now : Time) {rows : Rows} {d : Decision}
    (found : rows.order = some ord) (moved : d.next ≠ ord.status)
    (admitted : ¬ Refused ord d ord.reservationID ord.paymentID "") :
    rows.activity < ((apply mint now ord .timeout d none ord.reservationID ord.paymentID
      "").stopped 1 rows).activity := by
  have loud : (d.ackOnly && d.next == ord.status && d.emit.isEmpty) = false := by simp [moved]
  have allowed : (ord.withStatus d.next
      (statusFields ord d ord.reservationID ord.paymentID "")).admissible = true := by
    simpa [Refused, moved] using admitted
  have written :=
    run_writeStatus found d.next (statusFields ord d ord.reservationID ord.paymentID "")
  rw [if_pos allowed] at written
  have stops : (apply mint now ord .timeout d none ord.reservationID ord.paymentID "").stopped 1
      rows = ((writeStatus ord.version d.next
        (statusFields ord d ord.reservationID ord.paymentID "")).run rows).2 := by
    unfold apply
    rw [loud]
    simp only [moved, ↓reduceIte]
    exact stopped_zero _ _
  rw [stops, written]
  simp only [activity, found, elim_some, Order.withStatus]
  omega

/-- The first statements of a repetition: the identifiers, which are there, the command and
the step. -/
theorem stopped_repetition (mint : Mint) (now : Time) {rows : Rows} {d : Decision}
    (found : rows.order = some ord) (identified : rows.Identified) (stays : d.next = ord.status)
    {step : Step} {more : List Step} (emits : d.emit = step :: more) :
    (∀ n ≤ 1, (apply mint now ord .timeout d none ord.reservationID ord.paymentID "").stopped n
        rows = rows) ∧
      (apply mint now ord .timeout d none ord.reservationID ord.paymentID "").stopped 2 rows =
        { rows with outbox := enqueued rows.outbox (commandRecord mint ord step) } ∧
      rows.activity < ((apply mint now ord .timeout d none ord.reservationID ord.paymentID
        "").stopped 3 rows).activity := by
  have loud : (d.ackOnly && d.next == ord.status && d.emit.isEmpty) = false := by simp [emits]
  obtain ⟨reserved, paid⟩ := identified ord found
  obtain ⟨reservationID, reservation⟩ := isSome_iff_exists.mp reserved
  obtain ⟨paymentID, payment⟩ := isSome_iff_exists.mp paid
  have same (r p : ID) : rows.order.map (fun row => row.withIDs r p) = rows.order := by
    obtain ⟨id, userID, status, items, subtotal, discount, shipping, tax, total, token, _, _,
      _⟩ := ord
    cases reservation
    cases payment
    rw [found]
    rfl
  have body : apply mint now ord .timeout d none ord.reservationID ord.paymentID "" = (do
        emitCommand mint now ord d.deadline step
        forEach (emitCommand mint now ord d.deadline) more
        emitStateEvents mint ord d ord.reservationID ord.paymentID : Tx Unit) := by
    unfold apply
    rw [loud]
    simp only [stays, emits, ↓reduceIte]
    rfl
  have filled (r p : ID) : ((fillIDs r p).run rows).2 = rows := by rw [run_fillIDs, same]
  have one : (apply mint now ord .timeout d none ord.reservationID ord.paymentID "").stopped 1
      rows = rows := by
    rw [body]
    exact (stopped_zero _ _).trans (filled _ _)
  have two : (apply mint now ord .timeout d none ord.reservationID ord.paymentID "").stopped 2
      rows = { rows with outbox := enqueued rows.outbox (commandRecord mint ord step) } := by
    rw [body]
    apply (stopped_zero _ _).trans
    change ((enqueue (commandRecord mint ord step)).run ((fillIDs _ _).run rows).2).2 = _
    rw [filled, run_enqueue]
  have three : (apply mint now ord .timeout d none ord.reservationID ord.paymentID "").stopped 3
      rows = { rows with
        outbox := enqueued rows.outbox (commandRecord mint ord step)
        steps := sendStep now d.deadline rows.steps step } := by
    rw [body]
    apply (stopped_zero _ _).trans
    change ((recordStepSent step (deadlineAt now d.deadline) now).run
      ((enqueue (commandRecord mint ord step)).run ((fillIDs _ _).run rows).2).2).2 = _
    rw [filled, run_enqueue, run_recordStepSent]
    rfl
  refine ⟨fun n few => ?_, two, ?_⟩
  · match n, few with
    | 0, _ => exact stopped_zero _ _
    | 1, _ => exact one
  · have counted := attempts_update rows.steps step
      (sentRow (rows.steps step) (deadlineAt now d.deadline) now)
    have longer : rows.outbox.length ≤
        (enqueued rows.outbox (commandRecord mint ord step)).length := by
      rcases enqueued_cases rows.outbox (commandRecord mint ord step) with known | new
      · rw [known]
      · rw [new, length_append]
        exact le_add_right _ _
    rw [sentRow_attempts] at counted
    rw [three]
    simp only [activity, sendStep]
    omega

/-- Up to there the fire has written nothing: it has read the order, its lines and its steps,
or it repeats a compensation and has but filled in identifiers that are there, and an event
under an id that is taken. -/
def Unwritten (rows : Rows) (mint : Mint) (n : Nat) : Prop :=
  n ≤ 3 ∨ rows.status = some .compensating ∧ (n = 4 ∨ n = 5 ∧
    ∃ step ∈ (compensationsFor (ctxOf rows.steps false)).head?,
      rows.unseen (mint.commandID step) = false)

/-- The claimed step is overdue and its order coherent. -/
structure Due (now : Time) (rows : Rows) (ov : OverdueOrder) : Prop where
  coherent : rows.board.Coherent
  identified : rows.Identified
  overdue : ov ∈ rows.overdue now

namespace Due

variable {now : Time} {rows : Rows} {ov : OverdueOrder}

theorem cases (due : Due now rows ov) :
    ∃ ord, rows.order = some ord ∧ ¬ Escalates ov ∧ (ord.status ≠ .compensating ∧
          (onTimeout ord.status (ctxOf rows.steps false)).next ≠ ord.status ∨
        ord.status = .compensating ∧
          ∃ step more, compensationsFor (ctxOf rows.steps false) = step :: more) := by
  obtain ⟨coherent, -, overdue⟩ := due
  obtain ⟨ord, found, early, same⟩ := coherent.preCommit_of_overdue overdue
  refine ⟨ord, found, not_escalates_of_preCommit (same ▸ early), ?_⟩
  rcases early with pending | reserved | compensating
  · rw [pending]
    exact .inl ⟨nofun, nofun⟩
  · rw [reserved]
    exact .inl ⟨nofun, nofun⟩
  · have current : rows.board.status = some .compensating := by
      simp [Rows.board, Rows.status, found, compensating]
    have emits : compensationsFor (ctxOf rows.steps false) =
        compensationsFor (rows.board.ctx false) := by
      have decisions := congrArg Decision.emit (onTimeout_ctxOf rows .compensating)
      exact decisions
    refine .inr ⟨compensating, exists_cons_of_ne_nil ?_⟩
    rw [emits]
    simp only [Board.Coherent, current] at coherent
    obtain ⟨-, -, -, -, -, release | ⟨-, authorized, unvoided⟩, -⟩ := coherent
    · simp [compensationsFor, Board.ctx, release]
    · simp [compensationsFor, Board.ctx, authorized, unvoided]

/-- **Halfway.** A fire that gives up has done nothing to its order or is ahead of it. -/
theorem stopped (due : Due now rows ov) (mint : Mint) (n : Nat) :
    (Unwritten rows mint n → (fire mint now ov).stopped n rows = rows) ∧
      (¬ Unwritten rows mint n → rows.activity < ((fire mint now ov).stopped n rows).activity) := by
  obtain ⟨ord, found, retries, course⟩ := due.cases
  obtain ⟨reading, goes⟩ := stopped_reading mint now found retries
  have status : rows.status = some ord.status := by rw [status, found, map_some]
  by_cases few : n ≤ 3
  · exact ⟨fun _ => reading n few, fun written => absurd (.inl few) written⟩
  obtain ⟨m, rfl⟩ := Nat.exists_eq_add_of_le (Nat.lt_of_not_le few)
  rcases course with ⟨early, moved⟩ | ⟨compensating, step, more, emits⟩
  · have written := activity_transition mint now found moved (onTimeout_not_refused ord _ _ _ _)
    rw [← goes 1] at written
    refine ⟨fun unwritten => ?_, fun _ => lt_of_lt_of_le written
      (activity_stopped _ (le_add_right 4 m) rows)⟩
    rcases unwritten with few' | ⟨current, -⟩
    · exact absurd few' few
    · exact absurd (some.inj (status.symm.trans current)) early
  · have repeats : (onTimeout ord.status (ctxOf rows.steps false)).next = ord.status := by
      rw [compensating]
      rfl
    have emits' : (onTimeout ord.status (ctxOf rows.steps false)).emit = step :: more := by
      rw [compensating]
      exact emits
    obtain ⟨one, two, three⟩ := stopped_repetition mint now found due.identified repeats emits'
    rw [← goes 3] at three
    rw [← goes 2] at two
    have head : (compensationsFor (ctxOf rows.steps false)).head? = some step := by rw [emits]; rfl
    have known : rows.unseen (mint.commandID step) = false ↔
        rows.outbox.any (fun record => record.eventID == (commandRecord mint ord step).eventID) =
          true := by
      simp [unseen, commandRecord]
    rcases m with _ | _ | m
    · refine ⟨fun _ => (goes 1).trans (one 1 (le_refl 1)), fun written => ?_⟩
      exact absurd (.inr ⟨status.trans (congrArg some compensating), .inl rfl⟩) written
    · rw [two]
      by_cases taken : rows.unseen (mint.commandID step) = false
      · refine ⟨fun _ => ?_, fun written => absurd (.inr
          ⟨status.trans (congrArg some compensating), .inr ⟨rfl, step, head, taken⟩⟩) written⟩
        rw [enqueued, if_pos (known.mp taken)]
      · refine ⟨fun unwritten => ?_, fun _ => ?_⟩
        · rcases unwritten with few' | ⟨-, four | ⟨-, other, first, taken'⟩⟩
          · exact absurd few' few
          · exact absurd four (by decide)
          · cases head.symm.trans first
            exact absurd taken' taken
        · rw [enqueued, if_neg fun any => taken (known.mpr any)]
          simp only [activity, length_append, length_singleton]
          omega
    · refine ⟨fun unwritten => ?_, fun _ => lt_of_lt_of_le three
        (activity_stopped _ (by omega) rows)⟩
      rcases unwritten with few' | ⟨-, four | ⟨five, -⟩⟩
      · exact absurd few' few
      · omega
      · omega

theorem swept (due : Due now rows ov) (mint : Mint) :
    rows.activity < (swept mint now rows ov).activity := by
  obtain ⟨enough, ran⟩ := stopped_enough (fire mint now ov) rows
  have written := (due.stopped mint (enough + 6)).2 fun unwritten => by
    rcases unwritten with few | ⟨-, four | ⟨five, -⟩⟩ <;> omega
  rwa [ran (enough + 6) (le_add_right enough 6)] at written

end Due

section Batch

variable {db : Database} {mint : ID → Step → Mint} {now : Time} {claimed : List OverdueOrder}
  {faults : OverdueOrder → Option Fault}

variable {ov : OverdueOrder}

theorem due_of_claimed (reached : service.Reachable db) (claims : db.claimable now claimed = true)
    {orderID : ID} (member : ov ∈ claimedOf claimed orderID) :
    Due now (db.focus orderID) ov where
  coherent := coherent_of_reachable reached orderID
  identified := identified_of_reachable reached orderID
  overdue := overdue_of_claimed claims member

/-- The fire of a row gives up before it has written anything. -/
def Spared (db : Database) (mint : ID → Step → Mint) (faults : OverdueOrder → Option Fault)
    (ov : OverdueOrder) : Prop :=
  ∃ n, faults ov = some (.program n) ∧ Unwritten (db.focus ov.orderID) (mint ov.orderID ov.step) n

theorem activity_faulted (mint : ID → Step → Mint) (now : Time)
    (faults : OverdueOrder → Option Fault) (rows : Rows) (ov : OverdueOrder) :
    rows.activity ≤ (faulted mint now faults rows ov).activity := by
  have goes (n : Nat) :=
    activity_stopped (fire (mint ov.orderID ov.step) now ov) (zero_le n) rows
  simp only [stopped_zero] at goes
  unfold faulted
  split
  · rename_i n _
    exact goes n
  · obtain ⟨enough, ran⟩ := stopped_enough (fire (mint ov.orderID ov.step) now ov) rows
    have later := goes enough
    rwa [ran enough (le_refl enough)] at later

theorem activity_foldl_faulted (mint : ID → Step → Mint) (now : Time)
    (faults : OverdueOrder → Option Fault) (claimed : List OverdueOrder) (rows : Rows) :
    rows.activity ≤ (claimed.foldl (faulted mint now faults) rows).activity := by
  induction claimed generalizing rows with
  | nil => exact le_refl _
  | cons ov claimed ih => exact le_trans (activity_faulted mint now faults rows ov) (ih _)

variable (mint) in
theorem Due.faulted (due : Due now (db.focus ov.orderID) ov)
    (accepted : faults ov ≠ some .statement) :
    (Spared db mint faults ov →
        Orders.faulted mint now faults (db.focus ov.orderID) ov = db.focus ov.orderID) ∧
      (¬ Spared db mint faults ov → (db.focus ov.orderID).activity <
        (Orders.faulted mint now faults (db.focus ov.orderID) ov).activity) := by
  cases fault : faults ov with
  | none =>
    refine ⟨fun ⟨n, program, _⟩ => (nomatch fault.symm.trans program), fun _ => ?_⟩
    simpa only [Orders.faulted, fault] using due.swept (mint ov.orderID ov.step)
  | some fault' =>
    cases fault' with
    | statement => exact absurd fault accepted
    | program n =>
      obtain ⟨spared, written⟩ := due.stopped (mint ov.orderID ov.step) n
      simp only [Orders.faulted, fault]
      refine ⟨fun ⟨m, program, unwritten⟩ => ?_, fun touched => written fun unwritten =>
        touched ⟨n, fault, unwritten⟩⟩
      cases fault.symm.trans program
      exact spared unwritten

variable (mint faults) in
theorem foldl_faulted_iff {orderID : ID} {rest : List OverdueOrder}
    (due : ∀ ov ∈ rest, ov.orderID = orderID ∧ Due now (db.focus orderID) ov ∧
      faults ov ≠ some .statement) :
    rest.foldl (faulted mint now faults) (db.focus orderID) = db.focus orderID ↔
      ∀ ov ∈ rest, Spared db mint faults ov := by
  induction rest with
  | nil => exact ⟨fun _ _ member => (nomatch member), fun _ => rfl⟩
  | cons ov rest ih =>
    obtain ⟨⟨rfl, first, accepted⟩, others⟩ := forall_mem_cons.mp due
    obtain ⟨spared, written⟩ := first.faulted mint accepted
    rw [foldl_cons, forall_mem_cons]
    by_cases same : Spared db mint faults ov
    · rw [spared same, ih others, and_iff_right same]
    · refine ⟨fun unchanged => ?_, fun all => absurd all.1 same⟩
      have ahead := lt_of_lt_of_le (written same) (activity_foldl_faulted mint now faults rest
          (faulted mint now faults (db.focus ov.orderID) ov))
      rw [unchanged] at ahead
      exact absurd ahead (lt_irrefl _)

def Fails (claimed : List OverdueOrder) (faults : OverdueOrder → Option Fault) (orderID : ID) :
    Prop :=
  ∃ ov ∈ claimed, ov.orderID = orderID ∧ (faults ov).isSome = true

instance (orderID : ID) : Decidable (Fails claimed faults orderID) :=
  inferInstanceAs (Decidable (∃ ov ∈ claimed, _))

/-- After the sweep the rows of an order a fire of which fails are as before it, and those of
every other order as the sweep leaves them when no fire fails. -/
def Isolated (db : Database) (mint : ID → Step → Mint) (now : Time) (claimed : List OverdueOrder)
    (faults : OverdueOrder → Option Fault) : Prop :=
  ∀ ov ∈ claimed, (Fails claimed faults ov.orderID →
        (db.tickWith mint now claimed faults).focus ov.orderID = db.focus ov.orderID) ∧
      (¬ Fails claimed faults ov.orderID → (db.tickWith mint now claimed faults).focus ov.orderID =
          (db.tick mint now claimed).focus ov.orderID)

/-- Where a statement is refused, no fire of another order succeeds. Otherwise every fire of an
order of which one fails gives up before it has written anything. -/
def Contained (db : Database) (mint : ID → Step → Mint) (claimed : List OverdueOrder)
    (faults : OverdueOrder → Option Fault) : Prop :=
  ((∃ ov ∈ claimed, faults ov = some .statement) →
    ∀ ov ∈ claimed, Fails claimed faults ov.orderID) ∧
    ((∀ ov ∈ claimed, faults ov ≠ some .statement) → ∀ ov ∈ claimed,
      Fails claimed faults ov.orderID → Spared db mint faults ov)

variable (db mint now) in
theorem tickWith_aborted (refused : ∃ ov ∈ claimed, faults ov = some .statement) :
    db.tickWith mint now claimed faults = db := by
  obtain ⟨ov, member, statement⟩ := refused
  obtain ⟨before, after, rfl⟩ := append_of_mem member
  unfold tickWith
  split
  · have aborted := Sweeping.fire_statement mint now
      (s := before.foldl (Sweeping.fire mint now faults) { db := db }) statement
    rw [foldl_append, foldl_cons, Sweeping.fire_aborted aborted]
    exact if_pos aborted
  · rfl

theorem tickWith_focus (claims : db.claimable now claimed = true)
    (accepted : ∀ ov ∈ claimed, faults ov ≠ some .statement) (orderID : ID) :
    (db.tickWith mint now claimed faults).focus orderID =
      (claimedOf claimed orderID).foldl (faulted mint now faults) (db.focus orderID) := by
  obtain ⟨live, focused⟩ := foldl_fire_focus mint now accepted (s := { db := db }) rfl
  simp only [tickWith, claims, ↓reduceIte, live, Bool.false_eq_true]
  exact focused orderID

theorem tickWith_none (claims : db.claimable now claimed = true) (orderID : ID) :
    (db.tickWith mint now claimed fun _ => none).focus orderID =
      (db.tick mint now claimed).focus orderID := by
  have accepted : ∀ ov ∈ claimed, (none : Option Fault) ≠ some .statement := fun _ _ => nofun
  rw [tickWith_focus claims accepted, tick_focus claims]
  refine foldl_ext _ _ _ fun rows ov member => ?_
  rw [← (mem_claimedOf.mp member).2]
  rfl

theorem tick_acts (reached : service.Reachable db) (claims : db.claimable now claimed = true)
    (member : ov ∈ claimed) :
    db.focus ov.orderID ≠ (db.tick mint now claimed).focus ov.orderID := by
  intro same
  have due : ∀ other ∈ claimedOf claimed ov.orderID, other.orderID = ov.orderID ∧
      Due now (db.focus ov.orderID) other ∧ (none : Option Fault) ≠ some .statement :=
    fun other own => ⟨(mem_claimedOf.mp own).2, due_of_claimed reached claims own, nofun⟩
  have idle := foldl_faulted_iff mint (fun _ => none) due
  have accepted : ∀ ov ∈ claimed, (none : Option Fault) ≠ some .statement := fun _ _ => nofun
  rw [← tickWith_focus claims accepted, tickWith_none claims] at idle
  obtain ⟨n, program, -⟩ := idle.mp same.symm ov (mem_claimedOf.mpr ⟨member, rfl⟩)
  cases program

/-- **Isolation.** A sweep leaves the orders alone whose fires fail, and sweeps all others,
exactly when a refused statement meets no other order's fire and the code gives up before it
has written anything. -/
theorem isolated_iff_contained (reached : service.Reachable db)
    (claims : db.claimable now claimed = true) (mint : ID → Step → Mint)
    (faults : OverdueOrder → Option Fault) :
    Isolated db mint now claimed faults ↔ Contained db mint claimed faults := by
  by_cases refused : ∃ ov ∈ claimed, faults ov = some .statement
  · have rolledBack := tickWith_aborted db mint now refused
    constructor
    · intro isolated
      refine ⟨fun _ ov member => ?_, fun accepted => ?_⟩
      · by_contra succeeds
        have swept := (isolated ov member).2 succeeds
        rw [rolledBack] at swept
        exact tick_acts reached claims member swept
      · obtain ⟨ov, member, statement⟩ := refused
        exact absurd statement (accepted ov member)
    · rintro ⟨all, -⟩ ov member
      refine ⟨fun _ => by rw [rolledBack], fun succeeds => ?_⟩
      exact absurd (all refused ov member) succeeds
  · have accepted : ∀ ov ∈ claimed, faults ov ≠ some .statement := fun ov member statement =>
      refused ⟨ov, member, statement⟩
    have due (orderID : ID) : ∀ other ∈ claimedOf claimed orderID, other.orderID = orderID ∧
        Due now (db.focus orderID) other ∧ faults other ≠ some .statement := fun other own =>
      ⟨(mem_claimedOf.mp own).2, due_of_claimed reached claims own,
        accepted other (mem_claimedOf.mp own).1⟩
    have rows (orderID : ID) := foldl_faulted_iff mint faults (due orderID)
    constructor
    · intro isolated
      refine ⟨fun statement => absurd statement refused, fun _ ov member fails => ?_⟩
      have unchanged := (isolated ov member).1 fails
      rw [tickWith_focus claims accepted] at unchanged
      exact (rows ov.orderID).mp unchanged ov (mem_claimedOf.mpr ⟨member, rfl⟩)
    · rintro ⟨-, spared⟩ ov member
      refine ⟨fun fails => ?_, fun succeeds => ?_⟩
      · rw [tickWith_focus claims accepted]
        refine (rows ov.orderID).mpr fun other own => ?_
        obtain ⟨taken, owner⟩ := mem_claimedOf.mp own
        exact spared accepted other taken (owner ▸ fails)
      · rw [tickWith_focus claims accepted, tick_focus claims]
        refine foldl_ext _ _ _ fun rows other own => ?_
        obtain ⟨taken, owner⟩ := mem_claimedOf.mp own
        have calm : faults other = none := not_isSome_iff_eq_none.mp fun fault =>
          succeeds ⟨other, taken, owner, fault⟩
        rw [← owner]
        simp only [faulted, calm]

end Batch

def twoPending : Database :=
  history [placeSingle, .place 2 singleLine ⟨1000, "USD"⟩ (mintFrom 200) 1]

def bothOverdue : List OverdueOrder :=
  [⟨1, .pending, .reserve, 0, 1⟩, ⟨2, .pending, .reserve, 0, 1⟩]

def drawn (orderID : ID) (_ : Step) : Mint := mintFrom (1000 * orderID)

def failsSecond (fault : Fault) (ov : OverdueOrder) : Option Fault :=
  if ov.orderID = 2 then some fault else none

/-- The code gives up on the second order after it has read it. -/
theorem isolated_spared :
    Isolated twoPending drawn (32 * second) bothOverdue (failsSecond (.program 3)) := by
  refine (isolated_iff_contained (System.Reachable.foldl _) (by decide) drawn _).mpr
    ⟨fun refused => absurd refused (by decide), fun _ ov member fails => ?_⟩
  rcases mem_cons.mp member with rfl | last
  · exact absurd fails (by decide +kernel)
  · cases mem_singleton.mp last
    exact ⟨3, rfl, .inl (le_refl 3)⟩

/-- A statement refused for the second order rolls the first one back, and the transition of
an order the code gives up on before its command is written is committed without it. -/
theorem isolation_fails :
    ¬ Isolated twoPending drawn (32 * second) bothOverdue (failsSecond .statement) ∧
      ¬ Isolated twoPending drawn (32 * second) bothOverdue (failsSecond (.program 4)) := by
  have first : ⟨1, .pending, .reserve, 0, 1⟩ ∈ bothOverdue := mem_cons_self
  have last : ⟨2, .pending, .reserve, 0, 1⟩ ∈ bothOverdue :=
    mem_cons_of_mem _ mem_cons_self
  constructor
  · intro isolated
    have swept := congrArg status ((isolated _ first).2 (by decide +kernel))
    revert swept
    decide +kernel
  · intro isolated
    have kept := congrArg status ((isolated _ last).1 ⟨_, last, rfl, rfl⟩)
    revert kept
    decide +kernel

end Souq.Orders
