import Souq.Orders.Outbox
import Souq.Orders.Timers

/-!
# What the rows say of a cancellation

The status of an order, the reason and the failed step its row holds, and what the
cancellation events in its outbox announce. Every transaction is a move on these, and a
decision acts on them as a plain function.
-/

namespace Souq.Orders

open Saga Transact Transition List Option OutboxRecord Rows

/-- What the rows of an order say of its cancellation. -/
structure Verdict where
  status : Option State := none
  reason : Option CancelReason := none
  failedStep : Option Step := none
  announced : List (Option CancelReason × Option Step) := []

def OutboxRecord.announces (record : OutboxRecord) : Option (Option CancelReason × Option Step) :=
  match record.message with
  | .event (.cancelled _ _ reasonCode failedStep) => some (reasonCode, failedStep)
  | _ => none

def Rows.verdict (rows : Rows) : Verdict where
  status := rows.status
  reason := rows.order.bind Order.cancellationReason
  failedStep := rows.order.bind Order.failedStep
  announced := rows.outbox.filterMap announces

def Verdict.announce (v : Verdict) (announced : List (Option CancelReason × Option Step)) :
    Verdict :=
  { v with announced := announced }

theorem verdict_outbox (rows : Rows) (outbox : List OutboxRecord) :
    ({ rows with outbox := outbox } : Rows).verdict =
      rows.verdict.announce (outbox.filterMap announces) := rfl

def Rows.unseen (rows : Rows) (eventID : ID) : Bool :=
  !rows.outbox.any fun record => record.eventID == eventID

namespace Verdict

/-- The verdict after a decision: a status change keeps the columns it does not set, and
an event whose id is taken is not written. -/
def turn (v : Verdict) (d : Decision) (reasonCode : String) (unseen : Bool) : Verdict :=
  if v.status = some d.next then v
  else
    { status := some d.next
      reason := if d.next = .cancelled then pickReason d.reason reasonCode v.reason else v.reason
      failedStep := d.failedStep <|> v.failedStep
      announced :=
        if d.next = .cancelled ∧ unseen = true then
          v.announced ++ [(pickReason d.reason "" v.reason, d.failedStep)]
        else v.announced }

def place (v : Verdict) : Verdict := { status := some .pending, announced := v.announced }

def cancel (v : Verdict) : Verdict :=
  { v with status := some .compensating, reason := some .customerCancelled }

/-- The verdict after the timeout of an order that can still be rolled back. -/
def timeout (v : Verdict) : Verdict :=
  { v with
    status := some .compensating
    failedStep := if v.status = some .stockReserved then some .authorize else v.failedStep }

theorem timeout_of_compensating {v : Verdict} (compensating : v.status = some .compensating) :
    v.timeout = v := by
  obtain ⟨status, reason, failedStep, announced⟩ := v
  cases compensating
  rfl

end Verdict

variable (mint : Mint) (now : Time)

theorem announces_command (ord : Order) (step : Step) :
    (commandRecord mint ord step).announces = none := rfl

theorem filterMap_enqueued {outbox : List OutboxRecord} {record : OutboxRecord}
    (silent : record.announces = none) :
    (enqueued outbox record).filterMap announces = outbox.filterMap announces := by
  rcases enqueued_cases outbox record with same | more
  · rw [same]
  · rw [more, filterMap_append, filterMap_cons_none silent, filterMap_nil, append_nil]

theorem verdict_emitted (ord : Order) (deadline : Duration) (rows : Rows) (step : Step) :
    (emitted mint now ord deadline rows step).verdict = rows.verdict := by
  simp only [verdict, status, emitted, filterMap_enqueued (announces_command ..)]
  cases rows.order <;> rfl

theorem verdict_foldl_emitted (ord : Order) (deadline : Duration) (emit : List Step) (rows : Rows) :
    (emit.foldl (emitted mint now ord deadline) rows).verdict = rows.verdict := by
  induction emit generalizing rows with
  | nil => rfl
  | cons step emit ih => rw [foldl_cons, ih, verdict_emitted]

variable {trigger : Trigger} {c : Ctx} {d : Decision} {ord : Order} {rows : Rows} {orderID : ID}
  {db : Database}

theorem emit_of_cancelled {origin : State} (decided : Decides origin trigger c d)
    (cancels : d.next = .cancelled) : d.emit = [] := by
  cases decided with
  | released | neverReserved | voided | neverAuthorized =>
    rcases settleOrWait_cases _ with ⟨-, -, settles⟩ | ⟨-, waits⟩
    · rw [settles]
    · rw [waits]
  | _ => first | rfl | cases cancels

theorem quiet_of_cancelled (decided : Decides ord.status trigger c d)
    (cancelled : ord.status = .cancelled) :
    Quiet ord d := by
  rw [cancelled] at decided
  cases decided
  simp [Quiet, cancelled]

theorem filterMap_publicEvents (ord : Order) (d : Decision) (reservationID paymentID : Option ID)
    (rows : Rows) :
    (publicEvents mint ord d reservationID paymentID rows.outbox).filterMap announces =
      if d.next = .cancelled ∧ rows.unseen mint.eventID = true then
        rows.outbox.filterMap announces ++
          [(pickReason d.reason "" ord.cancellationReason, d.failedStep)]
      else rows.outbox.filterMap announces := by
  unfold publicEvents
  cases next : d.next with
  | cancelled =>
    cases unseen : rows.unseen mint.eventID with
    | true =>
      have free : (rows.outbox.any fun other => other.eventID == mint.eventID) = false := by
        simpa [Rows.unseen] using unseen
      simp only [enqueued, free, Bool.false_eq_true, ↓reduceIte, and_self,
        filterMap_append, filterMap_cons, filterMap_nil, OutboxRecord.announces]
    | false =>
      have taken : (rows.outbox.any fun other => other.eventID == mint.eventID) = true := by
        simpa [Rows.unseen] using unseen
      simp only [enqueued, taken, ↓reduceIte, Bool.false_eq_true, and_false]
  | confirmed =>
    simp only [reduceCtorEq, false_and, ↓reduceIte]
    exact filterMap_enqueued rfl
  | _ => simp only [reduceCtorEq, false_and, ↓reduceIte]

/-- Sending the commands and the event of a decision turns the verdict as the decision
does, once the row has the new status. -/
theorem verdict_sent (decided : Decides ord.status trigger c d) (loud : ¬ Quiet ord d)
    (reservationID paymentID : Option ID) (reasonCode : String) {base sent : Rows}
    (found : rows.order = some ord)
    (sends : d.emit.foldl (emitted mint now ord d.deadline) base = sent)
    (order : base.order = some (statusRow ord d reservationID paymentID reasonCode))
    (outbox : base.outbox = rows.outbox) :
    ({ sent with outbox := publicEvents mint ord d reservationID paymentID sent.outbox } :
        Rows).verdict = rows.verdict.turn d reasonCode (rows.unseen mint.eventID) := by
  have kept := verdict_foldl_emitted mint now ord d.deadline d.emit base
  rw [sends] at kept
  have current : rows.verdict.status = some ord.status := by
    simp only [verdict, status, found, map_some]
  rw [verdict_outbox, filterMap_publicEvents]
  change sent.verdict.announce (if d.next = .cancelled ∧ sent.unseen mint.eventID = true then
    sent.verdict.announced ++ [(pickReason d.reason "" ord.cancellationReason, d.failedStep)]
    else sent.verdict.announced) = _
  rw [kept]
  by_cases same : d.next = ord.status
  · have live : d.next ≠ .cancelled := fun cancels =>
      loud (quiet_of_cancelled decided (same ▸ cancels))
    rw [Verdict.turn, if_pos (current.trans (congrArg some same.symm)),
      if_neg fun both => live both.1]
    simp only [Verdict.announce, verdict, status, order, outbox, statusRow, same, found, ↓reduceIte]
  · have moves : rows.verdict.status ≠ some d.next := fun equal =>
      same (some.inj (current.symm.trans equal)).symm
    have unseen : d.next = .cancelled → sent.unseen mint.eventID = rows.unseen mint.eventID := by
      intro cancels
      rw [← sends, emit_of_cancelled decided cancels, foldl_nil, unseen, unseen, outbox]
    rw [Verdict.turn, if_neg moves]
    simp only [Verdict.announce, verdict, status, order, outbox, statusRow, if_neg same,
      found, map_some, bind_some, Order.withStatus, statusFields, Verdict.mk.injEq,
      true_and]
    by_cases cancels : d.next = .cancelled
    · simp only [cancels, unseen cancels, ↓reduceIte, and_true]
      unfold pickReason
      cases ord.cancellationReason <;> simp
    · simp [cancels]

theorem verdict_persisted (decided : Decides ord.status trigger c d)
    (eventID reservationID paymentID : Option ID) (reasonCode : String)
    (found : rows.order = some ord) :
    (persisted mint now ord trigger d eventID reservationID paymentID reasonCode rows).verdict =
      rows.verdict.turn d reasonCode (rows.unseen mint.eventID) := by
  unfold persisted
  split
  case isTrue quiet =>
    have stays : d.next = ord.status := by
      simp only [Quiet, Bool.and_eq_true, beq_iff_eq] at quiet
      exact quiet.1.2
    have current : rows.verdict.status = some d.next := by
      simp only [verdict, status, found, map_some, stays]
    rw [Verdict.turn, if_pos current]
    rfl
  case isFalse loud =>
    exact verdict_sent mint now decided loud _ _ _ found rfl rfl rfl

theorem verdict_placed (input : PlaceOrderInput) (total : Money) (rows : Rows) :
    (placed mint now (newOrder orderID input total) rows).verdict = rows.verdict.place := by
  have sent := verdict_emitted mint now (newOrder orderID input total) timeoutPending
    { rows with order := some (newOrder orderID input total) } .reserve
  rw [placed, verdict_outbox, filterMap_enqueued rfl]
  exact sent

theorem verdict_withdrawn (found : rows.order = some ord) :
    (withdrawn mint now ord rows).verdict = rows.verdict.cancel := by
  rw [withdrawn, verdict_foldl_emitted]
  simp [verdict, status, Verdict.cancel, Order.withStatus, found]

theorem verdict_timedOut (found : rows.order = some ord) (early : Board.PreCommit ord.status) :
    (timedOut mint now ord rows).verdict = rows.verdict.timeout := by
  have current : rows.verdict.status = some ord.status := by
    simp only [verdict, status, found, map_some]
  rw [timedOut, verdict_persisted mint now (next_eq_ok.mp (next_timeout ord.status _)) _ _ _ _
    found, Verdict.turn]
  rcases early with held | held | held <;> rw [held] at current <;>
    simp only [held, onTimeout, Saga.next]
  · simp [Verdict.timeout, current]
  · simp [Verdict.timeout, current]
  · rw [if_pos current, Verdict.timeout_of_compensating current]

theorem verdict_foldl_swept (mint : Step → Mint) (now : Time) (ov : OverdueOrder)
    (claimed : List OverdueOrder) (found : rows.order = some ord)
    (early : Board.PreCommit ord.status) (each : ∀ other ∈ ov :: claimed, ¬ Escalates other) :
    ((ov :: claimed).foldl (fun rows ov => swept (mint ov.step) now rows ov) rows).verdict =
      rows.verdict.timeout := by
  induction claimed generalizing ov rows ord with
  | nil =>
    rw [foldl_cons, foldl_nil, swept_of_retry _ _ found (each ov mem_cons_self),
      verdict_timedOut _ _ found early]
  | cons next claimed ih =>
    have fired : (swept (mint ov.step) now rows ov).verdict = rows.verdict.timeout := by
      rw [swept_of_retry _ _ found (each ov mem_cons_self), verdict_timedOut _ _ found early]
    have compensating : (swept (mint ov.step) now rows ov).verdict.status = some .compensating := by
      rw [fired]
      rfl
    obtain ⟨later, found', held⟩ : ∃ later, (swept (mint ov.step) now rows ov).order = some later ∧
          later.status = .compensating := by
      simpa [verdict, status] using compensating
    rw [foldl_cons, ih next found' (.inr (.inr held))
      fun other member => each other (mem_cons_of_mem _ member), fired,
      Verdict.timeout_of_compensating (fired ▸ compensating)]

theorem verdict_reacted {e : Envelope} {body : Body} (reacts : Reacts e rows trigger body ord d)
    (mint : Mint) (now : Time) :
    (reacted mint now e trigger body ord d rows).verdict =
      rows.verdict.turn d body.reasonCode (rows.unseen mint.eventID) := by
  have found : ({ rows with processed := rows.processed ++ [e.id] } : Rows).order = some ord :=
    reacts.found
  rw [reacted, verdict_persisted mint now (next_eq_ok.mp reacts.decided) _ _ _ _ found]
  rfl

/-- The verdict on an order of the database. -/
def Database.verdict (db : Database) (orderID : ID) : Verdict := (db.tables orderID).verdict

theorem Database.focus_verdict (db : Database) (orderID : ID) :
    (db.focus orderID).verdict = db.verdict orderID := rfl

theorem Database.verdict_store_self (db : Database) (orderID : ID) (rows : Rows) :
    (db.store orderID rows).verdict orderID = rows.verdict := by
  simp only [verdict, store, Function.update_self]
  rfl

theorem Database.verdict_of_found (found : (db.focus orderID).order = some ord) :
    (db.verdict orderID).status = some ord.status ∧
      (db.verdict orderID).reason = ord.cancellationReason ∧
      (db.verdict orderID).failedStep = ord.failedStep := by
  simp only [← Database.focus_verdict, Rows.verdict, Rows.status, found, Option.map_some,
    Option.bind_some, and_self]

theorem Reacts.exec_verdict {e : Envelope} {body : Body} (named : e.orderID = some orderID)
    (reacts : Reacts e (db.focus orderID) trigger body ord d) (mint : Mint) (now : Time) :
    (db.exec (.handle e mint now)).verdict orderID = (db.verdict orderID).turn d body.reasonCode
      ((db.focus orderID).unseen mint.eventID) := by
  rw [db.exec_handle named, Database.transact, Database.verdict_store_self,
    Program.inTx_of_ok (reacts.run mint now), verdict_reacted reacts]
  rfl

/-- What an action can do to the verdict. -/
inductive Turns (db : Database) (orderID : ID) : Action → Verdict → Prop where
  | stay (a : Action) : Turns db orderID a (db.verdict orderID)
  | place (input : PlaceOrderInput) (total : Money) (mint : Mint) (now : Time)
      (new : (db.verdict orderID).status = none) :
      Turns db orderID (.place orderID input total mint now) (db.verdict orderID).place
  | event {e : Envelope} (mint : Mint) (now : Time) {trigger : Trigger} {body : Body} {ord : Order}
      {d : Decision} (named : e.orderID = some orderID)
      (reacts : Reacts e (db.focus orderID) trigger body ord d) :
      Turns db orderID (.handle e mint now)
        ((db.verdict orderID).turn d body.reasonCode ((db.focus orderID).unseen mint.eventID))
  | cancel (userID : ID) (mint : Mint) (now : Time) {status : State}
      (current : (db.verdict orderID).status = some status)
      (early : status = .pending ∨ status = .stockReserved) :
      Turns db orderID (.cancel orderID userID mint now) (db.verdict orderID).cancel
  | fires (claimed : List OverdueOrder) (mint : ID → Step → Mint) (now : Time) {status : State}
      (current : (db.verdict orderID).status = some status) (early : Board.PreCommit status) :
      Turns db orderID (.tick claimed mint now) (db.verdict orderID).timeout

/-- **Inversion.** Every action is one of the moves on the verdict on every order. -/
theorem exec_turns (coherent : (db.board orderID).Coherent) (a : Action) :
    Turns db orderID a ((db.exec a).verdict orderID) := by
  obtain ⟨rows, rewrites, alike⟩ := exec_rewrites db orderID a
  have shows : (db.exec a).verdict orderID = rows.verdict :=
    alike.congr verdict fun _ => rfl
  rw [shows]
  cases rewrites with
  | stay => exact .stay _
  | place input total mint now new =>
    have absent : (db.verdict orderID).status = none := by
      rw [← Database.focus_verdict, verdict, status, new, map_none]
    rw [verdict_placed]
    exact .place _ _ _ _ absent
  | event mint now named reacts =>
    rw [verdict_reacted reacts]
    exact .event mint now named reacts
  | cancel userID mint now found open' _ =>
    rw [verdict_withdrawn mint now found]
    exact .cancel _ _ _ (Database.board_status found) (by simpa [Order.cancellable] using open')
  | sweep claimed mint now claims =>
    cases none' : claimedOf claimed orderID with
    | nil => exact .stay _
    | cons ov rest =>
      obtain ⟨ord, found, early, calm⟩ :=
        coherent.claims claims (none' ▸ cons_ne_nil ov rest)
      rw [verdict_foldl_swept (mint orderID) now ov rest found early (none' ▸ calm)]
      exact .fires claimed mint now (Database.board_status found) early

end Souq.Orders
