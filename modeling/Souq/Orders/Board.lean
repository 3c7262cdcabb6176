import Souq.Orders.Database

/-!
# The step board

What the saga's progress depends on: the status, for each step whether its row is
absent, waiting with a deadline, waiting without one, or acknowledged, and whether
an `AUTHORIZE` was ever sent. The transactions act on the board as plain functions,
so what they do to the timers is a finite matter whatever the rows hold.
-/

namespace Souq.Orders

open Saga Transact Transition Function List Rows

/-- What a step row says to the sweeper. -/
inductive Timer where
  | absent
  | armed
  | dormant
  | acked
  | other
  deriving DecidableEq

def timerOf : Option StepRow → Timer
  | none => .absent
  | some row =>
    match row.state with
    | .sent => if row.deadlineAt.isSome then .armed else .dormant
    | .acked => .acked
    | _ => .other

/-- Whether the command of a step row was ever sent: a row that only closes a
step has no `sent_at`. -/
def wasSent (row : Option StepRow) : Bool := row.any fun row => row.sentAt.isSome

/-- The status of an order, the timers of its steps and whether it was charged. -/
structure Board where
  status : Option State
  timer : Step → Timer
  charged : Bool

/-- The status of the order. -/
def Rows.status (rows : Rows) : Option State := rows.order.map Order.status

def Rows.board (rows : Rows) : Board where
  status := rows.status
  timer := fun step => timerOf (rows.steps step)
  charged := wasSent (rows.steps .authorize)

theorem timerOf_sentRow (row : Option StepRow) (deadline : Option Time) (now : Time) :
    timerOf (some (sentRow row deadline now)) =
      if deadline.isSome then .armed else .dormant := by
  cases row <;> rfl

theorem timerOf_ackedRow (row : Option StepRow) (eventID : Option ID) (now : Time) :
    timerOf (some (ackedRow row eventID now)) = .acked := by
  cases row <;> rfl

theorem wasSent_sentRow (row : Option StepRow) (deadline : Option Time) (now : Time) :
    wasSent (some (sentRow row deadline now)) = true := by
  cases row <;> rfl

theorem wasSent_ackedRow (row : Option StepRow) (eventID : Option ID) (now : Time) :
    wasSent (some (ackedRow row eventID now)) = wasSent row := by
  cases row <;> rfl

variable {row : Option StepRow} {ord : Order}

theorem timerOf_eq_absent : timerOf row = .absent ↔ row = none := by
  cases row with
  | none => simp [timerOf]
  | some row =>
    cases held : row.state <;> simp [timerOf, held]
    split <;> simp

theorem timerOf_eq_acked : timerOf row = .acked ↔ isAcked row = true := by
  cases row with
  | none => simp [timerOf, isAcked]
  | some row =>
    cases held : row.state <;> simp [timerOf, isAcked, held]
    split <;> simp

theorem timerOf_eq_armed :
    timerOf row = .armed ↔ ∃ r, row = some r ∧ r.armed = true := by
  cases row with
  | none => simp [timerOf]
  | some row =>
    cases held : row.state <;> simp [timerOf, StepRow.armed, held, Option.isSome_iff_ne_none]

theorem StepRow.armed_of_overdue {row : StepRow} {now : Time} (overdue : row.overdue now = true) :
    row.armed = true := by
  obtain ⟨waiting, passed⟩ := Bool.and_eq_true_iff.mp overdue
  cases found : row.deadlineAt with
  | none => simp [found] at passed
  | some deadline => simp [StepRow.armed, waiting, found]

namespace Board

def ctx (board : Board) (retriable : Bool) : Ctx where
  authorizeSent := board.timer .authorize != .absent
  inventorySettled := board.timer .release == .acked
  paymentSettled := board.timer .void == .acked
  paymentRetriable := retriable

def sent (deadline : Duration) : Timer := if deadline > 0 then .armed else .dormant

def send (board : Board) (deadline : Duration) (emit : List Step) : Board :=
  { board with
    timer := fun step => if step ∈ emit then sent deadline else board.timer step
    charged := decide (.authorize ∈ emit) || board.charged }

def after (board : Board) (trigger : Trigger) (d : Decision) : Board where
  status := some d.next
  timer := fun step =>
    if step ∈ d.emit then sent d.deadline
    else if stepAckedBy trigger = some step then .acked
    else board.timer step
  charged := decide (.authorize ∈ d.emit) || board.charged

end Board

theorem next_attempts (status : State) (trigger : Trigger) (c : Ctx) (attempts : Nat) :
    Saga.next status trigger { c with rollForwardAttempts := attempts } =
      Saga.next status trigger c := by
  cases status <;> cases trigger <;> rfl

variable (mint : Mint) (now : Time) (trigger : Trigger) (deadline : Duration) (rows : Rows)

theorem next_ctxOf (status : State) (trigger : Trigger) (retriable : Bool) :
    Saga.next status trigger (ctxOf rows.steps retriable) =
      Saga.next status trigger (rows.board.ctx retriable) := by
  have same : ctxOf rows.steps retriable =
      { rows.board.ctx retriable with
        rollForwardAttempts := (ctxOf rows.steps retriable).rollForwardAttempts } := by
    have authorized : (rows.steps .authorize).isSome =
        (rows.board.timer .authorize != .absent) := by
      rw [Bool.eq_iff_iff, bne_iff_ne, ne_eq, board, timerOf_eq_absent]
      cases rows.steps .authorize <;> simp
    have released : isAcked (rows.steps .release) = (rows.board.timer .release == .acked) := by
      rw [Bool.eq_iff_iff, beq_iff_eq, board, timerOf_eq_acked]
    have voided : isAcked (rows.steps .void) = (rows.board.timer .void == .acked) := by
      rw [Bool.eq_iff_iff, beq_iff_eq, board, timerOf_eq_acked]
    simp only [ctxOf, Board.ctx, authorized, released, voided]
  rw [same]
  exact next_attempts _ _ _ _

theorem timerOf_sendStep (steps : Step → Option StepRow) (sent step : Step) :
    timerOf (sendStep now deadline steps sent step) =
      if step = sent then Board.sent deadline else timerOf (steps step) := by
  by_cases same : step = sent
  · subst same
    simp only [sendStep, update_self, timerOf_sentRow, deadlineAt, Board.sent, ↓reduceIte]
    split <;> simp
  · simp only [sendStep, update_of_ne same, same, ↓reduceIte]

theorem timerOf_foldl_sendStep (emit : List Step) (steps : Step → Option StepRow) (step : Step) :
    timerOf (emit.foldl (sendStep now deadline) steps step) =
      if step ∈ emit then Board.sent deadline else timerOf (steps step) := by
  induction emit generalizing steps with
  | nil => simp
  | cons sent emit ih =>
    rw [foldl_cons, ih, timerOf_sendStep]
    by_cases later : step ∈ emit
    · simp [later]
    · by_cases same : step = sent <;> simp [later, same]

theorem wasSent_foldl_sendStep (emit : List Step) (steps : Step → Option StepRow) (step : Step) :
    wasSent (emit.foldl (sendStep now deadline) steps step) =
      (decide (step ∈ emit) || wasSent (steps step)) := by
  induction emit generalizing steps with
  | nil => simp
  | cons sent emit ih =>
    rw [foldl_cons, ih]
    by_cases same : step = sent
    · subst same
      simp [sendStep, update_self, wasSent_sentRow]
    · simp [sendStep, same]

theorem wasSent_ackSteps (eventID : Option ID) (steps : Step → Option StepRow) (step : Step) :
    wasSent (ackSteps now trigger eventID steps step) = wasSent (steps step) := by
  unfold ackSteps
  cases stepAckedBy trigger with
  | none => rfl
  | some closed =>
    by_cases same : step = closed
    · subst same
      simp only [update_self, wasSent_ackedRow]
    · simp only [update_of_ne same]

theorem timerOf_ackSteps (eventID : Option ID) (steps : Step → Option StepRow) (step : Step) :
    timerOf (ackSteps now trigger eventID steps step) =
      if stepAckedBy trigger = some step then .acked else timerOf (steps step) := by
  unfold ackSteps
  cases closes : stepAckedBy trigger with
  | none => simp
  | some closed =>
    by_cases same : step = closed
    · subst same
      simp only [update_self, timerOf_ackedRow, ↓reduceIte]
    · have other : ¬ some closed = some step := fun equal => same (Option.some.inj equal).symm
      simp only [update_of_ne same, other, ↓reduceIte]

theorem foldl_emitted_steps (ord : Order) (deadline : Duration) (emit : List Step) (rows : Rows) :
    (emit.foldl (emitted mint now ord deadline) rows).steps =
      emit.foldl (sendStep now deadline) rows.steps := by
  induction emit generalizing rows with
  | nil => rfl
  | cons step emit ih => exact ih _

theorem foldl_emitted_status (ord : Order) (deadline : Duration) (emit : List Step) (rows : Rows) :
    (emit.foldl (emitted mint now ord deadline) rows).status = rows.status := by
  induction emit generalizing rows with
  | nil => rfl
  | cons step emit ih =>
    rw [foldl_cons, ih]
    simp only [status, emitted, Option.map_map]
    rfl

theorem foldl_emitted_processed (ord : Order) (deadline : Duration) (emit : List Step)
    (rows : Rows) :
    (emit.foldl (emitted mint now ord deadline) rows).processed = rows.processed := by
  induction emit generalizing rows with
  | nil => rfl
  | cons step emit ih => exact ih _

theorem foldl_emitted_board (ord : Order) (deadline : Duration) (emit : List Step) (rows : Rows) :
    (emit.foldl (emitted mint now ord deadline) rows).board = rows.board.send deadline emit := by
  simp only [board, Board.send, foldl_emitted_status, foldl_emitted_steps,
    timerOf_foldl_sendStep, wasSent_foldl_sendStep]

theorem statusRow_status (ord : Order) (d : Decision) (reservationID paymentID : Option ID)
    (reasonCode : String) : (statusRow ord d reservationID paymentID reasonCode).status =
      d.next := by
  unfold statusRow
  split
  · exact Eq.symm ‹_›
  · rfl

theorem persisted_board (d : Decision) (eventID reservationID paymentID : Option ID)
    (reasonCode : String) {rows : Rows} (found : rows.order = some ord) :
    (persisted mint now ord trigger d eventID reservationID paymentID reasonCode rows).board =
      rows.board.after trigger d := by
  unfold persisted
  split
  case isTrue quiet =>
    obtain ⟨⟨-, stays⟩, silent⟩ : (d.ackOnly = true ∧ (d.next == ord.status) = true) ∧
        d.emit.isEmpty = true := by simpa [Quiet] using quiet
    have empty : d.emit = [] := isEmpty_iff.mp silent
    have status : ord.status = d.next := (beq_iff_eq.mp stays).symm
    simp only [Rows.board, Rows.status, Board.after, found, Option.map_some, status, empty,
      not_mem_nil, ↓reduceIte, timerOf_ackSteps, wasSent_ackSteps, decide_false,
      Bool.false_or]
  case isFalse =>
    have board := foldl_emitted_board mint now ord d.deadline d.emit
      { rows with
        order := some (statusRow ord d reservationID paymentID reasonCode)
        steps := ackSteps now trigger eventID rows.steps }
    simp only [Rows.board, Board.mk.injEq, Rows.status, Board.send] at board ⊢
    simp only [Board.after, board, Option.map_some, statusRow_status, timerOf_ackSteps,
      wasSent_ackSteps]

namespace Board

def timeout (board : Board) : Board :=
  match board.status with
  | none => board
  | some status => board.after .timeout (onTimeout status (board.ctx false))

def cancel (board : Board) : Board :=
  { board with status := some .compensating }.send timeoutCompensating
    (.release :: if (board.ctx false).authorizeSent then [.void] else [])

def place (board : Board) : Board :=
  { board with status := some .pending }.send timeoutPending [.reserve]

theorem sent_cases (deadline : Duration) : sent deadline = .armed ∨ sent deadline = .dormant := by
  unfold sent
  split
  · exact .inl rfl
  · exact .inr rfl

variable {t : Trigger} {board : Board}

theorem stepAckedBy_eq_release (closes : stepAckedBy t = some .release) :
    t = .released := by
  cases t <;> first | rfl | cases closes

theorem stepAckedBy_eq_void (closes : stepAckedBy t = some .void) :
    t = .voided := by
  cases t <;> first | rfl | cases closes

theorem after_timer (board : Board) (t : Trigger) (d : Decision) (step : Step) :
    (step ∈ d.emit ∧
        ((board.after t d).timer step = .armed ∨ (board.after t d).timer step = .dormant)) ∨
      step ∉ d.emit ∧ (stepAckedBy t = some step ∧ (board.after t d).timer step = .acked ∨
          (board.after t d).timer step = board.timer step) := by
  simp only [after]
  split
  case isTrue emits => exact .inl ⟨emits, sent_cases d.deadline⟩
  case isFalse quiet =>
    refine .inr ⟨quiet, ?_⟩
    split
    case isTrue closes => exact .inl ⟨closes, rfl⟩
    case isFalse => exact .inr rfl

theorem after_authorizeSent {d : Decision}
    (absent : ((board.after t d).ctx false).authorizeSent = false) :
    (board.ctx false).authorizeSent = false ∧ .authorize ∉ d.emit := by
  simp only [ctx, bne_eq_false_iff_eq] at absent ⊢
  rcases board.after_timer t d .authorize with ⟨-, armed | dormant⟩ | ⟨quiet, ⟨-, acked⟩ | same⟩
  · cases armed.symm.trans absent
  · cases dormant.symm.trans absent
  · cases acked.symm.trans absent
  · exact ⟨same.symm.trans absent, quiet⟩

theorem after_acked {d : Decision} {step : Step} (acked : (board.after t d).timer step = .acked) :
    board.timer step = .acked ∨ stepAckedBy t = some step := by
  rcases board.after_timer t d step with ⟨-, armed | dormant⟩ | ⟨-, ⟨closes, -⟩ | same⟩
  · cases armed.symm.trans acked
  · cases dormant.symm.trans acked
  · exact .inr closes
  · exact .inl (same.symm.trans acked)

theorem send_settled {deadline : Duration} {emit : List Step} {step : Step}
    (acked : (board.send deadline emit).timer step = .acked) : board.timer step = .acked := by
  simp only [send] at acked
  split at acked
  · rcases sent_cases deadline with armed | dormant
    · cases armed.symm.trans acked
    · cases dormant.symm.trans acked
  · exact acked

end Board

theorem ctxOf_authorizeSent (retriable : Bool) :
    (ctxOf rows.steps retriable).authorizeSent = (rows.board.ctx retriable).authorizeSent := by
  rw [Bool.eq_iff_iff, Board.ctx, bne_iff_ne, ne_eq, board, timerOf_eq_absent]
  cases found : rows.steps .authorize <;> simp [ctxOf, found]

theorem onTimeout_ctxOf (status : State) :
    onTimeout status (ctxOf rows.steps false) = onTimeout status (rows.board.ctx false) := by
  simp only [onTimeout, next_ctxOf]

theorem timedOut_board {rows : Rows} (found : rows.order = some ord) :
    (timedOut mint now ord rows).board = rows.board.timeout := by
  have status : rows.board.status = some ord.status := by
    simp only [board, status, found, Option.map_some]
  rw [timedOut, persisted_board _ _ _ _ _ _ _ _ found, Board.timeout, status, onTimeout_ctxOf]

theorem withdrawn_board (ord : Order) (rows : Rows) :
    (withdrawn mint now ord rows).board = rows.board.cancel := by
  rw [withdrawn, foldl_emitted_board, ctxOf_authorizeSent]
  rfl

theorem placed_board (pending : ord.status = .pending) :
    (placed mint now ord rows).board = rows.board.place := by
  have board := foldl_emitted_board mint now ord timeoutPending [.reserve]
    { rows with order := some ord }
  simp only [foldl_cons, foldl_nil] at board
  rw [Board.place, ← show ({ rows with order := some ord } : Rows).board =
    { rows.board with status := some .pending } from by
      simp only [Rows.board, Rows.status, Option.map_some, pending], ← board]
  rfl

theorem persisted_processed (ord : Order) (trigger : Trigger) (d : Decision)
    (eventID reservationID paymentID : Option ID) (reasonCode : String) (rows : Rows) :
    (persisted mint now ord trigger d eventID reservationID paymentID reasonCode rows).processed =
      rows.processed := by
  unfold persisted
  split
  · rfl
  · exact foldl_emitted_processed ..

/-- The rows after an escalation pushes the deadline of a step back. -/
def postponed (step : Step) (deadline : Time) (rows : Rows) : Rows :=
  { rows with
    steps := Function.update rows.steps step
      ((rows.steps step).map fun row => { row with deadlineAt := some deadline }) }

theorem swept_cases (ov : OverdueOrder) :
    swept mint now rows ov = postponed ov.step (now + 300 * second) rows ∨
      swept mint now rows ov = rows ∨
      ∃ ord, rows.order = some ord ∧ swept mint now rows ov = timedOut mint now ord rows := by
  by_cases escalates : Escalates ov
  · left
    have stuck : (rollbackForbidden ov.status &&
        decide (maxRollForwardRetries ≤ ov.attempts)) = true := escalates
    simp only [swept, fire, stuck, ↓reduceIte, run_postponeStep, postponed]
  · right
    cases found : rows.order with
    | some ord => exact .inr ⟨ord, rfl, swept_of_retry mint now found escalates⟩
    | none =>
      left
      have calm : (rollbackForbidden ov.status &&
          decide (maxRollForwardRetries ≤ ov.attempts)) = false := by
        simpa only [Escalates, Bool.not_eq_true] using escalates
      simp only [swept, fire, calm, Bool.false_eq_true, ↓reduceIte, Program.run_bind,
        run_getOrder, found, Program.run_pure]

theorem swept_processed (ov : OverdueOrder) :
    (swept mint now rows ov).processed = rows.processed := by
  rcases swept_cases mint now rows ov with escalated | stays | ⟨ord, -, fires⟩
  · rw [escalated]
    rfl
  · rw [stays]
  · rw [fires]
    exact persisted_processed ..

theorem postponed_ctx (step : Step) (deadline : Time) (rows : Rows) :
    (postponed step deadline rows).board.ctx false = rows.board.ctx false := by
  have absent : ∀ other, (timerOf ((postponed step deadline rows).steps other) != .absent) =
      (timerOf (rows.steps other) != .absent) := by
    intro other
    rw [Bool.eq_iff_iff, bne_iff_ne, bne_iff_ne, ne_eq, ne_eq, timerOf_eq_absent, timerOf_eq_absent]
    simp only [postponed, update_apply]
    split
    case isTrue same => rw [same, Option.map_eq_none_iff]
    case isFalse => rfl
  have acked : ∀ other, (timerOf ((postponed step deadline rows).steps other) == .acked) =
      (timerOf (rows.steps other) == .acked) := by
    intro other
    rw [Bool.eq_iff_iff, beq_iff_eq, beq_iff_eq, timerOf_eq_acked, timerOf_eq_acked]
    simp only [postponed, update_apply]
    split
    case isTrue same =>
      rw [same]
      cases rows.steps step <;> rfl
    case isFalse => rfl
  simp only [Board.ctx, board, absent, acked]

namespace Database

/-- The board of an order of the database. -/
def board (db : Database) (orderID : ID) : Board := (db.tables orderID).board

variable (db : Database) (orderID : ID)

theorem focus_board :
    (db.focus orderID).board = db.board orderID := rfl

theorem board_store_self (rows : Rows) :
    (db.store orderID rows).board orderID = rows.board := by
  simp only [board, store, update_self]
  rfl

theorem focus_store_self (rows : Rows) :
    (db.store orderID rows).focus orderID = rows := by
  simp only [focus, store, update_self]

theorem focus_store_of_ne {orderID other : ID} {rows : Rows} (different : orderID ≠ other)
    (same : rows.processed = db.processed) :
    (db.store other rows).focus orderID = db.focus orderID := by
  simp only [focus, store, update_of_ne different, same]

theorem sweepAll_focus (mint : ID → Step → Mint) (now : Time) (claimed : List OverdueOrder)
    (db : Database) :
    ∃ after, db.sweepAll mint now claimed = .ok after ∧ ∀ orderID,
      after.focus orderID = (claimed.filter fun ov => ov.orderID == orderID).foldl
        (fun rows ov => swept (mint orderID ov.step) now rows ov) (db.focus orderID) := by
  induction claimed generalizing db with
  | nil => exact ⟨db, rfl, fun _ => rfl⟩
  | cons ov claimed ih =>
    obtain ⟨after, swepts, focused⟩ := ih (db.store ov.orderID
      (swept (mint ov.orderID ov.step) now (db.focus ov.orderID) ov))
    refine ⟨after, by simp only [sweepAll, run_sweep, swepts], fun orderID => ?_⟩
    rw [focused orderID]
    by_cases same : ov.orderID = orderID
    · subst same
      simp only [focus_store_self, beq_self_eq_true, filter_cons_of_pos, foldl_cons]
    · rw [focus_store_of_ne db (Ne.symm same) (swept_processed ..),
        filter_cons_of_neg (by simpa only [beq_iff_eq] using same)]

end Database

end Souq.Orders
