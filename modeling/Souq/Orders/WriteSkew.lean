import Souq.Orders.Board
import Souq.Orders.PointOfNoReturn

/-!
# Two acknowledgements at once

Inventory's `released` and payment's `voided` for one compensating order are
handled by overlapping transactions. Each reads the other's step row without a
lock and waits when it is not acknowledged yet; waiting takes no lock on the order
and does not change its version. The order is cancelled exactly when one of the
two commits before the other reads the step rows.
-/

namespace Souq.Orders

open Saga Transact Transition Function Config List Session

/-- The two participants whose acknowledgements overlap. -/
inductive Side where
  | inventory
  | payment
  deriving DecidableEq

namespace Side

instance : Fintype Side where
  elems := {.inventory, .payment}
  complete := by rintro (_ | _) <;> decide

def other : Side → Side
  | .inventory => .payment
  | .payment => .inventory

def type : Side → EventType
  | .inventory => .inventoryReleased
  | .payment => .paymentVoided

def trigger : Side → Trigger
  | .inventory => .released
  | .payment => .voided

def step : Side → Step
  | .inventory => .release
  | .payment => .void

variable (side : Side)

theorem other_ne : side.other ≠ side := by cases side <;> decide

theorem eq_other {side x : Side} (different : x ≠ side) : x = side.other := by
  cases side <;> cases x <;> first | rfl | exact (different rfl).elim

theorem forall_of {p : Side → Prop} (own : p side) (others : p side.other) (x : Side) :
    p x := by
  by_cases same : x = side
  · exact same ▸ own
  · exact eq_other same ▸ others

theorem other_other : side.other.other = side := by cases side <;> rfl

theorem step_ne : side.other.step ≠ side.step := by cases side <;> decide

theorem step_ne_authorize : Step.authorize ≠ side.step := by cases side <;> decide

theorem triggerFor_type : triggerFor side.type = some side.trigger := by
  cases side <;> rfl

theorem stepAckedBy_trigger : stepAckedBy side.trigger = some side.step := by
  cases side <;> rfl

end Side

/-- A compensating order that waits for both acknowledgements, and the two events
that bring them. -/
structure Overlap where
  rows : Rows
  ord : Order
  found : rows.order = some ord
  compensating : ord.status = .compensating
  charged : (rows.steps .authorize).isSome = true
  waiting : ∀ side : Side, (rows.steps side.step).any (fun row => row.state == .sent) = true
  event : Side → Envelope
  body : Side → Body
  typed : ∀ side, (event side).type = side.type
  parsed : ∀ side, (event side).body = some (body side)
  named : ∀ side, (body side).orderID = some ord.id
  fresh : ∀ side, (event side).id ∉ rows.processed
  distinct : ∀ side : Side, (event side.other).id ≠ (event side).id
  mint : Side → Mint
  now : Side → Time

namespace Overlap

variable (o : Overlap)

def handler (side : Side) : Tx Unit := handle (o.mint side) (o.now side) (o.event side)

/-- A transaction that finds the order changed is tried again. -/
def again (side : Side) : Err → Option (Tx Unit)
  | .versionStale => some (o.handler side)
  | _ => none

/-- Both handlers are about to start. -/
def start : Config dialect Side Err Unit := ⟨o.rows, fun side => some { program := o.handler side }⟩

/-- The handlers take turns, one statement at a time, as a schedule says. -/
def play (schedule : List Side) : Config dialect Side Err Unit :=
  schedule.foldl (Config.advance o.again) o.start

def proceed (side : Side) : Option Order → Tx Unit
  | none => .fail .permanent
  | some ord => react (o.mint side) (o.now side) ord side.trigger (o.event side) (o.body side)

def conclude (side : Side) (c : Ctx) : Tx Unit :=
  match next o.ord.status side.trigger c with
  | .error err => .fail (.illegal err)
  | .ok d =>
    apply (o.mint side) (o.now side) o.ord side.trigger d (some (o.event side).id)
      (o.body side).reservationID (o.body side).paymentID (o.body side).reasonCode

theorem handler_eq (side : Side) :
    o.handler side = markProcessed (o.event side).id >>= fun fresh =>
      if fresh then getOrder >>= o.proceed side else pure () := by
  simp only [handler, handle, o.typed, Side.triggerFor_type, o.parsed, o.named, reduceCtorEq,
    ↓reduceIte]
  rfl

/-- The row versions a handler has written, before and after it closes its step. -/
def claim (side : Side) : List Write := [.processed (o.event side).id]

def closed (side : Side) : StepRow :=
  ackedRow (o.rows.steps side.step) (some (o.event side).id) (o.now side)

/-- The handler after some of its statements, when it does not see the other one's
acknowledgement. -/
def track (side : Side) : Nat → Option (Session dialect Err Unit)
  | 0 => some { program := o.handler side }
  | 1 => some ⟨getOrder >>= o.proceed side, o.claim side, [.inbox (o.event side).id]⟩
  | 2 => some ⟨selectItems >>= fun items => o.proceed side (some { o.ord with items := items }),
      o.claim side, [.inbox (o.event side).id]⟩
  | 3 => some ⟨o.proceed side (some o.ord), o.claim side, [.inbox (o.event side).id]⟩
  | 4 => some ⟨recordStepAcked side.step (some (o.event side).id) (o.now side), o.claim side,
      [.inbox (o.event side).id]⟩
  | 5 => some ⟨pure (), o.claim side ++ [.step side.step (o.closed side)],
      [.inbox (o.event side).id, .step side.step]⟩
  | _ => none

/-- What the tables hold while neither handler has seen the other's
acknowledgement. -/
structure Unaware (turns : Side → Nat) (c : Config dialect Side Err Unit) : Prop where
  sessions : ∀ side, c.sessions side = o.track side (turns side)
  order : c.db.order = some o.ord
  charged : c.db.steps .authorize = o.rows.steps .authorize
  step : ∀ side : Side, c.db.steps side.step =
    if turns side < 6 then o.rows.steps side.step else some (o.closed side)
  fresh : ∀ side, turns side < 6 → (o.event side).id ∉ c.db.processed

/-- Once a side is committed, the other has read the step rows. -/
def Overlapping (turns : Side → Nat) : Prop :=
  ∀ side : Side, 6 ≤ turns side → 4 ≤ turns side.other

variable {o}

section Turn

variable {turns : Side → Nat} {c : Config dialect Side Err Unit} {side : Side}

theorem track_held {n : Nat} {key : Key}
    (held : key ∈ (o.track side n).elim [] held) :
    key = .inbox (o.event side).id ∨ key = .step side.step := by
  match n with
  | 0 => cases held
  | 1 | 2 | 3 | 4 => exact .inl (mem_singleton.mp held)
  | 5 =>
    rcases mem_cons.mp held with rfl | last
    · exact .inl rfl
    · exact .inr (mem_singleton.mp last)
  | n + 6 => cases held

theorem Unaware.free (unaware : o.Unaware turns c) {s : Session dialect Err Unit} {q : Stmt}
    (own : ∀ key ∈ q.keys (s.view c.db), key = .inbox (o.event side).id ∨ key = .step side.step) :
    ¬ c.Blocked side s q := by
  rintro ⟨x, different, key, needed, held⟩
  obtain rfl := Side.eq_other different
  rw [heldBy, unaware.sessions] at held
  rcases own key needed with rfl | rfl <;> rcases track_held held with same | same
  · exact o.distinct side (Key.inbox.inj same).symm
  · cases same
  · cases same
  · exact side.step_ne (Key.step.inj same).symm

theorem not_isAcked_of_sent {row : Option StepRow}
    (sent : row.any (fun row => row.state == .sent) = true) : isAcked row = false := by
  cases row with
  | none => cases sent
  | some row =>
    have held : row.state = .sent := by simpa using sent
    simp [isAcked, held]

theorem Unaware.waits (unaware : o.Unaware turns c) (open' : turns side.other < 6)
    (retriable : Bool) :
    next o.ord.status side.trigger (ctxOf c.db.steps retriable) =
      .ok { next := .compensating, ackOnly := true } := by
  have pending : isAcked (c.db.steps side.other.step) = false := by
    rw [unaware.step, if_pos open']
    exact not_isAcked_of_sent (o.waiting side.other)
  have charged : (c.db.steps .authorize).isSome = true := unaware.charged ▸ o.charged
  rw [o.compensating]
  cases side with
  | inventory =>
    have unvoided : isAcked (c.db.steps .void) = false := pending
    simp [Saga.next, Side.trigger, settleOrWait, ctxOf, charged, unvoided]
  | payment =>
    have unreleased : isAcked (c.db.steps .release) = false := pending
    simp [Saga.next, Side.trigger, settleOrWait, ctxOf, unreleased]

theorem apply_waits (ord : Order) (compensating : ord.status = .compensating) (mint : Mint)
    (now : Time) (side : Side) (eventID reservationID paymentID : Option ID) (reasonCode : String) :
    apply mint now ord side.trigger { next := .compensating, ackOnly := true } eventID reservationID
      paymentID reasonCode = recordStepAcked side.step eventID now := by
  simp only [apply, acknowledge, Side.stepAckedBy_trigger, compensating]
  rfl

theorem Unaware.advance_track (unaware : o.Unaware turns c) (early : turns side < 5)
    (reads : turns side = 3 → turns side.other < 6) :
    c.advance o.again side = c.set side (o.track side (turns side + 1)) := by
  have active := unaware.sessions side
  have fresh := unaware.fresh side (by omega)
  have unseen : c.db.processed.contains (o.event side).id = false := by simpa using fresh
  have turn : turns side = 0 ∨ turns side = 1 ∨ turns side = 2 ∨ turns side = 3 ∨
      turns side = 4 := by omega
  rcases turn with turn | turn | turn | turn | turn <;> rw [turn] at active ⊢
  case inl =>
    have keys : Stmt.keys (.markProcessed (o.event side).id) c.db =
        [.inbox (o.event side).id] := by simp only [Stmt.keys, unseen]; rfl
    have writes : Stmt.writes (.markProcessed (o.event side).id) c.db = o.claim side := by
      simp only [Stmt.writes, unseen]; rfl
    rw [advance_call active (o.handler_eq side) (unaware.free ?_)]
    · refine congrArg (fun s => c.set side (some s)) ?_
      change (⟨if !c.db.processed.contains (o.event side).id then _ else _,
        [] ++ Stmt.writes (.markProcessed (o.event side).id) c.db,
        [] ++ Stmt.keys (.markProcessed (o.event side).id) c.db⟩ : Session dialect Err Unit) = _
      rw [unseen, keys, writes]
      rfl
    · intro key member
      change key ∈ Stmt.keys (.markProcessed (o.event side).id) c.db at member
      rw [keys] at member
      exact .inl (mem_singleton.mp member)
  case inr.inl =>
    rw [advance_call active rfl (unaware.free (fun _ member => by cases member))]
    refine congrArg (fun s => c.set side (some s)) ?_
    have answer : Stmt.answer .selectOrder (dialect.replay (o.claim side) c.db) =
        some o.ord := unaware.order
    simp only [exec, view]
    rw [answer]
    rfl
  case inr.inr.inl =>
    rw [advance_call active rfl (unaware.free (fun _ member => by cases member))]
    refine congrArg (fun s => c.set side (some s)) ?_
    have answer : Stmt.answer .selectItems (dialect.replay (o.claim side) c.db) = o.ord.items := by
      change c.db.order.elim [] Order.items = _
      rw [unaware.order, Option.elim_some]
    simp only [exec, view]
    rw [answer]
    rfl
  case inr.inr.inr.inl =>
    rw [advance_call active rfl (unaware.free (fun _ member => by cases member))]
    refine congrArg (fun s => c.set side (some s)) ?_
    have context : (dialect.replay (o.claim side) c.db).stepRows.foldl scanStep
        { paymentRetriable := (o.body side).retriable } =
        ctxOf c.db.steps (o.body side).retriable := foldl_scanStep ..
    change (⟨o.conclude side ((dialect.replay (o.claim side) c.db).stepRows.foldl scanStep
      { paymentRetriable := (o.body side).retriable }), _, _⟩ : Session dialect Err Unit) = _
    rw [context, conclude, unaware.waits (reads turn)]
    simp only
    rw [apply_waits _ o.compensating]
    rfl
  case inr.inr.inr.inr =>
    rw [advance_call active rfl (unaware.free ?_)]
    · refine congrArg (fun s => c.set side (some s)) ?_
      have own : (dialect.replay (o.claim side) c.db).steps side.step = o.rows.steps side.step := by
        refine (unaware.step side).trans (if_pos ?_)
        omega
      simp only [exec, view]
      change (⟨_, _ ++ [.step side.step (ackedRow ((dialect.replay (o.claim side) c.db).steps
        side.step) _ _)], _⟩ : Session dialect Err Unit) = _
      rw [own]
      rfl
    · intro key member
      exact .inr (mem_singleton.mp member)

theorem Unaware.advance_commit (unaware : o.Unaware turns c) (last : turns side = 5) :
    c.advance o.again side =
      ⟨{ c.db with
          processed := c.db.processed ++ [(o.event side).id]
          steps := update c.db.steps side.step (some (o.closed side)) },
        update c.sessions side none⟩ := by
  have active := unaware.sessions side
  rw [last] at active
  rw [advance_done active rfl]
  rfl

def count (turns : Side → Nat) (side : Side) : Side → Nat :=
  Function.update turns side (turns side + 1)

theorem count_self (turns : Side → Nat) (side : Side) : count turns side side = turns side + 1 :=
  update_self ..

theorem count_other (turns : Side → Nat) (side : Side) :
    count turns side side.other = turns side.other :=
  update_of_ne side.other_ne ..

/-- **Turn.** While the handlers overlap neither of them sees the other's
acknowledgement. -/
theorem Unaware.turn (unaware : o.Unaware turns c) (overlapping : Overlapping turns) (side : Side) :
    o.Unaware (count turns side) (c.advance o.again side) := by
  have reads : turns side = 3 → turns side.other < 6 := by
    intro turn
    by_contra committed
    have read := overlapping side.other (by omega)
    rw [side.other_other, turn] at read
    omega
  have sessions' := unaware.sessions side.other
  have step' := unaware.step side.other
  have fresh' := unaware.fresh side.other
  rw [← count_other turns side] at sessions' step' fresh'
  rcases Nat.lt_trichotomy (turns side) 5 with early | last | late
  · have unclosed := (unaware.step side).trans (if_pos (by omega))
    rw [unaware.advance_track early reads]
    refine ⟨side.forall_of ?_ ?_, unaware.order, unaware.charged, side.forall_of ?_ step',
      side.forall_of (fun _ => unaware.fresh side (by omega)) fresh'⟩
    · rw [count_self]
      exact update_self ..
    · exact (update_of_ne side.other_ne ..).trans sessions'
    · rw [count_self, if_pos (by omega)]
      exact unclosed
  · rw [unaware.advance_commit last]
    refine ⟨side.forall_of ?_ ?_, unaware.order, ?_, side.forall_of ?_ ?_,
      side.forall_of (fun open' => ?_) fun open' member => ?_⟩
    · rw [count_self, last]
      exact update_self ..
    · exact (update_of_ne side.other_ne ..).trans sessions'
    · exact (update_of_ne side.step_ne_authorize ..).trans unaware.charged
    · rw [count_self, if_neg (by omega)]
      exact update_self ..
    · exact (update_of_ne side.step_ne ..).trans step'
    · rw [count_self, last] at open'
      omega
    · rcases mem_append.mp member with old | new
      · exact fresh' open' old
      · exact o.distinct side (mem_singleton.mp new)
  · obtain ⟨n, turn⟩ : ∃ n, turns side = n + 6 := ⟨turns side - 6, by omega⟩
    have idle : c.sessions side = none := by rw [unaware.sessions side, turn]; rfl
    have closed := (unaware.step side).trans (if_neg (by omega))
    rw [advance_idle idle]
    refine ⟨side.forall_of ?_ sessions', unaware.order, unaware.charged,
      side.forall_of ?_ step', side.forall_of ?_ fresh'⟩
    · rw [count_self, idle, turn]
      rfl
    · rw [count_self, if_neg (by omega)]
      exact closed
    · rw [count_self]
      omega

end Turn

/-- The rest of a handler that has not read the step rows yet does what the whole
handler does. -/
theorem run_track (side : Side) {n : Nat} (unread : n ≤ 3) {rows : Rows}
    (order : rows.order = some o.ord) (fresh : (o.event side).id ∉ rows.processed) :
    ∃ s, o.track side n = some s ∧ s.program.run (s.view rows) = (o.handler side).run rows := by
  let claimed : Rows := { rows with processed := rows.processed ++ [(o.event side).id] }
  have order' : claimed.order = some o.ord := order
  have claims : (o.handler side).run rows = (getOrder >>= o.proceed side).run claimed := by
    rw [handler_eq]
    simp [fresh, claimed]
  have reads : (getOrder >>= o.proceed side).run claimed =
      (o.proceed side (some o.ord)).run claimed := by
    rw [Program.run_bind, run_getOrder, order']
  match n with
  | 0 => exact ⟨_, rfl, rfl⟩
  | 1 => exact ⟨_, rfl, claims.symm⟩
  | 2 =>
    refine ⟨_, rfl, ?_⟩
    rw [claims, reads]
    change (selectItems >>= fun items =>
      o.proceed side (some { o.ord with items := items })).run claimed = _
    rw [Program.run_bind, run_selectItems, order']
    rfl
  | 3 =>
    refine ⟨_, rfl, ?_⟩
    rw [claims, reads]
    rfl

theorem run_handler_cancels (side : Side) {rows : Rows} (order : rows.order = some o.ord)
    (fresh : (o.event side).id ∉ rows.processed)
    (acked : isAcked (rows.steps side.other.step) = true) :
    ∃ after, (o.handler side).run rows = (.ok (), after) ∧ after.status = some .cancelled := by
  let d : Decision := { next := .cancelled, reason := some .paymentDeclined }
  have decided : next o.ord.status side.trigger
      (ctxOf rows.steps (o.body side).retriable) = .ok d := by
    rw [o.compensating]
    cases side with
    | inventory =>
      have voided : isAcked (rows.steps .void) = true := acked
      simp [Saga.next, Side.trigger, settleOrWait, ctxOf, voided, d]
    | payment =>
      have released : isAcked (rows.steps .release) = true := acked
      simp [Saga.next, Side.trigger, settleOrWait, ctxOf, released, d]
  have admitted : ¬ Refused o.ord d (o.body side).reservationID (o.body side).paymentID
      (o.body side).reasonCode := by
    rintro ⟨-, denied⟩
    revert denied
    simp only [Order.admissible, Order.withStatus, statusFields, pickReason, d]
    cases o.ord.cancellationReason <;> cases knownReason (o.body side).reasonCode <;> simp
  have reacts : Reacts (o.event side) rows side.trigger (o.body side) o.ord d :=
    ⟨o.typed side ▸ side.triggerFor_type, o.parsed side, by simp [o.named side], fresh, order,
      decided, admitted⟩
  refine ⟨_, reacts.run (o.mint side) (o.now side), ?_⟩
  have board := congrArg Board.status (persisted_board (o.mint side) (o.now side) side.trigger d
    (some (o.event side).id) (o.body side).reservationID (o.body side).paymentID
    (o.body side).reasonCode
    (show ({ rows with processed := rows.processed ++ [(o.event side).id] } : Rows).order =
      some o.ord from order))
  exact board

/-- One side is done, and the other, on its own, cancels the order or has done so. -/
def Settling (c : Config dialect Side Err Unit) : Prop :=
  ∃ side : Side, c.sessions side.other = none ∧
    (c.sessions side = none ∧ c.db.status = some .cancelled ∨
      ∃ s after, c.sessions side = some s ∧ s.program.run (s.view c.db) = (.ok (), after) ∧
        after.status = some .cancelled)

theorem Settling.turn {c : Config dialect Side Err Unit} (settling : Settling c) (x : Side) :
    Settling (c.advance o.again x) := by
  obtain ⟨side, idle, outcome⟩ := settling
  by_cases same : x = side
  · subst same
    rcases outcome with ⟨done, cancelled⟩ | ⟨s, after, active, runs, cancelled⟩
    · rw [advance_idle done]
      exact ⟨x, idle, .inl ⟨done, cancelled⟩⟩
    · have alone : ∀ j, j ≠ x → c.sessions j = none := fun j different =>
        Side.eq_other different ▸ idle
      have untouched : (c.advance o.again x).sessions x.other = none :=
        (advance_other (D := dialect) x.other_ne).trans idle
      refine ⟨x, untouched, ?_⟩
      rcases advance_alone o.again alone active runs with
        ⟨lands, done⟩ | ⟨s', active', runs'⟩
      · exact .inl ⟨done, lands ▸ cancelled⟩
      · exact .inr ⟨s', after, active', runs', cancelled⟩
  · obtain rfl := Side.eq_other same
    rw [advance_idle idle]
    exact ⟨side, idle, outcome⟩

theorem Unaware.settling {turns : Side → Nat} {c : Config dialect Side Err Unit} {side : Side}
    (unaware : o.Unaware turns c) (last : turns side = 5) (unread : turns side.other ≤ 3) :
    Settling (c.advance o.again side) := by
  rw [unaware.advance_commit last]
  let rows : Rows :=
    { c.db with
      processed := c.db.processed ++ [(o.event side).id]
      steps := update c.db.steps side.step (some (o.closed side)) }
  have fresh : (o.event side.other).id ∉ rows.processed := by
    intro member
    rcases mem_append.mp member with old | new
    · exact unaware.fresh side.other (by omega) old
    · exact o.distinct side (mem_singleton.mp new)
  have acked : isAcked (rows.steps side.other.other.step) = true := by
    rw [side.other_other]
    simp only [rows, update_self, ← timerOf_eq_acked]
    exact timerOf_ackedRow ..
  have order : rows.order = some o.ord := unaware.order
  obtain ⟨s, active, same⟩ := run_track side.other unread order fresh
  obtain ⟨after, runs, cancelled⟩ := run_handler_cancels side.other order fresh acked
  refine ⟨side.other, ?_, .inr ⟨s, after, ?_, same.trans runs, cancelled⟩⟩
  · rw [side.other_other]
    exact update_self ..
  · exact (update_of_ne side.other_ne ..).trans ((unaware.sessions _).trans active)

/-- One side commits before the other issues its fourth statement, the read of the
step rows. -/
def Serial (schedule : List Side) : Prop :=
  ∃ front, front <+: schedule ∧ ∃ side : Side, 6 ≤ front.count side ∧ front.count side.other ≤ 3

theorem overlapping_of_not_serial {schedule : List Side} (overlaps : ¬ Serial schedule) :
    Overlapping fun side => schedule.count side := by
  intro side committed
  by_contra unread
  exact overlaps ⟨schedule, prefix_rfl, side, committed, Nat.le_of_lt_succ (not_le.mp unread)⟩

theorem count_append (schedule : List Side) (side : Side) :
    (fun x => (schedule ++ [side]).count x) = count (fun x => schedule.count x) side := by
  funext x
  by_cases same : x = side
  · subst same
    simp [count]
  · simp [count, same, Ne.symm same]

theorem Serial.append {schedule : List Side} (serial : Serial schedule) (side : Side) :
    Serial (schedule ++ [side]) := by
  obtain ⟨front, before, facts⟩ := serial
  exact ⟨front, before.trans (prefix_append ..), facts⟩

theorem Serial.of_append {schedule : List Side} {side : Side}
    (serial : Serial (schedule ++ [side])) (overlaps : ¬ Serial schedule) :
    schedule.count side = 5 ∧ schedule.count side.other ≤ 3 := by
  obtain ⟨front, before, x, committed, unread⟩ := serial
  rcases prefix_concat_iff.mp before with rfl | earlier
  · have overlapping := overlapping_of_not_serial overlaps
    have counts := count_append schedule side
    have committed' : 6 ≤ count (fun x => schedule.count x) side x := counts ▸ committed
    have unread' : count (fun x => schedule.count x) side x.other ≤ 3 := counts ▸ unread
    by_cases same : x = side
    · subst same
      rw [count_self] at committed'
      rw [count_other] at unread'
      have read : 6 ≤ schedule.count x → 4 ≤ schedule.count x.other := overlapping x
      exact ⟨by omega, unread'⟩
    · obtain rfl := Side.eq_other same
      rw [count_other] at committed'
      rw [side.other_other, count_self] at unread'
      have read : 4 ≤ schedule.count side.other.other := overlapping side.other committed'
      rw [side.other_other] at read
      omega
  · exact (overlaps ⟨front, earlier, x, committed, unread⟩).elim

theorem play_cases (schedule : List Side) :
    (Serial schedule ∧ Settling (o.play schedule)) ∨
      (¬ Serial schedule ∧ o.Unaware (fun side => schedule.count side) (o.play schedule)) := by
  induction schedule using List.reverseRecOn with
  | nil =>
    refine .inr ⟨?_, fun _ => rfl, o.found, rfl, fun _ => rfl, fun side _ => o.fresh side⟩
    rintro ⟨front, before, side, committed, -⟩
    rw [prefix_nil.mp before] at committed
    cases committed
  | append_singleton schedule side ih =>
    have next : o.play (schedule ++ [side]) = (o.play schedule).advance o.again side := by
      simp only [play, foldl_append, foldl_cons, foldl_nil]
    rw [next]
    rcases ih with ⟨serial, settling⟩ | ⟨overlaps, unaware⟩
    · exact .inl ⟨serial.append side, settling.turn side⟩
    · by_cases serial : Serial (schedule ++ [side])
      · obtain ⟨last, unread⟩ := serial.of_append overlaps
        exact .inl ⟨serial, unaware.settling last unread⟩
      · refine .inr ⟨serial, ?_⟩
        rw [count_append]
        exact unaware.turn (overlapping_of_not_serial overlaps) side

/-- **Write skew.** When both handlers have committed, the order is cancelled
exactly when one committed before the other read the step rows. -/
theorem cancelled_iff_serial (o : Overlap) (schedule : List Side)
    (finished : ∀ side, (o.play schedule).sessions side = none) :
    (o.play schedule).db.status = some .cancelled ↔ Serial schedule := by
  rcases play_cases schedule with ⟨serial, side, idle, outcome⟩ | ⟨overlaps, unaware⟩
  · rcases outcome with ⟨-, cancelled⟩ | ⟨s, after, active, -⟩
    · exact ⟨fun _ => serial, fun _ => cancelled⟩
    · rw [finished side] at active
      cases active
  · refine ⟨fun cancelled => ?_, fun serial => (overlaps serial).elim⟩
    simp only [Rows.status, unaware.order, Option.map_some, o.compensating] at cancelled
    cases cancelled

end Overlap

/-- A reserved order that its customer cancels waits for both acknowledgements. -/
def withdrawnSingle : Rows :=
  (history [placeSingle, handleSingle 1 .inventoryReserved false 1,
    .cancel 1 7 (mintFrom 5000) 2]).focus 1

def bothAcknowledge : Overlap where
  rows := withdrawnSingle
  ord := withdrawnSingle.order.get rfl
  found := rfl
  compensating := rfl
  charged := rfl
  waiting := by rintro (_ | _) <;> rfl
  event := fun side => ⟨if side = .inventory then 2 else 3, side.type, some { orderID := some 1 }⟩
  body := fun _ => { orderID := some 1 }
  typed := fun _ => rfl
  parsed := fun _ => rfl
  named := fun _ => rfl
  fresh := by rintro (_ | _) <;> decide
  distinct := by rintro (_ | _) <;> decide
  mint := fun _ => mintFrom 6000
  now := fun _ => 3

/-- Inventory's event is handled first, then payment's. -/
def oneAfterTheOther : List Side := List.replicate 6 .inventory ++ List.replicate 10 .payment

/-- Both handlers read the step rows before either commits. -/
def sideBySide : List Side :=
  (List.replicate 4 .inventory : List Side) ++ (List.replicate 6 .payment : List Side) ++
    (List.replicate 2 .inventory : List Side)

theorem cancelled_oneAfterTheOther :
    (bothAcknowledge.play oneAfterTheOther).db.status = some .cancelled :=
  (bothAcknowledge.cancelled_iff_serial oneAfterTheOther (by rintro (_ | _) <;> rfl)).mpr
    ⟨List.replicate 6 .inventory, by decide, .inventory, by decide, by decide⟩

theorem sideBySide_not_cancelled :
    ¬ ∀ (o : Overlap) (schedule : List Side), (∀ side, (o.play schedule).sessions side = none) →
        (o.play schedule).db.status = some .cancelled := by
  intro cancels
  cases cancels bothAcknowledge sideBySide (by rintro (_ | _) <;> rfl)

end Souq.Orders
