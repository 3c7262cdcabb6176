import Souq.Orders.Timers

/-!
# Orders the sweeper can see

An order that waits should have a step row with a deadline. Past the point of no
return it never has one; before it, the row can be closed by an event that
leaves the order where it is. Both are characterised exactly, over every run.
-/

namespace Souq.Orders

open Saga Transact Transition Board Database Option

theorem exists_step {p : Step → Prop} :
    (∃ step, p step) ↔
      p .reserve ∨ p .authorize ∨ p .commit ∨ p .capture ∨ p .release ∨ p .void := by
  constructor
  · rintro ⟨step, holds⟩
    cases step <;> simp [holds]
  · rintro (holds | holds | holds | holds | holds | holds) <;> exact ⟨_, holds⟩

theorem forall_step {p : Step → Prop} :
    (∀ step, p step) ↔
      p .reserve ∧ p .authorize ∧ p .commit ∧ p .capture ∧ p .release ∧ p .void := by
  constructor
  · intro holds
    exact ⟨holds _, holds _, holds _, holds _, holds _, holds _⟩
  · rintro ⟨reserve, authorize, commit, capture, release, void⟩ step
    cases step <;> assumption

namespace Board

def Armed (board : Board) : Prop := ∃ step, board.timer step = .armed

/-- An order that can still be rolled back has an armed step row. -/
def Watched (board : Board) : Prop :=
  ∀ status, board.status = some status → PreCommit status → board.Armed

/-- An event that closes the last armed row of an order it leaves waiting: a
retriable payment failure, or an inventory event while the payment side of the
compensation is open. -/
def Disarms (board : Board) (trigger : Trigger) (retriable : Bool) : Prop :=
  (board.status = some .stockReserved ∧ trigger = .authFailed ∧ retriable = true) ∨
    (board.status = some .compensating ∧
      (trigger = .released ∨ trigger = .reserved ∨ trigger = .reserveFailed) ∧
      board.timer .authorize ≠ .absent ∧ board.timer .void ≠ .acked ∧
      ∀ step, board.timer step = .armed → stepAckedBy trigger = some step)

variable {board : Board} {status : State}

theorem Coherent.watched_after {trigger : Trigger} {d : Decision} {retriable : Bool}
    (coherent : board.Coherent) (current : board.status = some status) (event : trigger ≠ .timeout)
    (decided : Decides status trigger (board.ctx retriable) d) (watched : board.Watched) :
    (board.after trigger d).Watched ↔ ¬ board.Disarms trigger retriable := by
  have watched := watched status current
  simp only [Watched, Disarms, Armed, exists_step, forall_step, PreCommit] at watched ⊢
  cases decided with
  | reservationTimeout | paymentTimeout | commitRetry | captureRetry | compensationTimeout =>
    exact (event rfl).elim
  | released | neverReserved =>
    simp only [Coherent, current] at coherent
    obtain ⟨-, done, settled⟩ | ⟨waits, settled⟩ := settleOrWait_cases
      { board.ctx retriable with inventorySettled := true }
    · simp only [Board.ctx] at done
      simp only [Board.after, settled]
      grind
    · simp only [Board.ctx] at waits
      simp only [Board.after, settled, List.not_mem_nil, stepAckedBy]
      grind [Timer.closed]
  | voided | neverAuthorized =>
    simp only [Coherent, current] at coherent
    obtain ⟨-, done, settled⟩ | ⟨waits, settled⟩ := settleOrWait_cases
      { board.ctx retriable with paymentSettled := true }
    · simp only [Board.after, settled]
      grind
    · simp only [Board.ctx] at waits
      simp only [Board.after, settled, List.not_mem_nil, stepAckedBy]
      grind [Timer.closed]
  | outOfStock | authorized | authorizedAgain | committed | committedAgain | captured |
    afterConfirmed | afterCancelled =>
      simp only [Board.after, current]
      grind
  | _ =>
    simp only [Coherent, current] at coherent
    simp only [Board.after, Board.sent, stepAckedBy, timeoutStockReserved,
      timeoutCompensating, second, List.mem_cons, List.not_mem_nil, current]
    grind [Timer.closed, Board.ctx]

theorem Coherent.watched_timeout (coherent : board.Coherent) (current : board.status = some status)
    (early : PreCommit status) : board.timeout.Watched := by
  intro _ _ _
  simp only [Armed, exists_step]
  obtain rfl | rfl | rfl := early <;>
    simp only [Coherent, current] at coherent <;>
    simp only [Board.timeout, current, onTimeout, Saga.next, Board.after, Board.sent,
      compensationsFor, stepAckedBy, timeoutCompensating, second] <;>
    grind [Timer.closed, Board.ctx]

theorem Coherent.watched_timeouts (coherent : board.Coherent) (current : board.status = some status)
    (early : PreCommit status) {fires : Nat} (some' : fires ≠ 0) :
    (Board.timeout^[fires] board).Watched := by
  obtain ⟨before, rfl⟩ := Nat.exists_eq_succ_of_ne_zero some'
  rw [Function.iterate_succ_apply']
  by_cases first : before = 0
  · subst first
    exact coherent.watched_timeout current early
  · obtain ⟨kept, compensating⟩ := coherent.timeouts current early first
    exact kept.watched_timeout compensating (.inr (.inr rfl))

theorem watched_cancel (board : Board) : board.cancel.Watched := fun _ _ _ =>
  ⟨.release, by simp [cancel, send, sent, timeoutCompensating, second]⟩

theorem watched_place (board : Board) : board.place.Watched := fun _ _ _ =>
  ⟨.reserve, by simp [place, send, sent, timeoutPending, second]⟩

end Board

/-- Every `PENDING`, `STOCK_RESERVED` or `COMPENSATING` order has a step row that
is `SENT` with a deadline. -/
def WaitingArmed (db : Database) : Prop :=
  ∀ orderID ord, (db.tables orderID).order = some ord →
    ord.status = .pending ∨ ord.status = .stockReserved ∨ ord.status = .compensating →
    ∃ step row, (db.tables orderID).steps step = some row ∧ row.armed = true

/-- The action handles a fresh event that disarms its order. -/
def Disarming (db : Database) : Action → Prop
  | .handle e _ _ => ∃ orderID trigger body, e.body = some body ∧ body.orderID = some orderID ∧
      triggerFor e.type = some trigger ∧ e.id ∉ db.processed ∧
      (db.board orderID).Disarms trigger body.retriable
  | _ => False

variable {db : Database}

theorem waitingArmed_iff :
    WaitingArmed db ↔ ∀ orderID, (db.board orderID).Watched := by
  simp only [WaitingArmed, Board.Watched, Board.Armed, Board.PreCommit, board, Rows.board,
    Rows.status, map_eq_some_iff, timerOf_eq_armed]
  constructor
  · rintro armed orderID status ⟨ord, found, rfl⟩
    exact armed orderID ord found
  · intro watched orderID ord found
    exact watched orderID ord.status ⟨ord, found, rfl⟩

theorem Board.Disarms.decides {board : Board} {trigger : Trigger} {retriable : Bool}
    (disarms : board.Disarms trigger retriable) :
    ∃ status d, board.status = some status ∧ Decides status trigger (board.ctx retriable) d ∧
      isTerminal d.next = false := by
  obtain ⟨current, rfl, rfl⟩ | ⟨current, inventory, sent, unsettled, -⟩ := disarms
  · exact ⟨_, _, current, .retriable rfl, rfl⟩
  · have waits : settleOrWait { board.ctx retriable with inventorySettled := true } =
        { next := .compensating, ackOnly := true } := by
      simp [settleOrWait, ctx, sent, unsettled]
    obtain rfl | rfl | rfl := inventory
    · exact ⟨_, _, current, .released _, by rw [waits]; rfl⟩
    · exact ⟨_, _, current, .lateReserved _, rfl⟩
    · exact ⟨_, _, current, .neverReserved _, by rw [waits]; rfl⟩

theorem waitingArmed_exec_iff (a : Action) (reached : service.Reachable db)
    (armed : WaitingArmed db) : WaitingArmed (db.exec a) ↔ ¬ Disarming db a := by
  rw [waitingArmed_iff] at armed ⊢
  constructor
  · intro after disarming
    cases a with
    | handle e mint now =>
      obtain ⟨orderID, trigger, body, parsed, named, modelled, fresh, disarms⟩ := disarming
      obtain ⟨status, d, current, decides, live⟩ := disarms.decides
      obtain ⟨ord, reacts⟩ : ∃ ord, Reacts e (db.focus orderID) trigger body ord d :=
        Reacts.of_decides modelled parsed (by simp [named]) fresh current decides live
      have watched := after orderID
      rw [reacts.exec_board (by simp [Envelope.orderID, parsed, named])] at watched
      exact ((coherent_of_reachable reached orderID).watched_after current reacts.event decides
        (armed orderID)).mp watched disarms
    | _ => exact disarming
  · intro calm orderID
    have coherent := coherent_of_reachable reached orderID
    have moves := exec_moves coherent a
    generalize (db.exec a).board orderID = board at moves ⊢
    cases moves with
    | stay => exact armed orderID
    | place => exact watched_place _
    | @event e mint now trigger body ord d named reacts =>
      refine (coherent.watched_after (board_status reacts.found) reacts.event
        reacts.decides (armed orderID)).mpr fun disarms => calm ?_
      have owner : body.orderID = some orderID := by
        simpa [Envelope.orderID, reacts.parsed] using named
      exact ⟨orderID, trigger, body, reacts.parsed, owner, reacts.modelled, reacts.fresh, disarms⟩
    | cancel => exact watched_cancel _
    | fires claimed mint now current early some' =>
      exact coherent.watched_timeouts current early some'

/-- **Armed before the point of no return.** Every waiting order is armed
throughout a run exactly when no step of the run is disarming. -/
theorem waitingArmed_throughout_iff (actions : List Action) :
    (∀ front, front <+: actions → WaitingArmed (history front)) ↔
      ∀ front a, front ++ [a] <+: actions → ¬ Disarming (history front) a :=
  System.throughout_iff (by rintro orderID ord (⟨⟩)) (fun _ a => waitingArmed_exec_iff a) actions

/-- A retriable payment failure closes the only timer of the order. -/
theorem waitingArmed_fails : ¬ ∀ db, service.Reachable db → WaitingArmed db := by
  intro armed
  obtain ⟨step, row, held, waits⟩ := armed
    (history [placeSingle, handleSingle 1 .inventoryReserved false 1,
      handleSingle 2 .paymentFailed true 2]) (System.Reachable.foldl _) 1 _ rfl (.inr (.inl rfl))
  cases step <;> cases held <;> cases waits

/-- Every `PAID` order has a `COMMIT` row, and every `STOCK_COMMITTED` order a
`CAPTURE` row, that is `SENT` with a deadline. -/
def RollForwardArmed (db : Database) : Prop :=
  ∀ orderID ord, (db.tables orderID).order = some ord → (ord.status = .paid →
      ∃ row, (db.tables orderID).steps .commit = some row ∧ row.armed = true) ∧
    (ord.status = .stockCommitted →
      ∃ row, (db.tables orderID).steps .capture = some row ∧ row.armed = true)

/-- The action handles a fresh authorization of a `STOCK_RESERVED` order. -/
def Paying (db : Database) : Action → Prop
  | .handle e _ _ => ∃ orderID, e.orderID = some orderID ∧ e.type = .paymentAuthorized ∧
      e.id ∉ db.processed ∧ (db.board orderID).status = some .stockReserved
  | _ => False

/-- No order is `PAID` or `STOCK_COMMITTED`. -/
def NonePaid (db : Database) : Prop :=
  ∀ orderID, (db.board orderID).status ≠ some .paid ∧
    (db.board orderID).status ≠ some .stockCommitted

theorem Board.Coherent.dormant {board : Board} (coherent : board.Coherent) :
    (board.status = some .paid → board.timer .commit = .dormant) ∧
      (board.status = some .stockCommitted → board.timer .capture = .dormant) := by
  constructor <;> intro current <;> simp only [Coherent, current] at coherent
  · exact coherent.2.2.1
  · exact coherent.2.2.2.1

theorem rollForwardArmed_iff_nonePaid (reached : service.Reachable db) :
    RollForwardArmed db ↔ NonePaid db := by
  constructor
  · intro armed orderID
    obtain ⟨commit, capture⟩ := (coherent_of_reachable reached orderID).dormant
    refine ⟨fun paid => ?_, fun committed => ?_⟩
    · obtain ⟨ord, found, held⟩ := map_eq_some_iff.mp paid
      have waits := timerOf_eq_armed.mpr ((armed orderID ord found).1 held)
      cases waits.symm.trans (commit paid)
    · obtain ⟨ord, found, held⟩ := map_eq_some_iff.mp committed
      have waits := timerOf_eq_armed.mpr ((armed orderID ord found).2 held)
      cases waits.symm.trans (capture committed)
  · intro none' orderID ord found
    obtain ⟨unpaid, uncommitted⟩ := none' orderID
    have current : (db.board orderID).status = some ord.status := board_status found
    exact ⟨fun held => (unpaid (held ▸ current)).elim,
      fun held => (uncommitted (held ▸ current)).elim⟩

theorem nonePaid_exec_iff (a : Action) (reached : service.Reachable db) (unpaid : NonePaid db) :
    NonePaid (db.exec a) ↔ ¬ Paying db a := by
  constructor
  · intro after paying
    cases a with
    | handle e mint now =>
      obtain ⟨orderID, named, authorized, fresh, current⟩ := paying
      obtain ⟨body, parsed, owner⟩ := bind_eq_some_iff.mp named
      obtain ⟨ord, reacts⟩ : ∃ ord, Reacts e (db.focus orderID) .authorized body ord _ :=
        Reacts.of_decides (by rw [authorized]; rfl) parsed (by simp [owner]) fresh current
          (.authorized _) rfl
      exact (after orderID).1 (by rw [reacts.exec_board named]; rfl)
    | _ => exact paying
  · intro calm orderID
    have coherent := coherent_of_reachable reached orderID
    have moves := exec_moves coherent a
    generalize (db.exec a).board orderID = board at moves ⊢
    cases moves with
    | stay => exact unpaid orderID
    | place => exact ⟨nofun, nofun⟩
    | cancel => exact ⟨nofun, nofun⟩
    | fires claimed mint now current early some' =>
      rw [(coherent.timeouts current early some').2]
      exact ⟨nofun, nofun⟩
    | @event e mint now trigger body ord d named reacts =>
      have current := board_status reacts.found
      refine ⟨fun paid => ?_, fun committed => ?_⟩
      · obtain ⟨held, rfl⟩ | held := reacts.decides.eq_paid (some.inj paid)
        · refine calm ⟨orderID, named, ?_, reacts.fresh, held ▸ current⟩
          have modelled := reacts.modelled
          cases type : e.type <;> simp [triggerFor, type] at modelled ⊢
        · exact (unpaid orderID).1 (held ▸ current)
      · obtain ⟨held, -⟩ | held :=
          reacts.decides.eq_stockCommitted (some.inj committed)
        · exact (unpaid orderID).1 (held ▸ current)
        · exact (unpaid orderID).2 (held ▸ current)

/-- **Armed past the point of no return.** Roll-forward is armed throughout a run
exactly when no step of the run pays an order. -/
theorem rollForwardArmed_throughout_iff (actions : List Action) :
    (∀ front, front <+: actions → RollForwardArmed (history front)) ↔
      ∀ front a, front ++ [a] <+: actions → ¬ Paying (history front) a := by
  refine System.throughout_iff (by rintro orderID ord (⟨⟩)) (fun db a reached armed => ?_) actions
  rw [rollForwardArmed_iff_nonePaid reached] at armed
  rw [rollForwardArmed_iff_nonePaid (reached.step rfl), nonePaid_exec_iff a reached armed]

/-- A paid order has a `COMMIT` row without a deadline. -/
theorem rollForwardArmed_fails : ¬ ∀ db, service.Reachable db → RollForwardArmed db := by
  intro armed
  obtain ⟨row, held, waits⟩ := (armed
    (history [placeSingle, handleSingle 1 .inventoryReserved false 1,
      handleSingle 2 .paymentAuthorized false 2]) (System.Reachable.foldl _) 1 _ rfl).1 rfl
  cases held
  cases waits

end Souq.Orders
