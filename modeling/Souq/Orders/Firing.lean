import Souq.Orders.Timers

/-!
# What one sweep does to an order

A deadline belongs to a step row, a timeout to the order. A fire re-arms the
compensation rows and touches no other, so a row left waiting from an earlier
state stays overdue, and two overdue rows fire the same order twice.
-/

namespace Souq.Orders

open Saga Transact Transition List Database

theorem persisted_steps (mint : Mint) (now : Time) (ord : Order) (trigger : Trigger) (d : Decision)
    (eventID reservationID paymentID : Option ID) (reasonCode : String) (rows : Rows) :
    (persisted mint now ord trigger d eventID reservationID paymentID reasonCode rows).steps =
      d.emit.foldl (sendStep now d.deadline) (ackSteps now trigger eventID rows.steps) := by
  unfold persisted
  split
  case isTrue quiet =>
    have silent : d.emit.isEmpty = true := (Bool.and_eq_true_iff.mp quiet).2
    rw [isEmpty_iff.mp silent, foldl_nil]
  case isFalse => exact foldl_emitted_steps ..

variable {step : Step} {now : Time} {db : Database} {claimed : List OverdueOrder} {orderID : ID}

theorem foldl_sendStep_of_notMem (now : Time) (deadline : Duration) {emit : List Step}
    (steps : Step → Option StepRow) (unsent : step ∉ emit) :
    emit.foldl (sendStep now deadline) steps step = steps step := by
  induction emit generalizing steps with
  | nil => rfl
  | cons sent emit ih =>
    rw [mem_cons, not_or] at unsent
    rw [foldl_cons, ih _ unsent.2, sendStep, Function.update_of_ne unsent.1]

theorem not_overdue_foldl_sendStep (now : Time) (deadline : Duration) {emit : List Step}
    {row : StepRow} (steps : Step → Option StepRow) (sent : step ∈ emit)
    (held : emit.foldl (sendStep now deadline) steps step = some row) :
    row.overdue now = false := by
  induction emit generalizing steps with
  | nil => cases sent
  | cons first emit ih =>
    by_cases later : step ∈ emit
    · exact ih _ later held
    · obtain rfl : step = first := (mem_cons.mp sent).resolve_right later
      rw [foldl_cons, foldl_sendStep_of_notMem _ _ _ later, sendStep, Function.update_self] at held
      have resent : (sentRow (steps step) (deadlineAt now deadline) now).deadlineAt =
          deadlineAt now deadline := by cases steps step <;> rfl
      rw [← Option.some.inj held, StepRow.overdue, resent, deadlineAt]
      split <;> simp

theorem timedOut_steps (mint : Mint) (now : Time) (ord : Order) (rows : Rows) :
    (timedOut mint now ord rows).steps = (onTimeout ord.status (rows.board.ctx false)).emit.foldl
        (sendStep now (onTimeout ord.status (rows.board.ctx false)).deadline) rows.steps := by
  rw [timedOut, persisted_steps, onTimeout_ctxOf]
  rfl

theorem onTimeout_emit {status : State} {c : Ctx} (early : Board.PreCommit status)
    (sent : step ∈ (onTimeout status c).emit) : step = .release ∨ step = .void := by
  obtain rfl | rfl | rfl := early
  · exact .inl (by simpa [onTimeout, Saga.next] using sent)
  · simpa [onTimeout, Saga.next] using sent
  · simp only [onTimeout, Saga.next, compensationsFor, mem_append] at sent
    grind

/-- The order has a waiting step row past its deadline. -/
def Rows.late (rows : Rows) (now : Time) (step : Step) : Prop :=
  ∃ row, rows.steps step = some row ∧ row.overdue now = true

theorem Rows.late.armed {rows : Rows} (late : rows.late now step) :
    rows.board.timer step = .armed := by
  obtain ⟨row, held, overdue⟩ := late
  exact timerOf_eq_armed.mpr ⟨row, held, StepRow.armed_of_overdue overdue⟩

theorem Board.Coherent.resends {board : Board} {status : State} (coherent : board.Coherent)
    (current : board.status = some status) (early : PreCommit status)
    (armed : board.timer step = .armed) (compensation : step = .release ∨ step = .void) :
    status = .compensating ∧ step ∈ compensationsFor (board.ctx false) := by
  obtain rfl | rfl | rfl := early <;> obtain rfl | rfl := compensation <;>
    simp only [Coherent, current] at coherent <;>
    simp only [compensationsFor, Board.ctx, mem_append] <;>
    grind [Timer.closed]

theorem timedOut_late_iff (mint : Mint) (now : Time) {ord : Order} {rows : Rows} {fired : Step}
    (coherent : rows.board.Coherent) (found : rows.order = some ord)
    (early : Board.PreCommit ord.status) (late : rows.late now fired) :
    (∀ step, ¬ (timedOut mint now ord rows).late now step) ↔
      ∀ step, rows.late now step → step = .release ∨ step = .void := by
  have current : rows.board.status = some ord.status := by simp [Rows.board, Rows.status, found]
  simp only [Rows.late, timedOut_steps]
  constructor
  · intro none' step before
    by_contra other
    refine none' step ?_
    rwa [foldl_sendStep_of_notMem _ _ _ fun sent => other (onTimeout_emit early sent)]
  · rintro only step ⟨row, held, overdue⟩
    obtain ⟨compensating, -⟩ := coherent.resends current early late.armed (only fired late)
    by_cases sent : step ∈ (onTimeout ord.status (rows.board.ctx false)).emit
    · exact absurd overdue (by simp [not_overdue_foldl_sendStep _ _ _ sent held])
    · rw [foldl_sendStep_of_notMem _ _ _ sent] at held
      have before : rows.late now step := ⟨row, held, overdue⟩
      refine sent ?_
      rw [compensating]
      exact (coherent.resends current early before.armed (only step before)).2

/-- What was overdue has fired, at most once. -/
structure FiredOnce (db : Database) (mint : ID → Step → Mint) (now : Time)
    (claimed : List OverdueOrder) (orderID : ID) : Prop where
  spent : ∀ step row, ((db.tick mint now claimed).tables orderID).steps step = some row →
    row.overdue now = false
  once : (claimedOf claimed orderID).length ≤ 1

/-- Only compensations of the order are overdue, and the batch does not hold both
of them. -/
def LoneCompensation (db : Database) (now : Time) (claimed : List OverdueOrder) (orderID : ID) :
    Prop :=
  (∀ step, (db.tables orderID).late now step → step = .release ∨ step = .void) ∧
    ¬ ((∃ ov ∈ claimed, ov.orderID = orderID ∧ ov.step = .release) ∧
      ∃ ov ∈ claimed, ov.orderID = orderID ∧ ov.step = .void)

theorem Database.claimedOf_nodup (claims : db.claimable now claimed = true) (orderID : ID) :
    ((claimedOf claimed orderID).map OverdueOrder.step).Nodup := by
  simp only [claimable, Bool.and_eq_true, decide_eq_true_eq] at claims
  have distinct : ((claimedOf claimed orderID).map fun ov => (ov.orderID, ov.step)).Nodup :=
    claims.1.1.2.sublist (filter_sublist.map _)
  have keyed : ((claimedOf claimed orderID).map fun ov => (ov.orderID, ov.step)) =
      ((claimedOf claimed orderID).map OverdueOrder.step).map (Prod.mk orderID) := by
    rw [map_map]
    refine map_congr_left fun ov member => ?_
    rw [(mem_claimedOf.mp member).2]
    rfl
  exact (keyed ▸ distinct).of_map

theorem Database.late_of_claimed (claims : db.claimable now claimed = true) {ov : OverdueOrder}
    (member : ov ∈ claimedOf claimed orderID) : (db.focus orderID).late now ov.step := by
  obtain ⟨_, row, -, -, held, overdue, -⟩ :=
    Rows.mem_overdue.mp (overdue_of_claimed claims member)
  exact ⟨row, held, overdue⟩

theorem spent_iff_of_single (reached : service.Reachable db)
    (claims : db.claimable now claimed = true) (mint : ID → Step → Mint) {ov : OverdueOrder}
    (single : claimedOf claimed orderID = [ov]) :
    (∀ step row, ((db.tick mint now claimed).tables orderID).steps step = some row →
        row.overdue now = false) ↔
      ∀ step, (db.tables orderID).late now step → step = .release ∨ step = .void := by
  have member : ov ∈ claimedOf claimed orderID := single ▸ mem_singleton_self ov
  have coherent : (db.focus orderID).board.Coherent := coherent_of_reachable reached orderID
  obtain ⟨ord, found, early, same⟩ :=
    coherent.preCommit_of_overdue (overdue_of_claimed claims member)
  have after : (db.tick mint now claimed).focus orderID =
      timedOut (mint orderID ov.step) now ord (db.focus orderID) := by
    rw [tick_focus claims, single, foldl_cons, foldl_nil,
      swept_of_retry _ _ found (not_escalates_of_preCommit (same ▸ early))]
  have fire := timedOut_late_iff (mint orderID ov.step) now coherent found early
    (late_of_claimed claims member)
  rw [← after] at fire
  refine Iff.trans ?_ fire
  constructor
  · rintro spent step ⟨row, held, overdue⟩
    exact absurd overdue (by simp [spent step row held])
  · intro none' step row held
    exact Bool.eq_false_iff.mpr fun overdue => none' step ⟨row, held, overdue⟩

theorem LoneCompensation.once (lone : LoneCompensation db now claimed orderID)
    (claims : db.claimable now claimed = true) : (claimedOf claimed orderID).length ≤ 1 := by
  obtain ⟨only, apart⟩ := lone
  have distinct := claimedOf_nodup claims orderID
  have kind : ∀ ov ∈ claimedOf claimed orderID, ov.step = .release ∨ ov.step = .void :=
    fun ov member => only ov.step (late_of_claimed claims member)
  have held : ∀ ov ∈ claimedOf claimed orderID, ov ∈ claimed ∧ ov.orderID = orderID :=
    fun ov => mem_claimedOf.mp
  match rows : claimedOf claimed orderID with
  | [] | [_] => simp
  | first :: second :: rest =>
    rw [rows] at distinct kind held
    have different : first.step ≠ second.step := by
      simp only [map_cons, nodup_cons, mem_cons, not_or] at distinct
      exact distinct.1.1
    have one := kind first (by simp)
    have two := kind second (by simp)
    obtain ⟨one', owner⟩ := held first (by simp)
    obtain ⟨two', owner'⟩ := held second (by simp)
    refine (apart ?_).elim
    obtain isRelease | isVoid := one
    · have isVoid := two.resolve_left fun same => different (isRelease.trans same.symm)
      exact ⟨⟨first, one', owner, isRelease⟩, ⟨second, two', owner', isVoid⟩⟩
    · have isRelease := two.resolve_right fun same => different (isVoid.trans same.symm)
      exact ⟨⟨second, two', owner', isRelease⟩, ⟨first, one', owner, isVoid⟩⟩

/-- **One firing per deadline.** A tick fires an order once and leaves nothing of
it overdue exactly when only one of its compensations is due. -/
theorem firedOnce_iff {db : Database} (reached : service.Reachable db) {now : Time}
    {claimed : List OverdueOrder} (claims : db.claimable now claimed = true)
    (mint : ID → Step → Mint) {orderID : ID} (fires : claimedOf claimed orderID ≠ []) :
    FiredOnce db mint now claimed orderID ↔ LoneCompensation db now claimed orderID := by
  have single : (claimedOf claimed orderID).length ≤ 1 → ∃ ov, claimedOf claimed orderID = [ov] :=
    fun once => length_eq_one_iff.mp (Nat.le_antisymm once (length_pos_iff.mpr fires))
  constructor
  · rintro ⟨spent, once⟩
    obtain ⟨ov, only⟩ := single once
    refine ⟨(spent_iff_of_single reached claims mint only).mp spent, ?_⟩
    rintro ⟨⟨one, member, owner, isRelease⟩, ⟨two, member', owner', isVoid⟩⟩
    have same : one = ov := by simpa [only] using mem_claimedOf.mpr ⟨member, owner⟩
    have same' : two = ov := by simpa [only] using mem_claimedOf.mpr ⟨member', owner'⟩
    cases isRelease.symm.trans ((congrArg OverdueOrder.step (same.trans same'.symm)).trans isVoid)
  · intro lone
    have once := lone.once claims
    obtain ⟨ov, only⟩ := single once
    exact ⟨(spent_iff_of_single reached claims mint only).mpr lone.1, once⟩

/-- A declined order whose `RELEASE` alone is overdue. -/
def declined : Database :=
  history [placeSingle, handleSingle 1 .inventoryReserved false 1,
    handleSingle 2 .paymentFailed false 2]

/-- The overdue `RELEASE` row. -/
def overdueRelease : OverdueOrder := ⟨1, .compensating, .release, 2, 1⟩

theorem firedOnce_declined :
    FiredOnce declined (fun _ _ => mintFrom 9000) (400 * second) [overdueRelease] 1 := by
  refine (firedOnce_iff (System.Reachable.foldl _) (by decide) _ (by decide)).mpr ⟨?_, ?_⟩
  · rintro step ⟨row, held, overdue⟩
    cases step <;> cases held <;> first | exact .inl rfl | cases overdue
  · rintro ⟨-, ov, member, -, isVoid⟩
    obtain rfl : ov = overdueRelease := by simpa using member
    cases isVoid

/-- The `RESERVE` row of a timed-out `PENDING` order stays overdue. -/
theorem firedOnce_fails :
    ¬ ∀ (db : Database) (mint : ID → Step → Mint) (now : Time) (claimed : List OverdueOrder)
      (orderID : ID), service.Reachable db → db.claimable now claimed = true →
        claimedOf claimed orderID ≠ [] → FiredOnce db mint now claimed orderID := by
  intro once
  have fired := once (history [placeSingle]) (fun _ _ => mintFrom 9000) (31 * second)
    [⟨1, .pending, .reserve, 0, 1⟩] 1 (System.Reachable.foldl _) (by decide) (by decide)
  cases fired.spent .reserve _ rfl

end Souq.Orders
