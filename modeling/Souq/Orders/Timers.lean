import Souq.Orders.Board

/-!
# Which timers are armed in which state

The step rows history leaves behind in each status, and what follows for the
timeout sweeper: an order past the point of no return has no armed timer, an
order before it can lose its last one, and one expired wait can be fired more
than once.
-/

namespace Souq.Orders

open Saga Transact Transition List Board Database Rows Timer

def Timer.closed (t : Timer) : Prop := t = .absent ∨ t = .acked

namespace Board

/-- The timers history can have left behind in each status. -/
def Coherent (board : Board) : Prop :=
  match board.status with
  | none => ∀ step, board.timer step = .absent
  | some .pending =>
    board.timer .reserve = .armed ∧ board.timer .authorize = .absent ∧
      board.timer .commit = .absent ∧ board.timer .capture = .absent ∧
      (board.timer .release).closed ∧ (board.timer .void).closed
  | some .stockReserved =>
    board.timer .reserve = .acked ∧
      (board.timer .authorize = .armed ∨ board.timer .authorize = .acked) ∧
      board.timer .commit = .absent ∧ board.timer .capture = .absent ∧
      (board.timer .release).closed ∧ (board.timer .void).closed
  | some .paid =>
    board.timer .reserve = .acked ∧ board.timer .authorize = .acked ∧
      board.timer .commit = .dormant ∧ board.timer .capture = .absent ∧
      (board.timer .release).closed ∧ (board.timer .void).closed
  | some .stockCommitted =>
    board.timer .reserve = .acked ∧ board.timer .authorize = .acked ∧
      board.timer .commit = .acked ∧ board.timer .capture = .dormant ∧
      (board.timer .release).closed ∧ (board.timer .void).closed
  | some .compensating =>
    (board.timer .reserve = .armed ∨ board.timer .reserve = .acked) ∧
      board.timer .authorize ≠ .dormant ∧ board.timer .authorize ≠ .other ∧
      board.timer .commit = .absent ∧ board.timer .capture = .absent ∧
      (board.timer .release = .armed ∨
        board.timer .release = .acked ∧ board.timer .authorize ≠ .absent ∧
          board.timer .void ≠ .acked) ∧
      ((board.timer .void).closed ∨ board.timer .void = .armed ∧ board.timer .authorize ≠ .absent)
  | some .confirmed => True
  | some .cancelled => True

variable {board : Board} {status : State}

theorem Coherent.after {trigger : Trigger} {d : Decision} {retriable : Bool}
    (coherent : board.Coherent) (current : board.status = some status) (event : trigger ≠ .timeout)
    (decided : Decides status trigger (board.ctx retriable) d) :
    (board.after trigger d).Coherent := by
  cases decided with
  | reservationTimeout | paymentTimeout | commitRetry | captureRetry | compensationTimeout =>
    exact (event rfl).elim
  | outOfStock | captured | afterConfirmed | afterCancelled => trivial
  | released | neverReserved =>
    obtain ⟨-, -, settled⟩ | ⟨waits, settled⟩ := settleOrWait_cases
      { board.ctx retriable with inventorySettled := true }
    · simp only [Coherent, after, settled]
    · simp only [Coherent, current, ctx] at coherent waits
      simp only [Coherent, after, settled, not_mem_nil, stepAckedBy]
      grind [closed]
  | voided | neverAuthorized =>
    obtain ⟨-, -, settled⟩ | ⟨waits, settled⟩ := settleOrWait_cases
      { board.ctx retriable with paymentSettled := true }
    · simp only [Coherent, after, settled]
    · simp only [Coherent, current, ctx] at coherent waits
      simp only [Coherent, after, settled, not_mem_nil, stepAckedBy]
      grind [closed]
  | _ =>
    simp only [Coherent, current] at coherent
    simp only [Coherent, after, sent, stepAckedBy, timeoutStockReserved,
      timeoutCompensating, second, mem_cons, not_mem_nil]
    grind [closed, ctx]

/-- The states the sweeper can roll back. -/
def PreCommit (status : State) : Prop :=
  status = .pending ∨ status = .stockReserved ∨ status = .compensating

theorem Coherent.timeout (coherent : board.Coherent) (current : board.status = some status)
    (early : PreCommit status) :
    board.timeout.Coherent ∧ board.timeout.status = some .compensating := by
  obtain rfl | rfl | rfl := early <;>
    simp only [Coherent, current] at coherent <;>
    simp only [Coherent, Board.timeout, current, onTimeout, Saga.next, Board.after, Board.sent,
      compensationsFor, stepAckedBy, timeoutCompensating, second, and_true] <;>
    grind [Timer.closed, Board.ctx]

theorem Coherent.cancel (coherent : board.Coherent) (current : board.status = some status)
    (early : status = .pending ∨ status = .stockReserved) :
    board.cancel.Coherent := by
  obtain rfl | rfl := early <;>
    simp only [Coherent, current] at coherent <;>
    simp only [Coherent, cancel, send, sent, timeoutCompensating, second] <;>
    grind [closed, ctx]

theorem Coherent.place (coherent : board.Coherent) (new : board.status = none) :
    board.place.Coherent := by
  simp only [Coherent, new] at coherent
  simp only [Coherent, Board.place, Board.send, Board.sent, timeoutPending, second]
  grind [Timer.closed]

theorem Coherent.preCommit_of_armed {step : Step} (coherent : board.Coherent)
    (current : board.status = some status) (armed : board.timer step = .armed)
    (live : isTerminal status = false) : PreCommit status := by
  cases status with
  | pending => exact .inl rfl
  | stockReserved => exact .inr (.inl rfl)
  | compensating => exact .inr (.inr rfl)
  | paid | stockCommitted =>
    simp only [Coherent, current] at coherent
    cases step <;> grind [closed]
  | confirmed | cancelled => cases live

end Board

variable {rows : Rows} {now : Time} {ov : OverdueOrder} {status : State} {e : Envelope}
  {trigger : Trigger} {body : Body} {ord : Order} {d : Decision} {db : Database}
  {claimed : List OverdueOrder} {orderID : ID}

theorem Rows.mem_stepRows {step : Step} {row : StepRow} :
    (step, row) ∈ rows.stepRows ↔ rows.steps step = some row := by
  have listed : step ∈ allSteps := by cases step <;> decide
  simp [stepRows, Option.map_eq_some_iff, listed]

theorem Rows.mem_overdue :
    ov ∈ rows.overdue now ↔ ∃ ord row, rows.order = some ord ∧ isTerminal ord.status = false ∧
        rows.steps ov.step = some row ∧ row.overdue now = true ∧
        ov = ⟨ord.id, ord.status, ov.step, ord.version, row.attempts⟩ := by
  unfold overdue
  cases found : rows.order with
  | none => simp
  | some ord =>
    by_cases terminal : isTerminal ord.status = true
    · simp [terminal]
    · simp only [terminal, mem_map, mem_insertionSort, mem_filter, Prod.exists,
        mem_stepRows, Bool.false_eq_true, ↓reduceIte, Option.some.injEq]
      constructor
      · rintro ⟨step, row, ⟨held, late⟩, rfl⟩
        exact ⟨ord, row, rfl, Bool.eq_false_iff.mpr terminal, held, late, rfl⟩
      · rintro ⟨_, row, rfl, -, held, late, equal⟩
        exact ⟨ov.step, row, ⟨held, late⟩, equal.symm⟩

theorem Board.Coherent.preCommit_of_overdue (coherent : rows.board.Coherent)
    (claimed : ov ∈ rows.overdue now) :
    ∃ ord, rows.order = some ord ∧ PreCommit ord.status ∧ ov.status = ord.status := by
  obtain ⟨ord, row, found, live, held, late, equal⟩ := mem_overdue.mp claimed
  have armed : rows.board.timer ov.step = .armed :=
    timerOf_eq_armed.mpr ⟨row, held, StepRow.armed_of_overdue late⟩
  have current : rows.board.status = some ord.status := by simp [Rows.board, Rows.status, found]
  exact ⟨ord, found, coherent.preCommit_of_armed current armed live, by rw [equal]⟩

theorem not_escalates_of_preCommit (early : Board.PreCommit ov.status) :
    ¬ Escalates ov := by
  unfold Escalates
  obtain held | held | held := early <;> simp [held, rollbackForbidden]

theorem foldl_swept_board (mint : Step → Mint) (now : Time) (claimed : List OverdueOrder)
    (coherent : rows.board.Coherent) (current : rows.board.status = some status)
    (early : Board.PreCommit status) (each : ∀ ov ∈ claimed, ¬ Escalates ov) :
    (claimed.foldl (fun rows ov => swept (mint ov.step) now rows ov) rows).board =
      timeout^[claimed.length] rows.board := by
  induction claimed generalizing rows status with
  | nil => rfl
  | cons ov claimed ih =>
    obtain ⟨ord, found, -⟩ : ∃ ord, rows.order = some ord ∧ ord.status = status := by
      simpa [Rows.board, Rows.status] using current
    have fired : (swept (mint ov.step) now rows ov).board = rows.board.timeout := by
      rw [swept_of_retry _ _ found (each ov mem_cons_self), timedOut_board _ _ found]
    obtain ⟨kept, compensating⟩ := coherent.timeout current early
    rw [foldl_cons, ih (fired ▸ kept) (fired ▸ compensating) (.inr (.inr rfl))
      (fun other member => each other (mem_cons_of_mem _ member)), fired]
    rfl

/-- What was claimed of an order. -/
def claimedOf (claimed : List OverdueOrder) (orderID : ID) : List OverdueOrder :=
  claimed.filter fun ov => ov.orderID == orderID

/-- What an action can do to the board of an order. -/
inductive Moves (db : Database) (orderID : ID) : Action → Board → Prop where
  | stay (a : Action) : Moves db orderID a (db.board orderID)
  | place (input : PlaceOrderInput) (total : Money) (mint : Mint) (now : Time)
      (new : (db.board orderID).status = none) :
      Moves db orderID (.place orderID input total mint now) (db.board orderID).place
  | event {e : Envelope} (mint : Mint) (now : Time) {trigger : Trigger} {body : Body} {ord : Order}
      {d : Decision} (named : e.orderID = some orderID)
      (reacts : Reacts e (db.focus orderID) trigger body ord d) :
      Moves db orderID (.handle e mint now) ((db.board orderID).after trigger d)
  | cancel (userID : ID) (mint : Mint) (now : Time) {status : State}
      (current : (db.board orderID).status = some status)
      (early : status = .pending ∨ status = .stockReserved) :
      Moves db orderID (.cancel orderID userID mint now) (db.board orderID).cancel
  | fires (claimed : List OverdueOrder) (mint : ID → Step → Mint) (now : Time) {status : State}
      (current : (db.board orderID).status = some status) (early : Board.PreCommit status)
      (some' : (claimedOf claimed orderID).length ≠ 0) :
      Moves db orderID (.tick claimed mint now)
        (timeout^[(claimedOf claimed orderID).length] (db.board orderID))

theorem reacted_board (reacts : Reacts e rows trigger body ord d) (mint : Mint) (now : Time) :
    (reacted mint now e trigger body ord d rows).board = rows.board.after trigger d := by
  have found : ({ rows with processed := rows.processed ++ [e.id] } : Rows).order = some ord :=
    reacts.found
  rw [reacted, persisted_board _ _ _ _ _ _ _ _ found]
  rfl

theorem Database.tick_focus (claims : db.claimable now claimed = true) (mint : ID → Step → Mint)
    (orderID : ID) :
    (db.tick mint now claimed).focus orderID = (claimedOf claimed orderID).foldl
      (fun rows ov => swept (mint orderID ov.step) now rows ov) (db.focus orderID) := by
  obtain ⟨after, sweeps, focused⟩ := db.sweepAll_focus mint now claimed
  simp only [tick, claims, sweeps, ↓reduceIte]
  exact focused orderID

theorem mem_claimedOf :
    ov ∈ claimedOf claimed orderID ↔ ov ∈ claimed ∧ ov.orderID = orderID := by
  simp [claimedOf]

theorem Database.overdue_of_claimed (claims : db.claimable now claimed = true)
    (member : ov ∈ claimedOf claimed orderID) : ov ∈ (db.focus orderID).overdue now := by
  obtain ⟨taken, rfl⟩ := mem_claimedOf.mp member
  simp only [claimable, Bool.and_eq_true, all_eq_true, decide_eq_true_eq] at claims
  exact claims.1.1.1.2 ov taken

theorem Database.board_status (found : (db.focus orderID).order = some ord) :
    (db.board orderID).status = some ord.status := by
  rw [← Database.focus_board, Rows.board, Rows.status, found, Option.map_some]

theorem Database.exec_handle (db : Database) (named : e.orderID = some orderID) (mint : Mint)
    (now : Time) :
    db.exec (.handle e mint now) = db.transact orderID (Orders.handle mint now e) := by
  simp only [exec, named]

theorem Database.exec_handle_unnamed (db : Database) (unnamed : e.orderID = none) (mint : Mint)
    (now : Time) : db.exec (.handle e mint now) = db := by
  simp only [exec, unnamed]

/-- What an action can do to the rows of an order. -/
inductive Rewrites (db : Database) (orderID : ID) : Action → Rows → Prop where
  | stay (a : Action) : Rewrites db orderID a (db.focus orderID)
  | place (input : PlaceOrderInput) (total : Money) (mint : Mint) (now : Time)
      (new : (db.focus orderID).order = none) :
      Rewrites db orderID (.place orderID input total mint now)
        (placed mint now (newOrder orderID input total) (db.focus orderID))
  | event {e : Envelope} (mint : Mint) (now : Time) {trigger : Trigger} {body : Body} {ord : Order}
      {d : Decision} (named : e.orderID = some orderID)
      (reacts : Reacts e (db.focus orderID) trigger body ord d) :
      Rewrites db orderID (.handle e mint now)
        (reacted mint now e trigger body ord d (db.focus orderID))
  | cancel (userID : ID) (mint : Mint) (now : Time) {ord : Order}
      (found : (db.focus orderID).order = some ord) (open' : ord.cancellable = true)
      (cancels : (cancelOrder mint now userID).inTx (db.focus orderID) =
        withdrawn mint now ord (db.focus orderID)) :
      Rewrites db orderID (.cancel orderID userID mint now)
        (withdrawn mint now ord (db.focus orderID))
  | sweep (claimed : List OverdueOrder) (mint : ID → Step → Mint) (now : Time)
      (claims : db.claimable now claimed = true) :
      Rewrites db orderID (.tick claimed mint now) ((claimedOf claimed orderID).foldl
          (fun rows ov => swept (mint orderID ov.step) now rows ov) (db.focus orderID))

/-- Two views of the rows of one order, which may differ in the inbox. -/
def Rows.Alike (rows other : Rows) : Prop :=
  { rows with processed := [] } = { other with processed := [] }

theorem Rows.Alike.congr {α : Type} {other : Rows} (view : Rows → α)
    (blind : ∀ rows : Rows, view { rows with processed := [] } = view rows)
    (alike : rows.Alike other) : view rows = view other := by
  rw [← blind rows, ← blind other, show _ = _ from alike]

theorem Database.transact_rewrites {other : ID} {p : Tx Unit} {a : Action}
    (own : orderID = other → Rewrites db orderID a (p.inTx (db.focus other))) :
    ∃ rows, Rewrites db orderID a rows ∧ ((db.transact other p).tables orderID).Alike rows := by
  by_cases same : orderID = other
  · refine ⟨_, own same, ?_⟩
    subst same
    simp only [Rows.Alike, transact, store, Function.update_self]
  · refine ⟨_, .stay a, ?_⟩
    simp only [Rows.Alike, transact, store, focus, Function.update_of_ne same]

/-- **Inversion.** Every action is one of the rewritings of the rows of every order. -/
theorem exec_rewrites (db : Database) (orderID : ID) (a : Action) :
    ∃ rows, Rewrites db orderID a rows ∧ ((db.exec a).tables orderID).Alike rows := by
  cases a with
  | place id input total mint now =>
    refine transact_rewrites ?_
    rintro rfl
    obtain stays | ⟨new, places⟩ :=
      placeOrder_inTx_cases mint now (newOrder orderID input total) (db.focus orderID)
    · exact stays.symm ▸ .stay _
    · exact places ▸ .place input total mint now new
  | handle e mint now =>
    cases named : e.orderID with
    | none => exact ⟨_, .stay _, by rw [db.exec_handle_unnamed named]; rfl⟩
    | some other =>
      rw [db.exec_handle named]
      refine transact_rewrites ?_
      rintro rfl
      obtain stays | ⟨trigger, body, ord, d, reacts, moves⟩ :=
        handle_inTx_cases mint now e (db.focus orderID)
      · exact stays.symm ▸ .stay _
      · exact moves ▸ .event mint now named reacts
  | cancel other userID mint now =>
    refine transact_rewrites ?_
    rintro rfl
    obtain stays | ⟨ord, found, -, open', cancels⟩ :=
      cancelOrder_inTx_cases mint now userID (db.focus orderID)
    · exact stays.symm ▸ .stay _
    · exact cancels.symm ▸ .cancel userID mint now found open' cancels
  | tick claimed mint now =>
    by_cases claims : db.claimable now claimed = true
    · have focused := tick_focus claims mint orderID
      refine ⟨_, .sweep claimed mint now claims, ?_⟩
      rw [← focused]
      rfl
    · exact ⟨_, .stay _, by rw [Database.exec, Database.tick, if_neg claims]; rfl⟩

theorem Board.Coherent.claims (coherent : (db.board orderID).Coherent)
    (claims : db.claimable now claimed = true) (some' : claimedOf claimed orderID ≠ []) :
    ∃ ord, (db.focus orderID).order = some ord ∧ PreCommit ord.status ∧
      ∀ ov ∈ claimedOf claimed orderID, ¬ Escalates ov := by
  have coherent : (db.focus orderID).board.Coherent := coherent
  obtain ⟨ov, member⟩ := exists_mem_of_ne_nil _ some'
  obtain ⟨ord, found, early, -⟩ :=
    coherent.preCommit_of_overdue (overdue_of_claimed claims member)
  refine ⟨ord, found, early, fun ov member => ?_⟩
  obtain ⟨_, _, early, same⟩ :=
    coherent.preCommit_of_overdue (overdue_of_claimed claims member)
  exact not_escalates_of_preCommit (same ▸ early)

/-- **Inversion.** Every action is one of the moves on the board of every order. -/
theorem exec_moves (coherent : (db.board orderID).Coherent) (a : Action) :
    Moves db orderID a ((db.exec a).board orderID) := by
  obtain ⟨rows, rewrites, alike⟩ := exec_rewrites db orderID a
  have shows : (db.exec a).board orderID = rows.board := alike.congr board fun _ => rfl
  rw [shows]
  cases rewrites with
  | stay => exact .stay _
  | place input total mint now new =>
    have absent : (db.board orderID).status = none := by
      rw [← Database.focus_board, Rows.board, Rows.status, new, Option.map_none]
    rw [placed_board _ _ _ rfl]
    exact .place _ _ _ _ absent
  | event mint now named reacts =>
    rw [reacted_board reacts]
    exact .event mint now named reacts
  | cancel userID mint now found open' _ =>
    rw [withdrawn_board]
    exact .cancel _ _ _ (board_status found) (by simpa [Order.cancellable] using open')
  | sweep claimed mint now claims =>
    by_cases none' : claimedOf claimed orderID = []
    · rw [none']
      exact .stay _
    · obtain ⟨ord, found, early, calm⟩ := coherent.claims claims none'
      have coherent : (db.focus orderID).board.Coherent := coherent
      rw [foldl_swept_board _ _ _ coherent (board_status found) early calm]
      exact .fires claimed mint now (board_status found) early (mt eq_nil_of_length_eq_zero none')

theorem Reacts.event (reacts : Reacts e rows trigger body ord d) : trigger ≠ .timeout := by
  rintro rfl
  have modelled := reacts.modelled
  cases held : e.type <;> simp [triggerFor, held] at modelled

theorem Reacts.decides (reacts : Reacts e rows trigger body ord d) :
    Decides ord.status trigger (rows.board.ctx body.retriable) d :=
  next_eq_ok.mp (next_ctxOf rows _ _ _ ▸ reacts.decided)

theorem not_refused (live : isTerminal d.next = false) (reservationID paymentID : Option ID)
    (reasonCode : String) :
    ¬ Refused ord d reservationID paymentID reasonCode := by
  rintro ⟨-, denied⟩
  cases held : d.next <;>
    simp [held, isTerminal, Order.admissible, Order.withStatus] at live denied

theorem Reacts.of_decides (modelled : triggerFor e.type = some trigger)
    (parsed : e.body = some body) (named : body.orderID ≠ none) (fresh : e.id ∉ rows.processed)
    (current : rows.board.status = some status)
    (decides : Decides status trigger (rows.board.ctx body.retriable) d)
    (live : isTerminal d.next = false) : ∃ ord, Reacts e rows trigger body ord d := by
  obtain ⟨ord, found, rfl⟩ : ∃ ord, rows.order = some ord ∧ ord.status = status := by
    simpa [Rows.board, Rows.status] using current
  exact ⟨ord, modelled, parsed, named, fresh, found,
    next_ctxOf rows _ _ _ ▸ next_eq_ok.mpr decides, not_refused live _ _ _⟩

theorem Reacts.exec_board (reacts : Reacts e (db.focus orderID) trigger body ord d)
    (named : e.orderID = some orderID) (mint : Mint) (now : Time) :
    (db.exec (.handle e mint now)).board orderID = (db.board orderID).after trigger d := by
  rw [db.exec_handle named, transact, board_store_self,
    Program.inTx_of_ok (reacts.run mint now), reacted_board reacts]
  rfl

theorem Board.Coherent.timeouts {board : Board} (coherent : board.Coherent)
    (current : board.status = some status) (early : PreCommit status) {fires : Nat}
    (some' : fires ≠ 0) : (Board.timeout^[fires] board).Coherent ∧
      (Board.timeout^[fires] board).status = some .compensating := by
  induction fires generalizing board status with
  | zero => exact (some' rfl).elim
  | succ fires ih =>
    obtain ⟨kept, compensating⟩ := coherent.timeout current early
    by_cases last : fires = 0
    · subst last
      exact ⟨kept, compensating⟩
    · exact ih kept compensating (.inr (.inr rfl)) last

/-- **Coherence.** In every run the timers of every order are coherent. -/
theorem coherent_of_reachable (reached : service.Reachable db) (orderID : ID) :
    (db.board orderID).Coherent := by
  induction reached with
  | init initial =>
    subst initial
    exact fun _ => rfl
  | @step before after a _ taken ih =>
    obtain rfl : after = before.exec a := taken
    have moves := exec_moves ih a
    generalize (before.exec a).board orderID = board at moves ⊢
    cases moves with
    | stay => exact ih
    | place _ _ _ _ new => exact ih.place new
    | event mint now named reacts =>
      exact ih.after (board_status reacts.found) reacts.event reacts.decides
    | cancel _ _ _ current early => exact ih.cancel current early
    | fires claimed mint now current early some' => exact (ih.timeouts current early some').1

end Souq.Orders
