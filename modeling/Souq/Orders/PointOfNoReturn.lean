import Souq.Lib.ReadCommitted
import Souq.Orders.Database

/-!
# The point of no return under concurrency

Transactions of one order overlap statement by statement. A decision is taken
from an unlocked read, and only a change of status checks the version. What makes
this safe is that the states split into two sides no transaction leaves: a
command is either sent together with the checked change into its side, or by a
transaction that has read a status on that side.
-/

namespace Souq.Orders

open Saga Transact Transition List Config Write Option Program

/-- The order is being undone. -/
def rolledBack (status : State) : Bool := status == .compensating || status == .cancelled

def Permits (status : State) (step : Step) : Prop :=
  (step = .commit → rollbackForbidden status = true) ∧
    (step = .release ∨ step = .void → rolledBack status = true)

/-- A status change does not leave its side. -/
def Onward (status next : State) : Prop :=
  (rollbackForbidden status = true → rollbackForbidden next = true) ∧
    (rolledBack status = true → rolledBack next = true)

theorem Onward.refl (status : State) : Onward status status := ⟨id, id⟩

theorem Onward.trans {first second third : State} (one : Onward first second)
    (two : Onward second third) : Onward first third :=
  ⟨two.1 ∘ one.1, two.2 ∘ one.2⟩

theorem Permits.onward {status next : State} {step : Step} (permits : Permits status step)
    (onward : Onward status next) : Permits next step :=
  ⟨fun commit => onward.1 (permits.1 commit), fun rollback => onward.2 (permits.2 rollback)⟩

/-- Every decision stays on its side and sends commands of the side it leads to. -/
theorem permits_of_decides {status : State} {trigger : Trigger} {c : Ctx} {d : Decision}
    (decided : Decides status trigger c d) :
    Onward status d.next ∧ ∀ step ∈ d.emit, Permits d.next step := by
  cases decided with
  | released | neverReserved | voided | neverAuthorized =>
    rcases settleOrWait_cases _ with ⟨-, -, settled⟩ | ⟨-, settled⟩ <;> rw [settled] <;>
      exact ⟨⟨nofun, fun _ => rfl⟩, nofun⟩
  | compensationTimeout =>
    refine ⟨Onward.refl _, fun step sent => ?_⟩
    simp only [compensationsFor, mem_append] at sent
    refine ⟨?_, fun _ => rfl⟩
    rintro rfl
    grind
  | _ => simp [Onward, Permits, rollbackForbidden, rolledBack]

/-- What a transaction has read. -/
structure Seen where
  status : State
  version : Nat

def Order.seen (ord : Order) : Seen := ⟨ord.status, ord.version⟩

/-- The order row has moved on from what was seen: the version grows with every
status change and no change leaves its side. -/
def Later (seen : Seen) (row : Option Order) : Prop :=
  ∃ ord, row = some ord ∧ seen.version ≤ ord.version ∧
    (seen.version = ord.version → seen.status = ord.status) ∧ Onward seen.status ord.status

theorem Order.later (ord : Order) : Later ord.seen (some ord) :=
  ⟨ord, rfl, Nat.le_refl _, fun _ => rfl, Onward.refl _⟩

theorem Later.trans {seen : Seen} {row : Option Order} {ord : Order} (first : Later seen (some ord))
    (second : Later ord.seen row) : Later seen row := by
  obtain ⟨_, ⟨⟩, grows, same, onward⟩ := first
  obtain ⟨last, rfl, grows', same', onward'⟩ := second
  refine ⟨last, rfl, Nat.le_trans grows grows', fun equal => ?_, onward.trans onward'⟩
  have middle : seen.version = ord.version := Nat.le_antisymm grows (equal ▸ grows')
  exact (same middle).trans (same' (middle.symm.trans equal))

def Advances (before after : Option Order) : Prop :=
  ∀ ord, before = some ord → Later ord.seen after

theorem Advances.refl (row : Option Order) : Advances row row := by
  rintro ord rfl
  exact ord.later

theorem Advances.trans {first second third : Option Order} (one : Advances first second)
    (two : Advances second third) : Advances first third := by
  intro ord found
  obtain ⟨middle, rfl, facts⟩ := one ord found
  exact Later.trans ⟨middle, rfl, facts⟩ (two middle rfl)

theorem Later.advances {seen : Seen} {before after : Option Order} (later : Later seen before)
    (advances : Advances before after) : Later seen after := by
  obtain ⟨middle, rfl, facts⟩ := later
  exact Later.trans ⟨middle, rfl, facts⟩ (advances middle rfl)

def Allowed (row : Option Order) (record : OutboxRecord) : Prop :=
  ∀ step, record.step = some step → step = .commit ∨ step = .release ∨ step = .void →
    ∃ ord, row = some ord ∧ Permits ord.status step

theorem Allowed.advances {before after : Option Order} {record : OutboxRecord}
    (allowed : Allowed before record) (advances : Advances before after) :
    Allowed after record := by
  intro step carries concerns
  obtain ⟨ord, found, permits⟩ := allowed step carries concerns
  obtain ⟨next, found', -, -, onward⟩ := advances ord found
  exact ⟨next, found', permits.onward onward⟩

def Sided (rows : Rows) : Prop := ∀ record ∈ rows.outbox, Allowed rows.order record

/-- What other transactions may commit: the order moves on, and stays as it is
while its row is locked. -/
def Interference (held : List Key) (before after : Rows) : Prop :=
  Advances before.order after.order ∧ (Key.order ∈ held → after.order = before.order)

/-- What a transaction knows: the order as it sees it has moved on from the
committed one and from what it has read, it holds the lock of a row it wrote, and
the commands it wrote are on the side of the status it sees. -/
structure Knows (k : Option Seen) (rows : Rows) (writes : List Write) (held : List Key) :
    Prop where
  advances : Advances rows.order (dialect.replay writes rows).order
  locked : Key.order ∈ held ∨ ∀ ord, order ord ∉ writes
  allowed : ∀ record, outbox record ∈ writes → Allowed (dialect.replay writes rows).order record
  seen : ∀ seen, k = some seen → Later seen (dialect.replay writes rows).order

/-- A transaction that keeps to its notes and meets a postcondition. -/
abbrev Heeds {α : Type} (p : Tx α) (k : Option Seen)
    (post : Except Err α → Option Seen → Prop) : Prop := Sound (D := dialect) Sided Knows p k post

theorem replay_order_congr (writes : List Write) {rows rows' : Rows}
    (same : rows'.order = rows.order) :
    (dialect.replay writes rows').order = (dialect.replay writes rows).order := by
  induction writes generalizing rows rows' with
  | nil => exact same
  | cons w writes ih =>
    refine ih ?_
    cases w with
    | order ord => rfl
    | step | outbox | processed => exact same

theorem replay_order_of_none (writes : List Write) {rows : Rows}
    (none' : ∀ ord, order ord ∉ writes) :
    (dialect.replay writes rows).order = rows.order := by
  induction writes generalizing rows with
  | nil => rfl
  | cons w writes ih =>
    refine (ih fun ord member => none' ord (mem_cons_of_mem _ member)).trans ?_
    cases w with
    | order ord => exact (none' ord mem_cons_self).elim
    | step | outbox | processed => rfl

theorem mem_replay_outbox {writes : List Write} {rows : Rows} {record : OutboxRecord}
    (member : record ∈ (dialect.replay writes rows).outbox) :
    record ∈ rows.outbox ∨ outbox record ∈ writes := by
  induction writes generalizing rows with
  | nil => exact .inl member
  | cons w writes ih =>
    rcases ih member with old | new
    · cases w with
      | outbox other =>
        rcases mem_append.mp old with old | new
        · exact .inl old
        · rw [mem_singleton.mp new]
          exact .inr mem_cons_self
      | order | step | processed => exact .inl old
    · exact .inr (mem_cons_of_mem _ new)

/-- The notes of the orchestrator's transactions follow the protocol. -/
theorem protocol : Protocol (D := dialect) Sided Interference Knows where
  stable := by
    rintro k rows rows' writes held - knows ⟨moves, frozen⟩
    rcases knows.locked with locked | unwritten
    · have same := replay_order_congr writes (frozen locked)
      refine ⟨?_, .inl locked, ?_, ?_⟩
      · rw [same, frozen locked]
        exact knows.advances
      · rw [same]
        exact knows.allowed
      · rw [same]
        exact knows.seen
    · have before : (dialect.replay writes rows).order = rows.order :=
        replay_order_of_none writes unwritten
      have after : (dialect.replay writes rows').order = rows'.order :=
        replay_order_of_none writes unwritten
      refine ⟨after ▸ Advances.refl _, .inr unwritten, fun record member => ?_,
        fun seen known => ?_⟩
      · rw [after]
        exact (before ▸ knows.allowed record member).advances moves
      · rw [after]
        exact (before ▸ knows.seen seen known).advances moves
  commit := by
    intro k rows writes held sided knows
    refine ⟨fun record member => ?_, fun others apart => ⟨knows.advances, fun locked => ?_⟩⟩
    · rcases mem_replay_outbox member with old | new
      · exact (sided record old).advances knows.advances
      · exact knows.allowed record new
    · rcases knows.locked with held | unwritten
      · exact (apart _ locked held).elim
      · exact replay_order_of_none writes unwritten

section Statements

variable {k k' : Option Seen} {rows : Rows} {writes new : List Write} {held keys : List Key}

theorem Knows.extend (knows : Knows k rows writes held)
    (moves : Advances (dialect.replay writes rows).order
      (dialect.replay new (dialect.replay writes rows)).order)
    (locked : Key.order ∈ keys ∨ ∀ ord, order ord ∉ new)
    (allowed : ∀ record, outbox record ∈ new →
      Allowed (dialect.replay new (dialect.replay writes rows)).order record)
    (seen : ∀ seen, k' = some seen →
      Later seen (dialect.replay new (dialect.replay writes rows)).order) :
    Knows k' rows (writes ++ new) (held ++ keys) := by
  have replayed : (dialect.replay (writes ++ new) rows).order =
      (dialect.replay new (dialect.replay writes rows)).order := by rw [Dialect.replay_append]
  refine ⟨?_, ?_, fun record member => ?_, ?_⟩
  · rw [replayed]
    exact knows.advances.trans moves
  · rcases locked with taken | unwritten
    · exact .inl (mem_append_right held taken)
    · rcases knows.locked with taken | unwritten'
      · exact .inl (mem_append_left keys taken)
      · exact .inr fun ord member =>
          (mem_append.mp member).elim (unwritten' ord) (unwritten ord)
  · rw [replayed]
    rcases mem_append.mp member with old | fresh
    · exact (knows.allowed record old).advances moves
    · exact allowed record fresh
  · rw [replayed]
    exact seen

theorem Knows.quiet (knows : Knows k rows writes held) (keys : List Key)
    (order : ∀ ord, order ord ∉ new) (outbox : ∀ record, outbox record ∉ new) :
    Knows k rows (writes ++ new) (held ++ keys) := by
  have same : (dialect.replay new (dialect.replay writes rows)).order =
      (dialect.replay writes rows).order := replay_order_of_none new order
  refine knows.extend ?_ (.inr order) (fun record member => (outbox record member).elim) ?_
  · rw [same]
    exact Advances.refl _
  · rw [same]
    exact knows.seen

variable {post : Except Err Unit → Option Seen → Prop}

theorem sound_markProcessed (eventID : ID) {post : Except Err Bool → Option Seen → Prop}
    (next : ∀ fresh, post (.ok fresh) k) : Heeds (markProcessed eventID) k post := by
  refine ⟨fun rows writes held _ knows => ⟨k, knows.quiet _ ?_ ?_, next _⟩, nofun⟩
  all_goals
    intro other
    change _ ∉ (if _ then [] else [processed eventID])
    split <;> simp

theorem sound_selectSteps {post : Except Err (List (Step × StepRow)) → Option Seen → Prop}
    (next : ∀ rows, post (.ok rows) k) : Heeds selectSteps k post :=
  ⟨fun _ _ _ _ knows => ⟨k, knows.quiet _ (fun _ => nofun) (fun _ => nofun), next _⟩, nofun⟩

theorem sound_selectItems {post : Except Err (List OrderItem) → Option Seen → Prop}
    (next : ∀ items, post (.ok items) k) : Heeds selectItems k post :=
  ⟨fun _ _ _ _ knows => ⟨k, knows.quiet _ (fun _ => nofun) (fun _ => nofun), next _⟩, nofun⟩

theorem sound_claimOverdue (limit : Nat) (now : Time)
    {post : Except Err (List OverdueOrder) → Option Seen → Prop}
    (next : ∀ claimed, post (.ok claimed) k) : Heeds (claimOverdue limit now) k post :=
  ⟨fun _ _ _ _ knows => ⟨k, knows.quiet _ (fun _ => nofun) (fun _ => nofun), next _⟩,
    fun answer _ => ⟨k, fun _ _ _ knows => knows, next answer⟩⟩

/-- Reading the order is what gives a transaction its note. -/
theorem sound_selectOrder {post : Except Err (Option Order) → Option Seen → Prop}
    (absent : post (.ok none) k) (found : ∀ ord : Order, post (.ok (some ord)) (some ord.seen)) :
    Heeds selectOrder k post := by
  refine ⟨fun rows writes held _ knows => ?_, fun _ skips => by cases skips⟩
  change ∃ k', Knows k' rows (writes ++ []) (held ++ []) ∧
    post (.ok (dialect.replay writes rows).order) k'
  cases row : (dialect.replay writes rows).order with
  | none =>
    exact ⟨k, knows.quiet [] (fun _ => not_mem_nil) (fun _ => not_mem_nil), absent⟩
  | some ord =>
    refine ⟨some ord.seen, knows.extend (Advances.refl _) (.inr fun _ => not_mem_nil)
      (fun _ => nofun) ?_, found ord⟩
    rintro _ ⟨⟩
    exact row ▸ ord.later

variable (step : Step)

theorem sound_recordStepAcked (eventID : Option ID) (now : Time) (next : post (.ok ()) k) :
    Heeds (recordStepAcked step eventID now) k post :=
  ⟨fun _ _ _ _ knows => ⟨k, knows.quiet _ (by simp [dialect, Stmt.writes])
    (by simp [dialect, Stmt.writes]), next⟩, nofun⟩

theorem sound_recordStepSent (deadline : Option Time) (now : Time) (next : post (.ok ()) k) :
    Heeds (recordStepSent step deadline now) k post :=
  ⟨fun _ _ _ _ knows => ⟨k, knows.quiet _ (by simp [dialect, Stmt.writes])
    (by simp [dialect, Stmt.writes]), next⟩, nofun⟩

theorem sound_postponeStep (deadline : Time) (next : post (.ok ()) k) :
    Heeds (postponeStep step deadline) k post := by
  refine ⟨fun rows writes held _ knows => ⟨k, knows.quiet _ ?_ ?_, next⟩, nofun⟩
  all_goals simp [dialect, Stmt.writes]

/-- The update succeeds on the version read, so it changes the status that was
read. -/
theorem sound_writeStatus {ord : Order} {next : State} (fields : StatusFields)
    {post : Except Err UpdateAnswer → Option Seen → Prop} (onward : Onward ord.status next)
    (updated : post (.ok .updated) (some ⟨next, ord.version + 1⟩))
    (stale : post (.ok .stale) (some ord.seen)) (rejected : post (.ok .rejected) (some ord.seen)) :
    Heeds (writeStatus ord.version next fields) (some ord.seen) post := by
  refine ⟨fun rows writes held _ knows => ?_, nofun⟩
  change ∃ k', Knows k' rows
    (writes ++ Stmt.writes (.updateStatus ord.version next fields) (dialect.replay writes rows))
    (held ++ Stmt.keys (.updateStatus ord.version next fields) (dialect.replay writes rows)) ∧
    post (.ok (Stmt.answer (.updateStatus ord.version next fields) (dialect.replay writes rows))) k'
  simp only [Stmt.answer, Stmt.writes, Stmt.keys]
  cases matched : (dialect.replay writes rows).matching ord.version with
  | none =>
    exact ⟨some ord.seen, knows.quiet _ (fun _ => not_mem_nil) (fun _ => not_mem_nil), stale⟩
  | some row =>
    by_cases admitted : (row.withStatus next fields).admissible = true
    · obtain ⟨found, version⟩ := filter_eq_some_iff.mp matched
      obtain ⟨_, found', -, same, -⟩ := knows.seen _ rfl
      obtain rfl : row = _ := some.inj (found.symm.trans found')
      have status : ord.status = row.status := same (beq_iff_eq.mp version).symm
      simp only [admitted, ↓reduceIte, Option.isSome_some]
      refine ⟨some ⟨next, ord.version + 1⟩, knows.extend ?_ (.inl mem_cons_self)
        (by simp) ?_, updated⟩
      · rw [found]
        rintro _ ⟨⟩
        have moved : Onward row.status next := status ▸ onward
        exact ⟨_, rfl, Nat.le_succ _, fun equal => absurd equal (Nat.ne_of_lt (Nat.lt_succ_self _)),
          moved⟩
      · rintro _ ⟨⟩
        refine ⟨_, rfl, ?_, fun _ => rfl, Onward.refl _⟩
        rw [← beq_iff_eq.mp version]
        exact Nat.le_refl _
    · simp only [admitted, Bool.false_eq_true, ↓reduceIte]
      exact ⟨some ord.seen, knows.quiet _ (fun _ => not_mem_nil) (fun _ => not_mem_nil), rejected⟩

theorem sound_updateStatus {ord : Order} {next : State} (fields : StatusFields)
    (onward : Onward ord.status next) (updated : post (.ok ()) (some ⟨next, ord.version + 1⟩))
    (fails : ∀ err, post (.error err) (some ord.seen)) :
    Heeds (updateStatus ord next fields) (some ord.seen) post := by
  have written : Heeds (writeStatus ord.version next fields)
      (some ord.seen) fun r k => r = .ok .updated ∧ k = some ⟨next, ord.version + 1⟩ ∨
        r ≠ .ok .updated ∧ k = some ord.seen :=
    sound_writeStatus fields onward (.inl ⟨rfl, rfl⟩) (.inr ⟨by simp, rfl⟩) (.inr ⟨by simp, rfl⟩)
  refine written.bind ?_ ?_
  · rintro answer k (⟨same, rfl⟩ | ⟨different, rfl⟩)
    · cases same
      exact updated
    · cases answer with
      | updated => exact (different rfl).elim
      | stale => exact fails _
      | rejected => exact fails _
  · rintro err k (⟨same, -⟩ | ⟨-, rfl⟩)
    · cases same
    · exact fails err

theorem sound_fillIDs (reservationID paymentID : ID) (next : post (.ok ()) k) :
    Heeds (fillIDs reservationID paymentID) k post := by
  refine ⟨fun rows writes held _ knows => ⟨k, ?_, next⟩, nofun⟩
  change Knows k rows
    (writes ++ Stmt.writes (.fillIDs reservationID paymentID) (dialect.replay writes rows))
    (held ++ Stmt.keys (.fillIDs reservationID paymentID) (dialect.replay writes rows))
  simp only [Stmt.writes, Stmt.keys]
  cases found : (dialect.replay writes rows).order with
  | none => exact knows.quiet _ (fun _ => not_mem_nil) (fun _ => not_mem_nil)
  | some ord =>
    have same : Advances (some ord) (some (ord.withIDs reservationID paymentID)) := by
      rintro _ ⟨⟩
      exact (ord.withIDs reservationID paymentID).later
    simp only [map_some, toList_some, isSome_some, ↓reduceIte]
    refine knows.extend (found ▸ same) (.inl mem_cons_self) (by simp) ?_
    intro seen known
    exact (found ▸ knows.seen seen known : Later seen (some ord)).advances same

theorem sound_enqueue (record : OutboxRecord)
    (allowed : ∀ row, (∀ seen, k = some seen → Later seen row) → Allowed row record)
    (next : post (.ok ()) k) : Heeds (enqueue record) k post := by
  refine ⟨fun rows writes held _ knows => ⟨k, ?_, next⟩, nofun⟩
  change Knows k rows (writes ++ Stmt.writes (.enqueue record) (dialect.replay writes rows))
    (held ++ Stmt.keys (.enqueue record) (dialect.replay writes rows))
  simp only [Stmt.writes]
  split
  · exact knows.quiet _ (fun _ => not_mem_nil) (fun _ => not_mem_nil)
  · refine knows.extend (Advances.refl _) (.inr (by simp)) ?_ knows.seen
    intro other member
    obtain rfl : other = record := by simpa using member
    exact allowed _ knows.seen

theorem sound_insertOrder (ord : Order) {post : Except Err Bool → Option Seen → Prop}
    (inserted : post (.ok true) (some ord.seen)) (taken : post (.ok false) k) :
    Heeds (insertOrder ord) k post := by
  refine ⟨fun rows writes held _ knows => ?_, nofun⟩
  change ∃ k', Knows k' rows (writes ++ (if (dialect.replay writes rows).order.isNone then
      [order ord] else [])) (held ++ [Key.order]) ∧
    post (.ok (dialect.replay writes rows).order.isNone) k'
  cases found : (dialect.replay writes rows).order with
  | none =>
    refine ⟨some ord.seen, knows.extend ?_ (.inl mem_cons_self) (by simp) ?_, inserted⟩
    · rw [found]
      intro other absent
      cases absent
    · rintro _ ⟨⟩
      exact ord.later
  | some other =>
    exact ⟨k, knows.quiet _ (fun _ => not_mem_nil) (fun _ => not_mem_nil), taken⟩

end Statements

section Transactions

variable {k : Option Seen} {post : Except Err Unit → Option Seen → Prop}

theorem sound_getOrder {post : Except Err (Option Order) → Option Seen → Prop}
    (absent : post (.ok none) k) (found : ∀ ord : Order, post (.ok (some ord)) (some ord.seen)) :
    Heeds getOrder k post := by
  have read : Heeds selectOrder k fun r k' => match r with
      | .ok none => k' = k
      | .ok (some ord) => k' = some ord.seen
      | .error _ => False := sound_selectOrder rfl fun _ => rfl
  refine read.bind ?_ fun _ _ => False.elim
  rintro (_ | ord) k' rfl
  · exact absent
  · have lines : Heeds selectItems (some ord.seen) fun r k' =>
        k' = some ord.seen ∧ ∀ err, r ≠ .error err := sound_selectItems fun _ => ⟨rfl, nofun⟩
    refine lines.bind ?_ fun err _ failed => (failed.2 err rfl).elim
    rintro items k' ⟨rfl, -⟩
    exact found { ord with items := items }

theorem sound_buildCtx (retriable : Bool) {post : Except Err Ctx → Option Seen → Prop}
    (next : ∀ c, post (.ok c) k) : Heeds (buildCtx retriable) k post := by
  have read : Heeds selectSteps k fun r k' =>
      k' = k ∧ ∀ err, r ≠ .error err := sound_selectSteps fun _ => ⟨rfl, nofun⟩
  refine read.bind ?_ fun err _ failed => (failed.2 err rfl).elim
  rintro rows k' ⟨rfl, -⟩
  exact next _

variable (mint : Mint) (now : Time) (ord : Order)

theorem sound_acknowledge (trigger : Trigger) (eventID : Option ID) (next : post (.ok ()) k) :
    Heeds (acknowledge now trigger eventID) k post := by
  unfold acknowledge
  cases stepAckedBy trigger with
  | none => exact next
  | some step => exact sound_recordStepAcked step eventID now next

theorem sound_emitCommand (deadline : Duration) {seen : Seen} {step : Step}
    (permits : Permits seen.status step) (next : post (.ok ()) (some seen)) :
    Heeds (emitCommand mint now ord deadline step) (some seen) post := by
  have steady : ∀ {p : Tx Unit}, (∀ {post : Except Err Unit → Option Seen → Prop},
      post (.ok ()) (some seen) → Heeds p (some seen) post) →
      ∀ {q : Tx Unit}, Heeds q (some seen) post → Heeds (p >>= fun _ => q) (some seen) post := by
    intro p first q second
    have done : Heeds p (some seen) fun r k' =>
        k' = some seen ∧ ∀ err, r ≠ .error err := first ⟨rfl, nofun⟩
    refine done.bind ?_ fun err _ failed => (failed.2 err rfl).elim
    rintro _ k' ⟨rfl, -⟩
    exact second
  refine steady (sound_fillIDs _ _) (steady (sound_enqueue _ ?_) (sound_recordStepSent _ _ _ next))
  intro row later other carries _
  obtain ⟨current, found, -, -, onward⟩ := later seen rfl
  obtain rfl : step = other := by
    simpa [OutboxRecord.step, payload_step] using carries
  exact ⟨current, found, permits.onward onward⟩

theorem sound_emitCommands (deadline : Duration) {seen : Seen} {emit : List Step}
    (permits : ∀ step ∈ emit, Permits seen.status step) :
    Heeds (forEach (emitCommand mint now ord deadline) emit)
      (some seen) fun _ k' => k' = some seen := by
  refine Sound.forEach (fun step member k' held => ?_) rfl
  subst held
  exact sound_emitCommand mint now ord deadline (permits step member) rfl

theorem sound_emitStateEvents (d : Decision) (reservationID paymentID : Option ID)
    (next : post (.ok ()) k) :
    Heeds (emitStateEvents mint ord d reservationID paymentID) k post := by
  have silent : ∀ (e : OrderEvent) (row : Option Order), Allowed row ⟨mint.eventID, .event e⟩ :=
    fun _ _ _ carries => by cases carries
  unfold emitStateEvents
  cases d.next with
  | confirmed | cancelled => exact sound_enqueue _ (fun row _ => silent _ row) next
  | _ => exact next

theorem sound_apply {ord : Order} {trigger : Trigger} {c : Ctx} {d : Decision}
    (decided : Decides ord.status trigger c d) (eventID reservationID paymentID : Option ID)
    (reasonCode : String) : Heeds
      (apply mint now ord trigger d eventID reservationID paymentID reasonCode) (some ord.seen)
      fun _ _ => True := by
  obtain ⟨onward, permits⟩ := permits_of_decides decided
  have closes : Heeds (acknowledge now trigger eventID) (some ord.seen)
      fun _ k' => k' = some ord.seen := sound_acknowledge now trigger eventID rfl
  refine closes.bind ?_ fun _ _ _ => trivial
  rintro _ k' rfl
  split
  · trivial
  · have rest : ∀ seen : Seen, seen.status = d.next → Heeds (do
          forEach (emitCommand mint now ord d.deadline) d.emit
          emitStateEvents mint ord d reservationID paymentID) (some seen) fun _ _ => True := by
      intro seen status
      have sends := sound_emitCommands mint now ord d.deadline
        fun step member => status ▸ permits step member
      refine sends.bind ?_ fun _ _ _ => trivial
      rintro _ k' rfl
      exact sound_emitStateEvents mint ord d reservationID paymentID trivial
    split
    case isTrue stays => exact rest ord.seen stays.symm
    case isFalse =>
      have moves : Heeds
          (updateStatus ord d.next (statusFields ord d reservationID paymentID reasonCode))
          (some ord.seen) fun r k' => r = .ok () → ∃ seen, k' = some seen ∧ seen.status = d.next :=
        sound_updateStatus _ onward (fun _ => ⟨_, rfl, rfl⟩) (fun _ => nofun)
      refine moves.bind ?_ fun _ _ _ => trivial
      intro _ k' changed
      obtain ⟨seen, rfl, status⟩ := changed rfl
      exact rest seen status

theorem sound_read {β : Type} {f : Option Order → Tx β}
    (absent : Heeds (f none) k fun _ _ => True)
    (found : ∀ ord : Order, Heeds (f (some ord)) (some ord.seen) fun _ _ => True) :
    Heeds (getOrder >>= f) k fun _ _ => True := by
  have read : Heeds getOrder k fun r k' =>
      (r = .ok none → k' = k) ∧ ∀ ord, r = .ok (some ord) → k' = some ord.seen :=
    sound_getOrder ⟨fun _ => rfl, fun _ => nofun⟩ fun ord => ⟨nofun, by rintro _ ⟨⟩; rfl⟩
  refine read.bind ?_ fun _ _ _ => trivial
  rintro (_ | ord) k' ⟨unknown, known⟩
  · obtain rfl := unknown rfl
    exact absent
  · obtain rfl := known ord rfl
    exact found ord

theorem sound_context {β : Type} (retriable : Bool) {f : Ctx → Tx β}
    (next : ∀ c, Heeds (f c) k fun _ _ => True) :
    Heeds (buildCtx retriable >>= f) k fun _ _ => True := by
  have read : Heeds (buildCtx retriable) k fun _ k' => k' = k :=
    sound_buildCtx retriable fun _ => rfl
  refine read.bind ?_ fun _ _ _ => trivial
  rintro c k' rfl
  exact next c

theorem sound_handle (e : Envelope) : Heeds (handle mint now e) k fun _ _ => True := by
  unfold handle
  cases triggerFor e.type with
  | none => trivial
  | some trigger =>
    cases e.body with
    | none => trivial
    | some body =>
      simp only
      split
      · trivial
      · have claims : Heeds (markProcessed e.id) k fun _ _ => True :=
          sound_markProcessed e.id fun _ => trivial
        refine claims.bind ?_ fun _ _ _ => trivial
        intro fresh k' _
        split
        · refine sound_read trivial fun ord => sound_context body.retriable fun c => ?_
          cases decided : Saga.next ord.status trigger c with
          | error err => trivial
          | ok d => exact sound_apply mint now (next_eq_ok.mp decided) _ _ _ _
        · trivial

theorem sound_placeOrder : Heeds (placeOrder mint now ord) k fun _ _ => True := by
  have inserts : Heeds (insertOrder ord) k fun r k' =>
      r = .ok true → k' = some ord.seen := sound_insertOrder ord (fun _ => rfl) (by simp)
  refine inserts.bind ?_ fun _ _ _ => trivial
  intro inserted k' known
  split
  · obtain rfl := known (by simp [*])
    refine (sound_emitCommands mint now ord start.deadline ?_).bind ?_ fun _ _ _ => trivial
    · intro step member
      obtain rfl : step = .reserve := by simpa [start] using member
      exact ⟨by simp, by simp⟩
    · rintro _ k' rfl
      exact sound_enqueue _ (fun row _ _ carries => by cases carries) trivial
  · trivial

theorem sound_cancelOrder (userID : ID) :
    Heeds (cancelOrder mint now userID) k fun _ _ => True := by
  refine sound_read trivial fun ord => ?_
  simp only
  split
  case isTrue => trivial
  case isFalse =>
    split
    case isTrue => trivial
    case isFalse cancellable =>
      have onward : Onward ord.status .compensating := by
        have early : ord.status = .pending ∨ ord.status = .stockReserved := by
          simpa [Order.cancellable, or_iff_not_imp_left] using cancellable
        rcases early with held | held <;> rw [held] <;> exact ⟨nofun, nofun⟩
      refine sound_context false fun c => ?_
      have moves : Heeds
          (updateStatus ord .compensating { cancellationReason := some .customerCancelled })
          (some ord.seen) fun r k' => r = .ok () → ∃ seen, k' = some seen ∧
            seen.status = .compensating :=
        sound_updateStatus _ onward (fun _ => ⟨_, rfl, rfl⟩) (fun _ => nofun)
      refine moves.bind ?_ fun _ _ _ => trivial
      intro _ k' changed
      obtain ⟨seen, rfl, status⟩ := changed rfl
      refine (sound_emitCommands mint now ord timeoutCompensating fun step member => ?_).mono
        fun _ _ _ => trivial
      have compensation : step = .release ∨ step = .void := by
        rcases mem_cons.mp member with rfl | later
        · exact .inl rfl
        · exact .inr (by split at later <;> simp_all)
      rw [status]
      exact ⟨by rcases compensation with rfl | rfl <;> nofun, fun _ => rfl⟩

theorem sound_fire (ov : OverdueOrder) : Heeds (fire mint now ov) k fun _ _ => True := by
  unfold fire
  split
  · exact sound_postponeStep _ _ trivial
  · refine sound_read trivial fun ord => sound_context false fun c => ?_
    cases decided : Saga.next ord.status .timeout c with
    | error err => trivial
    | ok d =>
      simp only
      split
      · trivial
      · exact sound_apply mint now (next_eq_ok.mp decided) _ _ _ _

theorem sound_tick (limit : Nat) (mint : Step → Mint) (now : Time) :
    Heeds (tick limit mint now) k fun _ _ => True := by
  have claims : Heeds (claimOverdue limit now) k fun _ _ => True :=
    sound_claimOverdue limit now fun _ => trivial
  refine claims.bind ?_ fun _ _ _ => trivial
  intro claimed k' _
  have each : ∀ ov ∈ claimed, ∀ k', True → Heeds
      (sweep (mint ov.step) now ov) k' fun _ _ => True := by
    intro ov _ k' _
    have fires : Heeds (fire (mint ov.step) now ov).attempt k'
        fun (_ : Except Err (Except Err Unit)) _ => True :=
      Sound.attempt (sound_fire (mint ov.step) now ov)
    refine fires.bind ?_ fun _ _ _ => trivial
    intro r k' _
    split <;> trivial
  exact Sound.forEach each trivial

end Transactions

/-- The transactions replicas of the service run about one order: placing it,
events, sweeps and cancellations, each as often as it happens. -/
inductive Offered (orderID : ID) : Tx Unit → Prop where
  | place (input : PlaceOrderInput) (total : Money) (mint : Mint) (now : Time) :
      Offered orderID (placeOrder mint now (newOrder orderID input total))
  | handle (e : Envelope) (mint : Mint) (now : Time) : Offered orderID (handle mint now e)
  | tick (limit : Nat) (mint : Step → Mint) (now : Time) : Offered orderID (tick limit mint now)
  | cancel (userID : ID) (mint : Mint) (now : Time) : Offered orderID (cancelOrder mint now userID)

/-- Transactions on one order, side by side. -/
def replicas (ι : Type) [DecidableEq ι] (orderID : ID) : System (Config dialect ι Err Unit) ι :=
  concurrent {} (Offered orderID)

theorem sound_of_offered {orderID : ID} {p : Tx Unit} (offered : Offered orderID p) :
    Heeds p none fun _ _ => True := by
  cases offered with
  | place input total mint now => exact sound_placeOrder mint now _
  | handle e mint now => exact sound_handle mint now e
  | tick limit mint now => exact sound_tick limit mint now
  | cancel userID mint now => exact sound_cancelOrder mint now userID

theorem knows_nothing (rows : Rows) : Knows none rows [] [] where
  advances := Advances.refl _
  locked := .inr fun _ => not_mem_nil
  allowed := fun _ => nofun
  seen := fun _ => nofun

theorem apart_of_permits {status : State} {step : Step} (commit : Permits status .commit)
    (rollback : Permits status step) (compensation : step = .release ∨ step = .void) : False := by
  have forward := commit.1 rfl
  have back := rollback.2 compensation
  cases status <;> simp [rollbackForbidden, rolledBack] at forward back

/-- **Point of no return.** However the transactions about one order interleave,
its outbox never holds both a `COMMIT` and a `RELEASE` or a `VOID`. -/
theorem no_commit_with_compensation {ι : Type} [DecidableEq ι] {orderID : ID}
    {c : Config dialect ι Err Unit} (reached : (replicas ι orderID).Reachable c) :
    ¬ ((∃ record ∈ c.db.outbox, record.step = some .commit) ∧
      ∃ record ∈ c.db.outbox, record.step = some .release ∨ record.step = some .void) := by
  have good := protocol.good (fun _ member => by cases member)
    (fun p offered => ⟨none, fun rows _ => knows_nothing rows, sound_of_offered offered⟩) reached
  rintro ⟨⟨commit, member, carries⟩, record, member', rollback⟩
  obtain ⟨ord, found, permits⟩ := good.inv commit member .commit carries (.inl rfl)
  have compensates : ∃ step, record.step = some step ∧ (step = .release ∨ step = .void) :=
    rollback.elim (fun carries => ⟨_, carries, .inl rfl⟩) fun carries => ⟨_, carries, .inr rfl⟩
  obtain ⟨step, carries', compensation⟩ := compensates
  obtain ⟨ord', found', permits'⟩ := good.inv record member' step carries' (.inr compensation)
  obtain rfl : ord = ord' := some.inj (found.symm.trans found')
  exact apart_of_permits permits permits' compensation

def placedRows : Rows :=
  inTx (D := dialect) (placeOrder (mintFrom 100) 0 (newOrder 1 singleLine ⟨1000, "USD"⟩)) {}

def reservedRows : Rows :=
  inTx (D := dialect) (handle (mintFrom 1000) 1 (eventOn 1 .inventoryReserved false)) placedRows

def paidRows : Rows :=
  inTx (D := dialect) (handle (mintFrom 2000) 2 (eventOn 2 .paymentAuthorized false)) reservedRows

theorem paidRows_reachable : (replicas Nat 1).Reachable (idle paidRows) := by
  have placed : (replicas Nat 1).Reachable (idle placedRows) :=
    reachable_inTx 1 (Offered.place ..) (.init rfl)
  have reserved : (replicas Nat 1).Reachable (idle reservedRows) :=
    reachable_inTx 2 (Offered.handle ..) placed
  exact reachable_inTx 3 (Offered.handle ..) reserved

theorem paid_not_compensated :
    (∃ record ∈ paidRows.outbox, record.step = some .commit) ∧
      ¬ ∃ record ∈ paidRows.outbox, record.step = some .release ∨ record.step = some .void := by
  have commits : ∃ record ∈ paidRows.outbox, record.step = some .commit := by decide
  exact ⟨commits, fun compensates =>
    no_commit_with_compensation paidRows_reachable ⟨commits, compensates⟩⟩

/-- **No lost update.** However the transactions about one order interleave, its row never
goes away and its version never goes down, the same version is the same status, and neither
side of the point of no return is left. -/
theorem order_advances {ι : Type} [DecidableEq ι] {orderID : ID} {c c' : Config dialect ι Err Unit}
    (reached : (replicas ι orderID).Reachable c) (later : (replicas ι orderID).Leads c c')
    {ord : Order} (placed : c.db.order = some ord) :
    ∃ ord', c'.db.order = some ord' ∧ ord.version ≤ ord'.version ∧
      (ord.version = ord'.version → ord.status = ord'.status) ∧
      (rollbackForbidden ord.status = true → rollbackForbidden ord'.status = true) ∧
      (rolledBack ord.status = true → rolledBack ord'.status = true) := by
  have commits := protocol.leads (fun _ member => by cases member)
    (fun p offered => ⟨none, fun rows _ => knows_nothing rows, sound_of_offered offered⟩)
    reached later
  generalize c.db = rows, c'.db = rows' at commits placed ⊢
  have advances : Advances rows.order rows'.order := by
    induction commits with
    | refl => exact Advances.refl _
    | tail _ committed ih => exact ih.trans committed.1
  exact advances ord placed

theorem placed_advances : ∃ ord ord', placedRows.order = some ord ∧ paidRows.order = some ord' ∧
    ord.version ≤ ord'.version := by
  have placed : (replicas Nat 1).Reachable (idle placedRows) :=
    reachable_inTx 1 (Offered.place ..) (.init rfl)
  have reserves : (replicas Nat 1).Leads (idle placedRows) (idle reservedRows) :=
    leads_inTx (D := dialect) placedRows 2 (Offered.handle ..)
  have pays : (replicas Nat 1).Leads (idle reservedRows) (idle paidRows) :=
    leads_inTx (D := dialect) reservedRows 3 (Offered.handle ..)
  obtain ⟨ord, found⟩ : ∃ ord, placedRows.order = some ord := ⟨_, rfl⟩
  obtain ⟨ord', found', grows, -⟩ := order_advances placed (reserves.trans pays) found
  exact ⟨ord, ord', found, found', grows⟩

end Souq.Orders
