import Souq.Lib.Partition
import Souq.Lib.Transition
import Souq.Payments.Service

/-!
# The command consumer of payment-service

The consume loop of `payment-service/cmd/server` and its `handleCommand`. A message
that is malformed or not for this service is skipped, and a command is handled: a
first transaction, a call to the provider and a second transaction. When the handler
returns an error the loop goes on to the next message without committing the offset.

An offset commit covers every message before it, those whose handlers returned an
error included. `handled_throughout_iff` says exactly when a run does not pass over
one.
-/

namespace Souq.Payments

open Transact Transition List

/-- The payload of a command. An empty client key is not there. -/
structure Body where
  orderID : ID
  paymentID : ID
  userID : ID := 0
  idempotencyKey : Option ID := none
  amount : Money := ⟨0, ""⟩
  paymentMethodToken : String := ""

/-- The envelope of a message. A payload that is not JSON comes as the parser's
complaint. -/
structure Envelope where
  id : Option ID
  type : String
  data : Except String Body

/-- A message on the command topic: what its value parses to. -/
structure Message where
  value : Except String Envelope

/-- The command types this service handles. -/
def accepted (type : String) : Bool :=
  type == "souq.payment.authorize.v1" || type == "souq.payment.capture.v1" ||
    type == "souq.payment.void.v1"

def Body.key (body : Body) : ID := body.idempotencyKey.getD body.orderID

def Body.command (body : Body) (type : String) : Command :=
  if type = "souq.payment.authorize.v1" then
    .authorize ⟨body.orderID, body.paymentID, body.userID, body.amount, body.paymentMethodToken,
      body.key⟩
  else if type = "souq.payment.capture.v1" then .capture body.orderID body.paymentID body.key
  else .void body.orderID body.paymentID body.key

/-- Why a message is skipped. -/
inductive Skipped where
  | malformed (err : String)
  | filtered
  | noID
  | unparseable (err : String)

def Message.route (m : Message) : Except Skipped (ID × Command) :=
  match m.value with
  | .error err => .error (.malformed err)
  | .ok env =>
    if accepted env.type = false then .error .filtered
    else
      match env.id with
      | none => .error .noID
      | some id =>
        match env.data with
        | .error err => .error (.unparseable err)
        | .ok body => .ok (id, body.command env.type)

/-- The second transaction of an operation, as a transaction. -/
def Call.settle (cfg : Config) (mint : Mint) (result : Result) : Call → Tx Unit
  | .authorize cmd => authorizeFinish cfg mint cmd result
  | .capture _ paymentID pspKey providerAuthID =>
    settleCapture mint paymentID pspKey (if cfg.supportsCapture none then result
        else { outcome := .approved, providerRef := providerAuthID })
  | .void orderID paymentID pspKey => voidFinish mint orderID paymentID pspKey result

theorem Call.finish_eq_settle (cfg : Config) (mint : Mint) (result : Result) (call : Call)
    (db : Database) : call.finish cfg mint result db = (call.settle cfg mint result).inTx db := by
  cases call <;> rfl

/-- Where the consumer stands with the message it has fetched. -/
inductive Phase where
  | ready
  | routing (offset : Nat) (m : Message)
  | starting (offset : Nat) (eventID : ID) (command : Command)
  | calling (offset : Nat) (call : Call)
  | acking (offset : Nat)

def Phase.offset : Phase → Option Nat
  | .ready => none
  | .routing offset _ | .starting offset .. | .calling offset _ | .acking offset => some offset

/-- The partition, the tables and the message at hand. The offsets whose handlers
returned are remembered, with success and with an error. -/
structure Consumer where
  partition : EventLog Message := {}
  db : Database
  phase : Phase := .ready
  succeeded : List Nat := []
  failed : List Nat := []

/-- What can happen next. A step that fails reports an error and changes nothing.
Other replicas, callbacks and the reconciler write to the same tables. -/
inductive Action where
  | produce (m : Message)
  | others (after : Database)
  | fetch
  | route
  | start (mint : Mint) (fails : Bool)
  | answer (result : Result) (mint : Mint) (fails : Bool)
  | ack (fails : Bool)
  | crash

namespace Consumer

def fetch (s : Consumer) : Consumer :=
  match s.phase, s.partition.next with
  | .ready, some m =>
    { s with partition := s.partition.advance, phase := .routing s.partition.position m }
  | _, _ => s

/-- The message is skipped or taken for a command. -/
def route (s : Consumer) : Consumer :=
  match s.phase with
  | .routing offset m =>
    { s with
      phase :=
        match m.route with
        | .error _ => .acking offset
        | .ok (eventID, command) => .starting offset eventID command }
  | _ => s

/-- The handler returns an error, and the loop goes on to the next message. -/
def giveUp (s : Consumer) (offset : Nat) : Consumer :=
  { s with failed := offset :: s.failed, phase := .ready }

def succeed (s : Consumer) (offset : Nat) (after : Database) : Consumer :=
  { s with db := after, succeeded := offset :: s.succeeded, phase := .acking offset }

def start (cfg : Config) (s : Consumer) (mint : Mint) (fails : Bool) : Consumer :=
  match s.phase with
  | .starting offset eventID command =>
    if fails then s.giveUp offset
    else
      match (command.firstTx cfg mint eventID).run s.db with
      | (.error _, _) => s.giveUp offset
      | (.ok none, after) => s.succeed offset after
      | (.ok (some call), after) => { s with db := after, phase := .calling offset call }
  | _ => s

/-- The provider answers, and the second transaction of the handler runs. -/
def answer (cfg : Config) (s : Consumer) (result : Result) (mint : Mint) (fails : Bool) :
    Consumer :=
  match s.phase with
  | .calling offset call =>
    if fails then s.giveUp offset
    else
      match (call.settle cfg mint result).run s.db with
      | (.error _, _) => s.giveUp offset
      | (.ok _, after) => s.succeed offset after
  | _ => s

def ack (s : Consumer) (fails : Bool) : Consumer :=
  match s.phase with
  | .acking offset =>
    { s with
      partition := if fails then s.partition else s.partition.commit offset
      phase := .ready }
  | _ => s

/-- The consumer's next step. -/
def step (cfg : Config) (s : Consumer) : Action → Consumer
  | .produce m => { s with partition := s.partition.produce m }
  | .others after => { s with db := after }
  | .fetch => s.fetch
  | .route => s.route
  | .start mint fails => s.start cfg mint fails
  | .answer result mint fails => s.answer cfg result mint fails
  | .ack fails => s.ack fails
  | .crash => { s with partition := s.partition.restart, phase := .ready }

/-- Every acknowledged message was skipped, or its handler returned success. -/
def Handled (s : Consumer) : Prop :=
  ∀ offset m, offset < s.partition.committed → s.partition.log[offset]? = some m →
    (∃ why, m.route = .error why) ∨ offset ∈ s.succeeded

/-- An offset is committed at or after a message whose handler returned an error and
never returned success. -/
def passesOver (s : Consumer) : Action → Bool
  | .ack false =>
    match s.phase with
    | .acking offset => s.failed.any fun k => k ≤ offset && !s.succeeded.contains k
    | _ => false
  | _ => false

end Consumer

def consuming (cfg : Config) (start : Database) : System Consumer Action :=
  .ofFunction { db := start } (Consumer.step cfg)

namespace Consumer

variable {cfg : Config} {s : Consumer}

/-- A message was skipped, or its handler returned success. -/
def Done (s : Consumer) (offset : Nat) (m : Message) : Prop :=
  (∃ why, m.route = .error why) ∨ offset ∈ s.succeeded

/-- What is known about the message at hand. -/
def Knows (s : Consumer) : Phase → Prop
  | .ready => True
  | .routing offset m => s.partition.Holds offset m
  | .starting offset _ _ | .calling offset _ =>
    ∃ m routed, s.partition.Holds offset m ∧ m.route = .ok routed
  | .acking offset => ∃ m, s.partition.Holds offset m ∧ s.Done offset m

/-- The account of the consumer: what was read is at hand, or its handler returned. -/
structure Accounts (s : Consumer) : Prop where
  reads : s.partition.Reads (fun k m => s.Done k m ∨ k ∈ s.failed) fun k =>
    s.phase.offset = some k
  routed : ∀ offset ∈ s.failed, ∃ m routed, s.partition.log[offset]? = some m ∧ m.route = .ok routed
  knows : s.Knows s.phase

theorem Accounts.next {s' : Consumer} (accounts : s.Accounts)
    (partition : s'.partition = s.partition) (hand : s'.phase.offset = s.phase.offset)
    (succeeded : s'.succeeded = s.succeeded) (failed : s'.failed = s.failed)
    (knows : s'.Knows s'.phase) : s'.Accounts := by
  have same : s'.Done = s.Done := by
    funext offset m
    rw [Done, Done, succeeded]
  refine ⟨?_, ?_, knows⟩
  · rw [partition, same, failed, hand]
    exact accounts.reads
  · rw [partition, failed]
    exact accounts.routed

theorem Accounts.produce (accounts : s.Accounts) (m : Message) :
    (s.step cfg (.produce m)).Accounts := by
  refine ⟨accounts.reads.produce m, fun offset member => ?_, ?_⟩
  · obtain ⟨other, routed, found, route⟩ := accounts.routed offset member
    exact ⟨other, routed, EventLog.getElem?_produce found m, route⟩
  · have still : ∀ phase, s.Knows phase → (s.step cfg (.produce m)).Knows phase := by
      intro phase knows
      cases phase with
      | ready => trivial
      | routing offset other => exact knows.produce m
      | starting | calling =>
        obtain ⟨other, routed, held, route⟩ := knows
        exact ⟨other, routed, held.produce m, route⟩
      | acking offset =>
        obtain ⟨other, held, done⟩ := knows
        exact ⟨other, held.produce m, done⟩
    exact still s.phase accounts.knows

theorem Accounts.fetch (accounts : s.Accounts) : s.fetch.Accounts := by
  unfold Consumer.fetch
  split
  · rename_i m ready found
    refine ⟨accounts.reads.advance found (fun k behind => ?_) rfl, accounts.routed, rfl, found⟩
    rw [ready] at behind
    cases behind
  · exact accounts

theorem Accounts.route (accounts : s.Accounts) : s.route.Accounts := by
  unfold Consumer.route
  split
  · rename_i offset m routing
    have knows := accounts.knows
    rw [routing] at knows
    cases routed : m.route with
    | error why =>
      exact accounts.next rfl (by rw [routing]; rfl) rfl rfl ⟨m, knows, .inl ⟨why, routed⟩⟩
    | ok pair => exact accounts.next rfl (by rw [routing]; rfl) rfl rfl ⟨m, pair, knows, routed⟩
  · exact accounts

theorem Accounts.giveUp (accounts : s.Accounts) {offset : Nat}
    (hand : s.phase.offset = some offset) {m : Message} {pair : ID × Command}
    (held : s.partition.Holds offset m) (routed : m.route = .ok pair) :
      (s.giveUp offset).Accounts := by
  refine ⟨?_, ?_, trivial⟩
  · refine accounts.reads.mono ?_ fun k _ _ _ _ behind => .inl ?_
    · exact fun k other => Or.imp_right (mem_cons_of_mem _)
    · cases hand.symm.trans behind
      exact .inr mem_cons_self
  · rintro k member
    rcases mem_cons.mp member with rfl | old
    · exact ⟨m, pair, held.2, routed⟩
    · exact accounts.routed k old

theorem Accounts.succeed (accounts : s.Accounts) {offset : Nat}
    (hand : s.phase.offset = some offset) {m : Message} (held : s.partition.Holds offset m)
    (after : Database) : (s.succeed offset after).Accounts := by
  refine ⟨?_, accounts.routed, m, held, .inr mem_cons_self⟩
  refine accounts.reads.mono ?_ fun k _ _ _ _ behind => .inr (hand.symm.trans behind)
  exact fun k other => Or.imp_left (Or.imp_right (mem_cons_of_mem _))

theorem Accounts.start (accounts : s.Accounts) (mint : Mint) (fails : Bool) :
    (s.start cfg mint fails).Accounts := by
  unfold Consumer.start
  split
  · rename_i offset eventID command starting
    have knows := accounts.knows
    rw [starting] at knows
    obtain ⟨m, pair, held, routed⟩ := knows
    have hand : s.phase.offset = some offset := by rw [starting]; rfl
    split
    · exact accounts.giveUp hand held routed
    · split
      · exact accounts.giveUp hand held routed
      · exact accounts.succeed hand held _
      · exact accounts.next rfl hand.symm rfl rfl ⟨m, pair, held, routed⟩
  · exact accounts

theorem Accounts.answer (accounts : s.Accounts) (result : Result) (mint : Mint) (fails : Bool) :
    (s.answer cfg result mint fails).Accounts := by
  unfold Consumer.answer
  split
  · rename_i offset call calling
    have knows := accounts.knows
    rw [calling] at knows
    obtain ⟨m, pair, held, routed⟩ := knows
    have hand : s.phase.offset = some offset := by rw [calling]; rfl
    split
    · exact accounts.giveUp hand held routed
    · split
      · exact accounts.giveUp hand held routed
      · exact accounts.succeed hand held _
  · exact accounts

theorem Accounts.ack (accounts : s.Accounts) (fails : Bool) : (s.ack fails).Accounts := by
  unfold Consumer.ack
  split
  · rename_i offset acking
    have knows := accounts.knows
    have reads := accounts.reads
    rw [acking] at knows reads
    obtain ⟨m, held, done⟩ := knows
    refine ⟨reads.ack held (.inl done) fails, ?_, trivial⟩
    cases fails with
    | true => exact accounts.routed
    | false => exact accounts.routed
  · exact accounts

theorem accounts_of_reachable {start : Database} (reached : (consuming cfg start).Reachable s) :
    s.Accounts := by
  refine reached.invariant ?_ ?_
  · rintro _ rfl
    exact ⟨.nil rfl rfl, nofun, trivial⟩
  · rintro s a _ accounts rfl
    cases a with
    | produce m => exact accounts.produce m
    | others after => exact ⟨accounts.reads, accounts.routed, accounts.knows⟩
    | fetch => exact accounts.fetch
    | route => exact accounts.route
    | start mint fails => exact accounts.start mint fails
    | answer result mint fails => exact accounts.answer result mint fails
    | ack fails => exact accounts.ack fails
    | crash => exact ⟨accounts.reads.restart, accounts.routed, trivial⟩

theorem Handled.keep {s' : Consumer} (handled : s.Handled)
    (partition : s'.partition = s.partition) (more : ∀ k ∈ s.succeeded, k ∈ s'.succeeded) :
    s'.Handled := by
  intro offset m acked found
  rw [partition] at acked found
  exact (handled offset m acked found).imp_right (more offset)

theorem Handled.produce (accounts : s.Accounts) (handled : s.Handled) (m : Message) :
    (s.step cfg (.produce m)).Handled := by
  intro offset other acked found
  refine handled offset other acked ?_
  have inside := Nat.le_trans accounts.reads.order accounts.reads.within
  exact (getElem?_append_left (Nat.lt_of_lt_of_le acked inside)).symm.trans found

theorem Handled.fetch (handled : s.Handled) : s.fetch.Handled := by
  unfold Consumer.fetch
  split
  · exact handled
  · exact handled

theorem Handled.route (handled : s.Handled) : s.route.Handled := by
  unfold Consumer.route
  split
  · exact handled
  · exact handled

theorem Handled.start (handled : s.Handled) (mint : Mint) (fails : Bool) :
    (s.start cfg mint fails).Handled := by
  unfold Consumer.start
  repeat' split
  all_goals
    first
    | exact handled
    | exact handled.keep rfl fun k => mem_cons_of_mem _

theorem Handled.answer (handled : s.Handled) (result : Result) (mint : Mint) (fails : Bool) :
    (s.answer cfg result mint fails).Handled := by
  unfold Consumer.answer
  repeat' split
  all_goals
    first
    | exact handled
    | exact handled.keep rfl fun k => mem_cons_of_mem _

theorem Accounts.handled_ack_iff (accounts : s.Accounts) (handled : s.Handled) (fails : Bool) :
    (s.ack fails).Handled ↔ s.passesOver (.ack fails) = false := by
  cases fails with
  | true =>
    refine ⟨fun _ => rfl, fun _ => ?_⟩
    unfold Consumer.ack
    split
    · exact handled
    · exact handled
  | false =>
    have knows := accounts.knows
    have reads := accounts.reads
    unfold Consumer.ack Consumer.passesOver
    split
    · rename_i offset acking
      rw [acking] at knows reads
      obtain ⟨m, held, done⟩ := knows
      refine (reads.upTo_iff handled held (.inl done)).trans ?_
      rw [any_eq_false]
      constructor
      · intro recovered k failed passed
        simp only [Bool.and_eq_true, decide_eq_true_eq, Bool.not_eq_true',
          contains_eq_mem, decide_eq_false_iff_not] at passed
        obtain ⟨other, pair, there, routed⟩ := accounts.routed k failed
        rcases recovered k other passed.1 there failed with ⟨why, skipped⟩ | succeeded
        · cases routed.symm.trans skipped
        · exact passed.2 succeeded
      · intro none' k other upTo there failed
        have passed := none' k failed
        simp only [Bool.and_eq_true, decide_eq_true_eq, Bool.not_eq_true',
          contains_eq_mem, decide_eq_false_iff_not, not_and, not_not] at passed
        exact .inr (passed upTo)
    · exact ⟨fun _ => rfl, fun _ => handled⟩

theorem Accounts.handled_step_iff (accounts : s.Accounts) (handled : s.Handled) (a : Action) :
    (s.step cfg a).Handled ↔ s.passesOver a = false := by
  cases a with
  | produce m => exact ⟨fun _ => rfl, fun _ => Handled.produce accounts handled m⟩
  | others after => exact ⟨fun _ => rfl, fun _ => handled⟩
  | fetch => exact ⟨fun _ => rfl, fun _ => handled.fetch⟩
  | route => exact ⟨fun _ => rfl, fun _ => handled.route⟩
  | start mint fails => exact ⟨fun _ => rfl, fun _ => handled.start mint fails⟩
  | answer result mint fails => exact ⟨fun _ => rfl, fun _ => handled.answer result mint fails⟩
  | ack fails => exact accounts.handled_ack_iff handled fails
  | crash => exact ⟨fun _ => rfl, fun _ => handled⟩

end Consumer

/-- **No command is passed over** exactly in the runs that never commit an offset at or
after a command whose handler returned an error and never returned success. -/
theorem handled_throughout_iff (cfg : Config) (start : Database) (actions : List Action) :
    (∀ front, front <+: actions →
        (front.foldl (Consumer.step cfg) { db := start : Consumer }).Handled) ↔
      ∀ front a, front ++ [a] <+: actions →
        (front.foldl (Consumer.step cfg) { db := start : Consumer }).passesOver a = false := by
  have sharp : ∀ s a, (consuming cfg start).Reachable s → s.Handled →
      ((s.step cfg a).Handled ↔ ¬ s.passesOver a = true) := by
    intro s a reached handled
    rw [Bool.not_eq_true]
    exact (Consumer.accounts_of_reachable reached).handled_step_iff handled a
  have iff := System.throughout_iff (P := Consumer.Handled)
      (fun _ _ acked => (Nat.not_lt_zero _ acked).elim)
    sharp actions
  simp only [Bool.not_eq_true] at iff
  exact iff

def mocked : Config where
  name := .mock
  supportsCapture := fun _ => true
  derive := fun operation orderID _ =>
    match operation with
    | .authorize => 10 * orderID
    | .capture => 10 * orderID + 1
    | .void => 10 * orderID + 2

def authorizeMessage : Message where
  value := .ok
    { id := some 501
      type := "souq.payment.authorize.v1"
      data := .ok { orderID := 20, paymentID := 30, userID := 7, amount := ⟨500, "EGP"⟩ } }

def voidMessage : Message where
  value := .ok
    { id := some 502
      type := "souq.payment.void.v1"
      data := .ok { orderID := 21, paymentID := 31 } }

/-- The database is away while the first command is handled, and back for the second. -/
def overtaken : List Action :=
  [.produce authorizeMessage, .produce voidMessage, .fetch, .route, .start ⟨601, 602⟩ true,
    .fetch, .route, .start ⟨603, 604⟩ false, .ack false]

theorem overtaken_loses_authorize : ¬ ∀ (cfg : Config) (start : Database) (s : Consumer),
    (consuming cfg start).Reachable s → s.Handled := by
  intro holds
  have handled := holds mocked {} _ (.foldl overtaken) 0 authorizeMessage (by decide +kernel) rfl
  rcases handled with ⟨why, skipped⟩ | succeeded
  · cases skipped
  · have second : (overtaken.foldl (Consumer.step mocked) { db := {} }).succeeded = [1] := by
      decide +kernel
    rw [second] at succeeded
    exact absurd succeeded (by decide)

end Souq.Payments
