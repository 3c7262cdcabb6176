import Souq.Inventory.Conservation
import Souq.Lib.Partition

/-!
# The command consumer

`Run`, `handle` and `toDLQ` of `inventory-service/internal/eventbus`. A message is
routed by its type and contents, its event is claimed in a transaction of its own,
its command is applied, a command that failed is parked on the dead-letter topic,
and the offset is committed whatever came of it. Every one of these steps can fail,
and the process can crash between any two of them.

The claim is kept when the rest is lost, so a redelivered message counts as a
duplicate. `commands_settled` is what holds when no claim, no dead letter and no
claimed command is lost.
-/

namespace Souq.Inventory

open Transact Transition List Inventory

/-- The payload of a command. A field that is not there is empty. -/
structure Body where
  orderID : Option ID := none
  reservationID : Option ID := none
  reasonCode : String := ""
  ttlSeconds : Int := 0
  items : List ReservationLine := []

/-- The envelope of a message. A payload that is not JSON comes as the parser's
complaint. -/
structure Envelope where
  id : Option ID
  type : String
  data : Except String Body

/-- A message on the command topic: its `ce_type` header and what its value parses
to. -/
structure Message where
  ceType : String := ""
  value : Except String Envelope

/-- The only command types this service handles. -/
def accepted (type : String) : Bool :=
  type == "souq.inventory.reserve.v1" || type == "souq.inventory.release.v1" ||
    type == "souq.inventory.commit.v1"

def Body.command (body : Body) (type : String) (orderID reservationID : ID) : Command :=
  if type = "souq.inventory.reserve.v1" then
    .reserve orderID reservationID body.items body.ttlSeconds
  else if type = "souq.inventory.release.v1" then .release orderID reservationID body.reasonCode
  else .commit orderID reservationID

/-- Why a message is parked. -/
inductive Reason where
  | malformed (err : String)
  | noID
  | unparseable (err : String)
  | missing
  | failed (err : Err)
  | unavailable (err : String)

/-- Where a message goes. -/
inductive Route where
  | filtered
  | park (reason : Reason)
  | claim (eventID : ID) (command : Command)

/-- Filter, parse and check a message. -/
def Message.route (m : Message) : Route :=
  if m.ceType ≠ "" ∧ accepted m.ceType = false then .filtered
  else
    match m.value with
    | .error err => .park (.malformed err)
    | .ok env =>
      if accepted env.type = false then .filtered
      else
        match env.id with
        | none => .park .noID
        | some id =>
          match env.data with
          | .error err => .park (.unparseable err)
          | .ok body =>
            match body.orderID, body.reservationID with
            | some orderID, some reservationID =>
              .claim id (body.command env.type orderID reservationID)
            | _, _ => .park .missing

/-- What comes of a command. -/
inductive Attempt where
  | applied (after : Database)
  | next (task : Task)
  | failed (err : Err)

/-- The outcome of a transaction as the outcome of an attempt. -/
def Attempt.of {α : Type} (ran : Except Err α × Database) : Attempt :=
  match ran with
  | (.ok _, after) => .applied after
  | (.error err, _) => .failed err

/-- Carry out what a handler has to do next, and report how it went. -/
def Task.attempt (mint : Mint) (now : Time) : Task → Database → Attempt
  | .apply (.reserve orderID reservationID items ttlSeconds), db =>
    match (reserve mint now reservationID orderID items (ttlOf ttlSeconds)).run db with
    | (.ok _, after) => .applied after
    | (.error (.insufficient unavailable), _) =>
      .next (.publishFailure reservationID orderID unavailable)
    | (.error err, _) => .failed err
  | .apply (.release orderID reservationID reasonCode), db =>
    .of ((release mint reservationID orderID
      (if reasonCode = "" then "SAGA_COMPENSATION" else reasonCode)).run db)
  | .apply (.commit orderID reservationID), db =>
    .of ((commit mint reservationID orderID).run db)
  | .publishFailure reservationID orderID unavailable, db =>
    .of ((Inventory.publishFailure mint reservationID orderID unavailable).run db)

def Attempt.leaves (db : Database) : Attempt → Database × Option Task
  | .applied after => (after, none)
  | .next task => (db, some task)
  | .failed _ => (db, none)

theorem Attempt.of_leaves {α : Type} (p : Tx α) (db : Database) :
    (Attempt.of (p.run db)).leaves db = (p.inTx db, none) := by
  rcases ran : p.run db with ⟨_ | a, after⟩
  · rw [Program.inTx_of_error ran]
    rfl
  · rw [Program.inTx_of_ok ran]
    rfl

theorem Task.attempt_leaves (mint : Mint) (now : Time) (task : Task) (db : Database) :
    (task.attempt mint now db).leaves db = task.run mint now db := by
  cases task with
  | publishFailure reservationID orderID unavailable => exact Attempt.of_leaves _ db
  | apply command =>
    cases command with
    | release | commit => exact Attempt.of_leaves _ db
    | reserve orderID reservationID items ttlSeconds =>
      simp only [Task.attempt, Task.run]
      rcases (reserve mint now reservationID orderID items (ttlOf ttlSeconds)).run db with
        ⟨err | result, after⟩
      · cases err <;> rfl
      · rfl

/-- Where the consumer stands with the message it has fetched. -/
inductive Phase where
  | ready
  | routing (offset : Nat) (m : Message)
  | claiming (offset : Nat) (m : Message) (eventID : ID) (command : Command)
  | working (offset : Nat) (m : Message) (eventID : ID) (task : Task)
  | parking (offset : Nat) (m : Message) (claimed : Option ID) (reason : Reason) (attempts : Nat)
  | acking (offset : Nat)

def Phase.offset : Phase → Option Nat
  | .ready => none
  | .routing offset _ | .claiming offset .. | .working offset .. | .parking offset ..
  | .acking offset => some offset

/-- The command that was claimed and is neither applied nor parked yet. -/
def Phase.claimed : Phase → Option ID
  | .working _ _ eventID _ => some eventID
  | .parking _ _ claimed _ _ => claimed
  | _ => none

/-- A message on the dead-letter topic. -/
structure Parked where
  message : Message
  reason : Reason
  attempts : Nat

/-- The partition, the tables, the dead-letter topic and the message at hand. The
commands that were applied are remembered, and the messages whose dead letter was lost. -/
structure Consumer where
  partition : EventLog Message := {}
  db : Database
  phase : Phase := .ready
  dlq : List Parked := []
  applied : List ID := []
  dropped : List Message := []

/-- What can happen next. A step that fails reports an error and changes nothing. -/
inductive Action where
  | produce (m : Message)
  | fetch
  | route
  | claim (fails : Bool)
  | work (mint : Mint) (now : Time) (fails : Option String)
  | park (fails : Bool)
  | ack (fails : Bool)
  | crash

namespace Consumer

def fetch (s : Consumer) : Consumer :=
  match s.phase, s.partition.next with
  | .ready, some m =>
    { s with partition := s.partition.advance, phase := .routing s.partition.position m }
  | _, _ => s

def route (s : Consumer) : Consumer :=
  match s.phase with
  | .routing offset m =>
    { s with
      phase :=
        match m.route with
        | .filtered => .acking offset
        | .park reason => .parking offset m none reason 0
        | .claim eventID command => .claiming offset m eventID command }
  | _ => s

/-- The inbox claim. When it fails the handler returns, and `Run` goes on. -/
def claim (s : Consumer) (fails : Bool) : Consumer :=
  match s.phase with
  | .claiming offset m eventID command =>
    if fails then { s with phase := .acking offset }
    else
      match (claimEvent eventID).run s.db with
      | (.ok true, after) =>
        { s with db := after, phase := .working offset m eventID (.apply command) }
      | (_, after) => { s with db := after, phase := .acking offset }
  | _ => s

def work (s : Consumer) (mint : Mint) (now : Time) (fails : Option String) : Consumer :=
  match s.phase with
  | .working offset m eventID task =>
    match fails with
    | some err => { s with phase := .parking offset m (some eventID) (.unavailable err) 1 }
    | none =>
      match task.attempt mint now s.db with
      | .applied after =>
        { s with db := after, applied := eventID :: s.applied, phase := .acking offset }
      | .next task => { s with phase := .working offset m eventID task }
      | .failed err => { s with phase := .parking offset m (some eventID) (.failed err) 1 }
  | _ => s

/-- The message is written to the dead-letter topic, or dropped. -/
def park (s : Consumer) (fails : Bool) : Consumer :=
  match s.phase with
  | .parking offset m _ reason attempts =>
    { s with
      dlq := if fails then s.dlq else s.dlq ++ [⟨m, reason, attempts⟩]
      dropped := if fails then s.dropped ++ [m] else s.dropped
      phase := .acking offset }
  | _ => s

def ack (s : Consumer) (fails : Bool) : Consumer :=
  match s.phase with
  | .acking offset =>
    { s with
      partition := if fails then s.partition else s.partition.commit offset
      phase := .ready }
  | _ => s

def step (s : Consumer) : Action → Consumer
  | .produce m => { s with partition := s.partition.produce m }
  | .fetch => s.fetch
  | .route => s.route
  | .claim fails => s.claim fails
  | .work mint now fails => s.work mint now fails
  | .park fails => s.park fails
  | .ack fails => s.ack fails
  | .crash => { s with partition := s.partition.restart, phase := .ready }

/-- A command was applied, or a copy of it is on the dead-letter topic. -/
def Settled (s : Consumer) (eventID : ID) : Prop :=
  eventID ∈ s.applied ∨ ∃ parked ∈ s.dlq, ∃ command, parked.message.route = .claim eventID command

/-- A message that is no command is on the dead-letter topic, or its dead letter was lost. -/
def Rejected (s : Consumer) (m : Message) : Prop :=
  (∃ parked ∈ s.dlq, parked.message = m) ∨ m ∈ s.dropped

/-- A step that loses no command: no inbox claim fails, no command is dropped
instead of parked, and the process does not crash with a command that is claimed and
neither applied nor parked. -/
def careful (s : Consumer) : Action → Bool
  | .claim true => match s.phase with | .claiming .. => false | _ => true
  | .park true => s.phase.claimed.isNone
  | .crash => s.phase.claimed.isNone
  | _ => true

end Consumer

/-- The consumer at work on a partition, with an inbox that is empty at first. -/
def consuming (start : Database) : System Consumer Action :=
  .ofFunction { db := start } Consumer.step

theorem Task.run_processed (mint : Mint) (now : Time) (task : Task) (db : Database) :
    (task.run mint now db).1.processed = db.processed := by
  cases task with
  | publishFailure reservationID orderID unavailable =>
    rcases publishFailure_inTx_cases mint reservationID orderID unavailable db with
      same | ⟨row, -, wrote⟩
    · exact congrArg Database.processed same
    · exact wrote.processed
  | apply command =>
    cases command with
    | reserve orderID reservationID items ttlSeconds =>
      rcases run_reserve_cases mint now orderID reservationID items ttlSeconds db with
        same | ⟨unavailable, short⟩ | ⟨after, lines, expiresAt, ran, -, wrote⟩
      · rw [same]
      · rw [short]
      · rw [ran]
        exact wrote.processed
    | release orderID reservationID reasonCode =>
      rcases release_inTx_cases mint reservationID orderID
        (if reasonCode = "" then "SAGA_COMPENSATION" else reasonCode) db with
        same | ⟨row, wasTombstone, -, wrote⟩
      · exact congrArg Database.processed same
      · exact wrote.processed
    | commit orderID reservationID =>
      rcases commit_inTx_cases mint reservationID orderID db with same | ⟨old, row, -, -, wrote⟩
      · exact congrArg Database.processed same
      · exact wrote.processed

theorem Task.processed_of_applied {mint : Mint} {now : Time} {task : Task} {db after : Database}
    (applied : task.attempt mint now db = .applied after) : after.processed = db.processed := by
  have ran := task.attempt_leaves mint now db
  rw [applied] at ran
  have kept := task.run_processed mint now db
  rwa [← ran] at kept

namespace Consumer

variable {s : Consumer}

/-- The consumer is through with a message. -/
def Done (s : Consumer) (m : Message) : Prop :=
  (∀ eventID command, m.route = .claim eventID command → s.Settled eventID) ∧
    ∀ reason, m.route = .park reason → s.Rejected m

/-- What one consumer has applied, parked or lost, another has too. -/
def Extends (s s' : Consumer) : Prop :=
  (∀ eventID, s.Settled eventID → s'.Settled eventID) ∧ ∀ m, s.Rejected m → s'.Rejected m

/-- The message at hand is the last one read. -/
def Holds (s : Consumer) (offset : Nat) (m : Message) : Prop :=
  offset + 1 = s.partition.position ∧ s.partition.log[offset]? = some m

/-- What is known about the message at hand. -/
def Knows (s : Consumer) : Phase → Prop
  | .ready => True
  | .routing offset m => s.Holds offset m
  | .claiming offset m eventID command => s.Holds offset m ∧ m.route = .claim eventID command
  | .working offset m eventID _ => s.Holds offset m ∧ ∃ command, m.route = .claim eventID command
  | .parking offset m (some eventID) _ _ =>
    s.Holds offset m ∧ ∃ command, m.route = .claim eventID command
  | .parking offset m none _ _ => s.Holds offset m ∧ ∃ reason, m.route = .park reason
  | .acking offset => ∃ m, s.Holds offset m ∧ s.Done m

/-- The account of the consumer: acknowledged messages are settled, and a claimed
command is settled or at hand. -/
structure Accounts (s : Consumer) : Prop where
  reads : s.partition.Reads (fun _ m => s.Done m) fun k => s.phase.offset = some k
  inbox : ∀ eventID ∈ s.db.processed, s.Settled eventID ∨ s.phase.claimed = some eventID
  knows : s.Knows s.phase

theorem Done.mono {s' : Consumer} {m : Message} (more : s.Extends s') (done : s.Done m) :
    s'.Done m :=
  ⟨fun eventID command routed => more.1 eventID (done.1 eventID command routed),
    fun reason routed => more.2 m (done.2 reason routed)⟩

theorem done_of_settled {m : Message} {eventID : ID} {command : Command}
    (routed : m.route = .claim eventID command) (settled : s.Settled eventID) : s.Done m := by
  refine ⟨fun other _ again => ?_, fun reason parked => by cases routed.symm.trans parked⟩
  cases routed.symm.trans again
  exact settled

/-- A dead letter is written, or lost. -/
theorem extends_park (s : Consumer) (fails : Bool) (parked : Parked) (phase : Phase) :
    s.Extends { s with
      dlq := if fails then s.dlq else s.dlq ++ [parked]
      dropped := if fails then s.dropped ++ [parked.message] else s.dropped
      phase := phase } := by
  have more : ∀ other ∈ s.dlq, other ∈ if fails then s.dlq else s.dlq ++ [parked] := by
    intro other member
    split
    · exact member
    · exact mem_append_left _ member
  refine ⟨fun eventID settled => ?_, fun m rejected => ?_⟩
  · rcases settled with applied | ⟨other, member, copy⟩
    · exact .inl applied
    · exact .inr ⟨other, more other member, copy⟩
  · rcases rejected with ⟨other, member, copy⟩ | lost
    · exact .inl ⟨other, more other member, copy⟩
    · refine .inr ?_
      change m ∈ if fails then s.dropped ++ [parked.message] else s.dropped
      split
      · exact mem_append_left _ lost
      · exact lost

theorem Accounts.next {s' : Consumer} (accounts : s.Accounts)
    (partition : s'.partition = s.partition) (hand : s'.phase.offset = s.phase.offset)
    (more : s.Extends s')
    (inbox : ∀ eventID ∈ s'.db.processed, s'.Settled eventID ∨ s'.phase.claimed = some eventID)
    (knows : s'.Knows s'.phase) : s'.Accounts := by
  refine ⟨?_, inbox, knows⟩
  rw [partition]
  refine accounts.reads.mono (fun _ _ => Done.mono more) fun k _ _ _ _ behind => .inr ?_
  exact hand.trans behind

theorem Accounts.produce (accounts : s.Accounts) (m : Message) :
    (s.step (.produce m)).Accounts := by
  refine ⟨accounts.reads.produce m, accounts.inbox, ?_⟩
  have holds : ∀ {offset other}, s.Holds offset other → (s.step (.produce m)).Holds offset other :=
    fun held => EventLog.Holds.produce held m
  have still : ∀ phase, s.Knows phase → (s.step (.produce m)).Knows phase := by
    intro phase knows
    cases phase with
    | ready => trivial
    | routing offset m => exact holds knows
    | claiming | working => exact ⟨holds knows.1, knows.2⟩
    | parking offset m claimed reason attempts =>
      cases claimed with
      | none => exact ⟨holds knows.1, knows.2⟩
      | some eventID => exact ⟨holds knows.1, knows.2⟩
    | acking offset =>
      obtain ⟨m, held, done⟩ := knows
      exact ⟨m, holds held, done⟩
  exact still s.phase accounts.knows

theorem Accounts.fetch (accounts : s.Accounts) : s.fetch.Accounts := by
  unfold Consumer.fetch
  split
  · rename_i m ready found
    have inbox := accounts.inbox
    rw [ready] at inbox
    refine ⟨accounts.reads.advance found (fun k behind => ?_) rfl, inbox, rfl, found⟩
    rw [ready] at behind
    cases behind
  · exact accounts

theorem Accounts.route (accounts : s.Accounts) : s.route.Accounts := by
  unfold Consumer.route
  split
  · rename_i offset m routing
    have knows := accounts.knows
    have inbox := accounts.inbox
    rw [routing] at knows inbox
    cases routed : m.route with
    | filtered =>
      refine accounts.next rfl (by rw [routing]; rfl) ⟨fun _ => id, fun _ => id⟩ inbox
        ⟨m, knows, ?_, ?_⟩
      · simp [routed]
      · simp [routed]
    | park reason =>
      exact accounts.next rfl (by rw [routing]; rfl) ⟨fun _ => id, fun _ => id⟩ inbox
        ⟨knows, reason, routed⟩
    | claim eventID command =>
      exact accounts.next rfl (by rw [routing]; rfl) ⟨fun _ => id, fun _ => id⟩ inbox
        ⟨knows, routed⟩
  · exact accounts

theorem Accounts.claim (accounts : s.Accounts) {fails : Bool}
    (careful : s.careful (.claim fails) = true) : (s.claim fails).Accounts := by
  unfold Consumer.claim
  split
  · rename_i offset m eventID command claiming
    have knows := accounts.knows
    have inbox := accounts.inbox
    rw [claiming] at knows inbox
    cases fails with
    | true => simp [Consumer.careful, claiming] at careful
    | false =>
      simp only [Bool.false_eq_true, ↓reduceIte, run_claimEvent]
      cases handled : s.db.processed.contains eventID with
      | true =>
        have settled : s.Settled eventID :=
          (inbox eventID (contains_iff_mem.mp handled)).elim id nofun
        exact accounts.next rfl (by rw [claiming]; rfl) ⟨fun _ => id, fun _ => id⟩ inbox
          ⟨m, knows.1, done_of_settled knows.2 settled⟩
      | false =>
        refine accounts.next rfl (by rw [claiming]; rfl) ⟨fun _ => id, fun _ => id⟩ ?_
          ⟨knows.1, command, knows.2⟩
        intro other member
        rcases mem_append.mp member with old | new
        · exact .inl ((inbox other old).elim id nofun)
        · exact .inr (congrArg some (mem_singleton.mp new).symm)
  · exact accounts

theorem Accounts.work (accounts : s.Accounts) (mint : Mint) (now : Time) (fails : Option String) :
    (s.work mint now fails).Accounts := by
  unfold Consumer.work
  split
  · rename_i offset m eventID task working
    have knows := accounts.knows
    have inbox := accounts.inbox
    rw [working] at knows inbox
    cases fails with
    | some err =>
      exact accounts.next rfl (by rw [working]; rfl) ⟨fun _ => id, fun _ => id⟩ inbox knows
    | none =>
      cases attempt : task.attempt mint now s.db with
      | next | failed =>
        exact accounts.next rfl (by rw [working]; rfl) ⟨fun _ => id, fun _ => id⟩ inbox knows
      | applied after =>
        have more : s.Extends { s with
            db := after, applied := eventID :: s.applied, phase := .acking offset } :=
          ⟨fun e => Or.imp_left (mem_cons_of_mem eventID), fun _ => id⟩
        have here : Settled { s with
            db := after, applied := eventID :: s.applied, phase := .acking offset } eventID :=
          .inl mem_cons_self
        obtain ⟨held, command, taken⟩ := knows
        refine accounts.next rfl (by rw [working]; rfl) more (fun other member => .inl ?_)
          ⟨m, held, done_of_settled taken here⟩
        change other ∈ after.processed at member
        rw [Task.processed_of_applied attempt] at member
        rcases inbox other member with settled | claimed
        · exact more.1 other settled
        · cases claimed
          exact here
  · exact accounts

theorem Accounts.park (accounts : s.Accounts) {fails : Bool}
    (careful : s.careful (.park fails) = true) : (s.park fails).Accounts := by
  unfold Consumer.park
  split
  · rename_i offset m claimed reason attempts parking
    have knows := accounts.knows
    have inbox := accounts.inbox
    rw [parking] at knows inbox
    have more := s.extends_park fails ⟨m, reason, attempts⟩ (.acking offset)
    cases claimed with
    | none =>
      obtain ⟨held, reason', routed⟩ := knows
      have done : Done { s with
          dlq := if fails then s.dlq else s.dlq ++ [⟨m, reason, attempts⟩]
          dropped := if fails then s.dropped ++ [m] else s.dropped
          phase := .acking offset } m := by
        refine ⟨fun _ _ again => ?_, fun _ _ => ?_⟩
        · cases routed.symm.trans again
        · cases fails with
          | true => exact .inr (mem_append_right _ mem_cons_self)
          | false => exact .inl ⟨_, mem_append_right _ mem_cons_self, rfl⟩
      refine accounts.next rfl (by rw [parking]; rfl) more (fun e member => .inl ?_) ⟨m, held, done⟩
      exact more.1 e ((inbox e member).elim id nofun)
    | some eventID =>
      cases fails with
      | true => simp [Consumer.careful, parking, Phase.claimed] at careful
      | false =>
        obtain ⟨held, command, taken⟩ := knows
        have here : Settled { s with
            dlq := s.dlq ++ [⟨m, reason, attempts⟩], phase := .acking offset } eventID :=
          .inr ⟨_, mem_append_right _ mem_cons_self, command, taken⟩
        refine accounts.next rfl (by rw [parking]; rfl) more (fun e member => .inl ?_)
          ⟨m, held, done_of_settled taken here⟩
        rcases inbox e member with settled | claimed
        · exact more.1 e settled
        · cases claimed
          exact here
  · exact accounts

theorem Accounts.ack (accounts : s.Accounts) (fails : Bool) : (s.ack fails).Accounts := by
  unfold Consumer.ack
  split
  · rename_i offset acking
    have knows := accounts.knows
    have inbox := accounts.inbox
    have reads := accounts.reads
    rw [acking] at knows inbox reads
    obtain ⟨m, held, done⟩ := knows
    exact ⟨reads.ack held done fails, fun e member =>
      .inl ((inbox e member).elim id nofun), trivial⟩
  · exact accounts

theorem Accounts.crash (accounts : s.Accounts) (careful : s.careful .crash = true) :
    (s.step .crash).Accounts := by
  refine ⟨accounts.reads.restart, fun e member => ?_, trivial⟩
  rcases accounts.inbox e member with settled | claimed
  · exact .inl settled
  · simp [Consumer.careful, claimed] at careful

theorem accounts_of_reachable {start : Database} (empty : start.processed = [])
    (reached : ((consuming start).restrict fun s a => s.careful a = true).Reachable s) :
    s.Accounts := by
  refine reached.invariant ?_ ?_
  · rintro _ rfl
    refine ⟨.nil rfl rfl, fun e member => ?_, trivial⟩
    rw [empty] at member
    cases member
  · rintro s a _ accounts ⟨careful, rfl⟩
    cases a with
    | produce m => exact accounts.produce m
    | fetch => exact accounts.fetch
    | route => exact accounts.route
    | claim fails => exact accounts.claim careful
    | work mint now fails => exact accounts.work mint now fails
    | park fails => exact accounts.park careful
    | ack fails => exact accounts.ack fails
    | crash => exact accounts.crash careful

end Consumer

/-- **No command is lost** in a run of careful steps: a command whose offset is
committed was applied, or is on the dead-letter topic. So is a message that is no command,
unless its dead letter was lost. -/
theorem commands_settled {start : Database} (empty : start.processed = []) {s : Consumer}
    (reached : ((consuming start).restrict fun s a => s.careful a = true).Reachable s)
    {offset : Nat} {m : Message} (committed : offset < s.partition.committed)
    (found : s.partition.log[offset]? = some m) :
    (∀ eventID command, m.route = .claim eventID command → s.Settled eventID) ∧
      ∀ reason, m.route = .park reason → s.Rejected m :=
  (Consumer.accounts_of_reachable empty reached).reads.acked offset m committed found

/-- A command to reserve one unit of SKU 1. -/
def reserveMessage : Message where
  ceType := "souq.inventory.reserve.v1"
  value := .ok
    { id := some 501
      type := "souq.inventory.reserve.v1"
      data := .ok { orderID := some 20, reservationID := some 10, items := [⟨1, 1⟩] } }

/-- The command is claimed, applied and acknowledged. -/
def delivered : List Action :=
  [.produce reserveMessage, .fetch, .route, .claim false, .work (mintFrom 600) 0 none, .ack false]

theorem commands_settled_delivered :
    (delivered.foldl Consumer.step { db := stocked }).partition.committed = 1 ∧
      (delivered.foldl Consumer.step { db := stocked }).Settled 501 := by
  have permits : System.Permits Consumer.step (fun s a => s.careful a = true) delivered
      { db := stocked } := by decide +kernel
  have committed : (delivered.foldl Consumer.step { db := stocked }).partition.committed = 1 := by
    decide +kernel
  have acked : 0 < (delivered.foldl Consumer.step { db := stocked }).partition.committed := by
    rw [committed]
    exact Nat.one_pos
  exact ⟨committed, (commands_settled rfl (.foldl_restrict permits) acked rfl).1 501 _ rfl⟩

/-- The process crashes when it has claimed the command, and takes the redelivered
message for a duplicate. -/
def crashed : List Action :=
  [.produce reserveMessage, .fetch, .route, .claim false, .crash, .fetch, .route, .claim false,
    .ack false]

theorem crashed_loses_command : ¬ ∀ (start : Database) (s : Consumer), start.processed = [] →
    (consuming start).Reachable s →
      ∀ (offset : Nat) (m : Message) (eventID : ID) (command : Command),
      offset < s.partition.committed → s.partition.log[offset]? = some m →
        m.route = .claim eventID command → s.Settled eventID := by
  intro holds
  have settled := holds stocked _ rfl (.foldl crashed) 0 reserveMessage 501 _ (by decide +kernel)
    rfl rfl
  rcases settled with applied | ⟨parked, member, -⟩
  · have none' : (crashed.foldl Consumer.step { db := stocked }).applied = [] := by
      decide +kernel
    rw [none'] at applied
    cases applied
  · have none' : (crashed.foldl Consumer.step { db := stocked }).dlq = [] := rfl
    rw [none'] at member
    cases member

end Souq.Inventory
