import Souq.Lib.Partition
import Souq.Lib.Transition

/-!
# The event consumer of order-service

`Run`, `handle` and `toDLQ` of `order-service/internal/eventbus`. A message is
filtered and checked, its handler is called up to `MaxAttempts` times with a back-off
between the calls, a message that cannot be handled is parked on the dead-letter
topic, and the offset is committed whatever `handle` returned for. The context can be
cancelled and the process can crash between any two steps.

A message is lost when it is dropped instead of parked, or abandoned because of a
shutdown, and its offset is committed all the same. `kept_throughout_iff` has the
exact condition on the steps of a run.
-/

namespace Souq.Orders.EventBus

open Transition List

/-- The part of an envelope that is looked at before the handler is. An empty id or
type is the empty string. -/
structure Envelope where
  specVersion : String
  id : String
  type : String
  data : String
  deriving DecidableEq

/-- A message on an event topic: its `ce_type` header and what its value parses to. -/
structure Message where
  ceType : String := ""
  value : Except String Envelope

/-- The settings of a consumer: the types it accepts, all when there are none, the
number of attempts, and whether it has a dead-letter publisher. -/
structure ConsumerConfig where
  acceptTypes : List String := []
  maxAttempts : Int := 0
  dlq : Bool := true

/-- The number of attempts `NewConsumer` settles for. -/
def ConsumerConfig.attempts (cfg : ConsumerConfig) : Int :=
  if cfg.maxAttempts = 0 then 5 else cfg.maxAttempts

/-- The type filter turns a type away. -/
def ConsumerConfig.filters (cfg : ConsumerConfig) (type : String) : Bool :=
  !cfg.acceptTypes.isEmpty && !cfg.acceptTypes.contains type

/-- Why an envelope cannot be processed. -/
inductive Invalid where
  | specVersion (version : String)
  | noID
  | noType
  | noData (id : String)
  deriving DecidableEq

/-- Reject an envelope that cannot be processed. -/
def Envelope.validate (e : Envelope) : Option Invalid :=
  if e.specVersion ≠ "1.0" then some (.specVersion e.specVersion)
  else if e.id = "" then some .noID
  else if e.type = "" then some .noType
  else if e.data = "" then some (.noData e.id)
  else none

/-- Why a message is parked. -/
inductive Reason where
  | malformed (err : String)
  | invalid (why : Invalid)
  | permanent (err : String)
  | exhausted (attempts : Int) (last : Option String)
  deriving DecidableEq

/-- What becomes of a message before its handler is called. -/
inductive Route where
  | filtered
  | park (reason : Reason)
  | accept (e : Envelope)
  deriving DecidableEq

def Message.route (cfg : ConsumerConfig) (m : Message) : Route :=
  if m.ceType ≠ "" ∧ cfg.filters m.ceType = true then .filtered
  else
    match m.value with
    | .error err => .park (.malformed err)
    | .ok e =>
      match e.validate with
      | some why => .park (.invalid why)
      | none => if cfg.filters e.type then .filtered else .accept e

/-- A message of an accepted type is one that the filters let through. -/
def Message.accepted (cfg : ConsumerConfig) (m : Message) : Prop := m.route cfg ≠ .filtered

/-- What the handler answers. -/
inductive Outcome where
  | applied
  | permanent (err : String)
  | transient (err : String)

/-- Where the consumer stands with the message it has fetched. -/
inductive Phase where
  | ready
  | checking (offset : Nat) (m : Message)
  | calling (offset : Nat) (m : Message) (attempt : Nat)
  | waiting (offset : Nat) (m : Message) (attempt : Nat) (last : String)
  | parking (offset : Nat) (m : Message) (reason : Reason) (attempts : Int)
  | acking (offset : Nat)
  | stopped

def Phase.offset : Phase → Option Nat
  | .ready | .stopped => none
  | .checking offset _ | .calling offset .. | .waiting offset .. | .parking offset ..
  | .acking offset => some offset

/-- A message on the dead-letter topic and the offset it comes from. -/
structure Parked where
  offset : Nat
  message : Message
  reason : Reason
  attempts : Int

/-- A partition, its reader and the dead-letter topic. The offsets the handler returned
nil for are remembered, and those of messages that `handle` returned for with neither
that nor a dead letter. -/
structure Consumer where
  partition : EventLog Message := {}
  phase : Phase := .ready
  cancelled : Bool := false
  dlq : List Parked := []
  handled : List Nat := []
  lost : List Nat := []

/-- One step of a run. -/
inductive Action where
  | produce (m : Message)
  | cancel
  | fetch
  | stop
  | check
  | call (outcome : Outcome)
  | wake
  | abandon
  | park (fails : Bool)
  | ack (fails : Bool)
  | crash

namespace Consumer

/-- The next message is fetched. This can happen even when the context is cancelled. -/
def fetch (s : Consumer) : Consumer :=
  match s.phase, s.partition.next with
  | .ready, some m =>
    { s with partition := s.partition.advance, phase := .checking s.partition.position m }
  | _, _ => s

/-- `Run` returns. -/
def stop (s : Consumer) : Consumer :=
  match s.phase with
  | .ready => if s.cancelled then { s with phase := .stopped } else s
  | _ => s

/-- The next turn of the retry loop, or its end. -/
def attempt (cfg : ConsumerConfig) (offset : Nat) (m : Message) (attempt : Nat)
    (last : Option String) : Phase :=
  if (attempt : Int) ≤ cfg.attempts then .calling offset m attempt
  else .parking offset m (.exhausted cfg.attempts last) cfg.attempts

def check (cfg : ConsumerConfig) (s : Consumer) : Consumer :=
  match s.phase with
  | .checking offset m =>
    { s with
      phase :=
        match m.route cfg with
        | .filtered => .acking offset
        | .park reason => .parking offset m reason 0
        | .accept _ => attempt cfg offset m 1 none }
  | _ => s

/-- `handle` returns, and the message was neither handled nor parked. -/
def giveUp (s : Consumer) (offset : Nat) : Consumer :=
  { s with lost := offset :: s.lost, phase := .acking offset }

def call (s : Consumer) (outcome : Outcome) : Consumer :=
  match s.phase with
  | .calling offset m attempt =>
    match outcome with
    | .applied => { s with handled := offset :: s.handled, phase := .acking offset }
    | .permanent err => { s with phase := .parking offset m (.permanent err) attempt }
    | .transient err =>
      if s.cancelled then s.giveUp offset
      else { s with phase := .waiting offset m attempt err }
  | _ => s

def wake (cfg : ConsumerConfig) (s : Consumer) : Consumer :=
  match s.phase with
  | .waiting offset m n last => { s with phase := attempt cfg offset m (n + 1) (some last) }
  | _ => s

/-- The context is cancelled during the back-off. -/
def abandon (s : Consumer) : Consumer :=
  match s.phase with
  | .waiting offset _ _ _ => if s.cancelled then s.giveUp offset else s
  | _ => s

/-- The message is written to the dead-letter topic, or dropped. -/
def park (cfg : ConsumerConfig) (s : Consumer) (fails : Bool) : Consumer :=
  match s.phase with
  | .parking offset m reason attempts =>
    if cfg.dlq && !fails then
      { s with dlq := s.dlq ++ [⟨offset, m, reason, attempts⟩], phase := .acking offset }
    else s.giveUp offset
  | _ => s

def ack (s : Consumer) (fails : Bool) : Consumer :=
  match s.phase with
  | .acking offset =>
    { s with
      partition := if fails then s.partition else s.partition.commit offset
      phase := .ready }
  | _ => s

/-- The consumer's next step. -/
def step (cfg : ConsumerConfig) (s : Consumer) : Action → Consumer
  | .produce m => { s with partition := s.partition.produce m }
  | .cancel => { s with cancelled := true }
  | .fetch => s.fetch
  | .stop => s.stop
  | .check => s.check cfg
  | .call outcome => s.call outcome
  | .wake => s.wake cfg
  | .abandon => s.abandon
  | .park fails => s.park cfg fails
  | .ack fails => s.ack fails
  | .crash => { s with partition := s.partition.restart, phase := .ready, cancelled := false }

/-- The handler has returned nil for a message, or a copy of it is on the dead-letter
topic. -/
def Safe (s : Consumer) (offset : Nat) (m : Message) : Prop :=
  offset ∈ s.handled ∨ ∃ parked ∈ s.dlq, parked.offset = offset ∧ parked.message = m

/-- Every acknowledged message of an accepted type is safe. -/
def Kept (cfg : ConsumerConfig) (s : Consumer) : Prop :=
  ∀ offset m, offset < s.partition.committed → s.partition.log[offset]? = some m →
    m.accepted cfg → s.Safe offset m

/-- A message that was dropped or abandoned has since been handled or parked. -/
def recovered (s : Consumer) (offset : Nat) : Bool :=
  s.handled.contains offset || s.dlq.any fun parked => parked.offset == offset

/-- An offset is committed at or after a message that was dropped or abandoned, and
neither handled nor parked since. -/
def loses (s : Consumer) : Action → Bool
  | .ack false =>
    match s.phase with
    | .acking offset => s.lost.any fun k => k ≤ offset && !s.recovered k
    | _ => false
  | _ => false

end Consumer

def consuming (cfg : ConsumerConfig) : System Consumer Action :=
  .ofFunction {} (Consumer.step cfg)

namespace Consumer

variable {cfg : ConsumerConfig} {s : Consumer}

def Done (cfg : ConsumerConfig) (s : Consumer) (offset : Nat) (m : Message) : Prop :=
  m.accepted cfg → s.Safe offset m

/-- What is known about the message at hand. -/
def Knows (cfg : ConsumerConfig) (s : Consumer) : Phase → Prop
  | .ready | .stopped => True
  | .checking offset m => s.partition.Holds offset m
  | .calling offset m _ | .waiting offset m _ _ | .parking offset m _ _ =>
    s.partition.Holds offset m ∧ m.accepted cfg
  | .acking offset => ∃ m, s.partition.Holds offset m ∧ (s.Done cfg offset m ∨ offset ∈ s.lost)

/-- The account of the consumer: what was read is safe, lost or at hand. -/
structure Accounts (cfg : ConsumerConfig) (s : Consumer) : Prop where
  reads : s.partition.Reads (fun k m => s.Done cfg k m ∨ k ∈ s.lost) fun k =>
    s.phase.offset = some k
  copies : ∀ parked ∈ s.dlq, s.partition.log[parked.offset]? = some parked.message
  real : ∀ k ∈ s.lost, ∃ m, s.partition.log[k]? = some m ∧ m.accepted cfg
  knows : s.Knows cfg s.phase

variable {s' : Consumer} {offset : Nat} {m : Message}

theorem Accounts.next (accounts : s.Accounts cfg) (partition : s'.partition = s.partition)
    (hand : s'.phase.offset = s.phase.offset) (more : ∀ k m, s.Safe k m → s'.Safe k m)
    (lost : ∀ k ∈ s.lost, k ∈ s'.lost)
    (copies : ∀ parked ∈ s'.dlq, s.partition.log[parked.offset]? = some parked.message)
    (real : ∀ k ∈ s'.lost, ∃ m, s.partition.log[k]? = some m ∧ m.accepted cfg)
    (knows : s'.Knows cfg s'.phase) : s'.Accounts cfg := by
  refine ⟨?_, by rwa [partition], by rwa [partition], knows⟩
  rw [partition]
  refine accounts.reads.mono ?_ fun k _ _ _ _ behind => .inr (hand.trans behind)
  rintro k m (done | member)
  · exact .inl fun accepted => more k m (done accepted)
  · exact .inr (lost k member)

theorem Accounts.turn (accounts : s.Accounts cfg) {phase : Phase}
    (hand : phase.offset = s.phase.offset) (knows : s.Knows cfg phase) :
    Accounts cfg { s with phase := phase } :=
  accounts.next rfl hand (fun _ _ => id) (fun _ => id) accounts.copies accounts.real knows

theorem Accounts.produce (accounts : s.Accounts cfg) (m : Message) :
    (s.step cfg (.produce m)).Accounts cfg := by
  refine ⟨accounts.reads.produce m, fun parked member => ?_, fun k member => ?_, ?_⟩
  · exact EventLog.getElem?_produce (accounts.copies parked member) m
  · obtain ⟨other, found, accepted⟩ := accounts.real k member
    exact ⟨other, EventLog.getElem?_produce found m, accepted⟩
  · have still : ∀ phase, s.Knows cfg phase → (s.step cfg (.produce m)).Knows cfg phase := by
      intro phase knows
      cases phase with
      | ready => trivial
      | stopped => trivial
      | checking offset other => exact knows.produce m
      | calling | waiting | parking => exact ⟨knows.1.produce m, knows.2⟩
      | acking offset =>
        obtain ⟨other, held, done⟩ := knows
        exact ⟨other, held.produce m, done⟩
    exact still s.phase accounts.knows

theorem Accounts.fetch (accounts : s.Accounts cfg) : s.fetch.Accounts cfg := by
  unfold Consumer.fetch
  split
  · rename_i m ready found
    refine ⟨accounts.reads.advance found (fun k behind => ?_) rfl, accounts.copies, accounts.real,
      rfl, found⟩
    rw [ready] at behind
    cases behind
  · exact accounts

theorem Accounts.stop (accounts : s.Accounts cfg) : s.stop.Accounts cfg := by
  unfold Consumer.stop
  split
  · rename_i ready
    split
    · exact accounts.turn (by rw [ready]; rfl) trivial
    · exact accounts
  · exact accounts

theorem offset_attempt (cfg : ConsumerConfig) (offset : Nat) (m : Message) (n : Nat)
    (last : Option String) : (attempt cfg offset m n last).offset = some offset := by
  unfold attempt
  split
  · rfl
  · rfl

theorem knows_attempt (held : s.partition.Holds offset m) (accepted : m.accepted cfg) (n : Nat)
    (last : Option String) :
    s.Knows cfg (attempt cfg offset m n last) := by
  unfold attempt
  split
  · exact ⟨held, accepted⟩
  · exact ⟨held, accepted⟩

theorem Accounts.check (accounts : s.Accounts cfg) : (s.check cfg).Accounts cfg := by
  unfold Consumer.check
  split
  · rename_i offset m checking
    have knows := accounts.knows
    rw [checking] at knows
    have hand : s.phase.offset = some offset := by rw [checking]; rfl
    cases routed : m.route cfg with
    | filtered =>
      exact accounts.turn hand.symm ⟨m, knows, .inl fun accepted => (accepted routed).elim⟩
    | park reason => exact accounts.turn hand.symm ⟨knows, by simp [Message.accepted, routed]⟩
    | accept e =>
      refine accounts.turn ((offset_attempt ..).trans hand.symm) (knows_attempt knows ?_ 1 none)
      simp [Message.accepted, routed]
  · exact accounts

theorem Accounts.giveUp (accounts : s.Accounts cfg) (hand : s.phase.offset = some offset)
    (held : s.partition.Holds offset m) (accepted : m.accepted cfg) :
    (s.giveUp offset).Accounts cfg := by
  refine accounts.next rfl hand.symm (fun _ _ => id) (fun _ => mem_cons_of_mem _)
    accounts.copies ?_ ⟨m, held, .inr mem_cons_self⟩
  intro k member
  rcases mem_cons.mp member with rfl | old
  · exact ⟨m, held.2, accepted⟩
  · exact accounts.real k old

theorem Accounts.call (accounts : s.Accounts cfg) (outcome : Outcome) :
    (s.call outcome).Accounts cfg := by
  unfold Consumer.call
  split
  · rename_i offset m attempt calling
    have knows := accounts.knows
    rw [calling] at knows
    have hand : s.phase.offset = some offset := by rw [calling]; rfl
    cases outcome with
    | applied =>
      refine accounts.next rfl hand.symm (fun k other => Or.imp_left (mem_cons_of_mem _))
        (fun _ => id) accounts.copies accounts.real ⟨m, knows.1, .inl fun _ => ?_⟩
      exact .inl mem_cons_self
    | permanent err => exact accounts.turn hand.symm knows
    | transient err =>
      simp only
      split
      · exact accounts.giveUp hand knows.1 knows.2
      · exact accounts.turn hand.symm knows
  · exact accounts

theorem Accounts.wake (accounts : s.Accounts cfg) : (s.wake cfg).Accounts cfg := by
  unfold Consumer.wake
  split
  · rename_i offset m n last waiting
    have knows := accounts.knows
    rw [waiting] at knows
    refine accounts.turn ?_ (knows_attempt knows.1 knows.2 (n + 1) (some last))
    rw [offset_attempt, waiting]
    rfl
  · exact accounts

theorem Accounts.abandon (accounts : s.Accounts cfg) : s.abandon.Accounts cfg := by
  unfold Consumer.abandon
  split
  · rename_i offset m n last waiting
    have knows := accounts.knows
    rw [waiting] at knows
    split
    · exact accounts.giveUp (by rw [waiting]; rfl) knows.1 knows.2
    · exact accounts
  · exact accounts

theorem Accounts.park (accounts : s.Accounts cfg) (fails : Bool) :
    (s.park cfg fails).Accounts cfg := by
  unfold Consumer.park
  split
  · rename_i offset m reason attempts parking
    have knows := accounts.knows
    rw [parking] at knows
    have hand : s.phase.offset = some offset := by rw [parking]; rfl
    split
    · refine accounts.next rfl hand.symm ?_ (fun _ => id) ?_ accounts.real
        ⟨m, knows.1, .inl fun _ => ?_⟩
      · rintro k other (handled | ⟨parked, member, copy⟩)
        · exact .inl handled
        · exact .inr ⟨parked, mem_append_left _ member, copy⟩
      · intro parked member
        rcases mem_append.mp member with old | new
        · exact accounts.copies parked old
        · cases mem_singleton.mp new
          exact knows.1.2
      · exact .inr ⟨_, mem_append_right _ mem_cons_self, rfl, rfl⟩
    · exact accounts.giveUp hand knows.1 knows.2
  · exact accounts

theorem Accounts.ack (accounts : s.Accounts cfg) (fails : Bool) : (s.ack fails).Accounts cfg := by
  unfold Consumer.ack
  split
  · rename_i offset acking
    have knows := accounts.knows
    have reads := accounts.reads
    rw [acking] at knows reads
    obtain ⟨m, held, done⟩ := knows
    cases fails with
    | true => exact ⟨reads.ack held done true, accounts.copies, accounts.real, trivial⟩
    | false => exact ⟨reads.ack held done false, accounts.copies, accounts.real, trivial⟩
  · exact accounts

theorem accounts_of_reachable (reached : (consuming cfg).Reachable s) : s.Accounts cfg := by
  refine reached.invariant ?_ ?_
  · rintro _ rfl
    exact ⟨.nil rfl rfl, nofun, nofun, trivial⟩
  · rintro s a _ accounts rfl
    cases a with
    | produce m => exact accounts.produce m
    | cancel => exact ⟨accounts.reads, accounts.copies, accounts.real, accounts.knows⟩
    | fetch => exact accounts.fetch
    | stop => exact accounts.stop
    | check => exact accounts.check
    | call outcome => exact accounts.call outcome
    | wake => exact accounts.wake
    | abandon => exact accounts.abandon
    | park fails => exact accounts.park fails
    | ack fails => exact accounts.ack fails
    | crash => exact ⟨accounts.reads.restart, accounts.copies, accounts.real, trivial⟩

/-- The log grows, and nothing safe is lost. -/
structure Grows (s s' : Consumer) : Prop where
  committed : s'.partition.committed = s.partition.committed
  log : s.partition.log <+: s'.partition.log
  safe : ∀ k m, s.Safe k m → s'.Safe k m

theorem Grows.same (partition : s'.partition = s.partition)
    (safe : ∀ k m, s.Safe k m → s'.Safe k m) :
    s.Grows s' :=
  ⟨by rw [partition], by simp only [partition, prefix_rfl], safe⟩

theorem grows_call (s : Consumer) (outcome : Outcome) : s.Grows (s.call outcome) := by
  unfold Consumer.call
  split
  · cases outcome with
    | applied => exact .same rfl fun k m => Or.imp_left (mem_cons_of_mem _)
    | permanent err => exact .same rfl fun _ _ => id
    | transient err =>
      simp only
      split
      · exact .same rfl fun _ _ => id
      · exact .same rfl fun _ _ => id
  · exact .same rfl fun _ _ => id

theorem grows_park (cfg : ConsumerConfig) (s : Consumer) (fails : Bool) :
    s.Grows (s.park cfg fails) := by
  unfold Consumer.park
  split
  · split
    · refine .same rfl ?_
      rintro k m (handled | ⟨parked, member, copy⟩)
      · exact .inl handled
      · exact .inr ⟨parked, mem_append_left _ member, copy⟩
    · exact .same rfl fun _ _ => id
  · exact .same rfl fun _ _ => id

theorem grows_fetch (s : Consumer) : s.Grows s.fetch := by
  unfold Consumer.fetch
  split
  · exact ⟨rfl, prefix_rfl, fun _ _ => id⟩
  · exact .same rfl fun _ _ => id

theorem grows_step (cfg : ConsumerConfig) (s : Consumer) {a : Action}
    (other : ∀ fails, a ≠ .ack fails) : s.Grows (s.step cfg a) := by
  cases a with
  | produce m => exact ⟨rfl, prefix_append _ _, fun _ _ => id⟩
  | cancel => exact .same rfl fun _ _ => id
  | fetch => exact grows_fetch s
  | stop =>
    change s.Grows s.stop
    unfold Consumer.stop
    split
    · split
      · exact .same rfl fun _ _ => id
      · exact .same rfl fun _ _ => id
    · exact .same rfl fun _ _ => id
  | check =>
    change s.Grows (s.check cfg)
    unfold Consumer.check
    split
    · exact .same rfl fun _ _ => id
    · exact .same rfl fun _ _ => id
  | call outcome => exact grows_call s outcome
  | wake =>
    change s.Grows (s.wake cfg)
    unfold Consumer.wake
    split
    · exact .same rfl fun _ _ => id
    · exact .same rfl fun _ _ => id
  | abandon =>
    change s.Grows s.abandon
    unfold Consumer.abandon
    split
    · split
      · exact .same rfl fun _ _ => id
      · exact .same rfl fun _ _ => id
    · exact .same rfl fun _ _ => id
  | park fails => exact grows_park cfg s fails
  | ack fails => exact (other fails rfl).elim
  | crash => exact ⟨rfl, prefix_rfl, fun _ _ => id⟩

theorem Kept.grow (accounts : s.Accounts cfg) (kept : s.Kept cfg) (grows : s.Grows s') :
    s'.Kept cfg := by
  intro offset m acked found accepted
  rw [grows.committed] at acked
  have inside := Nat.lt_of_lt_of_le acked (Nat.le_trans accounts.reads.order accounts.reads.within)
  obtain ⟨rest, whole⟩ := grows.log
  rw [← whole, getElem?_append_left inside] at found
  exact grows.safe offset m (kept offset m acked found accepted)

theorem Accounts.recovered_iff (accounts : s.Accounts cfg)
    (found : s.partition.log[offset]? = some m) :
    s.recovered offset = true ↔ s.Safe offset m := by
  simp only [recovered, Bool.or_eq_true, contains_iff_mem, any_eq_true, beq_iff_eq, Safe]
  constructor
  · rintro (handled | ⟨parked, member, rfl⟩)
    · exact .inl handled
    · refine .inr ⟨parked, member, rfl, ?_⟩
      exact Option.some.inj ((accounts.copies parked member).symm.trans found)
  · exact Or.imp_right fun ⟨parked, member, same, _⟩ => ⟨parked, member, same⟩

theorem Accounts.kept_ack_iff (accounts : s.Accounts cfg) (kept : s.Kept cfg) (fails : Bool) :
    (s.ack fails).Kept cfg ↔ s.loses (.ack fails) = false := by
  cases fails with
  | true =>
    refine ⟨fun _ => rfl, fun _ => ?_⟩
    unfold Consumer.ack
    split
    · exact kept
    · exact kept
  | false =>
    have knows := accounts.knows
    have reads := accounts.reads
    unfold Consumer.ack Consumer.loses
    split
    · rename_i offset acking
      rw [acking] at knows reads
      obtain ⟨m, held, done⟩ := knows
      refine (reads.upTo_iff kept held done).trans ?_
      rw [any_eq_false]
      constructor
      · intro safe k lost passed
        simp only [Bool.and_eq_true, decide_eq_true_eq, Bool.not_eq_true'] at passed
        obtain ⟨other, there, accepted⟩ := accounts.real k lost
        have recovered := safe k other passed.1 there lost accepted
        rw [(accounts.recovered_iff there).mpr recovered] at passed
        cases passed.2
      · intro none' k other upTo there lost _
        have passed := none' k lost
        simp only [Bool.and_eq_true, decide_eq_true_eq, Bool.not_eq_true', not_and,
          Bool.not_eq_false] at passed
        exact (accounts.recovered_iff there).mp (passed upTo)
    · exact ⟨fun _ => rfl, fun _ => kept⟩

theorem Accounts.kept_step_iff (accounts : s.Accounts cfg) (kept : s.Kept cfg) (a : Action) :
    (s.step cfg a).Kept cfg ↔ s.loses a = false := by
  by_cases ack : ∃ fails, a = .ack fails
  · obtain ⟨fails, rfl⟩ := ack
    exact accounts.kept_ack_iff kept fails
  · have other : ∀ fails, a ≠ .ack fails := fun fails same => ack ⟨fails, same⟩
    refine ⟨fun _ => ?_, fun _ => Kept.grow accounts kept (grows_step cfg s other)⟩
    cases a with
    | ack fails => exact (other fails rfl).elim
    | _ => rfl

end Consumer

/-- **No event is lost** exactly in the runs that never commit an offset at or after a
message that was dropped instead of parked, or abandoned because of a shutdown, and
neither handled nor parked since. -/
theorem kept_throughout_iff (cfg : ConsumerConfig) (actions : List Action) :
    (∀ front, front <+: actions → (front.foldl (Consumer.step cfg) {}).Kept cfg) ↔
      ∀ front a, front ++ [a] <+: actions →
        (front.foldl (Consumer.step cfg) {}).loses a = false := by
  have sharp : ∀ s a, (consuming cfg).Reachable s → s.Kept cfg →
      ((s.step cfg a).Kept cfg ↔ ¬ s.loses a = true) := by
    intro s a reached kept
    rw [Bool.not_eq_true]
    exact (Consumer.accounts_of_reachable reached).kept_step_iff kept a
  have iff := System.throughout_iff (P := Consumer.Kept cfg)
    (fun _ _ acked => (Nat.not_lt_zero _ acked).elim) sharp actions
  simp only [Bool.not_eq_true] at iff
  exact iff

def sagaConsumer : ConsumerConfig where
  acceptTypes :=
    ["souq.inventory.reserved.v1", "souq.inventory.reservation_failed.v1",
      "souq.inventory.released.v1", "souq.inventory.committed.v1", "souq.payment.authorized.v1",
      "souq.payment.failed.v1", "souq.payment.captured.v1", "souq.payment.voided.v1"]

def reservedMessage : Message where
  ceType := "souq.inventory.reserved.v1"
  value := .ok ⟨"1.0", "evt-1", "souq.inventory.reserved.v1", "order-1"⟩

/-- The service shuts down while it backs off, and the offset is still committed. -/
def shutdown : List Action :=
  [.produce reservedMessage, .fetch, .check, .call (.transient "connection refused"), .cancel,
    .abandon, .ack false]

theorem shutdown_loses_event : ¬ ∀ (cfg : ConsumerConfig) (s : Consumer),
    (consuming cfg).Reachable s → s.Kept cfg := by
  intro holds
  have accepted : reservedMessage.accepted sagaConsumer := by
    unfold Message.accepted
    decide +kernel
  have safe := holds sagaConsumer _ (.foldl shutdown) 0 reservedMessage (by decide +kernel) rfl
    accepted
  rcases safe with handled | ⟨parked, member, -⟩
  · have none' : (shutdown.foldl (Consumer.step sagaConsumer) {}).handled = [] := by
      decide +kernel
    rw [none'] at handled
    cases handled
  · have none' : (shutdown.foldl (Consumer.step sagaConsumer) {}).dlq = [] := rfl
    rw [none'] at member
    cases member

end Souq.Orders.EventBus
