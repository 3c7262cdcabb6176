import Mathlib.Data.Fintype.Defs
import Mathlib.Data.Fintype.Sets
import Mathlib.Data.List.Sort
import Souq.Basic
import Souq.Lib.Transition

/-!
# The outbox relay of the identity service

`OutboxRelay.poll` calls `publishBatch` on itself and not through the proxy, so that
there is no transaction around a batch: every statement commits on its own, and the row
locks of the `SELECT … FOR UPDATE SKIP LOCKED` are gone when it returns. Any number of
replicas run the loop. A send lasts for a while, and the broker may take the record at
any moment of it, or after it was given up.
-/

namespace Souq.Identity.Relay

open Transition

def batchSize : Nat := 100

def maxAttempts : Nat := 10

/-- A row of `outbox`. -/
structure Row where
  id : ID
  eventId : ID
  topic : String
  key : String
  payload : String
  attempts : Nat := 0
  publishedAt : Option Time := none
  deriving DecidableEq

/-- Where a replica is in `poll`. The number of batches that were full is counted, and in
a batch the rows that were published. -/
inductive Phase where
  | idle
  | selecting (guard : Nat)
  /-- The rows of the batch that are left. -/
  | batch (rest : List Row) (published guard : Nat)
  /-- The send of a row, and whether the broker has taken the record. -/
  | sending (row : Row) (rest : List Row) (published guard : Nat) (taken : Bool)
  | marking (row : Row) (rest : List Row) (published guard : Nat)
  | recording (row : Row) (rest : List Row) (published guard : Nat)

/-- The end of `publishBatch`: full batches are followed by another, twenty times. -/
def finish (published guard : Nat) : Phase :=
  if published = batchSize ∧ guard < 20 then .selecting (guard + 1) else .idle

def Phase.pending : Phase → List Row
  | .idle | .selecting _ => []
  | .batch rest _ _ => rest
  | .sending row rest _ _ _ | .marking row rest _ _ | .recording row rest _ _ => row :: rest

def Phase.inFlight : Phase → Option Row
  | .sending row _ _ _ _ => some row
  | _ => none

/-- The replica is about to execute its `SELECT`. -/
def Phase.selects : Phase → Bool
  | .selecting _ => true
  | _ => false

/-- The row that the replica is about to send. -/
def Phase.next : Phase → Option Row
  | .batch rest _ _ => rest.head?
  | _ => none

/-- The table, the replicas, and the records in the order in which the broker has taken
them. -/
structure Replicas (ι : Type) where
  outbox : List Row := []
  clock : Time := 0
  phases : ι → Phase := fun _ => .idle
  log : List Row := []
  /-- The records of sends that were given up. -/
  abandoned : List Row := []

/-- One step of a run. -/
inductive Turn (ι : Type) where
  /-- A transaction that has inserted a row commits. -/
  | commit (row : Row)
  | tick (clock : Time)
  | purgePublished
  /-- The broker takes a record whose send was given up. -/
  | arrive (row : Row)
  | poll (i : ι)
  /-- The `SELECT`, which skips the rows that other statements have locked. -/
  | select (i : ι) (locked : List ID)
  /-- The next row of the batch, or its end. -/
  | send (i : ι)
  /-- The broker takes the record of a send. -/
  | take (i : ι)
  | acknowledge (i : ι)
  /-- An exception out of the send or out of the `UPDATE` that marks the row. -/
  | fail (i : ι)
  | interrupt (i : ι)
  | mark (i : ι)
  | record (i : ι)
  /-- An exception that ends the poll, or the process dies. -/
  | crash (i : ι)

def retention : Time := 7 * 24 * 60 * 60 * 1000000

/-- The `WHERE` clause of the `SELECT`. -/
def Row.due (row : Row) : Bool := row.publishedAt.isNone && decide (row.attempts < maxAttempts)

/-- The answer of the `SELECT`. -/
def selectDue (outbox : List Row) (locked : List ID) : List Row :=
  ((outbox.filter fun row => row.due && row.id ∉ locked).insertionSort
    fun a b => a.id ≤ b.id).take batchSize

/-- An `UPDATE` of one row. -/
def update (id : ID) (f : Row → Row) (outbox : List Row) : List Row :=
  outbox.map fun row => if row.id = id then f row else row

namespace Replicas

variable {ι : Type} [DecidableEq ι]

def set (s : Replicas ι) (i : ι) (phase : Phase) : Replicas ι :=
  { s with phases := Function.update s.phases i phase }

/-- What a replica leaves behind when it gives a send up. -/
def giveUp (s : Replicas ι) (i : ι) : Replicas ι :=
  { s with abandoned := s.abandoned ++ (s.phases i).inFlight.toList }

/-- The id of a new row was never used before. -/
def fresh (s : Replicas ι) (row : Row) : Bool :=
  s.outbox.all (fun other => other.id ≠ row.id) && s.log.all fun other => other.id ≠ row.id

def step (s : Replicas ι) : Turn ι → Replicas ι
  | .commit row =>
    if s.fresh row then
      { s with outbox := s.outbox ++ [{ row with attempts := 0, publishedAt := none }] }
    else s
  | .tick clock => { s with clock := clock }
  | .purgePublished =>
    { s with outbox := s.outbox.filter fun row =>
        !row.publishedAt.any fun at' => decide (at' + retention < s.clock) }
  | .arrive row =>
    if row ∈ s.abandoned then
      { s with log := s.log ++ [row], abandoned := s.abandoned.erase row }
    else s
  | .poll i =>
    match s.phases i with
    | .idle => s.set i (.selecting 0)
    | _ => s
  | .select i locked =>
    match s.phases i with
    | .selecting guard =>
      if selectDue s.outbox locked = [] then s.set i (finish 0 guard)
      else s.set i (.batch (selectDue s.outbox locked) 0 guard)
    | _ => s
  | .send i =>
    match s.phases i with
    | .batch (row :: rest) published guard => s.set i (.sending row rest published guard false)
    | .batch [] published guard => s.set i (finish published guard)
    | _ => s
  | .take i =>
    match s.phases i with
    | .sending row rest published guard _ =>
      { s with log := s.log ++ [row] }.set i (.sending row rest published guard true)
    | _ => s
  | .acknowledge i =>
    match s.phases i with
    | .sending row rest published guard true => s.set i (.marking row rest published guard)
    | _ => s
  | .fail i =>
    match s.phases i with
    | .sending row rest published guard _ =>
      (s.giveUp i).set i (.recording row rest published guard)
    | .marking row rest published guard => s.set i (.recording row rest published guard)
    | _ => s
  | .interrupt i =>
    match s.phases i with
    | .sending _ _ published guard _ => (s.giveUp i).set i (finish published guard)
    | _ => s
  | .mark i =>
    match s.phases i with
    | .marking row rest published guard =>
      { s with outbox := update row.id (fun r => { r with publishedAt := some s.clock }) s.outbox
        }.set i (.batch rest (published + 1) guard)
    | _ => s
  | .record i =>
    match s.phases i with
    | .recording row rest published guard =>
      { s with outbox := update row.id (fun r => { r with attempts := r.attempts + 1 }) s.outbox
        }.set i (.batch rest published guard)
    | _ => s
  | .crash i => (s.giveUp i).set i .idle

end Replicas

/-- Any number of replicas on an outbox that is empty at first. -/
def relaying (ι : Type) [DecidableEq ι] : System (Replicas ι) (Turn ι) :=
  .ofFunction {} Replicas.step

/-- No row is being sent by two replicas. -/
def Replicas.Disjoint {ι : Type} (s : Replicas ι) : Prop :=
  ∀ i j, i ≠ j → ∀ row ∈ (s.phases i).inFlight, ∀ other ∈ (s.phases j).inFlight, row.id ≠ other.id

/-- The rows of a key are first published in the order of their ids. -/
def InOrder (log : List Row) : Prop :=
  ∀ (front : List Row) (row : Row), front ++ [row] <+: log → (∀ r ∈ front, r.id ≠ row.id) →
    ∀ earlier ∈ front, earlier.key = row.key → earlier.id < row.id

section Faults

variable {ι : Type}

/-- A `SELECT` returns a row that another replica still has to send. -/
def Replicas.Overlaps (s : Replicas ι) (i : ι) (locked : List ID) : Prop :=
  (s.phases i).selects = true ∧ ∃ j, j ≠ i ∧
    ∃ row ∈ selectDue s.outbox locked, ∃ other ∈ (s.phases j).pending, other.id = row.id

/-- A row is sent although an earlier row of its key is due and was never published: it has
failed, or it is in the batch of another replica. -/
def Replicas.Overtakes (s : Replicas ι) (i : ι) : Prop :=
  ∃ row ∈ (s.phases i).next.toList, ∃ earlier ∈ s.outbox,
    earlier.key = row.key ∧ earlier.id < row.id ∧ earlier.due = true ∧ earlier.id ∉ s.log.map Row.id

/-- A row becomes visible when a later row of its key is being sent or published. -/
def Replicas.Late (s : Replicas ι) (row : Row) : Prop :=
  s.fresh row = true ∧ ((∃ later ∈ s.log, later.key = row.key ∧ row.id < later.id) ∨
      ∃ j, ∃ later ∈ (s.phases j).inFlight, later.key = row.key ∧ row.id < later.id)

/-- The turns after which rows collide or overtake each other. -/
def Replicas.Faulty (s : Replicas ι) : Turn ι → Prop
  | .select i locked => s.Overlaps i locked
  | .send i => s.Overtakes i
  | .commit row => s.Late row
  | .arrive row => row ∈ s.abandoned
  | _ => False

instance [Fintype ι] [DecidableEq ι] (s : Replicas ι) (turn : Turn ι) :
    Decidable (s.Faulty turn) := by
  unfold Replicas.Faulty Replicas.Overlaps Replicas.Overtakes Replicas.Late
  split <;> infer_instance

end Faults

end Souq.Identity.Relay
