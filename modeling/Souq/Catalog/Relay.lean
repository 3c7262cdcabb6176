import Mathlib.Data.Fintype.Defs
import Mathlib.Data.List.Sort
import Souq.Basic
import Souq.Lib.Transition

/-!
# The outbox relay of the catalogue

`poll` calls `publishBatch` on the object itself, so that its `@Transactional` has no effect:
every statement commits on its own, and the locks of the `SELECT` are gone when it returns.
The topic is compacted. It keeps the records of a key in the order of the sends, and of
each key what was sent last.
-/

namespace Souq.Catalog.Relay

open Transition

def batchSize : Nat := 100

def maxAttempts : Nat := 10

/-- A row of `outbox`. -/
structure Row where
  id : ID
  eventId : ID
  topic : String
  key : String
  payload : String
  attempts : Nat := 0
  publishedAt : Option Time := none

/-- A record of a topic, and the row it was made from. A tombstone has no value. -/
structure Message where
  row : ID
  topic : String
  key : String
  value : Option String
  deriving DecidableEq

/-- What is sent for a row. A JSONB `null` reads back as the text `null`. -/
def Row.message (row : Row) : Message where
  row := row.id
  topic := row.topic
  key := row.key
  value := if row.payload = "null" then none else some row.payload

def Message.lane (message : Message) : String × String := (message.topic, message.key)

def Row.lane (row : Row) : String × String := row.message.lane

/-- What compaction leaves of a key. -/
def retained (log : List Message) (lane : String × String) : Option Message :=
  (log.filter fun message => message.lane = lane).getLast?

/-- Where a replica is in `poll`. The number of batches that were full is counted, and in
a batch the rows that were published. -/
inductive Phase where
  | idle
  | selecting (guard : Nat)
  /-- The rows of the batch that are left. -/
  | batch (rest : List Row) (published guard : Nat)
  /-- The answer to a send is awaited; the record has landed or will never. -/
  | sending (row : Row) (rest : List Row) (published guard : Nat) (landed : Bool)
  | marking (row : Row) (rest : List Row) (published guard : Nat)
  | recording (row : Row) (rest : List Row) (published guard : Nat)

/-- The end of `publishBatch`: full batches are followed by another, fifty times. -/
def finish (published guard : Nat) : Phase :=
  if published = batchSize ∧ guard < 50 then .selecting (guard + 1) else .idle

def Phase.pending : Phase → List Row
  | .idle | .selecting _ => []
  | .batch rest _ _ => rest
  | .sending row rest _ _ _ | .marking row rest _ _ | .recording row rest _ _ => row :: rest

/-- The row that the replica is about to send. -/
def Phase.next : Phase → Option Row
  | .batch rest _ _ => rest.head?
  | _ => none

def Phase.landed : Phase → Option Row
  | .sending row _ _ _ true | .marking row _ _ _ => some row
  | _ => none

/-- The row whose failure the replica is about to record. -/
def Phase.failed : Phase → Option Row
  | .recording row _ _ _ => some row
  | _ => none

/-- The table, the replicas and the topics. The messages of all rows that were ever
committed are on record. -/
structure Replicas (ι : Type) where
  outbox : List Row := []
  written : List Message := []
  clock : Time := 0
  phases : ι → Phase := fun _ => .idle
  log : List Message := []

/-- One step of a run. -/
inductive Turn (ι : Type) where
  /-- A transaction that has inserted a row commits. -/
  | commit (row : Row)
  | tick (clock : Time)
  | purgePublished
  | poll (i : ι)
  /-- The `SELECT`, which skips the rows that other statements have locked. -/
  | select (i : ι) (locked : List ID)
  /-- The send of the next row of the batch, whose record lands or not, or the end of the
  batch. -/
  | send (i : ι) (lands : Bool)
  | acknowledge (i : ι)
  /-- An exception out of the send or out of the `UPDATE` that marks the row. -/
  | fail (i : ι)
  | interrupt (i : ι)
  /-- The `UPDATE` that marks a row takes effect, and the replica hears of it or not. -/
  | mark (i : ι) (heard : Bool)
  /-- The `UPDATE` of `recordFailure`, whose exception ends the poll. -/
  | record (i : ι) (heard : Bool)
  /-- An exception that ends the poll, or the process dies. -/
  | crash (i : ι)

def retention : Time := 30 * 24 * 60 * 60 * 1000000

/-- The `WHERE` clause of the `SELECT`. -/
def Row.due (row : Row) : Bool := row.publishedAt.isNone && decide (row.attempts < maxAttempts)

/-- The answer of the `SELECT`. -/
def selectDue (outbox : List Row) (locked : List ID) : List Row :=
  ((outbox.filter fun row => row.due && row.id ∉ locked).insertionSort
    fun a b => a.id ≤ b.id).take batchSize

/-- An `UPDATE` of one row. -/
def update (id : ID) (f : Row → Row) (outbox : List Row) : List Row :=
  outbox.map fun row => if row.id = id then f row else row

def Row.published (row : Row) (now : Time) : Row := { row with publishedAt := some now }

def Row.retried (row : Row) : Row := { row with attempts := row.attempts + 1 }

namespace Replicas

variable {ι : Type} [DecidableEq ι]

def set (s : Replicas ι) (i : ι) (phase : Phase) : Replicas ι :=
  { s with phases := Function.update s.phases i phase }

/-- The id of a new row was never used before. -/
def fresh (s : Replicas ι) (row : Row) : Bool := s.written.all fun other => other.row ≠ row.id

def step (s : Replicas ι) : Turn ι → Replicas ι
  | .commit row =>
    if s.fresh row then
      { s with
        outbox := s.outbox ++ [{ row with attempts := 0, publishedAt := none }]
        written := s.written ++ [row.message] }
    else s
  | .tick clock => { s with clock := clock }
  | .purgePublished =>
    { s with outbox := s.outbox.filter fun row =>
        !row.publishedAt.any fun at' => decide (at' + retention < s.clock) }
  | .poll i =>
    match s.phases i with
    | .idle => s.set i (.selecting 0)
    | _ => s
  | .select i locked =>
    match s.phases i with
    | .selecting guard =>
      if selectDue s.outbox locked = [] then s.set i (finish 0 guard)
      else s.set i (.batch (selectDue s.outbox locked) 0 guard)
    | _ => s
  | .send i lands =>
    match s.phases i with
    | .batch (row :: rest) published guard =>
      let sent := if lands then { s with log := s.log ++ [row.message] } else s
      sent.set i (.sending row rest published guard lands)
    | .batch [] published guard => s.set i (finish published guard)
    | _ => s
  | .acknowledge i =>
    match s.phases i with
    | .sending row rest published guard true => s.set i (.marking row rest published guard)
    | _ => s
  | .fail i =>
    match s.phases i with
    | .sending row rest published guard _ | .marking row rest published guard =>
      s.set i (.recording row rest published guard)
    | _ => s
  | .interrupt i =>
    match s.phases i with
    | .sending _ _ published guard _ => s.set i (finish published guard)
    | _ => s
  | .mark i heard =>
    match s.phases i with
    | .marking row rest published guard =>
      { s with outbox := update row.id (fun r => r.published s.clock) s.outbox }.set i
        (if heard then .batch rest (published + 1) guard
        else .recording row rest published guard)
    | _ => s
  | .record i heard =>
    match s.phases i with
    | .recording row rest published guard =>
      { s with outbox := update row.id Row.retried s.outbox }.set i
        (if heard then .batch rest published guard else .idle)
    | _ => s
  | .crash i => s.set i .idle

end Replicas

/-- Any number of replicas on an outbox that is empty at first. -/
def relaying (ι : Type) [DecidableEq ι] : System (Replicas ι) (Turn ι) :=
  .ofFunction {} Replicas.step

section Wanted

variable {ι : Type}

/-- No row with this topic and key is eligible for publication. -/
def Replicas.Settled (s : Replicas ι) (lane : String × String) : Prop :=
  ∀ row ∈ s.outbox, row.lane = lane → row.due = false

/-- No newer message was written for the key. -/
structure Replicas.Newest (s : Replicas ι) (message : Message) : Prop where
  written : message ∈ s.written
  highest : ∀ other ∈ s.written, other.lane = message.lane → other.row ≤ message.row

end Wanted

section Faults

variable {ι : Type}

def Replicas.Overtakes (s : Replicas ι) (row : Row) : Prop :=
  ∃ earlier ∈ s.outbox, earlier.lane = row.lane ∧ earlier.id < row.id ∧ earlier.due = true

/-- The row is not eligible any more, and a later one of the key is on the topic. -/
def Replicas.Stale (s : Replicas ι) (row : Row) : Prop :=
  (∀ current ∈ s.outbox, current.id = row.id → current.due = false) ∧
    ∃ later ∈ s.log, later.lane = row.lane ∧ row.id < later.row

/-- A row becomes visible when a later row of its key is on the topic. -/
def Replicas.Late (s : Replicas ι) (row : Row) : Prop :=
  s.fresh row = true ∧ ∃ later ∈ s.log, later.lane = row.lane ∧ row.id < later.row

/-- The last attempt of the newest row of its key is used up, and none has landed. -/
def Replicas.Parks (s : Replicas ι) (row : Row) : Prop :=
  (∃ current ∈ s.outbox, current.id = row.id ∧ current.due = true ∧
      maxAttempts ≤ current.attempts + 1) ∧
    row.message ∉ s.log ∧ ∀ other ∈ s.written, other.lane = row.lane → other.row ≤ row.id

/-- Some turns leave an older message behind a newer one. -/
def Replicas.Faulty (s : Replicas ι) : Turn ι → Prop
  | .commit row => s.Late row
  | .send i true => ∃ row ∈ (s.phases i).next.toList, s.Overtakes row ∨ s.Stale row
  | .record i _ => ∃ row ∈ (s.phases i).failed.toList, s.Parks row
  | _ => False

instance (s : Replicas ι) (turn : Turn ι) : Decidable (s.Faulty turn) := by
  unfold Replicas.Faulty Replicas.Overtakes Replicas.Stale Replicas.Late Replicas.Parks
  split <;> infer_instance

end Faults

end Souq.Catalog.Relay
