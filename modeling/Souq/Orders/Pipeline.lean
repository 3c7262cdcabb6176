import Souq.Lib.ReadCommitted
import Souq.Orders.Board

/-!
# Inbox, outbox and relay

The transactions of order-service and the ticks of its outbox relay, side by side. A
transaction runs statement by statement under READ COMMITTED. The rows it inserts into
`outbox` draw their ids from the sequence when they are inserted and are there for the
relay when the transaction commits. A tick of the relay claims a batch, publishes it
topic by topic, marks what the broker took and commits, or rolls everything back.
Transactions and ticks can be lost between any two steps; what the broker has taken
stays.

`tick` of `eventbus/relay.go`, `ClaimBatch`, `MarkPublished`, `MarkFailed` and
`PurgeProcessed` of `store/outbox.go` are modelled here, the transactions themselves in
`Orders.Orchestrator`.
-/

namespace Souq.Orders

open Saga Transact Transition Function

/-- A statement about one order, or the janitor's purge of the inbox. Which rows are old
enough to be purged is an argument. -/
inductive SharedStmt where
  | about (orderID : ID) (q : Stmt)
  | purgeProcessed (ids : List ID)

def SharedStmt.Answer : SharedStmt → Type
  | .about _ q => q.Answer
  | .purgeProcessed _ => Unit

/-- The new version of one row, or rows that are gone. -/
inductive SharedWrite where
  | about (orderID : ID) (w : Write)
  | purge (ids : List ID)

/-- The row locks. The inbox and the event ids of the outbox are common to all orders. -/
inductive SharedKey where
  | order (orderID : ID)
  | step (orderID : ID) (step : Step)
  | inbox (eventID : ID)
  | outbox (eventID : ID)
  deriving DecidableEq

def SharedKey.of (orderID : ID) : Key → SharedKey
  | .order => .order orderID
  | .step command => .step orderID command
  | .inbox eventID => .inbox eventID
  | .outbox eventID => .outbox eventID

def SharedWrite.put : SharedWrite → Database → Database
  | .about orderID w, db => db.store orderID (w.put (db.focus orderID))
  | .purge ids, db => { db with processed := db.processed.filter fun id => !ids.contains id }

/-- The rows of the inbox a purge finds. -/
def Database.purged (db : Database) (ids : List ID) : List ID :=
  ids.filter fun id => db.processed.contains id

/-- The statements of order-service on the tables of all orders. -/
abbrev shared : Dialect where
  Db := Database
  Stmt := SharedStmt
  Answer := SharedStmt.Answer
  Write := SharedWrite
  Key := SharedKey
  answer := fun
    | .about orderID q, db => q.answer (db.focus orderID)
    | .purgeProcessed _, _ => ()
  writes := fun
    | .about orderID q, db => (q.writes (db.focus orderID)).map (.about orderID)
    | .purgeProcessed ids, db => [.purge (db.purged ids)]
  put := SharedWrite.put
  keys := fun
    | .about orderID q, db => (q.keys (db.focus orderID)).map (.of orderID)
    | .purgeProcessed ids, db => (db.purged ids).map .inbox
  skip := fun
    | .about _ q => q.skip
    | .purgeProcessed _ => none

abbrev SharedTx := Program shared Err

/-- The part of a transaction that is about one order. -/
def about {α : Type} (orderID : ID) : Tx α → SharedTx α
  | .done a => .done a
  | .fail e => .fail e
  | .call q rest => .call (.about orderID q) fun answer => about orderID (rest answer)

def claimAll (now : Time) : List ID → SharedTx (List OverdueOrder)
  | [] => .done []
  | orderID :: orderIDs => do
    let found ← about orderID (claimOverdue sweepBatch now)
    let others ← claimAll now orderIDs
    pure (found ++ others)

/-- One sweep: of the rows in a batch, those that are found and locked are fired. -/
def sweepBatchOf (mint : ID → Step → Mint) (now : Time) (batch : List OverdueOrder) :
    SharedTx Unit := do
  let found ← claimAll now (batch.map OverdueOrder.orderID).dedup
  Program.forEach (fun ov => about ov.orderID (sweep (mint ov.orderID ov.step) now ov))
    (batch.filter fun ov => decide (ov ∈ found))

/-- A transaction of the service. -/
inductive Job where
  | handle (e : Envelope) (mint : Mint) (now : Time)
  | place (id : ID) (input : PlaceOrderInput) (total : Money) (mint : Mint) (now : Time)
  | cancel (orderID userID : ID) (mint : Mint) (now : Time)
  | sweep (batch : List OverdueOrder) (mint : ID → Step → Mint) (now : Time)
  | purge (ids : List ID)

def Job.body : Job → SharedTx Unit
  | .handle e mint now => about (e.orderID.getD 0) (Orders.handle mint now e)
  | .place id input total mint now => about id (placeOrder mint now (newOrder id input total))
  | .cancel orderID userID mint now => about orderID (cancelOrder mint now userID)
  | .sweep batch mint now => sweepBatchOf mint now batch
  | .purge ids => Program.stmt (D := shared) (.purgeProcessed ids)

def Job.program (job : Job) : SharedTx Job := job.body >>= fun _ => pure job

def acceptType : EventType → Bool
  | .other _ => false
  | _ => true

/-- Only events of an accepted type are handed to `Handle`. -/
def Job.admitted : Job → Bool
  | .handle e _ _ => acceptType e.type
  | _ => true

/-- A topic of the broker. -/
inductive Topic where
  | orderCommands
  | orderEvents
  deriving DecidableEq

def Message.topic : Message → Topic
  | .command _ => .orderCommands
  | .event _ => .orderEvents

/-- A row of `outbox` with its columns for the relay. -/
structure OutboxRow where
  id : Nat
  partitionKey : ID
  record : OutboxRecord
  published : Bool := false
  attempts : Nat := 0
  deriving DecidableEq

def OutboxRow.topic (row : OutboxRow) : Topic := row.record.message.topic

/-- What a row inserts, without the columns of the relay. -/
def OutboxRow.content (row : OutboxRow) : ID × OutboxRecord := (row.partitionKey, row.record)

/-- An `UPDATE` of the relay. -/
inductive Update where
  | markPublished (ids : List Nat)
  | markFailed (ids : List Nat)

/-- What an `UPDATE` makes of a row. -/
def Update.on (row : OutboxRow) : Update → OutboxRow
  | .markPublished ids => if ids.contains row.id then { row with published := true } else row
  | .markFailed ids =>
    if ids.contains row.id then { row with attempts := row.attempts + 1 } else row

/-- The transaction of a tick: the rows it has claimed, the topics it has yet to publish
to, the ids the broker took, the first error and the updates so far. -/
structure Tick where
  batch : List OutboxRow
  topics : List Topic
  succeeded : List Nat := []
  firstErr : Option String := none
  updates : List Update := []

def Tick.rowsOf (tick : Tick) (topic : Topic) : List OutboxRow :=
  tick.batch.filter fun row => row.topic == topic

/-- A job that has committed, and what it wrote. -/
structure Commit where
  job : Job
  writes : List SharedWrite

/-- The transactions and ticks in progress, the tables, and what the broker has taken,
in order. The rows whose publication it has acknowledged and the transactions that
committed are remembered. -/
structure Pipeline (ι κ : Type) where
  config : Config shared ι Err Job := Config.idle {}
  inserted : ι → List OutboxRow := fun _ => []
  sequence : Nat := 1
  outbox : List OutboxRow := []
  relays : κ → Option Tick := fun _ => none
  broker : List OutboxRow := []
  acked : List OutboxRow := []
  commits : List Commit := []

/-- What can happen next. When a publication fails, it is with an error and the ids of the
rows that were written all the same. -/
inductive PipelineAction (ι κ : Type) where
  | start (i : ι) (job : Job)
  | run (i : ι)
  | abort (i : ι)
  | claim (j : κ) (limit : Nat)
  | publish (j : κ) (topic : Topic) (outcome : Except (String × List Nat) Unit)
  | finish (j : κ)
  | drop (j : κ)

def numbered (next : Nat) : List (ID × OutboxRecord) → List OutboxRow
  | [] => []
  | (orderID, record) :: records => ⟨next, orderID, record, false, 0⟩ :: numbered (next + 1) records

/-- What a write inserts into `outbox`. -/
def SharedWrite.insert : SharedWrite → Option (ID × OutboxRecord)
  | .about orderID (.outbox record) => some (orderID, record)
  | _ => none

namespace Pipeline

variable {ι κ : Type}

section Transactions

variable [DecidableEq ι]

def start (s : Pipeline ι κ) (i : ι) (job : Job) : Pipeline ι κ :=
  match s.config.sessions i with
  | some _ => s
  | none =>
    if job.admitted then { s with config := s.config.set i (some { program := job.program }) }
    else s

def abort (s : Pipeline ι κ) (i : ι) : Pipeline ι κ :=
  { s with config := s.config.set i none, inserted := update s.inserted i [] }

def exec (s : Pipeline ι κ) (i : ι) (session : Session shared Err Job) (q : SharedStmt)
    (rest : q.Answer → SharedTx Job) : Pipeline ι κ :=
  let rows := numbered s.sequence
    ((shared.writes q (session.view s.config.db)).filterMap SharedWrite.insert)
  { s with
    config := s.config.set i (some (session.exec s.config.db q rest))
    inserted := update s.inserted i (s.inserted i ++ rows)
    sequence := s.sequence + rows.length }

def commit (s : Pipeline ι κ) (i : ι) (session : Session shared Err Job) (job : Job) :
    Pipeline ι κ :=
  { s with
    config :=
      { db := session.view s.config.db, sessions := update s.config.sessions i none }
    inserted := update s.inserted i []
    outbox := s.outbox ++ s.inserted i
    commits := s.commits ++ [⟨job, session.writes⟩] }

/-- A transaction takes its next step, if it does not have to wait. -/
def run [Fintype ι] (s : Pipeline ι κ) (i : ι) : Pipeline ι κ :=
  match s.config.sessions i with
  | none => s
  | some session =>
    match session.program with
    | .done job => s.commit i session job
    | .fail _ => s.abort i
    | .call q rest =>
      if s.config.Blocked i session q then
        match shared.skip q with
        | some answer =>
          { s with config := s.config.set i (some { session with program := rest answer }) }
        | none => s
      else s.exec i session q rest

end Transactions

section Relay

variable [DecidableEq κ]

def locked [Fintype κ] (s : Pipeline ι κ) (j : κ) (row : OutboxRow) : Bool :=
  decide (∃ other, other ≠ j ∧ ∃ tick ∈ s.relays other, ∃ held ∈ tick.batch, held.id = row.id)

def claimBatch [Fintype κ] (s : Pipeline ι κ) (j : κ) (limit : Nat) : List OutboxRow :=
  ((s.outbox.filter fun row => !row.published && !s.locked j row).insertionSort
    fun a b => a.id ≤ b.id).take limit

/-- A tick begins with its claim. There is nothing to do when it finds no rows. -/
def claim [Fintype κ] (s : Pipeline ι κ) (j : κ) (limit : Nat) : Pipeline ι κ :=
  match s.relays j with
  | some _ => s
  | none =>
    let batch := s.claimBatch j limit
    if batch.isEmpty then s
    else
      { s with
        relays := update s.relays j
          (some { batch := batch, topics := (batch.map OutboxRow.topic).dedup }) }

def took (s : Pipeline ι κ) (j : κ) (tick : Tick) (topic : Topic) : Pipeline ι κ :=
  { s with
    broker := s.broker ++ tick.rowsOf topic
    acked := s.acked ++ tick.rowsOf topic
    relays := update s.relays j (some { tick with
      topics := tick.topics.erase topic
      succeeded := tick.succeeded ++ (tick.rowsOf topic).map OutboxRow.id }) }

/-- Publishing a topic fails. The broker may have taken some of the rows. -/
def refused (s : Pipeline ι κ) (j : κ) (tick : Tick) (topic : Topic) (err : String)
    (written : List Nat) : Pipeline ι κ :=
  { s with
    broker := s.broker ++ (tick.rowsOf topic).filter fun row => written.contains row.id
    relays := update s.relays j (some { tick with
      topics := tick.topics.erase topic
      firstErr := tick.firstErr <|> some err
      updates := tick.updates ++ [.markFailed ((tick.rowsOf topic).map OutboxRow.id)] }) }

def marked (s : Pipeline ι κ) (j : κ) (tick : Tick) : Pipeline ι κ :=
  { s with
    outbox := s.outbox.map fun row =>
      (tick.updates ++ [Update.markPublished tick.succeeded]).foldl Update.on row
    relays := update s.relays j none }

def drop (s : Pipeline ι κ) (j : κ) : Pipeline ι κ :=
  { s with relays := update s.relays j none }

def publish (s : Pipeline ι κ) (j : κ) (topic : Topic) (outcome : Except (String × List Nat) Unit) :
    Pipeline ι κ :=
  match s.relays j with
  | none => s
  | some tick =>
    if topic ∈ tick.topics then
      match outcome with
      | .ok () => s.took j tick topic
      | .error (err, written) => s.refused j tick topic err written
    else s

/-- A tick marks what the broker took and commits, unless a publication failed. -/
def finish (s : Pipeline ι κ) (j : κ) : Pipeline ι κ :=
  match s.relays j with
  | none => s
  | some tick =>
    if tick.topics = [] then
      match tick.firstErr with
      | none => s.marked j tick
      | some _ => s.drop j
    else s

end Relay

/-- A step of a transaction, a relay or the purge. -/
def step [DecidableEq ι] [DecidableEq κ] [Fintype ι] [Fintype κ] (s : Pipeline ι κ) :
    PipelineAction ι κ → Pipeline ι κ
  | .start i job => s.start i job
  | .run i => s.run i
  | .abort i => s.abort i
  | .claim j limit => s.claim j limit
  | .publish j topic outcome => s.publish j topic outcome
  | .finish j => s.finish j
  | .drop j => s.drop j

/-- What an action can do. -/
inductive Moves [DecidableEq ι] [DecidableEq κ] [Fintype κ] (s : Pipeline ι κ) :
    Pipeline ι κ → Prop where
  | stays : Moves s s
  | start {i : ι} {job : Job} (idle : s.config.sessions i = none) (admitted : job.admitted = true) :
      Moves s { s with config := s.config.set i (some { program := job.program }) }
  | exec {i : ι} {session : Session shared Err Job} {q : SharedStmt}
      {rest : q.Answer → SharedTx Job} (active : s.config.sessions i = some session)
      (calls : session.program = .call q rest) (free : ¬ s.config.Blocked i session q) :
      Moves s (s.exec i session q rest)
  | skip {i : ι} {session : Session shared Err Job} {q : SharedStmt}
      {rest : q.Answer → SharedTx Job} {answer : q.Answer}
      (active : s.config.sessions i = some session) (calls : session.program = .call q rest)
      (blocked : s.config.Blocked i session q) (skips : shared.skip q = some answer) :
      Moves s { s with config := s.config.set i (some { session with program := rest answer }) }
  | commit {i : ι} {session : Session shared Err Job} {job : Job}
      (active : s.config.sessions i = some session) (finished : session.program = .done job) :
      Moves s (s.commit i session job)
  | abort (i : ι) : Moves s (s.abort i)
  | claim {j : κ} {limit : Nat} (idle : s.relays j = none) :
      Moves s { s with
        relays := update s.relays j (some
          { batch := s.claimBatch j limit
            topics := ((s.claimBatch j limit).map OutboxRow.topic).dedup }) }
  | took {j : κ} {tick : Tick} {topic : Topic} (active : s.relays j = some tick)
      (pending : topic ∈ tick.topics) : Moves s (s.took j tick topic)
  | refused {j : κ} {tick : Tick} {topic : Topic} {err : String} {written : List Nat}
      (active : s.relays j = some tick) (pending : topic ∈ tick.topics) :
      Moves s (s.refused j tick topic err written)
  | marked {j : κ} {tick : Tick} (active : s.relays j = some tick) (finished : tick.topics = [])
      (succeeded : tick.firstErr = none) : Moves s (s.marked j tick)
  | drop (j : κ) : Moves s (s.drop j)

variable (s : Pipeline ι κ)

theorem moves_run [DecidableEq ι] [DecidableEq κ] [Fintype ι] [Fintype κ] (i : ι) :
    s.Moves (s.run i) := by
  unfold run
  split
  · exact .stays
  · rename_i session active
    split
    · rename_i job finished
      exact .commit active finished
    · exact .abort i
    · rename_i q rest calls
      split
      · rename_i blocked
        split
        · rename_i answer skips
          exact .skip active calls blocked skips
        · exact .stays
      · rename_i free
        exact .exec active calls free

theorem moves_publish [DecidableEq ι] [DecidableEq κ] [Fintype κ] (j : κ) (topic : Topic)
    (outcome : Except (String × List Nat) Unit) :
    s.Moves (s.publish j topic outcome) := by
  unfold publish
  split
  · exact .stays
  · rename_i tick active
    split
    · rename_i pending
      split
      · exact .took active pending
      · exact .refused active pending
    · exact .stays

theorem moves_finish [DecidableEq ι] [DecidableEq κ] [Fintype κ] (j : κ) :
    s.Moves (s.finish j) := by
  unfold finish
  split
  · exact .stays
  · rename_i tick active
    split
    · rename_i finished
      split
      · rename_i succeeded
        exact .marked active finished succeeded
      · exact .drop j
    · exact .stays

theorem moves_step [DecidableEq ι] [DecidableEq κ] [Fintype ι] [Fintype κ]
    (a : PipelineAction ι κ) :
    s.Moves (s.step a) := by
  cases a with
  | start i job =>
    change s.Moves (s.start i job)
    unfold start
    split
    · exact .stays
    · rename_i idle
      split
      · rename_i admitted
        exact .start idle admitted
      · exact .stays
  | run i => exact s.moves_run i
  | abort i => exact .abort i
  | claim j limit =>
    change s.Moves (s.claim j limit)
    unfold claim
    split
    · exact .stays
    · rename_i idle
      simp only
      split
      · exact .stays
      · exact .claim idle
  | publish j topic outcome => exact s.moves_publish j topic outcome
  | finish j => exact s.moves_finish j
  | drop j => exact .drop j

end Pipeline

/-- Order-service at work on empty tables, with any number of transactions and relays. -/
def pipeline (ι κ : Type) [DecidableEq ι] [DecidableEq κ] [Fintype ι] [Fintype κ] :
    System (Pipeline ι κ) (PipelineAction ι κ) :=
  .ofFunction {} Pipeline.step

end Souq.Orders
