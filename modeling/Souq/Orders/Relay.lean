import Mathlib
import Souq.Orders.Database

/-!
# One tick of the relay

`tick` of `eventbus/relay.go` with `ClaimBatch`, `MarkPublished` and `MarkFailed` of
`store/outbox.go` and the transaction `InTx` puts around them. The tick publishes the
rows it has claimed topic by topic and marks every topic by its outcome, but it ends with
the first error, and `InTx` rolls back what ends with an error: one topic that fails
takes the marks of all topics with it.

The broker is a function from a topic and its messages to an error, and the order in
which Go walks through the map of topics is any. A statement that Postgres refuses aborts
the transaction, and every later statement fails.
-/

namespace Souq.Orders.Relay

open List

/-- A row of `outbox`. Its headers are decoded, if they are an object of strings. -/
structure OutboxEntry where
  id : Nat
  eventID : String
  topic : String
  partitionKey : String
  payload : String
  headers : Option (List (String × String))
  createdAt : Time
  publishedAt : Option Time := none
  attempts : Nat := 0
  lastError : Option String := none
  deriving DecidableEq

/-- The table `outbox`, with its primary key. -/
structure Outbox where
  rows : List OutboxEntry
  nodup : (rows.map OutboxEntry.id).Nodup

/-- `UPDATE outbox … WHERE id = ANY(ids)`, which does not change ids. -/
def Outbox.update (table : Outbox) (ids : List Nat) (set : OutboxEntry → OutboxEntry)
    (kept : ∀ row, (set row).id = row.id) : Outbox where
  rows := table.rows.map fun row => if row.id ∈ ids then set row else row
  nodup := by
    have same : (table.rows.map fun row => if row.id ∈ ids then set row else row).map
        OutboxEntry.id = table.rows.map OutboxEntry.id := by
      rw [map_map]
      refine map_congr_left fun row _ => ?_
      change (if row.id ∈ ids then set row else row).id = row.id
      split
      · exact kept row
      · rfl
    rw [same]
    exact table.nodup

/-- A transaction in progress: what it sees of the table, and whether a statement failed. -/
structure Tx where
  table : Outbox
  aborted : Bool := false

/-- Run a function in a transaction. An error rolls back, and so does the commit of a
transaction that is aborted. -/
def inTx {α : Type} (fn : Tx → Except String α × Tx) (table : Outbox) :
    Except String α × Outbox :=
  match fn { table } with
  | (.error err, _) => (.error err, table)
  | (.ok a, tx) => if tx.aborted then (.error "commit", table) else (.ok a, tx.table)

/-- The largest value of an `INT` column. -/
def maxInt : Nat := 2 ^ 31 - 1

/-- The first `n` bytes of a text. A text column does not take half a character. -/
def truncate (s : String) (n : Nat) : Option String :=
  if s.utf8ByteSize ≤ n then some s else String.fromUTF8? (s.toUTF8.extract 0 n)

def markPublished (now : Time) (ids : List Nat) (tx : Tx) : Except String Unit × Tx :=
  if ids = [] then (.ok (), tx)
  else if tx.aborted then (.error "mark outbox published", tx)
  else (.ok (), { tx with
    table := tx.table.update ids (fun row => { row with publishedAt := some now }) fun _ => rfl })

/-- Record a publish failure. The statement is refused when a counter would overflow. -/
def markFailed (ids : List Nat) (reason : String) (tx : Tx) : Except String Unit × Tx :=
  if ids = [] then (.ok (), tx)
  else if tx.aborted then (.error "current transaction is aborted", tx)
  else
    match truncate reason 1000 with
    | none => (.error "invalid byte sequence", { tx with aborted := true })
    | some text =>
      if ∃ row ∈ tx.table.rows, row.id ∈ ids ∧ row.attempts = maxInt then
        (.error "integer out of range", { tx with aborted := true })
      else (.ok (), { tx with
        table := tx.table.update ids
          (fun row => { row with attempts := row.attempts + 1, lastError := some text })
          fun _ => rfl })

/-- The first rows that are not published, less those another transaction has locked. -/
def pending (locked : Nat → Bool) (limit : Nat) (table : Outbox) : List OutboxEntry :=
  ((table.rows.filter fun row => row.publishedAt.isNone && !locked row.id).insertionSort
    fun a b => a.id ≤ b.id).take limit

/-- The pending rows that nobody has locked. -/
def claimBatch (locked : Nat → Bool) (limit : Nat) (table : Outbox) :
    Except String (List OutboxEntry) :=
  match (pending locked limit table).find? fun row => row.headers.isNone with
  | some row => .error ("unmarshal outbox headers for " ++ row.eventID)
  | none => .ok (pending locked limit table)

/-- A message as it is sent. -/
structure KafkaMessage where
  key : String
  value : String
  headers : List (String × String)
  time : Time

def OutboxEntry.message (row : OutboxEntry) : KafkaMessage :=
  ⟨row.partitionKey, row.payload, row.headers.getD [], row.createdAt⟩

def rowsOf (batch : List OutboxEntry) (topic : String) : List OutboxEntry :=
  batch.filter fun row => row.topic = topic

abbrev Publisher := String → List KafkaMessage → Option String

/-- The error of the batch of a topic. -/
def outcome (publish : Publisher) (batch : List OutboxEntry) (topic : String) : Option String :=
  publish topic ((rowsOf batch topic).map OutboxEntry.message)

/-- The loop over the topics. It collects the ids that were published and the first
error, and only warns when a failure cannot be recorded. -/
def publishTopics (publish : Publisher) (batch : List OutboxEntry) :
    List String → List Nat × Option String × Tx → List Nat × Option String × Tx
  | [], state => state
  | topic :: topics, (succeeded, firstErr, tx) =>
    match outcome publish batch topic with
    | some err =>
      publishTopics publish batch topics (succeeded, some (firstErr.getD err),
          (markFailed ((rowsOf batch topic).map OutboxEntry.id) err tx).2)
    | none =>
      publishTopics publish batch topics
        (succeeded ++ (rowsOf batch topic).map OutboxEntry.id, firstErr, tx)

/-- What else a tick depends on: the broker, the clock, the rows other transactions have
locked, the batch size, and the order in which the map of topics is walked through. -/
structure Surroundings where
  publish : Publisher
  now : Time
  locked : Nat → Bool
  batchSize : Nat
  walk : List String → List String
  walks : ∀ topics, (walk topics).Perm topics

def Surroundings.topics (env : Surroundings) (batch : List OutboxEntry) : List String :=
  env.walk (batch.map OutboxEntry.topic).dedup

/-- The transaction of a tick. It returns how many rows were published. -/
def Surroundings.body (env : Surroundings) (tx : Tx) : Except String Nat × Tx :=
  match claimBatch env.locked env.batchSize tx.table with
  | .error err => (.error err, tx)
  | .ok batch =>
    if batch = [] then (.ok 0, tx)
    else
      let (succeeded, firstErr, tx) :=
        publishTopics env.publish batch (env.topics batch) ([], none, tx)
      match markPublished env.now succeeded tx with
      | (.error err, tx) => (.error err, tx)
      | (.ok _, tx) =>
        match firstErr with
        | some err => (.error err, tx)
        | none => (.ok succeeded.length, tx)

/-- One batch in its transaction. -/
def tick (env : Surroundings) (table : Outbox) : Except String Nat × Outbox :=
  inTx env.body table

/-- A failing topic does not hold back the others: after the tick, the rows of the topics
that were published are published and never claimed again, and the rows of the topics that
failed are pending, with one more attempt and an error. -/
structure Isolated (env : Surroundings) (batch : List OutboxEntry) (after : Outbox) : Prop where
  published : ∀ row ∈ batch, outcome env.publish batch row.topic = none →
    ∃ later ∈ after.rows, later.id = row.id ∧ later.publishedAt.isSome
  unclaimed : ∀ row ∈ batch, outcome env.publish batch row.topic = none →
    ∀ locked limit, ∀ again ∈ pending locked limit after, again.id ≠ row.id
  failed : ∀ row ∈ batch, (outcome env.publish batch row.topic).isSome →
    ∃ later ∈ after.rows, later.id = row.id ∧ later.publishedAt = none ∧
      later.attempts = row.attempts + 1 ∧ later.lastError.isSome

variable {table : Outbox} {row : OutboxEntry} {batch : List OutboxEntry} {env : Surroundings}

theorem mem_pending {locked : Nat → Bool} {limit : Nat} (mem : row ∈ pending locked limit table) :
    row ∈ table.rows ∧ row.publishedAt = none := by
  have found := (mem_insertionSort _).mp (mem_of_mem_take mem)
  obtain ⟨there, free⟩ := mem_filter.mp found
  simp only [Bool.and_eq_true, Option.isNone_iff_eq_none] at free
  exact ⟨there, free.1⟩

theorem claimBatch_ok {locked : Nat → Bool} {limit : Nat}
    (claimed : claimBatch locked limit table = .ok batch) :
    batch = pending locked limit table := by
  unfold claimBatch at claimed
  split at claimed
  · cases claimed
  · cases claimed
    rfl

theorem Surroundings.mem_topics {topic : String} :
    topic ∈ env.topics batch ↔ ∃ row ∈ batch, row.topic = topic := by
  rw [Surroundings.topics, (env.walks _).mem_iff, mem_dedup, mem_map]

theorem publishTopics_taken {publish : Publisher} {topics : List String}
    (taken : ∀ topic ∈ topics, outcome publish batch topic = none) (succeeded : List Nat)
    (firstErr : Option String) (tx : Tx) :
    publishTopics publish batch topics (succeeded, firstErr, tx) =
      (succeeded ++ topics.flatMap fun topic => (rowsOf batch topic).map OutboxEntry.id,
        firstErr, tx) := by
  induction topics generalizing succeeded with
  | nil => rw [publishTopics, flatMap_nil, append_nil]
  | cons topic topics ih =>
    rw [publishTopics, taken topic (mem_cons_self ..)]
    rw [ih (fun other mem => taken other (mem_cons_of_mem _ mem)), flatMap_cons, append_assoc]

theorem publishTopics_keeps (publish : Publisher) (batch : List OutboxEntry)
    (topics : List String) (succeeded : List Nat) (err : String) (tx : Tx) :
    (publishTopics publish batch topics (succeeded, some err, tx)).2.1 = some err := by
  induction topics generalizing succeeded tx with
  | nil => rfl
  | cons topic topics ih =>
    rw [publishTopics]
    cases outcome publish batch topic with
    | none => exact ih _ _
    | some other => exact ih _ _

theorem publishTopics_failed {publish : Publisher} {topics : List String} {topic : String}
    (mem : topic ∈ topics) (failed : (outcome publish batch topic).isSome) (succeeded : List Nat)
    (firstErr : Option String) (tx : Tx) :
    (publishTopics publish batch topics (succeeded, firstErr, tx)).2.1.isSome := by
  induction topics generalizing succeeded firstErr tx with
  | nil => cases mem
  | cons other topics ih =>
    rw [publishTopics]
    cases result : outcome publish batch other with
    | some err =>
      change (publishTopics publish batch topics (_, _, _)).2.1.isSome
      rw [publishTopics_keeps]
      rfl
    | none =>
      rcases mem_cons.mp mem with rfl | mem
      · rw [result] at failed
        cases failed
      · exact ih mem _ _ _

theorem Surroundings.id_mem (mem : row ∈ batch) :
    row.id ∈ (env.topics batch).flatMap fun topic => (rowsOf batch topic).map OutboxEntry.id := by
  refine mem_flatMap.mpr ⟨row.topic, env.mem_topics.mpr ⟨row, mem, rfl⟩, ?_⟩
  exact mem_map.mpr ⟨row, mem_filter.mpr ⟨mem, by simp⟩, rfl⟩

theorem tick_taken (claimed : claimBatch env.locked env.batchSize table = .ok batch)
    (taken : ∀ row ∈ batch, outcome env.publish batch row.topic = none) (nonempty : batch ≠ []) :
    (tick env table).2 = table.update
      ((env.topics batch).flatMap fun topic => (rowsOf batch topic).map OutboxEntry.id)
      (fun row => { row with publishedAt := some env.now }) fun _ => rfl := by
  have all : ∀ topic ∈ env.topics batch, outcome env.publish batch topic = none := by
    intro topic mem
    obtain ⟨row, there, rfl⟩ := env.mem_topics.mp mem
    exact taken row there
  obtain ⟨row, there⟩ := exists_mem_of_ne_nil batch nonempty
  have ids : ((env.topics batch).flatMap fun topic =>
      (rowsOf batch topic).map OutboxEntry.id) ≠ [] := ne_nil_of_mem (env.id_mem there)
  simp only [tick, inTx, Surroundings.body, claimed, if_neg nonempty,
    publishTopics_taken all, nil_append, markPublished, if_neg ids, Bool.false_eq_true,
    if_false]

/-- **One topic that fails undoes the tick.** Nothing it marked is committed. -/
theorem tick_failed (claimed : claimBatch env.locked env.batchSize table = .ok batch)
    (mem : row ∈ batch) (failed : (outcome env.publish batch row.topic).isSome) :
    (tick env table).2 = table := by
  have nonempty : batch ≠ [] := ne_nil_of_mem mem
  have error := publishTopics_failed (env.mem_topics.mpr ⟨row, mem, rfl⟩) failed [] none { table }
  unfold tick inTx
  split
  · rfl
  rename_i count tx done
  exfalso
  simp only [Surroundings.body, claimed, if_neg nonempty] at done
  split at done
  · cases done
  · rw [Option.isSome_iff_exists] at error
    obtain ⟨err, error⟩ := error
    rw [error] at done
    cases done

/-- **A failing topic holds back all others.** Whatever the outbox and the outcomes, the
tick keeps topics apart if and only if no topic of the batch it claimed fails. -/
theorem isolated_iff_none_failed (env : Surroundings) (table : Outbox) :
    (∀ batch, claimBatch env.locked env.batchSize table = .ok batch →
        Isolated env batch (tick env table).2) ↔
      ∀ batch, claimBatch env.locked env.batchSize table = .ok batch →
        ∀ row ∈ batch, outcome env.publish batch row.topic = none := by
  constructor
  · intro isolated batch claimed row mem
    by_contra failure
    have failed := Option.isSome_iff_ne_none.mpr failure
    obtain ⟨later, there, same, -, attempts, -⟩ := (isolated batch claimed).failed row mem failed
    rw [tick_failed claimed mem failed] at there
    have claimedRow : row ∈ table.rows :=
      (mem_pending (claimBatch_ok claimed ▸ mem)).1
    obtain rfl := inj_on_of_nodup_map table.nodup there claimedRow same
    omega
  · intro taken batch claimed
    have all := taken batch claimed
    by_cases nonempty : batch = []
    · subst nonempty
      exact ⟨by simp, by simp, by simp⟩
    rw [tick_taken claimed all nonempty]
    exact {
      published := fun row mem _ => by
        have there : row ∈ table.rows := (mem_pending (claimBatch_ok claimed ▸ mem)).1
        refine ⟨{ row with publishedAt := some env.now }, mem_map.mpr ⟨row, there, ?_⟩,
          rfl, rfl⟩
        exact if_pos (env.id_mem mem)
      unclaimed := fun row mem _ locked limit again claimedAgain same => by
        obtain ⟨there, free⟩ := mem_pending claimedAgain
        obtain ⟨earlier, -, rfl⟩ := mem_map.mp there
        split at same
        · rename_i marked
          rw [if_pos marked] at free
          cases free
        · rename_i unmarked
          exact unmarked (same ▸ env.id_mem mem)
      failed := fun row mem failure => by
        rw [all row mem] at failure
        cases failure }

/-- A broker that takes commands and refuses events. -/
def eventsDown : Surroundings where
  publish := fun topic _ => if topic = "souq.order.events.v1" then some "broker down" else none
  now := 20
  locked := fun _ => false
  batchSize := 100
  walk := id
  walks := fun topics => List.Perm.refl topics

def commandAndEvent : Outbox where
  rows := [
    { id := 1, eventID := "e1", topic := "souq.order.commands.v1", partitionKey := "o",
      payload := "\x7b\x7d",
      headers := some [], createdAt := 10 },
    { id := 2, eventID := "e2", topic := "souq.order.events.v1", partitionKey := "o",
      payload := "\x7b\x7d",
      headers := some [], createdAt := 10 }]
  nodup := by decide

/-- The command is published, and pending as before after the tick. -/
theorem command_held_back :
    outcome eventsDown.publish commandAndEvent.rows "souq.order.commands.v1" = none ∧
    claimBatch eventsDown.locked eventsDown.batchSize commandAndEvent = .ok commandAndEvent.rows ∧
    (tick eventsDown commandAndEvent).2.rows = commandAndEvent.rows ∧
    ¬ Isolated eventsDown commandAndEvent.rows (tick eventsDown commandAndEvent).2 := by
  have unchanged : (tick eventsDown commandAndEvent).2.rows = commandAndEvent.rows := by
    decide +kernel
  refine ⟨by decide +kernel, by decide +kernel, unchanged, fun isolated => ?_⟩
  obtain ⟨later, there, same, published⟩ := isolated.published
    { id := 1, eventID := "e1", topic := "souq.order.commands.v1", partitionKey := "o",
      payload := "\x7b\x7d", headers := some [], createdAt := 10 }
    (by decide +kernel) (by decide +kernel)
  rw [unchanged] at there
  revert later
  decide +kernel

end Souq.Orders.Relay
