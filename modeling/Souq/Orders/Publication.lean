import Mathlib
import Souq.Orders.OrderLock

/-!
# The order of publication

Rows of one order on one topic go to one partition, and a consumer meets them there in
the order the broker took them. A tick claims its batch by id and publishes it by id, but
it passes over the rows another tick holds. So a row can overtake an earlier row of its
order, which stands with a slower relay or with one whose publication failed.

`published_in_order` excludes exactly the two kinds of steps that let this happen: a
claim that passes over an earlier row of an order that is not published yet, and a failed
publication of which the broker took a later row of an order without an earlier one.
-/

namespace Souq.Orders

open Saga Transact Transition Function List OutboxRow

def OutboxRow.stream (row : OutboxRow) : ID × Topic := (row.partitionKey, row.topic)

theorem stream_of_content {a b : OutboxRow} (same : a.content = b.content) :
    a.stream = b.stream := by
  simp only [content, Prod.mk.injEq] at same
  simp only [stream, topic, same]

/-- When a row is published for the first time, the rows of its stream that were published
before have smaller ids. -/
def InOrder (taken : List OutboxRow) : Prop :=
  ∀ (front : List OutboxRow) (row : OutboxRow) (back : List OutboxRow),
    taken = front ++ row :: back → (∀ other ∈ front, other.id ≠ row.id) →
      ∀ other ∈ front, other.stream = row.stream → other.id < row.id

def Led (outbox taken : List OutboxRow) (row : OutboxRow) : Prop :=
  ∀ earlier ∈ outbox, earlier.stream = row.stream → earlier.id < row.id →
    ∃ first ∈ taken, first.id = earlier.id

theorem InOrder.concat {taken : List OutboxRow} {row : OutboxRow} (inOrder : InOrder taken)
    (last : (∀ other ∈ taken, other.id ≠ row.id) → ∀ other ∈ taken,
      other.stream = row.stream → other.id < row.id) : InOrder (taken ++ [row]) := by
  intro front middle back split
  rcases eq_nil_or_concat back with rfl | ⟨back, final, rfl⟩
  · obtain ⟨rfl, same⟩ := append_inj' split rfl
    cases same
    exact last
  · rw [concat_eq_append, ← cons_append, ← append_assoc] at split
    exact inOrder front middle back (append_inj' split rfl).1

section Publish

variable {outbox taken : List OutboxRow}

theorem publish_row {row : OutboxRow} (inOrder : InOrder taken)
    (closed : ∀ other ∈ taken, Led outbox taken other)
    (committed : ∃ own ∈ outbox, own.id = row.id ∧ own.stream = row.stream)
    (led : Led outbox taken row) :
    InOrder (taken ++ [row]) ∧ ∀ other ∈ taken ++ [row], Led outbox (taken ++ [row]) other := by
  refine ⟨inOrder.concat fun fresh other member same => ?_, fun other member earlier inside same
    before => ?_⟩
  · rcases Nat.lt_trichotomy other.id row.id with less | equal | more
    · exact less
    · exact (fresh other member equal).elim
    · obtain ⟨own, inside, id, stream⟩ := committed
      obtain ⟨first, published, first'⟩ :=
        closed other member own inside (stream.trans same.symm) (id ▸ more)
      exact (fresh first published (first'.trans id)).elim
  · have found : ∃ first ∈ taken, first.id = earlier.id := by
      rcases mem_append.mp member with old | new
      · exact closed other old earlier inside same before
      · obtain rfl := mem_singleton.mp new
        exact led earlier inside same before
    obtain ⟨first, published, same⟩ := found
    exact ⟨first, mem_append_left _ published, same⟩

theorem publish_rows {rows : List OutboxRow} (sorted : rows.Pairwise fun a b => a.id ≤ b.id)
    (inOrder : InOrder taken) (closed : ∀ other ∈ taken, Led outbox taken other)
    (committed : ∀ row ∈ rows, ∃ own ∈ outbox, own.id = row.id ∧ own.stream = row.stream)
    (led : ∀ row ∈ rows, Led outbox (taken ++ rows) row) :
    InOrder (taken ++ rows) ∧ ∀ other ∈ taken ++ rows, Led outbox (taken ++ rows) other := by
  induction rows generalizing taken with
  | nil =>
    rw [append_nil]
    exact ⟨inOrder, closed⟩
  | cons row rows ih =>
    obtain ⟨least, sorted⟩ := pairwise_cons.mp sorted
    -- the predecessors of the first row are not among the rows, so they are published
    have first : Led outbox taken row := by
      intro earlier inside same before
      obtain ⟨found, member, id⟩ := led row mem_cons_self earlier inside same before
      rcases mem_append.mp member with old | new
      · exact ⟨found, old, id⟩
      · have later : row.id ≤ found.id := by
          rcases mem_cons.mp new with rfl | new
          · exact Nat.le_refl _
          · exact least found new
        omega
    obtain ⟨inOrder, closed⟩ := publish_row inOrder closed (committed row mem_cons_self) first
    have split : taken ++ row :: rows = (taken ++ [row]) ++ rows := by simp
    rw [split] at led ⊢
    exact ih sorted inOrder closed (fun other member => committed other (mem_cons_of_mem _ member))
      fun other member => led other (mem_cons_of_mem _ member)

end Publish

/-- What was published is in order, and so is what the ticks hold: each row comes after the
rows of its stream that are published or held by the same tick. -/
structure Lined {κ : Type} (outbox : List OutboxRow) (relays : κ → Option Tick)
    (taken : List OutboxRow) : Prop where
  inOrder : InOrder taken
  closed : ∀ row ∈ taken, Led outbox taken row
  sorted : ∀ j tick, relays j = some tick → tick.batch.Pairwise fun a b => a.id ≤ b.id
  ticks : ∀ j tick, relays j = some tick → ∀ row ∈ tick.batch, Led outbox (taken ++ tick.batch) row

namespace Lined

variable {κ : Type} {outbox taken : List OutboxRow} {relays : κ → Option Tick}

theorem grow (lined : Lined outbox relays taken) {more : List OutboxRow}
    (later : ∀ new ∈ more, ∀ old ∈ outbox, old.partitionKey = new.partitionKey → old.id < new.id)
    (known : ∀ row ∈ taken, ∃ own ∈ outbox, own.id = row.id ∧ own.stream = row.stream)
    (held : ∀ j tick, relays j = some tick → ∀ row ∈ tick.batch,
      ∃ own ∈ outbox, own.id = row.id ∧ own.stream = row.stream) :
    Lined (outbox ++ more) relays taken := by
  have led : ∀ {taken row}, (∃ own ∈ outbox, own.id = row.id ∧ own.stream = row.stream) →
      Led outbox taken row → Led (outbox ++ more) taken row := by
    intro taken row own led earlier inside same before
    rcases mem_append.mp inside with old | new
    · exact led earlier old same before
    · obtain ⟨own, inside, id, stream⟩ := own
      have owner : own.partitionKey = earlier.partitionKey :=
        congrArg Prod.fst (stream.trans same.symm)
      have after := later earlier new own inside owner
      omega
  exact ⟨lined.inOrder, fun row member => led (known row member) (lined.closed row member),
    lined.sorted, fun j tick active row member =>
      led (held j tick active row member) (lined.ticks j tick active row member)⟩

theorem mark (lined : Lined outbox relays taken) {f : OutboxRow → OutboxRow}
    (same : ∀ row, (f row).id = row.id ∧ (f row).content = row.content) :
    Lined (outbox.map f) relays taken := by
  have led : ∀ {taken row}, Led outbox taken row → Led (outbox.map f) taken row := by
    intro taken row led earlier inside stream before
    obtain ⟨old, member, rfl⟩ := mem_map.mp inside
    rw [(same old).1] at before ⊢
    exact led old member ((stream_of_content (same old).2).symm.trans stream) before
  exact ⟨lined.inOrder, fun row member => led (lined.closed row member), lined.sorted,
    fun j tick active row member => led (lined.ticks j tick active row member)⟩

variable [DecidableEq κ]

variable {j : κ}

theorem relay (lined : Lined outbox relays taken) {tick : Option Tick} {rows : List OutboxRow}
    (published : InOrder (taken ++ rows) ∧ ∀ other ∈ taken ++ rows, Led outbox (taken ++ rows)
      other) (sorted : ∀ t, tick = some t → t.batch.Pairwise fun a b => a.id ≤ b.id)
    (led : ∀ t, tick = some t → ∀ row ∈ t.batch, Led outbox (taken ++ t.batch) row) :
    Lined outbox (update relays j tick) (taken ++ rows) := by
  refine ⟨published.1, published.2, fun k other found => ?_, fun k other found row member earlier
    inside same before => ?_⟩
  · rw [update_apply] at found
    split at found
    · exact sorted other found
    · exact lined.sorted k other found
  · have before : ∃ first ∈ taken ++ other.batch, first.id = earlier.id := by
      rw [update_apply] at found
      split at found
      · exact led other found row member earlier inside same before
      · exact lined.ticks k other found row member earlier inside same before
    obtain ⟨first, member, id⟩ := before
    refine ⟨first, ?_, id⟩
    simp only [mem_append] at member ⊢
    tauto

theorem quiet (lined : Lined outbox relays taken) {tick : Option Tick}
    (sorted : ∀ t, tick = some t → t.batch.Pairwise fun a b => a.id ≤ b.id)
    (led : ∀ t, tick = some t → ∀ row ∈ t.batch, Led outbox (taken ++ t.batch) row) :
    Lined outbox (update relays j tick) taken := by
  have published : InOrder (taken ++ []) ∧
      ∀ other ∈ taken ++ [], Led outbox (taken ++ []) other := by
    rw [append_nil]
    exact ⟨lined.inOrder, lined.closed⟩
  have next := lined.relay (j := j) published sorted led
  rwa [append_nil] at next

theorem publish (lined : Lined outbox relays taken) {tick next : Tick} {rows : List OutboxRow}
    (active : relays j = some tick) (batch : next.batch = tick.batch)
    (some' : rows.Sublist tick.batch)
    (committed : ∀ row ∈ rows, ∃ own ∈ outbox, own.id = row.id ∧ own.stream = row.stream)
    (led : ∀ row ∈ rows, Led outbox (taken ++ rows) row) :
    Lined outbox (update relays j (some next)) (taken ++ rows) := by
  have sorted := lined.sorted j tick active
  refine lined.relay (publish_rows (sorted.sublist some') lined.inOrder lined.closed committed led)
    ?_ ?_
  · rintro t ⟨⟩
    rw [batch]
    exact sorted
  · rintro t ⟨⟩
    rw [batch]
    exact lined.ticks j tick active

end Lined

namespace Pipeline

variable {ι κ : Type} {s : Pipeline ι κ}

section Claim

variable [DecidableEq κ] [Fintype κ]

/-- A row waits to be published and no other tick holds it. -/
def free (s : Pipeline ι κ) (j : κ) (row : OutboxRow) : Bool := !row.published && !s.locked j row

/-- A row is among the first ones a tick finds. -/
def reachesTo (s : Pipeline ι κ) (j : κ) (limit : Nat) (row : OutboxRow) : Prop :=
  (s.outbox.filter fun other => s.free j other && decide (other.id < row.id)).length < limit

/-- A step lets a row overtake an earlier one of its stream. Either a tick claims it while
another tick holds the earlier one and the broker has not acknowledged that; or the broker
takes it in a publication that fails, and has not taken the earlier one, which was in the
same publication. -/
def overtakes (s : Pipeline ι κ) : PipelineAction ι κ → Prop
  | .claim j limit =>
    ∃ other, other ≠ j ∧ ∃ tick ∈ s.relays other, ∃ earlier ∈ tick.batch,
      (∀ ack ∈ s.acked, ack.id ≠ earlier.id) ∧ ∃ row ∈ s.outbox,
        s.free j row = true ∧ s.reachesTo j limit row ∧ row.stream = earlier.stream ∧
        earlier.id < row.id
  | .publish j topic (.error (_, written)) =>
    ∃ tick ∈ s.relays j, ∃ earlier ∈ tick.rowsOf topic, ∃ row ∈ tick.rowsOf topic,
      row.id ∈ written ∧ earlier.id ∉ written ∧ (∀ first ∈ s.broker, first.id ≠ earlier.id) ∧
      row.stream = earlier.stream ∧ earlier.id < row.id
  | _ => False

instance (s : Pipeline ι κ) (j : κ) (limit : Nat) (row : OutboxRow) :
    Decidable (s.reachesTo j limit row) := inferInstanceAs (Decidable (_ < limit))

instance (s : Pipeline ι κ) : DecidablePred s.overtakes
  | .claim j limit => inferInstanceAs (Decidable (∃ other, other ≠ j ∧
      ∃ tick ∈ s.relays other, ∃ earlier ∈ tick.batch,
      (∀ ack ∈ s.acked, ack.id ≠ earlier.id) ∧ ∃ row ∈ s.outbox,
        s.free j row = true ∧ s.reachesTo j limit row ∧ row.stream = earlier.stream ∧
        earlier.id < row.id))
  | .publish j topic (.error (_, written)) => inferInstanceAs (Decidable (∃ tick ∈ s.relays j,
      ∃ earlier ∈ tick.rowsOf topic, ∃ row ∈ tick.rowsOf topic,
      row.id ∈ written ∧ earlier.id ∉ written ∧ (∀ first ∈ s.broker, first.id ≠ earlier.id) ∧
      row.stream = earlier.stream ∧ earlier.id < row.id))
  | .publish _ _ (.ok ()) | .start .. | .run _ | .abort _ | .finish _ | .drop _ =>
    inferInstanceAs (Decidable False)

def waiting (s : Pipeline ι κ) (j : κ) : List OutboxRow :=
  (s.outbox.filter (s.free j)).insertionSort fun a b => a.id ≤ b.id

theorem waiting_sorted (s : Pipeline ι κ) (j : κ) :
    (s.waiting j).Pairwise fun a b => a.id ≤ b.id := by
  have total : Std.Total fun a b : OutboxRow => a.id ≤ b.id := ⟨fun a b => Nat.le_total a.id b.id⟩
  have trans : IsTrans OutboxRow fun a b => a.id ≤ b.id := ⟨fun _ _ _ => Nat.le_trans⟩
  exact pairwise_insertionSort _ _

variable {j : κ} {row : OutboxRow} {limit : Nat}

theorem mem_waiting :
    row ∈ s.waiting j ↔ row ∈ s.outbox ∧ s.free j row = true := by
  rw [waiting, mem_insertionSort, mem_filter]

theorem claimBatch_le {later : OutboxRow} (claimed : row ∈ s.claimBatch j limit)
    (behind : later ∈ (s.waiting j).drop limit) :
    row.id ≤ later.id := by
  have sorted := s.waiting_sorted j
  rw [← take_append_drop limit (s.waiting j)] at sorted
  exact (pairwise_append.mp sorted).2.2 row claimed later behind

theorem mem_claimBatch_of_lt {earlier : OutboxRow} (claimed : row ∈ s.claimBatch j limit)
    (inside : earlier ∈ s.outbox) (open' : s.free j earlier = true) (before : earlier.id < row.id) :
    earlier ∈ s.claimBatch j limit := by
  have member : earlier ∈ s.waiting j := mem_waiting.mpr ⟨inside, open'⟩
  rw [← take_append_drop limit (s.waiting j)] at member
  rcases mem_append.mp member with front | behind
  · exact front
  · have after := claimBatch_le claimed behind
    omega

theorem reachesTo_of_mem (claimed : row ∈ s.claimBatch j limit) : s.reachesTo j limit row := by
  have fewer : ((s.claimBatch j limit).filter fun other => decide (other.id < row.id)).length <
      (s.claimBatch j limit).length :=
    length_filter_lt_length_iff_exists.mpr ⟨row, claimed, by simp⟩
  have none' : ((s.waiting j).drop limit).filter (fun other => decide (other.id < row.id)) =
      [] := by
    refine filter_eq_nil_iff.mpr fun other behind => ?_
    have after := claimBatch_le claimed behind
    simpa using after
  have counted :
      (s.outbox.filter fun other => s.free j other && decide (other.id < row.id)).length =
      ((s.waiting j).filter fun other => decide (other.id < row.id)).length := by
    rw [waiting, ((perm_insertionSort _ _).filter _).length_eq, filter_filter]
    simp only [Bool.and_comm]
  rw [reachesTo, counted, ← take_append_drop limit (s.waiting j), filter_append, none', append_nil]
  exact Nat.lt_of_lt_of_le fewer (length_take_le ..)

end Claim

/-- What a transaction has inserted comes after all committed rows of its order. -/
def Ranked (s : Pipeline ι κ) : Prop :=
  ∀ i, ∀ new ∈ s.inserted i, ∀ old ∈ s.outbox, old.partitionKey = new.partitionKey → old.id < new.id

variable {row : OutboxRow}

theorem Posted.wrote (posted : s.Posted) {i : ι} (member : row ∈ s.inserted i) :
    ∃ session, s.config.sessions i = some session ∧
      .about row.partitionKey (.outbox row.record) ∈ session.writes := by
  cases active : s.config.sessions i with
  | none =>
    rw [posted.idle i active] at member
    cases member
  | some session =>
    refine ⟨session, rfl, ?_⟩
    have content : row.content ∈ session.writes.filterMap SharedWrite.insert := by
      rw [← posted.inserted i session active]
      exact mem_map_of_mem member
    obtain ⟨w, inside, inserts⟩ := mem_filterMap.mp content
    exact about_of_insert inserts ▸ inside

section Ranks

variable [DecidableEq ι] [DecidableEq κ] [Fintype ι] [Fintype κ]

theorem inserted_apart (reached : (pipeline ι κ).Reachable s) {i j : ι} (different : i ≠ j)
    {a b : OutboxRow} (inserted : a ∈ s.inserted i) (inserted' : b ∈ s.inserted j) :
    a.partitionKey ≠ b.partitionKey := by
  intro same
  have posted := posted_of_reachable reached
  obtain ⟨session, active, wrote⟩ := posted.wrote inserted
  obtain ⟨other, active', wrote'⟩ := posted.wrote inserted'
  have held := order_held (config_reachable reached) active wrote
  have held' := order_held (config_reachable reached) active' wrote'
  rw [← same] at held'
  exact Config.apart_of_reachable (config_reachable reached) different active active' held held'

theorem Ranked.step (ranked : s.Ranked) (reached : (pipeline ι κ).Reachable s)
    {s' : Pipeline ι κ} (moves : s.Moves s') : s'.Ranked := by
  have cleared : ∀ {i j new}, new ∈ update s.inserted i [] j → j ≠ i ∧ new ∈ s.inserted j := by
    intro i j new member
    rw [update_apply] at member
    split at member
    · cases member
    · exact ⟨‹_›, member⟩
  cases moves with
  | exec active calls free =>
    intro j new member old inside same
    change new ∈ update s.inserted _ (s.inserted _ ++ _) j at member
    rw [update_apply] at member
    split at member
    · rename_i here
      subst here
      rcases mem_append.mp member with before | fresh
      · exact ranked j new before old inside same
      · exact Nat.lt_of_lt_of_le ((numbered_of_reachable reached).committed old inside)
          (mem_numbered fresh).1
    · exact ranked j new member old inside same
  | commit active finished =>
    intro j new member old inside same
    obtain ⟨different, member⟩ := cleared member
    rcases mem_append.mp inside with before | committed
    · exact ranked j new member old before same
    · exact (inserted_apart reached different.symm committed member same).elim
  | abort i => exact fun j new member => ranked j new (cleared member).2
  | marked active finished succeeded =>
    intro j new member old inside same
    obtain ⟨before, there, rfl⟩ := mem_map.mp inside
    obtain ⟨id, content⟩ := key_foldl_on _ before
    rw [id]
    exact ranked j new member before there ((congrArg Prod.fst content).symm.trans same)
  | _ => exact ranked

theorem ranked_of_reachable (reached : (pipeline ι κ).Reachable s) : s.Ranked := by
  induction reached with
  | init initial =>
    cases initial
    exact fun _ _ => nofun
  | step before taken ih =>
    cases taken
    exact ih.step before (moves_step _ _)

end Ranks

theorem stream_of_has (has : s.Has row) :
    ∃ own ∈ s.outbox, own.id = row.id ∧ own.stream = row.stream := by
  obtain ⟨own, inside, id, content⟩ := has
  exact ⟨own, inside, id, stream_of_content content⟩

theorem Numbered.stream_of_id (numbers : s.Numbered) {earlier : OutboxRow} (has : s.Has row)
    (inside : earlier ∈ s.outbox) (same : row.id = earlier.id) : row.stream = earlier.stream := by
  obtain ⟨own, there, id, stream⟩ := stream_of_has has
  cases numbers.eq_of_id there inside (id.trans same)
  exact stream.symm

section Relays

variable [DecidableEq κ] {taken : List OutboxRow}

/-- A tick publishes rows of its batch, none without the earlier ones of its stream that
are not published yet. -/
theorem lined_publish (lined : Lined s.outbox s.relays taken) (numbers : s.Numbered)
    (posted : s.Posted) {j : κ} {tick next : Tick} (active : s.relays j = some tick)
    (batch : next.batch = tick.batch) {rows : List OutboxRow} (part : rows.Sublist tick.batch)
    (whole : ∀ row ∈ rows, ∀ earlier ∈ tick.batch, earlier.stream = row.stream →
      earlier.id < row.id → earlier ∈ rows ∨ ∃ first ∈ taken, first.id = earlier.id) :
    Lined s.outbox (update s.relays j (some next)) (taken ++ rows) := by
  have has : ∀ row ∈ tick.batch, s.Has row := (posted.ticks j tick active).batch
  refine lined.publish active batch part (fun row member => ?_) fun row member earlier inside same
    before => ?_
  · exact stream_of_has (has row (part.subset member))
  · obtain ⟨first, found, id⟩ := lined.ticks j tick active row (part.subset member) earlier inside
      same before
    rcases mem_append.mp found with published | held
    · exact ⟨first, mem_append_left _ published, id⟩
    · have stream := numbers.stream_of_id (has first held) inside id
      rcases whole row member first held (stream.trans same) (id ▸ before) with here | published
      · exact ⟨first, mem_append_right _ here, id⟩
      · obtain ⟨other, published, id'⟩ := published
        exact ⟨other, mem_append_left _ published, id'.trans id⟩

theorem lined_claim [Fintype κ] (lined : Lined s.outbox s.relays taken) (numbers : s.Numbered)
    (posted : s.Posted) (acked : ∀ ack ∈ s.acked, ack ∈ taken) {j : κ} {limit : Nat}
    (behind : ¬ s.overtakes (.claim j limit)) (topics : List Topic) :
    Lined s.outbox (update s.relays j (some
      { batch := s.claimBatch j limit, topics := topics })) taken := by
  refine lined.quiet ?_ ?_
  · rintro t ⟨⟩
    exact (s.waiting_sorted j).sublist (take_sublist ..)
  · rintro t ⟨⟩ row claimed earlier inside same before
    have acknowledged : ∀ {ack}, ack ∈ s.acked → ack.id = earlier.id →
        ∃ first ∈ taken ++ s.claimBatch j limit, first.id = earlier.id :=
      fun member id => ⟨_, mem_append_left _ (acked _ member), id⟩
    by_cases published : earlier.published = true
    · obtain ⟨ack, member, id⟩ := posted.marked earlier inside published
      exact acknowledged member id
    by_cases held : s.locked j earlier = true
    · obtain ⟨other, different, tick, active, first, member, id⟩ := of_decide_eq_true held
      by_contra missing
      obtain ⟨found, open'⟩ := mem_waiting.mp (mem_of_mem_take claimed)
      have stream := numbers.stream_of_id ((posted.ticks other tick active).batch first member)
        inside id
      refine behind ⟨other, different, tick, active, first, member, fun ack inside same => ?_, row,
        found, open', reachesTo_of_mem claimed, (stream.trans same).symm, id ▸ before⟩
      exact missing (acknowledged inside (same.trans id))
    · have open' : s.free j earlier = true := by simp [free, published, held]
      exact ⟨earlier, mem_append_right _ (mem_claimBatch_of_lt claimed inside open' before),
        rfl⟩

end Relays

/-- Each key is published in the order of its rows. -/
structure Orderly (s : Pipeline ι κ) : Prop where
  broker : Lined s.outbox s.relays s.broker
  acked : Lined s.outbox s.relays s.acked

theorem mem_rowsOf {tick : Tick} {topic : Topic} {other : OutboxRow}
    (member : row ∈ tick.rowsOf topic) (held : other ∈ tick.batch)
    (same : other.stream = row.stream) : other ∈ tick.rowsOf topic := by
  refine mem_filter.mpr ⟨held, ?_⟩
  have topics : other.topic = row.topic := congrArg Prod.snd same
  rw [topics]
  exact (mem_filter.mp member).2

section Runs

variable [DecidableEq ι] [DecidableEq κ] [Fintype ι] [Fintype κ]

theorem Orderly.commit (orderly : s.Orderly) (reached : (pipeline ι κ).Reachable s) (i : ι)
    (session : Session shared Err Job) (job : Job) : (s.commit i session job).Orderly := by
  have posted := posted_of_reachable reached
  have later := ranked_of_reachable reached i
  have held : ∀ j tick, s.relays j = some tick → ∀ row ∈ tick.batch,
      ∃ own ∈ s.outbox, own.id = row.id ∧ own.stream = row.stream :=
    fun j tick active row member => stream_of_has ((posted.ticks j tick active).batch row member)
  have known : ∀ row ∈ s.broker, ∃ own ∈ s.outbox, own.id = row.id ∧ own.stream = row.stream :=
    fun row member => stream_of_has (posted.taken row member)
  exact ⟨orderly.broker.grow later known held,
    orderly.acked.grow later (fun row member => known row (posted.acknowledged row member)) held⟩

theorem Orderly.took (orderly : s.Orderly) (reached : (pipeline ι κ).Reachable s) {j : κ}
    {tick : Tick} (active : s.relays j = some tick) (topic : Topic) :
    (s.took j tick topic).Orderly := by
  have numbers := numbered_of_reachable reached
  have posted := posted_of_reachable reached
  refine ⟨lined_publish orderly.broker numbers posted active (by rfl) filter_sublist ?_,
    lined_publish orderly.acked numbers posted active (by rfl) filter_sublist ?_⟩
  · exact fun row member earlier held same _ => .inl (mem_rowsOf member held same)
  · exact fun row member earlier held same _ => .inl (mem_rowsOf member held same)

theorem Orderly.refused (orderly : s.Orderly) (reached : (pipeline ι κ).Reachable s) {j : κ}
    {tick : Tick} (active : s.relays j = some tick) {topic : Topic} {err : String}
    {written : List Nat} (behind : ¬ s.overtakes (.publish j topic (.error (err, written)))) :
    (s.refused j tick topic err written).Orderly := by
  have numbers := numbered_of_reachable reached
  have posted := posted_of_reachable reached
  refine ⟨lined_publish orderly.broker numbers posted active (by rfl)
    (filter_sublist.trans filter_sublist) fun row member earlier held same before => ?_, ?_⟩
  · obtain ⟨member, taken⟩ := mem_filter.mp member
    have together := mem_rowsOf member held same
    by_cases missed : earlier.id ∈ written
    · exact .inl (mem_filter.mpr ⟨together, contains_iff_mem.mpr missed⟩)
    · by_contra unpublished
      refine behind ⟨tick, active, earlier, together, row, member, contains_iff_mem.mp taken,
        missed, fun first inside id => unpublished (.inr ⟨first, inside, id⟩), same.symm, before⟩
  · refine orderly.acked.quiet ?_ ?_
    · rintro t ⟨⟩
      exact orderly.acked.sorted j tick active
    · rintro t ⟨⟩
      exact orderly.acked.ticks j tick active

theorem Orderly.step (orderly : s.Orderly) (reached : (pipeline ι κ).Reachable s)
    (a : PipelineAction ι κ) (behind : ¬ s.overtakes a) : (s.step a).Orderly := by
  have same : ∀ {s' : Pipeline ι κ}, s'.outbox = s.outbox → s'.relays = s.relays →
      s'.broker = s.broker → s'.acked = s.acked → s'.Orderly := by
    intro s' outbox relays broker acked
    refine ⟨?_, ?_⟩
    · rw [outbox, relays, broker]
      exact orderly.broker
    · rw [outbox, relays, acked]
      exact orderly.acked
  have dropped : ∀ j, (s.drop j).Orderly := fun j =>
    ⟨orderly.broker.quiet (by simp) (by simp), orderly.acked.quiet (by simp) (by simp)⟩
  cases a with
  | start i job =>
    change (s.start i job).Orderly
    unfold start
    split
    · exact orderly
    · split
      · exact same rfl rfl rfl rfl
      · exact orderly
  | run i =>
    change (s.run i).Orderly
    unfold run
    split
    · exact orderly
    · split
      · exact orderly.commit reached i _ _
      · exact same rfl rfl rfl rfl
      · split
        · split
          · exact same rfl rfl rfl rfl
          · exact orderly
        · exact same rfl rfl rfl rfl
  | abort i => exact same rfl rfl rfl rfl
  | claim j limit =>
    change (s.claim j limit).Orderly
    unfold claim
    split
    · exact orderly
    · simp only
      split
      · exact orderly
      · have numbers := numbered_of_reachable reached
        have posted := posted_of_reachable reached
        exact ⟨lined_claim orderly.broker numbers posted posted.acknowledged behind _,
          lined_claim orderly.acked numbers posted (fun _ member => member) behind _⟩
  | publish j topic outcome =>
    change (s.publish j topic outcome).Orderly
    unfold publish
    split
    · exact orderly
    · rename_i tick active
      split
      · split
        · exact orderly.took reached active topic
        · exact orderly.refused reached active behind
      · exact orderly
  | finish j =>
    change (s.finish j).Orderly
    unfold finish
    split
    · exact orderly
    · rename_i tick active
      split
      · split
        · let updates := tick.updates ++ [Update.markPublished tick.succeeded]
          have broker := orderly.broker.mark fun row => key_foldl_on updates row
          have acked := orderly.acked.mark fun row => key_foldl_on updates row
          exact ⟨broker.quiet (by simp) (by simp), acked.quiet (by simp) (by simp)⟩
        · exact dropped j
      · exact orderly
  | drop j => exact dropped j

end Runs

end Pipeline

/-- **Publication in order.** In every run without a step that lets a row overtake an
earlier one of its order, the rows of each order on each topic are acknowledged for the
first time, and reach their partition for the first time, in the order of their ids. -/
theorem published_in_order {ι κ : Type} [DecidableEq ι] [DecidableEq κ] [Fintype ι] [Fintype κ]
    {s : Pipeline ι κ}
    (reached : ((pipeline ι κ).restrict fun s a => ¬ s.overtakes a).Reachable s) :
    InOrder s.acked ∧ InOrder s.broker := by
  have orderly : s.Orderly := by
    induction reached with
    | init initial =>
      cases initial
      have start : Lined [] (fun _ : κ => none) [] :=
        { inOrder := fun front row back split => by simp at split
          closed := fun _ => nofun
          sorted := fun _ _ active => by cases active
          ticks := fun _ _ active => by cases active }
      exact ⟨start, start⟩
    | step before taken ih =>
      obtain ⟨behind, taken⟩ := taken
      cases taken
      exact ih.step before.of_restrict _ behind
  exact ⟨orderly.acked.inOrder, orderly.broker.inOrder⟩

def placeThen (between : List (PipelineAction Unit Bool)) : List (PipelineAction Unit Bool) :=
  ([.start () (.place 1 singleLine ⟨1000, "USD"⟩ (mintFrom 100) 0)] : List (PipelineAction _ _)) ++
    (List.replicate 6 (.run ()) : List (PipelineAction _ _)) ++ between ++
    ([.start () (.cancel 1 7 (mintFrom 200) 5)] : List (PipelineAction _ _)) ++
    (List.replicate 8 (.run ()) : List (PipelineAction _ _))

/-- The first relay publishes what it has claimed before the second one begins. -/
def inTurn : List (PipelineAction Unit Bool) :=
  placeThen [.claim false 100, .publish false .orderCommands (.ok ()),
    .publish false .orderEvents (.ok ()), .finish false] ++
      [.claim true 100, .publish true .orderCommands (.ok ())]

theorem inTurn_in_order :
    (inTurn.foldl Pipeline.step {}).acked.map OutboxRow.id = [1, 2, 3] ∧
      InOrder (inTurn.foldl Pipeline.step {}).acked ∧
      InOrder (inTurn.foldl Pipeline.step {}).broker :=
  ⟨by decide +kernel, published_in_order (.foldl_restrict (by decide +kernel))⟩

/-- The second relay publishes the `RELEASE` while the first one holds the `RESERVE`. -/
def releaseFirst : List (PipelineAction Unit Bool) :=
  placeThen [.claim false 100] ++ [.claim true 100, .publish true .orderCommands (.ok ()),
    .publish false .orderCommands (.ok ())]

theorem release_before_reserve : ¬ ∀ (ι κ : Type) [DecidableEq ι] [DecidableEq κ] [Fintype ι]
    [Fintype κ] (s : Pipeline ι κ), (pipeline ι κ).Reachable s → InOrder s.acked := by
  intro ordered
  have published : (releaseFirst.foldl Pipeline.step {}).acked.map
      (fun row => (row.id, row.stream, row.record.step)) =
        [(3, (1, .orderCommands), some .release), (1, (1, .orderCommands), some .reserve)] := by
    decide +kernel
  have inOrder := ordered _ _ _ (.foldl releaseFirst)
  generalize (releaseFirst.foldl Pipeline.step {}).acked = acked at published inOrder
  rcases acked with _ | ⟨release, _ | ⟨reserve, _ | ⟨other, rest⟩⟩⟩ <;>
    simp only [map_cons, map_nil, List.cons.injEq, Prod.mk.injEq, reduceCtorEq, and_false,
      and_true] at published
  obtain ⟨⟨third, stream, -⟩, first, stream', -⟩ := published
  have before := inOrder [release] reserve [] rfl (fun other member => by
      rw [mem_singleton.mp member, third, first]
      decide)
    release mem_cons_self (stream.trans stream'.symm)
  omega

end Souq.Orders
