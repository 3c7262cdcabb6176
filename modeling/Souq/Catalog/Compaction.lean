import Mathlib.Data.List.Pairwise
import Souq.Catalog.Relay

/-!
# What compaction keeps

The records of a key reach the topic in the order of their rows, as long as no row is sent
past an earlier one that is still eligible, and rows of a key become visible in the order of
their ids. A row that is no longer eligible has been sent, or a newer one will be.
-/

namespace Souq.Catalog.Relay

open Transition List Replicas

section Moves

variable {ι : Type} [DecidableEq ι]

/-- What a turn can do. -/
inductive Moves (s : Replicas ι) : Turn ι → Replicas ι → Prop where
  | stays {turn : Turn ι} : Moves s turn s
  | commit {row : Row} (fresh : s.fresh row = true) :
      Moves s (.commit row)
        { s with
          outbox := s.outbox ++ [{ row with attempts := 0, publishedAt := none }]
          written := s.written ++ [row.message] }
  | tick {clock : Time} : Moves s (.tick clock) { s with clock := clock }
  | purge {old : Row → Bool} (published : ∀ row, old row = true → row.due = false) :
      Moves s .purgePublished { s with outbox := s.outbox.filter fun row => !old row }
  /-- A replica goes on, with rows of the table or of its batch. -/
  | go {turn : Turn ι} {i : ι} {phase : Phase}
      (known : ∀ row ∈ phase.pending, row ∈ (s.phases i).pending ∨ row ∈ s.outbox)
      (landed : ∀ row ∈ phase.landed, row ∈ (s.phases i).landed) : Moves s turn (s.set i phase)
  | land {i : ι} {row : Row} {phase : Phase} (next : (s.phases i).next = some row)
      (known : ∀ r ∈ phase.pending, r ∈ (s.phases i).pending) (landed : phase.landed = some row) :
      Moves s (.send i true) ({ s with log := s.log ++ [row.message] }.set i phase)
  | mark {i : ι} {heard : Bool} {row : Row} {phase : Phase}
      (at' : (s.phases i).landed = some row) (known : ∀ r ∈ phase.pending, r ∈ (s.phases i).pending)
      (landed : phase.landed = none) :
      Moves s (.mark i heard)
        ({ s with outbox := update row.id (fun r => r.published s.clock) s.outbox }.set i phase)
  | record {i : ι} {heard : Bool} {row : Row} {phase : Phase}
      (at' : (s.phases i).failed = some row) (known : ∀ r ∈ phase.pending, r ∈ (s.phases i).pending)
      (landed : phase.landed = none) :
      Moves s (.record i heard)
        ({ s with outbox := update row.id Row.retried s.outbox }.set i phase)

theorem pending_finish (published guard : Nat) : (finish published guard).pending = [] := by
  unfold finish
  split
  · rfl
  · rfl

theorem landed_finish (published guard : Nat) : (finish published guard).landed = none := by
  unfold finish
  split
  · rfl
  · rfl

theorem mem_selectDue {outbox : List Row} {locked : List ID} {row : Row}
    (member : row ∈ selectDue outbox locked) : row ∈ outbox := by
  have sorted := mem_of_mem_take member
  rw [mem_insertionSort] at sorted
  exact mem_of_mem_filter sorted

theorem Moves.stop {s : Replicas ι} {turn : Turn ι} {i : ι} {phase : Phase}
    (pending : phase.pending = []) (landed : phase.landed = none) :
    Moves s turn (s.set i phase) := by
  refine .go (fun row member => ?_) fun row member => ?_
  · rw [pending] at member
    cases member
  · rw [landed] at member
    cases member

theorem moves_step (s : Replicas ι) (turn : Turn ι) : Moves s turn (s.step turn) := by
  cases turn with
  | commit row =>
    simp only [step]
    cases fresh : s.fresh row with
    | true => exact .commit fresh
    | false => exact .stays
  | tick clock => exact .tick
  | purgePublished =>
    refine .purge fun row old => ?_
    cases published : row.publishedAt with
    | none =>
      rw [published] at old
      cases old
    | some _ => simp [Row.due, published]
  | poll i =>
    simp only [step]
    cases s.phases i with
    | idle => exact .stop rfl rfl
    | _ => exact .stays
  | select i locked =>
    simp only [step]
    cases s.phases i with
    | selecting guard =>
      simp only
      by_cases empty : selectDue s.outbox locked = []
      · rw [if_pos empty]
        exact .stop (pending_finish 0 guard) (landed_finish 0 guard)
      · rw [if_neg empty]
        exact .go (fun row member => .inr (mem_selectDue member)) fun row none => nomatch none
    | _ => exact .stays
  | send i lands =>
    simp only [step]
    cases at' : s.phases i with
    | batch rest published guard =>
      cases rest with
      | nil => exact .stop (pending_finish published guard) (landed_finish published guard)
      | cons row rest =>
        cases lands with
        | true =>
          have next : (s.phases i).next = some row := by
            rw [at']
            rfl
          refine .land next (fun r member => ?_) rfl
          rw [at']
          exact member
        | false =>
          refine .go (fun r member => .inl ?_) fun r none => nomatch none
          rw [at']
          exact member
    | _ => exact .stays
  | acknowledge i =>
    simp only [step]
    cases at' : s.phases i with
    | sending row rest published guard landed =>
      cases landed with
      | true =>
        refine .go (fun r member => .inl ?_) fun r member => ?_
        · rw [at']
          exact member
        · rw [at']
          exact member
      | false => exact .stays
    | _ => exact .stays
  | fail i =>
    simp only [step]
    cases at' : s.phases i with
    | sending | marking =>
      refine .go (fun r member => .inl ?_) fun r none => nomatch none
      rw [at']
      exact member
    | _ => exact .stays
  | interrupt i =>
    simp only [step]
    cases s.phases i with
    | sending row rest published guard landed =>
      exact .stop (pending_finish published guard) (landed_finish published guard)
    | _ => exact .stays
  | mark i heard =>
    simp only [step]
    cases at' : s.phases i with
    | marking row rest published guard =>
      refine .mark (by rw [at']; rfl) (fun r member => ?_) ?_
      · rw [at']
        cases heard with
        | true => exact mem_cons_of_mem row member
        | false => exact member
      · cases heard with
        | true => rfl
        | false => rfl
    | _ => exact .stays
  | record i heard =>
    simp only [step]
    cases at' : s.phases i with
    | recording row rest published guard =>
      refine .record (by rw [at']; rfl) (fun r member => ?_) ?_
      · rw [at']
        cases heard with
        | true => exact mem_cons_of_mem row member
        | false => cases member
      · cases heard with
        | true => rfl
        | false => rfl
    | _ => exact .stays
  | crash i => exact .stop rfl rfl

end Moves

section Rows

theorem due_iff {row : Row} :
    row.due = true ↔ row.publishedAt.isNone = true ∧ row.attempts < maxAttempts := by
  simp only [Row.due, Bool.and_eq_true, decide_eq_true_eq]

theorem due_of_retried {row : Row} (due : row.retried.due = true) : row.due = true := by
  obtain ⟨unpublished, below⟩ := due_iff.mp due
  exact due_iff.mpr ⟨unpublished, Nat.lt_of_succ_lt below⟩

theorem due_retried {row : Row} (due : row.due = true)
    (left : ¬ maxAttempts ≤ row.attempts + 1) : row.retried.due = true :=
  due_iff.mpr ⟨(due_iff.mp due).1, not_le.mp left⟩

theorem mem_update {id : ID} {f : Row → Row} {outbox : List Row} {row' : Row}
    (message : ∀ row, (f row).message = row.message)
    (revives : ∀ row, (f row).due = true → row.due = true) (member : row' ∈ update id f outbox) :
    ∃ row ∈ outbox, row'.message = row.message ∧ (row'.due = true → row.due = true) := by
  obtain ⟨row, inside, rfl⟩ := mem_map.mp member
  refine ⟨row, inside, ?_⟩
  split
  · exact ⟨message row, revives row⟩
  · exact ⟨rfl, fun due => due⟩

theorem mem_update_of_due {id : ID} {f : Row → Row} {outbox : List Row} {row : Row}
    (message : ∀ row, (f row).message = row.message) (inside : row ∈ outbox)
    (due : row.due = true) (still : row.id = id → (f row).due = true) :
    ∃ row' ∈ update id f outbox, row'.message = row.message ∧ row'.due = true := by
  refine ⟨_, mem_map_of_mem inside, ?_⟩
  split
  · exact ⟨message row, still ‹_›⟩
  · exact ⟨rfl, due⟩

end Rows

/-- What holds throughout a run without faulty turns. -/
structure Sound {ι : Type} (s : Replicas ι) : Prop where
  /-- A row is known by its id. -/
  unique : ∀ a ∈ s.written, ∀ b ∈ s.written, a.row = b.row → a = b
  stored : ∀ row ∈ s.outbox, row.message ∈ s.written
  known : ∀ i, ∀ row ∈ (s.phases i).pending, row.message ∈ s.written
  sent : ∀ message ∈ s.log, message ∈ s.written
  landed : ∀ i, ∀ row ∈ (s.phases i).landed, row.message ∈ s.log
  /-- No row is eligible when a later one of its key is on the topic. -/
  closed : ∀ message ∈ s.log, ∀ row ∈ s.outbox, row.lane = message.lane → row.due = true →
    message.row ≤ row.id
  ordered : s.log.Pairwise fun a b => a.lane = b.lane → a.row ≤ b.row
  /-- What is not eligible any more has landed or is not the newest. -/
  settled : ∀ message ∈ s.written, message ∈ s.log ∨
    (∃ row ∈ s.outbox, row.message = message ∧ row.due = true) ∨
    ∃ newer ∈ s.written, newer.lane = message.lane ∧ message.row < newer.row

section Steps

variable {ι : Type} [DecidableEq ι] {s : Replicas ι}

theorem forall_phases {i : ι} {phase : Phase} {P : Row → Prop} {f : Phase → Row → Prop}
    (own : ∀ row, f phase row → P row) (others : ∀ j, ∀ row, f (s.phases j) row → P row) (j : ι)
    (row : Row) (member : f ((s.set i phase).phases j) row) : P row := by
  by_cases same : j = i
  · subst same
    simp only [Replicas.set, Function.update_self] at member
    exact own row member
  · simp only [Replicas.set, Function.update_of_ne same] at member
    exact others j row member

theorem Sound.set (sound : Sound s) {i : ι} {phase : Phase}
    (known : ∀ row ∈ phase.pending, row.message ∈ s.written)
    (landed : ∀ row ∈ phase.landed, row.message ∈ s.log) : Sound (s.set i phase) where
  unique := sound.unique
  stored := sound.stored
  known := forall_phases (f := fun phase row => row ∈ phase.pending) known sound.known
  sent := sound.sent
  landed := forall_phases (f := fun phase row => row ∈ phase.landed) landed sound.landed
  closed := sound.closed
  ordered := sound.ordered
  settled := sound.settled

omit [DecidableEq ι] in
theorem Sound.commit (sound : Sound s) {row : Row} (fresh : s.fresh row = true)
    (timely : ¬ s.Late row) :
    Sound { s with
      outbox := s.outbox ++ [{ row with attempts := 0, publishedAt := none }]
      written := s.written ++ [row.message] } where
  unique := by
    have new : ∀ other ∈ s.written, other.row ≠ row.id := by
      simpa [Replicas.fresh] using fresh
    intro a inside b inside' same
    rcases mem_append.mp inside with old | added
    · rcases mem_append.mp inside' with old' | added'
      · exact sound.unique a old b old' same
      · rw [mem_singleton.mp added'] at same
        exact (new a old same).elim
    · rcases mem_append.mp inside' with old' | added'
      · rw [mem_singleton.mp added] at same
        exact (new b old' same.symm).elim
      · rw [mem_singleton.mp added, mem_singleton.mp added']
  stored := by
    intro other inside
    rcases mem_append.mp inside with old | added
    · exact mem_append_left _ (sound.stored other old)
    · rw [mem_singleton.mp added]
      exact mem_append_right _ mem_cons_self
  known := fun i other member => mem_append_left _ (sound.known i other member)
  sent := fun message member => mem_append_left _ (sound.sent message member)
  landed := sound.landed
  closed := by
    intro message member other inside same due
    rcases mem_append.mp inside with old | added
    · exact sound.closed message member other old same due
    · rw [mem_singleton.mp added] at same ⊢
      exact not_lt.mp fun later => timely ⟨fresh, message, member, same.symm, later⟩
  ordered := sound.ordered
  settled := by
    intro message member
    rcases mem_append.mp member with old | added
    · rcases sound.settled message old with landed | ⟨other, inside, named, due⟩ |
        ⟨newer, inside, later⟩
      · exact .inl landed
      · exact .inr (.inl ⟨other, mem_append_left _ inside, named, due⟩)
      · exact .inr (.inr ⟨newer, mem_append_left _ inside, later⟩)
    · refine .inr (.inl ⟨_, mem_append_right _ mem_cons_self, ?_, rfl⟩)
      exact (mem_singleton.mp added).symm

omit [DecidableEq ι] in
theorem Sound.purge (sound : Sound s) {old : Row → Bool}
    (published : ∀ row, old row = true → row.due = false) :
    Sound { s with outbox := s.outbox.filter fun row => !old row } where
  unique := sound.unique
  stored := fun row inside => sound.stored row (mem_of_mem_filter inside)
  known := sound.known
  sent := sound.sent
  landed := sound.landed
  closed := fun message member row inside =>
    sound.closed message member row (mem_of_mem_filter inside)
  ordered := sound.ordered
  settled := by
    intro message member
    refine (sound.settled message member).imp_right (Or.imp_left ?_)
    rintro ⟨row, inside, named, due⟩
    refine ⟨row, mem_filter.mpr ⟨inside, ?_⟩, named, due⟩
    cases kept : old row with
    | false => rfl
    | true =>
      rw [published row kept] at due
      cases due

omit [DecidableEq ι] in
theorem Sound.land (sound : Sound s) {row : Row} (known : row.message ∈ s.written)
    (behind : ¬ s.Overtakes row) (current : ¬ s.Stale row) :
    Sound { s with log := s.log ++ [row.message] } where
  unique := sound.unique
  stored := sound.stored
  known := sound.known
  sent := by
    intro message member
    rcases mem_append.mp member with old | added
    · exact sound.sent message old
    · rw [mem_singleton.mp added]
      exact known
  landed := fun i other member => mem_append_left _ (sound.landed i other member)
  closed := by
    intro message member other inside same due
    rcases mem_append.mp member with old | added
    · exact sound.closed message old other inside same due
    · rw [mem_singleton.mp added] at same ⊢
      exact not_lt.mp fun earlier => behind ⟨other, inside, same, earlier, due⟩
  ordered := by
    refine pairwise_append.mpr ⟨sound.ordered, pairwise_singleton _ _, ?_⟩
    intro message member new added same
    rw [mem_singleton.mp added] at same ⊢
    by_cases eligible : ∃ other ∈ s.outbox, other.id = row.id ∧ other.due = true
    · obtain ⟨other, inside, named, due⟩ := eligible
      have equal : other.message = row.message :=
        sound.unique _ (sound.stored other inside) _ known named
      have least := sound.closed message member other inside
        ((congrArg Message.lane equal).trans same.symm) due
      rwa [named] at least
    · have gone : ∀ other ∈ s.outbox, other.id = row.id → other.due = false :=
        fun other inside named => Bool.eq_false_iff.mpr fun due =>
          eligible ⟨other, inside, named, due⟩
      exact not_lt.mp fun later => current ⟨gone, message, member, same, later⟩
  settled := fun message member =>
    (sound.settled message member).imp_left fun landed => mem_append_left _ landed

omit [DecidableEq ι] in
theorem Sound.update (sound : Sound s) (id : ID) {f : Row → Row}
    (message : ∀ row, (f row).message = row.message)
    (revives : ∀ row, (f row).due = true → row.due = true)
    (handled : ∀ row ∈ s.outbox, row.id = id → row.due = true → (f row).due = true ∨
      row.message ∈ s.log ∨ ∃ newer ∈ s.written, newer.lane = row.lane ∧ row.id < newer.row) :
    Sound { s with outbox := update id f s.outbox } where
  unique := sound.unique
  stored := by
    intro row' inside'
    obtain ⟨row, inside, same, -⟩ := mem_update message revives inside'
    exact same ▸ sound.stored row inside
  known := sound.known
  sent := sound.sent
  landed := sound.landed
  closed := by
    intro other member row' inside' lane due
    obtain ⟨row, inside, same, back⟩ := mem_update message revives inside'
    have id : row'.id = row.id := congrArg Message.row same
    rw [id]
    exact sound.closed other member row inside ((congrArg Message.lane same).symm.trans lane)
      (back due)
  ordered := sound.ordered
  settled := by
    intro other member
    rcases sound.settled other member with landed | ⟨row, inside, rfl, due⟩ | newer
    · exact .inl landed
    · by_cases own : row.id = id
      · rcases handled row inside own due with still | landed | newer
        · exact .inr (.inl (mem_update_of_due message inside due fun _ => still))
        · exact .inl landed
        · exact .inr (.inr newer)
      · exact .inr (.inl (mem_update_of_due message inside due fun same => (own same).elim))
    · exact .inr (.inr newer)

/-- **One turn** that is not faulty. -/
theorem Sound.step (sound : Sound s) {turn : Turn ι} (sane : ¬ s.Faulty turn) :
    Sound (s.step turn) := by
  have moves := moves_step s turn
  generalize s.step turn = after at moves
  cases moves with
  | stays => exact sound
  | commit fresh => exact sound.commit fresh sane
  | tick => exact ⟨sound.unique, sound.stored, sound.known, sound.sent, sound.landed, sound.closed,
      sound.ordered, sound.settled⟩
  | purge published => exact sound.purge published
  | go known landed =>
    refine sound.set (fun row member => ?_) fun row member => sound.landed _ row (landed row member)
    rcases known row member with old | selected
    · exact sound.known _ row old
    · exact sound.stored row selected
  | @land i row phase next known landed =>
    have known' : row.message ∈ s.written := by
      refine sound.known i row ?_
      cases at' : s.phases i with
      | batch rest published guard =>
        rw [at'] at next
        exact mem_of_mem_head? next
      | _ =>
        rw [at'] at next
        cases next
    have fair : ¬ (s.Overtakes row ∨ s.Stale row) := fun bad =>
      sane ⟨row, by rw [next]; exact mem_cons_self, bad⟩
    refine (sound.land known' (fun bad => fair (.inl bad)) fun bad => fair (.inr bad)).set
      (fun r member => sound.known i r (known r member)) fun r member => ?_
    rw [landed] at member
    cases member
    exact mem_append_right _ mem_cons_self
  | @mark i heard row phase at' known landed =>
    have taken : row.message ∈ s.log := sound.landed i row at'
    refine (sound.update row.id (f := fun r => r.published s.clock) (fun _ => rfl)
      (fun _ due => by cases due) fun other inside named due => .inr (.inl ?_)).set
      (fun r member => sound.known i r (known r member)) fun r member => ?_
    · rwa [sound.unique _ (sound.stored other inside) _ (sound.sent _ taken) named]
    · rw [landed] at member
      cases member
  | @record i heard row phase at' known landed =>
    have own : row.message ∈ s.written := by
      refine sound.known i row ?_
      cases phase' : s.phases i with
      | recording other rest published guard =>
        rw [phase'] at at'
        cases at'
        exact mem_cons_self
      | _ =>
        rw [phase'] at at'
        cases at'
    have fair : ¬ s.Parks row := fun bad =>
      sane ⟨row, by rw [at']; exact mem_cons_self, bad⟩
    refine (sound.update row.id (f := Row.retried) (fun _ => rfl)
      (fun _ => due_of_retried) fun other inside named due => ?_).set
      (fun r member => sound.known i r (known r member)) fun r member => ?_
    · have equal : other.message = row.message :=
        sound.unique _ (sound.stored other inside) _ own named
      by_cases last : maxAttempts ≤ other.attempts + 1
      · right
        by_cases taken : row.message ∈ s.log
        · exact .inl (equal ▸ taken)
        · right
          by_contra newest
          refine fair ⟨⟨other, inside, named, due, last⟩, taken, fun newer member same => ?_⟩
          refine not_lt.mp fun later => newest ⟨newer, member, ?_, named ▸ later⟩
          exact same.trans (congrArg Message.lane equal).symm
      · exact .inl (due_retried due last)
    · rw [landed] at member
      cases member

theorem sound_reachable
    (reached : ((relaying ι).restrict fun s turn => ¬ s.Faulty turn).Reachable s) : Sound s := by
  refine reached.invariant (I := Sound) (fun start initial => ?_) ?_
  · cases initial
    exact ⟨by simp, by simp, by simp [Phase.pending], by simp, by simp [Phase.landed], by simp,
      List.Pairwise.nil, by simp⟩
  · rintro before turn after sound ⟨sane, rfl⟩
    exact sound.step sane

/-- **What compaction keeps.** In every state of a run without faulty turns, once no row of a
key is eligible, the last record of the key is the one of its newest row. -/
theorem retained_newest
    (reached : ((relaying ι).restrict fun s turn => ¬ s.Faulty turn).Reachable s)
    {message : Message} (newest : s.Newest message) (settled : s.Settled message.lane) :
    retained s.log message.lane = some message := by
  have sound := sound_reachable reached
  have landed : message ∈ s.log := by
    rcases sound.settled message newest.written with landed | ⟨row, inside, named, due⟩ |
      ⟨newer, inside, same, later⟩
    · exact landed
    · have parked := settled row inside (congrArg Message.lane named)
      rw [due] at parked
      cases parked
    · exact absurd (newest.highest newer inside same) (not_le.mpr later)
  have kept : message ∈ s.log.filter fun other => other.lane = message.lane :=
    mem_filter.mpr ⟨landed, decide_eq_true rfl⟩
  have ordered : (s.log.filter fun other => other.lane = message.lane).Pairwise
      fun a b => a.row ≤ b.row := by
    refine (sound.ordered.filter _).imp_of_mem fun left right less => less ?_
    exact (of_decide_eq_true (mem_filter.mp left).2).trans
      (of_decide_eq_true (mem_filter.mp right).2).symm
  have last := getLast_mem (ne_nil_of_mem kept)
  obtain ⟨inside, same⟩ := mem_filter.mp last
  have written := sound.sent _ inside
  have above := ordered.rel_getLast_of_rel_getLast_getLast kept (le_refl _)
  have below := newest.highest _ written (of_decide_eq_true same)
  have equal := sound.unique _ written _ newest.written (le_antisymm below above)
  rw [retained, getLast?_eq_some_getLast (ne_nil_of_mem kept), equal]

end Steps

def created : Row where
  id := 1
  eventId := 11
  topic := "souq.catalog.events.v1"
  key := "prd_1"
  payload := "\x7b\"status\":\"ACTIVE\"\x7d"

def deleted : Row where
  id := 2
  eventId := 12
  topic := "souq.catalog.events.v1"
  key := "prd_1"
  payload := "null"

/-- A send fails and is repeated before the tombstone is written. -/
theorem retained_newest_deleted :
    let turns : List (Turn (Fin 2)) :=
      [.commit created, .poll 0, .select 0 [], .send 0 false, .fail 0, .record 0 true, .send 0 true,
        .poll 1, .select 1 [], .send 1 true, .acknowledge 1, .mark 1 true, .crash 1,
        .commit deleted, .poll 0, .select 0 [], .send 0 true, .acknowledge 0, .mark 0 true]
    let after := turns.foldl step {}
    retained after.log deleted.lane = some deleted.message := by
  intro turns after
  have newest : after.Newest deleted.message := by
    refine ⟨?_, ?_⟩
    · decide +kernel
    · decide +kernel
  have settled : after.Settled deleted.message.lane := by
    unfold Replicas.Settled
    decide +kernel
  exact retained_newest (System.Reachable.foldl_restrict (by decide +kernel)) newest settled

/-- The first send of the created product fails, the tombstone goes out in the same batch, and
the product is sent again in the next one: it is there to stay. -/
theorem resent_over_tombstone :
    ¬ ∀ s : Replicas Unit, (relaying Unit).Reachable s → ∀ message, s.Newest message →
      s.Settled message.lane → retained s.log message.lane = some message := by
  intro holds
  let turns : List (Turn Unit) :=
    [.commit created, .commit deleted, .poll (), .select () [], .send () false, .fail (),
      .record () true, .send () true, .acknowledge (), .mark () true, .send () true, .poll (),
      .select () [], .send () true, .acknowledge (), .mark () true]
  have newest : (turns.foldl step {}).Newest deleted.message := by
    refine ⟨?_, ?_⟩
    · decide +kernel
    · decide +kernel
  have settled : (turns.foldl step {}).Settled deleted.message.lane := by
    unfold Replicas.Settled
    decide +kernel
  have last := holds _ (System.Reachable.foldl turns) _ newest settled
  revert last
  decide +kernel

end Souq.Catalog.Relay
