import Souq.Identity.Relay

/-!
# The order in which rows are published

When a row is sent, the earlier rows of its key should be published or parked. In runs in
which batches are disjoint, rows that are due are not overtaken, rows become visible in the
order of their ids and sends that were given up publish nothing, the rows of a key are
first published in the order of their ids.
-/

namespace Souq.Identity.Relay

open Transition List Replicas

def Phase.taken : Phase → Option Row
  | .sending row _ _ _ true | .marking row _ _ _ => some row
  | _ => none

section Moves

variable {ι : Type} [DecidableEq ι]

/-- What a turn can do. -/
inductive Moves (s : Replicas ι) : Turn ι → Replicas ι → Prop where
  | stays {turn : Turn ι} : Moves s turn s
  | commit {row : Row} (fresh : s.fresh row = true) :
      Moves s (.commit row)
        { s with outbox := s.outbox ++ [{ row with attempts := 0, publishedAt := none }] }
  | tick {clock : Time} : Moves s (.tick clock) { s with clock := clock }
  | purge {old : Row → Bool} (published : ∀ row, old row = true → row.publishedAt.isSome = true) :
      Moves s .purgePublished { s with outbox := s.outbox.filter fun row => !old row }
  | arrive {row : Row} {left : List Row} (member : row ∈ s.abandoned) :
      Moves s (.arrive row) { s with log := s.log ++ [row], abandoned := left }
  /-- A replica has nothing left to do. -/
  | stop {turn : Turn ι} {i : ι} {phase : Phase} {left : List Row} (nothing : phase.pending = []) :
      Moves s turn ({ s with abandoned := left }.set i phase)
  | select {i : ι} {locked : List ID} {guard : Nat} (at' : s.phases i = .selecting guard) :
      Moves s (.select i locked) (s.set i (.batch (selectDue s.outbox locked) 0 guard))
  | send {i : ι} {row : Row} {rest : List Row} {published guard : Nat}
      (at' : s.phases i = .batch (row :: rest) published guard) :
      Moves s (.send i) (s.set i (.sending row rest published guard false))
  | take {i : ι} {row : Row} {rest : List Row} {published guard : Nat} {taken : Bool}
      (at' : s.phases i = .sending row rest published guard taken) :
      Moves s (.take i)
        ({ s with log := s.log ++ [row] }.set i (.sending row rest published guard true))
  | acknowledge {i : ι} {row : Row} {rest : List Row} {published guard : Nat}
      (at' : s.phases i = .sending row rest published guard true) :
      Moves s (.acknowledge i) (s.set i (.marking row rest published guard))
  | fail {i : ι} {row : Row} {rest : List Row} {published guard : Nat} {left : List Row}
      (at' : (s.phases i).pending = row :: rest) :
      Moves s (.fail i) ({ s with abandoned := left }.set i (.recording row rest published guard))
  | mark {i : ι} {row : Row} {rest : List Row} {published guard : Nat}
      (at' : s.phases i = .marking row rest published guard) :
      Moves s (.mark i)
        ({ s with outbox := update row.id (fun r => { r with publishedAt := some s.clock }) s.outbox
          }.set i (.batch rest (published + 1) guard))
  | record {i : ι} {row : Row} {rest : List Row} {published guard : Nat}
      (at' : s.phases i = .recording row rest published guard) :
      Moves s (.record i)
        ({ s with outbox := update row.id (fun r => { r with attempts := r.attempts + 1 }) s.outbox
          }.set i (.batch rest published guard))

theorem pending_finish (published guard : Nat) : (finish published guard).pending = [] := by
  unfold finish
  split
  · rfl
  · rfl

theorem moves_step (s : Replicas ι) (turn : Turn ι) : Moves s turn (s.step turn) := by
  cases turn with
  | commit row =>
    simp only [step]
    cases fresh : s.fresh row with
    | true => exact .commit fresh
    | false => exact .stays
  | tick clock => exact .tick
  | purgePublished =>
    refine .purge fun row old => ?_
    cases published : row.publishedAt with
    | none =>
      rw [published] at old
      cases old
    | some _ => rfl
  | arrive row =>
    simp only [step]
    by_cases member : row ∈ s.abandoned
    · rw [if_pos member]
      exact .arrive member
    · rw [if_neg member]
      exact .stays
  | poll i =>
    simp only [step]
    cases s.phases i with
    | idle => exact .stop rfl
    | _ => exact .stays
  | select i locked =>
    simp only [step]
    cases at' : s.phases i with
    | selecting guard =>
      simp only
      by_cases empty : selectDue s.outbox locked = []
      · rw [if_pos empty]
        exact .stop (pending_finish 0 guard)
      · rw [if_neg empty]
        exact .select at'
    | _ => exact .stays
  | send i =>
    simp only [step]
    cases at' : s.phases i with
    | batch rest published guard =>
      cases rest with
      | nil => exact .stop (pending_finish published guard)
      | cons row rest => exact .send at'
    | _ => exact .stays
  | take i =>
    simp only [step]
    cases at' : s.phases i with
    | sending row rest published guard taken => exact .take at'
    | _ => exact .stays
  | acknowledge i =>
    simp only [step]
    cases at' : s.phases i with
    | sending row rest published guard taken =>
      cases taken with
      | true => exact .acknowledge at'
      | false => exact .stays
    | _ => exact .stays
  | fail i =>
    simp only [step]
    cases at' : s.phases i with
    | sending row rest published guard taken =>
      refine .fail ?_
      rw [at']
      rfl
    | marking row rest published guard =>
      refine .fail ?_
      rw [at']
      rfl
    | _ => exact .stays
  | interrupt i =>
    simp only [step]
    cases s.phases i with
    | sending row rest published guard taken => exact .stop (pending_finish published guard)
    | _ => exact .stays
  | mark i =>
    simp only [step]
    cases at' : s.phases i with
    | marking row rest published guard => exact .mark at'
    | _ => exact .stays
  | record i =>
    simp only [step]
    cases at' : s.phases i with
    | recording row rest published guard => exact .record at'
    | _ => exact .stays
  | crash i => exact .stop rfl

end Moves

/-- The row is the same, and was sent no less often. -/
structure Advances (o o' : Row) : Prop where
  id : o'.id = o.id
  key : o'.key = o.key
  attempts : o.attempts ≤ o'.attempts

theorem Advances.refl (o : Row) : Advances o o := ⟨rfl, rfl, le_refl _⟩

/-- The table after some rows were updated and some published ones were deleted. -/
structure Succeeds (log outbox outbox' : List Row) : Prop where
  back : ∀ o' ∈ outbox', ∃ o ∈ outbox, Advances o o'
  forth : ∀ o ∈ outbox, (∃ o' ∈ outbox', Advances o o') ∨ o.id ∈ log.map Row.id

variable {id : ID} {f : Row → Row}

theorem mem_update {outbox : List Row} {o' : Row} (member : o' ∈ update id f outbox) :
    ∃ o ∈ outbox, (o.id = id ∧ o' = f o) ∨ o.id ≠ id ∧ o' = o := by
  obtain ⟨o, inside, rfl⟩ := mem_map.mp member
  by_cases same : o.id = id
  · exact ⟨o, inside, .inl ⟨same, if_pos same⟩⟩
  · exact ⟨o, inside, .inr ⟨same, if_neg same⟩⟩

theorem succeeds_update (log : List Row) (outbox : List Row) (advances : ∀ o, Advances o (f o)) :
    Succeeds log outbox (update id f outbox) := by
  refine ⟨fun o' member => ?_, fun o inside => .inl ⟨_, mem_map_of_mem inside, ?_⟩⟩
  · obtain ⟨o, inside, ⟨-, rfl⟩ | ⟨-, rfl⟩⟩ := mem_update member
    · exact ⟨o, inside, advances o⟩
    · exact ⟨o', inside, .refl o'⟩
  · split
    · exact advances o
    · exact .refl o

theorem ids_update (advances : ∀ o, Advances o (f o)) (outbox : List Row) :
    (update id f outbox).map Row.id = outbox.map Row.id := by
  rw [update, map_map]
  refine map_congr_left fun o _ => ?_
  rw [Function.comp_apply]
  split
  · exact (advances o).id
  · rfl

/-- What holds of a replica: its rows are in the table or published, each once, and the
earlier rows of the key of a row that is being sent are published or parked. -/
structure Fits (outbox log : List Row) (phase : Phase) : Prop where
  known : ∀ r ∈ phase.pending, (∃ o ∈ outbox, o.id = r.id ∧ o.key = r.key) ∨ r.id ∈ log.map Row.id
  distinct : (phase.pending.map Row.id).Nodup
  taken : ∀ row ∈ phase.taken, row.id ∈ log.map Row.id
  clear : ∀ row ∈ phase.inFlight, ∀ o ∈ outbox, o.key = row.key → o.id < row.id →
    o.id ∈ log.map Row.id ∨ maxAttempts ≤ o.attempts

section Fits

variable {outbox outbox' log : List Row} {phase : Phase}

theorem Fits.nothing (nothing : phase.pending = []) : Fits outbox log phase := by
  cases phase with
  | idle | selecting => exact ⟨by simp [Phase.pending], by simp [Phase.pending],
      by simp [Phase.taken], by simp [Phase.inFlight]⟩
  | batch rest published guard =>
    cases nothing
    exact ⟨by simp [Phase.pending], by simp [Phase.pending], by simp [Phase.taken],
      by simp [Phase.inFlight]⟩
  | sending | marking | recording => cases nothing

theorem Fits.succeeds (fits : Fits outbox log phase) (after : Succeeds log outbox outbox') :
    Fits outbox' log phase where
  known := by
    intro r member
    rcases fits.known r member with ⟨o, inside, id, key⟩ | published
    · rcases after.forth o inside with ⟨o', inside', same⟩ | published
      · exact .inl ⟨o', inside', same.id.trans id, same.key.trans key⟩
      · exact .inr (id ▸ published)
    · exact .inr published
  distinct := fits.distinct
  taken := fits.taken
  clear := by
    intro row flying o' inside' key less
    obtain ⟨o, inside, same⟩ := after.back o' inside'
    rw [same.id] at less ⊢
    exact (fits.clear row flying o inside (same.key ▸ key) less).imp_right
      fun parked => le_trans parked same.attempts

theorem Fits.append (fits : Fits outbox log phase) (row : Row) :
    Fits outbox (log ++ [row]) phase := by
  have more : ∀ {id}, id ∈ log.map Row.id → id ∈ (log ++ [row]).map Row.id := by
    intro id published
    rw [map_append]
    exact mem_append_left _ published
  exact ⟨fun r member => (fits.known r member).imp_right more, fits.distinct,
    fun r taken => more (fits.taken r taken),
    fun r flying o inside key less => (fits.clear r flying o inside key less).imp_left more⟩

theorem Fits.commit (fits : Fits outbox log phase) {new : Row}
    (latest : ∀ later ∈ phase.inFlight, later.key = new.key → ¬ new.id < later.id) :
    Fits (outbox ++ [new]) log phase where
  known := by
    intro r member
    rcases fits.known r member with ⟨o, inside, same⟩ | published
    · exact .inl ⟨o, mem_append_left _ inside, same⟩
    · exact .inr published
  distinct := fits.distinct
  taken := fits.taken
  clear := by
    intro row flying o inside key less
    rcases mem_append.mp inside with old | added
    · exact fits.clear row flying o old key less
    · rw [mem_singleton.mp added] at key less
      exact (latest row flying key.symm less).elim

theorem Fits.next (fits : Fits outbox log phase) {row : Row} {rest : List Row}
    (pending : phase.pending = row :: rest) (published guard : Nat) :
    Fits outbox log (.batch rest published guard) where
  known := fun r member => fits.known r (pending ▸ mem_cons_of_mem row member)
  distinct := by
    have distinct := fits.distinct
    rw [pending, map_cons, nodup_cons] at distinct
    exact distinct.2
  taken := by simp [Phase.taken]
  clear := by simp [Phase.inFlight]

theorem Fits.landed (fits : Fits outbox log phase) {phase' : Phase}
    (pending : phase'.pending = phase.pending) (flying : phase'.inFlight = none)
    (taken : ∀ row ∈ phase'.taken, row.id ∈ log.map Row.id) : Fits outbox log phase' where
  known := pending ▸ fits.known
  distinct := pending ▸ fits.distinct
  taken := taken
  clear := by simp [flying]

theorem Fits.send {row : Row} {rest : List Row} {published guard : Nat}
    (fits : Fits outbox log (.batch (row :: rest) published guard))
    (marked : ∀ o ∈ outbox, o.publishedAt.isSome = true → o.id ∈ log.map Row.id)
    (behind : ∀ o ∈ outbox, o.key = row.key → o.id < row.id → o.due = true →
      o.id ∈ log.map Row.id) :
    Fits outbox log (.sending row rest published guard false) where
  known := fits.known
  distinct := fits.distinct
  taken := by simp [Phase.taken]
  clear := by
    intro other same o inside key less
    cases same
    cases due : o.due with
    | true => exact .inl (behind o inside key less due)
    | false =>
      cases published : o.publishedAt with
      | some _ => exact .inl (marked o inside (by simp [published]))
      | none =>
        right
        simpa [Row.due, published] using due

end Fits

/-- What holds throughout a run: replicas have nothing in common, what is marked is
published, what is parked is on nobody's way, and the earlier rows of the key of a
published row are published or parked. -/
structure Sane {ι : Type} (s : Replicas ι) : Prop where
  keys : (s.outbox.map Row.id).Nodup
  fits : ∀ i, Fits s.outbox s.log (s.phases i)
  apart : ∀ i j, i ≠ j → ∀ r ∈ (s.phases i).pending, ∀ other ∈ (s.phases j).pending, r.id ≠ other.id
  published : ∀ o ∈ s.outbox, o.publishedAt.isSome = true → o.id ∈ s.log.map Row.id
  parked : ∀ o ∈ s.outbox, o.publishedAt = none → maxAttempts ≤ o.attempts →
    ∀ i, ∀ r ∈ (s.phases i).pending, r.id ≠ o.id
  order : ∀ b ∈ s.log, ∀ o ∈ s.outbox, o.key = b.key → o.id < b.id →
    o.id ∈ s.log.map Row.id ∨ maxAttempts ≤ o.attempts
  inOrder : InOrder s.log

section Steps

variable {ι : Type} [DecidableEq ι] {s : Replicas ι}

@[simp] theorem phases_set_self (i : ι) (phase : Phase) : (s.set i phase).phases i = phase := by
  simp [Replicas.set]

variable {i : ι} {outbox : List Row} {row : Row}

theorem phases_set_of_ne {j : ι} (different : j ≠ i) (phase : Phase) :
    (s.set i phase).phases j = s.phases j := by
  simp [Replicas.set, different]

theorem Sane.move (sane : Sane s) {phase : Phase} (fits : Fits s.outbox s.log phase)
    (fewer : ∀ r ∈ phase.pending, r ∈ (s.phases i).pending) : Sane (s.set i phase) := by
  have had : ∀ j, ∀ r ∈ ((s.set i phase).phases j).pending, r ∈ (s.phases j).pending := by
    intro j r member
    by_cases same : j = i
    · subst same
      rw [phases_set_self] at member
      exact fewer r member
    · rwa [phases_set_of_ne same] at member
  refine ⟨sane.keys, fun j => ?_, fun j k different r member other member' => ?_, sane.published,
    fun o inside due parked j r member => ?_, sane.order, sane.inOrder⟩
  · by_cases same : j = i
    · subst same
      rw [phases_set_self]
      exact fits
    · rw [phases_set_of_ne same]
      exact sane.fits j
  · exact sane.apart j k different r (had j r member) other (had k other member')
  · exact sane.parked o inside due parked j r (had j r member)

omit [DecidableEq ι] in
theorem Sane.abandon (sane : Sane s) (left : List Row) : Sane { s with abandoned := left } :=
  ⟨sane.keys, sane.fits, sane.apart, sane.published, sane.parked, sane.order, sane.inOrder⟩

/-! ### Selecting -/

theorem mem_selectDue {locked : List ID} (member : row ∈ selectDue outbox locked) :
    row ∈ outbox ∧ row.due = true := by
  have sorted := mem_of_mem_take member
  rw [mem_insertionSort] at sorted
  obtain ⟨inside, free⟩ := mem_filter.mp sorted
  rw [Bool.and_eq_true] at free
  exact ⟨inside, free.1⟩

theorem fits_selectDue (log : List Row) (keys : (outbox.map Row.id).Nodup) (locked : List ID)
    (guard : Nat) : Fits outbox log (.batch (selectDue outbox locked) 0 guard) where
  known := fun r member => .inl ⟨r, (mem_selectDue member).1, rfl, rfl⟩
  distinct := by
    have perm := perm_insertionSort (fun a b : Row => a.id ≤ b.id)
      (outbox.filter fun row => row.due && row.id ∉ locked)
    have whole := (perm.map Row.id).nodup_iff.mpr (keys.sublist (filter_sublist.map Row.id))
    exact whole.sublist ((take_sublist _ _).map Row.id)
  taken := by simp [Phase.taken]
  clear := by simp [Phase.inFlight]

theorem Sane.select (sane : Sane s) {guard : Nat} {locked : List ID}
    (at' : s.phases i = .selecting guard) (disjoint : ¬ s.Overlaps i locked) :
    Sane (s.set i (.batch (selectDue s.outbox locked) 0 guard)) := by
  -- a row of another replica is not selected
  have other : ∀ j, j ≠ i →
      ∀ r ∈ selectDue s.outbox locked, ∀ r' ∈ (s.phases j).pending, r'.id ≠ r.id :=
    fun j different r member r' member' same =>
      disjoint ⟨by rw [at']; rfl, j, different, r, member, r', member', same⟩
  refine ⟨sane.keys, fun j => ?_, fun j k different r member r' member' => ?_, sane.published,
    fun o inside due parked j r member => ?_, sane.order, sane.inOrder⟩
  · by_cases same : j = i
    · subst same
      rw [phases_set_self]
      exact fits_selectDue s.log sane.keys locked guard
    · rw [phases_set_of_ne same]
      exact sane.fits j
  · by_cases first : j = i
    · subst first
      rw [phases_set_self] at member
      rw [phases_set_of_ne different.symm] at member'
      exact (other k different.symm r member r' member').symm
    · rw [phases_set_of_ne first] at member
      by_cases second : k = i
      · subst second
        rw [phases_set_self] at member'
        exact other j first r' member' r member
      · rw [phases_set_of_ne second] at member'
        exact sane.apart j k different r member r' member'
  · by_cases same : j = i
    · subst same
      rw [phases_set_self] at member
      obtain ⟨there, stillDue⟩ := mem_selectDue member
      rintro equal
      cases inj_on_of_nodup_map sane.keys there inside equal
      simp [Row.due, due, Nat.not_lt.mpr parked] at stillDue
    · rw [phases_set_of_ne same] at member
      exact sane.parked o inside due parked j r member

/-! ### Sending -/

theorem InOrder.append {log : List Row} (inOrder : InOrder log)
    (after : row.id ∉ log.map Row.id → ∀ b ∈ log, b.key = row.key → b.id < row.id) :
    InOrder (log ++ [row]) := by
  intro front r split first earlier member key
  rcases prefix_concat_iff.mp split with whole | inside
  · obtain ⟨rfl, same⟩ := append_inj' whole rfl
    cases same
    refine after (fun published => ?_) earlier member key
    obtain ⟨b, there, named⟩ := mem_map.mp published
    exact first b there named
  · exact inOrder front r inside first earlier member key

omit [DecidableEq ι] in
theorem Sane.take (sane : Sane s) (flying : (s.phases i).inFlight = some row)
    (mine : row ∈ (s.phases i).pending) : Sane { s with log := s.log ++ [row] } := by
  have more : ∀ {id}, id ∈ s.log.map Row.id → id ∈ (s.log ++ [row]).map Row.id := by
    intro id published
    rw [map_append]
    exact mem_append_left _ published
  refine ⟨sane.keys, fun j => (sane.fits j).append row, sane.apart,
    fun o inside published => more (sane.published o inside published), sane.parked, ?_, ?_⟩
  · intro b there o inside key less
    rcases mem_append.mp there with old | new
    · exact (sane.order b old o inside key less).imp_left more
    · rw [mem_singleton.mp new] at key less
      exact ((sane.fits i).clear row flying o inside key less).imp_left more
  · refine sane.inOrder.append fun unpublished b there key => ?_
    -- the row is in the table, and not parked
    rcases (sane.fits i).known row mine with ⟨o, inside, id, same⟩ | published
    · rcases Nat.lt_trichotomy b.id row.id with less | equal | greater
      · exact less
      · exact (unpublished (mem_map.mpr ⟨b, there, equal⟩)).elim
      · rcases sane.order b there o inside (same.trans key.symm) (id.symm ▸ greater) with
          published | parked
        · exact (unpublished (id ▸ published)).elim
        · cases marked : o.publishedAt with
          | none => exact (sane.parked o inside marked parked i row mine id.symm).elim
          | some _ =>
            have published := sane.published o inside (by simp [marked])
            exact (unpublished (id ▸ published)).elim
    · exact (unpublished published).elim

theorem Sane.handle (sane : Sane s) {rest : List Row} (pending : (s.phases i).pending = row :: rest)
    {f : Row → Row} (advances : ∀ o, Advances o (f o))
    (marks : ∀ o, (f o).publishedAt.isSome = true → o.publishedAt.isSome = true ∨ row.id ∈ s.log.map
      Row.id) (published guard : Nat) :
    Sane ({ s with outbox := update row.id f s.outbox }.set i (.batch rest published guard)) := by
  have after : Succeeds s.log s.outbox (update row.id f s.outbox) :=
    succeeds_update s.log s.outbox advances
  have mine : ∀ r ∈ rest, r ∈ (s.phases i).pending :=
    fun r member => pending ▸ mem_cons_of_mem row member
  have head : row ∈ (s.phases i).pending := pending ▸ mem_cons_self
  have others : ∀ r ∈ rest, r.id ≠ row.id := by
    have distinct := (sane.fits i).distinct
    rw [pending, map_cons, nodup_cons] at distinct
    exact fun r member same => distinct.1 (mem_map.mpr ⟨r, member, same⟩)
  -- every row that is left was there before, and is not the one that was handled
  have left : ∀ j, ∀ r ∈ (({ s with outbox := update row.id f s.outbox } : Replicas ι).set i
      (.batch rest published guard)).phases j |>.pending,
      r ∈ (s.phases j).pending ∧ r.id ≠ row.id := by
    intro j r member
    by_cases same : j = i
    · subst same
      rw [phases_set_self] at member
      exact ⟨mine r member, others r member⟩
    · rw [phases_set_of_ne same] at member
      exact ⟨member, sane.apart j i same r member row head⟩
  refine ⟨?_, fun j => ?_, fun j k different r member r' member' => ?_, fun o' inside' marked => ?_,
    fun o' inside' due parked j r member => ?_, fun b there o' inside' key less => ?_, sane.inOrder⟩
  · change ((update row.id f s.outbox).map Row.id).Nodup
    rw [ids_update advances]
    exact sane.keys
  · by_cases same : j = i
    · subst same
      rw [phases_set_self]
      exact ((sane.fits j).succeeds after).next pending published guard
    · rw [phases_set_of_ne same]
      exact (sane.fits j).succeeds after
  · exact sane.apart j k different r (left j r member).1 r' (left k r' member').1
  · obtain ⟨o, inside, ⟨named, rfl⟩ | ⟨-, rfl⟩⟩ := mem_update inside'
    · have id : (f o).id = row.id := (advances o).id.trans named
      rcases marks o marked with before | sent
      · rw [(advances o).id]
        exact sane.published o inside before
      · rw [id]
        exact sent
    · exact sane.published o' inside marked
  · obtain ⟨o, inside, ⟨named, rfl⟩ | ⟨-, rfl⟩⟩ := mem_update inside'
    · rw [(advances o).id, named]
      exact (left j r member).2
    · exact sane.parked o' inside due parked j r (left j r member).1
  · obtain ⟨o, inside, same⟩ := after.back o' inside'
    rw [same.id]
    exact (sane.order b there o inside (same.key ▸ key) (same.id ▸ less)).imp_right
      fun parked => le_trans parked same.attempts

/-! ### The table -/

omit [DecidableEq ι] in
theorem Sane.commit (sane : Sane s) (fresh : s.fresh row = true) (timely : ¬ s.Late row) :
    Sane { s with outbox := s.outbox ++ [{ row with attempts := 0, publishedAt := none }] } := by
  set new : Row := { row with attempts := 0, publishedAt := none }
  have unused := fresh
  simp only [Replicas.fresh, Bool.and_eq_true, all_eq_true, decide_eq_true_eq] at unused
  have latest : ∀ j, ∀ later ∈ (s.phases j).inFlight, later.key = new.key → ¬ new.id < later.id :=
    fun j later member key less => timely ⟨fresh, .inr ⟨j, later, member, key, less⟩⟩
  refine ⟨?_, fun j => (sane.fits j).commit (latest j), sane.apart, fun o inside published => ?_,
    fun o inside due parked j r member => ?_, fun b there o inside key less => ?_, sane.inOrder⟩
  · change ((s.outbox ++ [new]).map Row.id).Nodup
    rw [map_append, nodup_append]
    refine ⟨sane.keys, by simp, fun a member b last same => ?_⟩
    obtain ⟨o, inside, rfl⟩ := mem_map.mp member
    exact unused.1 o inside (same.trans (by simpa using last))
  · rcases mem_append.mp inside with old | added
    · exact sane.published o old published
    · rw [mem_singleton.mp added] at published
      cases published
  · rcases mem_append.mp inside with old | added
    · exact sane.parked o old due parked j r member
    · rw [mem_singleton.mp added] at parked
      have none : new.attempts = 0 := rfl
      rw [none] at parked
      exact absurd parked (by decide)
  · rcases mem_append.mp inside with old | added
    · exact sane.order b there o old key less
    · rw [mem_singleton.mp added] at key less
      exact (timely ⟨fresh, .inl ⟨b, there, key.symm, less⟩⟩).elim

omit [DecidableEq ι] in
theorem Sane.purge (sane : Sane s) {old : Row → Bool}
    (published : ∀ row, old row = true → row.publishedAt.isSome = true) :
    Sane { s with outbox := s.outbox.filter fun row => !old row } := by
  have inside : ∀ o ∈ s.outbox.filter fun row => !old row, o ∈ s.outbox :=
    fun o member => (mem_filter.mp member).1
  have after : Succeeds s.log s.outbox (s.outbox.filter fun row => !old row) := by
    refine ⟨fun o member => ⟨o, inside o member, .refl o⟩, fun o there => ?_⟩
    cases gone : old o with
    | true => exact .inr (sane.published o there (published o gone))
    | false => exact .inl ⟨o, mem_filter.mpr ⟨there, by simp [gone]⟩, .refl o⟩
  exact ⟨sane.keys.sublist (filter_sublist.map Row.id), fun j => (sane.fits j).succeeds after,
    sane.apart, fun o member => sane.published o (inside o member),
    fun o member => sane.parked o (inside o member),
    fun b there o member => sane.order b there o (inside o member), sane.inOrder⟩

/-- **One turn that does not go wrong.** -/
theorem Sane.step (sane : Sane s) (turn : Turn ι) (careful : ¬ s.Faulty turn) :
    Sane (s.step turn) := by
  have moves := moves_step s turn
  generalize s.step turn = after at moves
  cases moves with
  | stays => exact sane
  | commit fresh => exact sane.commit fresh careful
  | tick =>
    exact ⟨sane.keys, sane.fits, sane.apart, sane.published, sane.parked, sane.order, sane.inOrder⟩
  | purge published => exact sane.purge published
  | arrive member => exact (careful member).elim
  | stop nothing =>
    refine (sane.abandon _).move (Fits.nothing nothing) fun r member => ?_
    rw [nothing] at member
    cases member
  | select at' => exact sane.select at' careful
  | @send i row rest published guard at' =>
    have fits := sane.fits i
    rw [at'] at fits
    refine sane.move (fits.send sane.published fun o inside key less due => ?_)
      fun r member => by rwa [at']
    by_contra never
    refine careful ⟨row, ?_, o, inside, key, less, due, never⟩
    simp [at', Phase.next]
  | @take i row rest published guard taken at' =>
    have mine : row ∈ (s.phases i).pending := by simp [at', Phase.pending]
    have sent := sane.take (by rw [at']; rfl) mine
    have fits := sent.fits i
    rw [at'] at fits
    refine sent.move ⟨fits.known, fits.distinct, fun r same => ?_, fits.clear⟩
      fun r member => by rwa [at']
    cases same
    simp
  | @acknowledge i row rest published guard at' =>
    have fits := sane.fits i
    rw [at'] at fits
    exact sane.move (fits.landed rfl rfl fits.taken) fun r member => by rwa [at']
  | @fail i row rest published guard left at' =>
    refine (sane.abandon left).move ((sane.fits i).landed at'.symm rfl (by simp [Phase.taken])) ?_
    exact fun r member => by rwa [at']
  | @mark i row rest published guard at' =>
    have fits := sane.fits i
    rw [at'] at fits
    exact sane.handle (f := fun r => { r with publishedAt := some s.clock }) (by rw [at']; rfl)
      (fun o => ⟨rfl, rfl, le_refl _⟩)
      (fun _ _ => .inr (fits.taken row rfl)) _ _
  | @record i row rest published guard at' =>
    exact sane.handle (f := fun r => { r with attempts := r.attempts + 1 }) (by rw [at']; rfl)
      (fun o => ⟨rfl, rfl, Nat.le_succ _⟩) (fun _ published => .inl published) _ _

end Steps

theorem sane_reachable {ι : Type} [DecidableEq ι] {s : Replicas ι}
    (reached : ((relaying ι).restrict fun s turn => ¬ s.Faulty turn).Reachable s) : Sane s := by
  refine reached.invariant ?_ fun s turn after sane taken => ?_
  · rintro _ rfl
    refine ⟨nodup_nil, fun i => Fits.nothing rfl, ?_, ?_, ?_, ?_, ?_⟩
    · intro i j _ r member
      cases member
    · intro o member
      cases member
    · intro o member
      cases member
    · intro b member
      cases member
    · intro front row split
      have none := prefix_nil.mp split
      simp at none
  · obtain ⟨careful, rfl⟩ := taken
    exact sane.step turn careful

/-- **Disjoint batches and order of keys.** In every run in which no `SELECT` returns a row
that another replica still has to send, no row is sent while an earlier row of its key is
due and unpublished, no row becomes visible when a later row of its key is being sent or
published, and no record arrives after its send was given up, no row is being sent by two
replicas and the rows of every key are first published in the order of their ids. -/
theorem relay_in_order {ι : Type} [DecidableEq ι] (s : Replicas ι)
    (reached : ((relaying ι).restrict fun s turn => ¬ s.Faulty turn).Reachable s) :
    s.Disjoint ∧ InOrder s.log := by
  have sane := sane_reachable reached
  have mine : ∀ i, ∀ row ∈ (s.phases i).inFlight, row ∈ (s.phases i).pending := by
    intro i row flying
    cases at' : s.phases i with
    | sending other rest published guard taken =>
      rw [at'] at flying
      cases flying
      exact mem_cons_self
    | _ =>
      rw [at'] at flying
      cases flying
  refine ⟨fun i j different row flying other flying' => ?_, sane.inOrder⟩
  exact sane.apart i j different row (mine i row flying) other (mine j other flying')

/-- Two events of one user. -/
def registered : Row := ⟨1, 1, "souq.notification.commands.v1", "lina@souq.dev", "verify", 0, none⟩

def reminded : Row := ⟨2, 2, "souq.notification.commands.v1", "lina@souq.dev", "remind", 0, none⟩

/-- One replica publishes the first event and fails at the second, another one publishes
the second. -/
def takingTurns : List (Turn Bool) :=
  [.commit registered, .commit reminded, .poll true, .select true [], .send true, .take true,
    .acknowledge true, .mark true, .send true, .fail true, .record true, .send true,
    .poll false, .select false [], .send false, .take false]

theorem takingTurns_in_order :
    let s := takingTurns.foldl Replicas.step {}
    s.Disjoint ∧ InOrder s.log ∧ s.log.map Row.id = [1, 2] := by
  have reached : ((relaying Bool).restrict fun s turn => ¬ s.Faulty turn).Reachable
      (takingTurns.foldl Replicas.step {}) := System.Reachable.foldl_restrict (by decide)
  have holds := relay_in_order _ reached
  exact ⟨holds.1, holds.2, by decide⟩

/-- Both replicas select the same row. -/
def sameBatch : List (Turn Bool) :=
  [.commit registered, .poll true, .poll false, .select true [], .select false [], .send true,
    .send false]

/-- The first event fails, the second is published, and the first succeeds later. -/
def passedOver : List (Turn Bool) :=
  [.commit registered, .commit reminded, .poll true, .select true [], .send true, .fail true,
    .record true, .send true, .take true, .acknowledge true, .mark true, .send true,
    .poll true, .select true [], .send true, .take true]

/-- A row is being sent by both replicas, and the events of a user are published in the
wrong order. -/
theorem relays_collide :
    (¬ ∀ s, (relaying Bool).Reachable s → s.Disjoint) ∧
      ¬ ∀ s, (relaying Bool).Reachable s → InOrder s.log := by
  constructor
  · intro always
    have flying : ∀ i, ((sameBatch.foldl step ({} : Replicas Bool)).phases i).inFlight =
        some registered := by decide
    exact always _ (System.Reachable.foldl sameBatch) true false (by decide) registered
      (flying true) registered (flying false) rfl
  · intro always
    have log : (passedOver.foldl step ({} : Replicas Bool)).log =
        [reminded, { registered with attempts := 1 }] := by decide
    have ordered := always _ (System.Reachable.foldl passedOver)
    rw [log] at ordered
    have less := ordered [reminded] { registered with attempts := 1 } (prefix_refl _)
      (by decide) reminded mem_cons_self rfl
    exact absurd less (by decide)

end Souq.Identity.Relay
