import Souq.Inventory.Conservation
import Souq.Lib.Locking

/-!
# The lock order of the engine

Every transaction locks its reservations first and stock rows after them. `Reserve`
goes through its SKUs in byte order. The others go through the lines of a
reservation in the order `ReservationItems` returns them: if that is byte order and
none of them lies below a stock row the transaction holds already, no transactions
wait for each other in a circle (`no_deadlock`).

A sweep goes through several reservations in one transaction, in the order in which
they expired. Nothing orders their SKUs.
-/

namespace Souq.Inventory

open Transact Transition Config List Climbs Key Program Stmt

/-- Reservations come before stock rows, and stock rows in the order of their SKUs. -/
def Key.rank : Key → Option Nat
  | .reservation _ => some 0
  | .stock sku => some (sku + 1)
  | _ => none

def Sorted (lines : List ReservationLine) : Prop := lines.Pairwise fun a b => a.sku ≤ b.sku

instance (lines : List ReservationLine) : Decidable (Sorted lines) :=
  inferInstanceAs (Decidable (lines.Pairwise _))

def Key.Precedes (line : ReservationLine) : Key → Bool
  | .stock sku => decide (sku ≤ line.sku)
  | _ => true

/-- No line lies below a stock row that is held. -/
def Below (held : List Key) (lines : List ReservationLine) : Prop :=
  ∀ key ∈ held, ∀ line ∈ lines, key.Precedes line = true

instance (held : List Key) (lines : List ReservationLine) : Decidable (Below held lines) :=
  inferInstanceAs (Decidable (∀ key ∈ held, ∀ line ∈ lines, key.Precedes line = true))

/-- The lines a transaction reads come in byte order, above the stock rows it holds. -/
def Stmt.InOrder (held : List Key) (view : Database) : Stmt → Prop
  | .reservationItems id => Sorted (view.lines id) ∧ Below held (view.lines id)
  | _ => True

instance (held : List Key) (view : Database) : ∀ q : Stmt, Decidable (q.InOrder held view)
  | .reservationItems id =>
    inferInstanceAs (Decidable (Sorted (view.lines id) ∧ Below held (view.lines id)))
  | .claimEvent _ | .loadReservationForUpdate _ | .reservationForOrder _ | .insertReservation _
  | .insertReservationIfAbsent _ | .markReservation .. | .insertReservationItem _
  | .updateLevel .. | .availableFor _ | .writeLedger _ | .enqueue _ | .claimExpired .. =>
    .isTrue trivial

/-- A program of the engine asks for its locks in ascending order, as far as the
lines it reads are in order. -/
abbrev Rises {α : Type} (p : Tx α) (held : List Key) (post : α → List Key → Prop) : Prop :=
  Climbs (D := dialect) rank Stmt.InOrder p held post

/-- More locks, and of stock rows at most one. -/
def Grows (sku : ID) (held held' : List Key) : Prop :=
  ∃ keys, held' = held ++ keys ∧ ∀ other, .stock other ∈ keys → other = sku

variable {held held' held'' : List Key} {sku : ID}

theorem Grows.trans (first : Grows sku held held') (second : Grows sku held' held'') :
    Grows sku held held'' := by
  obtain ⟨keys, rfl, own⟩ := first
  obtain ⟨more, rfl, own'⟩ := second
  refine ⟨keys ++ more, append_assoc .., fun other member => ?_⟩
  exact (mem_append.mp member).elim (own other) (own' other)

theorem Grows.keep (grows : Grows sku held held') {key : Key} (member : key ∈ held) :
    key ∈ held' := by
  obtain ⟨keys, rfl, -⟩ := grows
  exact mem_append_left _ member

variable {line : ReservationLine} {lines : List ReservationLine} {α : Type} {q : Stmt}
  {post : α → List Key → Prop} {update : LevelUpdate}

theorem Grows.below (grows : Grows line.sku held held') (sorted : Sorted (line :: lines))
    (below : Below held (line :: lines)) : Below held' lines := by
  obtain ⟨keys, rfl, own⟩ := grows
  intro key member next here
  rcases mem_append.mp member with old | new
  · exact below key old next (mem_cons_of_mem _ here)
  · cases key with
    | stock other =>
      rw [own other new]
      exact decide_eq_true (rel_of_pairwise_cons sorted here)
    | reservation | order | item | inbox | outbox => rfl

theorem rises_unranked {rest : q.Answer → Tx α} (waits : skip q = none)
    (unranked : ∀ view, ∀ key ∈ keys q view, key.rank = none)
    (later : ∀ answer keys, (∀ key ∈ keys, rank key = none) → Rises (rest answer) (held ++ keys)
      post) :
    Rises (.call q rest) held post := by
  refine call waits (fun view key member => .inr fun n ranked => ?_)
    fun view _ => later _ _ (unranked view)
  cases (unranked view key member).symm.trans ranked

theorem Grows.unranked {keys : List Key} (unranked : ∀ key ∈ keys, rank key = none) :
    Grows sku held (held ++ keys) := by
  refine ⟨keys, rfl, fun other member => ?_⟩
  cases unranked _ member

theorem rises_writeLedger (sku : ID) (entry : LedgerEntry) :
    Rises (writeLedger entry) held fun _ => Grows sku held :=
  rises_unranked rfl (fun _ _ => nofun) fun _ _ unranked => .unranked unranked

theorem rises_enqueue (sku : ID) (record : OutboxRecord) :
    Rises (enqueue record) held fun _ => Grows sku held := by
  refine rises_unranked rfl ?_ fun _ _ unranked => .unranked unranked
  rintro _ _ (_ | ⟨_, _ | _⟩)
  rfl

theorem above_stock (below : Below held (line :: lines)) :
    .stock line.sku ∈ held ∨ Above (D := dialect) rank held (.stock line.sku) := by
  by_cases own : stock line.sku ∈ held
  · exact .inl own
  · refine .inr ?_
    rintro _ ⟨⟩ other member m ranked
    cases other with
    | reservation id =>
      cases ranked
      exact Nat.succ_pos _
    | stock sku =>
      cases ranked
      have least := of_decide_eq_true (below (.stock sku) member line mem_cons_self)
      have different : sku ≠ line.sku := fun same => own (same ▸ member)
      exact Nat.succ_lt_succ (Nat.lt_of_le_of_ne least different)
    | order | item | inbox | outbox => cases ranked

theorem rises_updateLevel {rest : LevelAnswer → Tx α} (below : Below held (line :: lines))
    (later : ∀ answer held', Grows line.sku held held' → Rises (rest answer) held' post) :
    Rises (updateLevel update line.sku line.quantity >>= rest) held post := by
  have only : ∀ view key, key ∈ keys (.updateLevel update line.sku line.quantity) view →
      key = .stock line.sku := by
    intro view key member
    simp only [Stmt.keys] at member
    split at member
    · exact mem_singleton.mp member
    · cases member
  refine call rfl (fun view key member => ?_) fun view _ => later _ _ ⟨_, rfl, ?_⟩
  · rw [only view key member]
    exact above_stock below
  · intro other member
    cases only view _ member
    rfl

theorem rises_insertReservationItem (item : ReservationItem) :
    Rises (insertReservationItem item) held fun _ => Grows sku held := by
  refine rises_unranked rfl ?_ fun taken keys unranked => ?_
  · rintro _ _ (_ | ⟨_, _ | _⟩)
    rfl
  · cases taken
    · trivial
    · exact Grows.unranked unranked

theorem rises_markReservation {id : ID} {state : ReservationState} (reasonCode : String)
    (locked : .reservation id ∈ held) :
    Rises (markReservation id state reasonCode) held fun _ held' => ∀ key ∈ held, key ∈ held' := by
  have only : ∀ view key, key ∈ keys (.markReservation id state (nullIfEmpty reasonCode)) view →
      key = .reservation id := by
    intro view key member
    simp only [Stmt.keys] at member
    split at member
    · exact mem_singleton.mp member
    · cases member
  refine call rfl (fun view key member => .inl (only view key member ▸ locked)) fun view _ => ?_
  change Rises (orReject _) _ _
  unfold orReject
  split
  · exact fun key member => mem_append_left _ member
  · trivial

theorem rises_load {id : ID} {rest : Option Reservation → Tx α} (absent : Rises (rest none) [] post)
    (present : ∀ row, Rises (rest (some row)) [.reservation id] post) :
    Rises (loadReservationForUpdate id >>= rest) [] post := by
  refine call rfl (fun _ _ _ => .inr fun _ _ _ => nofun) fun view _ => ?_
  change Rises (rest (view.reservation id))
    (if (view.reservation id).isSome then [.reservation id] else []) post
  cases view.reservation id with
  | none => exact absent
  | some row => exact present row

theorem rises_insertReservation {row : Reservation} {rest : Unit → Tx α}
    (later : Rises (rest ()) [.reservation row.id, .order row.orderID] post) :
    Rises (insertReservation row >>= rest) [] post := by
  refine bind (call rfl (fun _ _ _ => .inr fun _ _ _ => nofun) fun view _ => ?_)
  change Rises (orFail (view.inserting row)) [.reservation row.id, .order row.orderID] _
  cases view.inserting row with
  | inserted => exact later
  | duplicate => trivial
  | rejected => trivial

def Locks (body : ReservationLine → Tx Unit) : Prop :=
  ∀ line held lines, Below held (line :: lines) →
    Rises (body line) held fun _ => Grows line.sku held

theorem rises_forEach {body : ReservationLine → Tx Unit} (locks : Locks body)
    (sorted : Sorted lines) (below : Below held lines) :
    Rises (forEach body lines) held fun _ held' => ∀ key ∈ held, key ∈ held' := by
  induction lines generalizing held with
  | nil => exact fun _ member => member
  | cons line lines ih =>
    refine bind ((locks line held lines below).mono fun _ held' grows => ?_)
    refine (ih sorted.tail (grows.below sorted below)).mono fun _ held'' keeps key member => ?_
    exact keeps key (grows.keep member)

theorem rises_moveLine (below : Below held (line :: lines)) :
    Rises (moveLine update line) held fun _ => Grows line.sku held := by
  refine rises_updateLevel below fun answer held' grows => ?_
  cases answer with
  | level row => exact grows
  | noRow => trivial
  | rejected => trivial

variable (mint : Mint) (reservationID orderID : ID)

theorem locks_returnLine : Locks (returnLine reservationID orderID) :=
  fun _ _ _ below => bind ((rises_moveLine below).mono fun _ _ grows =>
    (rises_writeLedger _ _).mono fun _ _ more => grows.trans more)

theorem locks_commitLine :
    Locks (commitLine mint reservationID orderID) :=
  fun _ _ _ below => bind ((rises_moveLine below).mono fun _ _ grows =>
    bind ((rises_writeLedger _ _).mono fun _ _ more =>
      (rises_enqueue _ _).mono fun _ _ last => (grows.trans more).trans last))

theorem rises_lines {body : ReservationLine → Tx Unit} (locks : Locks body) (id : ID) :
    Rises (do
      let lines ← reservationItems id
      forEach body lines) held fun _ held' => ∀ key ∈ held, key ∈ held' := by
  refine call rfl (fun _ _ => nofun) fun view inOrder => ?_
  change Rises (forEach body (view.lines id)) (held ++ []) _
  rw [append_nil]
  exact rises_forEach locks inOrder.1 inOrder.2

theorem rises_takeLine (below : Below held (line :: lines)) :
    Rises (takeLine reservationID orderID line) held fun _ => Grows line.sku held := by
  refine rises_updateLevel below fun answer held' grows => ?_
  cases answer with
  | level row =>
    have recorded : Rises (insertReservationItem ⟨reservationID, line⟩) held' fun _ =>
        Grows line.sku held' := rises_insertReservationItem _
    refine bind (recorded.mono fun _ _ more => ?_)
    exact bind ((rises_writeLedger _ _).mono fun _ _ last => (grows.trans more).trans last)
  | noRow => exact rises_unranked rfl (fun _ _ => nofun) fun _ _ unranked =>
    grows.trans (.unranked unranked)
  | rejected => trivial

theorem rises_takeLines (sorted : Sorted lines) (below : Below held lines) :
    Rises (takeLines reservationID orderID lines) held fun _ _ => True := by
  induction lines generalizing held with
  | nil => trivial
  | cons line lines ih =>
    refine bind ((rises_takeLine reservationID orderID below).mono fun _ held' grows => ?_)
    exact bind ((ih sorted.tail (grows.below sorted below)).mono fun _ _ _ => trivial)

theorem sorted_wanted {items : List ReservationLine} (collected : wanted items = .ok lines) :
    Sorted lines := by
  have : Std.Total fun a b : ReservationLine => a.sku ≤ b.sku := ⟨fun a b => Nat.le_total _ _⟩
  have : IsTrans ReservationLine fun a b => a.sku ≤ b.sku := ⟨fun _ _ _ => Nat.le_trans⟩
  unfold wanted at collected
  cases all : collect items [] with
  | error err =>
    rw [all] at collected
    cases collected
  | ok unsorted =>
    rw [all] at collected
    cases collected
    exact pairwise_insertionSort _ unsorted

theorem rises_announce (record : OutboxRecord) (a : α) :
    Rises (enqueue record >>= fun _ => pure a) held fun _ _ => True :=
  bind ((rises_enqueue 0 record).mono fun _ _ _ => trivial)

theorem rises_hold (now : Time) (reservationID orderID : ID) (ttl : Nat) (sorted : Sorted lines) :
    Rises (hold mint now reservationID orderID lines ttl) [] fun _ _ => True := by
  have below : Below [.reservation reservationID, .order orderID] lines := by
    rintro _ (_ | ⟨_, _ | ⟨_, ⟨⟩⟩⟩) <;> exact fun _ _ => rfl
  refine rises_insertReservation (bind ((rises_takeLines reservationID orderID sorted
    below).mono fun unavailable _ _ => ?_))
  cases unavailable with
  | nil => exact rises_announce _ _
  | cons first others => trivial

theorem rises_reserve (now : Time) (reservationID orderID : ID) (items : List ReservationLine)
    (ttl : Nat) :
    Rises (reserve mint now reservationID orderID items ttl) [] fun _ _ => True := by
  unfold reserve
  split
  · trivial
  · cases collected : wanted items with
    | error err => trivial
    | ok lines =>
      have held := rises_hold mint now reservationID orderID ttl (sorted_wanted collected)
      refine rises_load ?_ fun row => trivial
      refine call rfl (fun _ _ => nofun) fun view _ => ?_
      generalize dialect.answer (.reservationForOrder orderID) view = answer
      cases answer with
      | none => exact held
      | some other =>
        change Rises (if other ≠ reservationID then _ else _) [] _
        split
        · trivial
        · exact held

theorem rises_publishFailure (unavailable : List UnavailableSKU) :
    Rises (publishFailure mint reservationID orderID unavailable) [] fun _ _ => True := by
  refine bind (call rfl (fun _ _ _ => .inr fun _ _ _ => nofun) fun view _ => ?_)
  generalize dialect.answer (.insertReservationIfAbsent _) view = answer
  change Rises (orFail answer) _ _
  cases answer with
  | inserted => exact (rises_enqueue 0 _).mono fun _ _ _ => trivial
  | duplicate => trivial
  | rejected => trivial

theorem rises_release (reasonCode : String) :
    Rises (release mint reservationID orderID reasonCode) [] fun _ _ => True := by
  refine rises_load (rises_insertReservation (rises_announce _ _)) fun row => ?_
  obtain ⟨id, order, state, wasTombstone, reason, expiresAt⟩ := row
  cases state with
  | committed => trivial
  | reserved =>
    refine bind ((rises_lines (locks_returnLine reservationID orderID)
      reservationID).mono fun _ held keeps => ?_)
    exact bind ((rises_markReservation reasonCode
      (keeps _ mem_cons_self)).mono fun _ _ _ => rises_announce _ _)
  | released => exact rises_announce _ _
  | failed => exact rises_announce _ _

theorem rises_commit :
    Rises (commit mint reservationID orderID) [] fun _ _ => True := by
  refine rises_load trivial fun row => ?_
  obtain ⟨id, order, state, wasTombstone, reason, expiresAt⟩ := row
  cases state with
  | committed => exact (rises_enqueue 0 _).mono fun _ _ _ => trivial
  | reserved =>
    have deducts : Rises (do
        let lines ← reservationItems reservationID
        forEach (commitLine mint reservationID orderID) lines)
        [.reservation reservationID] fun _ held' => .reservation reservationID ∈ held' :=
      (rises_lines (locks_commitLine mint reservationID orderID) reservationID).mono
        fun _ _ keeps => keeps _ mem_cons_self
    have closes : ∀ held, .reservation reservationID ∈ held → Rises (do
        markReservation reservationID .committed ""
        enqueue ⟨mint.eventID, .committed orderID reservationID⟩) held fun _ _ => True :=
      fun held locked => bind ((rises_markReservation "" locked).mono fun _ _ _ =>
        (rises_enqueue 0 _).mono fun _ _ _ => trivial)
    have whole := bind (deducts.mono fun _ held locked => closes held locked)
    rw [bind_assoc] at whole
    exact whole
  | released => trivial
  | failed => trivial

theorem rises_expireAll {rows : List Reservation}
    (locked : ∀ row ∈ rows, .reservation row.id ∈ held) :
    Rises (forEach (expire mint) rows) held fun _ _ => True := by
  induction rows generalizing held with
  | nil => trivial
  | cons row rows ih =>
    have expires : Rises (expire mint row) held fun _ held' => ∀ key ∈ held, key ∈ held' := by
      refine bind ((rises_lines (locks_returnLine row.id row.orderID)
        row.id).mono fun _ returned keeps => ?_)
      refine bind ((rises_markReservation "TTL_EXPIRED"
        (keeps _ (locked row mem_cons_self))).mono fun _ marked keeps' => ?_)
      refine (rises_enqueue 0 _).mono fun _ _ grows key member => ?_
      exact grows.keep (keeps' key (keeps key member))
    refine bind (expires.mono fun _ held' keeps => ih fun other member => ?_)
    exact keeps _ (locked other (mem_cons_of_mem _ member))

theorem rises_sweepExpired (batch : Nat) (now : Time) (locked : List ID) :
    Rises (sweepExpired mint batch now locked) [] fun _ _ => True := by
  refine ⟨fun _ _ _ => .inr fun _ _ _ => nofun, fun view _ => ?_, fun answer skips => ?_⟩
  · change Rises (forEach (expire mint) (view.claimed batch now locked))
      ((view.claimed batch now locked).map fun row => .reservation row.id) _
    exact rises_expireAll mint fun row member => mem_map_of_mem member
  · cases skips
    trivial

theorem rises_single {quantity : Int} {rest : LevelAnswer → Tx α}
    (later : ∀ answer held, Rises (rest answer) held fun _ _ => True) :
    Rises (updateLevel update sku quantity >>= rest) [] fun _ _ => True := by
  have below : Below [] [⟨sku, quantity⟩] := fun _ => nofun
  exact rises_updateLevel below fun answer held _ => later answer held

theorem rises_transaction {p : Tx Unit} (transaction : Transaction p) :
    Rises p [] fun _ _ => True := by
  cases transaction with
  | reserve mint now reservationID orderID items ttl =>
    exact (rises_reserve mint now reservationID orderID items ttl).void
  | publishFailure mint reservationID orderID unavailable =>
    exact rises_publishFailure mint reservationID orderID unavailable
  | release mint reservationID orderID reasonCode =>
    exact (rises_release mint reservationID orderID reasonCode).void
  | commit mint reservationID orderID => exact rises_commit mint reservationID orderID
  | sweepExpired mint batch now locked => exact rises_sweepExpired mint batch now locked
  | adjust mint sku delta movement note actor accepted =>
    unfold adjustRequest at accepted
    split at accepted
    · cases accepted
    · split at accepted
      · cases accepted
      · cases accepted
        refine void (rises_single fun answer held => ?_)
        cases answer with
        | level row =>
          exact bind ((rises_writeLedger 0 _).mono fun _ _ _ => rises_announce _ _)
        | noRow => trivial
        | rejected => trivial
  | setStatus sku status =>
    refine rises_single fun answer held => ?_
    cases answer <;> trivial

/-- The next statement of a transaction reads lines in order, if it reads lines. -/
def inOrder {ι : Type} (c : Config dialect ι Err Unit) (i : ι) : Bool :=
  match c.sessions i with
  | some ⟨.call q _, writes, held⟩ => decide (Stmt.InOrder held (dialect.replay writes c.db) q)
  | _ => true

theorem inOrder_next {ι : Type} {c : Config dialect ι Err Unit} {i : ι}
    {s : Session dialect Err Unit} {rest : q.Answer → Tx Unit} (orderly : inOrder c i = true)
    (active : c.sessions i = some s) (calls : s.program = .call q rest) :
    q.InOrder s.held (s.view c.db) := by
  obtain ⟨program, writes, held⟩ := s
  subst calls
  simp only [inOrder, active] at orderly
  exact of_decide_eq_true orderly

/-- The rank of the locks a statement takes. -/
def Stmt.level : Stmt → Nat
  | .updateLevel _ sku _ => sku + 1
  | _ => 0

theorem rank_of_mem_keys {view : Database} {key : Key} {n : Nat} (member : key ∈ keys q view)
    (ranked : key.rank = some n) : n = q.level := by
  cases q with
  | claimExpired limit now locked =>
    obtain ⟨row, -, rfl⟩ := mem_map.mp member
    cases ranked
    rfl
  | insertReservation row =>
    rcases member with _ | ⟨_, _ | ⟨_, ⟨⟩⟩⟩ <;> cases ranked
    rfl
  | insertReservationIfAbsent row =>
    simp only [Stmt.keys] at member
    split at member
    · cases member
    · rcases member with _ | ⟨_, _ | ⟨_, ⟨⟩⟩⟩ <;> cases ranked
      rfl
  | insertReservationItem item =>
    cases mem_singleton.mp member
    cases ranked
  | enqueue record =>
    cases mem_singleton.mp member
    cases ranked
  | claimEvent eventID =>
    simp only [Stmt.keys] at member
    split at member
    · cases member
    · cases mem_singleton.mp member
      cases ranked
  | loadReservationForUpdate | markReservation | updateLevel =>
    simp only [Stmt.keys] at member
    split at member
    · cases mem_singleton.mp member
      cases ranked
      rfl
    · cases member
  | reservationForOrder | reservationItems | availableFor | writeLedger => cases member

/-- **No deadlock** as long as lines are read in order: the wait-for graph over the
rows of `reservations` and `stock_levels` has no cycle, and every transaction has
taken its locks in one global order. -/
theorem no_deadlock {ι : Type} [DecidableEq ι] {start : Database} {c : Config dialect ι Err Unit}
    (reached : ((concurrent start Transaction).restrict fun c i =>
      inOrder c i = true).Reachable c) :
    (∀ i, ¬ Relation.TransGen (c.Waits rank) i i) ∧
      ∀ i s, c.sessions i = some s → Ascending (D := dialect) rank s.held := by
  obtain ⟨apart, climbing⟩ := climbing_of_reachable (fun _ => rises_transaction)
    (fun _ _ _ first _ second _ _ rankedFirst rankedSecond =>
      (rank_of_mem_keys first rankedFirst).trans (rank_of_mem_keys second rankedSecond).symm)
    (fun _ _ _ _ _ => inOrder_next) reached
  exact ⟨climbing.acyclic apart, fun i s active => (climbing i s active).2⟩

/-- Two reservations that have expired, the first of SKU 2 and the second of SKU 1. -/
def expiring : Database where
  stock := fun sku => if sku = 1 ∨ sku = 2 then some { onHand := 5, reserved := 1 } else none
  reservations :=
    [{ id := 11, orderID := 21, state := .reserved, expiresAt := some 1 },
      { id := 12, orderID := 22, state := .reserved, expiresAt := some 2 }]
  items := [⟨11, ⟨2, 1⟩⟩, ⟨12, ⟨1, 1⟩⟩]

def sweeping : Tx Unit := sweepExpired (mintFrom 600) 100 10

def reserving : Tx Unit := (reserve (mintFrom 700) 10 13 23 [⟨2, 1⟩, ⟨1, 1⟩] 5).void

/-- The tables with two transactions begun, `true` the second of them. -/
def begun (db : Database) (first second : Tx Unit) : Config dialect Bool Err Unit :=
  ((idle db).set false (some { program := first })).set true (some { program := second })

theorem begun_reachable {db : Database} {first second : Tx Unit} {offered : Tx Unit → Prop}
    {ok : Config dialect Bool Err Unit → Bool → Prop} (offersFirst : offered first)
    (offersSecond : offered second) (okFirst : ok (idle db) false)
    (okSecond : ok ((idle db).set false (some { program := first })) true) :
    ((concurrent db offered).restrict ok).Reachable (begun db first second) := by
  have started : ((concurrent db offered).restrict ok).Reachable (idle db) :=
    .init rfl
  have once := started.step (a := false) ⟨okFirst, Config.Step.start rfl offersFirst⟩
  exact once.step (a := true) ⟨okSecond, Config.Step.start rfl offersSecond⟩

def queueing : Tx Unit := (reserve (mintFrom 800) 10 14 24 [⟨1, 2⟩] 5).void

/-- One reservation holds SKU 1, and another asks for it. -/
def queue : Config dialect Bool Err Unit :=
  [false, false, false, false, true, true, true].foldl (advance fun _ _ => none)
    (begun expiring reserving queueing)

theorem no_deadlock_queue : queue.Waits rank true false ∧
    ∀ i, ¬ Relation.TransGen (queue.Waits rank) i i := by
  have reached : ((concurrent expiring Transaction).restrict fun c i =>
      inOrder c i = true).Reachable (begun expiring reserving queueing) :=
    begun_reachable (.reserve ..) (.reserve ..) rfl rfl
  have permits : System.Permits (advance (D := dialect) fun _ _ => none) (inOrder · · = true)
      [false, false, false, false, true, true, true] (begun expiring reserving queueing) := by
    decide +kernel
  refine ⟨waits_of_waiting nofun (by decide +kernel), ?_⟩
  exact (no_deadlock (reachable_schedule reached permits)).1

/-- The sweep has given SKU 2 back when the reservation takes SKU 1. -/
def deadlock : Config dialect Bool Err Unit :=
  ([false, false, false] ++ List.replicate 6 true ++ List.replicate 4 false).foldl
    (advance fun _ _ => none) (begun expiring sweeping reserving)

/-- The sweep holds SKU 2 and waits for SKU 1; the reservation holds SKU 1 and waits
for SKU 2. -/
theorem sweep_deadlocks : ¬ ∀ (start : Database) (c : Config dialect Bool Err Unit),
    (concurrent start fun p => p = sweeping ∨ p = reserving).Reachable c →
      ∀ i, ¬ Relation.TransGen (c.Waits rank) i i := by
  intro acyclic
  have reached : ((concurrent expiring fun p => p = sweeping ∨ p = reserving).restrict
      fun _ _ => True).Reachable (begun expiring sweeping reserving) :=
    begun_reachable (.inl rfl) (.inr rfl) trivial trivial
  have blocked : ((concurrent expiring fun p => p = sweeping ∨ p = reserving).restrict
      fun _ _ => True).Reachable deadlock := reachable_schedule reached (by decide +kernel)
  have sweep : deadlock.Waits rank false true :=
    waits_of_waiting nofun (by decide +kernel)
  have reservation : deadlock.Waits rank true false :=
    waits_of_waiting nofun (by decide +kernel)
  exact acyclic expiring deadlock blocked.of_restrict false (.tail (.single sweep) reservation)

end Souq.Inventory
