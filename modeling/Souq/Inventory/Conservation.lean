import Mathlib.Algebra.BigOperators.Group.List.Basic
import Souq.Inventory.Isolation

/-!
# Conservation of stock

`stock_levels.reserved` is a running total of what open reservations hold. The
engine never recomputes it: a reservation adds to it line by line, a release
subtracts, a commit subtracts from both counters, and a transaction that fails
undoes its own steps. The main result `conserved` is that the total is right in
every committed state, whatever transactions interleave, so that the clamp of
`ReturnLine` has nothing to clamp.
-/

namespace Souq.Inventory

open Transact Transition Program List Database Function Program.Ensures ReservationItem Write

namespace Database

/-- A reservation is `RESERVED`. -/
def isOpen (db : Database) (id : ID) : Bool :=
  (db.reservation id).any fun row => row.state == .reserved

/-- What open reservations hold of a SKU. -/
def held (db : Database) (sku : ID) : Int :=
  quantityOf sku ((db.items.filter fun item => db.isOpen item.reservationID).map line)

end Database

theorem quantityOf_append (sku : ID) (first second : List ReservationLine) :
    quantityOf sku (first ++ second) = quantityOf sku first + quantityOf sku second := by
  simp [quantityOf]

theorem quantityOf_perm (sku : ID) {first second : List ReservationLine}
    (perm : first.Perm second) : quantityOf sku first = quantityOf sku second :=
  ((perm.filter _).map _).sum_eq

theorem quantityOf_lines (db : Database) (id sku : ID) :
    quantityOf sku (db.lines id) = quantityOf sku ((db.itemsOf id).map line) :=
  quantityOf_perm sku (perm_insertionSort _ _)

theorem quantityOf_split (sku id : ID) {open' : ID → Bool} (isOpen : open' id = true)
    (items : List ReservationItem) :
    quantityOf sku ((items.filter fun item => open' item.reservationID).map line) =
      quantityOf sku ((items.filter fun item => item.reservationID == id).map line) +
      quantityOf sku ((items.filter fun item =>
        open' item.reservationID && !(item.reservationID == id)).map ReservationItem.line) := by
  induction items with
  | nil => rfl
  | cons item items ih =>
    by_cases same : item.reservationID = id
    · simp [same, isOpen, quantityOf_cons, ih, Int.add_assoc]
    · by_cases other : open' item.reservationID = true
      · simp [same, other, quantityOf_cons, ih, Int.add_left_comm]
      · simp [same, other, ih]

variable {db : Database}

theorem isOpen_put (db : Database) (row : Reservation) (id : ID) :
    (put (.reservation row) db).isOpen id =
      if row.id = id then row.state == .reserved else db.isOpen id := by
  unfold isOpen
  rw [reservation_put]
  split <;> rfl

theorem held_put_item (db : Database) (item : ReservationItem) (sku : ID) :
    (put (.item item) db).held sku =
      db.held sku + if db.isOpen item.reservationID ∧ item.line.sku = sku
        then item.line.quantity else 0 := by
  have same : ∀ id, (put (.item item) db).isOpen id = db.isOpen id := fun _ => rfl
  unfold held
  simp only [same]
  change quantityOf sku (((db.items ++ [item]).filter _).map _) = _
  rw [filter_append, map_append, quantityOf_append]
  by_cases isOpen : db.isOpen item.reservationID = true
  · by_cases here : item.line.sku = sku <;> simp [isOpen, here, quantityOf]
  · simp [isOpen, quantityOf]

variable {row : Reservation} {id sku : ID} {α : Type} {post : α → Database → Prop}
  {update : LevelUpdate} {quantity : Int} {after : Database}

theorem held_put_new (known : ∀ item ∈ db.items, (db.reservation item.reservationID).isSome)
    (fresh : db.reservation row.id = none) (sku : ID) :
    (put (.reservation row) db).held sku = db.held sku := by
  have same : db.items.filter (fun item => (put (.reservation row) db).isOpen
      item.reservationID) = db.items.filter fun item => db.isOpen item.reservationID := by
    refine filter_congr fun item member => ?_
    rw [isOpen_put, if_neg]
    intro named
    have there := known item member
    rw [← named, fresh] at there
    cases there
  change quantityOf sku ((db.items.filter _).map _) = _
  rw [same]
  rfl

theorem held_put_closed (closed : row.state ≠ .reserved) (isOpen : db.isOpen row.id = true)
    (sku : ID) :
    (put (.reservation row) db).held sku = db.held sku - quantityOf sku (db.lines row.id) := by
  have others : (fun item : ReservationItem =>
      (put (.reservation row) db).isOpen item.reservationID) =
        fun item => db.isOpen item.reservationID && !(item.reservationID == row.id) := by
    funext item
    rw [isOpen_put]
    by_cases named : row.id = item.reservationID
    · simp [named, closed]
    · simp [named, Ne.symm named]
  have split := quantityOf_split sku row.id isOpen db.items
  rw [quantityOf_lines]
  unfold held
  change quantityOf sku ((db.items.filter _).map _) = _
  rw [others, split]
  unfold itemsOf
  omega

theorem quantityOf_lines_le_held (positive : ∀ item ∈ db.items, 0 < item.line.quantity)
    (isOpen : db.isOpen id = true) (sku : ID) : quantityOf sku (db.lines id) ≤ db.held sku := by
  have split := quantityOf_split sku id isOpen db.items
  have rest : 0 ≤ quantityOf sku ((db.items.filter fun item =>
      db.isOpen item.reservationID && !(item.reservationID == id)).map line) := by
    apply quantityOf_nonneg
    intro line member
    obtain ⟨item, kept, rfl⟩ := mem_map.mp member
    exact positive item (mem_filter.mp kept).1
  rw [quantityOf_lines]
  unfold held
  rw [split]
  unfold itemsOf
  omega

/-- The counters agree with the reservations, up to units that a transaction has
moved for a reservation it has not closed yet. -/
structure Balanced (db : Database) (owed : ID → Int) : Prop where
  known : ∀ item ∈ db.items, (db.reservation item.reservationID).isSome
  positive : ∀ item ∈ db.items, 0 < item.line.quantity
  admissible : ∀ sku row, db.stock sku = some row → row.admissible = true
  level : ∀ sku row, db.stock sku = some row → row.reserved + owed sku = db.held sku
  absent : ∀ sku, db.stock sku = none → owed sku = db.held sku

namespace Balanced

variable {owed owed' : ID → Int}

theorem congr (balanced : Balanced db owed) (same : ∀ sku, owed' sku = owed sku) :
    Balanced db owed' where
  known := balanced.known
  positive := balanced.positive
  admissible := balanced.admissible
  level := fun sku row found => by rw [same]; exact balanced.level sku row found
  absent := fun sku missing => by rw [same]; exact balanced.absent sku missing

theorem put_ledger (balanced : Balanced db owed) (entry : LedgerEntry) :
    Balanced (put (.ledger entry) db) owed :=
  ⟨balanced.known, balanced.positive, balanced.admissible, balanced.level, balanced.absent⟩

theorem put_outbox (balanced : Balanced db owed) (record : OutboxRecord) :
    Balanced (put (.outbox record) db) owed :=
  ⟨balanced.known, balanced.positive, balanced.admissible, balanced.level, balanced.absent⟩

theorem put_processed (balanced : Balanced db owed) (eventID : ID) :
    Balanced (put (.processed eventID) db) owed :=
  ⟨balanced.known, balanced.positive, balanced.admissible, balanced.level, balanced.absent⟩

/-- A new version of a level moves what is owed by the change of `reserved`. -/
theorem put_stock (balanced : Balanced db owed) {old row : StockLevel}
    (found : db.stock sku = some old) (admissible : row.admissible = true) :
    Balanced (put (.stock sku row) db)
      fun other => owed other + if other = sku then old.reserved - row.reserved else 0 := by
  have level := balanced.level sku old found
  refine ⟨balanced.known, balanced.positive, fun other version there => ?_,
    fun other version there => ?_, fun other missing => ?_⟩
  all_goals change update db.stock sku (some row) other = _ at *
  · by_cases same : other = sku
    · rw [same, update_self] at there
      cases there
      exact admissible
    · rw [update_of_ne same] at there
      exact balanced.admissible other version there
  · change version.reserved + _ = db.held other
    by_cases same : other = sku
    · rw [same, update_self] at there
      cases there
      rw [same, if_pos rfl]
      omega
    · rw [update_of_ne same] at there
      rw [if_neg same, Int.add_zero]
      exact balanced.level other version there
  · change _ = db.held other
    by_cases same : other = sku
    · rw [same, update_self] at missing
      cases missing
    · rw [update_of_ne same] at missing
      rw [if_neg same, Int.add_zero]
      exact balanced.absent other missing

theorem put_item (balanced : Balanced db owed) {item : ReservationItem}
    (isOpen : db.isOpen item.reservationID = true) (positive : 0 < item.line.quantity) :
    Balanced (put (.item item) db)
      fun other => owed other + if other = item.line.sku then item.line.quantity else 0 := by
  have held : ∀ sku, (put (.item item) db).held sku =
      db.held sku + if sku = item.line.sku then item.line.quantity else 0 := by
    intro sku
    rw [held_put_item]
    simp only [isOpen, true_and, eq_comm]
  refine ⟨fun other member => ?_, fun other member => ?_, balanced.admissible,
    fun sku row found => ?_, fun sku missing => ?_⟩
  · rcases mem_append.mp member with old | new
    · exact balanced.known other old
    · obtain rfl := mem_singleton.mp new
      change (db.reservation other.reservationID).isSome = true
      cases there : db.reservation other.reservationID with
      | none => simp [Database.isOpen, there] at isOpen
      | some row => rfl
  · rcases mem_append.mp member with old | new
    · exact balanced.positive other old
    · obtain rfl := mem_singleton.mp new
      exact positive
  · rw [held, ← balanced.level sku row found, Int.add_assoc]
  · rw [held, ← balanced.absent sku missing]

theorem put_new (balanced : Balanced db owed) (fresh : db.reservation row.id = none) :
    Balanced (put (.reservation row) db) owed := by
  have held := held_put_new balanced.known fresh
  refine ⟨fun item member => ?_, balanced.positive, balanced.admissible,
    fun sku level found => ?_, fun sku missing => ?_⟩
  · exact isSome_replay (balanced.known item member) [.reservation row]
  · rw [held]
    exact balanced.level sku level found
  · rw [held]
    exact balanced.absent sku missing

theorem put_closed (balanced : Balanced db fun sku => quantityOf sku (db.lines row.id))
    (closed : row.state ≠ .reserved) (isOpen : db.isOpen row.id = true) :
    Balanced (put (.reservation row) db) fun _ => 0 := by
  have held := held_put_closed closed isOpen
  refine ⟨fun item member => ?_, balanced.positive, balanced.admissible,
    fun sku level found => ?_, fun sku missing => ?_⟩
  · exact isSome_replay (balanced.known item member) [.reservation row]
  · have before := balanced.level sku level found
    rw [held]
    omega
  · have before := balanced.absent sku missing
    rw [held]
    omega

end Balanced

/-- A statement that gives units back, or deducts them, finds at least as many. -/
def Stmt.Sufficient (view : Database) : Stmt → Prop
  | .updateLevel .giveBack sku quantity =>
    ∀ row, view.stock sku = some row → quantity ≤ row.reserved
  | .updateLevel .commit sku quantity =>
    ∀ row, view.stock sku = some row → quantity ≤ row.reserved ∧ quantity ≤ row.onHand
  | _ => True

/-- A program finds enough units wherever it moves some, and ends as stated. -/
abbrev Ends {α : Type} (p : Tx α) (db : Database) (post : α → Database → Prop) : Prop :=
  p.Ensures (D := dialect) (fun view q => q.Sufficient view) db post

theorem Stmt.Holds.sufficient {q : Stmt} (holds : q.Holds) (view : Database) :
    q.Sufficient view := by
  cases q with
  | updateLevel update sku quantity =>
    cases update with
    | giveBack => exact holds.elim
    | commit => exact holds.elim
    | take | adjust | setStatus => trivial
  | claimEvent | loadReservationForUpdate | reservationForOrder | insertReservation
  | insertReservationIfAbsent | markReservation | insertReservationItem | reservationItems
  | availableFor | writeLedger | enqueue | claimExpired => trivial

theorem Ends.of_run {p : Tx α} (only : p.Only Stmt.Holds)
    (ends : ∀ a after, p.run db = (.ok a, after) → post a after) :
    Ends p db post :=
  only.ensures (fun view _ holds => holds.sufficient view) ends

theorem updating_level {row : StockLevel} (updates : db.updating update sku quantity = .level row) :
    ∃ old, db.stock sku = some old ∧ update.applies quantity old = true ∧
      row = update.change quantity old ∧ row.admissible = true := by
  unfold updating at updates
  split at updates
  · cases updates
  · split at updates
    · cases updates
    · rename_i old found
      split at updates
      · cases updates
      · rename_i applies
        split at updates
        · rename_i admissible
          cases updates
          exact ⟨old, found, by simpa using applies, rfl, admissible⟩
        · cases updates

/-- An update goes on from the version it writes, or from the tables as they were. -/
theorem ends_update {rest : LevelAnswer → Tx α}
    (finds : (Stmt.updateLevel update sku quantity).Sufficient db)
    (level : ∀ old, db.stock sku = some old → (update.change quantity old).admissible = true → Ends
      (rest (.level (update.change quantity old))) (put (.stock sku (update.change quantity
      old)) db) post) (noRow : Ends (rest .noRow) db post)
    (rejected : Ends (rest .rejected) db post) :
    Ends (updateLevel update sku quantity >>= rest) db post := by
  refine ⟨finds, ?_⟩
  refine updateLevel_elim (P := fun answer after => Ends (rest answer) after post)
    (fun row updates => ?_) (fun _ => noRow) fun _ => rejected
  obtain ⟨old, found, -, rfl, admissible⟩ := updating_level updates
  exact level old found admissible

/-- The tables that say which lines reservations have. -/
structure SameRows (db after : Database) : Prop where
  reservations : after.reservations = db.reservations
  items : after.items = db.items
  collate : after.collate = db.collate

theorem SameRows.refl (db : Database) : SameRows db db := ⟨rfl, rfl, rfl⟩

theorem SameRows.trans {between : Database} (first : SameRows db between)
    (second : SameRows between after) : SameRows db after :=
  ⟨second.reservations.trans first.reservations, second.items.trans first.items,
    second.collate.trans first.collate⟩

theorem SameRows.isOpen (same : SameRows db after) (id : ID) :
    after.isOpen id = db.isOpen id := by
  unfold Database.isOpen Database.reservation
  rw [same.reservations]

theorem SameRows.lines (same : SameRows db after) (id : ID) :
    after.lines id = db.lines id := by
  unfold Database.lines
  rw [same.items, same.collate]

theorem SameRows.held (same : SameRows db after) (sku : ID) :
    after.held sku = db.held sku := by
  unfold Database.held
  simp only [same.items, same.isOpen]

/-- The lines are owed, and the rows are as they were. -/
structure Moved (db after : Database) (owed : ID → Int) (lines : List ReservationLine) : Prop where
  balanced : Balanced after fun sku => owed sku + quantityOf sku lines
  rows : SameRows db after

theorem ends_moveLine (moves : update = .giveBack ∨ update = .commit) {owed : ID → Int}
    {line : ReservationLine} (balanced : Balanced db owed)
    (covered : owed line.sku + line.quantity ≤ db.held line.sku) :
    Ends (moveLine update line) db fun _ after => Moved db after owed [line] := by
  have enough : ∀ row, db.stock line.sku = some row →
      line.quantity ≤ row.reserved ∧ line.quantity ≤ row.onHand := by
    intro row found
    have level := balanced.level line.sku row found
    have bounds := StockLevel.admissible_iff.mp (balanced.admissible line.sku row found)
    omega
  have finds : (Stmt.updateLevel update line.sku line.quantity).Sufficient db := by
    rcases moves with rfl | rfl
    · exact fun row found => (enough row found).1
    · exact enough
  refine ends_update finds (fun old found admissible => ?_) trivial trivial
  refine ⟨(balanced.put_stock found admissible).congr fun sku => ?_, rfl, rfl, rfl⟩
  have less : old.reserved - (update.change line.quantity old).reserved = line.quantity := by
    have bound := (enough old found).1
    rcases moves with rfl | rfl
    · simp only [LevelUpdate.change]
      omega
    · simp only [LevelUpdate.change]
      omega
  rw [quantityOf_cons, less]
  simp [quantityOf, eq_comm]

theorem Moved.append {between : Database} {owed : ID → Int} {first second : List ReservationLine}
    (earlier : Moved db between owed first)
    (later : Moved between after (fun sku => owed sku + quantityOf sku first) second) :
    Moved db after owed (first ++ second) :=
  ⟨later.balanced.congr fun sku => by rw [quantityOf_append, Int.add_assoc],
    earlier.rows.trans later.rows⟩

variable {lines : List ReservationLine}

theorem Moved.put_ledger {owed : ID → Int} (moved : Moved db after owed lines)
    (entry : LedgerEntry) :
    Moved db (put (.ledger entry) after) owed lines :=
  ⟨moved.balanced.put_ledger entry, moved.rows.trans ⟨rfl, rfl, rfl⟩⟩

theorem Moved.put_outbox {owed : ID → Int} (moved : Moved db after owed lines)
    (record : OutboxRecord) :
    Moved db (put (.outbox record) after) owed lines :=
  ⟨moved.balanced.put_outbox record, moved.rows.trans ⟨rfl, rfl, rfl⟩⟩

theorem covered_first {owed : ID → Int} {line : ReservationLine}
    (positive : ∀ other ∈ line :: lines, 0 < other.quantity)
    (covered : ∀ sku, owed sku + quantityOf sku (line :: lines) ≤ db.held sku) :
    owed line.sku + line.quantity ≤ db.held line.sku := by
  have total := covered line.sku
  have rest : 0 ≤ quantityOf line.sku lines :=
    quantityOf_nonneg fun other member => positive other (mem_cons_of_mem _ member)
  rw [quantityOf_cons, if_pos rfl] at total
  omega

theorem ends_moveLines {body : ReservationLine → Tx Unit}
    (each : ∀ (db : Database) (owed : ID → Int) (line : ReservationLine), Balanced db owed →
      owed line.sku + line.quantity ≤ db.held line.sku →
      Ends (body line) db fun _ after => Moved db after owed [line])
    {owed : ID → Int} (balanced : Balanced db owed)
    (positive : ∀ line ∈ lines, 0 < line.quantity)
    (covered : ∀ sku, owed sku + quantityOf sku lines ≤ db.held sku) :
    Ends (forEach body lines) db fun _ after => Moved db after owed lines := by
  induction lines generalizing db owed with
  | nil => exact ⟨balanced.congr fun sku => Int.add_zero _, SameRows.refl db⟩
  | cons line lines ih =>
    have first := covered_first positive covered
    refine bind ((each db owed line balanced first).mono fun _ between moved => ?_)
    refine (ih moved.balanced (fun other member => positive other (mem_cons_of_mem _ member))
      fun sku => ?_).mono fun _ after later => moved.append later
    have total := covered sku
    rw [quantityOf_cons] at total
    rw [moved.rows.held, quantityOf_cons]
    simp only [quantityOf, filter_nil, map_nil, sum_nil] at total ⊢
    omega

variable (mint : Mint) (reservationID : ID) (now : Time) (orderID : ID)

theorem ends_returnLine (db : Database) (owed : ID → Int) (line : ReservationLine)
    (balanced : Balanced db owed) (covered : owed line.sku + line.quantity ≤ db.held line.sku) :
    Ends (returnLine reservationID orderID line) db fun _ after => Moved db after owed [line] :=
  bind ((ends_moveLine (.inl rfl) balanced covered).mono fun _ _ moved =>
    ⟨trivial, moved.put_ledger _⟩)

theorem ends_commitLine (db : Database) (owed : ID → Int) (line : ReservationLine)
    (balanced : Balanced db owed) (covered : owed line.sku + line.quantity ≤ db.held line.sku) :
    Ends (commitLine mint reservationID orderID line) db fun _ after =>
      Moved db after owed [line] :=
  bind ((ends_moveLine (.inr rfl) balanced covered).mono fun _ _ moved =>
    ⟨trivial, trivial, (moved.put_ledger _).put_outbox _⟩)

theorem Balanced.ends_lines {body : ReservationLine → Tx Unit} (balanced : Balanced db fun _ => 0)
    (isOpen : db.isOpen id = true)
    (each : ∀ (db : Database) (owed : ID → Int) (line : ReservationLine), Balanced db owed → owed
      line.sku + line.quantity ≤ db.held line.sku → Ends (body line) db fun _ after => Moved db
      after owed [line]) :
    Ends (do
      let lines ← reservationItems id
      forEach body lines) db fun _ after => SameRows db after ∧
        Balanced after fun sku => quantityOf sku (after.lines id) := by
  have positive : ∀ line ∈ db.lines id, 0 < line.quantity := by
    intro line member
    obtain ⟨item, kept, rfl⟩ := mem_map.mp ((mem_insertionSort _).mp member)
    exact balanced.positive item (mem_filter.mp kept).1
  have moves : Ends (forEach body (db.lines id)) db fun _ after =>
      Moved db after (fun _ => 0) (db.lines id) :=
    ends_moveLines each balanced positive fun sku => by
      have part := quantityOf_lines_le_held balanced.positive isOpen sku
      omega
  refine ⟨trivial, moves.mono fun _ after moved => ⟨moved.rows, moved.balanced.congr fun sku => ?_⟩⟩
  rw [moved.rows.lines, Int.zero_add]

theorem ends_enqueue {post : Database → Prop} {record : OutboxRecord}
    (ends : post (put (.outbox record) db)) : Ends (enqueue record) db fun _ => post :=
  ⟨trivial, ends⟩

theorem only_markReservation (id : ID) (state : ReservationState) (reasonCode : String) :
    (markReservation id state reasonCode).Only Stmt.Holds := by
  refine ⟨trivial, fun marked => ?_⟩
  cases marked <;> trivial

/-- Closing a reservation whose lines were moved settles the account, and leaves
the other reservations as they are. -/
theorem ends_markReservation {state : ReservationState} (closes : state ≠ .reserved)
    (reasonCode : String) (isOpen : db.isOpen id = true)
    (balanced : Balanced db fun sku => quantityOf sku (db.lines id)) :
    Ends (markReservation id state reasonCode) db fun _ after =>
      Balanced after (fun _ => 0) ∧ ∀ other, other ≠ id → after.isOpen other = db.isOpen other := by
  refine Ends.of_run (only_markReservation id state reasonCode) fun _ after ran => ?_
  rw [run_markReservation closes] at ran
  cases found : db.reservation id with
  | none => simp [Database.isOpen, found] at isOpen
  | some row =>
    have named : row.id = id := Table.key_of_find found
    simp only [Database.marked, found, Option.map_some, Option.elim_some, Prod.mk.injEq,
      true_and] at ran
    subst ran named
    refine ⟨Balanced.put_closed balanced closes isOpen, fun other different => ?_⟩
    exact (isOpen_put db _ other).trans (if_neg (Ne.symm different))

theorem ends_expire (balanced : Balanced db fun _ => 0) (isOpen : db.isOpen row.id = true) :
    Ends (expire mint row) db fun _ after => Balanced after (fun _ => 0) ∧
      ∀ other, other ≠ row.id → after.isOpen other = db.isOpen other := by
  refine bind ((balanced.ends_lines isOpen
    (ends_returnLine row.id row.orderID)).mono fun _ between ⟨rows, moved⟩ => ?_)
  refine bind ((ends_markReservation (by decide) "TTL_EXPIRED"
    ((rows.isOpen row.id).trans isOpen) moved).mono fun _ marked ⟨settled, others⟩ => ?_)
  exact ends_enqueue ⟨settled.put_outbox _, fun other different =>
    (others other different).trans (rows.isOpen other)⟩

theorem ends_expireAll {rows : List Reservation} (distinct : (rows.map Reservation.id).Nodup)
    (balanced : Balanced db fun _ => 0) (isOpen : ∀ row ∈ rows, db.isOpen row.id = true) :
    Ends (forEach (expire mint) rows) db fun _ after => Balanced after fun _ => 0 := by
  induction rows generalizing db with
  | nil => exact balanced
  | cons row rows ih =>
    obtain ⟨fresh, distinct⟩ := nodup_cons.mp distinct
    refine bind ((ends_expire mint balanced
      (isOpen row mem_cons_self)).mono fun _ between ⟨settled, others⟩ => ?_)
    refine ih distinct settled fun other member => ?_
    have different : other.id ≠ row.id := fun same =>
      fresh (same ▸ mem_map_of_mem member)
    exact (others other.id different).trans (isOpen other (mem_cons_of_mem _ member))

theorem ends_load {f : Option Reservation → Tx α}
    (ends : ∀ answer, db.reservation id = answer → Ends (f answer) db post) :
    Ends (loadReservationForUpdate id >>= f) db post :=
  ⟨trivial, ends _ rfl⟩

theorem ends_relocks (rows : List Reservation) :
    Ends (forEach relock rows) db fun _ after =>
      after = db ∧ ∀ row ∈ rows, db.reservation row.id = some row := by
  induction rows with
  | nil => exact ⟨rfl, fun _ => nofun⟩
  | cons row rows ih =>
    refine bind (ends_load fun answer found => ?_)
    cases answer with
    | none => trivial
    | some version =>
      change Ends (if version = row then pure () else .fail .rejected) db _
      split
      · rename_i same
        refine ih.mono fun _ after ⟨unchanged, others⟩ => ⟨unchanged, fun other member => ?_⟩
        rcases mem_cons.mp member with rfl | member
        · rw [found, same]
        · exact others other member
      · trivial

/-- While a reservation takes its lines it is open and the counters agree. -/
structure Taking (db : Database) (id : ID) : Prop where
  balanced : Balanced db fun _ => 0
  isOpen : db.isOpen id = true

theorem admits_positive {item : ReservationItem} (takes : db.admits item = true) :
    0 < item.line.quantity := by
  simp only [admits, Bool.and_eq_true, decide_eq_true_eq] at takes
  exact takes.1.1.2

theorem ends_takeLine (line : ReservationLine) (taking : Taking db id) :
    Ends (takeLine id orderID line) db fun short after => short = none → Taking after id := by
  refine ends_update trivial (fun old found admissible => ?_) ⟨trivial, fun short => by cases short⟩
    trivial
  have moved := taking.balanced.put_stock found admissible
  have more : old.reserved - (LevelUpdate.take.change line.quantity old).reserved =
      -line.quantity := by
    simp only [LevelUpdate.change]
    omega
  generalize LevelUpdate.take.change line.quantity old = row at moved more ⊢
  refine ⟨trivial, ?_⟩
  change Ends (bind (orReject ((put (.stock line.sku row) db).admits ⟨id, line⟩))
    fun _ => _) (dialect.replay (if (put (.stock line.sku row) db).admits ⟨id, line⟩
      then [.item ⟨id, line⟩] else []) (put (.stock line.sku row) db)) _
  cases takes : (put (.stock line.sku row) db).admits ⟨id, line⟩ with
  | false => trivial
  | true =>
    have recorded : Balanced (put (.item ⟨id, line⟩) _) _ :=
      moved.put_item taking.isOpen (admits_positive takes)
    refine ⟨trivial, fun _ => ⟨(recorded.congr fun sku => ?_).put_ledger _, taking.isOpen⟩⟩
    rw [more]
    change (0 : Int) = 0 + (if sku = line.sku then -line.quantity else 0) +
      if sku = line.sku then line.quantity else 0
    split <;> omega

theorem ends_takeLines (lines : List ReservationLine) (taking : Taking db id) :
    Ends (takeLines id orderID lines) db fun unavailable after =>
      unavailable = [] → Taking after id := by
  induction lines generalizing db with
  | nil => exact fun _ => taking
  | cons line lines ih =>
    refine bind ((ends_takeLine orderID line taking).mono fun short between taken => bind ?_)
    cases short with
    | none => exact ih (taken rfl)
    | some sku => exact Ends.of_run (only_takeLines id orderID lines) fun _ _ _ => nofun

theorem insertReservation_ends {post : Database → Prop}
    (inserts : db.inserting row = .inserted → post (put (.reservation row) db)) :
    Ends (insertReservation row) db fun _ => post := by
  have only : (insertReservation row).Only Stmt.Holds := by
    refine ⟨trivial, fun answer => ?_⟩
    cases answer <;> trivial
  refine Ends.of_run only fun _ after ran => ?_
  obtain ⟨free, rfl⟩ := insertReservation_ok ran
  exact inserts free

theorem ends_hold (reservationID orderID : ID) (lines : List ReservationLine) (ttl : Nat)
    (balanced : Balanced db fun _ => 0) :
    Ends (hold mint now reservationID orderID lines ttl) db fun _ after =>
      Balanced after fun _ => 0 := by
  refine bind (insertReservation_ends fun free => ?_)
  have taking : Taking (put (.reservation
      { id := reservationID, orderID := orderID, state := .reserved,
        expiresAt := some (now + ttl) }) db) reservationID :=
    ⟨balanced.put_new (inserting_eq_inserted free).1, by rw [isOpen_put, if_pos rfl]; rfl⟩
  refine bind ((ends_takeLines orderID lines taking).mono fun unavailable after taken => ?_)
  cases unavailable with
  | nil => exact ⟨trivial, (taken rfl).balanced.put_outbox _⟩
  | cons sku skus => trivial

theorem ends_holdUnlessOrdered (reservationID orderID : ID) (lines : List ReservationLine)
    (ttl : Nat) (balanced : Balanced db fun _ => 0) :
    Ends (holdUnlessOrdered mint now reservationID orderID lines ttl) db fun _ after =>
      Balanced after fun _ => 0 := by
  have held := ends_hold mint now reservationID orderID lines ttl balanced
  refine ⟨trivial, ?_⟩
  generalize dialect.answer (.reservationForOrder orderID) db = answer
  cases answer with
  | none => exact held
  | some other =>
    change Ends (if other ≠ reservationID then _ else _) db _
    split
    · exact balanced
    · exact held

theorem ends_reserve (reservationID orderID : ID) (items : List ReservationLine) (ttl : Nat)
    (balanced : Balanced db fun _ => 0) :
    Ends (reserve mint now reservationID orderID items ttl) db fun _ after =>
      Balanced after fun _ => 0 := by
  unfold reserve
  split
  · trivial
  · cases wanted items with
    | error err => trivial
    | ok lines =>
      refine ends_load fun answer _ => ?_
      cases answer with
      | some existing => exact balanced
      | none => exact ends_holdUnlessOrdered mint now reservationID orderID lines ttl balanced

theorem ends_tombstone (reasonCode : String) (balanced : Balanced db fun _ => 0) :
    Ends (tombstone mint reservationID orderID reasonCode) db fun _ after =>
      Balanced after fun _ => 0 := by
  refine bind (insertReservation_ends fun free => ?_)
  exact ⟨trivial, (balanced.put_new (inserting_eq_inserted free).1).put_outbox _⟩

theorem ends_release (reasonCode : String) (balanced : Balanced db fun _ => 0) :
    Ends (release mint reservationID orderID reasonCode) db fun _ after =>
      Balanced after fun _ => 0 := by
  refine ends_load fun answer found => ?_
  rcases answer with _ | ⟨id, order, state, wasTombstone, reason, expiresAt⟩
  · exact ends_tombstone mint reservationID orderID reasonCode balanced
  · cases state with
    | committed => trivial
    | reserved =>
      have isOpen : db.isOpen reservationID = true := by simp [isOpen, found]
      refine bind ((balanced.ends_lines isOpen
        (ends_returnLine reservationID orderID)).mono fun _ between ⟨rows, moved⟩ => ?_)
      refine bind ((ends_markReservation (by decide) reasonCode
        ((rows.isOpen reservationID).trans isOpen) moved).mono fun _ after ⟨settled, _⟩ => ?_)
      exact ⟨trivial, settled.put_outbox _⟩
    | released | failed => exact ⟨trivial, balanced.put_outbox _⟩

theorem ends_commit (balanced : Balanced db fun _ => 0) :
    Ends (commit mint reservationID orderID) db fun _ after => Balanced after fun _ => 0 := by
  refine ends_load fun answer found => ?_
  rcases answer with _ | ⟨id, order, state, wasTombstone, reason, expiresAt⟩
  · trivial
  · cases state with
    | committed => exact ⟨trivial, balanced.put_outbox _⟩
    | reserved =>
      have isOpen : db.isOpen reservationID = true := by simp [isOpen, found]
      have deducts := balanced.ends_lines isOpen (ends_commitLine mint reservationID orderID)
      have closes : ∀ between, SameRows db between →
          (Balanced between fun sku => quantityOf sku (between.lines reservationID)) →
          Ends (do
            markReservation reservationID .committed ""
            enqueue ⟨mint.eventID, .committed orderID reservationID⟩) between
            fun _ after => Balanced after fun _ => 0 := by
        intro between rows moved
        refine bind ((ends_markReservation (by decide) ""
          ((rows.isOpen reservationID).trans isOpen) moved).mono fun _ after ⟨settled, _⟩ => ?_)
        exact ⟨trivial, settled.put_outbox _⟩
      have whole := bind (deducts.mono fun _ between ⟨rows, moved⟩ =>
        closes between rows moved)
      rw [bind_assoc] at whole
      exact whole
    | released => trivial
    | failed => trivial

theorem ends_publishFailure (unavailable : List UnavailableSKU)
    (balanced : Balanced db fun _ => 0) :
    Ends (publishFailure mint reservationID orderID unavailable) db fun _ after =>
      Balanced after fun _ => 0 := by
  have only : (publishFailure mint reservationID orderID unavailable).Only Stmt.Holds := by
    refine ⟨trivial, fun answer => ?_⟩
    cases answer with
    | inserted => exact ⟨trivial, fun _ => trivial⟩
    | duplicate => trivial
    | rejected => trivial
  refine Ends.of_run only fun _ after ran => ?_
  obtain ⟨_, between, inserts, enqueues⟩ := run_bind_ok.mp ran
  cases enqueues
  rw [run_insertReservationIfAbsent] at inserts
  split at inserts
  · cases inserts
    exact balanced.put_outbox _
  · obtain ⟨free, rfl⟩ := insertReservation_ok inserts
    exact (balanced.put_new (inserting_eq_inserted free).1).put_outbox _

theorem ends_updateLevel {rest : LevelAnswer → Tx α}
    (holds : (Stmt.updateLevel update sku quantity).Holds)
    (same : ∀ old, (update.change quantity old).reserved = old.reserved)
    (balanced : Balanced db fun _ => 0)
    (level : ∀ row after, Balanced after (fun _ => 0) → Ends (rest (.level row)) after post)
    (noRow : Ends (rest .noRow) db post) (rejected : Ends (rest .rejected) db post) :
    Ends (updateLevel update sku quantity >>= rest) db post := by
  refine ends_update (holds.sufficient db) (fun old found admissible => ?_) noRow rejected
  refine level _ _ ((balanced.put_stock found admissible).congr fun other => ?_)
  rw [same]
  simp

theorem ends_adjust {mint : Mint} {delta : Int} {movement : Movement} {actor note : String}
    (balanced : Balanced db fun _ => 0) :
    Ends (adjust mint sku delta movement actor note) db fun _ after =>
      Balanced after fun _ => 0 :=
  ends_updateLevel trivial (fun _ => rfl) balanced
    (fun _ _ settled => ⟨trivial, trivial, (settled.put_ledger _).put_outbox _⟩) trivial trivial

theorem ends_setStatus (sku : ID) (status : StockStatus) (balanced : Balanced db fun _ => 0) :
    Ends (setStatus sku status) db fun _ after => Balanced after fun _ => 0 :=
  ends_updateLevel trivial (fun _ => rfl) balanced (fun _ _ settled => settled) balanced trivial

theorem ends_expireRows {rows : List Reservation} (distinct : (rows.map Reservation.id).Nodup)
    (live : ∀ row ∈ rows, row.state = .reserved) (balanced : Balanced db fun _ => 0) :
    Ends (expireRows mint rows) db fun _ after => Balanced after fun _ => 0 := by
  refine bind ((ends_relocks rows).mono ?_)
  rintro _ after ⟨rfl, found⟩
  refine ends_expireAll mint distinct balanced fun row member => ?_
  simp [isOpen, found row member, live row member]

theorem ends_sweepExpired (batch : Nat) (now : Time) (locked : List ID) (valid : db.Valid)
    (balanced : Balanced db fun _ => 0) :
    Ends (sweepExpired mint batch now locked) db fun _ after => Balanced after fun _ => 0 := by
  refine ⟨trivial, ends_expireAll mint (nodup_claimed valid batch now locked) balanced
    fun row member => ?_⟩
  obtain ⟨there, live⟩ := mem_claimed member
  have found : db.reservation row.id = some row := Table.find_of_mem valid there
  change db.isOpen row.id = true
  simp [isOpen, found, live]

theorem Ends.void {p : Tx α} {holds : Database → Prop} (ends : Ends p db fun _ => holds) :
    Ends p.void db fun _ => holds :=
  bind (ends.mono fun _ _ now => now)

theorem ends_residual {p : Tx Unit} (offered : Residual p) (valid : db.Valid)
    (balanced : Balanced db fun _ => 0) : Ends p db fun _ after => Balanced after fun _ => 0 := by
  cases offered with
  | transaction transaction =>
    cases transaction with
    | reserve mint now reservationID orderID items ttl =>
      exact (ends_reserve mint now reservationID orderID items ttl balanced).void
    | publishFailure mint reservationID orderID unavailable =>
      exact ends_publishFailure mint reservationID orderID unavailable balanced
    | release mint reservationID orderID reasonCode =>
      exact (ends_release mint reservationID orderID reasonCode balanced).void
    | commit mint reservationID orderID => exact ends_commit mint reservationID orderID balanced
    | sweepExpired mint batch now locked =>
      exact ends_sweepExpired mint batch now locked valid balanced
    | adjust mint sku delta movement note actor accepted =>
      unfold adjustRequest at accepted
      split at accepted
      · cases accepted
      · split at accepted
        · cases accepted
        · cases accepted
          exact (ends_adjust balanced).void
    | setStatus sku status => exact ends_setStatus sku status balanced
  | stop => exact balanced
  | holdUnlessOrdered mint now reservationID orderID lines ttl =>
    exact (ends_holdUnlessOrdered mint now reservationID orderID lines ttl balanced).void
  | hold mint now reservationID orderID lines ttl =>
    exact (ends_hold mint now reservationID orderID lines ttl balanced).void
  | tombstone mint reservationID orderID reasonCode =>
    exact (ends_tombstone mint reservationID orderID reasonCode balanced).void
  | enqueue record => exact ⟨trivial, balanced.put_outbox record⟩
  | refused e => trivial
  | expireRows mint rows distinct live => exact ends_expireRows mint distinct live balanced

/-- The keys, foreign keys and checks of the schema. -/
structure Schema (db : Database) : Prop where
  valid : db.Valid
  known : ∀ item ∈ db.items, (db.reservation item.reservationID).isSome
  positive : ∀ item ∈ db.items, 0 < item.line.quantity
  admissible : ∀ sku row, db.stock sku = some row → row.admissible = true

/-- Nothing is reserved yet. -/
structure Opening (db : Database) : Prop extends Schema db where
  unreserved : ∀ sku row, db.stock sku = some row → row.reserved = 0
  closed : ∀ row ∈ db.reservations, row.state ≠ .reserved

theorem Opening.balanced (opening : Opening db) : Balanced db fun _ => 0 := by
  have closed : ∀ id, db.isOpen id = false := by
    intro id
    unfold isOpen
    cases found : db.reservation id with
    | none => rfl
    | some row => simpa using opening.closed row (Table.mem_of_find found)
  have held : ∀ sku, db.held sku = 0 := by
    intro sku
    simp [held, closed, quantityOf]
  refine ⟨opening.known, opening.positive, opening.admissible, fun sku row found => ?_,
    fun sku _ => (held sku).symm⟩
  rw [held, opening.unreserved sku row found]
  rfl

theorem serial_balanced {start : Database} (valid : start.Valid)
    (balanced : Balanced start fun _ => 0)
    (reached : (serial (D := dialect) start Residual).Reachable db) :
    db.Valid ∧ Balanced db fun _ => 0 := by
  refine reached.invariant (I := fun db => db.Valid ∧ Balanced db fun _ => 0) ?_ ?_
  · rintro _ rfl
    exact ⟨valid, balanced⟩
  · rintro db p _ ⟨valid, balanced⟩ ⟨offered, rfl⟩
    have keep : ∀ (db : Database) w, db.Valid → (put w db).Valid := fun _ w valid =>
      valid_put valid w
    exact ⟨inTx_keeps keep p valid, (ends_residual offered valid balanced).inTx balanced⟩

section Interleavings

variable {ι : Type} [DecidableEq ι] {start : Database} {c : Config dialect ι Err Unit}

theorem next_sufficient (valid : start.Valid) (balanced : Balanced start fun _ => 0)
    (reached : (Config.concurrent start Transaction).Reachable c) {i : ι}
    {s : Session dialect Err Unit} {q : Stmt} {rest : q.Answer → Tx Unit}
    (active : c.sessions i = some s) (calls : s.program = .call q rest) :
    q.Sufficient (s.view c.db) := by
  have good := concurrent_serial valid reached
  obtain ⟨valid, balanced⟩ := serial_balanced valid balanced good.serial
  cases good.tracks i s active with
  | doomed doomed =>
    rw [calls] at doomed
    exact Stmt.Holds.sufficient doomed.1 _
  | reading offers writes held =>
    rw [calls] at offers
    rw [Session.view, writes, Dialect.replay_nil]
    exact (ends_residual offers valid balanced).1
  | acting p offers path =>
    rw [calls] at path
    exact (path.ensures (ends_residual offers valid balanced)).1

/-- **Conservation.** In every committed state the units counted as reserved are
those that open reservations hold, and there are enough of them; a release never
gives back more than is reserved, and a commit never deducts more than there is. -/
theorem conserved (opening : Opening start)
    (reached : (Config.concurrent start Transaction).Reachable c) :
    (∀ sku row, c.db.stock sku = some row →
      row.reserved = c.db.held sku ∧ 0 ≤ row.reserved ∧ row.reserved ≤ row.onHand) ∧
    (∀ sku, c.db.stock sku = none → c.db.held sku = 0) ∧
    ∀ i s sku quantity rest row, c.sessions i = some s → (s.view c.db).stock sku = some row →
      (s.program = .call (.updateLevel .giveBack sku quantity) rest →
        max (row.reserved - quantity) 0 = row.reserved - quantity) ∧
      (s.program = .call (.updateLevel .commit sku quantity) rest →
        0 ≤ row.reserved - quantity ∧ 0 ≤ row.onHand - quantity) := by
  have good := concurrent_serial opening.valid reached
  obtain ⟨-, balanced⟩ := serial_balanced opening.valid opening.balanced good.serial
  refine ⟨fun sku row found => ?_, fun sku missing => (balanced.absent sku missing).symm,
    fun i s sku quantity rest row active found => ⟨fun calls => ?_, fun calls => ?_⟩⟩
  · have level := balanced.level sku row found
    have bounds := StockLevel.admissible_iff.mp (balanced.admissible sku row found)
    omega
  · have enough : quantity ≤ row.reserved :=
      next_sufficient opening.valid opening.balanced reached active calls row found
    omega
  · have enough : quantity ≤ row.reserved ∧ quantity ≤ row.onHand :=
      next_sufficient opening.valid opening.balanced reached active calls row found
    omega

end Interleavings

def stocked : Database where
  stock := fun sku => if sku = 1 then some { onHand := 2, reserved := 0 } else none

theorem stocked_opening : Opening stocked where
  valid := nodup_nil
  known := fun _ => nofun
  positive := fun _ => nofun
  admissible := by
    intro sku row found
    simp only [stocked] at found
    split at found
    · cases found
      rfl
    · cases found
  unreserved := by
    intro sku row found
    simp only [stocked] at found
    split at found
    · cases found
      rfl
    · cases found
  closed := fun _ => nofun

def mintFrom (eventID : ID) : Mint := ⟨eventID, fun id => eventID + 1 + id⟩

theorem conserved_reserving :
    ∃ row, ((reserve (mintFrom 100) 0 10 20 [⟨1, 1⟩] 5).void.inTx stocked).stock 1 = some row ∧
      row.reserved = 1 ∧ row.onHand = 2 ∧
      row.reserved = ((reserve (mintFrom 100) 0 10 20 [⟨1, 1⟩] 5).void.inTx stocked).held 1 := by
  refine ⟨⟨2, 1, .active, 1⟩, by decide, rfl, rfl, ?_⟩
  have reached : (Config.concurrent stocked Transaction).Reachable
      (Config.idle _ : Config dialect Unit Err Unit) :=
    Config.reachable_inTx () (Transaction.reserve (mintFrom 100) 0 10 20 [⟨1, 1⟩] 5) (.init rfl)
  exact ((conserved stocked_opening reached).1 1 _ (by decide)).1

end Souq.Inventory
