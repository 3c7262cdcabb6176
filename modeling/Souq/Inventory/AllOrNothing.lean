import Souq.Inventory.Conservation

/-!
# Reserving is all or nothing

`Reserve` merges the items by SKU, takes what it can, and lets the transaction roll back
when a SKU falls short. For an order it does not know, that comes to a decision made all
at once: the sum wanted of every SKU is held, or nothing is and the SKUs that fall short
are named. Quantities are added up in 64 bits, so the sums have to be ones that fit.
-/

namespace Souq.Inventory

open Transact Program List

/-- What a call of `Reserve` answers. -/
inductive Reply where
  | reserved (expiresAt : Time)
  | alreadyProcessed (state : ReservationState)
  | failed (unavailable : List UnavailableSKU)
  deriving DecidableEq

/-- The answer to a transaction that went through. -/
def ReserveResult.reply (result : ReserveResult) : Reply :=
  match result.outcome with
  | .reserved => .reserved (result.expiresAt.getD 0)
  | .alreadyProcessed => .alreadyProcessed result.state

/-- The whole of `Reserve`: its transaction and, when that fell short, the one that
publishes the failure. -/
def reserveCall (mint : Mint) (now : Time) (reservationID orderID : ID)
    (items : List ReservationLine) (ttl : Nat) (db : Database) : Except Err Reply × Database :=
  match (reserve mint now reservationID orderID items ttl).run db with
  | (.ok result, after) => (.ok result.reply, after)
  | (.error (.insufficient unavailable), _) =>
    match (publishFailure mint reservationID orderID unavailable).run db with
    | (.ok _, after) => (.ok (.failed unavailable), after)
    | (.error err, _) => (.error err, db)
  | (.error err, _) => (.error err, db)

/-- A quantity of a SKU can be promised: it is active and has that much left. -/
def Database.Promises (db : Database) (sku : ID) (quantity : Int) : Prop :=
  ∃ row, db.stock sku = some row ∧ row.status = .active ∧ quantity ≤ row.onHand - row.reserved

def Named (items : List ReservationLine) (sku : ID) : Prop := ∃ item ∈ items, item.sku = sku

/-- The stock rows, lines and ledger of two states are the same. -/
structure SameStock (db after : Database) : Prop where
  stock : after.stock = db.stock
  items : after.items = db.items
  ledger : after.ledger = db.ledger

/-- The stock wanted of each SKU is held: of every SKU that is named the sum of its
quantities, in one line, and of every other nothing. -/
structure Holds (db after : Database) (reservationID : ID) (items : List ReservationLine) :
    Prop where
  named : ∀ sku, Named items sku → ∃ row, db.stock sku = some row ∧
    after.stock sku = some { row with
      reserved := row.reserved + quantityOf sku items
      version := row.version + 1 }
  others : ∀ sku, ¬ Named items sku → after.stock sku = db.stock sku
  lines : ∀ sku, Named items sku →
    (after.itemsOf reservationID).filter (fun item => item.line.sku = sku) =
      [⟨reservationID, sku, quantityOf sku items⟩]
  noOthers : ∀ item ∈ after.itemsOf reservationID, Named items item.line.sku

/-- All is held for `reserved`, nothing for `failed`. -/
structure AllOrNothing (db after : Database) (reservationID : ID) (items : List ReservationLine)
    (reply : Except Err Reply) : Prop where
  holds : ∀ expiresAt, reply = .ok (.reserved expiresAt) → Holds db after reservationID items
  reserved_iff : (∃ expiresAt, reply = .ok (.reserved expiresAt)) ↔
    ∀ sku, Named items sku → db.Promises sku (quantityOf sku items)
  nothing : ∀ unavailable, reply = .ok (.failed unavailable) → SameStock db after ∧
    ∀ sku, (∃ short ∈ unavailable, short.sku = sku) ↔
      Named items sku ∧ ¬ db.Promises sku (quantityOf sku items)

/-- One line for each SKU, with the sum of its quantities. -/
structure Merged (items lines : List ReservationLine) : Prop where
  distinct : (lines.map ReservationLine.sku).Nodup
  named : ∀ sku, Named lines sku ↔ Named items sku
  sums : ∀ line ∈ lines, line.quantity = quantityOf line.sku items

variable {sku : ID}

theorem named_iff_mem {lines : List ReservationLine} :
    Named lines sku ↔ sku ∈ lines.map ReservationLine.sku := by
  simp [Named]

theorem named_append {first second : List ReservationLine} :
    Named (first ++ second) sku ↔ Named first sku ∨ Named second sku := by
  simp [Named, or_and_right, exists_or]

theorem map_addWanted (item : ReservationLine) (lines : List ReservationLine) :
    (addWanted item lines).map ReservationLine.sku =
      if item.sku ∈ lines.map ReservationLine.sku then lines.map ReservationLine.sku
      else lines.map ReservationLine.sku ++ [item.sku] := by
  induction lines with
  | nil => rfl
  | cons line lines ih =>
    rw [addWanted]
    by_cases same : line.sku = item.sku
    · simp [same]
    · rw [if_neg same, map_cons, ih]
      have other : item.sku ∉ [line.sku] := by simpa using Ne.symm same
      by_cases later : item.sku ∈ lines.map ReservationLine.sku
      · simp [later]
      · simp [later, Ne.symm same]

theorem mem_addWanted {item line : ReservationLine} {lines : List ReservationLine}
    (distinct : (lines.map ReservationLine.sku).Nodup) (mem : line ∈ addWanted item lines) :
    (line.sku ≠ item.sku ∧ line ∈ lines) ∨
      (line = item ∧ item.sku ∉ lines.map ReservationLine.sku) ∨
      ∃ old ∈ lines, old.sku = item.sku ∧
        line = { old with quantity := addInt old.quantity item.quantity } := by
  induction lines with
  | nil =>
    obtain rfl : line = item := by simpa [addWanted] using mem
    exact .inr (.inl ⟨rfl, not_mem_nil⟩)
  | cons first lines ih =>
    rw [map_cons, nodup_cons] at distinct
    rw [addWanted] at mem
    split at mem
    · rename_i same
      rcases mem_cons.mp mem with rfl | mem
      · exact .inr (.inr ⟨first, mem_cons_self, same, rfl⟩)
      · refine .inl ⟨fun equal => distinct.1 ?_, mem_cons_of_mem _ mem⟩
        rw [same, ← equal]
        exact mem_map_of_mem mem
    · rename_i different
      rcases mem_cons.mp mem with rfl | mem
      · exact .inl ⟨different, mem_cons_self⟩
      · rcases ih distinct.2 mem with ⟨other, there⟩ | ⟨rfl, absent⟩ | ⟨old, there, same, rfl⟩
        · exact .inl ⟨other, mem_cons_of_mem _ there⟩
        · refine .inr (.inl ⟨rfl, ?_⟩)
          rw [map_cons, mem_cons, not_or]
          exact ⟨fun equal => different equal.symm, absent⟩
        · exact .inr (.inr ⟨old, mem_cons_of_mem _ there, same, rfl⟩)

theorem quantityOf_eq_zero {lines : List ReservationLine} (absent : ¬ Named lines sku) :
    quantityOf sku lines = 0 := by
  have none' : (lines.filter fun line => line.sku = sku) = [] :=
    filter_eq_nil_iff.mpr fun line mem named => absent ⟨line, mem, by simpa using named⟩
  rw [quantityOf, none']
  rfl

theorem quantityOf_singleton (sku : ID) (item : ReservationLine) :
    quantityOf sku [item] = if item.sku = sku then item.quantity else 0 := by
  have none : quantityOf sku [] = 0 := quantityOf_eq_zero (by simp [Named])
  rw [quantityOf_cons, none, add_zero]

theorem Merged.nil : Merged [] [] :=
  ⟨nodup_nil, fun _ => Iff.rfl, fun _ mem => absurd mem not_mem_nil⟩

theorem Merged.add {done lines : List ReservationLine} (merged : Merged done lines)
    {item : ReservationLine} (positive : ∀ line ∈ done ++ [item], 0 < line.quantity)
    (fits : quantityOf item.sku (done ++ [item]) < 2 ^ 63) :
    Merged (done ++ [item]) (addWanted item lines) := by
  have before : 0 ≤ quantityOf item.sku done :=
    quantityOf_nonneg fun line mem => positive line (mem_append_left _ mem)
  have more : 0 < item.quantity := positive item (by simp)
  have sum : ∀ sku, quantityOf sku (done ++ [item]) =
      quantityOf sku done + if item.sku = sku then item.quantity else 0 := fun sku => by
    rw [quantityOf_append, quantityOf_singleton]
  constructor
  · rw [map_addWanted]
    split
    · exact merged.distinct
    · rename_i absent
      rw [nodup_append]
      refine ⟨merged.distinct, nodup_singleton _, fun a there b last => ?_⟩
      rintro rfl
      exact absent (mem_singleton.mp last ▸ there)
  · intro sku
    rw [named_append, ← merged.named, named_iff_mem, named_iff_mem, named_iff_mem, map_addWanted]
    split
    · rename_i there
      simp only [map_cons, map_nil, mem_singleton, iff_self_or]
      rintro rfl
      exact there
    · simp only [mem_append, map_cons, map_nil]
  · intro line mem
    rw [sum]
    rcases mem_addWanted merged.distinct mem with ⟨other, there⟩ | ⟨rfl, absent⟩ |
      ⟨old, there, same, rfl⟩
    · rw [if_neg (Ne.symm other), add_zero]
      exact merged.sums line there
    · have new : ¬ Named done line.sku := by
        rw [← merged.named, named_iff_mem]
        exact absent
      rw [quantityOf_eq_zero new, if_pos rfl, zero_add]
    · have held := merged.sums old there
      rw [same] at held
      rw [sum, if_pos rfl] at fits
      change addInt old.quantity item.quantity = quantityOf old.sku done + _
      rw [same, if_pos rfl, held]
      exact Int.bmod_eq_of_le (by norm_num; omega) (by norm_num at fits ⊢; omega)

theorem Merged.collect {items done collected lines : List ReservationLine}
    (merged : Merged done collected) (positive : ∀ line ∈ done ++ items, 0 < line.quantity)
    (fits : ∀ sku, quantityOf sku (done ++ items) < 2 ^ 63)
    (collects : Inventory.collect items collected = .ok lines) : Merged (done ++ items) lines := by
  induction items generalizing done collected with
  | nil =>
    cases collects
    rw [append_nil]
    exact merged
  | cons item items ih =>
    rw [Inventory.collect] at collects
    split at collects
    · cases collects
    have split' : done ++ item :: items = done ++ [item] ++ items := by simp
    rw [split'] at positive fits ⊢
    have rest : 0 ≤ quantityOf item.sku items :=
      quantityOf_nonneg fun line mem => positive line (mem_append_right _ mem)
    refine ih (merged.add (fun line mem => positive line (mem_append_left _ mem)) ?_)
      positive fits collects
    have all := fits item.sku
    rw [quantityOf_append] at all
    omega

theorem merged_wanted {items : List ReservationLine} (positive : ∀ line ∈ items, 0 < line.quantity)
    (fits : ∀ sku, quantityOf sku items < 2 ^ 63) :
    ∃ lines, wanted items = .ok lines ∧ Merged items lines := by
  have collects : ∀ {items collected : List ReservationLine},
      (∀ line ∈ items, 0 < line.quantity) → ∃ lines, collect items collected = .ok lines := by
    intro items
    induction items with
    | nil => exact fun _ => ⟨_, rfl⟩
    | cons item items ih =>
      intro collected positive
      rw [collect, if_neg (not_le.mpr (positive item mem_cons_self))]
      exact ih fun line mem => positive line (mem_cons_of_mem _ mem)
  obtain ⟨unsorted, collected⟩ := collects positive
  have merged := Merged.nil.collect (by simpa using positive) (by simpa using fits) collected
  have perm := perm_insertionSort (fun a b : ReservationLine => a.sku ≤ b.sku) unsorted
  refine ⟨_, by rw [wanted, collected]; rfl, ?_⟩
  exact {
    distinct := (perm.map _).nodup_iff.mpr merged.distinct
    named := fun sku => by
      rw [named_iff_mem, (perm.map _).mem_iff, ← named_iff_mem]
      exact merged.named sku
    sums := fun line mem => merged.sums line (perm.mem_iff.mp mem) }

def Database.takes (db : Database) (line : ReservationLine) : Bool :=
  (db.stock line.sku).any (LevelUpdate.take.applies line.quantity)

theorem Database.takes_iff {db : Database} {line : ReservationLine} :
    db.takes line = true ↔ db.Promises line.sku line.quantity := by
  unfold Database.takes Database.Promises
  cases found : db.stock line.sku with
  | none => simp
  | some row => simp [LevelUpdate.applies]

def Database.taken (db : Database) (reservationID orderID : ID) (line : ReservationLine)
    (row : StockLevel) : Database :=
  { db with
    stock := Function.update db.stock line.sku (some (LevelUpdate.take.change line.quantity row))
    items := db.items ++ [⟨reservationID, line⟩]
    ledger := db.ledger ++
      [{ sku := line.sku, reservationID := some reservationID, orderID := some orderID,
         movement := .reservation, quantity := line.quantity, onHandAfter := row.onHand,
         reservedAfter := row.reserved + line.quantity }] }

/-- Lines that can be gone through: the reservation is there and has none of them, each SKU
occurs once with a positive quantity, and the stock rows meet their checks. -/
structure Ready (db : Database) (reservationID : ID) (lines : List ReservationLine) : Prop where
  there : (db.reservation reservationID).isSome
  free : ∀ line ∈ lines, ∀ item ∈ db.items, item.reservationID = reservationID →
    item.line.sku ≠ line.sku
  admissible : ∀ sku row, db.stock sku = some row → row.admissible = true
  positive : ∀ line ∈ lines, 0 < line.quantity
  distinct : (lines.map ReservationLine.sku).Nodup

theorem run_insertReservationItem_admitted {db : Database} {item : ReservationItem}
    (admits : db.admits item = true) :
    (insertReservationItem item).run db = (.ok (), Write.put (.item item) db) := by
  change run (orReject (db.admits item))
    (dialect.replay (if db.admits item then [.item item] else []) db) = _
  rw [admits, if_pos rfl]
  rfl

section Line

variable {db : Database} {reservationID : ID} {line : ReservationLine}
  {lines : List ReservationLine}

theorem Ready.tail (ready : Ready db reservationID (line :: lines)) :
    Ready db reservationID lines where
  there := ready.there
  free other mem := ready.free other (mem_cons_of_mem _ mem)
  admissible := ready.admissible
  positive other mem := ready.positive other (mem_cons_of_mem _ mem)
  distinct := by
    have distinct := ready.distinct
    rw [map_cons, nodup_cons] at distinct
    exact distinct.2

theorem Ready.admits (ready : Ready db reservationID (line :: lines))
    (fits : fitsInt line.quantity = true) : db.admits ⟨reservationID, line⟩ = true := by
  have free : (db.items.any fun other =>
      other.reservationID == reservationID && other.line.sku == line.sku) = false := by
    rw [any_eq_false]
    intro item mem taken
    simp only [Bool.and_eq_true, beq_iff_eq] at taken
    exact ready.free line mem_cons_self item mem taken.1 taken.2
  simp [Database.admits, ready.there, ready.positive line mem_cons_self, fits, free]

variable {row : StockLevel}

theorem change_admissible (admissible : row.admissible = true) (positive : 0 < line.quantity)
    (applies : LevelUpdate.take.applies line.quantity row = true) :
    (LevelUpdate.take.change line.quantity row).admissible = true := by
  rw [StockLevel.admissible_iff] at admissible ⊢
  simp only [LevelUpdate.applies, Bool.and_eq_true, decide_eq_true_eq] at applies
  simp only [LevelUpdate.change]
  omega

theorem run_takeLine (ready : Ready db reservationID (line :: lines)) (orderID : ID)
    (fits : fitsInt line.quantity = true) (found : db.stock line.sku = some row)
    (applies : LevelUpdate.take.applies line.quantity row = true) :
    (takeLine reservationID orderID line).run db =
      (.ok none, db.taken reservationID orderID line row) := by
  have changed := change_admissible (ready.admissible _ row found)
    (ready.positive line mem_cons_self) applies
  have updating : db.updating .take line.sku line.quantity =
      .level (LevelUpdate.take.change line.quantity row) := by
    simp [Database.updating, fits, found, applies, changed]
  have admits : (Write.put (.stock line.sku (LevelUpdate.take.change line.quantity row)) db).admits
      ⟨reservationID, line⟩ = true := ready.admits fits
  have inserts := run_insertReservationItem_admitted admits
  simp only [Write.put] at inserts
  simp only [takeLine, run_bind, run_updateLevel, updating, inserts]
  rfl

theorem run_takeLine_short (fits : fitsInt line.quantity = true) (short : db.takes line = false)
    (reservationID orderID : ID) :
    (takeLine reservationID orderID line).run db =
      (.ok (some ⟨line.sku, line.quantity, (db.available line.sku).getD 0⟩), db) := by
  have updating : db.updating .take line.sku line.quantity = .noRow := by
    unfold Database.takes at short
    cases found : db.stock line.sku with
    | none => simp [Database.updating, fits, found]
    | some row =>
      rw [found, Option.any_some] at short
      simp [Database.updating, fits, found, short]
  simp only [takeLine, run_bind, run_updateLevel, updating]
  rfl

theorem run_takeLine_refused (large : fitsInt line.quantity = false) (reservationID orderID : ID) :
    (takeLine reservationID orderID line).run db = (.error .rejected, db) := by
  have updating : db.updating .take line.sku line.quantity = .rejected := by
    simp [Database.updating, large]
  simp only [takeLine, run_bind, run_updateLevel, updating]
  rfl

/-- What going through the lines leaves. -/
structure Took (db after : Database) (reservationID : ID) (lines : List ReservationLine)
    (unavailable : List UnavailableSKU) : Prop where
  held : ∀ line ∈ lines, db.takes line = true → ∃ row, db.stock line.sku = some row ∧
    after.stock line.sku = some (LevelUpdate.take.change line.quantity row)
  others : ∀ sku, ¬ Named lines sku → after.stock sku = db.stock sku
  items : after.items = db.items ++
    (lines.filter fun line => db.takes line).map fun line => ⟨reservationID, line⟩
  short : unavailable.map UnavailableSKU.sku =
    (lines.filter fun line => !db.takes line).map ReservationLine.sku

theorem takes_taken {orderID : ID} (distinct : ((line :: lines).map ReservationLine.sku).Nodup)
    {other : ReservationLine} (mem : other ∈ lines) :
    (db.taken reservationID orderID line row).takes other = db.takes other := by
  rw [map_cons, nodup_cons] at distinct
  have different : other.sku ≠ line.sku := fun same =>
    distinct.1 (same ▸ mem_map_of_mem mem)
  simp only [Database.takes, Database.taken, Function.update_of_ne different]

theorem Ready.taken (ready : Ready db reservationID (line :: lines)) (orderID : ID)
    (found : db.stock line.sku = some row)
    (applies : LevelUpdate.take.applies line.quantity row = true) :
    Ready (db.taken reservationID orderID line row) reservationID lines where
  there := ready.there
  free other mem item held own same := by
    rcases mem_append.mp held with old | new
    · exact ready.free other (mem_cons_of_mem _ mem) item old own same
    · obtain rfl := mem_singleton.mp new
      have distinct := ready.distinct
      rw [map_cons, nodup_cons] at distinct
      exact distinct.1 (same ▸ mem_map_of_mem mem)
  admissible sku other held := by
    change Function.update db.stock line.sku _ sku = some other at held
    by_cases same : sku = line.sku
    · subst same
      rw [Function.update_self] at held
      obtain rfl := Option.some.inj held
      exact change_admissible (ready.admissible _ row found) (ready.positive line mem_cons_self)
        applies
    · rw [Function.update_of_ne same] at held
      exact ready.admissible sku other held
  positive := ready.tail.positive
  distinct := ready.tail.distinct

/-- Going through the lines takes those that can be taken and reports the others. -/
theorem run_takeLines (ready : Ready db reservationID lines) (orderID : ID)
    (fits : ∀ line ∈ lines, fitsInt line.quantity = true) :
    ∃ unavailable after, (takeLines reservationID orderID lines).run db = (.ok unavailable, after) ∧
      Took db after reservationID lines unavailable := by
  induction lines generalizing db with
  | nil =>
    exact ⟨[], db, rfl, ⟨fun _ mem => absurd mem not_mem_nil, fun _ _ => rfl, by simp, rfl⟩⟩
  | cons line lines ih =>
    have here := fits line mem_cons_self
    have rest := fun other mem => fits other (mem_cons_of_mem _ mem)
    have distinct := ready.distinct
    rw [map_cons, nodup_cons] at distinct
    cases takes : db.takes line with
    | false =>
      obtain ⟨unavailable, after, ran, took⟩ := ih ready.tail rest
      refine ⟨⟨line.sku, line.quantity, (db.available line.sku).getD 0⟩ :: unavailable, after,
        ?_, ?_⟩
      · simp only [takeLines, run_bind, run_takeLine_short here takes, ran]
        rfl
      · constructor
        · intro other mem otherTakes
          rcases mem_cons.mp mem with rfl | mem
          · rw [takes] at otherTakes
            cases otherTakes
          · exact took.held other mem otherTakes
        · intro sku absent
          exact took.others sku fun named =>
            absent (named.imp fun _ => .imp_left (mem_cons_of_mem _))
        · rw [took.items, filter_cons_of_neg (by simp [takes])]
        · rw [filter_cons_of_pos (by simp [takes]), map_cons, map_cons, took.short]
    | true =>
      obtain ⟨row, found, applies⟩ : ∃ row, db.stock line.sku = some row ∧
          LevelUpdate.take.applies line.quantity row = true := (Option.any_eq_true _ _).mp takes
      obtain ⟨unavailable, after, ran, took⟩ := ih (ready.taken orderID found applies) rest
      have same : ∀ other ∈ lines,
          (db.taken reservationID orderID line row).takes other = db.takes other :=
        fun other mem => takes_taken ready.distinct mem
      refine ⟨unavailable, after, ?_, ?_⟩
      · simp only [takeLines, run_bind, run_takeLine ready orderID here found applies, ran]
        rfl
      · constructor
        · intro other mem otherTakes
          rcases mem_cons.mp mem with rfl | mem
          · refine ⟨row, found, ?_⟩
            rw [took.others _ fun named => distinct.1 (named_iff_mem.mp named)]
            exact Function.update_self ..
          · obtain ⟨row', found', held⟩ := took.held other mem ((same other mem).trans otherTakes)
            have different : other.sku ≠ line.sku := fun equal =>
              distinct.1 (equal ▸ mem_map_of_mem mem)
            refine ⟨row', ?_, held⟩
            rw [← found']
            exact (Function.update_of_ne different ..).symm
        · intro sku absent
          rw [took.others sku fun named =>
            absent (named.imp fun _ => .imp_left (mem_cons_of_mem _))]
          exact Function.update_of_ne (fun equal =>
            absent ⟨line, mem_cons_self, equal.symm⟩) ..
        · rw [took.items, filter_cons_of_pos takes, filter_congr same, map_cons]
          exact append_assoc ..
        · rw [took.short, filter_cons_of_neg (by simp [takes])]
          exact congrArg _ (filter_congr fun other mem => by rw [same other mem])

theorem run_takeLines_refused (ready : Ready db reservationID lines) (orderID : ID)
    (large : ∃ line ∈ lines, fitsInt line.quantity = false) :
    ((takeLines reservationID orderID lines).run db).1 = .error .rejected := by
  induction lines generalizing db with
  | nil => simp at large
  | cons line lines ih =>
    cases fits : fitsInt line.quantity with
    | false => simp only [takeLines, run_bind, run_takeLine_refused fits]
    | true =>
      have later : ∃ other ∈ lines, fitsInt other.quantity = false := by
        obtain ⟨other, mem, big⟩ := large
        rcases mem_cons.mp mem with rfl | mem
        · rw [fits] at big
          cases big
        · exact ⟨other, mem, big⟩
      cases takes : db.takes line with
      | false =>
        have rest := ih ready.tail later
        simp only [takeLines, run_bind, run_takeLine_short fits takes]
        generalize (takeLines reservationID orderID lines).run db = ran at rest ⊢
        obtain ⟨answer, after⟩ := ran
        cases rest
        rfl
      | true =>
        obtain ⟨row, found, applies⟩ : ∃ row, db.stock line.sku = some row ∧
            LevelUpdate.take.applies line.quantity row = true := (Option.any_eq_true _ _).mp takes
        have rest := ih (ready.taken orderID found applies) later
        simp only [takeLines, run_bind, run_takeLine ready orderID fits found applies]
        generalize (takeLines reservationID orderID lines).run
          (db.taken reservationID orderID line row) = ran at rest ⊢
        obtain ⟨answer, after⟩ := ran
        cases rest
        rfl

end Line

theorem quantityOf_pos {items : List ReservationLine} (positive : ∀ item ∈ items, 0 < item.quantity)
    (named : Named items sku) :
    0 < quantityOf sku items := by
  obtain ⟨item, mem, rfl⟩ := named
  induction items with
  | nil => cases mem
  | cons first items ih =>
    have rest : 0 ≤ quantityOf item.sku items :=
      quantityOf_nonneg fun other there => positive other (mem_cons_of_mem _ there)
    have here := positive first mem_cons_self
    rw [quantityOf_cons]
    rcases mem_cons.mp mem with rfl | mem
    · rw [if_pos rfl]
      omega
    · have later := ih (fun other there => positive other (mem_cons_of_mem _ there)) mem
      split <;> omega

theorem filter_sku {lines : List ReservationLine}
    (distinct : (lines.map ReservationLine.sku).Nodup) {line : ReservationLine}
    (mem : line ∈ lines) : lines.filter (fun other => other.sku = line.sku) = [line] := by
  induction lines with
  | nil => cases mem
  | cons first lines ih =>
    rw [map_cons, nodup_cons] at distinct
    rcases mem_cons.mp mem with rfl | mem
    · rw [filter_cons_of_pos (by simp), filter_eq_nil_iff.mpr]
      intro other there same
      exact distinct.1 ((decide_eq_true_eq.mp same) ▸ mem_map_of_mem there)
    · have different : first.sku ≠ line.sku := fun same =>
        distinct.1 (same ▸ mem_map_of_mem mem)
      rw [filter_cons_of_neg (by simpa using different), ih distinct.2 mem]

section Call

variable {db : Database} {reservationID orderID : ID} {items lines : List ReservationLine}

theorem run_insertReservation_fresh {row : Reservation} (fresh : db.reservation row.id = none)
    (freshOrder : db.reservationOf row.orderID = none) (admissible : row.admissible = true) :
    (insertReservation row).run db = (.ok (), db.putReservation row) := by
  have inserting : db.inserting row = .inserted := by
    simp [Database.inserting, fresh, freshOrder, admissible]
  rw [run_insertReservation, inserting]

theorem Schema.ready (schema : Schema db) {row : Reservation} (fresh : db.reservation row.id = none)
    (merged : Merged items lines) (positive : ∀ item ∈ items, 0 < item.quantity) :
    Ready (db.putReservation row) row.id lines where
  there := by
    change (Table.find _ (Table.upsert _ _ _) _).isSome = true
    rw [Table.find_upsert, if_pos rfl]
    rfl
  free line _ item held own := by
    have known := schema.known item held
    rw [own, fresh] at known
    cases known
  admissible := schema.admissible
  positive line mem := by
    rw [merged.sums line mem]
    exact quantityOf_pos positive ((merged.named line.sku).mp ⟨line, mem, rfl⟩)
  distinct := merged.distinct

theorem Merged.promises_iff (merged : Merged items lines) :
    (∀ sku, Named items sku → db.Promises sku (quantityOf sku items)) ↔
      ∀ line ∈ lines, db.takes line = true := by
  constructor
  · intro promises line mem
    rw [Database.takes_iff, merged.sums line mem]
    exact promises line.sku ((merged.named line.sku).mp ⟨line, mem, rfl⟩)
  · intro takes sku named
    obtain ⟨line, mem, rfl⟩ := (merged.named sku).mpr named
    rw [← merged.sums line mem]
    exact Database.takes_iff.mp (takes line mem)

theorem Schema.takes_fits (schema : Schema db) {line : ReservationLine}
    (positive : 0 < line.quantity) (takes : db.takes line = true) :
    fitsInt line.quantity = true := by
  obtain ⟨row, found, -, enough⟩ := Database.takes_iff.mp takes
  have admissible := StockLevel.admissible_iff.mp (schema.admissible _ row found)
  simp only [fitsInt, Bool.and_eq_true, decide_eq_true_eq]
  omega

theorem Took.holds (schema : Schema db) (fresh : db.reservation reservationID = none)
    (merged : Merged items lines) {after : Database} {unavailable : List UnavailableSKU}
    (took : Took db after reservationID lines unavailable)
    (takes : ∀ line ∈ lines, db.takes line = true) : Holds db after reservationID items := by
  have all : (lines.filter fun line => db.takes line) = lines :=
    filter_eq_self.mpr takes
  have own : after.itemsOf reservationID = lines.map fun line => ⟨reservationID, line⟩ := by
    have old : (db.items.filter fun item => item.reservationID == reservationID) = [] := by
      refine filter_eq_nil_iff.mpr fun item mem same => ?_
      have known := schema.known item mem
      rw [beq_iff_eq.mp same, fresh] at known
      cases known
    rw [Database.itemsOf, took.items, all, filter_append, old, nil_append, filter_eq_self.mpr]
    intro item mem
    obtain ⟨line, -, rfl⟩ := mem_map.mp mem
    exact beq_self_eq_true _
  constructor
  · intro sku named
    obtain ⟨line, mem, rfl⟩ := (merged.named sku).mpr named
    obtain ⟨row, found, held⟩ := took.held line mem (takes line mem)
    refine ⟨row, found, ?_⟩
    rw [held, ← merged.sums line mem]
    rfl
  · intro sku absent
    exact took.others sku fun named => absent ((merged.named sku).mp named)
  · intro sku named
    obtain ⟨line, mem, rfl⟩ := (merged.named sku).mpr named
    rw [own, filter_map, ← merged.sums line mem]
    change (lines.filter fun other => other.sku = line.sku).map _ = _
    rw [filter_sku merged.distinct mem]
    rfl
  · intro item mem
    rw [own] at mem
    obtain ⟨line, there, rfl⟩ := mem_map.mp mem
    exact (merged.named line.sku).mp ⟨line, there, rfl⟩

theorem Took.unavailable_iff (merged : Merged items lines) {after : Database}
    {unavailable : List UnavailableSKU} (took : Took db after reservationID lines unavailable)
    (sku : ID) : (∃ short ∈ unavailable, short.sku = sku) ↔
      Named items sku ∧ ¬ db.Promises sku (quantityOf sku items) := by
  have listed : (∃ short ∈ unavailable, short.sku = sku) ↔
      sku ∈ unavailable.map UnavailableSKU.sku := by simp
  rw [listed, took.short, mem_map]
  constructor
  · rintro ⟨line, mem, rfl⟩
    obtain ⟨there, short⟩ := mem_filter.mp mem
    refine ⟨(merged.named line.sku).mp ⟨line, there, rfl⟩, ?_⟩
    rw [← merged.sums line there, ← Database.takes_iff]
    simpa using short
  · rintro ⟨named, short⟩
    obtain ⟨line, mem, rfl⟩ := (merged.named sku).mpr named
    rw [← merged.sums line mem, ← Database.takes_iff] at short
    exact ⟨line, mem_filter.mpr ⟨mem, by simpa using short⟩, rfl⟩

theorem run_publishFailure_fresh (fresh : db.reservation reservationID = none)
    (freshOrder : db.reservationOf orderID = none) (mint : Mint)
    (unavailable : List UnavailableSKU) :
    ∃ after, (publishFailure mint reservationID orderID unavailable).run db = (.ok (), after) ∧
      SameStock db after := by
  let row : Reservation :=
    { id := reservationID, orderID := orderID, state := .failed,
      reasonCode := some "INSUFFICIENT_STOCK" }
  have inserts : (insertReservation row).run db = (.ok (), db.putReservation row) :=
    run_insertReservation_fresh fresh freshOrder rfl
  simp only [publishFailure, run_bind, run_insertReservationIfAbsent, fresh,
    Option.isSome_none, Bool.false_eq_true, if_false, inserts, row, run_enqueue]
  exact ⟨_, rfl, rfl, rfl, rfl⟩

theorem run_reserve_fresh (fresh : db.reservation reservationID = none)
    (freshOrder : db.reservationOf orderID = none) (nonempty : items ≠ [])
    (wants : wanted items = .ok lines) (mint : Mint) (now : Time) (ttl : Nat) :
    (reserve mint now reservationID orderID items ttl).run db =
      (hold mint now reservationID orderID lines ttl).run db := by
  have some' : items.isEmpty = false := by simpa using nonempty
  simp only [reserve, some', Bool.false_eq_true, if_false, wants, run_bind,
    run_loadReservationForUpdate, fresh, run_reservationForOrder, freshOrder, Option.map_none]

/-- The row `Reserve` inserts. -/
def opened (reservationID orderID : ID) (expiresAt : Time) : Reservation :=
  { id := reservationID, orderID := orderID, state := .reserved, expiresAt := some expiresAt }

theorem run_hold (fresh : db.reservation reservationID = none)
    (freshOrder : db.reservationOf orderID = none) (mint : Mint) (now : Time) (ttl : Nat) :
    (hold mint now reservationID orderID lines ttl).run db =
      match (takeLines reservationID orderID lines).run
        (db.putReservation (opened reservationID orderID (now + ttl))) with
      | (.ok [], between) =>
        (.ok { outcome := .reserved, state := .reserved, expiresAt := some (now + ttl) },
          Write.put (.outbox ⟨mint.eventID, .reserved orderID reservationID lines (now + ttl)⟩)
            between)
      | (.ok (short :: others), between) => (.error (.insufficient (short :: others)), between)
      | (.error err, between) => (.error err, between) := by
  have inserts : (insertReservation (opened reservationID orderID (now + ttl))).run db =
      (.ok (), db.putReservation (opened reservationID orderID (now + ttl))) :=
    run_insertReservation_fresh fresh freshOrder rfl
  rw [opened] at inserts
  simp only [hold, run_bind, inserts, opened]
  split
  · rename_i unavailable between ran
    rw [ran]
    cases unavailable <;> rfl
  · rename_i err between ran
    rw [ran]

/-- **Reserving is all or nothing, and exact.** For an order and a reservation that are new,
and items whose sum for each SKU is a 64-bit integer, `Reserve` holds the sums wanted, and
does so exactly when every SKU has that much to promise; when it answers that it failed,
nothing has moved and the SKUs it names are the ones that fall short. -/
theorem reserve_all_or_nothing (schema : Schema db) (fresh : db.reservation reservationID = none)
    (freshOrder : db.reservationOf orderID = none) (nonempty : items ≠ [])
    (positive : ∀ item ∈ items, 0 < item.quantity)
    (fits : ∀ sku, quantityOf sku items < 2 ^ 63) (mint : Mint) (now : Time) (ttl : Nat) :
    AllOrNothing db (reserveCall mint now reservationID orderID items ttl db).2 reservationID items
      (reserveCall mint now reservationID orderID items ttl db).1 := by
  obtain ⟨lines, wants, merged⟩ := merged_wanted positive fits
  have run := run_reserve_fresh fresh freshOrder nonempty wants mint now ttl
  rw [run_hold fresh freshOrder] at run
  have absent : db.reservation (opened reservationID orderID (now + ttl)).id = none := fresh
  have ready : Ready (db.putReservation (opened reservationID orderID (now + ttl))) reservationID
      lines := schema.ready absent merged positive
  by_cases small : ∀ line ∈ lines, fitsInt line.quantity = true
  · obtain ⟨unavailable, between, ran, took⟩ := run_takeLines ready orderID small
    have took : Took db between reservationID lines unavailable :=
      ⟨took.held, took.others, took.items, took.short⟩
    rw [ran] at run
    cases unavailable with
    | nil =>
      have takes : ∀ line ∈ lines, db.takes line = true := by
        have none' := took.short.symm
        rw [map_nil, map_eq_nil_iff, filter_eq_nil_iff] at none'
        intro line mem
        simpa using none' line mem
      have holds := took.holds schema fresh merged takes
      simp only [reserveCall, run]
      exact {
        holds := fun _ _ => ⟨holds.named, holds.others, holds.lines, holds.noOthers⟩
        reserved_iff := ⟨fun _ => merged.promises_iff.mpr takes, fun _ => ⟨_, rfl⟩⟩
        nothing := fun _ failed => nomatch failed }
    | cons short others =>
      obtain ⟨after, publishes, same⟩ := run_publishFailure_fresh fresh freshOrder mint
        (short :: others)
      simp only [reserveCall, run, publishes]
      exact {
        holds := fun _ reserved => nomatch reserved
        reserved_iff := by
          refine ⟨fun ⟨_, reserved⟩ => (nomatch reserved), fun promises => ?_⟩
          obtain ⟨named, falls⟩ := (took.unavailable_iff merged short.sku).mp
            ⟨short, mem_cons_self, rfl⟩
          exact (falls (promises short.sku named)).elim
        nothing := fun unavailable failed => by
          cases failed
          exact ⟨same, took.unavailable_iff merged⟩ }
  · have refused := run_takeLines_refused ready orderID (by simpa using small)
    generalize (takeLines reservationID orderID lines).run _ = ran at run refused
    obtain ⟨answer, between⟩ := ran
    obtain rfl : answer = .error .rejected := refused
    simp only [reserveCall, run]
    exact {
      holds := fun _ reserved => nomatch reserved
      reserved_iff := by
        refine ⟨fun ⟨_, reserved⟩ => (nomatch reserved), fun promises => (small ?_).elim⟩
        intro line mem
        exact schema.takes_fits (ready.positive line mem) (merged.promises_iff.mp promises line mem)
      nothing := fun _ failed => nomatch failed }

end Call

def fiveLeft : Database where
  stock := fun sku => if sku = 1 then some { onHand := 5, reserved := 0 } else none

theorem fiveLeft_schema : Schema fiveLeft where
  valid := nodup_nil
  known := fun _ mem => absurd mem not_mem_nil
  positive := fun _ mem => absurd mem not_mem_nil
  admissible := by
    intro sku row found
    change (if sku = 1 then some _ else none) = some row at found
    split at found <;> cases found
    rfl

/-- Two and one of the five pieces, in two items. -/
def threePieces : List ReservationLine := [⟨1, 2⟩, ⟨1, 1⟩]

theorem three_all_or_nothing :
    AllOrNothing fiveLeft (reserveCall ⟨70, id⟩ 10 13 23 threePieces 5 fiveLeft).2 13 threePieces
      (reserveCall ⟨70, id⟩ 10 13 23 threePieces 5 fiveLeft).1 := by
  refine reserve_all_or_nothing fiveLeft_schema rfl rfl (by decide) (by decide)
    (fun sku => ?_) _ _ _
  rw [threePieces, quantityOf_cons, quantityOf_singleton]
  split <;> decide

/-- Items of one SKU whose sum is `2 ^ 64 + 1`. -/
def wrapping : List ReservationLine := [⟨1, 2 ^ 63 - 1⟩, ⟨1, 2 ^ 63 - 1⟩, ⟨1, 3⟩]

/-- An empty order is refused although nothing falls short, and a sum that wraps around is
reserved as one piece. -/
theorem reserve_inexact :
    ¬ AllOrNothing fiveLeft (reserveCall ⟨70, id⟩ 10 13 23 [] 5 fiveLeft).2 13 []
        (reserveCall ⟨70, id⟩ 10 13 23 [] 5 fiveLeft).1 ∧
      (reserveCall ⟨70, id⟩ 10 13 23 wrapping 5 fiveLeft).1 = .ok (.reserved 15) ∧
      ¬ AllOrNothing fiveLeft (reserveCall ⟨70, id⟩ 10 13 23 wrapping 5 fiveLeft).2 13 wrapping
        (reserveCall ⟨70, id⟩ 10 13 23 wrapping 5 fiveLeft).1 := by
  have answers : (reserveCall ⟨70, id⟩ 10 13 23 wrapping 5 fiveLeft).1 = .ok (.reserved 15) := by
    decide +kernel
  refine ⟨fun exact => ?_, answers, fun exact => ?_⟩
  · obtain ⟨expiresAt, reserved⟩ := exact.reserved_iff.mpr fun sku ⟨_, mem, _⟩ =>
      absurd mem not_mem_nil
    cases reserved
  · have promised := exact.reserved_iff.mp ⟨15, answers⟩ 1 ⟨⟨1, 3⟩, by decide, rfl⟩
    obtain ⟨row, found, -, enough⟩ := promised
    cases found
    exact absurd enough (by decide +kernel)

end Souq.Inventory
