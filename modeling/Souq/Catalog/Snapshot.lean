import Souq.Catalog.Accepted
import Souq.Catalog.Paths
import Souq.Catalog.PriceHistory

/-!
# The catalogue topic as a snapshot

Compaction keeps the last message of every product. After calls and category moves, one at a
time, that message says what is stored, or is the tombstone of an archived product, as long
as the calls keep to the product that they name and leave archived products alone.
-/

namespace Souq.Catalog.Products

open Transact Transition Table List

/-- What the event says of the variant that a product leads with. -/
def lead (variants : List Variant) : Option (String × Money × Option Money) :=
  (leading variants).map fun v => (v.sku, v.price, v.listPrice)

namespace Database

def lastEvent (db : Database) (key : String) : Option EventData :=
  (db.outbox.filter fun row => row.partitionKey = key).getLast?.map fun row => row.data

def expected (db : Database) (row : ProductRow) : EventData :=
  if row.status = .archived then .tombstone else .productUpserted (db.assemble row).snapshot

/-- The last event of every product says what the tables say. -/
def Complete (db : Database) : Prop :=
  ∀ row ∈ db.products, db.lastEvent row.id = some (db.expected row)

instance (db : Database) : Decidable db.Complete :=
  inferInstanceAs (Decidable (∀ row ∈ db.products, _ = _))

def leadOf (db : Database) (productId : String) : Option (String × Money × Option Money) :=
  lead ((db.variantsOf productId).map VariantRow.variant)

end Database

/-- A call by its arguments. -/
inductive Request where
  | create (request : NewProduct) (id : String)
  | update (id : String) (expectedVersion : Nat) (edit : Edit)
  | changePrice (productId sku : String) (prices : Prices) (changedBy reason : Option String)
  | upsertVariant (productId sku : String) (request : NewVariant)
  | archive (id : String)

def Request.transaction (platform : Platform) (change : ID) : Request → Call Unit
  | .create request id => (Products.create platform request id change).void
  | .update id expectedVersion edit => (Products.update platform id expectedVersion edit).void
  | .changePrice productId sku prices changedBy reason =>
    (Products.changePrice productId sku prices changedBy reason change).void
  | .upsertVariant productId sku request =>
    (Products.upsertVariant productId sku request change).void
  | .archive id => Products.archive id

instance (request : NewProduct) (db : Database) (id : String) : Decidable (request.Fresh db id) :=
  decidable_of_iff (db.product id = none ∧ (∀ v ∈ request.variants, db.variant v.1 = none) ∧
      (request.variants.map fun v => v.1).Nodup)
    ⟨fun ⟨id, skus, distinct⟩ => ⟨id, skus, distinct⟩,
      fun ⟨id, skus, distinct⟩ => ⟨id, skus, distinct⟩⟩

/-- The ids drawn for a new product were never used. -/
def Request.Fresh (db : Database) : Request → Prop
  | .create request id => request.Fresh db id
  | _ => True

instance (db : Database) : (request : Request) → Decidable (request.Fresh db)
  | .create request id => inferInstanceAs (Decidable (request.Fresh db id))
  | .update .. | .changePrice .. | .upsertVariant .. | .archive _ => .isTrue trivial

/-- A call, or a move of a category. -/
inductive Event where
  | call (request : Request) (change : ID)
  /-- A category is moved. -/
  | move (id : String) (newParentId : Option String)

/-- One event after another. -/
def Database.step (platform : Platform) (db : Database) : Event → Database
  | .call request change =>
    if request.Fresh db then (request.transaction platform change).inTx db else db
  | .move id newParentId =>
    { db with
      categories := ((Catalog.move platform.strings id newParentId).run db.tree).2.categories }

/-- Categories without products. -/
def Database.opening (categories : List CategoryRow) (collate : String → String → Bool) :
    Database :=
  { categories := categories, collate := collate }

namespace Database

def Archived (db : Database) (id : String) : Prop :=
  ∃ row, db.product id = some row ∧ row.status = .archived

instance (db : Database) (id : String) : Decidable (db.Archived id) :=
  inferInstanceAs (Decidable (∃ row ∈ db.product id, row.status = .archived))

/-- A version of a variant changes what a product other than the named one leads with. -/
def Misleads (db : Database) (productId : String) (row : VariantRow) : Prop :=
  ∃ other ∈ db.products, other.id ≠ productId ∧ other.status ≠ .archived ∧
    leadOf { db with variants := Table.upsert VariantRow.sku row db.variants } other.id ≠
      db.leadOf other.id

instance (db : Database) (productId : String) (row : VariantRow) :
    Decidable (db.Misleads productId row) :=
  inferInstanceAs (Decidable (∃ other ∈ db.products, _ ∧ _))

def categoryOf (db : Database) (categoryId : Option String) : Option CategoryRow :=
  categoryId.bind fun id => db.categories.find? fun c => c.id = id

/-- The path of a category after a move of `current`. -/
def rerouted (db : Database) (current : CategoryRow) (newParentId : Option String)
    (c : CategoryRow) : List String :=
  if current.slug ∈ c.path then
    db.tree.pathUnder newParentId current.slug ++ c.path.drop current.path.length
  else c.path

def Reroutes (db : Database) (id : String) (newParentId : Option String) : Prop :=
  ∃ current, (db.categories.find? fun c => c.id = id) = some current ∧
    ∃ row ∈ db.products, row.status ≠ .archived ∧ ∃ c, db.categoryOf row.categoryId = some c ∧
      db.rerouted current newParentId c ≠ c.path

instance (db : Database) (id : String) (newParentId : Option String) :
    Decidable (db.Reroutes id newParentId) :=
  inferInstanceAs (Decidable (∃ current ∈ db.categories.find? fun c => c.id = id,
    ∃ row ∈ db.products, row.status ≠ .archived ∧ ∃ c ∈ db.categoryOf row.categoryId,
      db.rerouted current newParentId c ≠ c.path))

end Database

/-- What a request changes and leaves unsaid: a product is archived without a tombstone or
edited after it, a variant is not the named product's, or the variants of a new product come
in an order in which another one leads. -/
def Request.Neglects (db : Database) : Request → Prop
  | .create request id => request.status = some .archived ∨
      lead (request.created id) ≠
        lead ((db.arrange ((request.created id).map Variant.row)).map VariantRow.variant)
  | .update id _ edit => ∃ row, db.product id = some row ∧ edit.status.getD row.status = .archived
  | .upsertVariant productId sku request => db.Archived productId ∨
      db.Misleads productId (db.placed (request.variant sku productId))
  | .changePrice .. | .archive _ => False

instance (db : Database) : (request : Request) → Decidable (request.Neglects db)
  | .create request id => inferInstanceAs (Decidable (_ ∨ lead (request.created id) ≠ _))
  | .update id _ edit =>
    inferInstanceAs (Decidable (∃ row ∈ db.product id, edit.status.getD row.status = .archived))
  | .upsertVariant .. => inferInstanceAs (Decidable (_ ∨ _))
  | .changePrice .. | .archive _ => .isFalse id

/-- An accepted call that neglects a product, or an accepted move of one. -/
def Database.Faulty (platform : Platform) (db : Database) : Event → Prop
  | .call request change => request.Fresh db ∧
      ((request.transaction platform change).run db).1 = .ok () ∧ request.Neglects db
  | .move id newParentId =>
    ((Catalog.move platform.strings id newParentId).run db.tree).1 = .ok () ∧
      db.Reroutes id newParentId

instance (platform : Platform) (db : Database) :
    (event : Event) → Decidable (db.Faulty platform event)
  | .call request change => inferInstanceAs (Decidable (request.Fresh db ∧
      ((request.transaction platform change).run db).1 = .ok () ∧ request.Neglects db))
  | .move id newParentId => inferInstanceAs (Decidable
      (((Catalog.move platform.strings id newParentId).run db.tree).1 = .ok () ∧
        db.Reroutes id newParentId))

theorem snapshot_variants (product : Product) (variants : List Variant) :
    { product with variants := variants }.snapshot = product.snapshot ↔
      lead variants = lead product.variants := by
  simp only [Product.snapshot, Product.defaultVariant, lead, Snapshot.mk.injEq, true_and, and_true]
  cases leading variants with
  | none =>
    cases leading product.variants with
    | none => simp
    | some w => simp
  | some v =>
    cases leading product.variants with
    | none => simp
    | some w => simp

theorem snapshot_categoryPath (product : Product) (path : List String) :
    { product with categoryPath := path }.snapshot = product.snapshot ↔
      path = product.categoryPath := by
  simp only [Product.snapshot, Product.defaultVariant, Snapshot.mk.injEq, true_and, and_true]

section Events

variable {db after : Database} {key : String} {events : List EventData}

theorem lastEvent_own (added : after.outbox = db.outbox ++ events.map fun data => ⟨key, data⟩)
    {data : EventData} (last : events.getLast? = some data) : after.lastEvent key = some data := by
  have own : (events.map fun data => (⟨key, data⟩ : OutboxRow)).filter
      (fun row => row.partitionKey = key) = events.map fun data => ⟨key, data⟩ :=
    filter_eq_self.mpr fun row member => by
      obtain ⟨_, _, rfl⟩ := mem_map.mp member
      exact decide_eq_true rfl
  rw [Database.lastEvent, added, filter_append, own, getLast?_append, getLast?_map, last]
  rfl

theorem lastEvent_other (added : after.outbox = db.outbox ++ events.map fun data => ⟨key, data⟩)
    {other : String} (different : other ≠ key) : after.lastEvent other = db.lastEvent other := by
  have none : (events.map fun data => (⟨key, data⟩ : OutboxRow)).filter
      (fun row => row.partitionKey = other) = [] :=
    filter_eq_nil_iff.mpr fun row member => by
      obtain ⟨_, _, rfl⟩ := mem_map.mp member
      exact fun same => different (of_decide_eq_true same).symm
  rw [Database.lastEvent, added, filter_append, none, append_nil]
  rfl

end Events

/-- The keys of the tables. -/
structure Sane (db : Database) : Prop where
  products : (db.products.map ProductRow.id).Nodup
  categories : (db.categories.map CategoryRow.id).Nodup
  homed : ∀ row ∈ db.variants, (db.product row.productId).isSome = true

section Touched

variable {db after : Database} {row : ProductRow} {events : List EventData}

theorem Touches.product (touches : Touches db after row events) (id : String) :
    after.product id = if row.id = id then some row else db.product id := by
  unfold Database.product
  rw [touches.products, find_upsert]

theorem Touches.still (touches : Touches db after row events) {id : String}
    (there : (db.product id).isSome = true) : (after.product id).isSome = true := by
  rw [touches.product]
  split
  · rfl
  · exact there

theorem Touches.pathOf (touches : Touches db after row events) (categoryId : Option String) :
    after.pathOf categoryId = db.pathOf categoryId := by
  unfold Database.pathOf
  rw [touches.categories]

theorem Touches.assemble (touches : Touches db after row events) (other : ProductRow) :
    after.assemble other = { db.assemble other with
      variants := (after.variantsOf other.id).map VariantRow.variant } := by
  unfold Database.assemble
  rw [touches.pathOf]

/-- What should be said of another product changes with the variant it leads with. -/
theorem Touches.expected (touches : Touches db after row events) (other : ProductRow) :
    after.expected other = db.expected other ↔
      (other.status ≠ .archived → after.leadOf other.id = db.leadOf other.id) := by
  unfold Database.expected
  by_cases gone : other.status = .archived
  · rw [if_pos gone, if_pos gone]
    exact iff_of_true rfl fun open' => (open' gone).elim
  · rw [if_neg gone, if_neg gone, EventData.productUpserted.injEq, touches.assemble,
      snapshot_variants]
    exact ⟨fun same _ => same, fun same => same gone⟩

/-- **After a call** the topic is complete when the last event says what is stored, and
nothing else that the topic says has changed. -/
theorem Touches.complete_iff (touches : Touches db after row events) (sane : Sane db)
    (complete : db.Complete) {data : EventData} (last : events.getLast? = some data) :
    after.Complete ↔ data = after.expected row ∧ ∀ other ∈ db.products, other.id ≠ row.id →
      other.status ≠ .archived → after.leadOf other.id = db.leadOf other.id := by
  unfold Database.Complete
  rw [touches.products]
  constructor
  · intro now
    refine ⟨?_, fun other member different => ?_⟩
    · have said := now row ((mem_upsert_iff sane.products).mpr (.inl rfl))
      rw [lastEvent_own touches.outbox last] at said
      exact Option.some.inj said
    · have said := now other ((mem_upsert_iff sane.products).mpr (.inr ⟨member, different⟩))
      rw [lastEvent_other touches.outbox different, complete other member] at said
      exact (touches.expected other).mp (Option.some.inj said).symm
  · rintro ⟨own, others⟩ other member
    rcases (mem_upsert_iff sane.products).mp member with rfl | ⟨member, different⟩
    · rw [lastEvent_own touches.outbox last, own]
    · rw [lastEvent_other touches.outbox different, complete other member,
        (touches.expected other).mpr (others other member different)]

end Touched

section Accepted

variable {db after : Database} {row : ProductRow} {events : List EventData}

theorem Sane.touched (sane : Sane db) (touches : Touches db after row events)
    (homed : ∀ v ∈ after.variants, (after.product v.productId).isSome = true) : Sane after where
  products := by
    rw [touches.products]
    exact nodup_upsert sane.products row
  categories := by
    rw [touches.categories]
    exact sane.categories
  homed := homed

theorem Sane.edited (sane : Sane db) (touches : Touches db after row events)
    (variants : after.variants = db.variants) : Sane after :=
  sane.touched touches fun v member => touches.still (sane.homed v (variants ▸ member))

theorem Sane.stocked (sane : Sane db) (touches : Touches db after row events) {new : VariantRow}
    (variants : after.variants = upsert VariantRow.sku new db.variants)
    (home : (db.product new.productId).isSome = true) : Sane after :=
  sane.touched touches fun v member => by
    rw [variants] at member
    rcases mem_upsert member with rfl | old
    · exact touches.still home
    · exact touches.still (sane.homed v old)

theorem leadOf_congr {db' : Database} (variants : db.variants = db'.variants)
    (collate : db.collate = db'.collate) (productId : String) :
    db.leadOf productId = db'.leadOf productId := by
  unfold Database.leadOf Database.variantsOf Database.arrange
  rw [variants, collate]

theorem upserted_eq_expected (db : Database) (row : ProductRow) :
    .productUpserted (db.assemble row).snapshot = db.expected row ↔ row.status ≠ .archived := by
  unfold Database.expected
  by_cases gone : row.status = .archived
  · rw [if_pos gone]
    exact iff_of_false nofun fun open' => open' gone
  · rw [if_neg gone]
    exact iff_of_true rfl gone

/-- **A call that writes a variant** says what is stored of the product it names. -/
theorem complete_iff_of_stocked (sane : Sane db) (complete : db.Complete) {productId : String}
    (found : db.product productId = some row)
    (touches : Touches db after row events) {new : VariantRow}
    (variants : after.variants = upsert VariantRow.sku new db.variants)
    (last : events.getLast? = some (.productUpserted (after.assemble row).snapshot)) :
    after.Complete ↔ ¬ (db.Archived productId ∨ db.Misleads productId new) := by
  have named : row.id = productId := key_of_find found
  have archived : db.Archived productId ↔ row.status = .archived := by
    constructor
    · rintro ⟨other, stored, gone⟩
      rw [found] at stored
      exact Option.some.inj stored ▸ gone
    · exact fun gone => ⟨row, found, gone⟩
  have leads : ∀ id, after.leadOf id = Database.leadOf
      { db with variants := upsert VariantRow.sku new db.variants } id :=
    leadOf_congr variants touches.collate
  rw [touches.complete_iff sane complete last, upserted_eq_expected, not_or, archived]
  refine and_congr_right fun _ => ⟨?_, ?_⟩
  · rintro others ⟨other, member, different, open', changed⟩
    exact changed ((leads other.id).symm.trans (others other member (named ▸ different) open'))
  · intro fair other member different open'
    by_contra changed
    exact fair ⟨other, member, named ▸ different, open', fun same =>
      changed ((leads other.id).trans same)⟩

/-- **A call that leaves the variants alone.** -/
theorem complete_iff_of_edited (sane : Sane db) (complete : db.Complete)
    (touches : Touches db after row events) (variants : after.variants = db.variants)
    {data : EventData} (last : events.getLast? = some data) :
    after.Complete ↔ data = after.expected row := by
  rw [touches.complete_iff sane complete last]
  exact and_iff_left fun other _ _ _ => leadOf_congr variants touches.collate other.id

variable {request : NewProduct} {id : String}

theorem variantsOf_created (sane : Sane db) (absent : db.product id = none)
    (collate : after.collate = db.collate)
    (variants : after.variants = db.variants ++ (request.created id).map Variant.row) :
    after.variantsOf id = db.arrange ((request.created id).map Variant.row) := by
  have old : db.variants.filter (fun v => v.productId = id) = [] :=
    filter_eq_nil_iff.mpr fun v member same => by
      have home := sane.homed v member
      rw [of_decide_eq_true same, absent] at home
      cases home
  have new : ((request.created id).map Variant.row).filter (fun v => v.productId = id) =
      (request.created id).map Variant.row :=
    filter_eq_self.mpr fun v member => by
      obtain ⟨_, inside, rfl⟩ := mem_map.mp member
      obtain ⟨_, _, rfl⟩ := mem_map.mp inside
      exact decide_eq_true rfl
  unfold Database.variantsOf Database.arrange
  rw [variants, filter_append, old, new, nil_append, collate]

theorem leadOf_created {other : String} (different : other ≠ id)
    (collate : after.collate = db.collate)
    (variants : after.variants = db.variants ++ (request.created id).map Variant.row) :
    after.leadOf other = db.leadOf other := by
  have none : ((request.created id).map Variant.row).filter (fun v => v.productId = other) = [] :=
    filter_eq_nil_iff.mpr fun v member same => by
      obtain ⟨_, inside, rfl⟩ := mem_map.mp member
      obtain ⟨_, _, rfl⟩ := mem_map.mp inside
      exact different (of_decide_eq_true same).symm
  unfold Database.leadOf Database.variantsOf Database.arrange
  rw [variants, filter_append, none, append_nil, collate]

/-- **A created product.** -/
theorem create_step (sane : Sane db) {platform : Platform} {change : ID} {product : Product}
    (fresh : request.Fresh db id)
    (ran : (create platform request id change).run db = (.ok product, after)) :
    Sane after ∧ (db.Complete → (after.Complete ↔ ¬ (Request.create request id).Neglects db)) := by
  obtain ⟨touches, variants, listed, named, version, status, path⟩ :=
    of_create sane.categories fresh ran
  have own : product.row.id = id := named
  refine ⟨sane.touched touches fun v member => ?_, fun complete => ?_⟩
  · rw [variants] at member
    rcases mem_append.mp member with old | new
    · exact touches.still (sane.homed v old)
    · obtain ⟨_, inside, rfl⟩ := mem_map.mp new
      obtain ⟨_, _, rfl⟩ := mem_map.mp inside
      rw [touches.product]
      exact congrArg Option.isSome (if_pos own)
  · have stored : after.assemble product.row = { product with
        variants := (db.arrange ((request.created id).map Variant.row)).map
          VariantRow.variant } := by
      rw [← variantsOf_created sane fresh.id touches.collate variants, ← named]
      unfold Database.assemble
      rw [touches.pathOf, show db.pathOf product.row.categoryId = _ from path.symm]
      cases product
      cases version
      rfl
    have archived : product.row.status = .archived ↔ request.status = some .archived := by
      rw [show product.row.status = request.status.getD .draft from status]
      cases request.status with
      | none => simp
      | some status => simp
    have others : ∀ other ∈ db.products, other.id ≠ product.row.id → other.status ≠ .archived →
        after.leadOf other.id = db.leadOf other.id := fun other _ different _ =>
      leadOf_created (own ▸ different) touches.collate variants
    have last : [EventData.productUpserted product.snapshot].getLast? =
        some (.productUpserted product.snapshot) := rfl
    rw [touches.complete_iff sane complete last, and_iff_left others]
    simp only [Request.Neglects, not_or, ← archived]
    unfold Database.expected
    by_cases gone : product.row.status = .archived
    · rw [if_pos gone]
      exact iff_of_false nofun fun fair => fair.1 gone
    · rw [if_neg gone, EventData.productUpserted.injEq, stored, eq_comm, snapshot_variants, listed,
        not_not, eq_comm]
      exact (and_iff_right gone).symm

/-- **An accepted call** leaves the topic complete exactly when it neglects nothing. -/
theorem accepted_step (sane : Sane db) {platform : Platform} {request : Request} {change : ID}
    (fresh : request.Fresh db)
    (ran : (request.transaction platform change).run db = (.ok (), after)) :
    Sane after ∧ (db.Complete → (after.Complete ↔ ¬ request.Neglects db)) := by
  cases request with
  | create request id =>
    obtain ⟨product, between, first, second⟩ := Program.run_bind_ok.mp ran
    cases second
    exact create_step sane fresh first
  | update id expectedVersion edit =>
    obtain ⟨product, between, first, second⟩ := Program.run_bind_ok.mp ran
    cases second
    obtain ⟨row, category, found, variants, touches⟩ := of_update first
    refine ⟨sane.edited touches variants, fun complete => ?_⟩
    have last := getLast?_singleton (a := EventData.productUpserted
      (Database.assemble after (row.patched (edit.patch category))).snapshot)
    rw [complete_iff_of_edited sane complete touches variants last, upserted_eq_expected]
    refine not_congr ⟨fun gone => ⟨row, found, gone⟩, ?_⟩
    rintro ⟨other, stored, gone⟩
    rw [found] at stored
    cases stored
    exact gone
  | changePrice productId sku prices changedBy reason =>
    obtain ⟨product, between, first, second⟩ := Program.run_bind_ok.mp ran
    exact absurd first changePrice_fails
  | upsertVariant productId sku request =>
    obtain ⟨product, between, first, second⟩ := Program.run_bind_ok.mp ran
    cases second
    obtain ⟨row, found, touches, variants⟩ := of_upsertVariant first
    have home : (db.product (db.placed (request.variant sku productId)).productId).isSome =
        true := by
      rcases placed_productId db (request.variant sku productId) with new | ⟨old, stored, kept⟩
      · rw [new]
        exact Option.isSome_iff_exists.mpr ⟨row, found⟩
      · rw [kept]
        exact sane.homed old (mem_of_find stored)
    refine ⟨sane.stocked touches variants home, fun complete => ?_⟩
    exact complete_iff_of_stocked sane complete found touches variants rfl
  | archive id =>
    obtain ⟨row, found, variants, touches⟩ := of_archive ran
    refine ⟨sane.edited touches variants, fun complete => ?_⟩
    have last : [EventData.productDeleted id, .tombstone].getLast? = some .tombstone := rfl
    rw [complete_iff_of_edited sane complete touches variants last]
    exact iff_of_true (if_pos rfl).symm nofun

end Accepted

section Moves

theorem rehang_cases (strings : StringType) (db : Catalog.Database) (id slug : String)
    (parentId : Option String) (oldDepth : Nat) :
    (∃ e, (rehang strings id slug parentId oldDepth).run db = (.error e, db)) ∨
      (rehang strings id slug parentId oldDepth).run db =
        (.ok (), { db with categories := db.rehung id slug parentId oldDepth }) := by
  cases strings with
  | varchar => exact .inl ⟨_, rfl⟩
  | unspecified =>
    rw [run_rehang]
    cases Catalog.Database.violated (db.rehung id slug parentId oldDepth) with
    | none => exact .inr rfl
    | some constraint => exact .inl ⟨_, rfl⟩

theorem move_cases (strings : StringType) (db : Catalog.Database) (id : String)
    (newParentId : Option String) :
    (∃ e, (Catalog.move strings id newParentId).run db = (.error e, db)) ∨
      ∃ current, (db.categories.find? fun c => c.id = id) = some current ∧
        (Catalog.move strings id newParentId).run db = (.ok (),
          { db with
            categories := db.rehung id current.slug newParentId current.path.length }) := by
  have ran : (Catalog.move strings id newParentId).run db =
    (moveFrom strings id newParentId (db.findById id)).run db := rfl
  rw [ran, Catalog.Database.findById]
  cases found : db.categories.find? fun c => c.id = id with
  | none => exact .inl ⟨_, rfl⟩
  | some current =>
    cases newParentId with
    | none =>
      exact (rehang_cases strings db id current.slug none current.path.length).imp_right
        fun moved =>
        ⟨current, rfl, moved⟩
    | some parentId =>
      have aimed : (moveFrom strings id (some parentId) (some (db.category current))).run db =
        (moveTo strings id (db.category current) parentId (db.findById parentId)).run db := rfl
      rw [Option.map_some, aimed]
      cases db.findById parentId with
      | none => exact .inl ⟨_, rfl⟩
      | some target =>
        by_cases inside : (db.category current).slug ∈ target.path
        · simp only [moveTo, inside, ↓reduceIte]
          exact .inl ⟨_, rfl⟩
        · simp only [moveTo, inside, ↓reduceIte]
          exact (rehang_cases strings db id current.slug (some parentId)
            current.path.length).imp_right
            fun moved => ⟨current, rfl, moved⟩

variable {db : Database} {id : String} {newParentId : Option String} {current : CategoryRow}

def Database.moved (db : Database) (id : String) (newParentId : Option String)
    (current : CategoryRow) : Database :=
  { db with
    categories := db.tree.rehung id current.slug newParentId current.path.length }

theorem categoryOf_moved (categoryId : Option String) :
    ((db.moved id newParentId current).categoryOf categoryId).map (fun c => c.path) =
      (db.categoryOf categoryId).map (db.rerouted current newParentId) := by
  cases categoryId with
  | none => rfl
  | some own =>
    unfold Database.moved Catalog.Database.rehung Database.categoryOf
    rw [Option.bind_some, Option.bind_some, find?_map, Option.map_map]
    have same : ((fun c : CategoryRow => decide (c.id = own)) ∘ fun c : CategoryRow =>
        if current.slug ∈ c.path then
          { c with
            path := db.tree.pathUnder newParentId current.slug ++
              c.path.drop current.path.length
            parentId := if c.id = id then newParentId else c.parentId }
        else c) = fun c => decide (c.id = own) := by
      funext c
      simp only [Function.comp_apply]
      split <;> rfl
    rw [same]
    refine congrArg (fun f => Option.map f _) (funext fun c => ?_)
    simp only [Function.comp_apply, Database.rerouted]
    split <;> rfl

theorem pathOf_moved (categoryId : Option String) :
    (db.moved id newParentId current).pathOf categoryId = db.pathOf categoryId ↔
      ∀ c, db.categoryOf categoryId = some c → db.rerouted current newParentId c = c.path := by
  have after : (db.moved id newParentId current).pathOf categoryId =
      ((db.categoryOf categoryId).map (db.rerouted current newParentId)).getD [] :=
    congrArg (fun path => path.getD []) (categoryOf_moved categoryId)
  have before : db.pathOf categoryId =
    ((db.categoryOf categoryId).map fun c => c.path).getD [] := rfl
  rw [after, before]
  cases db.categoryOf categoryId with
  | none => exact iff_of_true rfl nofun
  | some c => exact ⟨fun same _ found => Option.some.inj found ▸ same, fun same => same c rfl⟩

/-- **An accepted move** leaves the topic complete exactly when no product's path changes. -/
theorem complete_moved_iff (complete : db.Complete)
    (found : (db.categories.find? fun c => c.id = id) = some current) :
    (db.moved id newParentId current).Complete ↔ ¬ db.Reroutes id newParentId := by
  have expected (row : ProductRow) : db.expected row =
      (db.moved id newParentId current).expected row ↔
      (row.status ≠ .archived → ∀ c, db.categoryOf row.categoryId = some c →
        db.rerouted current newParentId c = c.path) := by
    have assembled : (db.moved id newParentId current).assemble row = { db.assemble row with
      categoryPath := (db.moved id newParentId current).pathOf row.categoryId } := rfl
    unfold Database.expected
    by_cases gone : row.status = .archived
    · rw [if_pos gone, if_pos gone]
      exact iff_of_true rfl fun open' => (open' gone).elim
    · rw [if_neg gone, if_neg gone, EventData.productUpserted.injEq, assembled, eq_comm,
        snapshot_categoryPath]
      exact (pathOf_moved row.categoryId).trans ⟨fun same _ => same, fun same => same gone⟩
  constructor
  · rintro now ⟨other, stored, row, member, open', c, filed, changed⟩
    rw [found] at stored
    cases stored
    have said : some (db.expected row) = _ := (complete row member).symm.trans (now row member)
    exact changed ((expected row).mp (Option.some.inj said) open' c filed)
  · intro fair row member
    refine (complete row member).trans (congrArg some ((expected row).mpr fun open' c filed => ?_))
    by_contra changed
    exact fair ⟨current, found, row, member, open', c, filed, changed⟩

theorem Sane.moved (sane : Sane db) : Sane (db.moved id newParentId current) where
  products := sane.products
  categories := by
    have ids : (db.moved id newParentId current).categories.map CategoryRow.id =
        db.categories.map CategoryRow.id := by
      unfold Database.moved Catalog.Database.rehung
      rw [map_map]
      refine congrArg (fun f => List.map f _) (funext fun c => ?_)
      simp only [Function.comp_apply]
      split <;> rfl
    rw [ids]
    exact sane.categories
  homed := sane.homed

end Moves

section Runs

variable {platform : Platform} {db : Database}

/-- **One step.** A complete topic stays complete exactly when the step is not faulty. -/
theorem step_sharp (sane : Sane db) (event : Event) :
    Sane (db.step platform event) ∧
      (db.Complete → ((db.step platform event).Complete ↔ ¬ db.Faulty platform event)) := by
  cases event with
  | call request change =>
    by_cases fresh : request.Fresh db
    · have stepped : db.step platform (.call request change) =
        (request.transaction platform change).inTx db := if_pos fresh
      rw [stepped]
      simp only [Database.Faulty]
      rcases ran : (request.transaction platform change).run db with ⟨_ | u, after⟩
      · rw [Program.inTx_of_error ran]
        exact ⟨sane, fun complete => iff_of_true complete fun bad => nomatch bad.2.1⟩
      · rw [Program.inTx_of_ok ran]
        obtain ⟨kept, sharp⟩ := accepted_step sane fresh ran
        refine ⟨kept, fun complete => (sharp complete).trans (not_congr ?_)⟩
        exact ⟨fun neglects => ⟨fresh, rfl, neglects⟩, fun bad => bad.2.2⟩
    · have stepped : db.step platform (.call request change) = db := if_neg fresh
      rw [stepped]
      exact ⟨sane, fun complete => iff_of_true complete fun bad => fresh bad.1⟩
  | move id newParentId =>
    simp only [Database.step, Database.Faulty]
    rcases move_cases platform.strings db.tree id newParentId with ⟨e, ran⟩ | ⟨current, found, ran⟩
    · rw [ran]
      exact ⟨sane, fun complete => iff_of_true complete fun bad => nomatch bad.1⟩
    · rw [ran]
      refine ⟨sane.moved, fun complete => (complete_moved_iff complete found).trans (not_congr ?_)⟩
      exact ⟨fun reroutes => ⟨rfl, reroutes⟩, fun bad => bad.2⟩

theorem sane_opening {categories : List CategoryRow}
    (distinct : (categories.map CategoryRow.id).Nodup) (collate : String → String → Bool) :
    Sane (.opening categories collate) :=
  ⟨nodup_nil, distinct, fun _ member => absurd member not_mem_nil⟩

theorem sane_of_reachable {start : Database} (sane : Sane start)
    (reached : (System.ofFunction start (Database.step platform)).Reachable db) : Sane db := by
  refine reached.invariant ?_ ?_
  · rintro _ rfl
    exact sane
  · rintro s event _ before rfl
    exact (step_sharp before event).1

/-- **The catalogue topic is a complete snapshot** throughout a run exactly when no call and
no move of it is faulty. -/
theorem complete_throughout_iff (platform : Platform) {categories : List CategoryRow}
    (distinct : (categories.map CategoryRow.id).Nodup) (collate : String → String → Bool)
    (events : List Event) :
    (∀ front, front <+: events →
        (front.foldl (Database.step platform) (.opening categories collate)).Complete) ↔
      ∀ front event, front ++ [event] <+: events →
        ¬ (front.foldl (Database.step platform) (.opening categories collate)).Faulty platform
          event := by
  have said : Database.Complete (.opening categories collate) :=
    fun _ member => absurd member not_mem_nil
  refine System.throughout_iff (P := Database.Complete) said (fun db event reached complete => ?_)
    events
  exact (step_sharp (sane_of_reachable (sane_opening distinct collate) reached) event).2 complete

end Runs

/-- A platform that sees blanks and lower-cases titles. -/
def plain : Platform where
  isBlank := fun text => text.toList.all Char.isWhitespace
  uri := fun _ => none
  slug := fun title => some title.toLower
  allowedImageHosts := []
  strings := .unspecified

def shelves : List CategoryRow :=
  [⟨"cat_1", "light", "Light", none, ["light"], 0⟩, ⟨"cat_2", "audio", "Audio", none, ["audio"], 1⟩]

def lamp : Event :=
  .call (.create { title := "Lamp", categorySlug := some "light", status := some .active,
                   variants := [("sku_1", { price := 1000, currency := egp })] } "prd_1") 1

/-- A lamp is put on sale, its price is to be changed, it gets cheaper, an empty shelf is moved,
and the lamp goes. -/
def sale : List Event :=
  [lamp, .call (.changePrice "prd_1" "sku_1" ⟨800, some 1000, egp⟩ (some "usr_1") none) 1,
    .call (.upsertVariant "prd_1" "sku_1"
      { price := 800, listPrice := some 1000, currency := egp }) 1,
    .move "cat_2" (some "cat_1"), .call (.archive "prd_1") 2]

theorem complete_after_sale :
    (sale.foldl (Database.step plain) (.opening shelves fun a b => decide (a ≤ b))).Complete := by
  have permits : System.Permits (Database.step plain) (fun db event => ¬ db.Faulty plain event) sale
      (.opening shelves fun a b => decide (a ≤ b)) := by
    decide +kernel
  exact (complete_throughout_iff plain (by decide) _ sale).mpr
    (fun _ _ taken => permits.step taken) sale (prefix_refl sale)

/-- The lamp's variant is stored again by way of a shade without variants: the last event of the
lamp keeps the old price. -/
theorem stale_of_foreign_sku : ¬ ∀ events : List Event,
    (events.foldl (Database.step plain) (.opening shelves fun a b => decide (a ≤ b))).Complete := by
  intro holds
  have complete := holds [lamp, .call (.create { title := "Shade" } "prd_2") 1,
    .call (.upsertVariant "prd_2" "sku_1" { price := 500, currency := egp }) 1]
  revert complete
  decide +kernel

end Souq.Catalog.Products
