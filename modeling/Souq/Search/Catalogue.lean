import Souq.Catalog.Snapshot
import Souq.Search.Index

/-!
# What the catalogue publishes and search reads

The events of the catalogue as they arrive at `handle_message`. A tombstone arrives without
a value, and a product that has no variants arrives with `null` for its price.
-/

namespace Souq.Catalog.Products

open Transact Transition List
open Souq.Search (MoneyData ImageData Envelope Raised buildDocument handleMessage)

def Money.json (money : Money) : MoneyData where
  amount := some money.amount
  currency := some money.currency.code

/-- A value that Java may hold as `null`. -/
def nullable {α : Type} : Option α → Search.Field α
  | none => .null
  | some a => .value a

def Image.json (image : Image) : ImageData := ⟨nullable image.url⟩

def statusName : ProductStatus → String
  | .draft => "DRAFT"
  | .active => "ACTIVE"
  | .archived => "ARCHIVED"
  | .discontinued => "DISCONTINUED"

/-- The `data` of an event, of which a snapshot also has the time of the update. -/
def EventData.json (updatedAt : String) : EventData → Search.Data
  | .productUpserted data =>
    { productId := some data.productId
      sku := some data.sku
      title := .value data.title
      description := .value data.description
      brand := nullable data.brand
      categoryPath := .value data.categoryPath
      attributes := .value data.attributes
      images := .value (data.images.map Image.json)
      price := nullable (data.price.map Money.json)
      listPrice := nullable (data.listPrice.map Money.json)
      status := .value (statusName data.status)
      updatedAt := .value updatedAt }
  | .priceChanged productId sku _ _ => { productId := some productId, sku := some sku }
  | .productDeleted productId => { productId := some productId }
  | .tombstone => {}

/-- What the relay sends for a row, and where the record lands. The payload of a tombstone
reads back as the text `null`, and is sent as no value at all. -/
def OutboxRow.message (row : OutboxRow) (updatedAt : String) (offset : Nat) : Search.Message where
  topic := "souq.catalog.events.v1"
  raw :=
    match row.data with
    | .tombstone => .none
    | data => .json { type := .value data.type, data := .value (data.json updatedAt) }
  offset := offset

/-- Whatever the relay publishes of the outbox is handled without an exception, at any offset
and under any index. -/
def Database.Indexable (db : Database) : Prop :=
  ∀ row ∈ db.outbox, ∀ updatedAt offset es, ∃ es',
    handleMessage (row.message updatedAt offset) es = .ok es'

/-- The events that `handle_message` does not expect. -/
def EventData.Raises : EventData → Prop
  | .productUpserted data => data.price = none
  | .tombstone => True
  | .priceChanged .. | .productDeleted _ => False

instance : (data : EventData) → Decidable data.Raises
  | .productUpserted data => inferInstanceAs (Decidable (data.price = none))
  | .tombstone => .isTrue trivial
  | .priceChanged .. | .productDeleted _ => .isFalse id

section Handler

variable (updatedAt : String) (offset : Nat)

theorem buildDocument_snapshot (data : Snapshot) :
    (∃ doc, buildDocument ((EventData.productUpserted data).json updatedAt) offset = .ok doc) ↔
      data.price ≠ none := by
  cases priced : data.price with
  | none =>
    have raised : buildDocument ((EventData.productUpserted data).json updatedAt) offset =
        .error .attributeError := by
      simp only [buildDocument, EventData.json, Search.priceOf, priced, nullable, Option.map_none]
      rfl
    rw [raised]
    exact iff_of_false (fun ⟨_, built⟩ => (nomatch built)) fun some' => some' rfl
  | some money =>
    refine iff_of_true ?_ (Option.some_ne_none money)
    simp only [buildDocument, EventData.json, Search.priceOf, priced, nullable, Option.map_some,
      Search.require]
    exact ⟨_, rfl⟩

variable {updatedAt offset}

/-- **One message.** It is handled unless it is a tombstone or a snapshot without a price. -/
theorem handled_iff (row : OutboxRow) (es : Search.Index) :
    (∃ es', handleMessage (row.message updatedAt offset) es = .ok es') ↔ ¬ row.data.Raises := by
  obtain ⟨key, data⟩ := row
  cases data with
  | tombstone => exact iff_of_false (fun ⟨_, handled⟩ => (nomatch handled)) fun fine => fine trivial
  | priceChanged | productDeleted => exact iff_of_true ⟨_, rfl⟩ id
  | productUpserted data =>
    have routed : handleMessage (OutboxRow.message ⟨key, .productUpserted data⟩ updatedAt offset)
        es = (buildDocument ((EventData.productUpserted data).json updatedAt) offset).map
          fun doc => es.index doc.productId doc := by
      simp only [handleMessage, Search.route, OutboxRow.message, EventData.type, ↓reduceIte,
        Search.Field.get?, Option.getD_some]
      cases buildDocument ((EventData.productUpserted data).json updatedAt) offset <;> rfl
    rw [routed]
    refine Iff.trans ?_ (buildDocument_snapshot updatedAt offset data)
    cases buildDocument ((EventData.productUpserted data).json updatedAt) offset with
    | error raised =>
      exact iff_of_false (fun ⟨_, handled⟩ => (nomatch handled)) fun ⟨_, built⟩ => (nomatch built)
    | ok doc => exact iff_of_true ⟨_, rfl⟩ ⟨_, rfl⟩

theorem indexable_iff (db : Database) : db.Indexable ↔ ∀ row ∈ db.outbox, ¬ row.data.Raises :=
  ⟨fun holds row member => (handled_iff row {}).mp (holds row member "" 0 {}),
    fun fine row member _ _ es => (handled_iff row es).mpr (fine row member)⟩

end Handler

theorem leading_eq_none {variants : List Variant} : leading variants = none ↔ variants = [] := by
  cases variants with
  | nil => exact iff_of_true rfl rfl
  | cons v variants =>
    refine iff_of_false (fun none' => ?_) (cons_ne_nil v variants)
    unfold leading at none'
    split at none' <;> cases none'

theorem raises_snapshot (product : Product) :
    (EventData.productUpserted product.snapshot).Raises ↔ product.variants = [] := by
  refine Iff.trans ?_ leading_eq_none
  exact Option.map_eq_none_iff

def Database.stocks (db : Database) (productId : String) : Bool :=
  db.variants.any fun row => row.productId = productId

theorem variantsOf_eq_nil (db : Database) (productId : String) :
    db.variantsOf productId = [] ↔ db.stocks productId = false := by
  have sorted : db.variantsOf productId = [] ↔
      (db.variants.filter fun row => row.productId = productId) = [] := by
    unfold Database.variantsOf Database.arrange
    exact ⟨fun none => (none ▸ perm_insertionSort _ _).nil_eq.symm, fun none => none.symm ▸ rfl⟩
  rw [sorted, filter_eq_nil_iff, Database.stocks, any_eq_false]

theorem raises_assembled (db : Database) (row : ProductRow) :
    (EventData.productUpserted (db.assemble row).snapshot).Raises ↔ db.stocks row.id = false := by
  rw [raises_snapshot, ← variantsOf_eq_nil]
  exact map_eq_nil_iff

theorem stocks_of_replaced {db after : Database} {old new : VariantRow}
    (variants : after.variants = Table.upsert VariantRow.sku new db.variants)
    (stored : db.variant new.sku = some old) (home : old.productId = new.productId)
    (productId : String) :
    after.stocks productId = db.stocks productId := by
  unfold Database.stocks
  rw [variants]
  apply Table.any_upsert _
  rw [show Table.find VariantRow.sku db.variants new.sku = some old from stored, Option.elim_some,
    home]

/-- A request whose event search does not expect. The SKU of a change may be another
product's variant. -/
def Request.Unexpected (db : Database) : Request → Prop
  | .create request _ => request.variants = []
  | .update id _ _ => db.stocks id = false
  | .upsertVariant productId sku _ => db.stocks productId = false ∧ (db.variant sku).isSome = true
  | .changePrice .. => False
  | .archive _ => True

instance (db : Database) : (request : Request) → Decidable (request.Unexpected db)
  | .create request _ => inferInstanceAs (Decidable (request.variants = []))
  | .update id _ _ => inferInstanceAs (Decidable (db.stocks id = false))
  | .upsertVariant .. => inferInstanceAs (Decidable (_ ∧ _))
  | .changePrice .. => .isFalse id
  | .archive _ => .isTrue trivial

/-- An accepted call whose event search does not expect. -/
def Database.Puzzling (platform : Platform) (db : Database) : Event → Prop
  | .call request change => request.Fresh db ∧
      ((request.transaction platform change).run db).1 = .ok () ∧ request.Unexpected db
  | .move _ _ => False

instance (platform : Platform) (db : Database) :
    (event : Event) → Decidable (db.Puzzling platform event)
  | .call request change => inferInstanceAs (Decidable (request.Fresh db ∧
      ((request.transaction platform change).run db).1 = .ok () ∧ request.Unexpected db))
  | .move _ _ => .isFalse id

section Calls

variable {db after : Database} {row : ProductRow} {events : List EventData}

theorem Touches.indexable_iff (touches : Touches db after row events) (indexable : db.Indexable) :
    after.Indexable ↔ ∀ data ∈ events, ¬ data.Raises := by
  have before := (Products.indexable_iff db).mp indexable
  rw [Products.indexable_iff, touches.outbox]
  constructor
  · intro now data member
    exact now ⟨row.id, data⟩ (mem_append_right _ (mem_map.mpr ⟨data, member, rfl⟩))
  · intro fine other member
    rcases mem_append.mp member with old | new
    · exact before other old
    · obtain ⟨data, inside, rfl⟩ := mem_map.mp new
      exact fine data inside

theorem Touches.indexable_iff_of_snapshot {data : EventData}
    (touches : Touches db after row [data]) (indexable : db.Indexable) :
    after.Indexable ↔ ¬ data.Raises := by
  rw [touches.indexable_iff indexable, forall_mem_singleton]

/-- **An accepted call** publishes what search can index exactly when it is expected. -/
theorem accepted_indexable_iff (sane : Sane db) (indexable : db.Indexable) {platform : Platform}
    {request : Request} {change : ID} (fresh : request.Fresh db)
    (ran : (request.transaction platform change).run db = (.ok (), after)) :
    after.Indexable ↔ ¬ request.Unexpected db := by
  cases request with
  | create request id =>
    obtain ⟨product, between, first, second⟩ := Program.run_bind_ok.mp ran
    cases second
    obtain ⟨touches, -, listed, -⟩ := of_create sane.categories fresh first
    rw [touches.indexable_iff_of_snapshot indexable, raises_snapshot, listed]
    exact not_congr map_eq_nil_iff
  | update id expectedVersion edit =>
    obtain ⟨product, between, first, second⟩ := Program.run_bind_ok.mp ran
    cases second
    obtain ⟨row, category, found, variants, touches⟩ := of_update first
    have own : row.id = id := Table.key_of_find found
    have named : (row.patched (edit.patch category)).id = id := own
    rw [touches.indexable_iff_of_snapshot indexable, raises_assembled, named,
      Database.stocks, variants]
    rfl
  | changePrice productId sku prices changedBy reason =>
    obtain ⟨product, between, first, second⟩ := Program.run_bind_ok.mp ran
    exact absurd first changePrice_fails
  | upsertVariant productId sku request =>
    obtain ⟨product, between, first, second⟩ := Program.run_bind_ok.mp ran
    cases second
    obtain ⟨row, found, touches, variants⟩ := of_upsertVariant first
    have named : row.id = productId := Table.key_of_find found
    rw [touches.indexable_iff_of_snapshot indexable, raises_assembled, named]
    apply not_congr
    cases stored : db.variant sku with
    | some old =>
      have placed : db.placed (request.variant sku productId) =
          old.replacedBy (request.variant sku productId).row := by
        rw [Database.placed, show db.variant (request.variant sku productId).sku = some old
          from stored, Option.elim_some]
      have target : db.variant old.sku = some old := by rw [Table.key_of_find stored, stored]
      rw [placed] at variants
      rw [stocks_of_replaced variants target rfl productId]
      exact ⟨fun none => ⟨none, stored.symm ▸ rfl⟩, fun none => none.1⟩
    | none =>
      rw [placed_of_absent stored, Table.upsert_of_absent fun other member same =>
        find?_eq_none.mp stored other member (decide_eq_true same)] at variants
      have there : after.stocks productId = true := by
        rw [Database.stocks, variants, any_append]
        simp [Variant.row, NewVariant.variant]
      rw [there]
      exact iff_of_false (by simp) fun none => by simpa [stored] using none.2
  | archive id =>
    obtain ⟨row, found, variants, touches⟩ := of_archive ran
    rw [touches.indexable_iff indexable]
    exact iff_of_false (fun fine => fine .tombstone (by simp) trivial) fun expected =>
      expected trivial

/-- **One step.** What is published stays indexable exactly when the step is not puzzling. -/
theorem indexable_step_iff (sane : Sane db) (indexable : db.Indexable) {platform : Platform}
    (event : Event) : (db.step platform event).Indexable ↔ ¬ db.Puzzling platform event := by
  cases event with
  | move _ newParentId => exact iff_of_true indexable id
  | call request change =>
    by_cases fresh : request.Fresh db
    · have stepped : db.step platform (.call request change) =
        (request.transaction platform change).inTx db := if_pos fresh
      rw [stepped]
      simp only [Database.Puzzling]
      rcases ran : (request.transaction platform change).run db with ⟨_ | u, after⟩
      · rw [Program.inTx_of_error ran]
        exact iff_of_true indexable fun bad => nomatch bad.2.1
      · rw [Program.inTx_of_ok ran]
        refine (accepted_indexable_iff sane indexable fresh ran).trans (not_congr ?_)
        exact ⟨fun unexpected => ⟨fresh, rfl, unexpected⟩, fun bad => bad.2.2⟩
    · have stepped : db.step platform (.call request change) = db := if_neg fresh
      rw [stepped]
      exact iff_of_true indexable fun bad => fresh bad.1

end Calls

/-- **Search handles whatever the catalogue publishes** throughout a run exactly when every
accepted call of it is expected. -/
theorem indexable_throughout_iff (platform : Platform) {categories : List CategoryRow}
    (distinct : (categories.map CategoryRow.id).Nodup) (collate : String → String → Bool)
    (events : List Event) :
    (∀ front, front <+: events →
        (front.foldl (Database.step platform) (.opening categories collate)).Indexable) ↔
      ∀ front event, front ++ [event] <+: events →
        ¬ (front.foldl (Database.step platform) (.opening categories collate)).Puzzling platform
          event := by
  have silent : Database.Indexable (.opening categories collate) :=
    fun _ member => absurd member not_mem_nil
  refine System.throughout_iff (P := Database.Indexable) silent
    (fun db event reached indexable => ?_)
    events
  exact indexable_step_iff (sane_of_reachable (sane_opening distinct collate) reached)
    indexable event

/-- A lamp is put on sale and gets cheaper. -/
def cheaper : List Event :=
  [lamp, .call (.upsertVariant "prd_1" "sku_1"
      { price := 800, listPrice := some 1000, currency := egp }) 1]

theorem indexable_cheaper :
    (cheaper.foldl (Database.step plain)
      (.opening shelves fun a b => decide (a ≤ b))).Indexable := by
  have permits : System.Permits (Database.step plain) (fun db event => ¬ db.Puzzling plain event)
      cheaper (.opening shelves fun a b => decide (a ≤ b)) := by
    decide +kernel
  exact (indexable_throughout_iff plain (by decide) _ cheaper).mpr
    (fun _ _ taken => permits.step taken) cheaper (prefix_refl cheaper)

/-- A shade without variants is created: its price is `null`. A lamp is archived: the
tombstone has no value. -/
theorem unexpected_raises :
    (¬ ([Event.call (.create { title := "Shade" } "prd_2") 1].foldl (Database.step plain)
        (.opening shelves fun a b => decide (a ≤ b))).Indexable) ∧
      ¬ ([lamp, .call (.archive "prd_1") 2].foldl (Database.step plain)
        (.opening shelves fun a b => decide (a ≤ b))).Indexable := by
  rw [indexable_iff, indexable_iff]
  decide +kernel

end Souq.Catalog.Products
