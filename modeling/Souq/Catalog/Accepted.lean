import Souq.Catalog.ProductService

/-!
# What an accepted call does

A call that goes through touches one product, the one it is addressed to, and enqueues
events under its key. Which variants it has written is said beside that.
-/

namespace Souq.Catalog.Products

open Transact Program Table List

/-- One product is new or changed, and events are enqueued under its key. -/
structure Touches (db after : Database) (row : ProductRow) (events : List EventData) : Prop where
  products : after.products = Table.upsert ProductRow.id row db.products
  outbox : after.outbox = db.outbox ++ events.map fun data => ⟨row.id, data⟩
  categories : after.categories = db.categories
  collate : after.collate = db.collate

section Parts

variable {db after : Database} {α : Type}

theorem of_unlessInvalid {problems : List String} {u : Unit}
    (ran : (unlessInvalid problems).run db = (.ok u, after)) : after = db := by
  unfold unlessInvalid at ran
  split at ran
  · cases ran
    rfl
  · cases ran

theorem of_refusable {outcome : Except Violation α} {a : α}
    (ran : (refusable outcome).run db = (.ok a, after)) : outcome = .ok a ∧ after = db := by
  cases outcome with
  | ok b =>
    cases ran
    exact ⟨rfl, rfl⟩
  | error violated => cases ran

theorem of_orNotFound {what : String} {found : Option α} {a : α}
    (ran : (orNotFound what found).run db = (.ok a, after)) : found = some a ∧ after = db := by
  cases found with
  | none => cases ran
  | some b =>
    cases ran
    exact ⟨rfl, rfl⟩

theorem of_findProduct {id : String} {product : Product}
    (ran : (findProduct id).run db = (.ok product, after)) :
    after = db ∧ ∃ row, db.product id = some row ∧ product = db.assemble row := by
  obtain ⟨found, between, first, second⟩ := run_bind_ok.mp ran
  cases first
  obtain ⟨found, rfl⟩ := of_orNotFound second
  refine ⟨rfl, ?_⟩
  obtain ⟨row, stored, assembled⟩ := Option.map_eq_some_iff.mp found
  exact ⟨row, stored, assembled.symm⟩

theorem of_enqueue {row : OutboxRow} {u : Unit} (ran : (enqueue row).run db = (.ok u, after)) :
    after = { db with outbox := db.outbox ++ [row] } := by
  cases ran
  rfl

theorem path_of_findCategory (distinct : (db.categories.map CategoryRow.id).Nodup)
    {platform : Platform} {categorySlug : Option String} {category : Option Category}
    (ran : (findCategory platform categorySlug).run db = (.ok category, after)) :
    (category.map fun c => c.path).getD [] = db.pathOf (category.map fun c => c.id) := by
  unfold findCategory at ran
  split at ran
  · cases ran
    rfl
  · rename_i slug _
    obtain ⟨answer, read, reads, rest⟩ := run_bind_ok.mp ran
    obtain ⟨found, between, second, last⟩ := run_bind_ok.mp rest
    have named := (of_orNotFound second).1
    have answered : (db.categories.find? fun c => c.slug = slug).map db.tree.category = answer :=
      Except.ok.inj (Prod.mk.inj reads).1
    cases last
    rw [named] at answered
    obtain ⟨c, stored, rfl⟩ := Option.map_eq_some_iff.mp answered
    have joined : (db.categories.find? fun d => d.id = c.id) = some c :=
      find_of_mem distinct (mem_of_find?_eq_some stored)
    change c.path = ((db.categories.find? fun d => d.id = c.id).map fun d => d.path).getD []
    rw [joined]
    rfl

theorem findCategory_reads {platform : Platform} {categorySlug : Option String}
    {category : Option Category}
    (ran : (findCategory platform categorySlug).run db = (.ok category, after)) : after = db := by
  unfold findCategory at ran
  split at ran
  · cases ran
    rfl
  · obtain ⟨answer, read, reads, rest⟩ := run_bind_ok.mp ran
    obtain ⟨found, between, second, last⟩ := run_bind_ok.mp rest
    cases last
    exact (of_orNotFound second).2.trans (Prod.mk.inj reads).2.symm

theorem of_firstFree {otherwise : String} {candidates : List String} {slug : String}
    (ran : (firstFree otherwise candidates).run db = (.ok slug, after)) :
    after = db ∧ (slug = otherwise ∨ slug ∈ candidates) := by
  induction candidates with
  | nil =>
    cases ran
    exact ⟨rfl, .inl rfl⟩
  | cons candidate rest ih =>
    obtain ⟨taken, between, first, second⟩ := run_bind_ok.mp ran
    cases first
    split at second
    · exact (ih second).imp_right (Or.imp_right (mem_cons_of_mem candidate))
    · cases second
      exact ⟨rfl, .inr mem_cons_self⟩

theorem of_uniqueFrom {base : Option String} {fallbackId slug : String}
    (ran : (uniqueFrom base fallbackId).run db = (.ok slug, after)) :
    after = db ∧ base.elim (slug = fallbackId.toLower) fun base => slug = base ∨
      ∃ tail, slug = base ++ "-" ++ tail ∧
        (tail = fallbackId.toLower ∨ ∃ n : Nat, tail = toString n) := by
  cases base with
  | none =>
    cases ran
    exact ⟨rfl, rfl⟩
  | some base =>
    obtain ⟨same, last | candidate⟩ := of_firstFree ran
    · exact ⟨same, .inr ⟨_, last, .inl rfl⟩⟩
    · refine ⟨same, ?_⟩
      rcases mem_cons.mp candidate with plain | numbered
      · exact .inl plain
      · obtain ⟨n, -, rfl⟩ := mem_map.mp numbered
        exact .inr ⟨_, rfl, .inr ⟨n, rfl⟩⟩

end Parts

section Variants

variable {db after : Database}

/-- The statements that write variants leave the rest alone, apart from the history. -/
structure SameShelf (db after : Database) : Prop where
  products : after.products = db.products
  outbox : after.outbox = db.outbox
  categories : after.categories = db.categories
  collate : after.collate = db.collate

theorem SameShelf.trans {between : Database} (first : SameShelf db between)
    (second : SameShelf between after) : SameShelf db after :=
  ⟨second.products.trans first.products, second.outbox.trans first.outbox,
    second.categories.trans first.categories, second.collate.trans first.collate⟩

theorem sameShelf_version (db : Database) (version : VariantRow × Option PriceChange) :
    SameShelf db (dialect.replay (versionWrites version) db) ∧
      (dialect.replay (versionWrites version) db : Database).variants =
        upsert VariantRow.sku version.1 db.variants := by
  obtain ⟨row, _ | change⟩ := version
  · exact ⟨⟨rfl, rfl, rfl, rfl⟩, rfl⟩
  · exact ⟨⟨rfl, rfl, rfl, rfl⟩, rfl⟩

def Database.placed (db : Database) (variant : Variant) : VariantRow :=
  (db.variant variant.sku).elim variant.row fun old => old.replacedBy variant.row

variable {variant : Variant} {change : ID}

theorem placed_of_absent (absent : db.variant variant.sku = none) :
    db.placed variant = variant.row := by
  rw [Database.placed, absent, Option.elim_none]

theorem placed_productId (db : Database) (variant : Variant) :
    (db.placed variant).productId = variant.productId ∨ ∃ old, db.variant variant.sku = some old ∧
        (db.placed variant).productId = old.productId := by
  unfold Database.placed
  cases found : db.variant variant.sku with
  | none => exact .inl rfl
  | some old => exact .inr ⟨old, rfl, rfl⟩

theorem placed_of_upsertVariant {version : VariantRow × Option PriceChange}
    (accepted : db.upsertVariant variant change = .ok version) :
    version.1 = db.placed variant := by
  unfold Database.upsertVariant at accepted
  split at accepted
  · cases accepted
  · cases found : db.variant variant.sku with
    | some old =>
      simp only [found] at accepted
      obtain ⟨rfl, -⟩ := updateVariant_ok accepted
      rw [Database.placed, found, Option.elim_some]
    | none =>
      simp only [found] at accepted
      split at accepted
      · cases accepted
      · split at accepted
        · cases accepted
        · cases accepted
          exact (placed_of_absent found).symm

theorem of_putVariant {u : Unit} (ran : (putVariant change variant).run db = (.ok u, after)) :
    SameShelf db after ∧
      after.variants = upsert VariantRow.sku (db.placed variant) db.variants := by
  obtain ⟨answer, between, first, second⟩ := run_bind_ok.mp ran
  obtain ⟨accepted, rfl⟩ := of_refusable second
  cases first
  change (db.upsertVariant variant change).map (fun _ => ()) = .ok u at accepted
  cases outcome : db.upsertVariant variant change with
  | error violated =>
    rw [outcome] at accepted
    cases accepted
  | ok version =>
    have writes : Stmt.writes (.upsertVariant variant change) db = versionWrites version := by
      simp only [Stmt.writes, outcome]
    obtain ⟨same, variants⟩ := sameShelf_version db version
    rw [placed_of_upsertVariant outcome] at variants
    change SameShelf db (dialect.replay (Stmt.writes (.upsertVariant variant change) db) db) ∧
      Database.variants (dialect.replay (Stmt.writes (.upsertVariant variant change) db) db) = _
    rw [writes]
    exact ⟨same, variants⟩

end Variants

section Calls

variable {db after : Database} {product : Product}

variable {change : ID} {id : String}

variable {u : Unit} {platform : Platform}

theorem shelf_of_putVariants {created : List Variant}
    (ran : (forEach (putVariant change) created).run db = (.ok u, after)) :
    SameShelf db after := by
  induction created generalizing db with
  | nil =>
    cases ran
    exact ⟨rfl, rfl, rfl, rfl⟩
  | cons v created ih =>
    obtain ⟨_, between, first, second⟩ := run_bind_ok.mp ran
    exact (of_putVariant first).1.trans (ih second)

theorem of_putVariants {created : List Variant} (fresh : ∀ v ∈ created, db.variant v.sku = none)
    (distinct : (created.map fun v => v.sku).Nodup)
    (ran : (forEach (putVariant change) created).run db = (.ok u, after)) :
    after.variants = db.variants ++ created.map Variant.row := by
  induction created generalizing db with
  | nil =>
    cases ran
    exact (append_nil _).symm
  | cons v created ih =>
    obtain ⟨_, between, first, second⟩ := run_bind_ok.mp ran
    obtain ⟨-, written⟩ := of_putVariant first
    have none := fresh v mem_cons_self
    rw [placed_of_absent none] at written
    obtain ⟨apart, distinct⟩ := nodup_cons.mp distinct
    have absent : ∀ other ∈ db.variants, other.sku ≠ v.row.sku := by
      intro other member named
      have missing := find?_eq_none.mp none other member
      exact missing (decide_eq_true named)
    have still : ∀ w ∈ created, between.variant w.sku = .none := by
      intro w member
      change find VariantRow.sku (Database.variants between) w.sku = .none
      rw [written, find_upsert, if_neg]
      · exact fresh w (mem_cons_of_mem _ member)
      · intro named
        exact apart (mem_map.mpr ⟨w, member, named.symm⟩)
    rw [ih still distinct second, written, upsert_of_absent absent, append_assoc]
    rfl

/-- What a new product is called with: an id and SKUs that were never used before. -/
structure NewProduct.Fresh (request : NewProduct) (db : Database) (id : String) : Prop where
  id : db.product id = none
  skus : ∀ v ∈ request.variants, db.variant v.1 = none
  distinct : (request.variants.map fun v => v.1).Nodup

theorem create_ran {request : NewProduct}
    (ran : (create platform request id change).run db = (.ok product, after)) :
    ∃ category slug stocked,
      (findCategory platform request.categorySlug).run db = (.ok category, db) ∧
      (uniqueFrom (platform.slug request.title) id).run db = (.ok slug, db) ∧
      db.insertProduct (request.product id slug category).row = .ok () ∧
      (forEach (putVariant change) (request.created id)).run
        (Write.put (.product (request.product id slug category).row) db) = (.ok (), stocked) ∧
      product = { request.product id slug category with variants := request.created id } ∧
      after = { stocked with outbox := stocked.outbox ++ [productUpserted product] } := by
  obtain ⟨_, checked, checks, second⟩ := run_bind_ok.mp ran
  obtain rfl := of_unlessInvalid checks
  obtain ⟨category, filed, files, third⟩ := run_bind_ok.mp second
  obtain rfl := findCategory_reads files
  obtain ⟨slug, named, names, fourth⟩ := run_bind_ok.mp third
  obtain ⟨rfl, -⟩ := of_uniqueFrom names
  obtain ⟨answer, inserted, inserts, fifth⟩ := run_bind_ok.mp fourth
  obtain ⟨_, settled, settles, sixth⟩ := run_bind_ok.mp fifth
  obtain ⟨accepted, rfl⟩ := of_refusable settles
  obtain ⟨_, stocked, stocks, seventh⟩ := run_bind_ok.mp sixth
  obtain ⟨_, told, tells, eighth⟩ := run_bind_ok.mp seventh
  cases eighth
  obtain rfl := of_enqueue tells
  have taken : named.insertProduct (request.product id slug category).row = .ok () := by
    rw [accepted] at inserts
    exact Except.ok.inj (Prod.mk.inj inserts).1
  have shelved : settled = Write.put (.product (request.product id slug category).row) named := by
    have written := (Prod.mk.inj inserts).2
    rw [← written]
    change dialect.replay (Stmt.writes (.insertProduct _) named) named = _
    simp only [Stmt.writes, taken]
    rfl
  subst shelved
  exact ⟨category, slug, stocked, files, names, taken, stocks, rfl, rfl⟩

/-- **A product is created.** The event has its variants in the order of the request. -/
theorem of_create (keys : (db.categories.map CategoryRow.id).Nodup) {request : NewProduct}
    (fresh : request.Fresh db id)
    (ran : (create platform request id change).run db = (.ok product, after)) :
    Touches db after product.row [.productUpserted product.snapshot] ∧
      after.variants = db.variants ++ (request.created id).map Variant.row ∧
      product.variants = request.created id ∧ product.id = id ∧ product.version = 0 ∧
      product.status = request.status.getD .draft ∧
      product.categoryPath = db.pathOf product.categoryId := by
  obtain ⟨category, slug, stocked, files, -, -, stocks, rfl, rfl⟩ := create_ran ran
  have path := path_of_findCategory keys files
  have skus : ((request.created id).map fun v => v.sku) = request.variants.map fun v => v.1 := by
    rw [NewProduct.created, map_map]
    rfl
  have same := shelf_of_putVariants stocks
  have variants := of_putVariants (fun v member => by
    obtain ⟨w, inside, rfl⟩ := mem_map.mp member
    exact fresh.skus w inside) (skus ▸ fresh.distinct) stocks
  refine ⟨⟨same.products, ?_, same.categories, same.collate⟩, variants, rfl, rfl, rfl, rfl, path⟩
  exact congrArg (· ++ _) same.outbox

theorem of_updateProduct {expectedVersion : Nat} {patch : Patch} {n : Nat}
    (ran : (updateProduct id expectedVersion patch).run db = (.ok n, after)) (some' : n ≠ 0) :
    ∃ row, db.product id = some row ∧ after = Write.put (.product (row.patched patch)) db := by
  obtain ⟨answer, written, writes, whole⟩ := run_bind_ok.mp ran
  obtain ⟨updated, settled, settles, rest⟩ := run_bind_ok.mp whole
  obtain ⟨accepted, rfl⟩ := of_refusable settles
  subst accepted
  have answered : Stmt.answer (.updateProduct id expectedVersion patch) db = .ok updated :=
    Except.ok.inj (Prod.mk.inj writes).1
  have wrote : dialect.replay (Stmt.writes (.updateProduct id expectedVersion patch) db) db =
    settled := (Prod.mk.inj writes).2
  simp only [Stmt.answer] at answered
  cases target : db.updated id expectedVersion patch with
  | none =>
    simp only [target] at answered
    cases answered
    rw [if_pos rfl] at rest
    obtain ⟨found, read, _, last⟩ := run_bind_ok.mp rest
    split at last
    · cases last
    · cases last
      exact (some' rfl).elim
  | some row' =>
    simp only [target] at answered
    cases filed : db.misfiled row' with
    | some violated =>
      rw [filed] at answered
      cases answered
    | none =>
      rw [filed] at answered
      cases answered
      rw [if_neg Nat.one_ne_zero] at rest
      cases rest
      obtain ⟨row, found, rfl⟩ := Option.map_eq_some_iff.mp target
      refine ⟨row, (Option.filter_eq_some_iff.mp found).1, ?_⟩
      rw [← wrote]
      simp only [Stmt.writes, target, filed, ↓reduceIte]
      rfl

/-- **A product is updated.** The event has what is stored. -/
theorem of_update {expectedVersion : Nat} {edit : Edit}
    (ran : (update platform id expectedVersion edit).run db = (.ok product, after)) :
    ∃ row category, db.product id = some row ∧ after.variants = db.variants ∧
      Touches db after (row.patched (edit.patch category))
        [.productUpserted (after.assemble (row.patched (edit.patch category))).snapshot] := by
  obtain ⟨_, checked, checks, second⟩ := run_bind_ok.mp ran
  obtain rfl := of_unlessInvalid checks
  obtain ⟨category, filed, files, third⟩ := run_bind_ok.mp second
  obtain rfl := findCategory_reads files
  obtain ⟨updated, written, writes, fourth⟩ := run_bind_ok.mp third
  split at fourth
  · cases fourth
  · rename_i found
    obtain ⟨row, stored, rfl⟩ := of_updateProduct writes found
    obtain ⟨shown, read, reads, fifth⟩ := run_bind_ok.mp fourth
    obtain ⟨rfl, row', stored', rfl⟩ := of_findProduct reads
    obtain ⟨_, told, tells, sixth⟩ := run_bind_ok.mp fifth
    cases sixth
    obtain rfl := of_enqueue tells
    have own : row.id = id := key_of_find stored
    have named : (row.patched (edit.patch category)).id = id := own
    have same : row' = row.patched (edit.patch category) := by
      change find ProductRow.id (upsert ProductRow.id
        (row.patched (edit.patch category)) filed.products) id = some row' at stored'
      rw [find_upsert, if_pos named] at stored'
      exact (Option.some.inj stored').symm
    subst same
    exact ⟨row, category, stored, rfl, rfl, rfl, rfl, rfl⟩

/-- **No price is changed.** A variant that is there is locked, and the settings throw. -/
theorem changePrice_fails {productId sku : String} {prices : Prices}
    {changedBy reason : Option String} :
    (changePrice productId sku prices changedBy reason change).run db ≠ (.ok product, after) := by
  intro ran
  obtain ⟨_, checked, -, second⟩ := run_bind_ok.mp ran
  obtain ⟨previous, written, writes, third⟩ := run_bind_ok.mp second
  obtain ⟨money, found, finds, -⟩ := run_bind_ok.mp third
  obtain ⟨rfl, rfl⟩ := of_orNotFound finds
  obtain ⟨answer, locked, -, rest⟩ := run_bind_ok.mp writes
  cases answer with
  | none => cases rest
  | some previous => cases rest

/-- **A variant is written.** The event is about the product that the call names, whoever has
the variant. -/
theorem of_upsertVariant {productId sku : String} {request : NewVariant}
    (ran : (upsertVariant productId sku request change).run db = (.ok product, after)) :
    ∃ row, db.product productId = some row ∧
      Touches db after row [.productUpserted (after.assemble row).snapshot] ∧
      after.variants =
        upsert VariantRow.sku (db.placed (request.variant sku productId)) db.variants := by
  obtain ⟨shown, read, reads, second⟩ := run_bind_ok.mp ran
  obtain ⟨rfl, row, filed, rfl⟩ := of_findProduct reads
  obtain ⟨_, written, writes, third⟩ := run_bind_ok.mp second
  obtain ⟨same, variants⟩ := of_putVariant writes
  obtain ⟨found, again, rereads, fourth⟩ := run_bind_ok.mp third
  obtain ⟨_, told, tells, fifth⟩ := run_bind_ok.mp fourth
  cases fifth
  obtain rfl := of_enqueue tells
  have unchanged : written = again := (Prod.mk.inj rereads).2
  subst unchanged
  have named : row.id = productId := key_of_find filed
  have still : Database.product written productId = some row := by
    unfold Database.product
    rw [same.products]
    exact filed
  have answered : (Database.product written productId).map (Database.assemble written) = found :=
    Except.ok.inj (Prod.mk.inj rereads).1
  rw [still] at answered
  subst answered
  refine ⟨row, filed, ⟨?_, ?_, same.categories, same.collate⟩, variants⟩
  · rw [upsert_of_find filed]
    exact same.products
  · change written.outbox ++ _ = _
    rw [same.outbox]
    rfl

/-- **A product is archived.** -/
theorem of_archive (ran : (archive id).run db = (.ok u, after)) :
    ∃ row, db.product id = some row ∧ after.variants = db.variants ∧
      Touches db after row.archived [.productDeleted id, .tombstone] := by
  obtain ⟨archived, written, writes, second⟩ := run_bind_ok.mp ran
  have answered : Stmt.answer (.archive id) db = archived := Except.ok.inj (Prod.mk.inj writes).1
  have wrote : dialect.replay (Stmt.writes (.archive id) db) db = written := (Prod.mk.inj writes).2
  split at second
  · cases second
  · rename_i some'
    obtain ⟨_, first, tells, last⟩ := run_bind_ok.mp second
    obtain rfl := of_enqueue tells
    obtain rfl := of_enqueue last
    change (if (db.product id).any fun row => row.status ≠ .archived then 1 else 0) = archived
      at answered
    cases stored : db.product id with
    | none =>
      rw [stored, if_neg (by simp)] at answered
      exact (some' answered.symm).elim
    | some row =>
      have named : row.id = id := key_of_find stored
      rw [stored, Option.any_some] at answered
      by_cases open' : decide (row.status ≠ .archived) = true
      · have target : (db.product id).filter (fun row => row.status ≠ .archived) = some row := by
          rw [stored, Option.filter_some, if_pos open']
        have shelved : written = Write.put (.product row.archived) db := by
          rw [← wrote]
          simp only [Stmt.writes, target]
          rfl
        subst shelved
        refine ⟨row, rfl, rfl, rfl, ?_, rfl, rfl⟩
        change (db.outbox ++ _) ++ _ = _
        rw [append_assoc]
        subst named
        rfl
      · rw [if_neg open'] at answered
        exact (some' answered.symm).elim

end Calls

end Souq.Catalog.Products
