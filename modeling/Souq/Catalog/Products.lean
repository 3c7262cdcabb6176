import Souq.Basic
import Souq.Catalog.Categories
import Souq.Lib.Table

/-!
# The write side of the catalogue

`ProductService`, the repository under it and the events it enqueues. Every method is one
transaction of statements. The trigger on `variants` belongs to the statements that update
a variant. Timestamps, ratings and the availability figure are not part of it.
-/

namespace Souq.Catalog.Products

open Transact

/-- An ISO 4217 code, as the requests are checked for it: three capital letters. `toUpperCase`
and a `CHAR(3)` column leave it as it is. -/
structure Currency where
  code : String
  letters : code.length = 3 ∧ ∀ c ∈ code.toList, c.isUpper = true
  deriving DecidableEq

/-- An amount in minor units. -/
structure Money where
  amount : Int
  currency : Currency
  deriving DecidableEq

/-- An image of a product. -/
structure Image where
  url : Option String
  alt : Option String
  width : Option Int
  height : Option Int
  deriving DecidableEq

abbrev Attributes := List (String × Option String)

/-- A variant as it is read. -/
structure Variant where
  sku : String
  productId : String
  attributes : Attributes
  price : Money
  listPrice : Option Money
  available : Option Int
  images : List Image
  barcode : Option String
  weightGrams : Option Int
  position : Int
  active : Bool

/-- A product as it is read, with its variants. -/
structure Product where
  id : String
  slug : String
  title : String
  description : String
  brand : Option String
  categoryId : Option String
  categoryPath : List String
  attributes : Attributes
  images : List Image
  status : ProductStatus
  variants : List Variant
  version : Nat

/-- The cheaper of two variants, of equals the first. -/
def Variant.min (v w : Variant) : Variant := if w.price.amount < v.price.amount then w else v

/-- The cheapest active variant, of several the first, or else the first variant. -/
def leading (variants : List Variant) : Option Variant :=
  match variants.filter fun v => v.active with
  | [] => variants.head?
  | v :: rest => some (rest.foldl Variant.min v)

def Product.defaultVariant (product : Product) : Option Variant := leading product.variants

/-- The data of `product_upserted`. -/
structure Snapshot where
  productId : String
  sku : String
  title : String
  description : String
  brand : Option String
  categoryPath : List String
  attributes : Attributes
  images : List Image
  price : Option Money
  listPrice : Option Money
  status : ProductStatus
  locale : String
  deriving DecidableEq

def Product.snapshot (product : Product) : Snapshot :=
  let primary := product.defaultVariant
  { productId := product.id
    sku := (primary.map fun v => v.sku).getD product.id
    title := product.title
    description := product.description
    brand := product.brand
    categoryPath := product.categoryPath
    attributes := product.attributes
    images := product.images
    price := primary.map fun v => v.price
    listPrice := primary.bind fun v => v.listPrice
    status := product.status
    locale := "en-GB" }

/-- The data of an event. -/
inductive EventData where
  | productUpserted (data : Snapshot)
  | priceChanged (productId sku : String) (oldPrice newPrice : Money)
  | productDeleted (productId : String)
  | tombstone
  deriving DecidableEq

def EventData.type : EventData → String
  | .productUpserted _ => "souq.catalog.product_upserted.v1"
  | .priceChanged .. => "souq.catalog.price_changed.v1"
  | .productDeleted _ => "souq.catalog.product_deleted.v1"
  | .tombstone => "souq.catalog.tombstone.v1"

/-- A row of `outbox`. -/
structure OutboxRow where
  partitionKey : String
  data : EventData

def productUpserted (product : Product) : OutboxRow :=
  ⟨product.id, .productUpserted product.snapshot⟩

def priceChanged (productId sku : String) (oldPrice newPrice : Money) : OutboxRow :=
  ⟨productId, .priceChanged productId sku oldPrice newPrice⟩

def productDeleted (productId : String) : OutboxRow := ⟨productId, .productDeleted productId⟩

def tombstone (productId : String) : OutboxRow := ⟨productId, .tombstone⟩

/-- A row of `products`. -/
structure ProductRow where
  id : String
  slug : String
  title : String
  description : String
  brand : Option String
  categoryId : Option String
  attributes : Attributes
  images : List Image
  status : ProductStatus
  version : Nat := 0

/-- The prices of a variant. -/
structure Prices where
  price : Int
  listPrice : Option Int
  currency : Currency
  deriving DecidableEq

/-- A row of `variants`. -/
structure VariantRow where
  sku : String
  productId : String
  attributes : Attributes
  images : List Image
  prices : Prices
  available : Option Int := none
  barcode : Option String
  weightGrams : Option Int
  position : Int
  active : Bool

/-- A row of `price_history`. -/
structure PriceChange where
  id : ID
  sku : String
  oldPrice : Int
  newPrice : Int
  oldListPrice : Option Int
  newListPrice : Option Int
  currency : Currency
  changedBy : String
  reason : Option String

/-- The tables, the order in which the database sorts texts, and the prices that each SKU
was first inserted with. The rows of `outbox` are in the order of their ids. -/
structure Database where
  categories : List CategoryRow := []
  products : List ProductRow := []
  variants : List VariantRow := []
  history : List PriceChange := []
  outbox : List OutboxRow := []
  collate : String → String → Bool := fun a b => decide (a ≤ b)
  inserted : String → Option Prices := fun _ => none

/-- The constraint that a statement breaks. -/
inductive Violation where
  | primaryKey | slugKey | barcodeKey | categoryKey | productKey | historyKey
  | activeNeedsCategory | negativePrice | negativeListPrice | listPriceNotBelowPrice
  deriving DecidableEq

namespace Database

def product (db : Database) (id : String) : Option ProductRow :=
  Table.find ProductRow.id db.products id

def variant (db : Database) (sku : String) : Option VariantRow :=
  Table.find VariantRow.sku db.variants sku

/-- What the category calls see of the tables. -/
def tree (db : Database) : Catalog.Database where
  categories := db.categories
  products := db.products.map fun row => ⟨row.categoryId, row.status⟩

/-- The category path of the join, and the empty array where there is no category. -/
def pathOf (db : Database) (categoryId : Option String) : List String :=
  ((categoryId.bind fun id => db.categories.find? fun c => c.id = id).map fun c => c.path).getD []

def arrange (db : Database) (rows : List VariantRow) : List VariantRow :=
  rows.insertionSort fun v w =>
    v.position < w.position ∨ v.position = w.position ∧ db.collate v.sku w.sku = true

def variantsOf (db : Database) (productId : String) : List VariantRow :=
  db.arrange (db.variants.filter fun row => row.productId = productId)

end Database

def VariantRow.variant (row : VariantRow) : Variant where
  sku := row.sku
  productId := row.productId
  attributes := row.attributes
  price := ⟨row.prices.price, row.prices.currency⟩
  listPrice := row.prices.listPrice.map fun amount => ⟨amount, row.prices.currency⟩
  available := row.available
  images := row.images
  barcode := row.barcode
  weightGrams := row.weightGrams
  position := row.position
  active := row.active

/-- What the join and the reducer make of the rows of a product. -/
def Database.assemble (db : Database) (row : ProductRow) : Product where
  id := row.id
  slug := row.slug
  title := row.title
  description := row.description
  brand := row.brand
  categoryId := row.categoryId
  categoryPath := db.pathOf row.categoryId
  attributes := row.attributes
  images := row.images
  status := row.status
  variants := (db.variantsOf row.id).map VariantRow.variant
  version := row.version

def Database.findById (db : Database) (id : String) : Option Product :=
  (db.product id).map db.assemble

/-- The arguments of `updateProduct`; what is null stays as it is. -/
structure Patch where
  title : Option String := none
  description : Option String := none
  brand : Option String := none
  categoryId : Option String := none
  attributes : Option Attributes := none
  images : Option (List Image) := none
  status : Option ProductStatus := none

def ProductRow.patched (row : ProductRow) (patch : Patch) : ProductRow :=
  { row with
    title := patch.title.getD row.title
    description := patch.description.getD row.description
    brand := patch.brand <|> row.brand
    categoryId := patch.categoryId <|> row.categoryId
    attributes := patch.attributes.getD row.attributes
    images := patch.images.getD row.images
    status := patch.status.getD row.status
    version := row.version + 1 }

def ProductRow.archived (row : ProductRow) : ProductRow :=
  { row with status := .archived, version := row.version + 1 }

def Variant.row (variant : Variant) : VariantRow where
  sku := variant.sku
  productId := variant.productId
  attributes := variant.attributes
  images := variant.images
  prices :=
    { price := variant.price.amount
      listPrice := variant.listPrice.map fun money => money.amount
      currency := variant.price.currency }
  barcode := variant.barcode
  weightGrams := variant.weightGrams
  position := variant.position
  active := variant.active

/-- The `DO UPDATE` keeps the product and the availability. -/
def VariantRow.replacedBy (row excluded : VariantRow) : VariantRow :=
  { excluded with sku := row.sku, productId := row.productId, available := row.available }

/-- `record_price_change`, for a transaction with these settings. -/
def recordPriceChange (old new : VariantRow) (actor reason : String) (id : ID) :
    Option PriceChange :=
  if old.prices.price ≠ new.prices.price ∨ old.prices.listPrice ≠ new.prices.listPrice then
    some
      { id := id
        sku := new.sku
        oldPrice := old.prices.price
        newPrice := new.prices.price
        oldListPrice := old.prices.listPrice
        newListPrice := new.prices.listPrice
        currency := new.prices.currency
        changedBy := if actor = "" then "system" else actor
        reason := if reason = "" then none else some reason }
  else none

namespace Database

/-- The first constraint on the columns of a price that is broken. -/
def mispriced (prices : Prices) : Option Violation :=
  if prices.price < 0 then some .negativePrice
  else if prices.listPrice.any fun amount => decide (amount < 0) then some .negativeListPrice
  else if prices.listPrice.any fun amount => decide (amount < prices.price) then
    some .listPriceNotBelowPrice
  else none

def barcodeTaken (db : Database) (row : VariantRow) : Bool :=
  row.barcode.isSome && db.variants.any fun other =>
    other.sku ≠ row.sku && other.barcode = row.barcode

/-- The constraint that a version of a product breaks. -/
def misfiled (db : Database) (row : ProductRow) : Option Violation :=
  if row.status = .active ∧ row.categoryId = none then some .activeNeedsCategory
  else if row.categoryId.any fun id => db.categories.all fun c => c.id ≠ id then some .categoryKey
  else none

def insertProduct (db : Database) (row : ProductRow) : Except Violation Unit :=
  if (db.product row.id).isSome then .error .primaryKey
  else if db.products.any fun other => other.slug = row.slug then .error .slugKey
  else (db.misfiled row).elim (.ok ()) .error

/-- The version of a product after an update, unless there is none to update. -/
def updated (db : Database) (id : String) (expectedVersion : Nat) (patch : Patch) :
    Option ProductRow :=
  ((db.product id).filter fun row => row.version = expectedVersion).map fun row =>
    row.patched patch

/-- A new version of a variant and the row of the trigger, whose id the sequence gives. -/
def updateVariant (db : Database) (old new : VariantRow) (actor reason : String) (id : ID) :
    Except Violation (VariantRow × Option PriceChange) :=
  let change := recordPriceChange old new actor reason id
  match mispriced new.prices with
  | some violated => .error violated
  | none =>
    if db.barcodeTaken new then .error .barcodeKey
    else if change.isSome && db.history.any fun other => decide (id ≤ other.id) then
      .error .historyKey
    else .ok (new, change)

/-- `INSERT … ON CONFLICT (sku) DO UPDATE`. -/
def upsertVariant (db : Database) (variant : Variant) (id : ID) :
    Except Violation (VariantRow × Option PriceChange) :=
  match mispriced variant.row.prices with
  | some violated => .error violated
  | none =>
    match db.variant variant.sku with
    | some old => db.updateVariant old (old.replacedBy variant.row) "" "" id
    | none =>
      if db.barcodeTaken variant.row then .error .barcodeKey
      else if (db.product variant.productId).isNone then .error .productKey
      else .ok (variant.row, none)

/-- The `UPDATE` of `changePrice`; `none` where there is no such variant. -/
def changePrice (db : Database) (sku : String) (prices : Prices) (actor reason : String) (id : ID) :
    Except Violation (Option (VariantRow × Option PriceChange)) :=
  match db.variant sku with
  | none => .ok none
  | some old => (db.updateVariant old { old with prices := prices } actor reason id).map some

end Database

theorem updateVariant_ok {db : Database} {old new : VariantRow} {actor reason : String} {id : ID}
    {version : VariantRow × Option PriceChange}
    (accepted : db.updateVariant old new actor reason id = .ok version) :
    version = (new, recordPriceChange old new actor reason id) ∧
      ∀ change ∈ version.2, ∀ other ∈ db.history, other.id < id := by
  unfold Database.updateVariant at accepted
  cases priced : Database.mispriced new.prices with
  | some violated => simp [priced] at accepted
  | none =>
    simp only [priced] at accepted
    split at accepted
    · cases accepted
    · split at accepted
      · cases accepted
      · rename_i drawn
        cases accepted
        refine ⟨rfl, fun change now other member => ?_⟩
        have some' : (recordPriceChange old new actor reason id).isSome = true := by
          rw [show recordPriceChange old new actor reason id = some change from now]
          rfl
        simp only [some', Bool.true_and, List.any_eq_true, decide_eq_true_eq, not_exists,
          not_and, not_le] at drawn
        exact drawn other member

theorem recordPriceChange_id {old new : VariantRow} {actor reason : String} {id : ID}
    {change : PriceChange} (recorded : change ∈ recordPriceChange old new actor reason id) :
    change.id = id := by
  unfold recordPriceChange at recorded
  split at recorded
  · cases recorded
    rfl
  · cases recorded

/-- A statement of the repository. -/
inductive Stmt where
  | findCategory (slug : String)
  | slugExists (slug : String)
  | insertProduct (row : ProductRow)
  | updateProduct (id : String) (expectedVersion : Nat) (patch : Patch)
  | productExists (id : String)
  | findById (id : String)
  | upsertVariant (variant : Variant) (change : ID)
  /-- `SELECT … FOR UPDATE`. -/
  | lockVariant (sku : String)
  /-- The `UPDATE` of a price, with the settings made before it. -/
  | changePrice (sku : String) (prices : Prices) (actor reason : String) (change : ID)
  | archive (id : String)
  | enqueue (row : OutboxRow)

/-- The new version of a row, or a new row. -/
inductive Write where
  | product (row : ProductRow)
  | variant (row : VariantRow)
  | change (row : PriceChange)
  | enqueue (row : OutboxRow)

/-- What a transaction locks. -/
inductive Key where
  | product (id : String)
  | variant (sku : String)
  | barcode (text : String)
  deriving DecidableEq

def Stmt.Answer : Stmt → Type
  | .findCategory _ => Option Category
  | .slugExists _ | .productExists _ => Bool
  | .insertProduct _ | .upsertVariant .. | .changePrice .. => Except Violation Unit
  | .updateProduct .. => Except Violation Nat
  | .findById _ => Option Product
  | .lockVariant _ => Option Money
  | .archive _ => Nat
  | .enqueue _ => Unit

def Stmt.answer : (q : Stmt) → Database → q.Answer
  | .findCategory slug, db => (db.categories.find? fun c => c.slug = slug).map db.tree.category
  | .slugExists slug, db => db.products.any fun row => row.slug = slug
  | .insertProduct row, db => db.insertProduct row
  | .updateProduct id expectedVersion patch, db =>
    match db.updated id expectedVersion patch with
    | none => .ok (0 : Nat)
    | some row => (db.misfiled row).elim (.ok (1 : Nat)) .error
  | .productExists id, db => (db.product id).isSome
  | .findById id, db => db.findById id
  | .upsertVariant variant change, db => (db.upsertVariant variant change).map fun _ => ()
  | .lockVariant sku, db => (db.variant sku).map fun row => ⟨row.prices.price, row.prices.currency⟩
  | .changePrice sku prices actor reason change, db =>
    (db.changePrice sku prices actor reason change).map fun _ => ()
  | .archive id, db =>
    if (db.product id).any fun row => row.status ≠ .archived then (1 : Nat) else (0 : Nat)
  | .enqueue _, _ => ()

def versionWrites (version : VariantRow × Option PriceChange) : List Write :=
  .variant version.1 :: (version.2.map Write.change).toList

def Stmt.writes : Stmt → Database → List Write
  | .insertProduct row, db =>
    match db.insertProduct row with
    | .ok () => [.product row]
    | .error _ => []
  | .updateProduct id expectedVersion patch, db =>
    match db.updated id expectedVersion patch with
    | none => []
    | some row => if db.misfiled row = none then [.product row] else []
  | .upsertVariant variant change, db =>
    match db.upsertVariant variant change with
    | .ok version => versionWrites version
    | .error _ => []
  | .changePrice sku prices actor reason change, db =>
    match db.changePrice sku prices actor reason change with
    | .ok (some version) => versionWrites version
    | _ => []
  | .archive id, db =>
    match (db.product id).filter fun row => row.status ≠ .archived with
    | none => []
    | some row => [.product row.archived]
  | .enqueue row, _ => [.enqueue row]
  | .findCategory _, _ | .slugExists _, _ | .productExists _, _ | .findById _, _
  | .lockVariant _, _ => []

def Write.put : Write → Database → Database
  | .product row, db => { db with products := Table.upsert ProductRow.id row db.products }
  | .variant row, db =>
    let first := if (db.variant row.sku).isSome then db.inserted
      else Function.update db.inserted row.sku (some row.prices)
    { db with variants := Table.upsert VariantRow.sku row db.variants, inserted := first }
  | .change row, db => { db with history := db.history ++ [row] }
  | .enqueue row, db => { db with outbox := db.outbox ++ [row] }

/-- The rows and the index entries that a statement locks. -/
def Stmt.keys : Stmt → Database → List Key
  | .insertProduct row, _ => [.product row.id]
  | .updateProduct id _ _, db | .archive id, db =>
    if (db.product id).isSome then [.product id] else []
  | .upsertVariant variant _, _ => .variant variant.sku :: (variant.barcode.map Key.barcode).toList
  | .lockVariant sku, db | .changePrice sku _ _ _ _, db =>
    if (db.variant sku).isSome then [.variant sku] else []
  | .findCategory _, _ | .slugExists _, _ | .productExists _, _ | .findById _, _
  | .enqueue _, _ => []

/-- The statements against the tables. -/
def dialect : Dialect where
  Db := Database
  Stmt := Stmt
  Answer := Stmt.Answer
  Write := Write
  Key := Key
  answer := Stmt.answer
  writes := Stmt.writes
  put := Write.put
  keys := Stmt.keys
  skip := fun _ => none

instance : DecidableEq dialect.Key := inferInstanceAs (DecidableEq Key)

/-- What a call throws. -/
inductive Failure where
  | notFound (what : String)
  | invalid (problems : List String)
  | staleVersion (productId : String) (presented : Nat)
  | dataIntegrityViolation (violated : Violation)
  | dataAccess (message : String)
  deriving DecidableEq

abbrev Call := Program dialect Failure

def statement (q : Stmt) : Call q.Answer := Program.stmt (D := dialect) q

def refusable {α : Type} (outcome : Except Violation α) : Call α :=
  match outcome with
  | .ok a => return a
  | .error violated => .fail (.dataIntegrityViolation violated)

def orNotFound {α : Type} (what : String) : Option α → Call α
  | none => .fail (.notFound (what ++ " does not exist"))
  | some a => return a

def unlessInvalid (problems : List String) : Call Unit :=
  if problems = [] then return () else .fail (.invalid problems)

def enqueue (row : OutboxRow) : Call Unit := do
  let _ : Unit ← statement (.enqueue row)
  return ()

end Souq.Catalog.Products
