import Mathlib.Algebra.GroupWithZero.Nat
import Souq.Catalog.Products

/-!
# The methods of the product service

Each is one transaction with the database write and the outbox rows. What Java's libraries
and `Slugs.from` make of texts is a parameter, and the ids are drawn by the caller.
-/

namespace Souq.Catalog.Products

open Transact

/-- What is read of a URI. -/
structure Uri where
  scheme : Option String
  host : Option String

/-- What the service asks of its platform and its configuration. -/
structure Platform where
  isBlank : String → Bool
  /-- `URI.create`; `none` where it throws. -/
  uri : String → Option Uri
  /-- `Slugs.from`. -/
  slug : String → Option String
  allowedImageHosts : List String
  /-- The `stringtype` of the driver, on which category moves depend. -/
  strings : StringType := .varchar

def javaLength (text : String) : Nat :=
  (text.toList.map fun c => if c.toNat < 0x10000 then 1 else 2).sum

/-- `^[a-z][a-z0-9_]{0,39}$` -/
def attributeKey (key : String) : Bool :=
  match key.toList with
  | [] => false
  | first :: rest => first.isLower && decide (rest.length ≤ 39) &&
      rest.all fun c => c.isLower || c.isDigit || c = '_'

/-- The body that describes a variant. -/
structure NewVariant where
  attributes : Option Attributes := none
  price : Int
  listPrice : Option Int := none
  currency : Currency
  barcode : Option String := none
  weightGrams : Option Int := none
  position : Int := 0
  active : Bool := true

namespace Platform

def validateAttribute (platform : Platform) (key : String) (value : Option String) : List String :=
  (if platform.isBlank key then ["an attribute key is blank"]
  else if attributeKey key then []
  else ["attribute key '" ++ key ++ "' must be lowercase letters, digits and underscores"]) ++
  (if value.any fun text => decide (500 < javaLength text) then
    ["attribute '" ++ key ++ "' exceeds 500 characters"] else [])

def validateAttributes (platform : Platform) : Option Attributes → List String
  | none => []
  | some attributes =>
    (if 50 < attributes.length then
      ["at most 50 attributes are allowed, got " ++ toString attributes.length] else []) ++
    attributes.flatMap fun entry => platform.validateAttribute entry.1 entry.2

def validateImage (platform : Platform) (image : Image) : List String :=
  match image.url.filter fun url => !platform.isBlank url with
  | none => ["an image has no url"]
  | some url =>
    match platform.uri url with
    | none => ["image url '" ++ url ++ "' is not a valid URI"]
    | some uri =>
      (if uri.scheme = some "https" then [] else ["image url '" ++ url ++ "' must be https"]) ++
      (if uri.host.any fun host => host ∈ platform.allowedImageHosts then []
      else ["image host '" ++ uri.host.getD "null" ++ "' is not on the allow-list"])

def validateImages (platform : Platform) : Option (List Image) → List String
  | none => []
  | some images =>
    (if 20 < images.length then
      ["at most 20 images are allowed, got " ++ toString images.length] else []) ++
    images.flatMap platform.validateImage

def validateVariant (platform : Platform) (variant : NewVariant) : List String :=
  platform.validateAttributes variant.attributes ++
  (if variant.price < 0 then ["variant price must not be negative"] else []) ++
  (if variant.listPrice.any fun amount => decide (amount < variant.price) then
    ["a variant's reference price must not be below its selling price"] else [])

def validate (platform : Platform) (attributes : Option Attributes) (images : Option (List Image))
    (variants : List NewVariant) : List String :=
  platform.validateAttributes attributes ++ platform.validateImages images ++
    variants.flatMap platform.validateVariant

end Platform

/-- The body that describes a product. -/
structure NewProduct where
  title : String
  description : Option String := none
  brand : Option String := none
  categorySlug : Option String := none
  attributes : Option Attributes := none
  images : Option (List Image) := none
  status : Option ProductStatus := none
  variants : List (String × NewVariant) := []

/-- What `update` is called with. -/
structure Edit where
  title : Option String := none
  description : Option String := none
  brand : Option String := none
  categorySlug : Option String := none
  attributes : Option Attributes := none
  images : Option (List Image) := none
  status : Option ProductStatus := none

def NewVariant.variant (request : NewVariant) (sku productId : String) : Variant where
  sku := sku
  productId := productId
  attributes := request.attributes.getD []
  price := ⟨request.price, request.currency⟩
  listPrice := request.listPrice.map fun amount => ⟨amount, request.currency⟩
  available := none
  images := []
  barcode := request.barcode
  weightGrams := request.weightGrams
  position := request.position
  active := request.active

def Product.row (product : Product) : ProductRow where
  id := product.id
  slug := product.slug
  title := product.title
  description := product.description
  brand := product.brand
  categoryId := product.categoryId
  attributes := product.attributes
  images := product.images
  status := product.status

/-- The category of a request; a blank slug names none. -/
def findCategory (platform : Platform) (categorySlug : Option String) : Call (Option Category) :=
  match categorySlug.filter fun slug => !platform.isBlank slug with
  | none => return none
  | some slug => do
    let category ← orNotFound ("category " ++ slug) (← statement (.findCategory slug))
    return some category

def firstFree (otherwise : String) : List String → Call String
  | [] => return otherwise
  | candidate :: rest => do
    let taken : Bool ← statement (.slugExists candidate)
    if taken then firstFree otherwise rest else return candidate

/-- `Slugs.uniqueFrom`: the slug of the title, with a number from 2 to 50, or with the id. -/
def uniqueFrom (slug : Option String) (fallbackId : String) : Call String :=
  match slug with
  | none => return fallbackId.toLower
  | some base =>
    firstFree (base ++ "-" ++ fallbackId.toLower)
      (base :: (List.range' 2 49).map fun suffix => base ++ "-" ++ toString suffix)

def NewProduct.product (request : NewProduct) (id slug : String) (category : Option Category) :
    Product where
  id := id
  slug := slug
  title := request.title
  description := request.description.getD ""
  brand := request.brand
  categoryId := category.map fun c => c.id
  categoryPath := (category.map fun c => c.path).getD []
  attributes := request.attributes.getD []
  images := request.images.getD []
  status := request.status.getD .draft
  variants := []
  version := 0

def NewProduct.created (request : NewProduct) (id : String) : List Variant :=
  request.variants.map fun v => v.2.variant v.1 id

/-- `upsertVariant` of the repository. -/
def putVariant (change : ID) (variant : Variant) : Call Unit := do
  refusable (← statement (.upsertVariant variant change))

/-- A product and its variants in one transaction, announced at its end. -/
def create (platform : Platform) (request : NewProduct) (id : String) (change : ID) :
    Call Product := do
  unlessInvalid (platform.validate request.attributes request.images
    (request.variants.map fun v => v.2))
  let category ← findCategory platform request.categorySlug
  let slug ← uniqueFrom (platform.slug request.title) id
  let product := request.product id slug category
  refusable (← statement (.insertProduct product.row))
  let created := request.created id
  Program.forEach (putVariant change) created
  let complete := { product with variants := created }
  enqueue (productUpserted complete)
  return complete

def Edit.patch (edit : Edit) (category : Option Category) : Patch where
  title := edit.title
  description := edit.description
  brand := edit.brand
  categoryId := category.map fun c => c.id
  attributes := edit.attributes
  images := edit.images
  status := edit.status

/-- `updateProduct` of the repository: no row means no such product or the wrong version. -/
def updateProduct (id : String) (expectedVersion : Nat) (patch : Patch) : Call Nat := do
  let updated : Nat ← refusable (← statement (.updateProduct id expectedVersion patch))
  if updated = 0 then do
    let exists' : Bool ← statement (.productExists id)
    if exists' then .fail (.staleVersion id expectedVersion) else return updated
  else return updated

def findProduct (id : String) : Call Product := do
  orNotFound ("product " ++ id) (← statement (.findById id))

def update (platform : Platform) (id : String) (expectedVersion : Nat) (edit : Edit) :
    Call Product := do
  unlessInvalid (platform.validate edit.attributes edit.images [])
  let category ← findCategory platform edit.categorySlug
  let updated ← updateProduct id expectedVersion (edit.patch category)
  if updated = 0 then .fail (.notFound ("product " ++ id ++ " does not exist")) else do
    let product ← findProduct id
    enqueue (productUpserted product)
    return product

/-- `SELECT set_config` by way of `jdbc.update`. The statement answers with a row, and
`executeUpdate` throws when it does. -/
def setConfig (_setting _value : String) : Call Unit :=
  .fail (.dataAccess "A result was returned when none was expected.")

/-- `changePrice` of the repository: the previous price, and the row locked before it is
read. The settings for the trigger come first, so the `UPDATE` is never sent. -/
def repriceVariant (sku : String) (prices : Prices) (changedBy reason : Option String)
    (change : ID) : Call (Option Money) := do
  let previous : Option Money ← statement (.lockVariant sku)
  match previous with
  | none => return none
  | some money => do
    setConfig "souq.actor" (changedBy.getD "system")
    setConfig "souq.reason" (reason.getD "")
    refusable (← statement (.changePrice sku prices (changedBy.getD "system") (reason.getD "")
      change))
    return some money

def priceProblems (prices : Prices) : List String :=
  if prices.price < 0 then ["price must not be negative"]
  else if prices.listPrice.any fun amount => decide (amount < prices.price) then
    ["the reference price must not be below the selling price"]
  else []

def changePrice (productId sku : String) (prices : Prices) (changedBy reason : Option String)
    (change : ID) : Call Product := do
  unlessInvalid (priceProblems prices)
  let oldPrice ← orNotFound ("variant " ++ sku)
      (← repriceVariant sku prices changedBy reason change)
  let product ← findProduct productId
  enqueue (priceChanged productId sku oldPrice ⟨prices.price, prices.currency⟩)
  enqueue (productUpserted product)
  return product

def upsertVariant (productId sku : String) (request : NewVariant) (change : ID) :
    Call Product := do
  let product ← findProduct productId
  putVariant change (request.variant sku productId)
  let found : Option Product ← statement (.findById productId)
  let refreshed := found.getD product
  enqueue (productUpserted refreshed)
  return refreshed

def archive (id : String) : Call Unit := do
  let archived : Nat ← statement (.archive id)
  if archived = 0 then .fail (.notFound ("product " ++ id ++ " does not exist")) else do
    enqueue (productDeleted id)
    enqueue (tombstone id)

end Souq.Catalog.Products
