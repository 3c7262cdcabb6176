import Mathlib.Logic.Function.Basic
import Souq.Lib.Rounding

/-!
# The search index

`handle_message` of search-service makes at most one request to Elasticsearch for a
message: it replaces a document, deletes one, or updates the stock figures of the
documents of a SKU. The update finds documents by a search, and a search sees the index
as it was at the last refresh; a document that was written since is a version conflict,
and with `conflicts="proceed"` it is passed over.
-/

namespace Souq.Search

open Rounding

/-- A field of a JSON object. -/
inductive Field (α : Type) where
  | missing
  | null
  | value (a : α)
  deriving DecidableEq

/-- `dict.get(key, default)`. -/
def Field.get {α : Type} (default : α) : Field α → Option α
  | .missing => some default
  | .null => none
  | .value a => some a

/-- `dict.get(key)`. -/
def Field.get? {α : Type} : Field α → Option α
  | .missing | .null => none
  | .value a => some a

structure MoneyData where
  amount : Option Int := none
  currency : Option String := none

structure ImageData where
  url : Field String := .missing

/-- The `data` of an envelope, with every key that `handle_message` reads. -/
structure Data where
  productId : Option String := none
  sku : Option String := none
  slug : Field String := .missing
  title : Field String := .missing
  description : Field String := .missing
  brand : Field String := .missing
  categoryPath : Field (List String) := .missing
  attributes : Field (List (String × Option String)) := .missing
  price : Field MoneyData := .missing
  listPrice : Field MoneyData := .missing
  inStock : Field Bool := .missing
  availableQuantity : Field Int := .missing
  rating : Field ℚ := .missing
  ratingCount : Field Int := .missing
  popularity30d : Field ℚ := .missing
  conversionRate : Field ℚ := .missing
  status : Field String := .missing
  images : Field (List ImageData) := .missing
  createdAt : Field String := .missing
  updatedAt : Field String := .missing
  available : Field Int := .missing

/-- An event, as it was parsed. -/
structure Envelope where
  type : Field String := .missing
  data : Field Data := .missing

/-- The value of a Kafka message. A compaction tombstone has none. -/
inductive Raw where
  | none
  | malformed
  | json (envelope : Envelope)

/-- A record of a topic. -/
structure Message where
  topic : String
  raw : Raw
  offset : Nat

/-- The exceptions that `handle_message` raises by itself. -/
inductive Raised where
  | jsonDecodeError
  | typeError
  | attributeError
  | keyError (key : String)

/-- The stock figures of a document. -/
structure Stock where
  inStock : Option Bool
  availableQuantity : Option Int
  deriving DecidableEq

/-- A document of the index. -/
structure Document where
  productId : String
  sku : String
  slug : Option String
  title : Option String
  description : Option String
  brand : Option String
  categoryPath : String
  categoryHierarchy : List String
  attributes : Option (List (String × Option String))
  price : Int
  listPrice : Option Int
  currency : String
  discountBasisPoints : Int
  stock : Stock
  rating : Option ℚ
  ratingCount : Option Int
  popularity30d : Option ℚ
  conversionRate : Option ℚ
  status : Option String
  image : Option String
  createdAt : Option String
  updatedAt : Option String
  sourceOffset : Nat
  mappingFingerprint : String

def mappingFingerprint : String := "2026-08-arabic-folded-v3"

/-- Python's `round`: to the nearest number, and to the even one of two. -/
def round (x : ℚ) : Int :=
  let rest := x - ⌊x⌋
  if rest < 1 / 2 ∨ rest = 1 / 2 ∧ ⌊x⌋ % 2 = 0 then ⌊x⌋ else ⌊x⌋ + 1

/-- The quotient is a floating-point number before it is rounded. -/
def discountBasisPoints (price : Int) (listPrice : Option Int) : Int :=
  match listPrice with
  | none => 0
  | some listPrice =>
    if listPrice ≠ 0 ∧ listPrice > price ∧ price > 0 then
      round (nearest (((listPrice - price) * 10000 : Int) / listPrice))
    else 0

/-- `product[key]`. -/
def require (key : String) : Option String → Except Raised String
  | some text => .ok text
  | none => .error (.keyError key)

/-- `product.get("price", {})`, which is about to be asked for a key. -/
def priceOf (product : Data) : Except Raised MoneyData :=
  match product.price with
  | .missing => .ok {}
  | .null => .error .attributeError
  | .value price => .ok price

def buildDocument (product : Data) (offset : Nat) : Except Raised Document := do
  let money ← priceOf product
  let price := money.amount.getD 0
  let listPrice := (product.listPrice.get?.getD {}).amount
  let path := (product.categoryPath.get?).getD []
  let productId ← require "productId" product.productId
  let sku ← require "sku" product.sku
  return {
    productId := productId
    sku := sku
    slug := product.slug.get productId
    title := product.title.get ""
    description := product.description.get ""
    brand := product.brand.get?
    categoryPath := " ".intercalate path
    categoryHierarchy := (List.range path.length).map fun i => "/".intercalate (path.take (i + 1))
    attributes := product.attributes.get []
    price := price
    listPrice := listPrice
    currency := money.currency.getD "EGP"
    discountBasisPoints := discountBasisPoints price listPrice
    stock := ⟨product.inStock.get true, product.availableQuantity.get 0⟩
    rating := product.rating.get?
    ratingCount := product.ratingCount.get 0
    popularity30d := product.popularity30d.get 0
    conversionRate := product.conversionRate.get 0
    status := product.status.get "ACTIVE"
    image := (product.images.get?.getD []).head?.bind fun image => image.url.get?
    createdAt := product.createdAt.get?
    updatedAt := product.updatedAt.get?
    sourceOffset := offset
    mappingFingerprint := mappingFingerprint }

/-- A document and the sequence number of the operation that wrote it. -/
structure Stored where
  doc : Document
  seqNo : Nat

/-- An index, and what its searches see. -/
structure Index where
  docs : String → Option Stored := fun _ => none
  /-- What a search sees. -/
  searchable : String → Option Stored := fun _ => none
  nextSeqNo : Nat := 0

/-- What a message asks for. The offset of a deletion is not part of its request. -/
inductive Change where
  | upserted (doc : Document)
  | deleted (productId : String) (offset : Nat)
  | stockChanged (sku : String) (stock : Stock)
  | stale

namespace Index

def index (es : Index) (id : String) (doc : Document) : Index :=
  { es with
    docs := Function.update es.docs id (some ⟨doc, es.nextSeqNo⟩)
    nextSeqNo := es.nextSeqNo + 1 }

/-- Deletes a document; `NotFoundError` is caught. -/
def delete (es : Index) (id : String) : Index :=
  { es with docs := Function.update es.docs id none, nextSeqNo := es.nextSeqNo + 1 }

/-- The search has found a document, and it was not written since. -/
def unconflicted (es : Index) (id : String) : Bool :=
  match es.searchable id, es.docs id with
  | some found, some live => decide (found.seqNo = live.seqNo)
  | _, _ => false

/-- The script on the documents of a SKU that the search finds. -/
def updateByQuery (es : Index) (sku : String) (stock : Stock) : Index :=
  { es with
    docs := fun id =>
      match es.searchable id with
      | some found =>
        if found.doc.sku = sku ∧ es.unconflicted id = true then
          some ⟨{ found.doc with stock := stock }, es.nextSeqNo⟩
        else es.docs id
      | none => es.docs id
    nextSeqNo := es.nextSeqNo + 1 }

def refresh (es : Index) : Index := { es with searchable := es.docs }

def exec (es : Index) : Change → Index
  | .upserted doc => es.index doc.productId doc
  | .deleted productId _ => es.delete productId
  | .stockChanged sku stock => es.updateByQuery sku stock
  | .stale => es

end Index

/-- What `handle_message` makes of a message before it sends the request. -/
def route (message : Message) : Except Raised Change :=
  match message.raw with
  | .none => .error .typeError
  | .malformed => .error .jsonDecodeError
  | .json envelope => do
    let data := envelope.data.get?.getD {}
    if envelope.type = .value "souq.catalog.product_upserted.v1" then
      return .upserted (← buildDocument data message.offset)
    else if envelope.type = .value "souq.catalog.product_deleted.v1" then
      return .deleted (← require "productId" data.productId) message.offset
    else if envelope.type = .value "souq.inventory.stock_changed.v1" then
      let sku ← require "sku" data.sku
      match data.available.get 0 with
      | some available => return .stockChanged sku ⟨some (decide (available > 0)), some available⟩
      | none => throw .typeError
    else return .stale

def handleMessage (message : Message) (es : Index) : Except Raised Index :=
  (route message).map es.exec

end Souq.Search
