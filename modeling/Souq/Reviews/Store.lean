import Mathlib.Algebra.BigOperators.Fin
import Mathlib.Algebra.Order.Floor.Defs
import Mathlib.Data.Rat.Floor
import Souq.Json
import Souq.Lib.Table

/-!
# The review-service database

The collections of review-service and the operations of `ReviewsRepository` on them. An
operation on one document is atomic, and that is all that MongoDB promises here:
`moderate` is a sequence of such operations.
-/

namespace Souq.Reviews

open Function

/-- The status of a review. -/
inductive ReviewStatus where
  | pendingModeration
  | published
  | rejected
  deriving DecidableEq

/-- One to five stars. -/
structure Rating where
  stars : Nat
  least : 1 ≤ stars
  most : stars ≤ 5

/-- Five stars. -/
def Rating.best : Rating := ⟨5, by decide, by decide⟩

/-- A review as it is submitted. -/
structure Submission where
  id : String
  productId : String
  userId : String
  authorName : String
  rating : Rating
  title : String
  body : String
  images : List String
  locale : String

/-- A review as it is stored. -/
structure Review extends Submission where
  verifiedPurchase : Bool
  helpfulCount : Nat := 0
  status : ReviewStatus
  autoFlags : List String
  reason : Option String := none
  moderatedBy : Option String := none
  moderatedAt : Option Time := none
  createdAt : Time
  updatedAt : Time

/-- The `distribution` of a summary: an array, or the document with the bucket numbers as
keys that `$inc` leaves where there was no field. -/
inductive Histogram where
  | array (counts : Fin 5 → Int)
  | document (counts : Fin 5 → Option Int)

/-- A document of `rating_summaries`. Nothing makes a field be there. -/
structure RatingSummary where
  average : Option ℚ := none
  count : Option Int := none
  distribution : Option Histogram := none
  verifiedCount : Option Int := none
  updatedAt : Option Time := none

/-- A projection of a confirmed order. The consumer takes its fields from the message as
they are. -/
structure PurchaseRecord where
  id : String
  userId : Json
  productId : Json
  orderId : Json
  purchasedAt : Time

/-- The collections of the service. -/
structure Database where
  reviews : List Review := []
  summaries : String → Option RatingSummary := fun _ => none
  purchases : List PurchaseRecord := []

/-- The bucket of a star rating; `none` is a `RangeError`. -/
def bucketFor (rating : Int) : Option (Fin 5) :=
  if inside : 1 ≤ rating ∧ rating ≤ 5 then some ⟨(rating - 1).toNat, by omega⟩ else none

def Rating.bucket (rating : Rating) : Fin 5 :=
  ⟨rating.stars - 1, by have := rating.least; have := rating.most; omega⟩

theorem bucketFor_stars (rating : Rating) : bucketFor rating.stars = some rating.bucket := by
  have least := rating.least
  have most := rating.most
  unfold bucketFor
  rw [dif_pos (by omega)]
  refine congrArg some (Fin.ext ?_)
  simp only [Rating.bucket]
  omega

/-- `Math.round(value * 10) / 10`. -/
def roundTenth (value : ℚ) : ℚ := (⌊value * 10 + 1 / 2⌋ : ℤ) / 10

def total (counts : Fin 5 → Int) : Int := ∑ b, counts b

def weighted (counts : Fin 5 → Int) : Int := ∑ b, counts b * (b + 1)

def summarise (counts : Fin 5 → Int) : ℚ × Int :=
  if total counts = 0 then (0, 0)
  else (roundTenth (weighted counts / total counts), total counts)

def emptyDistribution : Fin 5 → Int := fun _ => 0

/-- A document has no `reduce`. -/
def Histogram.counts? : Histogram → Option (Fin 5 → Int)
  | .array counts => some counts
  | .document _ => none

/-- `$inc` of a bucket; where there is no field, it creates a document. -/
def Histogram.inc (bucket : Fin 5) (delta : Int) : Option Histogram → Histogram
  | some (.array counts) => .array (update counts bucket (counts bucket + delta))
  | some (.document counts) =>
    .document (update counts bucket (some ((counts bucket).getD 0 + delta)))
  | none => .document (update (fun _ => none) bucket (some delta))

/-- The reviews that the index `one_review_per_user_per_product` is about. -/
def Review.indexed (review : Review) : Bool := review.status ≠ .rejected

def clashes (review : Review) (others : List Review) : Bool :=
  review.indexed && others.any fun other => other.id ≠ review.id && other.indexed &&
    other.productId = review.productId && other.userId = review.userId

/-- What a moderator decides. -/
inductive Decision where
  | published
  | rejected
  deriving DecidableEq

def Decision.status : Decision → ReviewStatus
  | .published => .published
  | .rejected => .rejected

/-- The arguments of `moderate`, with the reading of the clock. -/
structure Moderation where
  reviewId : String
  decision : Decision
  moderatedBy : String
  reason : Option String := none
  now : Time

/-- The document after the `$set` of a decision. -/
def Review.decided (review : Review) (call : Moderation) : Review :=
  { review with
    status := call.decision.status
    updatedAt := call.now
    moderatedBy := some call.moderatedBy
    moderatedAt := some call.now
    reason := (call.reason.filter fun text => text ≠ "") <|> review.reason }

namespace Database

def findReview (db : Database) (id : String) : Option Review :=
  Table.find (fun review => review.id) db.reviews id

/-- `insertOne`; `false` for a violation of a unique index. -/
def insertReview (db : Database) (review : Review) : Database × Bool :=
  if db.reviews.any (fun other => other.id = review.id) || clashes review db.reviews then
    (db, false)
  else ({ db with reviews := db.reviews ++ [review] }, true)

def decided (db : Database) (call : Moderation) : Database :=
  let decide := fun review : Review => review.decided call
  { db with reviews := Table.update (fun review => review.id) call.reviewId decide db.reviews }

/-- `updateOne` with the status of a decision; `false` for a violation of a unique index. -/
def setStatus (db : Database) (call : Moderation) : Database × Bool :=
  match db.findReview call.reviewId with
  | none => (db, true)
  | some review =>
    if clashes (review.decided call) db.reviews then (db, false) else (db.decided call, true)

/-- The `$inc` of `applyRatingDelta`, an upsert. -/
def increment (db : Database) (productId : String) (bucket : Fin 5) (delta : Int)
    (verified : Bool) (now : Time) : Database :=
  let summary := (db.summaries productId).getD {}
  let after : RatingSummary :=
    { summary with
      distribution := some (Histogram.inc bucket delta summary.distribution)
      count := some (summary.count.getD 0 + delta)
      verifiedCount :=
        if verified then some (summary.verifiedCount.getD 0 + delta) else summary.verifiedCount
      updatedAt := some now }
  { db with summaries := update db.summaries productId (some after) }

/-- The `$set` of the figures that are derived from the histogram. -/
def overwrite (db : Database) (productId : String) (average : ℚ) (count : Int) : Database :=
  match db.summaries productId with
  | none => db
  | some summary =>
    let after := { summary with average := some average, count := some count }
    { db with summaries := update db.summaries productId (some after) }

end Database

/-- What `moderate` throws. -/
inductive Err where
  | reviewNotFound (id : String)
  | duplicateKey
  | range
  | type

/-- Where a call of `moderate` is: the operation that comes next, or the end. -/
inductive Phase where
  | reading (call : Moderation)
  | writing (before : Review) (call : Moderation)
  | incrementing (before : Review) (delta : Int) (now : Time)
  | rereading (productId : String)
  | overwriting (productId : String) (average : ℚ) (count : Int)
  | returned
  | threw (err : Err)

def Phase.over : Phase → Bool
  | .returned | .threw _ => true
  | _ => false

/-- After the status is written: publishing adds to the aggregate, and un-publishing
removes from it. -/
def afterWrite (before : Review) (call : Moderation) : Phase :=
  let wasCounted := decide (before.status = .published)
  let nowCounted := decide (call.decision = .published)
  if wasCounted = nowCounted then .returned
  else .incrementing before (if nowCounted then 1 else -1) call.now

def afterReread (productId : String) : Option RatingSummary → Phase
  | none => .returned
  | some summary =>
    match (summary.distribution.getD (.array emptyDistribution)).counts? with
    | none => .threw .type
    | some counts => .overwriting productId (summarise counts).1 (summarise counts).2

def Database.advance (db : Database) : Phase → Database × Phase
  | .reading call =>
    match db.findReview call.reviewId with
    | none => (db, .threw (.reviewNotFound call.reviewId))
    | some before =>
      if before.status = call.decision.status then (db, .returned)
      else (db, .writing before call)
  | .writing before call =>
    match db.setStatus call with
    | (after, true) => (after, afterWrite before call)
    | (after, false) => (after, .threw .duplicateKey)
  | .incrementing before delta now =>
    match bucketFor before.rating.stars with
    | none => (db, .threw .range)
    | some bucket =>
      (db.increment before.productId bucket delta before.verifiedPurchase now,
        .rereading before.productId)
  | .rereading productId => (db, afterReread productId (db.summaries productId))
  | .overwriting productId average count => (db.overwrite productId average count, .returned)
  | .returned => (db, .returned)
  | .threw err => (db, .threw err)

/-- Publish or reject, and update the aggregate: the five operations with nothing between
them. -/
def Database.moderate (db : Database) (call : Moderation) : Database × Phase :=
  Nat.iterate (fun s => s.1.advance s.2) 5 (db, .reading call)

def purchaseKey (digest : String → String) (userId productId : String) : String :=
  digest (userId ++ ":" ++ productId)

/-- An upsert that sets fields on an insert only. -/
def recordPurchase (digest : String → String) (now : Time) (userId productId orderId : Json)
    (purchases : List PurchaseRecord) : List PurchaseRecord :=
  let key := purchaseKey digest userId.text productId.text
  if purchases.any fun record => record.id = key then purchases
  else
    purchases ++ [{ id := key, userId := userId, productId := productId, orderId := orderId,
                    purchasedAt := now }]

/-- The user has bought the product. -/
def hasPurchased (digest : String → String) (userId productId : String)
    (purchases : List PurchaseRecord) : Bool :=
  purchases.any fun record => record.id = purchaseKey digest userId productId

/-- Submit a review; `none` is a `DuplicateReview`. -/
def Database.create (db : Database) (digest : String → String) (input : Submission)
    (autoFlags : List String) (now : Time) : Database × Option Review :=
  let review : Review :=
    { input with
      verifiedPurchase := hasPurchased digest input.userId input.productId db.purchases
      status := .pendingModeration
      autoFlags := autoFlags
      createdAt := now
      updatedAt := now }
  match db.insertReview review with
  | (after, true) => (after, some review)
  | (after, false) => (after, none)

def Database.published (db : Database) (productId : String) : List Review :=
  db.reviews.filter fun review => review.productId = productId && review.status = .published

/-- The answer of the aggregation: one pair for each rating that occurs. -/
structure Facet where
  count : Nat
  verifiedCount : Nat
  buckets : List (Nat × Nat)

def Database.aggregate (db : Database) (productId : String) : Facet :=
  let reviews := db.published productId
  { count := reviews.length
    verifiedCount := reviews.countP fun review => review.verifiedPurchase
    buckets := (reviews.map fun review => review.rating.stars).dedup.map fun stars =>
      (stars, reviews.countP fun review => review.rating.stars = stars) }

def fillBuckets (buckets : List (Nat × Nat)) : Fin 5 → Int :=
  buckets.foldl (fun distribution b =>
    if inside : 1 ≤ b.1 ∧ b.1 ≤ 5 then
      update distribution ⟨b.1 - 1, by omega⟩ (b.2 : Int)
    else distribution) fun _ => 0

/-- What `rebuildSummary` computes. -/
def Database.rebuilt (db : Database) (productId : String) (now : Time) : RatingSummary :=
  let result := db.aggregate productId
  let distribution := fillBuckets result.buckets
  { average :=
      some (if 0 < total distribution then
        roundTenth (weighted distribution / total distribution) else 0)
    count := some (total distribution)
    distribution := some (.array distribution)
    verifiedCount := some result.verifiedCount
    updatedAt := some now }

def Database.rebuildSummary (db : Database) (productId : String) (now : Time) : Database :=
  { db with summaries :=
      update db.summaries productId (some (db.rebuilt productId now)) }

end Souq.Reviews
