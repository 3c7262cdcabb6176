import Mathlib.Algebra.Order.BigOperators.Group.Finset
import Mathlib.Tactic.Tauto
import Souq.Lib.Transition
import Souq.Reviews.Store

/-!
# The incremental summary and the rebuilt one

`moderate` keeps the summary of a product by increments, `rebuildSummary` counts the
published reviews. Executed one call at a time they agree, as long as a document with an
array is there to be incremented: an upsert leaves an embedded document where the array
should be, and `summarise` throws on it.
-/

namespace Souq.Reviews

open Transition Function Database

def Database.count (db : Database) (kind : Review → Bool) : Int :=
  db.reviews.countP fun review => kind review && review.status = .published

def Review.inBucket (productId : String) (bucket : Fin 5) (review : Review) : Bool :=
  review.productId = productId && review.rating.bucket = bucket

def Review.byBuyer (productId : String) (review : Review) : Bool :=
  review.productId = productId && review.verifiedPurchase

/-- The number of published reviews of a product with each rating. -/
def Database.tally (db : Database) (productId : String) : Fin 5 → Int :=
  fun bucket => db.count (Review.inBucket productId bucket)

/-- The number of published reviews of a product by buyers. -/
def Database.verified (db : Database) (productId : String) : Int :=
  db.count (Review.byBuyer productId)

/-- The figures are those of a histogram and a number of verified reviews. -/
structure RatingSummary.Shows (summary : RatingSummary) (counts : Fin 5 → Int) (verified : Int) :
    Prop where
  distribution : summary.distribution = some (.array counts)
  verifiedCount : summary.verifiedCount = some verified
  average : summary.average = some (summarise counts).1
  count : summary.count = some (summarise counts).2

theorem fillBuckets_map (keys : List Nat) (n : Nat → Nat) (bucket : Fin 5) :
    fillBuckets (keys.map fun k => (k, n k)) bucket =
      if bucket.val + 1 ∈ keys then (n (bucket.val + 1) : Int) else 0 := by
  unfold fillBuckets
  induction keys using List.reverseRecOn with
  | nil => rfl
  | append_singleton keys k ih =>
    rw [List.map_append, List.foldl_append, List.map_singleton, List.foldl_cons, List.foldl_nil]
    by_cases here : bucket.val + 1 = k
    · subst here
      have bound := bucket.isLt
      rw [dif_pos (by omega), if_pos (by simp)]
      exact update_self bucket _ _
    · have same : bucket.val + 1 ∈ keys ++ [k] ↔ bucket.val + 1 ∈ keys := by simp [here]
      rw [if_congr same rfl rfl, ← ih]
      by_cases inside : 1 ≤ k ∧ k ≤ 5
      · rw [dif_pos inside, update_of_ne]
        intro same
        rw [Fin.ext_iff] at same
        simp only at same
        omega
      · rw [dif_neg inside]

theorem stars_eq_iff (rating : Rating) (bucket : Fin 5) :
    rating.stars = bucket.val + 1 ↔ rating.bucket = bucket := by
  have least := rating.least
  simp only [Rating.bucket, Fin.ext_iff]
  omega

theorem fillBuckets_aggregate (db : Database) (productId : String) :
    fillBuckets (db.aggregate productId).buckets = db.tally productId := by
  funext bucket
  have counted : db.tally productId bucket = ((db.published productId).countP fun review =>
      review.rating.stars = bucket.val + 1 : Nat) := by
    unfold tally count published
    rw [List.countP_filter]
    refine congrArg _ (List.countP_congr fun review _ => ?_)
    simp only [Review.inBucket, stars_eq_iff, Bool.and_eq_true, decide_eq_true_eq]
    tauto
  rw [aggregate, fillBuckets_map, counted]
  by_cases occurs : bucket.val + 1 ∈
      ((db.published productId).map fun review => review.rating.stars).dedup
  · rw [if_pos occurs]
  · rw [if_neg occurs]
    refine congrArg _ (Eq.symm (List.countP_eq_zero.mpr fun review member => ?_))
    intro same
    rw [List.mem_dedup] at occurs
    exact occurs (List.mem_map.mpr ⟨review, member, of_decide_eq_true same⟩)

theorem verifiedCount_aggregate (db : Database) (productId : String) :
    ((db.aggregate productId).verifiedCount : Int) = db.verified productId := by
  change (((db.published productId).countP fun review => review.verifiedPurchase : Nat) : Int) = _
  unfold published verified count
  rw [List.countP_filter]
  refine congrArg _ (List.countP_congr fun review _ => ?_)
  simp only [Review.byBuyer, Bool.and_eq_true, decide_eq_true_eq]
  tauto

theorem rebuilt_shows (db : Database) (productId : String) (now : Time) :
    (db.rebuilt productId now).Shows (db.tally productId) (db.verified productId) := by
  have positive : 0 ≤ total (db.tally productId) :=
    Finset.sum_nonneg fun bucket _ => Int.natCast_nonneg _
  refine ⟨?_, ?_, ?_, ?_⟩
  · simp only [rebuilt, fillBuckets_aggregate]
  · simp only [rebuilt, verifiedCount_aggregate]
  · simp only [rebuilt, fillBuckets_aggregate, summarise]
    by_cases none : total (db.tally productId) = 0
    · rw [if_neg (by omega), if_pos none]
    · rw [if_pos (by omega), if_neg none]
  · simp only [rebuilt, fillBuckets_aggregate, summarise]
    by_cases none : total (db.tally productId) = 0
    · rw [if_pos none, none]
    · rw [if_neg none]

def RatingSummary.Same (summary other : RatingSummary) : Prop :=
  summary.distribution = other.distribution ∧ summary.count = other.count ∧
    summary.verifiedCount = other.verifiedCount ∧ summary.average = other.average

/-- The stored summary is there and agrees with what `rebuildSummary` would compute. -/
def Database.Agrees (db : Database) (productId : String) : Prop :=
  ∃ summary, db.summaries productId = some summary ∧ ∀ now, summary.Same (db.rebuilt productId now)

theorem agrees_iff (db : Database) (productId : String) :
    db.Agrees productId ↔ ∃ summary, db.summaries productId = some summary ∧
      summary.Shows (db.tally productId) (db.verified productId) := by
  constructor
  · rintro ⟨summary, found, same⟩
    obtain ⟨distribution, count, verifiedCount, average⟩ := same 0
    have rebuilt := rebuilt_shows db productId 0
    exact ⟨summary, found, distribution.trans rebuilt.distribution,
      verifiedCount.trans rebuilt.verifiedCount, average.trans rebuilt.average,
      count.trans rebuilt.count⟩
  · rintro ⟨summary, found, shows⟩
    refine ⟨summary, found, fun now => ?_⟩
    have rebuilt := rebuilt_shows db productId now
    exact ⟨shows.distribution.trans rebuilt.distribution.symm,
      shows.count.trans rebuilt.count.symm, shows.verifiedCount.trans rebuilt.verifiedCount.symm,
      shows.average.trans rebuilt.average.symm⟩

def counted (status : ReviewStatus) : Int := if status = .published then 1 else 0

section Decided

variable {db : Database} {call : Moderation} {review : Review}

theorem decided_count (distinct : (db.reviews.map fun review => review.id).Nodup)
    (found : db.findReview call.reviewId = some review) {kind : Review → Bool}
    (kept : kind (review.decided call) = kind review) :
    (db.decided call).count kind = db.count kind +
      if kind review = true then counted call.decision.status - counted review.status else 0 := by
  have balance := Table.countP_update (f := fun review : Review => review.decided call)
    (fun review => kind review && decide (review.status = .published)) distinct found
  have status : (review.decided call).status = call.decision.status := rfl
  simp only [kept, status] at balance
  have balance : (db.decided call).count kind + (if kind review then counted review.status else 0) =
      db.count kind + if kind review then counted call.decision.status else 0 := by
    zify at balance
    cases of : kind review with
    | false => simpa [of, counted, count, decided] using balance
    | true => simpa [of, counted, count, decided] using balance
  split_ifs at balance ⊢ <;> omega

theorem decided_tally (distinct : (db.reviews.map fun review => review.id).Nodup)
    (found : db.findReview call.reviewId = some review) :
    (db.decided call).tally review.productId = update (db.tally review.productId)
      review.rating.bucket (db.tally review.productId review.rating.bucket +
        (counted call.decision.status - counted review.status)) := by
  funext bucket
  unfold tally
  rw [decided_count distinct found rfl]
  by_cases same : bucket = review.rating.bucket
  · subst same
    rw [update_self, if_pos (by simp [Review.inBucket])]
  · rw [update_of_ne same, if_neg (by simp [Review.inBucket, Ne.symm same]), Int.add_zero]

theorem decided_verified (distinct : (db.reviews.map fun review => review.id).Nodup)
    (found : db.findReview call.reviewId = some review) :
    (db.decided call).verified review.productId = db.verified review.productId +
      if review.verifiedPurchase = true
        then counted call.decision.status - counted review.status else 0 := by
  unfold verified
  rw [decided_count distinct found rfl]
  simp [Review.byBuyer]

theorem decided_other (distinct : (db.reviews.map fun review => review.id).Nodup)
    (found : db.findReview call.reviewId = some review) {productId : String}
    (other : productId ≠ review.productId) :
    (db.decided call).tally productId = db.tally productId ∧
      (db.decided call).verified productId = db.verified productId := by
  constructor
  · funext bucket
    unfold tally
    rw [decided_count distinct found rfl, if_neg (by simp [Review.inBucket, Ne.symm other]),
      Int.add_zero]
  · unfold verified
    rw [decided_count distinct found rfl, if_neg (by simp [Review.byBuyer, Ne.symm other]),
      Int.add_zero]

end Decided

theorem afterWrite_eq (before : Review) (call : Moderation) :
    afterWrite before call =
      if counted before.status = counted call.decision.status then .returned
      else .incrementing before (counted call.decision.status - counted before.status)
        call.now := by
  unfold afterWrite counted
  cases status : before.status <;> cases decision : call.decision <;> rfl

theorem overwrite_reviews (db : Database) (productId : String) (average : ℚ) (count : Int) :
    (db.overwrite productId average count).reviews = db.reviews := by
  unfold overwrite
  cases db.summaries productId with
  | none => rfl
  | some summary => rfl

variable {productId : String}

theorem overwrite_other (db : Database) {other : String} (different : other ≠ productId)
    (average : ℚ) (count : Int) :
    (db.overwrite productId average count).summaries other = db.summaries other := by
  unfold overwrite
  cases db.summaries productId with
  | none => rfl
  | some summary => exact update_of_ne different _ _

theorem overwrite_self {db : Database} {summary : RatingSummary}
    (found : db.summaries productId = some summary) (average : ℚ) (count : Int) :
    (db.overwrite productId average count).summaries productId =
      some { summary with average := some average, count := some count } := by
  unfold overwrite
  rw [found]
  exact update_self productId _ _

theorem increment_other (db : Database) {other : String} (different : other ≠ productId)
    (bucket : Fin 5) (delta : Int) (buyer : Bool) (now : Time) :
    (db.increment productId bucket delta buyer now).summaries other = db.summaries other :=
  update_of_ne different _ _

/-- The database once the status and the increment of a decision are written. -/
def Database.counting (db : Database) (review : Review) (call : Moderation) : Database :=
  (db.decided call).increment review.productId review.rating.bucket
    (counted call.decision.status - counted review.status) review.verifiedPurchase call.now

/-- What a call of `moderate` can do. -/
inductive Moderates (db : Database) (call : Moderation) : Database → Phase → Prop
  | absent (absent : db.findReview call.reviewId = none) :
      Moderates db call db (.threw (.reviewNotFound call.reviewId))
  | idle {review : Review} (found : db.findReview call.reviewId = some review)
      (same : review.status = call.decision.status) : Moderates db call db .returned
  | clash {review : Review} (found : db.findReview call.reviewId = some review)
      (differs : review.status ≠ call.decision.status)
      (clash : clashes (review.decided call) db.reviews = true) :
      Moderates db call db (.threw .duplicateKey)
  | uncounted {review : Review} (found : db.findReview call.reviewId = some review)
      (differs : review.status ≠ call.decision.status)
      (free : clashes (review.decided call) db.reviews = false)
      (same : counted review.status = counted call.decision.status) :
      Moderates db call (db.decided call) .returned
  | recounted {review : Review} {after : Database} {phase : Phase}
      (found : db.findReview call.reviewId = some review)
      (differs : review.status ≠ call.decision.status)
      (free : clashes (review.decided call) db.reviews = false)
      (change : counted review.status ≠ counted call.decision.status)
      (last : (db.counting review call).advance (afterReread review.productId
        ((db.counting review call).summaries review.productId)) = (after, phase)) :
      Moderates db call after phase

section Advance

variable {db : Database} {call : Moderation} {review : Review}

theorem advance_reading (found : db.findReview call.reviewId = some review)
    (differs : review.status ≠ call.decision.status) :
    db.advance (.reading call) = (db, .writing review call) := by
  simp only [advance, found, if_neg differs]

theorem advance_writing (found : db.findReview call.reviewId = some review)
    (free : clashes (review.decided call) db.reviews = false) (before : Review) :
    db.advance (.writing before call) = (db.decided call, afterWrite before call) := by
  simp only [advance, setStatus, found, free, Bool.false_eq_true, ↓reduceIte]

theorem advance_incrementing (db : Database) (before : Review) (delta : Int) (now : Time) :
    db.advance (.incrementing before delta now) =
      (db.increment before.productId before.rating.bucket delta before.verifiedPurchase now,
        .rereading before.productId) := by
  simp only [advance, bucketFor_stars]

end Advance

theorem moderates (db : Database) (call : Moderation) :
    Moderates db call (db.moderate call).1 (db.moderate call).2 := by
  unfold moderate
  simp only [iterate_succ_apply, iterate_zero, id_eq]
  cases found : db.findReview call.reviewId with
  | none =>
    have first : db.advance (.reading call) = (db, .threw (.reviewNotFound call.reviewId)) := by
      simp only [advance, found]
    rw [first]
    exact .absent found
  | some review =>
    by_cases same : review.status = call.decision.status
    · have first : db.advance (.reading call) = (db, .returned) := by
        simp only [advance, found, if_pos same]
      rw [first]
      exact .idle found same
    · rw [advance_reading found same]
      cases clash : clashes (review.decided call) db.reviews with
      | true =>
        have second : db.advance (.writing review call) = (db, .threw .duplicateKey) := by
          simp only [advance, setStatus, found, clash, ↓reduceIte]
        rw [second]
        exact .clash found same clash
      | false =>
        rw [advance_writing found clash review, afterWrite_eq]
        by_cases equal : counted review.status = counted call.decision.status
        · rw [if_pos equal]
          exact .uncounted found same clash equal
        · rw [if_neg equal, advance_incrementing]
          exact .recounted found same clash equal rfl

theorem increment_shows {db : Database} {summary : RatingSummary} {counts : Fin 5 → Int}
    {verified : Int} (found : db.summaries productId = some summary)
    (shows : summary.Shows counts verified) (bucket : Fin 5) (delta : Int) (buyer : Bool)
    (now : Time) :
    ∃ after, (db.increment productId bucket delta buyer now).summaries productId = some after ∧
      after.distribution = some (.array (update counts bucket (counts bucket + delta))) ∧
      after.verifiedCount = some (verified + if buyer = true then delta else 0) := by
  refine ⟨_, update_self productId _ db.summaries, ?_, ?_⟩
  · simp only [found, Option.getD_some, shows.distribution, Histogram.inc]
  · simp only [found, Option.getD_some, shows.verifiedCount]
    cases buyer with
    | true => rfl
    | false => simp

def Phase.failed : Phase → Bool
  | .threw _ => true
  | _ => false

section Effect

variable {db after : Database} {call : Moderation} {phase : Phase} {review : Review}

theorem afterReread_reviews (db : Database) (productId : String) (summary : Option RatingSummary) :
    (db.advance (afterReread productId summary)).1.reviews = db.reviews := by
  cases summary with
  | none => rfl
  | some summary =>
    simp only [afterReread]
    cases (summary.distribution.getD (.array emptyDistribution)).counts? with
    | none => rfl
    | some counts => exact overwrite_reviews db productId _ _

theorem afterReread_other (db : Database) {other : String} (different : other ≠ productId)
    (summary : Option RatingSummary) :
    (db.advance (afterReread productId summary)).1.summaries other = db.summaries other := by
  cases summary with
  | none => rfl
  | some summary =>
    simp only [afterReread]
    cases (summary.distribution.getD (.array emptyDistribution)).counts? with
    | none => rfl
    | some counts => exact overwrite_other db different _ _

theorem count_congr {other : Database} (same : other.reviews = db.reviews) (productId : String) :
    other.tally productId = db.tally productId ∧
      other.verified productId = db.verified productId := by
  unfold tally verified count
  rw [same]
  exact ⟨rfl, rfl⟩

/-- The products whose published reviews do not change keep their counts and their summary. -/
theorem Moderates.elsewhere (moderates : Moderates db call after phase)
    (distinct : (db.reviews.map fun review => review.id).Nodup)
    (still : ∀ review, db.findReview call.reviewId = some review → clashes (review.decided call)
      db.reviews = false → productId ≠ review.productId ∨ counted review.status = counted
      call.decision.status) :
    after.tally productId = db.tally productId ∧ after.verified productId = db.verified productId ∧
        after.summaries productId = db.summaries productId := by
  cases moderates with
  | absent | idle | clash => exact ⟨rfl, rfl, rfl⟩
  | uncounted found differs free same =>
    refine ⟨?_, ?_, rfl⟩
    · funext bucket
      unfold tally
      rw [decided_count distinct found rfl, same, Int.sub_self, ite_self, Int.add_zero]
    · unfold verified
      rw [decided_count distinct found rfl, same, Int.sub_self, ite_self, Int.add_zero]
  | @recounted review _ _ found differs free change last =>
    have other : productId ≠ review.productId := (still review found free).resolve_right change
    have reviews : _ = (db.decided call).reviews :=
      afterReread_reviews (db.counting review call) review.productId
        ((db.counting review call).summaries review.productId)
    have summaries := afterReread_other (db.counting review call) other
      ((db.counting review call).summaries review.productId)
    rw [last] at reviews summaries
    obtain ⟨tally, verified⟩ := decided_other distinct found other
    obtain ⟨tally', verified'⟩ := count_congr reviews productId
    exact ⟨tally'.trans tally, verified'.trans verified,
      summaries.trans (increment_other (db.decided call) other _ _ _ _)⟩

theorem counting_agrees (distinct : (db.reviews.map fun review => review.id).Nodup)
    (found : db.findReview call.reviewId = some review) {summary : RatingSummary}
    (stored : db.summaries review.productId = some summary)
    (shows : summary.Shows (db.tally review.productId) (db.verified review.productId))
    (last : (db.counting review call).advance (afterReread review.productId
      ((db.counting review call).summaries review.productId)) = (after, phase)) :
    phase = .returned ∧ after.Agrees review.productId := by
  have kept : (db.decided call).summaries review.productId = some summary := stored
  obtain ⟨mid, found', distribution, verifiedCount⟩ := increment_shows kept shows
    review.rating.bucket (counted call.decision.status - counted review.status)
    review.verifiedPurchase call.now
  have reread : (db.counting review call).summaries review.productId = some mid := found'
  have reviews : _ = (db.decided call).reviews :=
    afterReread_reviews (db.counting review call) review.productId (some mid)
  rw [reread] at last
  simp only [afterReread, distribution, Option.getD_some, Histogram.counts?] at last reviews
  have outcome := Prod.ext_iff.mp last
  have after_eq := outcome.1
  simp only [advance] at after_eq reviews
  refine ⟨outcome.2.symm, (agrees_iff after review.productId).mpr ?_⟩
  rw [after_eq] at reviews
  obtain ⟨tally, verified⟩ := count_congr reviews review.productId
  refine ⟨_, after_eq ▸ overwrite_self reread _ _, ?_⟩
  rw [tally, verified, decided_tally distinct found, decided_verified distinct found]
  exact ⟨distribution, verifiedCount, rfl, rfl⟩

theorem counting_throws (missing : db.summaries review.productId = none)
    (last : (db.counting review call).advance (afterReread review.productId
      ((db.counting review call).summaries review.productId)) = (after, phase)) :
    phase.failed = true := by
  have reread : (db.counting review call).summaries review.productId =
      some _ := update_self review.productId _ _
  have empty : (db.decided call).summaries review.productId = none := missing
  rw [reread] at last
  simp only [afterReread, empty, Option.getD_none, Option.getD_some, Histogram.inc,
    Histogram.counts?, advance] at last
  have threw : Phase.threw .type = phase := (Prod.ext_iff.mp last).2
  rw [← threw]
  rfl

end Effect

/-- A call of the service. -/
inductive Call where
  | create (input : Submission) (autoFlags : List String) (now : Time)
  | moderate (call : Moderation)
  | rebuildSummary (productId : String) (now : Time)
  /-- The consumer of order events records a purchase. -/
  | recordPurchase (userId productId orderId : Json) (now : Time)

/-- The database after calls made one by one. -/
structure Desk where
  db : Database := {}
  /-- The products of which a review was published. -/
  published : List String := []
  /-- `moderate` has thrown for a review that exists. -/
  threw : Bool := false

def Database.shown (db : Database) (reviewId : String) : List String :=
  match db.findReview reviewId with
  | some review => if review.status = .published then [review.productId] else []
  | none => []

def Desk.step (digest : String → String) (s : Desk) : Call → Desk
  | .create input autoFlags now => { s with db := (s.db.create digest input autoFlags now).1 }
  | .moderate call =>
    let outcome := s.db.moderate call
    { db := outcome.1
      published := outcome.1.shown call.reviewId ++ s.published
      threw := s.threw || (s.db.findReview call.reviewId).isSome && outcome.2.failed }
  | .rebuildSummary productId now => { s with db := s.db.rebuildSummary productId now }
  | .recordPurchase userId productId orderId now =>
    { s with db := { s.db with
        purchases := recordPurchase digest now userId productId orderId s.db.purchases } }

/-- What the summaries should say: `moderate` has not thrown, and the summary of every
product of which a review was published agrees with the rebuilt one. -/
structure Desk.Agrees (s : Desk) : Prop where
  quiet : s.threw = false
  agrees : ∀ productId ∈ s.published, s.db.Agrees productId

/-- The call publishes a review of a product that has no summary, or a review whose
author has another one that is pending or published. -/
def Desk.Fails (s : Desk) : Call → Prop
  | .moderate call =>
    ∃ review, s.db.findReview call.reviewId = some review ∧ call.decision = .published ∧
      review.status ≠ .published ∧ (s.db.summaries review.productId = none ∨
        clashes (review.decided call) s.db.reviews = true)
  | _ => False

/-- What holds after every sequence of calls: review ids are distinct, and a product of
which no review was published has none that is, and at most an empty summary. -/
structure Desk.Sound (s : Desk) : Prop where
  distinct : (s.db.reviews.map fun review => review.id).Nodup
  known : ∀ review ∈ s.db.reviews, review.status = .published → review.productId ∈ s.published
  fresh : ∀ productId ∉ s.published, ∀ summary, s.db.summaries productId = some summary →
    summary.Shows (s.db.tally productId) (s.db.verified productId)

section Runs

variable {s : Desk} {digest : String → String}

theorem create_reviews (db : Database) (digest : String → String) (input : Submission)
    (autoFlags : List String) (now : Time) :
    (db.create digest input autoFlags now).1 = db ∨
      ∃ review : Review, review.status = .pendingModeration ∧
        (∀ other ∈ db.reviews, other.id ≠ review.id) ∧ (db.create digest input autoFlags now).1 =
            { db with reviews := db.reviews ++ [review] } := by
  simp only [create, insertReview]
  split
  · rename_i inserted
    split at inserted
    · cases inserted
    · rename_i free
      right
      refine ⟨_, rfl, fun other member same => free ?_, (Prod.ext_iff.mp inserted).1.symm⟩
      rw [Bool.or_eq_true, List.any_eq_true]
      exact .inl ⟨other, member, decide_eq_true same⟩
  · rename_i refused
    split at refused
    · exact .inl (Prod.ext_iff.mp refused).1.symm
    · cases refused

variable {review : Review} {db : Database} {call : Moderation}

theorem count_pending (db : Database) (pending : review.status ≠ .published)
    (kind : Review → Bool) :
    count { db with reviews := db.reviews ++ [review] } kind = db.count kind := by
  unfold count
  rw [List.countP_append, List.countP_singleton, if_neg (by simp [pending]), Nat.add_zero]

theorem findReview_congr {other : Database} (same : other.reviews = db.reviews)
    (reviewId : String) :
    other.findReview reviewId = db.findReview reviewId := by
  unfold findReview
  rw [same]

theorem mem_shown_iff {reviewId : String} (found : db.findReview reviewId = some review)
    (productId : String) :
    productId ∈ db.shown reviewId ↔ review.status = .published ∧ productId = review.productId := by
  simp only [shown, found]
  split
  · rename_i published
    simp [published]
  · rename_i unpublished
    simp [unpublished]

theorem find_decided (found : db.findReview call.reviewId = some review) :
    (db.decided call).findReview call.reviewId = some (review.decided call) := by
  change Table.find (fun review : Review => review.id) (Table.update (fun review => review.id)
    call.reviewId (fun review => review.decided call) db.reviews) call.reviewId = _
  rw [Table.find_update, if_pos rfl]
  · exact congrArg (Option.map _) found
  · exact fun _ => rfl

theorem ids_decided (db : Database) (call : Moderation) :
    ((db.decided call).reviews.map fun review => review.id) =
      db.reviews.map fun review => review.id := by
  change (Table.update (fun review : Review => review.id) call.reviewId
    (fun review => review.decided call) db.reviews).map (fun review => review.id) = _
  rw [Table.keys_update]
  exact fun _ => rfl

theorem Moderates.reviews {after : Database} {phase : Phase}
    (moderates : Moderates db call after phase) :
    after.reviews = db.reviews ∨ after.reviews = (db.decided call).reviews := by
  cases moderates with
  | absent | idle | clash => exact .inl rfl
  | uncounted found differs free same => exact .inr rfl
  | @recounted review _ _ found differs free change last =>
    have reviews := afterReread_reviews (db.counting review call) review.productId
      ((db.counting review call).summaries review.productId)
    rw [last] at reviews
    exact .inr reviews

theorem Moderates.decides {after : Database} {phase : Phase}
    (moderates : Moderates db call after phase) (found : db.findReview call.reviewId = some review)
    (differs : review.status ≠ call.decision.status)
    (free : clashes (review.decided call) db.reviews = false) :
    after.reviews = (db.decided call).reviews := by
  cases moderates with
  | absent absent =>
    rw [absent] at found
    cases found
  | idle found' same =>
    cases found.symm.trans found'
    exact (differs same).elim
  | clash found' differs' clash =>
    cases found.symm.trans found'
    rw [free] at clash
    cases clash
  | uncounted found' differs' free' same => rfl
  | @recounted other _ _ found' differs' free' change last =>
    have reviews := afterReread_reviews (db.counting other call) other.productId
      ((db.counting other call).summaries other.productId)
    rw [last] at reviews
    exact reviews

theorem counted_of_ne {status : ReviewStatus} (unpublished : status ≠ .published) :
    counted status = 0 := if_neg unpublished

theorem Desk.Sound.moderate (sound : s.Sound) (call : Moderation) :
    (s.step digest (.moderate call)).Sound := by
  have moderates := moderates s.db call
  refine ⟨?_, fun review member published => ?_, fun productId fresh summary stored => ?_⟩
  · rcases moderates.reviews with same | decided
    · change ((s.db.moderate call).1.reviews.map _).Nodup
      rw [same]
      exact sound.distinct
    · change ((s.db.moderate call).1.reviews.map _).Nodup
      rw [decided, ids_decided]
      exact sound.distinct
  · change review ∈ (s.db.moderate call).1.reviews at member
    rcases moderates.reviews with same | decided
    · rw [same] at member
      exact List.mem_append_right _ (sound.known review member published)
    · rw [decided] at member
      obtain ⟨old, inside, rfl⟩ := List.mem_map.mp member
      by_cases own : old.id = call.reviewId
      · rw [if_pos own] at published ⊢
        have found : s.db.findReview call.reviewId = some old :=
          own ▸ Table.find_of_mem sound.distinct inside
        refine List.mem_append_left _ ((mem_shown_iff ?_ _).mpr ⟨published, rfl⟩)
        exact (findReview_congr decided _).trans (find_decided found)
      · rw [if_neg own] at published ⊢
        exact List.mem_append_right _ (sound.known old inside published)
  · have old : productId ∉ s.published := fun inside => fresh (List.mem_append_right _ inside)
    have still : ∀ review, s.db.findReview call.reviewId = some review →
        clashes (review.decided call) s.db.reviews = false →
          productId ≠ review.productId ∨ counted review.status = counted call.decision.status := by
      intro review found free
      by_cases own : productId = review.productId
      · right
        subst own
        have unpublished : review.status ≠ .published := fun published =>
          old (sound.known review (Table.mem_of_find found) published)
        rw [counted_of_ne unpublished]
        cases decision : call.decision with
        | rejected => rfl
        | published =>
          have differs : review.status ≠ call.decision.status := by rwa [decision]
          have after := (findReview_congr (moderates.decides found differs free) _).trans
            (find_decided found)
          have shown := (mem_shown_iff after _).mpr ⟨congrArg Decision.status decision, rfl⟩
          exact (fresh (List.mem_append_left _ shown)).elim
      · exact .inl own
    obtain ⟨tally, verified, summaries⟩ := moderates.elsewhere sound.distinct still
    have before := sound.fresh productId old summary (summaries ▸ stored)
    change summary.Shows ((s.db.moderate call).1.tally productId) _
    rw [tally]
    change summary.Shows _ ((s.db.moderate call).1.verified productId)
    rw [verified]
    exact before

theorem agrees_congr {other : Database} {productId : String}
    (tally : other.tally productId = db.tally productId)
    (verified : other.verified productId = db.verified productId)
    (summaries : other.summaries productId = db.summaries productId)
    (agrees : db.Agrees productId) :
    other.Agrees productId := by
  rw [agrees_iff, tally, verified, summaries]
  exact (agrees_iff db productId).mp agrees

theorem agrees_rebuilt (db : Database) (productId : String) (now : Time) :
    (db.rebuildSummary productId now).Agrees productId :=
  ⟨_, update_self productId _ _, fun _ => ⟨rfl, rfl, rfl, rfl⟩⟩

theorem Desk.Sound.create (sound : s.Sound) (input : Submission) (autoFlags : List String)
    (now : Time) : (s.step digest (.create input autoFlags now)).Sound := by
  have created := create_reviews s.db digest input autoFlags now
  simp only [Desk.step]
  rcases created with same | ⟨review, pending, fresh, added⟩
  · rw [same]
    exact ⟨sound.distinct, sound.known, sound.fresh⟩
  · rw [added]
    have unpublished : review.status ≠ .published := by
      rw [pending]
      decide
    refine ⟨?_, fun other member published => ?_, fun productId missing summary stored => ?_⟩
    · rw [List.map_append, List.map_singleton]
      refine sound.distinct.append (List.nodup_singleton _) fun id old new => ?_
      obtain ⟨other, member, rfl⟩ := List.mem_map.mp old
      exact fresh other member (List.mem_singleton.mp new)
    · rcases List.mem_append.mp member with old | new
      · exact sound.known other old published
      · exact (unpublished (List.mem_singleton.mp new ▸ published)).elim
    · have before := sound.fresh productId missing summary stored
      unfold tally verified at before ⊢
      simp only [count_pending s.db unpublished]
      exact before

theorem Desk.Sound.step (sound : s.Sound) (call : Call) : (s.step digest call).Sound := by
  cases call with
  | create input autoFlags now => exact sound.create input autoFlags now
  | moderate call => exact sound.moderate call
  | recordPurchase userId productId orderId now => exact ⟨sound.distinct, sound.known, sound.fresh⟩
  | rebuildSummary productId now =>
    refine ⟨sound.distinct, sound.known, fun other missing summary stored => ?_⟩
    by_cases own : other = productId
    · subst own
      have rebuilt : s.db.rebuilt other now = summary :=
        Option.some.inj ((update_self other _ _).symm.trans stored)
      exact rebuilt ▸ rebuilt_shows s.db other now
    · exact sound.fresh other missing summary ((update_of_ne own _ _).symm.trans stored)

theorem Desk.Sound.shows (sound : s.Sound) (agrees : s.Agrees) {summary : RatingSummary}
    (stored : s.db.summaries productId = some summary) :
    summary.Shows (s.db.tally productId) (s.db.verified productId) := by
  by_cases known : productId ∈ s.published
  · obtain ⟨other, found, shows⟩ := (agrees_iff s.db productId).mp (agrees.agrees productId known)
    cases stored.symm.trans found
    exact shows
  · exact sound.fresh productId known summary stored

/-- **One decision.** It keeps the summaries right exactly when it does not publish a
review of a product without a summary, or one that clashes with another review. -/
theorem Desk.Agrees.moderate_iff (agrees : s.Agrees) (sound : s.Sound) (call : Moderation) :
    (s.step digest (.moderate call)).Agrees ↔ ¬ s.Fails (.moderate call) := by
  have moderates := moderates s.db call
  simp only [Desk.step]
  generalize s.db.moderate call = outcome at moderates
  obtain ⟨after, phase⟩ := outcome
  have rejecting : ∀ {review : Review}, s.db.findReview call.reviewId = some review →
      counted review.status ≠ counted call.decision.status → call.decision = .rejected →
        review.productId ∈ s.published := by
    intro review found change rejected
    rw [rejected] at change
    refine sound.known review (Table.mem_of_find found) ?_
    by_contra unpublished
    exact change (counted_of_ne unpublished)
  cases moderates with
  | absent absent =>
    refine iff_of_true ⟨?_, ?_⟩ ?_
    · simp only [absent, Option.isSome_none, Bool.false_and, Bool.or_false]
      exact agrees.quiet
    · simp only [shown, absent, List.nil_append]
      exact agrees.agrees
    · rintro ⟨review, found, -⟩
      rw [absent] at found
      cases found
  | @idle review found same =>
    refine iff_of_true ⟨?_, fun productId member => ?_⟩ ?_
    · simp only [Phase.failed, Bool.and_false, Bool.or_false]
      exact agrees.quiet
    · rcases List.mem_append.mp member with shown | old
      · obtain ⟨published, rfl⟩ := (mem_shown_iff found productId).mp shown
        exact agrees.agrees _ (sound.known review (Table.mem_of_find found) published)
      · exact agrees.agrees productId old
    · rintro ⟨other, found', published, unpublished, -⟩
      cases found.symm.trans found'
      rw [published] at same
      exact unpublished same
  | @clash review found differs clash =>
    refine iff_of_false (fun after => ?_) (not_not_intro ?_)
    · have quiet := after.quiet
      simp [found, Phase.failed] at quiet
    · have publishes : call.decision = .published := by
        cases decision : call.decision with
        | published => rfl
        | rejected =>
          simp [clashes, Review.indexed, Review.decided, decision, Decision.status] at clash
      refine ⟨review, found, publishes, ?_, .inr clash⟩
      rw [publishes] at differs
      exact differs
  | @uncounted review found differs free same =>
    refine iff_of_true ⟨?_, fun productId member => ?_⟩ ?_
    · simp only [Phase.failed, Bool.and_false, Bool.or_false]
      exact agrees.quiet
    · have still : ∀ other, s.db.findReview call.reviewId = some other →
          clashes (other.decided call) s.db.reviews = false → productId ≠ other.productId ∨
              counted other.status = counted call.decision.status := by
        intro other found' _
        cases found.symm.trans found'
        exact .inr same
      obtain ⟨tally, verified, summaries⟩ :=
        (Moderates.uncounted found differs free same).elsewhere sound.distinct still
      refine agrees_congr tally verified summaries (agrees.agrees productId ?_)
      rcases List.mem_append.mp member with shown | old
      · obtain ⟨published, rfl⟩ := (mem_shown_iff (find_decided found) productId).mp shown
        refine sound.known review (Table.mem_of_find found) ?_
        by_contra unpublished
        rw [counted_of_ne unpublished, show call.decision.status = .published from published]
          at same
        cases same
      · exact old
    · rintro ⟨other, found', published, unpublished, -⟩
      cases found.symm.trans found'
      rw [counted_of_ne unpublished, published] at same
      cases same
  | @recounted review _ _ found differs free change last =>
    cases stored : s.db.summaries review.productId with
    | none =>
      have threw := counting_throws stored last
      refine iff_of_false (fun after => ?_) (not_not_intro ?_)
      · have quiet := after.quiet
        simp [found, threw] at quiet
      · have publishes : call.decision = .published := by
          cases decision : call.decision with
          | published => rfl
          | rejected =>
            obtain ⟨summary, there, -⟩ :=
              agrees.agrees review.productId (rejecting found change decision)
            rw [stored] at there
            cases there
        refine ⟨review, found, publishes, ?_, .inl stored⟩
        rw [publishes] at differs
        exact differs
    | some summary =>
      obtain ⟨rfl, right⟩ := counting_agrees sound.distinct found stored
        (sound.shows agrees stored) last
      refine iff_of_true ⟨?_, fun productId member => ?_⟩ ?_
      · simp only [Phase.failed, Bool.and_false, Bool.or_false]
        exact agrees.quiet
      · by_cases own : productId = review.productId
        · exact own ▸ right
        · have moderates := Moderates.recounted found differs free change last
          have decides := moderates.decides found differs free
          have still : ∀ other, s.db.findReview call.reviewId = some other →
              clashes (other.decided call) s.db.reviews = false → productId ≠ other.productId ∨
                  counted other.status = counted call.decision.status := by
            intro other found' _
            cases found.symm.trans found'
            exact .inl own
          obtain ⟨tally, verified, summaries⟩ := moderates.elsewhere sound.distinct still
          refine agrees_congr tally verified summaries (agrees.agrees productId ?_)
          rcases List.mem_append.mp member with shown | old
          · rw [mem_shown_iff ((findReview_congr decides _).trans (find_decided found))] at shown
            exact (own shown.2).elim
          · exact old
      · rintro ⟨other, found', published, unpublished, missing | clash⟩
        · cases found.symm.trans found'
          rw [stored] at missing
          cases missing
        · cases found.symm.trans found'
          rw [free] at clash
          cases clash

theorem Desk.Agrees.step_iff (agrees : s.Agrees) (sound : s.Sound) (call : Call) :
    (s.step digest call).Agrees ↔ ¬ s.Fails call := by
  cases call with
  | moderate call => exact agrees.moderate_iff sound call
  | create input autoFlags now =>
    refine iff_of_true ⟨agrees.quiet, fun productId member => ?_⟩ id
    have before := agrees.agrees productId member
    change (s.db.create digest input autoFlags now).1.Agrees productId
    rcases create_reviews s.db digest input autoFlags now with same | ⟨review, pending, -, added⟩
    · rw [same]
      exact before
    · rw [added]
      have unpublished : review.status ≠ .published := by
        rw [pending]
        decide
      have tally : tally { s.db with reviews := s.db.reviews ++ [review] } productId =
          s.db.tally productId := funext fun _ => count_pending s.db unpublished _
      exact agrees_congr tally (count_pending s.db unpublished _) rfl before
  | rebuildSummary productId now =>
    refine iff_of_true ⟨agrees.quiet, fun other member => ?_⟩ id
    by_cases own : other = productId
    · subst own
      exact agrees_rebuilt s.db other now
    · have summaries : (s.db.rebuildSummary productId now).summaries other =
          s.db.summaries other := update_of_ne own _ _
      exact @agrees_congr s.db _ other rfl rfl summaries (agrees.agrees other member)
  | recordPurchase userId productId orderId now =>
    exact iff_of_true ⟨agrees.quiet, agrees.agrees⟩ id

theorem Desk.sound_of_reachable (reached : (System.ofFunction {} (Desk.step digest)).Reachable s) :
    s.Sound := by
  refine reached.invariant (fun start initial => ?_) fun before call after sound taken => ?_
  · cases initial
    refine ⟨List.nodup_nil, fun review member => ?_, fun productId _ summary stored => ?_⟩
    · cases member
    · cases stored
  · cases taken
    exact sound.step call

end Runs

/-- **The incremental summary equals the rebuilt one** in a run of calls exactly when no call
publishes a review of a product that has no summary, or a review whose author has another
one that is pending or published. -/
theorem agrees_throughout_iff (digest : String → String) (calls : List Call) :
    (∀ front, front <+: calls → (front.foldl (Desk.step digest) {}).Agrees) ↔
      ∀ front call, front ++ [call] <+: calls → ¬ (front.foldl (Desk.step digest) {}).Fails call :=
  System.throughout_iff (P := Desk.Agrees) ⟨rfl, fun _ member => by cases member⟩
    (fun _ call reached agrees => agrees.step_iff (Desk.sound_of_reachable reached) call) calls

def submission : Submission where
  id := "rev_1"
  productId := "prd_1"
  userId := "usr_1"
  authorName := "A customer"
  rating := .best
  title := "Good"
  body := "It does what it says."
  images := []
  locale := "en-GB"

/-- The first review of a product is published: `moderate` throws, and the summary has no
average and an embedded document in place of the distribution. -/
theorem first_publish_throws :
    ¬ ∀ front, front <+:
    [Call.create submission [] 0, .moderate ⟨"rev_1", .published, "mod", none, 1⟩] →
      (front.foldl (Desk.step id) {}).Agrees := by
  intro holds
  have quiet := (holds _ (List.prefix_refl _)).quiet
  revert quiet
  decide +kernel

end Souq.Reviews
