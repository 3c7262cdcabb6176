import Souq.Reviews.Summary

/-!
# Moderators at the same time

Any number of calls of `moderate` are executed operation by operation in any order. What a
call owes the histogram between its write of a status and its increment is part of the
books: they balance as long as every status is written over one that counts like the one
the call has read. The derived figures are right, or some call is about to put them right,
as long as no figures of an old histogram are the last to be written.
-/

namespace Souq.Reviews

open Transition Function Finset Phase Database

/-- The collections, the calls of `moderate` in progress, and which of them have read the
summary since the last increment. -/
structure Panel (ι : Type) where
  db : Database
  calls : ι → Phase := fun _ => .returned
  fresh : ι → Bool := fun _ => false

/-- One step of a run. -/
inductive Turn (ι : Type) where
  | start (i : ι) (call : Moderation)
  /-- The next operation of a call. -/
  | run (i : ι)

/-- A status that counts differently from the one that was read is about to be replaced. -/
def Database.overtaken (db : Database) (before : Review) (call : Moderation) : Bool :=
  (db.findReview call.reviewId).any fun review =>
    counted review.status ≠ counted before.status && !clashes (review.decided call) db.reviews

/-- The call is going to write the figures of a histogram it has yet to read, or has read
since the last increment. -/
def Phase.mends (fresh : Bool) : Phase → Bool
  | .incrementing .. | .rereading _ => true
  | .overwriting .. => fresh
  | _ => false

namespace Panel

variable {ι : Type} [DecidableEq ι]

def set (s : Panel ι) (i : ι) (phase : Phase) : Panel ι :=
  { s with calls := update s.calls i phase }

/-- Which calls have read the summary since the last increment, after a turn of one. -/
def freshened (s : Panel ι) (i : ι) : ι → Bool :=
  match s.calls i with
  | .incrementing .. => fun _ => false
  | .rereading _ => update s.fresh i true
  | _ => s.fresh

def step (s : Panel ι) : Turn ι → Panel ι
  | .start i call => if (s.calls i).over then s.set i (.reading call) else s
  | .run i =>
    let outcome := s.db.advance (s.calls i)
    { db := outcome.1
      calls := update s.calls i outcome.2
      fresh := s.freshened i }

/-- Any interleaving of any calls, from a state of the collections. -/
def system (ι : Type) [DecidableEq ι] (db : Database) : System (Panel ι) (Turn ι) :=
  .ofFunction { db := db } step

def concerns (s : Panel ι) (productId : String) : Turn ι → Bool
  | .start _ call => (s.db.findReview call.reviewId).all fun review => review.productId = productId
  | .run _ => true

/-- The turn writes a status over one that counts differently from what the call has read,
or figures from before the last increment when no call is going to write later ones. -/
def corrupts [Fintype ι] (s : Panel ι) : Turn ι → Bool
  | .start .. => false
  | .run i =>
    match s.calls i with
    | .writing before call => s.db.overtaken before call
    | .overwriting .. => decide (∀ j, (s.calls j).mends (s.fresh j) = false)
    | _ => false

end Panel

/-- What the next operation of a call adds to a bucket. -/
def Phase.owes (bucket : Fin 5) : Phase → Int
  | .incrementing before delta _ => if before.rating.bucket = bucket then delta else 0
  | _ => 0

/-- What the next operation of a call adds to `verifiedCount`. -/
def Phase.owesVerified : Phase → Int
  | .incrementing before delta _ => if before.verifiedPurchase = true then delta else 0
  | _ => 0

def Phase.Knows (db : Database) (productId : String) : Phase → Prop
  | .reading call =>
    ∀ review, db.findReview call.reviewId = some review → review.productId = productId
  | .writing before call => before.productId = productId ∧
      ∃ review, db.findReview call.reviewId = some review ∧ review.productId = productId ∧
        review.rating = before.rating ∧ review.verifiedPurchase = before.verifiedPurchase
  | .incrementing before _ _ => before.productId = productId
  | .rereading named | .overwriting named _ _ => named = productId
  | _ => True

/-- Figures read since the last increment are those of the histogram. -/
def Phase.Reflects (counts : Fin 5 → Int) (fresh : Bool) : Phase → Prop
  | .overwriting _ average count => fresh = true → (average, count) = summarise counts
  | _ => True

/-- The summary shows the published reviews. -/
structure Database.Right (db : Database) (productId : String) : Prop where
  distinct : (db.reviews.map fun review => review.id).Nodup
  shows : ∃ summary, db.summaries productId = some summary ∧
    summary.Shows (db.tally productId) (db.verified productId)

section Balance

variable {ι : Type} [DecidableEq ι] [Fintype ι]

theorem sum_update (calls : ι → Phase) (i : ι) (phase : Phase) (f : Phase → Int) :
    ∑ j, f (update calls i phase j) = ∑ j, f (calls j) - f (calls i) + f phase := by
  have others : ∑ j ∈ univ.erase i, f (update calls i phase j) = ∑ j ∈ univ.erase i, f (calls j) :=
    sum_congr rfl fun j member => by
      rw [update_of_ne (ne_of_mem_erase member)]
  rw [← add_sum_erase _ _ (mem_univ i),
    ← add_sum_erase _ (fun j => f (calls j)) (mem_univ i), others,
    update_self]
  omega

/-- The summary, and what the calls under way still owe it. -/
structure Panel.Books (s : Panel ι) (productId : String) (summary : RatingSummary)
    (counts : Fin 5 → Int) (verified : Int) : Prop where
  stored : s.db.summaries productId = some summary
  distribution : summary.distribution = some (.array counts)
  verifiedCount : summary.verifiedCount = some verified
  balance : ∀ bucket, counts bucket + ∑ i, (s.calls i).owes bucket = s.db.tally productId bucket
  buyers : verified + ∑ i, (s.calls i).owesVerified = s.db.verified productId
  reflects : ∀ i, (s.calls i).Reflects counts (s.fresh i)
  derived : summary.average = some (summarise counts).1 ∧
      summary.count = some (summarise counts).2 ∨
    ∃ i, (s.calls i).mends (s.fresh i) = true

/-- What holds throughout a run without corrupting turns. -/
structure Panel.Balanced (s : Panel ι) (productId : String) : Prop where
  distinct : (s.db.reviews.map fun review => review.id).Nodup
  knows : ∀ i, (s.calls i).Knows s.db productId
  books : ∃ summary counts verified, s.Books productId summary counts verified

variable {s : Panel ι} {productId : String}

variable {i : ι} {phase : Phase} {call : Moderation} {before : Review}

omit [Fintype ι] in
theorem forall_update {calls : ι → Phase} {P : ι → Phase → Prop} (own : P i phase)
    (others : ∀ j, P j (calls j)) (j : ι) :
    P j (update calls i phase j) := by
  by_cases same : j = i
  · subst same
    rw [update_self]
    exact own
  · rw [update_of_ne same]
    exact others j

omit [Fintype ι] in
theorem mends_update {calls : ι → Phase} {j : ι} {fresh : ι → Bool}
    (idle : (calls i).mends (fresh i) = false) (mending : (calls j).mends (fresh j) = true) :
    (update calls i phase j).mends (fresh j) = true := by
  have different : j ≠ i := by
    rintro rfl
    rw [idle] at mending
    cases mending
  rw [update_of_ne different]
  exact mending

theorem sum_update_of_eq (calls : ι → Phase) (i : ι) {f : Phase → Int}
    (same : f phase = f (calls i)) :
    ∑ j, f (update calls i phase j) = ∑ j, f (calls j) := by
  rw [sum_update, same, sub_add_cancel]

theorem Panel.Balanced.set (balanced : s.Balanced productId) (i : ι)
    (idle : (s.calls i).mends (s.fresh i) = false) (knows : phase.Knows s.db productId)
    (owes : ∀ bucket, phase.owes bucket = (s.calls i).owes bucket)
    (owesVerified : phase.owesVerified = (s.calls i).owesVerified)
    (reflects : ∀ counts, phase.Reflects counts (s.fresh i)) :
    (s.set i phase).Balanced productId := by
  obtain ⟨summary, counts, verified, books⟩ := balanced.books
  refine ⟨balanced.distinct, forall_update knows balanced.knows, summary, counts,
    verified, books.stored, books.distribution, books.verifiedCount, fun bucket => ?_, ?_,
    forall_update (P := fun j call => call.Reflects counts (s.fresh j)) (reflects counts)
      books.reflects, ?_⟩
  · exact (congrArg _ (sum_update_of_eq s.calls i (owes bucket))).trans (books.balance bucket)
  · exact (congrArg _ (sum_update_of_eq s.calls i owesVerified)).trans books.buyers
  · exact books.derived.imp_right fun ⟨j, mending⟩ => ⟨j, mends_update idle mending⟩

theorem findReview_decided (db : Database) (call : Moderation) (id : String) :
    (db.decided call).findReview id = if id = call.reviewId
      then (db.findReview id).map fun review => review.decided call else db.findReview id := by
  change Table.find (fun review : Review => review.id) (Table.update (fun review => review.id)
    call.reviewId (fun review => review.decided call) db.reviews) id = _
  rw [Table.find_update]
  · rfl
  · exact fun _ => rfl

theorem decided_knows {db : Database} (knows : phase.Knows db productId) :
    phase.Knows (db.decided call) productId := by
  cases phase with
  | reading other =>
    intro review found
    rw [findReview_decided] at found
    cases old : db.findReview other.reviewId with
    | none => simp [old] at found
    | some before =>
      have about := knows before old
      rw [old] at found
      split at found
      · cases found
        exact about
      · cases found
        exact about
  | writing before other =>
    obtain ⟨named, review, found, about, rating, buyer⟩ := knows
    refine ⟨named, ?_⟩
    rw [findReview_decided, found]
    by_cases same : other.reviewId = call.reviewId
    · exact ⟨review.decided call, if_pos same, about, rating, buyer⟩
    · exact ⟨review, if_neg same, about, rating, buyer⟩
  | _ => exact knows

theorem owes_afterWrite (before : Review) (call : Moderation) (bucket : Fin 5) :
    (afterWrite before call).owes bucket = if before.rating.bucket = bucket
      then counted call.decision.status - counted before.status else 0 := by
  rw [afterWrite_eq]
  by_cases same : counted before.status = counted call.decision.status
  · rw [if_pos same, same, Int.sub_self, ite_self]
    rfl
  · rw [if_neg same]
    rfl

theorem owesVerified_afterWrite (before : Review) (call : Moderation) :
    (afterWrite before call).owesVerified = if before.verifiedPurchase = true
      then counted call.decision.status - counted before.status else 0 := by
  rw [afterWrite_eq]
  by_cases same : counted before.status = counted call.decision.status
  · rw [if_pos same, same, Int.sub_self, ite_self]
    rfl
  · rw [if_neg same]
    rfl

theorem knows_afterWrite (db : Database) (named : before.productId = productId)
    (call : Moderation) :
    (afterWrite before call).Knows db productId := by
  rw [afterWrite_eq]
  split
  · trivial
  · exact named

theorem reflects_afterWrite {counts : Fin 5 → Int} {fresh : Bool} (before : Review)
    (call : Moderation) : (afterWrite before call).Reflects counts fresh := by
  rw [afterWrite_eq]
  split
  · trivial
  · trivial

theorem reflects_stale (counts : Fin 5 → Int) (phase : Phase) : phase.Reflects counts false := by
  cases phase with
  | overwriting named average count =>
    intro fresh
    cases fresh
  | _ => trivial

theorem Panel.Balanced.idle (balanced : s.Balanced productId) {before : Phase}
    (at' : s.calls i = before) (outcome : s.db.advance before = (s.db, phase))
    (same : s.freshened i = s.fresh) (idle : ∀ fresh, before.mends fresh = false)
    (knows : phase.Knows s.db productId) (owes : ∀ bucket, phase.owes bucket = before.owes bucket)
    (owesVerified : phase.owesVerified = before.owesVerified)
    (reflects : ∀ counts, phase.Reflects counts (s.fresh i)) :
    (s.step (.run i)).Balanced productId := by
  subst at'
  simp only [Panel.step, outcome, same]
  exact balanced.set i (idle _) knows owes owesVerified reflects

/-- **A status is written** ended one that counts like the one the call has read. -/
theorem Panel.Balanced.write (balanced : s.Balanced productId)
    (at' : s.calls i = .writing before call) (current : s.db.overtaken before call = false) :
    (s.step (.run i)).Balanced productId := by
  obtain ⟨named, review, found, about, rating, buyer⟩ :
      (writing before call).Knows s.db productId := at' ▸ balanced.knows i
  have same : s.freshened i = s.fresh := by
    rw [Panel.freshened, at']
  cases clash : clashes (review.decided call) s.db.reviews with
  | true =>
    have outcome : s.db.advance (.writing before call) = (s.db, .threw .duplicateKey) := by
      simp only [advance, setStatus, found, clash, ↓reduceIte]
    exact balanced.idle at' outcome same (fun _ => rfl) trivial (fun _ => rfl) rfl fun _ => trivial
  | false =>
    have idle : (s.calls i).mends (s.fresh i) = false := by
      rw [at']
      rfl
    have free : ∀ bucket, (s.calls i).owes bucket = 0 := fun bucket => by
      rw [at']
      rfl
    have freeVerified : (s.calls i).owesVerified = 0 := by
      rw [at']
      rfl
    have like : counted review.status = counted before.status := by
      simpa [overtaken, found, clash] using current
    have outcome : s.db.advance (s.calls i) = (s.db.decided call, afterWrite before call) := by
      rw [at', advance_writing found clash]
    simp only [Panel.step, outcome, same]
    obtain ⟨summary, counts, verified, books⟩ := balanced.books
    refine ⟨(ids_decided s.db call).symm ▸ balanced.distinct,
      forall_update (P := fun _ phase => phase.Knows (s.db.decided call) productId)
        (knows_afterWrite _ named call) fun j => decided_knows (balanced.knows j),
      summary, counts, verified, books.stored, books.distribution, books.verifiedCount,
      fun bucket => ?_, ?_,
      forall_update (P := fun j phase => phase.Reflects counts (s.fresh j))
        (reflects_afterWrite before call) books.reflects,
      books.derived.imp_right fun mended => mended.imp fun j => mends_update idle⟩
    · have sum := sum_update s.calls i (afterWrite before call) (owes bucket)
      have tally := congrFun (decided_tally balanced.distinct found) bucket
      have balance := books.balance bucket
      rw [free, owes_afterWrite] at sum
      rw [about, rating, like] at tally
      rw [sum, tally]
      by_cases same : before.rating.bucket = bucket
      · subst same
        rw [if_pos rfl, update_self]
        omega
      · rw [if_neg same, update_of_ne (Ne.symm same)]
        omega
    · have sum := sum_update s.calls i (afterWrite before call) owesVerified
      have buyers := books.buyers
      have after : (s.db.decided call).verified review.productId = _ :=
        decided_verified balanced.distinct found
      rw [freeVerified, owesVerified_afterWrite] at sum
      rw [about, buyer, like] at after
      rw [sum, after]
      omega

/-- **An increment** pays what the call owes. -/
theorem Panel.Balanced.increment (balanced : s.Balanced productId) {delta : Int} {now : Time}
    (at' : s.calls i = .incrementing before delta now) :
    (s.step (.run i)).Balanced productId := by
  obtain ⟨summary, counts, verified, books⟩ := balanced.books
  have named : (incrementing before delta now).Knows s.db productId := at' ▸ balanced.knows i
  have named : before.productId = productId := named
  have outcome : s.db.advance (s.calls i) =
      (s.db.increment productId before.rating.bucket delta before.verifiedPurchase now,
        .rereading productId) := by
    rw [at', advance_incrementing, named]
  have stale : s.freshened i = fun _ => false := by
    rw [Panel.freshened, at']
  simp only [Panel.step, outcome, stale]
  refine ⟨balanced.distinct,
    forall_update (P := fun _ phase => phase.Knows s.db productId) rfl balanced.knows, _,
    update counts before.rating.bucket (counts before.rating.bucket + delta),
    verified + (if before.verifiedPurchase = true then delta else 0),
    update_self productId _ _, ?_, ?_, fun bucket => ?_, ?_,
    forall_update trivial fun j => reflects_stale _ (s.calls j), .inr ⟨i, ?_⟩⟩
  · simp only [books.stored, Option.getD_some, books.distribution, Histogram.inc]
  · simp only [books.stored, Option.getD_some, books.verifiedCount]
    cases before.verifiedPurchase with
    | true => rfl
    | false => simp
  · have sum := sum_update s.calls i (.rereading productId) (owes bucket)
    have balance := books.balance bucket
    have paid : (s.calls i).owes bucket = if before.rating.bucket = bucket then delta else 0 := by
      rw [at']
      rfl
    have done : (rereading productId).owes bucket = 0 := rfl
    rw [paid, done] at sum
    rw [sum]
    change _ = s.db.tally productId bucket
    by_cases same : before.rating.bucket = bucket
    · subst same
      rw [if_pos rfl, update_self]
      omega
    · rw [if_neg same, update_of_ne (Ne.symm same)]
      omega
  · have sum := sum_update s.calls i (.rereading productId) owesVerified
    have buyers := books.buyers
    have paid : (s.calls i).owesVerified =
        if before.verifiedPurchase = true then delta else 0 := by
      rw [at']
      rfl
    have done : (rereading productId).owesVerified = 0 := rfl
    rw [paid, done] at sum
    rw [sum]
    change _ = s.db.verified productId
    omega
  · change (update s.calls i (.rereading productId) i).mends _ = true
    rw [update_self]
    rfl

/-- **The derived figures are written** as the histogram has them, or another call will
write them. -/
theorem Panel.Balanced.overwrite (balanced : s.Balanced productId) {named : String} {average : ℚ}
    {count : Int} (at' : s.calls i = .overwriting named average count)
    (mended : ∃ j, (s.calls j).mends (s.fresh j) = true) :
    (s.step (.run i)).Balanced productId := by
  obtain ⟨summary, counts, verified, books⟩ := balanced.books
  have knows : (overwriting named average count).Knows s.db productId :=
    at' ▸ balanced.knows i
  have same : named = productId := knows
  subst same
  have outcome : s.db.advance (s.calls i) = (s.db.overwrite named average count, .returned) := by
    rw [at']
    rfl
  have fresh : s.freshened i = s.fresh := by
    rw [Panel.freshened, at']
  simp only [Panel.step, outcome, fresh]
  have reviews := overwrite_reviews s.db named average count
  obtain ⟨tally, buyers⟩ := count_congr reviews named
  have knows : ∀ j, (s.calls j).Knows (s.db.overwrite named average count) named := by
    intro j
    have before := balanced.knows j
    cases calls : s.calls j with
    | reading call =>
      rw [calls] at before
      exact fun review found => before review ((findReview_congr reviews _).symm.trans found)
    | writing review call =>
      rw [calls] at before
      obtain ⟨about, other, found, like⟩ := before
      exact ⟨about, other, (findReview_congr reviews _).trans found, like⟩
    | _ =>
      rw [calls] at before
      exact before
  refine ⟨reviews.symm ▸ balanced.distinct,
    forall_update (P := fun _ phase => phase.Knows (s.db.overwrite named average count) named)
      trivial knows,
    _, counts, verified, overwrite_self books.stored average count, books.distribution,
    books.verifiedCount, fun bucket => ?_, ?_,
    forall_update (P := fun j phase => phase.Reflects counts (s.fresh j)) trivial books.reflects,
    ?_⟩
  · rw [congrFun tally bucket, sum_update_of_eq s.calls i (by rw [at']; rfl)]
    exact books.balance bucket
  · rw [buyers, sum_update_of_eq s.calls i (by rw [at']; rfl)]
    exact books.buyers
  · obtain ⟨j, mending⟩ := mended
    by_cases own : j = i
    · subst own
      have reflects := books.reflects j
      rw [at'] at mending reflects
      have current : (average, count) = summarise counts := reflects mending
      rw [← current]
      exact .inl ⟨rfl, rfl⟩
    · refine .inr ⟨j, ?_⟩
      change (update s.calls i .returned j).mends _ = true
      rw [update_of_ne own]
      exact mending

theorem Panel.Balanced.read (balanced : s.Balanced productId) (at' : s.calls i = .reading call) :
    (s.step (.run i)).Balanced productId := by
  have about : (reading call).Knows s.db productId := at' ▸ balanced.knows i
  have same : s.freshened i = s.fresh := by
    rw [Panel.freshened, at']
  cases found : s.db.findReview call.reviewId with
  | none =>
    have outcome : s.db.advance (.reading call) =
        (s.db, .threw (.reviewNotFound call.reviewId)) := by
      simp only [advance, found]
    exact balanced.idle at' outcome same (fun _ => rfl) trivial (fun _ => rfl) rfl fun _ => trivial
  | some review =>
    by_cases unchanged : review.status = call.decision.status
    · have outcome : s.db.advance (.reading call) = (s.db, .returned) := by
        simp only [advance, found, if_pos unchanged]
      exact balanced.idle at' outcome same (fun _ => rfl) trivial (fun _ => rfl) rfl
        fun _ => trivial
    · exact balanced.idle at' (advance_reading found unchanged) same (fun _ => rfl)
        ⟨about review found, review, found, about review found, rfl, rfl⟩ (fun _ => rfl) rfl
        fun _ => trivial

/-- **The summary is read again**: from now on the call has the figures of the histogram. -/
theorem Panel.Balanced.reread (balanced : s.Balanced productId) {named : String}
    (at' : s.calls i = .rereading named) : (s.step (.run i)).Balanced productId := by
  obtain ⟨summary, counts, verified, books⟩ := balanced.books
  have knows : (rereading named).Knows s.db productId := at' ▸ balanced.knows i
  have same : named = productId := knows
  subst same
  have outcome : s.db.advance (s.calls i) =
      (s.db, .overwriting named (summarise counts).1 (summarise counts).2) := by
    rw [at']
    simp only [advance, afterReread, books.stored, books.distribution, Option.getD_some,
      Histogram.counts?]
  have fresh : s.freshened i = update s.fresh i true := by
    rw [Panel.freshened, at']
  simp only [Panel.step, outcome, fresh]
  refine ⟨balanced.distinct,
    forall_update (P := fun _ phase => phase.Knows s.db named) rfl balanced.knows, summary, counts,
    verified, books.stored, books.distribution, books.verifiedCount, fun bucket => ?_, ?_,
    fun j => ?_, .inr ⟨i, ?_⟩⟩
  · rw [sum_update_of_eq s.calls i (by rw [at']; rfl)]
    exact books.balance bucket
  · rw [sum_update_of_eq s.calls i (by rw [at']; rfl)]
    exact books.buyers
  · dsimp only
    by_cases own : j = i
    · subst own
      rw [update_self, update_self]
      intro _
      rfl
    · rw [update_of_ne own, update_of_ne own]
      exact books.reflects j
  · change (update s.calls i _ i).mends (update s.fresh i true i) = true
    rw [update_self, update_self]
    rfl

theorem Phase.idle_of_over (ended : phase.over = true) :
    (∀ bucket, phase.owes bucket = 0) ∧ phase.owesVerified = 0 ∧
      ∀ fresh, phase.mends fresh = false := by
  cases phase with
  | returned | threw => exact ⟨fun _ => rfl, rfl, fun _ => rfl⟩
  | _ => cases ended

theorem Panel.Balanced.step (balanced : s.Balanced productId) (turn : Turn ι)
    (concerned : s.concerns productId turn = true) (sane : s.corrupts turn = false) :
      (s.step turn).Balanced productId := by
  cases turn with
  | start i call =>
    simp only [Panel.step]
    cases ended : (s.calls i).over with
    | false => exact balanced
    | true =>
      obtain ⟨free, freeVerified, idle⟩ := idle_of_over ended
      have about : (reading call).Knows s.db productId := fun review found => by
        simpa [Panel.concerns, found] using concerned
      exact balanced.set i (idle _) about (fun bucket => (free bucket).symm)
        freeVerified.symm fun _ => trivial
  | run i =>
    cases at' : s.calls i with
    | reading call => exact balanced.read at'
    | writing before call =>
      simp only [Panel.corrupts, at'] at sane
      exact balanced.write at' sane
    | incrementing before delta now => exact balanced.increment at'
    | rereading named => exact balanced.reread at'
    | overwriting named average count =>
      simp only [Panel.corrupts, at', decide_eq_false_iff_not, not_forall,
        Bool.not_eq_false] at sane
      exact balanced.overwrite at' sane
    | returned | threw =>
      exact balanced.idle at' rfl (by rw [Panel.freshened, at']) (fun _ => rfl) trivial
        (fun _ => rfl) rfl fun _ => trivial

/-- **Moderators at the same time.** From a right summary, in every run of concurrent calls
on reviews of the product without a corrupting turn, the summary is right whenever all calls
are over. -/
theorem settled_right {db : Database} (right : db.Right productId)
    (reached : ((Panel.system ι db).restrict fun s turn =>
      s.concerns productId turn = true ∧ s.corrupts turn = false).Reachable s)
    (settled : ∀ i, (s.calls i).over = true) :
    ∃ summary, s.db.summaries productId = some summary ∧
      summary.Shows (s.db.tally productId) (s.db.verified productId) := by
  have balanced : s.Balanced productId := by
    refine reached.invariant (I := fun s => s.Balanced productId) (fun start initial => ?_) ?_
    · cases initial
      obtain ⟨summary, stored, shows⟩ := right.shows
      exact ⟨right.distinct, fun _ => trivial, summary, _, _, stored,
        shows.distribution, shows.verifiedCount, fun bucket => by simp [owes],
        by simp [owesVerified], fun _ => trivial, .inl ⟨shows.average, shows.count⟩⟩
    · rintro before turn after balanced ⟨⟨concerned, sane⟩, rfl⟩
      exact balanced.step turn concerned sane
  have idle := fun i => idle_of_over (settled i)
  obtain ⟨summary, counts, verified, books⟩ := balanced.books
  have tally : s.db.tally productId = counts := by
    funext bucket
    have balance := books.balance bucket
    simp only [(idle _).1, sum_const_zero, Int.add_zero] at balance
    exact balance.symm
  have buyers : s.db.verified productId = verified := by
    have buyers := books.buyers
    simp only [(idle _).2.1, sum_const_zero, Int.add_zero] at buyers
    exact buyers.symm
  refine ⟨summary, books.stored, ?_⟩
  rw [tally, buyers]
  rcases books.derived with ⟨average, count⟩ | ⟨i, mending⟩
  · exact ⟨books.distribution, books.verifiedCount, average, count⟩
  · rw [(idle i).2.2] at mending
    cases mending

end Balance

def pendingReview (id userId : String) (stars : Rating) : Review where
  id := id
  productId := "prd_1"
  userId := userId
  authorName := "A customer"
  rating := stars
  title := "Good"
  body := "It does what it says."
  images := []
  locale := "en-GB"
  verifiedPurchase := false
  status := .pendingModeration
  autoFlags := []
  createdAt := 0
  updatedAt := 0

/-- The summary of a product without published reviews. -/
def unrated : RatingSummary where
  average := some 0
  count := some 0
  distribution := some (.array emptyDistribution)
  verifiedCount := some 0

def waiting : Database where
  reviews := [pendingReview "rev_1" "usr_1" .best,
    pendingReview "rev_2" "usr_2" ⟨4, by decide, by decide⟩]
  summaries := update (fun _ => none) "prd_1" (some unrated)

theorem waiting_right : waiting.Right "prd_1" where
  distinct := by decide
  shows := by
    have none : waiting.tally "prd_1" = emptyDistribution := by
      funext bucket
      exact (by decide +kernel : ∀ bucket, waiting.tally "prd_1" bucket = 0) bucket
    have stored : waiting.summaries "prd_1" = some unrated := by
      simp only [waiting, update_self]
    rw [none]
    refine ⟨unrated, stored, rfl, ?_, ?_, ?_⟩
    · decide +kernel
    · decide +kernel
    · decide +kernel

/-- Two moderators publish two reviews at the same time, operation by operation. -/
theorem settled_right_two :
    let turns : List (Turn (Fin 2)) :=
      .start 0 ⟨"rev_1", .published, "mod_1", none, 1⟩ ::
        .start 1 ⟨"rev_2", .published, "mod_2", none, 1⟩ ::
        (List.replicate 5 [Turn.run 0, .run 1]).flatten
    let after := turns.foldl Panel.step { db := waiting }
    ∃ summary, after.db.summaries "prd_1" = some summary ∧
      summary.Shows (after.db.tally "prd_1") (after.db.verified "prd_1") := by
  intro turns after
  exact settled_right waiting_right (System.Reachable.foldl_restrict (by decide +kernel))
    (by decide +kernel)

/-- Two moderators publish the same review: both have read it as pending, and it counts
twice. -/
theorem double_publish_counts_twice :
    ¬ ∀ s : Panel (Fin 2), ((Panel.system (Fin 2) waiting).restrict fun s turn =>
        s.concerns "prd_1" turn = true).Reachable s → (∀ i, (s.calls i).over = true) →
      ∃ summary, s.db.summaries "prd_1" = some summary ∧
        summary.Shows (s.db.tally "prd_1") (s.db.verified "prd_1") := by
  intro holds
  let turns : List (Turn (Fin 2)) :=
    .start 0 ⟨"rev_1", .published, "mod_1", none, 1⟩ ::
      .start 1 ⟨"rev_1", .published, "mod_2", none, 1⟩ ::
      (List.replicate 5 [Turn.run 0, .run 1]).flatten
  obtain ⟨summary, stored, shows⟩ := holds (turns.foldl Panel.step { db := waiting })
    (System.Reachable.foldl_restrict (by decide +kernel)) (by decide +kernel)
  have count := shows.count
  have counted := congrArg (Option.bind · RatingSummary.count) stored
  rw [Option.bind_some, count] at counted
  revert counted
  decide +kernel

end Souq.Reviews
