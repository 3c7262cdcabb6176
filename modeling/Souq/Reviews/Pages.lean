import Souq.Lib.Keyset
import Souq.Reviews.Store

/-!
# The reviews of a product, page by page

`listForProduct` of reviews.ts. A cursor is the time of the last review on a page, and the
next page starts strictly below it. MongoDB sorts by the time alone, so that it may list
reviews of one millisecond in any order.
-/

namespace Souq.Reviews.Listing

open List Review

/-- How the collection is sorted, and how a time is written into a cursor. -/
structure Platform where
  sort : List Review → List Review
  encode : Time → String
  decode : String → Time
  sort_perm : ∀ reviews, (sort reviews).Perm reviews
  sort_sorted : ∀ reviews,
    (sort reviews).Pairwise fun above below => below.createdAt ≤ above.createdAt
  decode_encode : ∀ t, decode (encode t) = t
  encode_ne : ∀ t, encode t ≠ ""

/-- Which reviews are listed. -/
structure Options where
  limit : Nat
  verifiedOnly : Bool := false
  rating : Option Nat := none

/-- A page of reviews. -/
structure Page where
  items : List Review
  nextCursor : Option String
  hasMore : Bool

/-- The reviews that a filter without a cursor finds. A rating of zero is no filter. -/
def matching (reviews : List Review) (productId : String) (opts : Options) : List Review :=
  reviews.filter fun r => r.productId = productId && r.status = .published &&
    (!opts.verifiedOnly || r.verifiedPurchase) &&
    (opts.rating.all fun stars => stars = 0 || r.rating.stars = stars)

/-- What is found behind a cursor. -/
def rest (reviews : List Review) (productId : String) (opts : Options) (last : Option Time) :
    List Review :=
  Keyset.below createdAt last (matching reviews productId opts)

/-- The page after a cursor. -/
def listForProduct (p : Platform) (reviews : List Review) (productId : String) (opts : Options)
    (cursor : Option String) : Page :=
  let since := (cursor.filter fun text => text ≠ "").map p.decode
  let found := p.sort (rest reviews productId opts since)
  let rows := found.take (opts.limit + 1)
  let hasMore := decide (opts.limit < rows.length)
  let items := if hasMore then rows.dropLast else rows
  let last := items.getLast?
  ⟨items, if hasMore then last.map fun r => p.encode r.createdAt else none, hasMore⟩

/-- The pages of a caller that follows the cursors. -/
def follow (get : Option String → Page) : Nat → Option String → Option (List Review)
  | 0, _ => none
  | fuel + 1, cursor =>
    let page := get cursor
    if page.hasMore then (follow get fuel page.nextCursor).map (page.items ++ ·)
    else some page.items

/-- No page ends between two reviews of the same millisecond. -/
def Clear (limit : Nat) (times : List Time) : Prop :=
  ∀ k, 0 < k → k * limit < times.length → times[k * limit - 1]? ≠ times[k * limit]?

/-- The times of some reviews, from the latest. -/
def timeline (reviews : List Review) : List Time :=
  (reviews.map createdAt).insertionSort fun above below => below ≤ above

section

variable {limit : Nat} {times : List Time} {listed reviews : List Review}

theorem timeline_eq (same : listed.Perm reviews)
    (sorted : listed.Pairwise fun above below => below.createdAt ≤ above.createdAt) :
    timeline reviews = listed.map createdAt := by
  have perm : (timeline reviews).Perm (listed.map createdAt) :=
    (perm_insertionSort _ _).trans (same.map _).symm
  have : Std.Total fun above below : Time => below ≤ above := ⟨fun a b => le_total _ _⟩
  have : IsTrans Time fun above below => below ≤ above := ⟨fun _ _ _ h h' => h'.trans h⟩
  exact perm.eq_of_pairwise (fun _ _ _ _ h h' => le_antisymm h' h)
    (pairwise_insertionSort _ _) (pairwise_map.mpr sorted)

theorem clear_of_le (few : times.length ≤ limit) : Clear limit times := by
  intro k positive inside
  have : limit ≤ k * limit := Nat.le_mul_of_pos_left limit positive
  omega

theorem clear_iff (positive : 0 < limit) (many : limit < times.length) :
    Clear limit times ↔ times[limit - 1]? ≠ times[limit]? ∧ Clear limit (times.drop limit) := by
  have shift (k : Nat) (page : 0 < k) : limit + (k * limit - 1) = (k + 1) * limit - 1 ∧
      limit + k * limit = (k + 1) * limit := by
    have := Nat.le_mul_of_pos_left limit page
    have : (k + 1) * limit = k * limit + limit := Nat.succ_mul k limit
    omega
  constructor
  · intro clear
    refine ⟨by simpa using clear 1 (by decide) (by simpa using many), fun k page inside => ?_⟩
    rw [length_drop] at inside
    obtain ⟨before, at'⟩ := shift k page
    rw [getElem?_drop, getElem?_drop, before, at']
    exact clear (k + 1) k.succ_pos (by omega)
  · rintro ⟨first, rest⟩ k page inside
    obtain ⟨k, rfl⟩ : ∃ n, k = n + 1 := ⟨k - 1, by omega⟩
    rcases Nat.eq_zero_or_pos k with rfl | later
    · simpa using first
    · obtain ⟨before, at'⟩ := shift k later
      have step := rest k later (by rw [length_drop]; omega)
      rwa [getElem?_drop, getElem?_drop, before, at'] at step

end

section

variable {p : Platform} {reviews : List Review} {productId : String} {opts : Options}
  {last : Option Time}

theorem page_eq (last : Option Time) :
    listForProduct p reviews productId opts (last.map p.encode) =
      let rows := (p.sort (rest reviews productId opts last)).take (opts.limit + 1)
      let items := if opts.limit < rows.length then rows.dropLast else rows
      ⟨items, if opts.limit < rows.length then items.getLast?.map fun r => p.encode r.createdAt
        else none, decide (opts.limit < rows.length)⟩ := by
  have since : ((last.map p.encode).filter fun text => text ≠ "").map p.decode = last := by
    cases last with
    | none => rfl
    | some t => simp [p.encode_ne, p.decode_encode]
  simp only [listForProduct, since, decide_eq_true_eq]

theorem page_few (few : (rest reviews productId opts last).length ≤ opts.limit) :
    listForProduct p reviews productId opts (last.map p.encode) =
      ⟨p.sort (rest reviews productId opts last), none, false⟩ := by
  rw [← (p.sort_perm _).length_eq] at few
  rw [page_eq, take_of_length_le (few.trans (Nat.le_succ _))]
  simp [few]

theorem page_more {front back : List Review} {r : Review}
    (found : p.sort (rest reviews productId opts last) = front ++ r :: back)
    (full : front.length + 1 = opts.limit) (more : back ≠ []) :
    listForProduct p reviews productId opts (last.map p.encode) =
      ⟨front ++ [r], some (p.encode r.createdAt), true⟩ := by
  obtain ⟨next, back, rfl⟩ := exists_cons_of_ne_nil more
  have rows : (front ++ r :: next :: back).take (opts.limit + 1) = front ++ [r] ++ [next] := by
    rw [← full, append_cons, append_cons]
    exact take_left' (by simp)
  rw [page_eq, found, rows]
  simp [← full]

theorem rest_below {r : Review} (member : r ∈ rest reviews productId opts last) :
    rest reviews productId opts (some r.createdAt) =
      (rest reviews productId opts last).filter fun other => other.createdAt < r.createdAt := by
  have under := (mem_filter.mp member).2
  unfold rest Keyset.below
  rw [filter_filter]
  refine filter_congr fun other _ => ?_
  cases last with
  | none => simp
  | some t =>
    simp only [Option.all_some, decide_eq_true_eq] at under
    rw [Option.all_some, Option.all_some, eq_comm, Bool.and_eq_left_iff_imp]
    exact fun less => decide_eq_true ((of_decide_eq_true less).trans under)

/-- What the pages from a cursor on have to do with what is left there. -/
structure Walk (p : Platform) (reviews : List Review) (productId : String) (opts : Options)
    (last : Option Time) (n : Nat) (items : List Review) : Prop where
  ends : ∀ fuel, n < fuel → follow (listForProduct p reviews productId opts) fuel
    (last.map p.encode) = some items
  sorted : items.Pairwise fun above below => below.createdAt ≤ above.createdAt
  mem : ∀ r ∈ items, r ∈ rest reviews productId opts last
  length : items.length ≤ (rest reviews productId opts last).length
  perm_iff : items.Perm (rest reviews productId opts last) ↔
    Clear opts.limit (timeline (rest reviews productId opts last))

theorem walk_few {n : Nat} (few : (rest reviews productId opts last).length ≤ opts.limit) :
    Walk p reviews productId opts last n (p.sort (rest reviews productId opts last)) := by
  have perm := p.sort_perm (rest reviews productId opts last)
  have sorted := p.sort_sorted (rest reviews productId opts last)
  refine ⟨fun fuel some' => ?_, sorted, fun r => perm.mem_iff.mp, perm.length_eq.le, ?_⟩
  · obtain ⟨fuel, rfl⟩ : ∃ m, fuel = m + 1 := ⟨fuel - 1, by omega⟩
    rw [follow, page_few few]
    rfl
  · refine iff_of_true perm (clear_of_le ?_)
    rwa [timeline_eq perm sorted, length_map, perm.length_eq]

/-- One page and the pages after it: the next cursor stands at its last review. -/
theorem Walk.cons {n : Nat} {front back items : List Review} {r : Review}
    (found : p.sort (rest reviews productId opts last) = front ++ r :: back)
    (full : front.length + 1 = opts.limit) (more : back ≠ [])
    (walk : Walk p reviews productId opts (some r.createdAt) n items) :
    Walk p reviews productId opts last (n + 1) (front ++ r :: items) := by
  have perm := p.sort_perm (rest reviews productId opts last)
  have sorted := p.sort_sorted (rest reviews productId opts last)
  have member : r ∈ rest reviews productId opts last := perm.mem_iff.mp (by simp [found])
  rw [found] at perm sorted
  obtain ⟨above, tail, across⟩ := pairwise_append.mp sorted
  obtain ⟨under, falling⟩ := pairwise_cons.mp tail
  have left : (rest reviews productId opts (some r.createdAt)).Perm
      (back.filter fun other => other.createdAt < r.createdAt) := by
    have none : (front ++ [r]).filter (fun other => other.createdAt < r.createdAt) = [] := by
      refine filter_eq_nil_iff.mpr fun other earlier => ?_
      have : r.createdAt ≤ other.createdAt := by
        rcases mem_append.mp earlier with high | same
        · exact across other high r mem_cons_self
        · rw [mem_singleton.mp same]
      simpa using this
    rw [rest_below member]
    have kept := (perm.filter fun other => other.createdAt < r.createdAt).symm
    rwa [append_cons, filter_append, none, nil_append] at kept
  have length := walk.length
  rw [left.length_eq] at length
  have shorter := length_filter_le (fun other => decide (other.createdAt < r.createdAt)) back
  have total := perm.length_eq
  rw [length_append, length_cons] at total
  refine ⟨fun fuel enough => ?_, ?_, fun other inside => ?_, ?_, ?_⟩
  · obtain ⟨fuel, rfl⟩ : ∃ m, fuel = m + 1 := ⟨fuel - 1, by omega⟩
    rw [follow, page_more found full more]
    change (follow _ fuel ((some r.createdAt).map p.encode)).map _ = _
    rw [walk.ends fuel (by omega), Option.map_some, append_assoc]
    rfl
  · have low : ∀ other ∈ items, other.createdAt < r.createdAt := fun other inside =>
      of_decide_eq_true (mem_filter.mp (left.mem_iff.mp (walk.mem other inside))).2
    refine pairwise_append.mpr ⟨above, pairwise_cons.mpr
      ⟨fun other inside => (low other inside).le, walk.sorted⟩, fun first early other late => ?_⟩
    have bound := across first early r mem_cons_self
    rcases mem_cons.mp late with rfl | inside
    · exact bound
    · exact (low other inside).le.trans bound
  · rcases mem_append.mp inside with early | late
    · exact perm.mem_iff.mp (mem_append_left _ early)
    · rcases mem_cons.mp late with rfl | later
      · exact member
      · have behind := mem_of_mem_filter (left.mem_iff.mp (walk.mem other later))
        exact perm.mem_iff.mp (mem_append_right _ (mem_cons_of_mem r behind))
  · rw [length_append, length_cons]
    omega
  · obtain ⟨next, behind, rfl⟩ := exists_cons_of_ne_nil more
    have first : (front.map createdAt).length + 1 = opts.limit := by rw [length_map, full]
    have drop : ((front ++ r :: next :: behind).map createdAt).drop opts.limit =
        (next :: behind).map createdAt := by
      rw [map_append, map_cons, append_cons]
      exact drop_left' (by rw [length_append, length_singleton, first])
    have boundary : ((front ++ r :: next :: behind).map createdAt)[opts.limit - 1]? ≠
        ((front ++ r :: next :: behind).map createdAt)[opts.limit]? ↔
          r.createdAt ≠ next.createdAt := by
      simp [← full]
    rw [timeline_eq perm sorted, clear_iff (by omega) (by simp; omega), boundary, drop]
    by_cases tie : r.createdAt = next.createdAt
    · refine iff_of_false (fun whole => ?_) fun clear => clear.1 tie
      have short := length_filter_le (fun other => decide (other.createdAt < r.createdAt)) behind
      have same := whole.length_eq
      rw [filter_cons_of_neg (by simp [tie])] at length
      rw [length_append, length_cons] at same
      rw [length_cons] at total
      omega
    · have low : ∀ other ∈ next :: behind, other.createdAt < r.createdAt := by
        have down := lt_of_le_of_ne (under next mem_cons_self) (Ne.symm tie)
        intro other inside
        rcases mem_cons.mp inside with rfl | later
        · exact down
        · exact ((pairwise_cons.mp falling).1 other later).trans_lt down
      rw [filter_eq_self.mpr fun other inside => decide_eq_true (low other inside)] at left
      have walked := walk.perm_iff
      rw [timeline_eq left.symm falling] at walked
      rw [and_iff_right tie, ← walked]
      constructor
      · intro whole
        have tails := ((perm_append_left_iff front).mp (whole.trans perm.symm)).cons_inv
        exact tails.trans left.symm
      · exact fun whole => ((whole.trans left).cons r |>.append_left front).trans perm

theorem walk (positive : 0 < opts.limit) (n : Nat) (last : Option Time)
    (bound : (rest reviews productId opts last).length ≤ n) :
    ∃ items, Walk p reviews productId opts last n items := by
  induction n generalizing last with
  | zero => exact ⟨_, walk_few (bound.trans (Nat.zero_le _))⟩
  | succ n ih =>
    rcases le_or_gt (rest reviews productId opts last).length opts.limit with few | many
    · exact ⟨_, walk_few few⟩
    · have length := (p.sort_perm (rest reviews productId opts last)).length_eq
      obtain ⟨front, r, back, found, full⟩ : ∃ front r back,
          p.sort (rest reviews productId opts last) = front ++ r :: back ∧
            front.length + 1 = opts.limit := by
        have inside : opts.limit - 1 < (p.sort (rest reviews productId opts last)).length := by
          omega
        refine ⟨_, _, _, (take_append_drop (opts.limit - 1) _).symm.trans
          (congrArg _ (drop_eq_getElem_cons inside)), ?_⟩
        rw [length_take]
        omega
      have member : r ∈ rest reviews productId opts last :=
        (p.sort_perm _).mem_iff.mp (by simp [found])
      have shorter : (rest reviews productId opts (some r.createdAt)).length ≤ n := by
        rw [rest_below member]
        exact Nat.le_of_lt_succ ((length_filter_lt_length_iff_exists.mpr
          ⟨r, member, by simp⟩).trans_le bound)
      obtain ⟨items, walked⟩ := ih _ shorter
      refine ⟨_, walked.cons found full ?_⟩
      rintro rfl
      rw [found, length_append, length_singleton] at length
      omega

/-- Following the cursors from the first page ends and finds every review of the filter once, the
latest first. -/
def Exact (p : Platform) (reviews : List Review) (productId : String) (opts : Options) : Prop :=
  ∃ items, items.Perm (matching reviews productId opts) ∧
    items.Pairwise (fun above below => below.createdAt ≤ above.createdAt) ∧
    ∀ fuel, items.length < fuel →
      follow (listForProduct p reviews productId opts) fuel none = some items

theorem rest_none : rest reviews productId opts none = matching reviews productId opts :=
  Keyset.below_none _

theorem Walk.exact_iff {n : Nat} {items : List Review}
    (walked : Walk p reviews productId opts none n items)
    (bound : n = (matching reviews productId opts).length) :
    Exact p reviews productId opts ↔ items.Perm (matching reviews productId opts) := by
  constructor
  · rintro ⟨others, whole, -, read⟩
    have same := (read _ (Nat.lt_succ_of_le (le_max_left others.length n))).symm.trans
      (walked.ends _ (Nat.lt_succ_of_le (le_max_right _ _)))
    exact Option.some.inj same ▸ whole
  · intro whole
    exact ⟨items, whole, walked.sorted, whole.length_eq.trans bound.symm ▸ walked.ends⟩

/-- The pages end, and they are exact unless one of them ends between two reviews of the same
millisecond. -/
theorem pages_exact_iff (p : Platform) (reviews : List Review) (productId : String)
    (opts : Options) (positive : 1 ≤ opts.limit) :
    (∃ fuel, (follow (listForProduct p reviews productId opts) fuel none).isSome) ∧
      (Exact p reviews productId opts ↔
        Clear opts.limit (timeline (matching reviews productId opts))) := by
  obtain ⟨items, walked⟩ : ∃ items, Walk p reviews productId opts none _ items :=
    walk positive _ none (congrArg List.length rest_none).le
  refine ⟨⟨_, Option.isSome_iff_exists.mpr ⟨_, walked.ends _ (Nat.lt_succ_self _)⟩⟩, ?_⟩
  rw [walked.exact_iff rfl, ← rest_none]
  exact walked.perm_iff

end

/-- Times are written as strokes, but for the first moment of 2026. -/
def clock : Platform where
  sort := Keyset.newest createdAt
  encode t := if t = 1767225600000 then "MjAyNi0wMS0wMVQwMDowMDowMC4wMDBa" else
    String.ofList (List.replicate (t + 1) '|')
  decode text := if text = "MjAyNi0wMS0wMVQwMDowMDowMC4wMDBa" then 1767225600000 else
    text.length - 1
  sort_perm := Keyset.newest_perm _
  sort_sorted := Keyset.newest_sorted _
  decode_encode t := by
    by_cases named : t = 1767225600000
    · simp [named]
    · have apart : String.ofList (List.replicate (t + 1) '|') ≠
          "MjAyNi0wMS0wMVQwMDowMDowMC4wMDBa" := by
        intro same
        have := congrArg String.toList same
        simp [replicate_succ] at this
      simp [named, apart]
  encode_ne t := by
    split
    · decide
    · intro empty
      have := congrArg String.toList empty
      simp [replicate_succ] at this

/-- A review of the given moment. -/
def written (id : String) (createdAt : Time) : Review where
  id := id
  productId := "prd_1"
  userId := id
  authorName := "Mona"
  rating := .best
  title := "Good"
  body := "Works as described."
  images := []
  locale := "en"
  verifiedPurchase := true
  status := .published
  autoFlags := []
  createdAt := createdAt
  updatedAt := createdAt

/-- Two reviews of different moments are read one by one. -/
theorem two_moments : Exact clock [written "r1" 1767225600000, written "r2" 1767225599000] "prd_1"
    { limit := 1 } := by
  refine (pages_exact_iff clock _ "prd_1" { limit := 1 } le_rfl).2.mpr fun k positive inside => ?_
  have times : timeline (matching [written "r1" 1767225600000, written "r2" 1767225599000] "prd_1"
    { limit := 1 }) = [1767225600000, 1767225599000] := by decide
  rw [times] at inside ⊢
  obtain rfl : k = 1 := by simp at inside; omega
  decide

/-- The second of two reviews of one millisecond is on no page. -/
theorem one_moment : ¬ ∀ (p : Platform) (reviews : List Review) (productId : String)
    (opts : Options), 1 ≤ opts.limit →
      (∃ fuel, (follow (listForProduct p reviews productId opts) fuel none).isSome) ∧
        Exact p reviews productId opts := by
  intro holds
  have exact := (holds clock [written "r1" 1767225600000, written "r2" 1767225600000] "prd_1"
    { limit := 1 } le_rfl).2
  obtain ⟨items, walked⟩ : ∃ items, Walk clock [written "r1" 1767225600000,
      written "r2" 1767225600000] "prd_1" { limit := 1 } none _ items :=
    walk (by decide) _ none (congrArg List.length rest_none).le
  have whole := (walked.exact_iff rfl).mp exact
  rw [← rest_none] at whole
  have times : timeline (rest [written "r1" 1767225600000, written "r2" 1767225600000] "prd_1"
    { limit := 1 } none) = [1767225600000, 1767225600000] := by decide
  have clear := walked.perm_iff.mp whole
  rw [times] at clear
  exact clear 1 (by decide) (by decide) rfl

end Souq.Reviews.Listing
