import Mathlib.Data.List.Forall2
import Souq.Carousels.Recommender
import Souq.Lib.Transition

/-!
# The products of a carousel

No product is shown twice, and no more are shown than were asked for. The product that the page is
about is shown where a sorted set is passed on unfiltered: the bestsellers and what was bought with
it. `well_formed_throughout_iff` has the exact condition, for results from the cache as well.
-/

namespace Souq.Carousels

open Transition List

/-- No product twice, no more than were asked for, and not the one of the page. -/
structure WellFormed (request : Request) (items : List Recommendation) : Prop where
  distinct : (items.map Recommendation.productId).Nodup
  few : items.length ≤ request.count
  other : ∀ i ∈ items, request.itemId ≠ some i.productId

/-- The first members of a set, unless one of them is not UTF-8. -/
def listed (stores : Stores) (key : String) (count : Nat) : List String :=
  ((stores.zrevrange key (count - 1)).bind fun raw =>
    raw.mapM fun member => String.fromUTF8? member.1).getD []

/-- A product without a category gets the bestsellers. -/
def uncategorised (stores : Stores) (itemId : String) : Option String := do
  match Product.leaf (← stores.product itemId) with
  | none => some "recs:bestsellers:30d"
  | some _ => none

/-- The set that a fallback passes on as it is. -/
def unfiltered (stores : Stores) (fallback : Fallback) (itemId : Option String) (count : Nat) :
    Option String :=
  match fallback, itemId.filter fun id => id ≠ "" with
  | .bestsellers, _ => some "recs:bestsellers:30d"
  | .sameCategory, some itemId => uncategorised stores itemId
  | .accessories, some itemId => do
    let raw ← stores.zrevrange ("recs:bought_with:" ++ itemId) (count - 1)
    if raw = [] then uncategorised stores itemId else some ("recs:bought_with:" ++ itemId)
  | _, _ => none

section

variable {stores : Stores} {key reason itemId : String} {count : Nat}
  {raw : List (ByteArray × ℚ)} {items : List Recommendation}

theorem toUTF8_of_fromUTF8? {bytes : ByteArray} {text : String}
    (decoded : String.fromUTF8? bytes = some text) : text.toUTF8 = bytes := by
  unfold String.fromUTF8? at decoded
  split at decoded
  · cases decoded
    rfl
  · cases decoded

theorem zrevrange_sublist {stop : Int} (read : stores.zrevrange key stop = some raw) :
    ∃ set : SortedSet, raw.Sublist set.members := by
  obtain ⟨set, -, rfl⟩ := Option.map_eq_some_iff.mp read
  exact ⟨set, take_sublist _ _⟩

theorem zrevrange_nodup {stop : Int} (read : stores.zrevrange key stop = some raw) :
    (raw.map Prod.fst).Nodup := by
  obtain ⟨set, part⟩ := zrevrange_sublist read
  exact set.distinct.sublist (part.map _)

theorem zrevrange_length (positive : 1 ≤ count)
    (read : stores.zrevrange key (count - 1) = some raw) : raw.length ≤ count := by
  obtain ⟨set, -, rfl⟩ := Option.map_eq_some_iff.mp read
  rw [SortedSet.zrevrange, if_neg (by omega)]
  exact (length_take_le _ _).trans (by omega)

theorem bytes_of_mapM {ids : List String}
    (decoded : (raw.mapM fun member => String.fromUTF8? member.1) = some ids) :
    ids.map String.toUTF8 = raw.map Prod.fst := by
  induction raw generalizing ids with
  | nil =>
    cases decoded
    rfl
  | cons member raw ih =>
    obtain ⟨pid, read, rest, others, rfl⟩ : ∃ pid, String.fromUTF8? member.1 = some pid ∧
        ∃ rest, (raw.mapM fun member => String.fromUTF8? member.1) = some rest ∧
          pid :: rest = ids := by
      simpa [mapM_cons, Option.bind_eq_some_iff] using decoded
    rw [map_cons, map_cons, ih others, toUTF8_of_fromUTF8? read]

theorem listed_nodup : (listed stores key count).Nodup := by
  unfold listed
  cases read : stores.zrevrange key (count - 1) with
  | none => exact nodup_nil
  | some raw =>
    rw [Option.bind_some]
    cases decoded : raw.mapM fun member => String.fromUTF8? member.1 with
    | none => exact nodup_nil
    | some ids =>
      have bytes := zrevrange_nodup read
      rw [← bytes_of_mapM decoded] at bytes
      exact bytes.of_map _

theorem listed_length (positive : 1 ≤ count) : (listed stores key count).length ≤ count := by
  unfold listed
  cases read : stores.zrevrange key (count - 1) with
  | none => exact Nat.zero_le _
  | some raw =>
    rw [Option.bind_some]
    cases decoded : raw.mapM fun member => String.fromUTF8? member.1 with
    | none => exact Nat.zero_le _
    | some ids =>
      have same := congrArg List.length (bytes_of_mapM decoded)
      rw [length_map, length_map] at same
      exact same.le.trans (zrevrange_length positive read)

theorem products_of_mapM (reason : String) : ((raw.mapM (recommended reason)).map fun items =>
    items.map Recommendation.productId) = raw.mapM fun member => String.fromUTF8? member.1 := by
  induction raw with
  | nil => rfl
  | cons member raw ih =>
    rw [mapM_cons, mapM_cons, ← ih]
    cases read : String.fromUTF8? member.1 <;>
      cases raw.mapM (recommended reason) <;> simp [recommended, read]

theorem products_eq_listed (reason : String) :
    (((stores.zrevrange key (count - 1)).bind fun raw =>
      raw.mapM (recommended reason)).getD []).map Recommendation.productId =
        listed stores key count := by
  unfold listed
  cases stores.zrevrange key (count - 1) with
  | none => rfl
  | some raw =>
    rw [Option.bind_some, Option.bind_some, ← products_of_mapM reason]
    cases raw.mapM (recommended reason) <;> rfl

/-- The loop appends members of the set in their order, but not the product itself. -/
theorem of_sameCategoryLoop {out : List Recommendation} (room : out.length < count)
    (ran : sameCategoryLoop itemId count raw out = some items) :
    ∃ more, items = out ++ more ∧ items.length ≤ count ∧
      ((more.map Recommendation.productId).map String.toUTF8).Sublist (raw.map Prod.fst) ∧
        ∀ i ∈ more, i.productId ≠ itemId := by
  induction raw generalizing out with
  | nil =>
    cases ran
    exact ⟨[], (append_nil _).symm, room.le, List.Sublist.refl _, nofun⟩
  | cons member raw ih =>
    obtain ⟨found, read, ran⟩ := Option.bind_eq_some_iff.mp ran
    obtain ⟨pid, text, rfl⟩ := Option.map_eq_some_iff.mp read
    split at ran
    · obtain ⟨more, rfl, few, part, other⟩ := ih room ran
      exact ⟨more, rfl, few, part.cons _, other⟩
    · rename_i different
      split at ran
      · cases ran
        refine ⟨_, rfl, ?_, ?_, by simpa using different⟩
        · rw [length_append, length_singleton]
          exact room
        · rw [map_singleton, map_singleton, toUTF8_of_fromUTF8? text]
          exact (nil_sublist _).cons_cons _
      · rename_i more
        obtain ⟨more, rfl, few, part, other⟩ := ih (by simp; omega) ran
        refine ⟨_ :: more, append_assoc .., few, ?_, ?_⟩
        · rw [map_cons, map_cons, map_cons, toUTF8_of_fromUTF8? text]
          exact part.cons_cons _
        · exact forall_mem_cons.mpr ⟨different, other⟩

end

/-- The products of a fallback: those of a set as it is, or some without the one on the page. -/
inductive Route (stores : Stores) (itemId : Option String) (count : Nat) :
    Option String → List String → Prop where
  | passed (key : String) : Route stores itemId count (some key) (listed stores key count)
  | filtered {products : List String} (distinct : products.Nodup) (few : products.length ≤ count)
      (other : ∀ id ∈ products, itemId ≠ some id) : Route stores itemId count none products

section

variable {stores : Stores} {fallback : Fallback} {itemId : Option String} {count : Nat}
  {key : Option String} {products : List String}

theorem Route.distinct (route : Route stores itemId count key products) : products.Nodup := by
  cases route with
  | passed => exact listed_nodup
  | filtered distinct => exact distinct

theorem Route.few (positive : 1 ≤ count) (route : Route stores itemId count key products) :
    products.length ≤ count := by
  cases route with
  | passed => exact listed_length positive
  | filtered _ few => exact few

theorem Route.nil : Route stores itemId count none [] := .filtered nodup_nil (Nat.zero_le _) nofun

theorem route_bestsellers : Route stores itemId count (some "recs:bestsellers:30d")
    (((bestsellers stores count).getD []).map Recommendation.productId) := by
  rw [bestsellers, Option.bind_eq_bind, products_eq_listed]
  exact .passed _

theorem route_sameCategory (positive : 1 ≤ count) (item : String) :
    Route stores (some item) count (uncategorised stores item)
      (((sameCategory stores item count).getD []).map Recommendation.productId) := by
  unfold uncategorised sameCategory
  cases stores.product item with
  | none => exact .nil
  | some product =>
    rw [Option.bind_eq_bind, Option.bind_some, Option.bind_eq_bind, Option.bind_some]
    cases Product.leaf product with
    | none => exact route_bestsellers
    | some leaf =>
      simp only [Option.bind_eq_bind]
      cases read : stores.zrevrange ("recs:category:" ++ leaf) count with
      | none => exact .nil
      | some raw =>
        rw [Option.bind_some]
        cases ran : sameCategoryLoop item count raw [] with
        | none => exact .nil
        | some items =>
          obtain ⟨_, rfl, few, part, other⟩ := of_sameCategoryLoop (by simpa) ran
          refine .filtered ((zrevrange_nodup read).sublist part).of_map ?_ fun id member => ?_
          · rwa [length_map]
          · obtain ⟨i, inside, rfl⟩ := mem_map.mp member
            exact fun same => other i inside (Option.some.inj same).symm

theorem route (positive : 1 ≤ count) :
    Route stores itemId count (unfiltered stores fallback itemId count)
      ((fallbackItems stores fallback itemId count).map Recommendation.productId) := by
  unfold unfiltered fallbackItems
  cases given : itemId.filter fun id => id ≠ "" with
  | none => cases fallback <;> first | exact route_bestsellers | exact .nil
  | some item =>
    obtain rfl : itemId = some item := (Option.filter_eq_some_iff.mp given).1
    cases fallback with
    | bestsellers => exact route_bestsellers
    | identity => exact .nil
    | sameCategory => exact route_sameCategory positive item
    | accessories =>
      have products : _ = listed stores ("recs:bought_with:" ++ item) count :=
        products_eq_listed "frequently_bought_together"
      simp only [accessories, Option.bind_eq_bind]
      cases read : stores.zrevrange ("recs:bought_with:" ++ item) (count - 1) with
      | none => exact .nil
      | some raw =>
        rw [read, Option.bind_some] at products
        simp only [Option.bind_some]
        split
        · exact route_sameCategory positive item
        · exact products ▸ .passed _

end

/-- The products from the model, where a fallback is asked for what comes after them. -/
def Recommender.ahead (r : Recommender) (call : Call) : Option (List String) :=
  if r.fallbackOnly ∨ (campaigns r.arn call.request.placement).arn = "" then some []
  else
    match call.personalize with
    | .timeout | .error _ => some []
    | .answered ranking =>
      if ranking.items.length < call.request.count / 2 then some (ranking.items.map Prod.fst)
      else none

/-- The fallback passes on a set with the product of the page, which has a place on the carousel
among the products that the model did not name. -/
def Recommender.Shows (r : Recommender) (call : Call) (ahead : List String) : Prop :=
  ∃ item key, call.request.itemId = some item ∧
    unfiltered call.stores (campaigns r.arn call.request.placement).fallback call.request.itemId
      call.request.count = some key ∧
    item ∈ listed call.stores key call.request.count ∧
    ahead.length + ((listed call.stores key call.request.count).filter fun id =>
      id ∉ ahead).idxOf item < call.request.count

section

variable {r : Recommender} {call : Call}

theorem wellFormed_iff {request : Request} {items : List Recommendation} {products : List String}
    (same : items.map Recommendation.productId = products) :
    WellFormed request items ↔ products.Nodup ∧ products.length ≤ request.count ∧
      ∀ item, request.itemId = some item → item ∉ products := by
  subst same
  constructor
  · intro formed
    refine ⟨formed.distinct, by simpa using formed.few, fun item own member => ?_⟩
    obtain ⟨i, inside, rfl⟩ := mem_map.mp member
    exact formed.other i inside own
  · rintro ⟨distinct, few, other⟩
    refine ⟨distinct, by simpa using few, fun i inside own => ?_⟩
    exact other _ own (mem_map_of_mem inside)

theorem wellFormed_ranking {request : Request} (ranking : Ranking request) :
    WellFormed request (ranking.items.map fun i => ⟨i.1, i.2, none⟩) := by
  refine ⟨?_, ?_, ?_⟩
  · rw [map_map]
    exact ranking.distinct
  · simpa using ranking.few
  · intro i member
    obtain ⟨pair, inside, rfl⟩ := mem_map.mp member
    exact ranking.other pair inside

theorem topped_iff {ahead products : List String} {key : Option String}
    (distinct : ahead.Nodup) (other : ∀ item, call.request.itemId = some item → item ∉ ahead)
    (route : Route call.stores call.request.itemId call.request.count key products)
    (reads : key = unfiltered call.stores (campaigns r.arn call.request.placement).fallback
      call.request.itemId call.request.count)
    {items : List Recommendation}
    (same : items.map Recommendation.productId =
      (ahead ++ products.filter fun id => id ∉ ahead).take call.request.count) :
    WellFormed call.request items ↔ ¬ r.Shows call ahead := by
  have nodup : (ahead ++ products.filter fun id => id ∉ ahead).Nodup := by
    refine nodup_append.mpr ⟨distinct, route.distinct.filter _, fun a before b later => ?_⟩
    rintro rfl
    simp [before] at later
  rw [wellFormed_iff same, and_iff_right (nodup.sublist (take_sublist _ _)),
    and_iff_right (length_take_le _ _)]
  have shown (item : String) (apart : item ∉ ahead) :
      item ∈ (ahead ++ products.filter fun id => id ∉ ahead).take call.request.count ↔
        item ∈ products ∧ ahead.length + (products.filter fun id => id ∉ ahead).idxOf item <
            call.request.count := by
    have place : (ahead ++ products.filter fun id => id ∉ ahead).idxOf item =
        ahead.length + (products.filter fun id => id ∉ ahead).idxOf item :=
      idxOf_append_of_notMem apart
    constructor
    · intro member
      have inside := mem_of_mem_take member
      rw [mem_take_iff_idxOf_lt inside, place] at member
      rcases mem_append.mp inside with early | late
      · exact (apart early).elim
      · exact ⟨mem_of_mem_filter late, member⟩
    · rintro ⟨member, early⟩
      rw [mem_take_iff_idxOf_lt, place]
      · exact early
      · exact mem_append_right _ (mem_filter.mpr ⟨member, by simpa using apart⟩)
  cases route with
  | passed key =>
    constructor
    · rintro clean ⟨item, _, own, set, inside⟩
      obtain rfl := Option.some.inj (reads.trans set)
      exact clean item own ((shown item (other item own)).mpr inside)
    · intro hidden item own member
      exact hidden ⟨item, key, own, reads.symm, (shown item (other item own)).mp member⟩
  | filtered _ _ leaves =>
    refine iff_of_true (fun item own member => ?_) ?_
    · exact leaves item ((shown item (other item own)).mp member).1 own
    · rintro ⟨_, _, -, set, -⟩
      cases reads.trans set

theorem fallback_iff (reason : String) :
    WellFormed call.request (r.fallback call reason).items ↔ ¬ r.Shows call [] := by
  have positive := call.request.positive
  have asked : Route call.stores call.request.itemId call.request.count _
      ((r.fallback call reason).items.map Recommendation.productId) := route positive
  refine topped_iff nodup_nil (fun _ _ => not_mem_nil) asked rfl ?_
  have all := take_of_length_le (asked.few positive)
  simpa [Recommender.fallback] using all.symm

/-- **A fresh answer** is well formed unless the fallback shows the product of the page. -/
theorem answer_iff : WellFormed call.request (r.answer call).1.items ↔
    ¬ ∃ ahead, r.ahead call = some ahead ∧ r.Shows call ahead := by
  have alone (reason : String) : WellFormed call.request (r.fallback call reason).items ↔
      ¬ ∃ ahead, some [] = some ahead ∧ r.Shows call ahead := by
    simpa using fallback_iff reason
  by_cases off : r.fallbackOnly ∨ (campaigns r.arn call.request.placement).arn = ""
  · simp only [Recommender.answer, Recommender.ahead, if_pos off]
    exact alone _
  simp only [Recommender.answer, Recommender.ahead, if_neg off]
  cases call.personalize with
  | timeout => exact alone _
  | error name => exact alone _
  | answered ranking =>
    simp only [length_map, map_map]
    by_cases short : ranking.items.length < call.request.count / 2
    · simp only [if_pos short, Option.some.injEq, exists_eq_left']
      refine topped_iff ranking.distinct (fun item own member => ?_)
        (route call.request.positive) rfl ?_
      · obtain ⟨i, inside, rfl⟩ := mem_map.mp member
        exact ranking.other i inside own
      · rw [map_take, map_append, map_map]
        simp only [Recommender.fallback, filter_map, Function.comp_def]
    · simp only [if_neg short]
      exact iff_of_true (wellFormed_ranking ranking) (by simp)

end

/-- The cache, and what was served with it. -/
structure Desk where
  cache : Cache := fun _ => none
  served : List (Request × Result) := []

/-- One step of a run. -/
inductive Turn where
  | recommend (call : Call)
  /-- A key is evicted. -/
  | evict (key : Payload)

namespace Desk

/-- A call is answered and its result cached, or a key is lost. -/
def step (r : Recommender) (s : Desk) : Turn → Desk
  | .recommend call =>
    let (result, cache) := r.recommend s.cache call
    { cache := cache, served := (call.request, result) :: s.served }
  | .evict key => { s with cache := Function.update s.cache key none }

def Sound (s : Desk) : Prop :=
  ∀ key kept, s.cache key = some kept → ∃ request result,
    (request, result) ∈ s.served ∧ request.cacheKey = key ∧ result.items = kept.items

/-- Every result that was served is well formed. -/
def WellFormed (s : Desk) : Prop :=
  ∀ request result, (request, result) ∈ s.served → Carousels.WellFormed request result.items

/-- A call is not answered from the cache, and its fallback shows the product of the page. -/
def Exposes (r : Recommender) (s : Desk) : Turn → Prop
  | .recommend call => r.readCache s.cache call = none ∧
      ∃ ahead, r.ahead call = some ahead ∧ r.Shows call ahead
  | .evict _ => False

variable {r : Recommender} {s : Desk}

theorem readCache_some {cache : Cache} {call : Call} {result : Result}
    (hit : r.readCache cache call = some result) :
    ∃ kept, cache call.request.cacheKey = some kept ∧ result.items = kept.items := by
  unfold Recommender.readCache at hit
  split at hit
  · obtain ⟨kept, found, rfl⟩ := Option.map_eq_some_iff.mp hit
    exact ⟨kept, (Option.filter_eq_some_iff.mp found).1, rfl⟩
  · cases hit

theorem Sound.step (sound : s.Sound) (turn : Turn) : (s.step r turn).Sound := by
  cases turn with
  | evict key =>
    intro other kept found
    by_cases same : other = key
    · simp [Desk.step, same] at found
    · simp only [Desk.step, Function.update_of_ne same] at found
      exact sound other kept found
  | recommend call =>
    have old {result : Result} {key : Payload} {kept : Cached} (found : s.cache key = some kept) :
        ∃ request other, (request, other) ∈ (call.request, result) :: s.served ∧
          request.cacheKey = key ∧ other.items = kept.items := by
      obtain ⟨request, other, served, keyed, items⟩ := sound key kept found
      exact ⟨request, other, mem_cons_of_mem _ served, keyed, items⟩
    simp only [Desk.step, Recommender.recommend]
    cases r.readCache s.cache call with
    | some cached => exact fun _ _ found => old found
    | none =>
      intro key kept found
      simp only [Recommender.writeCache] at found
      split at found
      · by_cases same : key = call.request.cacheKey
        · subst same
          rw [Function.update_self] at found
          cases found
          exact ⟨call.request, _, mem_cons_self, rfl, rfl⟩
        · rw [Function.update_of_ne same] at found
          exact old found
      · exact old found

theorem Sound.cached (sound : s.Sound) (formed : s.WellFormed) {call : Call} {result : Result}
    (hit : r.readCache s.cache call = some result) :
    Carousels.WellFormed call.request result.items := by
  obtain ⟨kept, found, items⟩ := readCache_some hit
  obtain ⟨request, first, served, keyed, same⟩ := sound _ _ found
  have count : request.count = call.request.count := congrArg Payload.n keyed
  have item : request.itemId = call.request.itemId := congrArg Payload.i keyed
  obtain ⟨distinct, few, other⟩ := formed request first served
  rw [items, ← same]
  exact ⟨distinct, count ▸ few, item ▸ other⟩

theorem Sound.step_iff (sound : s.Sound) (formed : s.WellFormed) (turn : Turn) :
    (s.step r turn).WellFormed ↔ ¬ Exposes r s turn := by
  cases turn with
  | evict key => exact iff_of_true formed id
  | recommend call =>
    have served : (s.step r (.recommend call)).WellFormed ↔
        Carousels.WellFormed call.request (r.recommend s.cache call).1.items := by
      refine ⟨fun all => all _ _ mem_cons_self, fun here request result member => ?_⟩
      rcases mem_cons.mp member with first | before
      · cases first
        exact here
      · exact formed request result before
    rw [served, Recommender.recommend, Exposes]
    cases hit : r.readCache s.cache call with
    | some cached => exact iff_of_true (sound.cached formed hit) fun missed => nomatch missed.1
    | none => simpa using answer_iff

end Desk

/-- **Every carousel of a run is well formed** exactly when no call that the cache does not answer
gets a fallback that shows the product of the page. -/
theorem well_formed_throughout_iff (r : Recommender) (turns : List Turn) :
    (∀ front, front <+: turns → (front.foldl (Desk.step r) {}).WellFormed) ↔
      ∀ front turn, front ++ [turn] <+: turns →
        ¬ Desk.Exposes r (front.foldl (Desk.step r) {}) turn := by
  refine System.throughout_iff (P := Desk.WellFormed)
    (fun _ _ member => (not_mem_nil member).elim) ?_ turns
  intro s turn reached formed
  have sound : s.Sound := by
    refine reached.invariant (I := Desk.Sound) ?_ ?_
    · rintro _ rfl _ _ ⟨⟩
    · rintro s turn _ sound rfl
      exact sound.step turn
  exact sound.step_iff formed turn

/-- No Personalize. -/
def offline : Recommender where
  fallbackOnly := true
  arn _ := ""
  newRecommendationId _ _ _ := ""

/-- The bestsellers are one product. -/
def single : Stores where
  zset key := some (if key = "recs:bestsellers:30d" then
    ⟨[("prd_1".toUTF8, 7)], nodup_singleton _, pairwise_singleton _ _⟩
    else ⟨[], nodup_nil, List.Pairwise.nil⟩)
  product _ := some none

/-- The page of a product that the catalogue does not find is about the bestseller. -/
def viewed : Call where
  request := { placement := .pdpSimilar, itemId := some "prd_1" }
  personalize := .timeout
  stores := single
  now := 0

theorem viewed_shown : ¬ ∀ (r : Recommender) (turns : List Turn) (front : List Turn),
    front <+: turns → (front.foldl (Desk.step r) {}).WellFormed := by
  intro holds
  have formed := holds offline [.recommend viewed] _ (prefix_refl _) _ _ mem_cons_self
  have clean : ¬ ∃ ahead, offline.ahead viewed = some ahead ∧ offline.Shows viewed ahead :=
    answer_iff.mp formed
  have shown : listed single "recs:bestsellers:30d" 10 = ["prd_1"] := by
    have decoded : String.fromUTF8? "prd_1".toByteArray = some "prd_1" :=
      dif_pos "prd_1".isValidUTF8
    simp [listed, Stores.zrevrange, single, SortedSet.zrevrange, decoded]
  refine clean ⟨[], rfl, "prd_1", "recs:bestsellers:30d", rfl, by decide, ?_⟩
  change "prd_1" ∈ listed single "recs:bestsellers:30d" 10 ∧
    0 + ((listed single "recs:bestsellers:30d" 10).filter fun id => id ∉ []).idxOf "prd_1" < 10
  simp [shown]

end Souq.Carousels
