import Mathlib.Data.List.Nodup
import Mathlib.Data.Rat.Defs
import Souq.Basic

/-!
# The recommender

`Recommender` of recommendation-service. Amazon Personalize may not be configured, be late, fail
or find too little; then a fallback reads sorted sets of Redis, and one fallback falls through
to another. Only `_same_category` leaves out the product that the page is about.
-/

namespace Souq.Carousels

/-- Where a carousel is shown. -/
inductive Placement where
  | homeForYou
  | pdpSimilar
  | pdpFbt
  | cartUpsell
  | searchReranked
  | emailWinback
  deriving DecidableEq

/-- What fills a carousel without Personalize. -/
inductive Fallback where
  | bestsellers
  | sameCategory
  | accessories
  | identity

/-- A placement's campaign. -/
structure CampaignConfig where
  arn : String
  cacheTtl : Nat
  fallback : Fallback

def campaigns (arn : Placement → String) : Placement → CampaignConfig
  | .homeForYou => ⟨arn .homeForYou, 900, .bestsellers⟩
  | .pdpSimilar => ⟨arn .pdpSimilar, 3600, .sameCategory⟩
  | .pdpFbt => ⟨arn .pdpFbt, 3600, .sameCategory⟩
  | .cartUpsell => ⟨arn .cartUpsell, 60, .accessories⟩
  | .searchReranked => ⟨arn .searchReranked, 300, .identity⟩
  | .emailWinback => ⟨arn .emailWinback, 86400, .bestsellers⟩

/-- One item of a carousel. -/
structure Recommendation where
  productId : String
  score : Option ℚ
  reason : Option String

/-- A carousel as it is served. -/
structure Result where
  recommendationId : String
  placement : Placement
  items : List Recommendation
  fallback : Bool
  fallbackReason : Option String

/-- What is asked of a carousel. Its count is positive, as the route checks. -/
structure Request where
  placement : Placement
  userId : Option String := none
  itemId : Option String := none
  itemIds : Option (List String) := none
  count : Nat := 10
  context : Option (List (String × String)) := none
  positive : 1 ≤ count := by decide

/-- A list from Personalize: so many items as were asked for, all different, and not the one that
is viewed. -/
structure Ranking (request : Request) where
  items : List (String × Option ℚ)
  distinct : (items.map Prod.fst).Nodup
  few : items.length ≤ request.count
  other : ∀ i ∈ items, request.itemId ≠ some i.1

/-- How the call of Personalize ends. -/
inductive Outcome (request : Request) where
  | timeout
  | error (name : String)
  | answered (ranking : Ranking request)

/-- A sorted set, from the highest score down. Its members are bytes. -/
structure SortedSet where
  members : List (ByteArray × ℚ)
  distinct : (members.map Prod.fst).Nodup
  falling : members.Pairwise fun above below => below.2 ≤ above.2

def SortedSet.zrevrange (set : SortedSet) (stop : Int) : List (ByteArray × ℚ) :=
  set.members.take ((if stop < 0 then stop + set.members.length else stop) + 1).toNat

structure Product where
  categoryPath : Option (List String)

/-- What the fallbacks read. A read may raise. -/
structure Stores where
  zset : String → Option SortedSet
  product : String → Option (Option Product)

def Stores.zrevrange (stores : Stores) (key : String) (stop : Int) :
    Option (List (ByteArray × ℚ)) :=
  (stores.zset key).map fun set => set.zrevrange stop

def recommended (reason : String) (member : ByteArray × ℚ) : Option Recommendation :=
  (String.fromUTF8? member.1).map fun pid => ⟨pid, some member.2, some reason⟩

def bestsellers (stores : Stores) (count : Nat) : Option (List Recommendation) := do
  let raw ← stores.zrevrange "recs:bestsellers:30d" (count - 1)
  raw.mapM (recommended "bestseller")

def sameCategoryLoop (itemId : String) (count : Nat) :
    List (ByteArray × ℚ) → List Recommendation → Option (List Recommendation)
  | [], out => some out
  | member :: rest, out => do
    let found ← recommended "same_category" member
    if found.productId = itemId then sameCategoryLoop itemId count rest out
    else if count ≤ out.length + 1 then return out ++ [found]
    else sameCategoryLoop itemId count rest (out ++ [found])

/-- `categoryPath[-1]`, where there is one. -/
def Product.leaf (product : Option Product) : Option String :=
  product.bind fun product => product.categoryPath.bind List.getLast?

def sameCategory (stores : Stores) (itemId : String) (count : Nat) :
    Option (List Recommendation) := do
  match Product.leaf (← stores.product itemId) with
  | none => bestsellers stores count
  | some leaf =>
    let raw ← stores.zrevrange ("recs:category:" ++ leaf) count
    sameCategoryLoop itemId count raw []

def accessories (stores : Stores) (itemId : String) (count : Nat) :
    Option (List Recommendation) := do
  let raw ← stores.zrevrange ("recs:bought_with:" ++ itemId) (count - 1)
  if raw = [] then sameCategory stores itemId count
  else raw.mapM (recommended "frequently_bought_together")

/-- The items of a fallback. An exception leaves none, and so does an item id that is missing or
empty where one is needed. -/
def fallbackItems (stores : Stores) (fallback : Fallback) (itemId : Option String) (count : Nat) :
    List Recommendation :=
  match fallback, itemId.filter fun id => id ≠ "" with
  | .bestsellers, _ => (bestsellers stores count).getD []
  | .sameCategory, some itemId => (sameCategory stores itemId count).getD []
  | .accessories, some itemId => (accessories stores itemId count).getD []
  | _, _ => []

/-- One call of `recommend`, with what it finds. -/
structure Call where
  request : Request
  personalize : Outcome request
  stores : Stores
  now : Time
  cacheReads : Bool := true
  cacheWrites : Bool := true

/-- What a cache key is the hash of. -/
structure Payload where
  p : Placement
  u : Option String
  i : Option String
  l : List String
  n : Nat
  c : List (String × String)
  deriving DecidableEq

def Request.cacheKey (request : Request) : Payload where
  p := request.placement
  u := request.userId
  i := request.itemId
  l := (request.itemIds.getD []).mergeSort fun a b => decide (a ≤ b)
  n := request.count
  c := (request.context.getD []).mergeSort fun a b => decide (a.1 ≤ b.1)

/-- A carousel as the cache keeps it. -/
structure Cached where
  placement : Placement
  items : List Recommendation
  fallback : Bool
  fallbackReason : Option String
  expires : Time

abbrev Cache := Payload → Option Cached

/-- The service's configuration, and how it names a carousel. -/
structure Recommender where
  fallbackOnly : Bool
  arn : Placement → String
  newRecommendationId : Placement → Option String → Time → String

namespace Recommender

variable (r : Recommender)

def fallback (call : Call) (reason : String) : Result where
  recommendationId := r.newRecommendationId call.request.placement call.request.userId call.now
  placement := call.request.placement
  items := fallbackItems call.stores (campaigns r.arn call.request.placement).fallback
    call.request.itemId call.request.count
  fallback := true
  fallbackReason := some reason

/-- What is answered without the cache, and how long it is kept. -/
def answer (call : Call) : Result × Nat :=
  let config := campaigns r.arn call.request.placement
  if r.fallbackOnly ∨ config.arn = "" then
    (r.fallback call "personalize_not_configured", config.cacheTtl)
  else
    match call.personalize with
    | .timeout => (r.fallback call "timeout", min config.cacheTtl 60)
    | .error name => (r.fallback call name, min config.cacheTtl 60)
    | .answered ranking =>
      let id := r.newRecommendationId call.request.placement call.request.userId call.now
      let items : List Recommendation := ranking.items.map fun i => ⟨i.1, i.2, none⟩
      if items.length < call.request.count / 2 then
        let topped := r.fallback call "insufficient_personalized_results"
        let seen := items.map Recommendation.productId
        let items := (items ++ topped.items.filter fun i => i.productId ∉ seen).take
          call.request.count
        (⟨id, call.request.placement, items, true, some "cold_start_topped_up"⟩, config.cacheTtl)
      else (⟨id, call.request.placement, items, false, none⟩, config.cacheTtl)

/-- A result from the cache has an id of its own, for which no user is stored. -/
def readCache (cache : Cache) (call : Call) : Option Result :=
  if call.cacheReads then
    ((cache call.request.cacheKey).filter fun kept => call.now < kept.expires).map fun kept =>
      ⟨r.newRecommendationId kept.placement none call.now, kept.placement, kept.items,
        kept.fallback, kept.fallbackReason⟩
  else none

/-- The time to live is in seconds. -/
def writeCache (cache : Cache) (call : Call) (result : Result) (ttl : Nat) : Cache :=
  if call.cacheWrites then
    Function.update cache call.request.cacheKey (some ⟨result.placement, result.items,
      result.fallback, result.fallbackReason, call.now + ttl * 1000000⟩)
  else cache

def recommend (cache : Cache) (call : Call) : Result × Cache :=
  match r.readCache cache call with
  | some cached => (cached, cache)
  | none =>
    let (result, ttl) := r.answer call
    (result, writeCache cache call result ttl)

end Recommender

end Souq.Carousels
