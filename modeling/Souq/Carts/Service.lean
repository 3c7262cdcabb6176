import Souq.Basic
import Souq.Lib.Program

/-!
# The cart service

Carts live in Redis: one hash for each cart with its data and a version, and one
key for each user that points to their cart. Every call is a program of Redis
commands, catalog lookups, clock readings and fresh ids. The compare-and-swap
script is one command; a `NOSCRIPT` reply runs nothing and is followed by another
try, so only the try that runs is modelled. How a cart is priced for the answer
is not part of this module: a call ends with the cart and the version that it
hands to `price`.
-/

namespace Souq.Carts

open Transact

def maxLines : Nat := 100

def maxQtyPerLine : Nat := 99

/-- A line as it is stored. -/
structure StoredLine where
  sku : ID
  productId : ID
  quantity : Nat
  addedAtPrice : Int
  addedAt : Time
  deriving DecidableEq

/-- A cart as it is stored. -/
structure StoredCart where
  id : ID
  userId : Option ID
  lines : List StoredLine
  currency : String
  coupons : List String
  countryCode : String
  createdAt : Time
  updatedAt : Time
  deriving DecidableEq

/-- The hash of a cart: its payload and its version. -/
structure Entry where
  data : StoredCart
  version : Nat
  deriving DecidableEq

inductive VariantStatus where
  | active | other
  deriving DecidableEq

/-- What the catalog answers about a SKU. -/
structure Variant where
  productId : ID
  price : Int
  status : VariantStatus

/-- How a call fails. -/
inductive CartError where
  | cartNotFound
  | productNotFound
  | productNotAvailable
  | lineNotFound
  | cartFull
  | cartStale (expected : Nat) (actual : Int)

/-- The keys of Redis, and what the other commands read. -/
structure World where
  carts : ID → Option Entry := fun _ => none
  userIndex : ID → Option ID := fun _ => none
  catalog : ID → Option Variant := fun _ => none
  clock : Time := 0
  /-- The ids drawn so far; an id is never drawn twice. -/
  drawn : Nat := 0

/-- A command to Redis, or a question to the world outside. -/
inductive Command where
  | hmget (cartId : ID)
  | evalsha (cartId : ID) (version : Nat) (payload : StoredCart)
  | get (userId : ID)
  | set (userId cartId : ID)
  | del (cartId : ID)
  | getVariant (sku : ID)
  | now
  | ulid
  deriving DecidableEq

def Command.Answer : Command → Type
  | .hmget _ => Option Entry
  | .evalsha _ _ _ => Int
  | .get _ => Option ID
  | .set _ _ => Unit
  | .del _ => Unit
  | .getVariant _ => Option Variant
  | .now => Time
  | .ulid => ID

/-- What a command changes. -/
inductive Write where
  | cart (cartId : ID) (entry : Option Entry)
  | userIndex (userId cartId : ID)
  | drawn

/-- The compare-and-swap script refuses a stored version other than the
caller's; an absent key is written whatever the caller's version. -/
def casAllows (current : Option Entry) (version : Nat) : Bool :=
  match current with
  | some entry => entry.version == version
  | none => true

def nextVersion (current : Option Entry) : Nat := current.elim 0 Entry.version + 1

def Command.answer : (q : Command) → World → q.Answer
  | .hmget cartId, w => w.carts cartId
  | .evalsha cartId version _, w =>
    if casAllows (w.carts cartId) version then (nextVersion (w.carts cartId) : Int) else (-1 : Int)
  | .get userId, w => w.userIndex userId
  | .set _ _, _ => ()
  | .del _, _ => ()
  | .getVariant sku, w => w.catalog sku
  | .now, w => w.clock
  | .ulid, w => w.drawn

def Command.writes : Command → World → List Write
  | .evalsha cartId version payload, w =>
    if casAllows (w.carts cartId) version then
      [.cart cartId (some ⟨payload, nextVersion (w.carts cartId)⟩)]
    else []
  | .set userId cartId, _ => [.userIndex userId cartId]
  | .del cartId, _ => [.cart cartId none]
  | .ulid, _ => [.drawn]
  | _, _ => []

def Write.put : Write → World → World
  | .cart cartId entry, w => { w with carts := Function.update w.carts cartId entry }
  | .userIndex userId cartId, w =>
    { w with userIndex := Function.update w.userIndex userId (some cartId) }
  | .drawn, w => { w with drawn := w.drawn + 1 }

/-- Redis has no row locks: every command is atomic by itself. -/
def redis : Dialect where
  Db := World
  Stmt := Command
  Answer := Command.Answer
  Write := Write
  Key := Empty
  answer := Command.answer
  writes := Command.writes
  put := Write.put
  keys := fun _ _ => []
  skip := fun _ => none

/-- What a successful call hands to `price`. -/
structure Response where
  cart : StoredCart
  version : Int

abbrev Call := Program redis CartError

def command (q : Command) : Call q.Answer := Program.stmt (D := redis) q

def load (cartId : ID) : Call (Option Entry) := command (.hmget cartId)

def cas (cartId : ID) (version : Nat) (payload : StoredCart) : Call Int :=
  command (.evalsha cartId version payload)

def create (userId : Option ID) (currency countryCode : String) : Call Response := do
  let cartId ← (command .ulid : Call ID)
  let now ← (command .now : Call Time)
  let cart : StoredCart := ⟨cartId, userId, [], currency, [], countryCode, now, now⟩
  let _ ← cas cartId 0 cart
  match userId with
  | some userId =>
    let _ ← (command (.set userId cartId) : Call Unit)
    return ⟨cart, 1⟩
  | none => return ⟨cart, 1⟩

/-- Load a cart and check the version the caller saw. -/
def loadExpected (cartId : ID) (expectedVersion : Nat) : Call Entry := do
  match ← load cartId with
  | none => .fail .cartNotFound
  | some loaded =>
    if loaded.version ≠ expectedVersion then
      .fail (.cartStale expectedVersion loaded.version)
    else return loaded

/-- Write a cart back under the version it was loaded with; a refused write is
reported with the version now stored. -/
def store (cartId : ID) (version : Nat) (cart : StoredCart) : Call Response := do
  let next ← cas cartId version cart
  if next = -1 then
    let fresh ← load cartId
    .fail (.cartStale version (fresh.elim (-1) fun entry => (entry.version : Int)))
  else return ⟨cart, next⟩

def updateFirst (sku : ID) (f : StoredLine → StoredLine) : List StoredLine → List StoredLine
  | [] => []
  | l :: lines => if l.sku = sku then f l :: lines else l :: updateFirst sku f lines

def hasSku (lines : List StoredLine) (sku : ID) : Bool := lines.any fun l => l.sku == sku

def addLine (cartId sku : ID) (quantity expectedVersion : Nat) : Call Response := do
  let loaded ← loadExpected cartId expectedVersion
  let cart := loaded.data
  match ← (command (.getVariant sku) : Call (Option Variant)) with
  | none => .fail .productNotFound
  | some product =>
    if product.status ≠ .active then .fail .productNotAvailable
    else if hasSku cart.lines sku then
      let now ← (command .now : Call Time)
      store cartId loaded.version
        { cart with
          lines := updateFirst sku
            (fun l => { l with quantity := min (l.quantity + quantity) maxQtyPerLine }) cart.lines
          updatedAt := now }
    else if cart.lines.length ≥ maxLines then .fail .cartFull
    else
      let addedAt ← (command .now : Call Time)
      let now ← (command .now : Call Time)
      store cartId loaded.version
        { cart with
          lines := cart.lines ++
            [⟨sku, product.productId, min quantity maxQtyPerLine, product.price, addedAt⟩]
          updatedAt := now }

def updateLine (cartId sku : ID) (quantity expectedVersion : Nat) : Call Response := do
  let loaded ← loadExpected cartId expectedVersion
  let cart := loaded.data
  if quantity = 0 then
    let now ← (command .now : Call Time)
    store cartId loaded.version
      { cart with lines := cart.lines.filter (fun l => l.sku ≠ sku), updatedAt := now }
  else if hasSku cart.lines sku then
    let now ← (command .now : Call Time)
    store cartId loaded.version
      { cart with
        lines := updateFirst sku (fun l => { l with quantity := min quantity maxQtyPerLine })
          cart.lines
        updatedAt := now }
  else .fail .lineNotFound

/-- The code is already normalised (`code.trim().toUpperCase()`). -/
def applyCoupon (cartId : ID) (normalised : String) (expectedVersion : Nat) : Call Response := do
  let loaded ← loadExpected cartId expectedVersion
  let cart := loaded.data
  let now ← (command .now : Call Time)
  store cartId loaded.version
    { cart with
      coupons := if normalised ∈ cart.coupons then cart.coupons else cart.coupons ++ [normalised]
      updatedAt := now }

/-- The larger quantity wins, up to the limit. -/
def raise (quantity : Nat) (l : StoredLine) : StoredLine :=
  { l with quantity := min (max l.quantity quantity) maxQtyPerLine }

/-- One line of the anonymous cart joins the user's lines. -/
def mergeLine (lines : List StoredLine) (line : StoredLine) : List StoredLine :=
  if hasSku lines line.sku then updateFirst line.sku (raise line.quantity) lines
  else if lines.length < maxLines then lines ++ [line]
  else lines

/-- `[...new Set(codes)]`: the first occurrence of each code, in order. -/
def distinct : List String → List String
  | [] => []
  | c :: codes => c :: (distinct codes).filter (· ≠ c)

/-- The user's cart with the anonymous one merged into it. -/
def mergedCart (existing anon : StoredCart) (now : Time) : StoredCart :=
  { existing with
    lines := anon.lines.foldl mergeLine existing.lines
    coupons := distinct (existing.coupons ++ anon.coupons)
    updatedAt := now }

/-- The user has no cart: the anonymous one becomes theirs. -/
def adopt (anon : Entry) (userId : ID) : Call Response := do
  let cart := { anon.data with userId := some userId }
  let next ← cas cart.id anon.version cart
  let _ ← (command (.set userId cart.id) : Call Unit)
  return ⟨cart, next⟩

/-- Both carts exist: the union is written to the user's and the anonymous one is
deleted, whatever the write returned. -/
def absorb (anonCartId : ID) (anon existing : Entry) : Call Response := do
  let now ← (command .now : Call Time)
  let merged := mergedCart existing.data anon.data now
  let next ← cas merged.id existing.version merged
  let _ ← (command (.del anonCartId) : Call Unit)
  return ⟨merged, next⟩

/-- What `merge` does with the two carts it has read. -/
def mergeWith (anonCartId userId : ID) (anon existing : Option Entry) : Call Response :=
  match anon, existing with
  | none, none => create (some userId) "EGP" "EG"
  | some anon, none => adopt anon userId
  | none, some existing => return ⟨existing.data, existing.version⟩
  | some anon, some existing => absorb anonCartId anon existing

/-- What `merge` does once it knows where the user's index points. -/
def mergeInto (anonCartId userId : ID) (anon : Option Entry) : Option ID → Call Response
  | some existingId => load existingId >>= mergeWith anonCartId userId anon
  | none => mergeWith anonCartId userId anon none

def merge (anonCartId userId : ID) : Call Response := do
  let anon ← load anonCartId
  let existingId ← (command (.get userId) : Call (Option ID))
  mergeInto anonCartId userId anon existingId

/-- A call of the service. -/
inductive Request where
  | create (userId : Option ID) (currency countryCode : String)
  | addLine (cartId sku : ID) (quantity expectedVersion : Nat)
  | updateLine (cartId sku : ID) (quantity expectedVersion : Nat)
  | applyCoupon (cartId : ID) (code : String) (expectedVersion : Nat)
  | merge (anonCartId userId : ID)
  deriving DecidableEq

def Request.call : Request → Call Response
  | .create userId currency countryCode => Carts.create userId currency countryCode
  | .addLine cartId sku quantity expectedVersion =>
    Carts.addLine cartId sku quantity expectedVersion
  | .updateLine cartId sku quantity expectedVersion =>
    Carts.updateLine cartId sku quantity expectedVersion
  | .applyCoupon cartId code expectedVersion => Carts.applyCoupon cartId code expectedVersion
  | .merge anonCartId userId => Carts.merge anonCartId userId

end Souq.Carts
