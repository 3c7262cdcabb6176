import Souq.Carts.Shape

/-!
# Pricing a cart

`price` joins three lists by position: the stored lines, those that the catalog still
knows and those that were priced. Where the catalog has dropped a line, the lines after it
are compared with the price of another: with what the customer has seen for the stored
line at their own position.
-/

namespace Souq.Carts.Price

open List StoredLine Option

/-- What the catalog answers about a SKU. -/
structure Variant where
  sku : ID
  productId : ID
  title : String
  image : Option String
  price : Money
  status : String
  categoryPath : List String
  brand : Option String
  attributes : List (String × String)

/-- A stored line with what the catalogue says of its variant. -/
structure HydratedLine where
  sku : ID
  productId : ID
  title : String
  image : Option String
  quantity : Nat
  unitPrice : Money
  categoryPath : List String
  brand : Option String
  attributes : List (String × String)

structure CalculateLine where
  sku : ID
  productId : ID
  quantity : Nat
  unitListPrice : Money
  categoryPath : List String
  brand : Option String
  attributes : List (String × String)

structure CalculateContext where
  userId : Option ID
  currency : String
  countryCode : String
  couponCodes : List String
  channel : String

/-- What pricing is asked. -/
structure CalculateRequest where
  lines : List CalculateLine
  context : CalculateContext

/-- A line as pricing answers it. -/
structure PricedLine where
  unitEffectivePrice : Money
  lineTotal : Money
  lineDiscount : Money

/-- A promotion that pricing has applied. -/
structure AppliedPromotion where
  promotionId : String
  name : String
  discount : Money
  couponCode : Option String

/-- A coupon that pricing has refused. -/
structure RejectedPromotion where
  couponCode : String
  reasonCode : String

/-- What pricing answers. -/
structure PricedCart where
  lines : List PricedLine
  subtotal : Money
  discountTotal : Money
  shippingTotal : Money
  taxTotal : Money
  grandTotal : Money
  appliedPromotions : List AppliedPromotion
  rejectedPromotions : List RejectedPromotion
  rulesVersion : String
  degraded : Bool

/-- A line as the customer sees it. -/
structure CartLine where
  sku : ID
  productId : ID
  title : String
  image : Option String
  quantity : Nat
  unitPrice : Money
  lineTotal : Money
  priceChanged : Bool

structure AppliedCoupon where
  code : String
  discount : Money
  name : String

/-- A cart as the customer sees it. -/
structure Cart where
  id : ID
  userId : Option ID
  lines : List CartLine
  subtotal : Money
  discountTotal : Money
  shippingTotal : Money
  taxTotal : Money
  total : Money
  appliedCoupons : List AppliedCoupon
  rejectedCoupons : List RejectedPromotion
  currency : String
  pricingDegraded : Bool
  rulesVersion : Option String
  version : Int
  expiresAt : Time
  updatedAt : Time

def zeroMoney (currency : String) : Money := ⟨0, currency⟩

def addMoney (a b : Money) : Except String Money :=
  if a.currency ≠ b.currency then .error s!"cannot add {a.currency} to {b.currency}"
  else .ok ⟨a.amount + b.amount, a.currency⟩

def multiplyMoney (m : Money) (qty : Nat) : Money := ⟨m.amount * qty, m.currency⟩

/-- The map of the variants by their SKUs: the last of a SKU counts. -/
def bySku (variants : List Variant) (sku : ID) : Option Variant :=
  variants.reverse.find? fun v => v.sku == sku

def hydrateLine (variants : List Variant) (line : StoredLine) : Option HydratedLine :=
  (bySku variants line.sku).map fun v =>
    { sku := line.sku
      productId := v.productId
      title := v.title
      image := v.image
      quantity := line.quantity
      unitPrice := v.price
      categoryPath := v.categoryPath
      brand := v.brand
      attributes := v.attributes }

/-- The lines of a cart whose variants the catalogue knows. -/
def hydrate (getVariants : List ID → List Variant) (cart : StoredCart) : List HydratedLine :=
  if cart.lines.length = 0 then []
  else cart.lines.filterMap (hydrateLine (getVariants (cart.lines.map sku)))

/-- The request to price the lines of a cart. -/
def calculateRequest (cart : StoredCart) (lines : List HydratedLine) : CalculateRequest where
  lines := lines.map fun l =>
    { sku := l.sku
      productId := l.productId
      quantity := l.quantity
      unitListPrice := l.unitPrice
      categoryPath := l.categoryPath
      brand := l.brand
      attributes := l.attributes }
  context :=
    { userId := cart.userId
      currency := cart.currency
      countryCode := cart.countryCode
      couponCodes := cart.coupons
      channel := "web" }

def ttlFor (cart : StoredCart) : Nat :=
  if cart.userId.isSome then 30 * 24 * 60 * 60 else 7 * 24 * 60 * 60

/-- A line with what was priced and stored at its position. There is a stored line at
every position of a hydrated one. -/
def cartLine (p : Option PricedLine) (stored : Option StoredLine) (l : HydratedLine) : CartLine :=
  let unitPrice := p.elim l.unitPrice PricedLine.unitEffectivePrice
  { sku := l.sku
    productId := l.productId
    title := l.title
    image := l.image
    quantity := l.quantity
    unitPrice
    lineTotal := p.elim (multiplyMoney l.unitPrice l.quantity) PricedLine.lineTotal
    priceChanged := stored.any fun s => unitPrice.amount != s.addedAtPrice }

def degradedCart (cart : StoredCart) (lines : List HydratedLine) (version : Int) (now : Time) :
    Except String Cart := do
  let subtotal ← lines.foldlM
    (fun subtotal l => addMoney subtotal (multiplyMoney l.unitPrice l.quantity))
    (zeroMoney cart.currency)
  return {
    id := cart.id
    userId := cart.userId
    lines := lines.map fun l =>
      { sku := l.sku
        productId := l.productId
        title := l.title
        image := l.image
        quantity := l.quantity
        unitPrice := l.unitPrice
        lineTotal := multiplyMoney l.unitPrice l.quantity
        priceChanged := false }
    subtotal
    discountTotal := zeroMoney cart.currency
    shippingTotal := zeroMoney cart.currency
    taxTotal := zeroMoney cart.currency
    total := subtotal
    appliedCoupons := []
    rejectedCoupons := []
    currency := cart.currency
    pricingDegraded := true
    rulesVersion := none
    version
    expiresAt := now + ttlFor cart * 1000000
    updatedAt := cart.updatedAt }

def pricedCart (cart : StoredCart) (lines : List HydratedLine) (priced : PricedCart)
    (version : Int) (now : Time) : Cart where
  id := cart.id
  userId := cart.userId
  lines := lines.mapIdx fun i l => cartLine priced.lines[i]? cart.lines[i]? l
  subtotal := priced.subtotal
  discountTotal := priced.discountTotal
  shippingTotal := priced.shippingTotal
  taxTotal := priced.taxTotal
  total := priced.grandTotal
  appliedCoupons := priced.appliedPromotions.filterMap fun p =>
    (p.couponCode.filter (· ≠ "")).map fun code => ⟨code, p.discount, p.name⟩
  rejectedCoupons := priced.rejectedPromotions
  currency := cart.currency
  pricingDegraded := priced.degraded
  rulesVersion := some priced.rulesVersion
  version
  expiresAt := now + ttlFor cart * 1000000
  updatedAt := cart.updatedAt

/-- `calculate` has no answer where the pricing engine is unavailable. -/
def price (getVariants : List ID → List Variant) (calculate : CalculateRequest → Option PricedCart)
    (cart : StoredCart) (version : Int) (now : Time) : Except String Cart :=
  let lines := hydrate getVariants cart
  match calculate (calculateRequest cart lines) with
  | none => degradedCart cart lines version now
  | some priced => .ok (pricedCart cart lines priced version now)

/-- The stored lines whose products still exist. -/
def kept (getVariants : List ID → List Variant) (cart : StoredCart) : List StoredLine :=
  cart.lines.filter fun l => (bySku (getVariants (cart.lines.map sku)) l.sku).isSome

/-- The line shows the stored quantity, and whether the price has changed. -/
def CartLine.Own (cart : StoredCart) (line : CartLine) : Prop :=
  ∃ stored ∈ cart.lines, stored.sku = line.sku ∧ line.quantity = stored.quantity ∧
    (line.priceChanged = true ↔ line.unitPrice.amount ≠ stored.addedAtPrice)

/-- The stored line at the position of a line that is shown was added at another price,
and the price that is shown for the line is one of the two. -/
def Misjudged (getVariants : List ID → List Variant) (cart : StoredCart) (priced : PricedCart)
    (i : Nat) : Prop :=
  ∃ own ∈ (kept getVariants cart)[i]?, ∃ stored ∈ cart.lines[i]?, ∃ p ∈ priced.lines[i]?,
    own.addedAtPrice ≠ stored.addedAtPrice ∧ (p.unitEffectivePrice.amount = own.addedAtPrice ∨
        p.unitEffectivePrice.amount = stored.addedAtPrice)

section Lines

variable {getVariants : List ID → List Variant} {cart : StoredCart}

theorem hydrateLine_eq {variants : List Variant} {line : StoredLine} {l : HydratedLine}
    (hydrated : hydrateLine variants line = some l) :
    l.sku = line.sku ∧ l.quantity = line.quantity := by
  obtain ⟨v, -, rfl⟩ := map_eq_some_iff.mp hydrated
  exact ⟨rfl, rfl⟩

/-- **Each line that is shown** comes from a stored line that was kept, in order. -/
theorem hydrate_kept (getVariants : List ID → List Variant) (cart : StoredCart) :
    List.Forall₂ (fun l line => l.sku = line.sku ∧ l.quantity = line.quantity)
      (hydrate getVariants cart) (kept getVariants cart) := by
  have lines : hydrate getVariants cart =
      cart.lines.filterMap (hydrateLine (getVariants (cart.lines.map sku))) := by
    unfold hydrate
    split
    · rename_i none
      rw [length_eq_zero_iff.mp none]
      rfl
    · rfl
  rw [lines, kept]
  generalize getVariants (cart.lines.map sku) = variants
  induction cart.lines with
  | nil => exact .nil
  | cons line rest ih =>
    cases hydrated : hydrateLine variants line with
    | none =>
      have gone : (bySku variants line.sku).isSome = false := by
        rw [isSome_eq_false_iff]
        exact isNone_iff_eq_none.mpr (map_eq_none_iff.mp hydrated)
      rw [filterMap_cons_none hydrated, filter_cons_of_neg (by simp [gone])]
      exact ih
    | some l =>
      have there : (bySku variants line.sku).isSome = true := by
        obtain ⟨v, found, -⟩ := map_eq_some_iff.mp hydrated
        rw [found]
        rfl
      rw [filterMap_cons_some hydrated, filter_cons_of_pos (by simp [there])]
      exact .cons (hydrateLine_eq hydrated) ih

theorem eq_of_sku (distinct : (cart.lines.map sku).Nodup) {l l' : StoredLine}
    (member : l ∈ cart.lines) (member' : l' ∈ cart.lines) (same : l.sku = l'.sku) : l = l' :=
  inj_on_of_nodup_map distinct member member' same

end Lines

section Flags

variable {getVariants : List ID → List Variant} {cart : StoredCart} {priced : PricedCart}

theorem own_iff (distinct : (cart.lines.map sku).Nodup) {own stored : StoredLine}
    (member : own ∈ cart.lines) {l : HydratedLine} (sku : l.sku = own.sku)
    (quantity : l.quantity = own.quantity) (p : PricedLine) :
    (cartLine (some p) (some stored) l).Own cart ↔ ¬ (own.addedAtPrice ≠ stored.addedAtPrice ∧
        (p.unitEffectivePrice.amount = own.addedAtPrice ∨
          p.unitEffectivePrice.amount = stored.addedAtPrice)) := by
  have flag : ((cartLine (some p) (some stored) l).priceChanged = true) ↔
      p.unitEffectivePrice.amount ≠ stored.addedAtPrice := bne_iff_ne
  have shown : (cartLine (some p) (some stored) l).Own cart ↔
      (p.unitEffectivePrice.amount ≠ stored.addedAtPrice ↔
        p.unitEffectivePrice.amount ≠ own.addedAtPrice) := by
    constructor
    · intro ⟨line, there, same, _, changed⟩
      have mine : line = own := eq_of_sku distinct there member (same.trans sku)
      rw [mine] at changed
      exact flag.symm.trans changed
    · intro agree
      exact ⟨own, member, sku.symm, quantity, flag.trans agree⟩
  rw [shown]
  constructor
  · rintro agree ⟨differ, here | there⟩
    · exact differ (not_ne_iff.mp fun other => agree.mp (here ▸ other) here |>.elim)
    · exact differ (not_ne_iff.mp fun other => agree.mpr (fun same => other (same.symm.trans there))
        there |>.elim)
  · intro apart
    by_cases same : own.addedAtPrice = stored.addedAtPrice
    · rw [same]
    · have neither := fun here => apart ⟨same, here⟩
      exact iff_of_true (fun there => neither (.inr there)) fun here => neither (.inl here)

/-- **Flags belong to their own lines** exactly if no line is misjudged. -/
theorem flags_own_iff (distinct : (cart.lines.map sku).Nodup)
    {calculate : CalculateRequest → Option PricedCart}
    (replied : calculate (calculateRequest cart (hydrate getVariants cart)) = some priced)
    (full : priced.lines.length = (hydrate getVariants cart).length) (version : Int) (now : Time) :
    ∃ answer, price getVariants calculate cart version now = .ok answer ∧
      ((∀ line ∈ answer.lines, line.Own cart) ↔ ∀ i, ¬ Misjudged getVariants cart priced i) := by
  refine ⟨pricedCart cart (hydrate getVariants cart) priced version now, ?_, ?_⟩
  · simp only [price, replied]
  have joined := hydrate_kept getVariants cart
  have few : (kept getVariants cart).length ≤ cart.lines.length := length_filter_le _ _
  have same : (hydrate getVariants cart).length = (kept getVariants cart).length :=
    joined.length_eq
  -- what stands at a position of the lists
  have each : ∀ i, (there : i < (hydrate getVariants cart).length) → ∃ own stored p,
      (kept getVariants cart)[i]? = some own ∧ cart.lines[i]? = some stored ∧
        priced.lines[i]? = some p ∧
        ((cartLine priced.lines[i]? cart.lines[i]? (hydrate getVariants cart)[i]).Own cart ↔
          ¬ (own.addedAtPrice ≠ stored.addedAtPrice ∧
            (p.unitEffectivePrice.amount = own.addedAtPrice ∨
              p.unitEffectivePrice.amount = stored.addedAtPrice))) := by
    intro i there
    have inside : i < (kept getVariants cart).length := same ▸ there
    have inside' : i < cart.lines.length := Nat.lt_of_lt_of_le inside few
    have inside'' : i < priced.lines.length := full ▸ there
    obtain ⟨sku, quantity⟩ := joined.get there inside
    refine ⟨_, _, _, getElem?_eq_getElem inside, getElem?_eq_getElem inside',
      getElem?_eq_getElem inside'', ?_⟩
    rw [getElem?_eq_getElem inside', getElem?_eq_getElem inside'']
    exact own_iff distinct (mem_of_mem_filter (getElem_mem inside)) sku quantity _
  constructor
  · rintro all i ⟨own, here, stored, here', p, here'', wrong⟩
    have there : i < (hydrate getVariants cart).length := by
      rw [same]
      exact (List.getElem?_eq_some_iff.mp here).1
    obtain ⟨own', stored', p', mine, mine', mine'', judged⟩ := each i there
    cases here.symm.trans mine
    cases here'.symm.trans mine'
    cases here''.symm.trans mine''
    exact judged.mp (all _ (mem_mapIdx.mpr ⟨i, there, rfl⟩)) wrong
  · intro none line member
    obtain ⟨i, there, rfl⟩ := mem_mapIdx.mp member
    obtain ⟨own, stored, p, mine, mine', mine'', judged⟩ := each i there
    exact judged.mpr fun wrong => none i ⟨own, mine, stored, mine', p, mine'', wrong⟩

/-- Where the products that are gone are those of the last lines, no line is misjudged. -/
theorem not_misjudged_of_prefix (first : kept getVariants cart <+: cart.lines) (i : Nat) :
    ¬ Misjudged getVariants cart priced i := by
  rintro ⟨own, here, stored, here', p, -, differ, -⟩
  obtain ⟨inside, rfl⟩ := List.getElem?_eq_some_iff.mp here
  have same := first.getElem inside
  rw [mem_def, getElem?_eq_getElem (Nat.lt_of_lt_of_le inside first.length_le), some.injEq] at here'
  exact differ (by rw [same, here'])

end Flags

/-- Three lines, for the second of which the price has gone up. -/
def threeLines : StoredCart where
  id := 0
  userId := none
  lines := [⟨1, 10, 1, 100, 0⟩, ⟨2, 20, 3, 200, 0⟩, ⟨3, 30, 1, 300, 0⟩]
  currency := "EGP"
  coupons := []
  countryCode := "EG"
  createdAt := 0
  updatedAt := 0

def variantOf (sku : ID) (price : Int) : Variant where
  sku
  productId := sku * 10
  title := "a product"
  image := none
  price := ⟨price, "EGP"⟩
  status := "ACTIVE"
  categoryPath := []
  brand := none
  attributes := []

def listPrices (request : CalculateRequest) : Option PricedCart :=
  some {
    lines := request.lines.map fun l =>
      ⟨l.unitListPrice, multiplyMoney l.unitListPrice l.quantity, ⟨0, "EGP"⟩⟩
    subtotal := ⟨0, "EGP"⟩
    discountTotal := ⟨0, "EGP"⟩
    shippingTotal := ⟨0, "EGP"⟩
    taxTotal := ⟨0, "EGP"⟩
    grandTotal := ⟨0, "EGP"⟩
    appliedPromotions := []
    rejectedPromotions := []
    rulesVersion := "1"
    degraded := false }

/-- The third product is gone. -/
theorem flags_own_of_last : ∃ answer,
    price (fun _ => [variantOf 2 250, variantOf 1 100]) listPrices threeLines 1 0 = .ok answer ∧
      (∀ line ∈ answer.lines, line.Own threeLines) ∧
      answer.lines.map CartLine.priceChanged = [false, true] := by
  obtain ⟨answer, priced, own⟩ := @flags_own_iff (fun _ => [variantOf 2 250, variantOf 1 100])
    threeLines _ (by decide) listPrices rfl rfl 1 0
  refine ⟨answer, priced, own.mpr <| not_misjudged_of_prefix (by decide), ?_⟩
  cases priced
  rfl

/-- The first product is gone: the lines that are left are flagged, although neither price
has changed. -/
theorem flags_of_others : ∃ answer,
    price (fun _ => [variantOf 3 300, variantOf 2 200]) listPrices threeLines 1 0 = .ok answer ∧
      ¬ ∀ line ∈ answer.lines, line.Own threeLines := by
  refine ⟨_, rfl, fun all => ?_⟩
  obtain ⟨stored, member, sku, -, flag⟩ := all ⟨2, 20, "a product", none, 3, ⟨200, "EGP"⟩,
    ⟨600, "EGP"⟩, true⟩ mem_cons_self
  have mine : stored = ⟨2, 20, 3, 200, 0⟩ :=
    @eq_of_sku threeLines (by decide) _ _ member (by decide) sku
  rw [mine] at flag
  exact flag.mp rfl rfl

end Souq.Carts.Price
