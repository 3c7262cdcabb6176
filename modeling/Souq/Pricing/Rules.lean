import Mathlib

/-!
# The pricing rule engine

Carts, promotion rules and taxes of pricing-engine, and the evaluation that
turns a cart into a quote. Money (`Minor` in the source) is exact integers in
minor units, rates are basis points, and division truncates toward zero as in
C++. A `std::string` is a `String` with one character for each byte. The engine
never reads a line's product id or attributes, nor the user id and the currency
of a context, so they are left out.
-/

namespace Souq.Pricing

/-- The largest amount that `applyBp` multiplies. -/
def kMaxSafe : Int := 922337203685477

/-- A basis-point rate with half-up rounding, clamped on implausible amounts. -/
def applyBp (amount : Int) (bp : Int) : Int :=
  if amount > kMaxSafe ∨ amount < -kMaxSafe then
    if amount > 0 then kMaxSafe else -kMaxSafe
  else if amount * bp ≥ 0 then (amount * bp + 5000).tdiv 10000
  else (amount * bp - 5000).tdiv 10000

/-- An amount, not below zero. -/
def nonNegative (v : Int) : Int := if v < 0 then 0 else v

/-- A line of a cart. -/
structure CartLine where
  sku : String
  quantity : Int
  unitListPrice : Int
  categoryPath : List String
  brand : String

/-- What conditions may ask about the caller. -/
structure Context where
  countryCode : String := "EG"
  segments : List String := []
  coupons : List String := []
  channel : String := "web"

/-- What a promotion does. -/
inductive PromotionType where
  | percentOff | amountOff | buyXGetY | tieredQuantity | bundle | freeShipping | cartThreshold
  deriving DecidableEq

/-- What a condition looks at. -/
inductive Field where
  | cartSubtotal | lineQuantity | cartQuantity
  | brand | categoryPath | sku | segment | channel | countryCode
  deriving DecidableEq

/-- How a condition compares. -/
inductive Op where
  | gte | lte | eq | isIn | notIn
  deriving DecidableEq

/-- A condition on the cart or the caller. -/
structure Condition where
  field : Field
  op : Op
  numeric : Int
  values : List String
  deriving DecidableEq

/-- A rate from a quantity on. -/
structure Tier where
  minQuantity : Int
  discountBp : Int
  deriving DecidableEq

/-- A promotion as it is configured. -/
structure Rule where
  id : String
  name : String
  type : PromotionType
  percentOff : Int := 0
  amountOff : Int := 0
  buyQuantity : Int := 0
  getQuantity : Int := 0
  getDiscountBp : Int := 10000
  tiers : List Tier := []
  couponCode : String := ""
  conditions : List Condition := []
  priority : Int := 100
  exclusive : Bool := false
  maxDiscount : Int := 0
  validFrom : Int := 0
  validUntil : Int := 0
  active : Bool := true
  deriving DecidableEq

/-- A promotion that was applied, and to what. -/
structure AppliedPromotion where
  promotionId : String
  name : String
  type : PromotionType
  discount : Int
  couponCode : String
  appliesToSkus : List String
  priority : Int
  exclusive : Bool
  deriving DecidableEq

/-- A promotion that was not applied, and why. -/
structure RejectedPromotion where
  promotionId : String
  couponCode : String
  reasonCode : String
  detail : String := ""
  deriving DecidableEq

/-- The running price of a line. -/
structure LinePrice where
  sku : String
  quantity : Int
  unitListPrice : Int
  unitEffectivePrice : Int
  lineSubtotal : Int
  lineDiscount : Int
  lineTotal : Int
  appliedPromotionIds : List String
  deriving DecidableEq

/-- A tax that is charged. -/
structure TaxLine where
  name : String
  jurisdiction : String
  rate : Int
  amount : Int
  inclusive : Bool
  deriving DecidableEq

/-- What a cart costs. -/
structure Quote where
  lines : List LinePrice
  subtotal : Int
  discountTotal : Int
  shippingTotal : Int
  taxTotal : Int
  grandTotal : Int
  applied : List AppliedPromotion
  rejected : List RejectedPromotion
  taxLines : List TaxLine
  rulesVersion : String
  deriving DecidableEq

/-- A tax as it is configured. -/
structure TaxRule where
  countryCode : String
  name : String
  jurisdiction : String
  rate : Int
  inclusive : Bool
  deriving DecidableEq

/-- Rules sorted by priority, taxes and the version every quote echoes. -/
structure RuleSet where
  rules : List Rule
  taxes : List TaxRule
  version : String
  deriving DecidableEq

def Rule.before (a b : Rule) : Prop := a.priority ≤ b.priority

instance : DecidableRel Rule.before :=
  fun a b => inferInstanceAs (Decidable (a.priority ≤ b.priority))

/-- The constructor: a stable sort by priority, once at load. -/
def RuleSet.new (rules : List Rule) (taxes : List TaxRule) (version : String) : RuleSet :=
  ⟨rules.insertionSort Rule.before, taxes, version⟩

def anyLineMatches (lines : List CartLine) (values : List String) (field : Field) : Bool :=
  lines.any fun l =>
    match field with
    | .brand => values.contains l.brand
    | .sku => values.contains l.sku
    | .categoryPath => l.categoryPath.any values.contains
    | _ => false

/-- The comparison of a numeric field: every operator but the two bounds tests
equality. -/
def Op.compare (op : Op) (value numeric : Int) : Bool :=
  match op with
  | .gte => value ≥ numeric
  | .lte => value ≤ numeric
  | _ => value = numeric

/-- A membership test, negated under `NOT_IN` only. -/
def Op.membership (op : Op) (found : Bool) : Bool :=
  if op = .notIn then !found else found

def conditionHolds (c : Condition) (lines : List CartLine) (ctx : Context) (subtotal : Int) :
    Bool :=
  match c.field with
  | .cartSubtotal => c.op.compare subtotal c.numeric
  | .cartQuantity => c.op.compare (lines.map (·.quantity)).sum c.numeric
  | .lineQuantity => lines.any fun l => c.op.compare l.quantity c.numeric
  | .brand | .sku | .categoryPath => c.op.membership (anyLineMatches lines c.values c.field)
  | .segment => c.op.membership (c.values.any ctx.segments.contains)
  | .channel => c.op.membership (c.values.contains ctx.channel)
  | .countryCode => c.op.membership (c.values.contains ctx.countryCode)

def Field.rejectReason : Field → String
  | .cartSubtotal => "MIN_SPEND_NOT_MET"
  | .segment => "SEGMENT_MISMATCH"
  | .channel => "CHANNEL_MISMATCH"
  | .countryCode => "COUNTRY_NOT_ELIGIBLE"
  | _ => "CONDITIONS_NOT_MET"

/-- Whether a rule applies to the cart, or the reason why it does not. -/
def matchesRule (r : Rule) (lines : List CartLine) (ctx : Context) (subtotal : Int) (now : Int) :
    Except String Unit :=
  if !r.active then .error "PROMOTION_INACTIVE"
  else if r.validFrom ≠ 0 ∧ now < r.validFrom then .error "PROMOTION_NOT_STARTED"
  else if r.validUntil ≠ 0 ∧ now > r.validUntil then .error "COUPON_EXPIRED"
  else if r.couponCode ≠ "" ∧ !ctx.coupons.contains r.couponCode then
    .error "COUPON_NOT_PRESENTED"
  else
    match r.conditions.find? fun c => !conditionHolds c lines ctx subtotal with
    | some c => .error c.field.rejectReason
    | none => .ok ()

/-! ## What one rule takes off

Each promotion type works on the priced lines and the shipping total. The
result is `none` where the C++ divides by zero. -/

/-- The lines and the shipping after a rule, its discount and the SKUs it
reports, before the cap. -/
structure Taken where
  lines : List LinePrice
  shippingTotal : Int
  discount : Int
  appliesToSkus : List String

def LinePrice.take (lp : LinePrice) (off : Int) : LinePrice :=
  { lp with
    lineDiscount := lp.lineDiscount - off
    lineTotal := nonNegative (lp.lineTotal - off) }

def LinePrice.credit (lp : LinePrice) (promotion : String) : LinePrice :=
  { lp with appliedPromotionIds := lp.appliedPromotionIds ++ [promotion] }

/-- The loop of the per-line promotions. `off` is what a line loses, inside
`none` where the loop continues to the next line. -/
def takeEach (r : Rule) (shippingTotal : Int) (off : LinePrice → Option (Option Int)) :
    List LinePrice → Option Taken
  | [] => some ⟨[], shippingTotal, 0, []⟩
  | lp :: rest => do
    let here ← off lp
    let after ← takeEach r shippingTotal off rest
    match here with
    | none => some { after with lines := lp :: after.lines }
    | some off =>
      some { after with
        lines := (lp.take off).credit r.id :: after.lines
        discount := off + after.discount
        appliesToSkus := lp.sku :: after.appliesToSkus }

def percentOff (r : Rule) (lp : LinePrice) : Option (Option Int) :=
  some (some (min (applyBp lp.lineSubtotal r.percentOff) lp.lineTotal))

def bestTier (tiers : List Tier) (quantity : Int) : Int :=
  tiers.foldl (fun best t =>
    if quantity ≥ t.minQuantity ∧ t.discountBp > best then t.discountBp else best) 0

def tieredQuantity (r : Rule) (lp : LinePrice) : Option (Option Int) :=
  let best := bestTier r.tiers lp.quantity
  if best = 0 then some none
  else some (some (min (applyBp lp.lineSubtotal best) lp.lineTotal))

def buyXGetY (r : Rule) (lp : LinePrice) : Option (Option Int) :=
  if r.buyQuantity ≤ 0 ∨ lp.quantity < r.buyQuantity + r.getQuantity then some none
  else if r.buyQuantity + r.getQuantity = 0 then none
  else
    let groups := lp.quantity.tdiv (r.buyQuantity + r.getQuantity)
    let freeUnits := groups * r.getQuantity
    some (some (min (applyBp (lp.unitListPrice * freeUnits) r.getDiscountBp) lp.lineTotal))

/-- The lines after a fixed amount is spread over them, what could not be
placed, and the SKUs that received a share. -/
structure Spread where
  lines : List LinePrice
  remaining : Int
  appliesToSkus : List String

/-- A line's proportional share; the last line absorbs the rounding remainder. -/
def share (r : Rule) (subtotal remaining : Int) (lp : LinePrice) (last : Bool) : Int :=
  min (if last then remaining
       else min remaining ((r.amountOff * lp.lineSubtotal).tdiv (max subtotal 1))) lp.lineTotal

def spread (r : Rule) (subtotal : Int) : List LinePrice → Int → Spread
  | [], remaining => ⟨[], remaining, []⟩
  | lp :: rest, remaining =>
    if remaining ≤ 0 then ⟨lp :: rest, remaining, []⟩
    else
      let part := share r subtotal remaining lp rest.isEmpty
      let after := spread r subtotal rest (remaining - part)
      if part > 0 then
        ⟨(lp.take part).credit r.id :: after.lines, after.remaining, lp.sku :: after.appliesToSkus⟩
      else ⟨lp.take part :: after.lines, after.remaining, after.appliesToSkus⟩

/-- An amount off the whole cart, spread over its lines. -/
def amountOff (r : Rule) (subtotal shippingTotal : Int) (lines : List LinePrice) : Taken :=
  let whole := min r.amountOff subtotal
  let placed := spread r subtotal lines whole
  ⟨placed.lines, shippingTotal, whole - placed.remaining, placed.appliesToSkus⟩

def freeShipping (shippingTotal : Int) (lines : List LinePrice) : Taken :=
  ⟨lines, 0, shippingTotal, []⟩

def take (r : Rule) (subtotal shippingTotal : Int) (lines : List LinePrice) : Option Taken :=
  match r.type with
  | .percentOff => takeEach r shippingTotal (percentOff r) lines
  | .amountOff | .cartThreshold => some (amountOff r subtotal shippingTotal lines)
  | .tieredQuantity => takeEach r shippingTotal (tieredQuantity r) lines
  | .buyXGetY => takeEach r shippingTotal (buyXGetY r) lines
  | .freeShipping => some (freeShipping shippingTotal lines)
  | .bundle => some ⟨lines, shippingTotal, 0, []⟩

/-- The cap's excess goes to the first line, from the back, that has a
discount. -/
def giveBackFirst (excess : Int) : List LinePrice → List LinePrice
  | [] => []
  | lp :: rest =>
    if lp.lineDiscount < 0 then
      { lp with
        lineDiscount := lp.lineDiscount + min excess (-lp.lineDiscount)
        lineTotal := lp.lineTotal + min excess (-lp.lineDiscount) } :: rest
    else lp :: giveBackFirst excess rest

def giveBack (excess : Int) (lines : List LinePrice) : List LinePrice :=
  (giveBackFirst excess lines.reverse).reverse

def Taken.capped (taken : Taken) (r : Rule) : Taken :=
  if r.maxDiscount > 0 ∧ taken.discount > r.maxDiscount then
    { taken with
      discount := r.maxDiscount
      lines := giveBack (taken.discount - r.maxDiscount) taken.lines }
  else taken

/-- The part of the quote the promotion loop changes. -/
structure Running where
  lines : List LinePrice
  shippingTotal : Int
  discountTotal : Int
  applied : List AppliedPromotion
  rejected : List RejectedPromotion
  exclusiveApplied : Bool
  deriving DecidableEq

def Running.reject (q : Running) (r : Rule) (reason : String) (detail : String := "") : Running :=
  { q with rejected := q.rejected ++ [⟨r.id, r.couponCode, reason, detail⟩] }

/-- The lines and the shipping keep what the rule did to them even when its
discount is not positive and the rule is not recorded. -/
def Running.record (q : Running) (r : Rule) (taken : Taken) : Running :=
  if taken.discount ≤ 0 then
    { q with lines := taken.lines, shippingTotal := taken.shippingTotal }
  else
    let final := taken.capped r
    { q with
      lines := final.lines
      shippingTotal := final.shippingTotal
      discountTotal := q.discountTotal - final.discount
      applied := q.applied ++ [{
        promotionId := r.id
        name := r.name
        type := r.type
        discount := -final.discount
        couponCode := r.couponCode
        appliesToSkus := final.appliesToSkus
        priority := r.priority
        exclusive := r.exclusive }]
      exclusiveApplied := q.exclusiveApplied || r.exclusive }

/-- The turn of a rule. -/
def promote (lines : List CartLine) (ctx : Context) (now : Int) (subtotal : Int) (q : Running)
    (r : Rule) : Option Running :=
  if q.exclusiveApplied then some (q.reject r "EXCLUDED_BY_EXCLUSIVE_PROMOTION")
  else
    match matchesRule r lines ctx subtotal now with
    | .error reason =>
      -- only a rule the customer asked for is reported
      if r.couponCode ≠ "" ∧ ctx.coupons.contains r.couponCode then some (q.reject r reason)
      else some q
    | .ok () =>
      if r.type = .bundle then
        some (q.reject r "PROMOTION_TYPE_NOT_SUPPORTED" "bundle pricing is not implemented")
      else
        match take r subtotal q.shippingTotal q.lines with
        | none => none
        | some taken => some (q.record r taken)

def listPrice (l : CartLine) : LinePrice where
  sku := l.sku
  quantity := l.quantity
  unitListPrice := l.unitListPrice
  unitEffectivePrice := l.unitListPrice
  lineSubtotal := l.unitListPrice * l.quantity
  lineDiscount := 0
  lineTotal := l.unitListPrice * l.quantity
  appliedPromotionIds := []

/-- The cart at list prices. -/
def subtotalOf (lines : List CartLine) : Int :=
  ((lines.map listPrice).map (·.lineSubtotal)).sum

/-- Before the first turn. -/
def Running.start (lines : List CartLine) (shippingQuote : Int) : Running :=
  ⟨lines.map listPrice, shippingQuote, 0, [], [], false⟩

/-- The promotion loop. -/
def promotions (lines : List CartLine) (ctx : Context) (now : Int) (rules : List Rule)
    (q : Running) : Option Running :=
  rules.foldlM (promote lines ctx now (subtotalOf lines)) q

def LinePrice.settle (lp : LinePrice) : LinePrice :=
  { lp with
    lineTotal := nonNegative lp.lineTotal
    unitEffectivePrice :=
      if lp.quantity > 0 then (nonNegative lp.lineTotal).tdiv lp.quantity else 0 }

/-- An inclusive tax is extracted from the price, an exclusive one is added. The
loader admits no negative rate, so the divisor is positive. -/
def taxLine (taxable : Int) (t : TaxRule) : TaxLine where
  name := t.name
  jurisdiction := t.jurisdiction
  rate := t.rate
  amount := if t.inclusive then (taxable * t.rate).tdiv (10000 + t.rate)
    else applyBp taxable t.rate
  inclusive := t.inclusive

def taxesFor (taxes : List TaxRule) (ctx : Context) (taxable : Int) : List TaxLine :=
  (taxes.filter fun t => t.countryCode = ctx.countryCode).map (taxLine taxable)

def taxTotalOf (taxLines : List TaxLine) : Int :=
  ((taxLines.filter fun t => !t.inclusive).map (·.amount)).sum

def lineSum (lines : List LinePrice) : Int := (lines.map (·.lineTotal)).sum

/-- The quote of the state the promotion loop ends in. -/
def RuleSet.close (set : RuleSet) (lines : List CartLine) (ctx : Context) (q : Running) : Quote :=
  let settled := q.lines.map LinePrice.settle
  let taxLines := taxesFor set.taxes ctx (lineSum settled + q.shippingTotal)
  { lines := settled
    subtotal := subtotalOf lines
    discountTotal := q.discountTotal
    shippingTotal := q.shippingTotal
    taxTotal := taxTotalOf taxLines
    grandTotal := nonNegative (lineSum settled + q.shippingTotal + taxTotalOf taxLines)
    applied := q.applied
    rejected := q.rejected
    taxLines := taxLines
    rulesVersion := set.version }

/-- Prices a whole cart. There is no quote where the evaluation divides by zero. -/
def RuleSet.calculate (set : RuleSet) (lines : List CartLine) (ctx : Context)
    (shippingQuote : Int) (now : Int) : Option Quote :=
  (promotions lines ctx now set.rules (.start lines shippingQuote)).map (set.close lines ctx)

end Souq.Pricing
