import Souq.Lib.Checked
import Souq.Pricing.Turns

/-!
# The evaluation in machine arithmetic

The engine counts money in 64-bit and quantities and rates in 32-bit integers. Here every
operation of the evaluation is checked: there is no quote where one of them overflows or
divides by zero. Each function is guarded by a condition on the operands of its
operations, under which it agrees with the exact one.
-/

namespace Souq.Pricing.Machine

open Checked

def applyBp (amount bp : Int) : Option Int :=
  if amount > kMaxSafe ∨ amount < -kMaxSafe then
    some (if amount > 0 then kMaxSafe else -kMaxSafe)
  else do
    let product ← mul 64 amount bp
    if product ≥ 0 then
      let up ← add 64 product 5000
      div 64 up 10000
    else
      let down ← sub 64 product 5000
      div 64 down 10000

def takeOff (lp : LinePrice) (off : Int) : Option LinePrice := do
  let lineDiscount ← sub 64 lp.lineDiscount off
  let lineTotal ← sub 64 lp.lineTotal off
  some { lp with lineDiscount := lineDiscount, lineTotal := nonNegative lineTotal }

/-- The loop of the per-line promotions, with the discount so far. -/
def takeEach (r : Rule) (shippingTotal : Int) (off : LinePrice → Option (Option Int)) :
    List LinePrice → Int → Option Taken
  | [], discount => some ⟨[], shippingTotal, discount, []⟩
  | lp :: rest, discount => do
    match ← off lp with
    | none =>
      let after ← takeEach r shippingTotal off rest discount
      some { after with lines := lp :: after.lines }
    | some part =>
      let lost ← takeOff lp part
      let discount ← add 64 discount part
      let after ← takeEach r shippingTotal off rest discount
      some { after with
        lines := lost.credit r.id :: after.lines
        appliesToSkus := lp.sku :: after.appliesToSkus }

def percentOff (r : Rule) (lp : LinePrice) : Option (Option Int) := do
  let off ← applyBp lp.lineSubtotal r.percentOff
  some (some (min off lp.lineTotal))

def tieredQuantity (r : Rule) (lp : LinePrice) : Option (Option Int) :=
  let best := bestTier r.tiers lp.quantity
  if best = 0 then some none
  else do
    let off ← applyBp lp.lineSubtotal best
    some (some (min off lp.lineTotal))

def buyXGetY (r : Rule) (lp : LinePrice) : Option (Option Int) :=
  if r.buyQuantity ≤ 0 then some none
  else do
    let group ← add 32 r.buyQuantity r.getQuantity
    if lp.quantity < group then some none
    else
      let groups ← div 32 lp.quantity group
      let freeUnits ← mul 32 groups r.getQuantity
      let price ← mul 64 lp.unitListPrice freeUnits
      let off ← applyBp price r.getDiscountBp
      some (some (min off lp.lineTotal))

def share (r : Rule) (subtotal remaining : Int) (lp : LinePrice) (last : Bool) : Option Int :=
  if last then some (min remaining lp.lineTotal)
  else do
    let product ← mul 64 r.amountOff lp.lineSubtotal
    let part ← div 64 product (max subtotal 1)
    some (min (min remaining part) lp.lineTotal)

def spread (r : Rule) (subtotal : Int) : List LinePrice → Int → Option Spread
  | [], remaining => some ⟨[], remaining, []⟩
  | lp :: rest, remaining =>
    if remaining ≤ 0 then some ⟨lp :: rest, remaining, []⟩
    else do
      let part ← share r subtotal remaining lp rest.isEmpty
      let lost ← takeOff lp part
      let remaining ← sub 64 remaining part
      let after ← spread r subtotal rest remaining
      some (if part > 0 then
          ⟨lost.credit r.id :: after.lines, after.remaining, lp.sku :: after.appliesToSkus⟩
        else ⟨lost :: after.lines, after.remaining, after.appliesToSkus⟩)

def amountOff (r : Rule) (subtotal shippingTotal : Int) (lines : List LinePrice) :
    Option Taken := do
  let whole := min r.amountOff subtotal
  let placed ← spread r subtotal lines whole
  let discount ← sub 64 whole placed.remaining
  some ⟨placed.lines, shippingTotal, discount, placed.appliesToSkus⟩

def take (r : Rule) (subtotal shippingTotal : Int) (lines : List LinePrice) : Option Taken :=
  match r.type with
  | .percentOff => takeEach r shippingTotal (percentOff r) lines 0
  | .amountOff | .cartThreshold => amountOff r subtotal shippingTotal lines
  | .tieredQuantity => takeEach r shippingTotal (tieredQuantity r) lines 0
  | .buyXGetY => takeEach r shippingTotal (buyXGetY r) lines 0
  | .freeShipping => some (freeShipping shippingTotal lines)
  | .bundle => some ⟨lines, shippingTotal, 0, []⟩

def giveBackFirst (excess : Int) : List LinePrice → Option (List LinePrice)
  | [] => some []
  | lp :: rest =>
    if lp.lineDiscount < 0 then do
      let discount ← neg 64 lp.lineDiscount
      let lineDiscount ← add 64 lp.lineDiscount (min excess discount)
      let lineTotal ← add 64 lp.lineTotal (min excess discount)
      some ({ lp with lineDiscount := lineDiscount, lineTotal := lineTotal } :: rest)
    else do
      let rest ← giveBackFirst excess rest
      some (lp :: rest)

def capped (taken : Taken) (r : Rule) : Option Taken :=
  if r.maxDiscount > 0 ∧ taken.discount > r.maxDiscount then do
    let excess ← sub 64 taken.discount r.maxDiscount
    let back ← giveBackFirst excess taken.lines.reverse
    some { taken with discount := r.maxDiscount, lines := back.reverse }
  else some taken

def record (q : Running) (r : Rule) (taken : Taken) : Option Running :=
  if taken.discount ≤ 0 then
    some { q with lines := taken.lines, shippingTotal := taken.shippingTotal }
  else do
    let final ← capped taken r
    let discount ← neg 64 final.discount
    let discountTotal ← sub 64 q.discountTotal final.discount
    some { q with
      lines := final.lines
      shippingTotal := final.shippingTotal
      discountTotal := discountTotal
      applied := q.applied ++ [{
        promotionId := r.id
        name := r.name
        type := r.type
        discount := discount
        couponCode := r.couponCode
        appliesToSkus := final.appliesToSkus
        priority := r.priority
        exclusive := r.exclusive }]
      exclusiveApplied := q.exclusiveApplied || r.exclusive }

def conditionHolds (c : Condition) (lines : List CartLine) (ctx : Context) (subtotal : Int) :
    Option Bool :=
  match c.field with
  | .cartQuantity => do
    let total ← sum 64 0 (lines.map (·.quantity))
    some (c.op.compare total c.numeric)
  | _ => some (Pricing.conditionHolds c lines ctx subtotal)

/-- The first condition that does not hold; those behind it are not evaluated. -/
def firstFailing (lines : List CartLine) (ctx : Context) (subtotal : Int) :
    List Condition → Option (Option Condition)
  | [] => some none
  | c :: rest => do
    let holds ← conditionHolds c lines ctx subtotal
    if holds then firstFailing lines ctx subtotal rest else some (some c)

def matchesRule (r : Rule) (lines : List CartLine) (ctx : Context) (subtotal : Int) (now : Int) :
    Option (Except String Unit) :=
  if !r.active then some (.error "PROMOTION_INACTIVE")
  else if r.validFrom ≠ 0 ∧ now < r.validFrom then some (.error "PROMOTION_NOT_STARTED")
  else if r.validUntil ≠ 0 ∧ now > r.validUntil then some (.error "COUPON_EXPIRED")
  else if r.couponCode ≠ "" ∧ !ctx.coupons.contains r.couponCode then
    some (.error "COUPON_NOT_PRESENTED")
  else do
    match ← firstFailing lines ctx subtotal r.conditions with
    | some c => some (.error c.field.rejectReason)
    | none => some (.ok ())

def promote (lines : List CartLine) (ctx : Context) (now : Int) (subtotal : Int) (q : Running)
    (r : Rule) : Option Running :=
  if q.exclusiveApplied then some (q.reject r "EXCLUDED_BY_EXCLUSIVE_PROMOTION")
  else do
    match ← matchesRule r lines ctx subtotal now with
    | .error reason =>
      if r.couponCode ≠ "" ∧ ctx.coupons.contains r.couponCode then some (q.reject r reason)
      else some q
    | .ok () =>
      if r.type = .bundle then
        some (q.reject r "PROMOTION_TYPE_NOT_SUPPORTED" "bundle pricing is not implemented")
      else
        let taken ← take r subtotal q.shippingTotal q.lines
        record q r taken

def listPrice (l : CartLine) : Option LinePrice := do
  let lineSubtotal ← mul 64 l.unitListPrice l.quantity
  some { Pricing.listPrice l with lineSubtotal := lineSubtotal, lineTotal := lineSubtotal }

def settle (lp : LinePrice) : Option LinePrice :=
  if lp.quantity > 0 then do
    let unit ← div 64 (nonNegative lp.lineTotal) lp.quantity
    some { lp with lineTotal := nonNegative lp.lineTotal, unitEffectivePrice := unit }
  else some { lp with lineTotal := nonNegative lp.lineTotal, unitEffectivePrice := 0 }

def taxAmount (taxable : Int) (t : TaxRule) : Option Int :=
  if t.inclusive then do
    let product ← mul 64 taxable t.rate
    let divisor ← add 32 10000 t.rate
    div 64 product divisor
  else applyBp taxable t.rate

def taxLine (taxable : Int) (t : TaxRule) : Option TaxLine := do
  let amount ← taxAmount taxable t
  some ⟨t.name, t.jurisdiction, t.rate, amount, t.inclusive⟩

def close (set : RuleSet) (ctx : Context) (subtotal : Int) (q : Running) : Option Quote := do
  let settled ← q.lines.mapM settle
  let lineSum ← sum 64 0 (settled.map (·.lineTotal))
  let taxable ← add 64 lineSum q.shippingTotal
  let taxLines ← (set.taxes.filter fun t => t.countryCode = ctx.countryCode).mapM (taxLine taxable)
  let taxTotal ← sum 64 0 ((taxLines.filter fun t => !t.inclusive).map (·.amount))
  -- the source adds up the lines and the shipping a second time
  let grandTotal ← add 64 taxable taxTotal
  some {
    lines := settled
    subtotal := subtotal
    discountTotal := q.discountTotal
    shippingTotal := q.shippingTotal
    taxTotal := taxTotal
    grandTotal := nonNegative grandTotal
    applied := q.applied
    rejected := q.rejected
    taxLines := taxLines
    rulesVersion := set.version }

/-- Prices a whole cart, in machine arithmetic. -/
def calculate (set : RuleSet) (lines : List CartLine) (ctx : Context) (shippingQuote : Int)
    (now : Int) : Option Quote := do
  let listed ← lines.mapM listPrice
  let subtotal ← sum 64 0 (listed.map (·.lineSubtotal))
  let q ← set.rules.foldlM (promote lines ctx now subtotal)
      ⟨listed, shippingQuote, 0, [], [], false⟩
  close set ctx subtotal q

/-! ## What the operations need

Every condition is about the operands of exact operations. -/

variable {r : Rule} {lp : LinePrice} {lines : List LinePrice} {cart : List CartLine}
  {ctx : Context} {q : Running} {taken : Taken} {amount bp subtotal shipping now : Int}

/-- The product is in range, also when a half is added to it. -/
def BpFits (amount bp : Int) : Prop :=
  -kMaxSafe ≤ amount → amount ≤ kMaxSafe → Fits 64 (amount * bp - 5000) ∧
    Fits 64 (amount * bp + 5000)

theorem guards_round (n : Int) :
    Guards (fit 64 n >>= fun n => div 64 n 10000) (Fits 64 n) (some (n.tdiv 10000)) :=
  ((guards_fit 64 n).next (guards_div 64 n 10000)).congr
    (and_iff_left_of_imp fun fits => ⟨by decide, fits.tdiv (by decide)⟩)

theorem guards_applyBp (amount bp : Int) :
    Guards (applyBp amount bp) (BpFits amount bp) (some (Pricing.applyBp amount bp)) := by
  have half : Guards (mul 64 amount bp >>= fun product =>
        if product ≥ 0 then add 64 product 5000 >>= fun up => div 64 up 10000
        else sub 64 product 5000 >>= fun down => div 64 down 10000)
      (Fits 64 (amount * bp) ∧ (amount * bp ≥ 0 → Fits 64 (amount * bp + 5000)) ∧
        (¬ amount * bp ≥ 0 → Fits 64 (amount * bp - 5000)))
      (if amount * bp ≥ 0 then some ((amount * bp + 5000).tdiv 10000)
        else some ((amount * bp - 5000).tdiv 10000)) :=
    (guards_fit 64 _).next (.ite (fun _ => guards_round _) fun _ => guards_round _)
  unfold applyBp Pricing.applyBp
  simp only [apply_ite some]
  apply (Guards.ite (P := True) (fun _ => ?_) fun _ => half).congr
  · simp only [BpFits, fits64_iff, implies_true, true_and, not_or, and_imp, gt_iff_lt, not_lt]
    constructor
    · intro fits floor ceiling
      have := fits ceiling floor
      omega
    · intro fits ceiling floor
      have := fits floor ceiling
      omega
  · simp only [← apply_ite some]
    exact guards_some _

theorem bpFits_of_rate (rate : 0 ≤ bp) (whole : bp ≤ 10000) (amount : Int) :
    BpFits amount bp := by
  intro floor ceiling
  have low : -kMaxSafe * bp ≤ amount * bp := Int.mul_le_mul_of_nonneg_right floor rate
  have high : amount * bp ≤ kMaxSafe * bp := Int.mul_le_mul_of_nonneg_right ceiling rate
  unfold kMaxSafe at low high
  constructor <;> rw [fits64_iff] <;> omega

end Souq.Pricing.Machine
