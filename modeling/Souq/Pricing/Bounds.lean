import Mathlib.Order.Interval.Set.UnorderedInterval
import Souq.Pricing.Books

/-!
# What a line can cost

Every turn of the promotion loop works on the priced lines in place: it takes an
amount off some of them, and a cap hands an excess back to one. A line stays
between nothing and its list price as long as no rule takes a negative amount off
it. Only a buy-x-get-y rule can do that, or divide by zero; `Rule.Lowers` says
when it does not.
-/

namespace Souq.Pricing

open List RuleSet Set

/-- A line whose discount explains its total, between nothing and the list price. -/
structure LinePrice.Fair (lp : LinePrice) : Prop where
  booked : lp.lineTotal = lp.lineSubtotal + lp.lineDiscount
  floor : 0 ≤ lp.lineTotal
  ceiling : lp.lineTotal ≤ lp.lineSubtotal

/-- The price of a line of the cart. -/
structure LinePrice.Prices (lp : LinePrice) (l : CartLine) : Prop where
  unit : lp.unitListPrice = l.unitListPrice
  quantity : lp.quantity = l.quantity
  subtotal : lp.lineSubtotal = l.unitListPrice * l.quantity
  fair : lp.Fair

variable {lp : LinePrice} {l : CartLine} {r : Rule} {off excess : Int}

theorem LinePrice.Fair.take (fair : lp.Fair) (positive : 0 ≤ off) (fits : off ≤ lp.lineTotal) :
    (lp.take off).Fair := by
  have left : (lp.take off).lineTotal = lp.lineTotal - off := lineTotal_take fits
  have booked := fair.booked
  have ceiling := fair.ceiling
  constructor
  · rw [left]
    simp only [LinePrice.take]
    omega
  · rw [left]
    omega
  · rw [left]
    simp only [LinePrice.take]
    omega

theorem LinePrice.Prices.take (prices : lp.Prices l) (positive : 0 ≤ off)
    (fits : off ≤ lp.lineTotal) : (lp.take off).Prices l :=
  ⟨prices.unit, prices.quantity, prices.subtotal, prices.fair.take positive fits⟩

theorem LinePrice.Prices.whole (prices : lp.Prices l) : 0 ≤ lp.lineSubtotal :=
  le_trans prices.fair.floor prices.fair.ceiling

theorem LinePrice.Prices.credit (prices : lp.Prices l) (promotion : String) :
    (lp.credit promotion).Prices l :=
  ⟨prices.unit, prices.quantity, prices.subtotal,
    prices.fair.booked, prices.fair.floor, prices.fair.ceiling⟩

theorem prices_listPrice (whole : 0 ≤ l.unitListPrice * l.quantity) : (listPrice l).Prices l :=
  ⟨rfl, rfl, rfl, (Int.add_zero _).symm, whole, le_rfl⟩

/-- What a buy-x-get-y rule takes off a line with enough units. -/
def Rule.giveaway (r : Rule) (l : CartLine) : Int :=
  applyBp (l.unitListPrice *
    (l.quantity.tdiv (r.buyQuantity + r.getQuantity) * r.getQuantity)) r.getDiscountBp

/-- A rule that neither divides by zero nor takes a negative amount on a line. -/
def Rule.Lowers (r : Rule) (l : CartLine) : Prop :=
  r.type = .buyXGetY → 0 < r.buyQuantity → r.buyQuantity + r.getQuantity ≤ l.quantity →
    r.buyQuantity + r.getQuantity ≠ 0 ∧ 0 ≤ r.giveaway l

instance (r : Rule) (l : CartLine) : Decidable (r.Lowers l) := by
  unfold Rule.Lowers
  infer_instance

/-- A line is left alone, or loses an amount that is neither negative nor more than it costs. -/
def Offers (lp : LinePrice) (offer : Option (Option Int)) : Prop :=
  ∃ here, offer = some here ∧ ∀ part, here = some part → 0 ≤ part ∧ part ≤ lp.lineTotal

theorem offers_min {amount : Int} (positive : 0 ≤ amount) (floor : 0 ≤ lp.lineTotal) :
    Offers lp (some (some (min amount lp.lineTotal))) := by
  apply Exists.intro
  constructor
  · rfl
  · intro part same
    cases same
    exact ⟨le_min positive floor, min_le_right _ _⟩

theorem offers_nothing : Offers lp (some none) :=
  ⟨none, rfl, nofun⟩

theorem offers_percentOff (prices : lp.Prices l) (rate : 0 ≤ r.percentOff) :
    Offers lp (percentOff r lp) :=
  offers_min (applyBp_nonneg prices.whole rate) prices.fair.floor

theorem offers_tieredQuantity (prices : lp.Prices l) : Offers lp (tieredQuantity r lp) := by
  unfold tieredQuantity
  simp only
  split
  · exact offers_nothing
  · exact offers_min (applyBp_nonneg prices.whole (bestTier_nonneg _ _)) prices.fair.floor

theorem offers_buyXGetY (prices : lp.Prices l) (type : r.type = .buyXGetY)
    (lowers : r.Lowers l) : Offers lp (buyXGetY r lp) := by
  unfold buyXGetY
  rw [prices.unit, prices.quantity]
  split
  · exact offers_nothing
  · next buys =>
      obtain ⟨divides, positive⟩ := lowers type (by omega) (by omega)
      rw [if_neg divides]
      exact offers_min positive prices.fair.floor

abbrev Priced (priced : List LinePrice) (lines : List CartLine) : Prop :=
  List.Forall₂ LinePrice.Prices priced lines

variable {priced : List LinePrice} {lines : List CartLine} {shipping subtotal remaining : Int}

theorem priced_takeEach {off : LinePrice → Option (Option Int)} (each : Priced priced lines)
    (offers : ∀ lp l, l ∈ lines → lp.Prices l → Offers lp (off lp)) :
    ∃ taken, takeEach r shipping off priced = some taken ∧ Priced taken.lines lines := by
  induction each with
  | nil => exact ⟨_, rfl, .nil⟩
  | @cons lp l priced lines first rest ih =>
    obtain ⟨after, took, tail⟩ := ih fun lp l member => offers lp l (mem_cons_of_mem _ member)
    obtain ⟨here, offered, fits⟩ := offers lp l mem_cons_self first
    simp only [takeEach, Option.bind_eq_bind, offered, took, Option.bind_some]
    cases here with
    | none => exact ⟨_, rfl, .cons first tail⟩
    | some part =>
      obtain ⟨positive, within⟩ := fits part rfl
      exact ⟨_, rfl, .cons ((first.take positive within).credit r.id) tail⟩

theorem priced_spread (each : Priced priced lines) (off : 0 ≤ r.amountOff) :
    ∀ remaining, Priced (spread r subtotal priced remaining).lines lines := by
  induction each with
  | nil => exact fun _ => .nil
  | @cons lp l priced lines first rest ih =>
    intro remaining
    unfold spread
    split
    · exact .cons first rest
    · have part : 0 ≤ share r subtotal remaining lp priced.isEmpty :=
        share_nonneg subtotal _ (by omega) off first.whole first.fair.floor
      have taken := first.take part (share_le r subtotal remaining lp priced.isEmpty)
      simp only
      split
      · exact .cons (taken.credit r.id) (ih _)
      · exact .cons taken (ih _)

theorem priced_amountOff (each : Priced priced lines) :
    Priced (amountOff r subtotal shipping priced).lines lines := by
  by_cases off : 0 ≤ r.amountOff
  · exact priced_spread each off _
  · have nothing : min r.amountOff subtotal ≤ 0 := by omega
    have same : (spread r subtotal priced (min r.amountOff subtotal)).lines = priced := by
      cases priced with
      | nil => rfl
      | cons lp priced =>
        unfold spread
        rw [if_pos nothing]
    simp only [amountOff, same]
    exact each

theorem priced_giveBackFirst (each : Priced priced lines) (positive : 0 ≤ excess) :
    Priced (giveBackFirst excess priced) lines := by
  induction each with
  | nil => exact .nil
  | @cons lp l priced lines first rest ih =>
    have booked := first.fair.booked
    have floor := first.fair.floor
    unfold giveBackFirst
    split
    · apply List.Forall₂.cons _ rest
      refine ⟨first.unit, first.quantity, first.subtotal, ?_, ?_, ?_⟩
      · simp only
        omega
      · simp only
        omega
      · simp only
        omega
    · exact .cons first ih

theorem priced_giveBack (each : Priced priced lines) (positive : 0 ≤ excess) :
    Priced (giveBack excess priced) lines := by
  have reversed : Priced priced.reverse lines.reverse := forall₂_reverse_iff.mpr each
  have given := forall₂_reverse_iff.mpr (priced_giveBackFirst reversed positive)
  rw [reverse_reverse] at given
  exact given

theorem priced_capped {taken : Taken} (each : Priced taken.lines lines) :
    Priced (taken.capped r).lines lines := by
  unfold Taken.capped
  split
  · next capped => exact priced_giveBack each (by omega)
  · exact each

theorem priced_take (each : Priced priced lines) (rate : 0 ≤ r.percentOff)
    (lowers : ∀ l ∈ lines, r.Lowers l) :
    ∃ taken, take r subtotal shipping priced = some taken ∧ Priced taken.lines lines := by
  unfold take
  split
  · exact priced_takeEach each fun _ _ _ prices => offers_percentOff prices rate
  · exact ⟨_, rfl, priced_amountOff each⟩
  · exact ⟨_, rfl, priced_amountOff each⟩
  · exact priced_takeEach each fun _ _ _ prices => offers_tieredQuantity prices
  · next type =>
      exact priced_takeEach each fun _ l member prices =>
        offers_buyXGetY prices type (lowers l member)
  · exact ⟨_, rfl, each⟩
  · exact ⟨_, rfl, each⟩

/-- The lines are priced, the shipping is the quoted one or less, and every
promotion that is booked takes something off. -/
structure Running.Fair (q : Running) (lines : List CartLine) (shippingQuote : Int) : Prop where
  lines : Priced q.lines lines
  shipping : q.shippingTotal ∈ uIcc 0 shippingQuote
  discounts : q.discountTotal ≤ 0
  applied : ∀ a ∈ q.applied, a.discount < 0

variable {q : Running} {ctx : Context} {shippingQuote now : Int}

theorem Running.Fair.reject (fair : q.Fair lines shippingQuote) (reason detail : String) :
    (q.reject r reason detail).Fair lines shippingQuote :=
  ⟨fair.lines, fair.shipping, fair.discounts, fair.applied⟩

theorem capped_discount_pos {taken : Taken} (positive : 0 < taken.discount) :
    0 < (taken.capped r).discount := by
  unfold Taken.capped
  split
  · next capped => exact capped.1
  · exact positive

theorem capped_shippingTotal (taken : Taken) (r : Rule) :
    (taken.capped r).shippingTotal = taken.shippingTotal := by
  unfold Taken.capped
  split <;> rfl

theorem Running.Fair.record (fair : q.Fair lines shippingQuote) {taken : Taken}
    (each : Priced taken.lines lines) (shipping : taken.shippingTotal ∈ uIcc 0 shippingQuote) :
    (q.record r taken).Fair lines shippingQuote := by
  have discounts := fair.discounts
  unfold Running.record
  split
  · exact ⟨each, shipping, discounts, fair.applied⟩
  · next positive =>
      have books : 0 < (taken.capped r).discount := capped_discount_pos (by omega)
      refine ⟨priced_capped each, ?_, ?_, ?_⟩
      · change (taken.capped r).shippingTotal ∈ _
        rw [capped_shippingTotal]
        exact shipping
      · simp only
        omega
      · intro a member
        rcases mem_append.mp member with before | new
        · exact fair.applied a before
        · obtain rfl := mem_singleton.mp new
          simp only
          omega

theorem take_shippingTotal {taken : Taken} (took : take r subtotal shipping priced = some taken) :
    taken.shippingTotal = shipping ∨ taken.shippingTotal = 0 := by
  unfold take at took
  split at took
  · exact .inl (shipping_takeEach took)
  · cases took
    exact .inl rfl
  · cases took
    exact .inl rfl
  · exact .inl (shipping_takeEach took)
  · exact .inl (shipping_takeEach took)
  · cases took
    exact .inr rfl
  · cases took
    exact .inl rfl

/-- **One turn.** A rule that lowers every line keeps the lines fair. -/
theorem Running.Fair.promote (fair : q.Fair lines shippingQuote) (rate : 0 ≤ r.percentOff)
    (lowers : q.exclusiveApplied = false → matchesRule r lines ctx subtotal now = .ok () →
      ∀ l ∈ lines, r.Lowers l) :
    ∃ after, promote lines ctx now subtotal q r = some after ∧ after.Fair lines shippingQuote := by
  unfold Pricing.promote
  split
  · exact ⟨_, rfl, fair.reject _ _⟩
  · next included =>
      cases matched : matchesRule r lines ctx subtotal now with
      | error reason =>
        simp only
        split
        · exact ⟨_, rfl, fair.reject _ _⟩
        · exact ⟨_, rfl, fair⟩
      | ok _ =>
        simp only
        split
        · exact ⟨_, rfl, fair.reject _ _⟩
        · have lowered := lowers (by simpa using included) matched
          obtain ⟨taken, took, each⟩ :
              ∃ taken, take r subtotal q.shippingTotal q.lines = some taken ∧
                Priced taken.lines lines := priced_take fair.lines rate lowered
          rw [took]
          apply Exists.intro
          constructor
          · rfl
          · apply fair.record each
            rcases take_shippingTotal took with same | waived
            · rw [same]
              exact fair.shipping
            · rw [waived]
              exact left_mem_uIcc

theorem Billable.whole (billable : Billable lines) :
    ∀ l ∈ lines, 0 ≤ l.unitListPrice * l.quantity :=
  fun l member => Int.mul_nonneg (billable l member).1 (billable l member).2

theorem fair_start (whole : ∀ l ∈ lines, 0 ≤ l.unitListPrice * l.quantity) :
    (Running.start lines shippingQuote).Fair lines shippingQuote := by
  refine ⟨?_, right_mem_uIcc, le_rfl, nofun⟩
  apply forall₂_map_left_iff.mpr
  apply forall₂_same.mpr
  intro l member
  exact prices_listPrice (whole l member)

/-- A rule is tried on a state of the loop: no exclusive rule was applied before
it, and it matches. -/
def Tries (lines : List CartLine) (ctx : Context) (now : Int) (rules : List Rule)
    (start : Running) (r : Rule) (q : Running) : Prop :=
  ∃ done rest, rules = done ++ r :: rest ∧ promotions lines ctx now done start = some q ∧
    q.exclusiveApplied = false ∧ matchesRule r lines ctx (subtotalOf lines) now = .ok ()

theorem Tries.later {rules : List Rule} {first other : Rule} {start after : Running}
    (turn : promote lines ctx now (subtotalOf lines) start first = some after)
    (tries : Tries lines ctx now rules after other q) :
    Tries lines ctx now (first :: rules) start other q := by
  obtain ⟨done, rest, rfl, ran, included, matched⟩ := tries
  refine ⟨first :: done, rest, rfl, ?_, included, matched⟩
  simp only [promotions, foldlM_cons, turn]
  exact ran

/-- **The loop.** Rules that lower every line they are tried on keep the lines fair. -/
theorem fair_promotions : ∀ {rules : List Rule} {q : Running}, q.Fair lines shippingQuote →
    (∀ r ∈ rules, 0 ≤ r.percentOff) →
    (∀ r q', Tries lines ctx now rules q r q' → ∀ l ∈ lines, r.Lowers l) →
    ∃ final, promotions lines ctx now rules q = some final ∧ final.Fair lines shippingQuote := by
  intro rules
  induction rules with
  | nil => exact fun fair _ _ => ⟨_, rfl, fair⟩
  | cons first rules ih =>
    intro q fair rates lowers
    obtain ⟨after, turn, kept⟩ := fair.promote (rates first mem_cons_self)
      fun included matched => lowers first q ⟨[], rules, rfl, rfl, included, matched⟩
    obtain ⟨final, ran, fair⟩ := ih kept (fun r member => rates r (mem_cons_of_mem _ member))
      fun r q' tries => lowers r q' (tries.later turn)
    refine ⟨final, ?_, fair⟩
    simp only [promotions, foldlM_cons, turn]
    exact ran

theorem LinePrice.Fair.settle (fair : lp.Fair) : lp.settle.Fair := by
  have same : lp.settle.lineTotal = lp.lineTotal := nonNegative_of_nonneg fair.floor
  constructor
  · rw [same]
    exact fair.booked
  · rw [same]
    exact fair.floor
  · rw [same]
    exact fair.ceiling

theorem Priced.fair (each : Priced priced lines) : ∀ lp ∈ priced, lp.Fair := by
  induction each with
  | nil => exact nofun
  | cons first _ ih => exact forall_mem_cons.mpr ⟨first.fair, ih⟩

/-- A quote whose lines are fair and whose promotions all take something off. -/
structure Quote.Fair (quote : Quote) (shippingQuote : Int) : Prop where
  lines : ∀ lp ∈ quote.lines, lp.Fair
  shipping : quote.shippingTotal ∈ uIcc 0 shippingQuote
  discounts : quote.discountTotal ≤ 0
  applied : ∀ a ∈ quote.applied, a.discount < 0

theorem Running.Fair.close (fair : q.Fair lines shippingQuote) (set : RuleSet) :
    (set.close lines ctx q).Fair shippingQuote := by
  refine ⟨?_, fair.shipping, fair.discounts, fair.applied⟩
  intro lp member
  obtain ⟨before, listed, rfl⟩ := mem_map.mp member
  exact (Priced.fair fair.lines before listed).settle

/-- Rates are rates, and quantities are not negative. -/
structure Rule.Bounded (r : Rule) : Prop where
  percent : 0 ≤ r.percentOff ∧ r.percentOff ≤ 10000
  tiers : ∀ t ∈ r.tiers, 0 ≤ t.minQuantity ∧ 0 ≤ t.discountBp ∧ t.discountBp ≤ 10000
  buy : 0 ≤ r.buyQuantity
  get : 0 ≤ r.getQuantity
  rate : 0 ≤ r.getDiscountBp ∧ r.getDiscountBp ≤ 10000

theorem lowers_of_gives (get : 0 ≤ r.getQuantity) (rate : 0 ≤ r.getDiscountBp)
    (unit : 0 ≤ l.unitListPrice) (quantity : 0 ≤ l.quantity) : r.Lowers l := by
  intro _ buys _
  have groups : 0 ≤ l.quantity.tdiv (r.buyQuantity + r.getQuantity) :=
    Int.tdiv_nonneg quantity (by omega)
  constructor
  · omega
  · exact applyBp_nonneg (Int.mul_nonneg unit (Int.mul_nonneg groups get)) rate

theorem Rule.Bounded.lowers (bounded : r.Bounded) (unit : 0 ≤ l.unitListPrice)
    (quantity : 0 ≤ l.quantity) : r.Lowers l :=
  lowers_of_gives bounded.get bounded.rate.1 unit quantity

/-- **Lines are never negative and never raised.** With rates and quantities
within bounds the evaluation is defined; after every rule of the loop and in the
quote each line's discount explains its total, which is between nothing and the
list price, and the shipping is between nothing and its quote. -/
theorem lines_never_raised (set : RuleSet) (lines : List CartLine) (ctx : Context)
    (shippingQuote now : Int) (bounded : ∀ r ∈ set.rules, r.Bounded) (billable : Billable lines) :
    (∀ done rest, set.rules = done ++ rest →
      ∃ q, promotions lines ctx now done (.start lines shippingQuote) = some q ∧
        (∀ lp ∈ q.lines, lp.Fair) ∧ q.shippingTotal ∈ uIcc 0 shippingQuote) ∧
    ∃ quote, set.calculate lines ctx shippingQuote now = some quote ∧
      (∀ lp ∈ quote.lines, lp.Fair) ∧ quote.shippingTotal ∈ uIcc 0 shippingQuote := by
  have every : ∀ done rest, set.rules = done ++ rest →
      ∃ q, promotions lines ctx now done (.start lines shippingQuote) = some q ∧
        q.Fair lines shippingQuote := by
    intro done rest split
    have within : ∀ r ∈ done, r.Bounded := fun r member =>
      bounded r (split ▸ mem_append_left rest member)
    apply fair_promotions (fair_start billable.whole) fun r member => (within r member).percent.1
    intro r _ tries l member
    obtain ⟨before, after, rfl, -, -, -⟩ := tries
    have tried := within r (mem_append_right before mem_cons_self)
    exact tried.lowers (billable l member).1 (billable l member).2
  constructor
  · intro done rest split
    obtain ⟨q, ran, fair⟩ := every done rest split
    exact ⟨q, ran, Priced.fair fair.lines, fair.shipping⟩
  · obtain ⟨q, ran, fair⟩ := every set.rules [] (append_nil _).symm
    have quoted : (set.close lines ctx q).Fair shippingQuote := fair.close set
    refine ⟨set.close lines ctx q, ?_, quoted.lines, quoted.shipping⟩
    simp only [calculate, ran, Option.map_some]

def halfOff : Rule where
  id := "half"
  name := "half"
  type := .buyXGetY
  buyQuantity := 2
  getQuantity := 1
  getDiscountBp := 5000
  maxDiscount := 1000

theorem halfOff_lines_never_raised :
    ∃ quote, (new [halfOff] [] "v1").calculate [⟨"sku_1", 7, 3333, [], "Acme"⟩] {} 1500 0 =
        some quote ∧
      (∀ lp ∈ quote.lines, lp.Fair) ∧ quote.shippingTotal ∈ uIcc 0 1500 := by
  apply (lines_never_raised (new [halfOff] [] "v1") _ _ 1500 0 _ _).2
  · intro r member
    obtain rfl := mem_singleton.mp member
    exact ⟨by decide, nofun, by decide, by decide, by decide⟩
  · simp [Billable]

theorem Priced.total (each : Priced priced lines) :
    0 ≤ lineSum priced ∧ lineSum priced ≤ subtotalOf lines := by
  induction each with
  | nil => exact ⟨le_rfl, le_rfl⟩
  | @cons lp l priced lines first rest ih =>
    have floor := first.fair.floor
    have ceiling := first.fair.ceiling
    have whole : subtotalOf (l :: lines) = lp.lineSubtotal + subtotalOf lines := by
      rw [first.subtotal]
      exact sum_cons
    rw [lineSum_cons, whole]
    constructor <;> omega

theorem nonNegative_mono {v w : Int} (below : v ≤ w) : nonNegative v ≤ nonNegative w := by
  unfold nonNegative
  split <;> split <;> omega

/-- **What a cart costs.** At least the tax, and at most the list prices, the quoted shipping
and the tax. -/
theorem grandTotal_between (set : RuleSet) (lines : List CartLine) (ctx : Context)
    {shippingQuote : Int} (now : Int) (bounded : ∀ r ∈ set.rules, r.Bounded)
    (billable : Billable lines) (quoted : 0 ≤ shippingQuote) :
    ∃ quote, set.calculate lines ctx shippingQuote now = some quote ∧
      nonNegative quote.taxTotal ≤ quote.grandTotal ∧
      quote.grandTotal ≤ nonNegative (quote.subtotal + shippingQuote + quote.taxTotal) := by
  obtain ⟨q, ran, fair⟩ : ∃ q, promotions lines ctx now set.rules (.start lines shippingQuote) =
      some q ∧ q.Fair lines shippingQuote := by
    apply fair_promotions (fair_start billable.whole) fun r member => (bounded r member).percent.1
    rintro r _ ⟨_, _, among, -⟩ l member
    exact (bounded r (by simp [among])).lowers (billable l member).1 (billable l member).2
  have settled : lineSum (q.lines.map LinePrice.settle) = lineSum q.lines :=
    settle_of_floored fun lp member => (Priced.fair fair.lines lp member).floor
  obtain ⟨floor, ceiling⟩ := Priced.total fair.lines
  have shipping := fair.shipping
  rw [uIcc_of_le quoted] at shipping
  obtain ⟨least, most⟩ := shipping
  refine ⟨set.close lines ctx q, by rw [calculate, ran, Option.map_some], ?_, ?_⟩
  · simp only [close, settled]
    exact nonNegative_mono (by omega)
  · simp only [close, settled]
    exact nonNegative_mono (by omega)

theorem halfOff_between :
    ∃ quote, (new [halfOff] [] "v1").calculate [⟨"sku_1", 7, 3333, [], "Acme"⟩] {} 1500 0 =
        some quote ∧ nonNegative quote.taxTotal ≤ quote.grandTotal ∧
      quote.grandTotal ≤ nonNegative (quote.subtotal + 1500 + quote.taxTotal) := by
  refine grandTotal_between (new [halfOff] [] "v1") _ _ 0 ?_ (by simp [Billable]) (by decide)
  intro r member
  obtain rfl := mem_singleton.mp member
  exact ⟨by decide, by simp [halfOff], by decide, by decide, by decide⟩

end Souq.Pricing
