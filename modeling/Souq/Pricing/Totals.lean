import Souq.Pricing.Caps

/-!
# Whether a quote adds up

order-service charges `subtotal + discountTotal + shippingTotal + taxTotal`,
while pricing-engine shows a grand total taken from the lines. The two agree as
long as every rule books as discount exactly what it takes off the lines. Three
turns of the loop do not: a waived shipping quote is booked as discount although
the shipping total drops too, a cap gives its excess back to one line only, and
a buy-x-get-y rule that raises a line is not booked at all.
-/

namespace Souq.Pricing

open List RuleSet

variable {lines : List CartLine} {ctx : Context} {now subtotal shipping shippingQuote : Int}
  {q after final : Running} {r : Rule} {taken : Taken} {set : RuleSet} {rules : List Rule}
  {lp : LinePrice} {priced : List LinePrice}

/-- What the line totals exceed the subtotal less the booked discounts by. -/
def Running.gap (q : Running) (subtotal : Int) : Int :=
  lineSum q.lines - (subtotal + q.discountTotal)

/-- A rule that waives no shipping, raises nothing on balance, and has the excess
of its cap returned in full. -/
structure Taken.Booked (taken : Taken) (r : Rule) : Prop extends taken.Fits r where
  charges : r.type = .freeShipping → taken.discount = 0

/-- Every rule that is tried divides by no zero and books what it takes. -/
def RuleSet.Books (set : RuleSet) (lines : List CartLine) (ctx : Context)
    (shippingQuote now : Int) : Prop :=
  ∀ r q, Tries lines ctx now set.rules (.start lines shippingQuote) r q →
    ∃ taken, take r (subtotalOf lines) q.shippingTotal q.lines = some taken ∧ taken.Booked r

/-- A turn that divides by zero, or books another amount than the lines lose. -/
def Misbooks (lines : List CartLine) (ctx : Context) (now : Int) (r : Rule) (q : Running) : Prop :=
  promote lines ctx now (subtotalOf lines) q r = none ∨
    ∃ after, promote lines ctx now (subtotalOf lines) q r = some after ∧
      after.gap (subtotalOf lines) ≠ q.gap (subtotalOf lines)

theorem gap_record (took : take r subtotal q.shippingTotal q.lines = some taken) :
    (q.record r taken).gap subtotal - q.gap subtotal =
      taken.waived r - if taken.discount ≤ 0 then taken.discount else taken.withheld r := by
  have moved := lineSum_take took
  have capped := lineSum_capped taken r
  unfold Running.record Running.gap
  split
  · simp only
    omega
  · simp only
    omega

theorem lastDiscount_nonneg (priced : List LinePrice) : 0 ≤ lastDiscount priced := by
  unfold lastDiscount
  cases found : priced.reverse.find? fun lp => lp.lineDiscount < 0 with
  | none => exact le_rfl
  | some lp =>
    have discounted : lp.lineDiscount < 0 := by simpa using find?_some found
    simp only
    omega

theorem withheld_lt (positive : 0 < taken.discount) : taken.withheld r < taken.discount := by
  have returned := lastDiscount_nonneg taken.lines
  unfold Taken.withheld
  split
  · next capped =>
      rw [givenBack_eq_min (by omega)]
      omega
  · exact positive

/-- **One turn** leaves the gap alone exactly when the rule books what it takes. -/
theorem booked_iff_gap (took : take r subtotal q.shippingTotal q.lines = some taken)
    (quoted : 0 ≤ q.shippingTotal) :
    taken.Booked r ↔ (q.record r taken).gap subtotal = q.gap subtotal := by
  have change := gap_record took
  unfold Taken.waived at change
  by_cases waives : r.type = .freeShipping
  · have whole : taken.discount = q.shippingTotal := by
      simp only [take, waives] at took
      cases took
      rfl
    rw [if_pos waives] at change
    constructor
    · intro booked
      have nothing := booked.charges waives
      rw [if_pos nothing.le] at change
      omega
    · intro same
      have nothing : taken.discount = 0 := by
        by_contra other
        have positive : 0 < taken.discount := by omega
        have part := withheld_lt (r := r) positive
        rw [if_neg (by omega)] at change
        omega
      refine ⟨⟨nothing.ge, ?_⟩, fun _ => nothing⟩
      intro cap above
      omega
  · rw [if_neg waives] at change
    constructor
    · intro booked
      have all := withheld_eq_zero_iff.mpr booked.excess
      have lowers := booked.lowers
      split at change <;> omega
    · intro same
      split at change
      · refine ⟨⟨by omega, ?_⟩, fun type => (waives type).elim⟩
        intro _ above
        omega
      · next positive =>
          refine ⟨⟨by omega, ?_⟩, fun type => (waives type).elim⟩
          apply withheld_eq_zero_iff.mp
          omega

theorem gap_start (lines : List CartLine) (shippingQuote : Int) :
    (Running.start lines shippingQuote).gap (subtotalOf lines) = 0 := by
  have same : lineSum (lines.map listPrice) = subtotalOf lines := by
    simp only [lineSum, subtotalOf, map_map]
    rfl
  simp [Running.gap, Running.start, same]

theorem sound_tried {start : Running} (sound : start.Sound)
    (tries : Tries lines ctx now rules start r q) : q.Sound := by
  obtain ⟨_, _, -, ran, -⟩ := tries
  exact promotions_induction (P := Running.Sound)
    (fun _ _ _ ⟨_, _, _, _, turn⟩ before => before.promote turn) ran sound

/-- **The loop.** Where every rule that is tried books what it takes, the gap stays. -/
theorem gap_of_booked {start : Running} (sound : start.Sound)
    (booked : ∀ r q taken, Tries lines ctx now rules start r q →
      take r (subtotalOf lines) q.shippingTotal q.lines = some taken → taken.Booked r)
    (ran : promotions lines ctx now rules start = some final) :
    final.gap (subtotalOf lines) = start.gap (subtotalOf lines) := by
  apply promotions_induction
    (P := fun q => q.gap (subtotalOf lines) = start.gap (subtotalOf lines)) _ ran rfl
  intro r q after turns before
  rcases turns.recorded with ⟨_, rfl⟩ | ⟨taken, tries, -, took, rfl⟩
  · exact before
  · have quoted := (sound_tried sound tries).shipping
    exact ((booked_iff_gap took quoted).mp (booked r q taken tries took)).trans before

/-- The grand total misses the sum of its parts by the gap the loop leaves. -/
theorem grandTotal_close {root : Value} (loaded : fromJson root = .ok set)
    (sound : final.Sound) :
    (set.close lines ctx final).grandTotal =
      (set.close lines ctx final).subtotal + (set.close lines ctx final).discountTotal +
        (set.close lines ctx final).shippingTotal + (set.close lines ctx final).taxTotal +
        final.gap (subtotalOf lines) := by
  have rates : ∀ t ∈ set.taxes, 0 ≤ t.rate := fun t listed =>
    ((fromJson_loaded loaded).rate t listed).1
  have settled := settle_of_floored sound.floored
  have taxable : 0 ≤ lineSum final.lines + final.shippingTotal :=
    Int.add_nonneg sound.floored.sum sound.shipping
  have taxed : 0 ≤
      taxTotalOf (taxesFor set.taxes ctx (lineSum final.lines + final.shippingTotal)) :=
    taxTotal_nonneg rates taxable
  simp only [close, settled, Running.gap]
  rw [nonNegative_of_nonneg (Int.add_nonneg taxable taxed)]
  omega

theorem grandTotal_of_booked {root : Value} {quote : Quote}
    (loaded : fromJson root = .ok set) (billable : Billable lines)
    (quoted : 0 ≤ shippingQuote)
    (booked : ∀ r q taken, Tries lines ctx now set.rules (.start lines shippingQuote) r q →
      take r (subtotalOf lines) q.shippingTotal q.lines = some taken → taken.Booked r)
    (returned : set.calculate lines ctx shippingQuote now = some quote) :
    quote.grandTotal =
      quote.subtotal + quote.discountTotal + quote.shippingTotal + quote.taxTotal := by
  obtain ⟨final, ran, rfl⟩ := Option.map_eq_some_iff.mp returned
  have start : (Running.start lines shippingQuote).Sound := sound_start billable quoted
  have sound : final.Sound := promotions_induction (P := Running.Sound)
    (fun _ _ _ ⟨_, _, _, _, turn⟩ before => before.promote turn) ran start
  have gap := gap_of_booked start booked ran
  rw [gap_start] at gap
  rw [grandTotal_close loaded sound, gap, Int.add_zero]

theorem misbooks_of_tried (sound : q.Sound) (tries : Tries lines ctx now rules start r q)
    (unbooked : ¬ ∃ taken, take r (subtotalOf lines) q.shippingTotal q.lines = some taken ∧
      taken.Booked r) : Misbooks lines ctx now r q := by
  obtain ⟨-, -, -, -, opened, matched⟩ := tries
  have supported : r.type ≠ .bundle := by
    intro bundle
    apply unbooked
    refine ⟨_, by simp only [take, bundle]; rfl, ⟨le_rfl, ?_⟩, fun _ => rfl⟩
    intro cap above
    exact (Int.lt_asymm cap above).elim
  cases took : take r (subtotalOf lines) q.shippingTotal q.lines with
  | none =>
    left
    simp only [promote, opened, matched, supported, took, Bool.false_eq_true, ↓reduceIte]
  | some taken =>
    refine .inr ⟨_, promote_of_tried opened matched supported took, fun same => ?_⟩
    exact unbooked ⟨taken, took, (booked_iff_gap took sound.shipping).mpr same⟩

/-- A rule that waives no shipping, has no cap, and gives units away at a discount if at all. -/
structure Rule.Plain (r : Rule) : Prop where
  charges : r.type ≠ .freeShipping
  uncapped : r.maxDiscount ≤ 0
  gives : r.type = .buyXGetY → 0 ≤ r.getQuantity ∧ 0 ≤ r.getDiscountBp

theorem Taken.booked_of_plain (plain : r.Plain) (lowers : 0 ≤ taken.discount) :
    taken.Booked r := by
  have uncapped := plain.uncapped
  refine ⟨⟨lowers, fun cap => ?_⟩, fun type => (plain.charges type).elim⟩
  omega

theorem Priced.whole (each : Priced priced lines) : ∀ lp ∈ priced, 0 ≤ lp.lineSubtotal :=
  fun lp member => ((each.fair lp member).floor).trans (each.fair lp member).ceiling

theorem Priced.listed (each : Priced priced lines) : ∀ lp ∈ priced, ∃ l ∈ lines, lp.Prices l := by
  induction each with
  | nil => exact nofun
  | cons first _ ih =>
    refine forall_mem_cons.mpr ⟨⟨_, mem_cons_self, first⟩, fun lp member => ?_⟩
    obtain ⟨l, found, prices⟩ := ih lp member
    exact ⟨l, mem_cons_of_mem _ found, prices⟩

theorem discount_nonneg {shipping : Int} (each : Priced priced lines)
    (rate : 0 ≤ r.percentOff) (lowers : ∀ l ∈ lines, r.Lowers l) (quoted : 0 ≤ shipping)
    (took : take r subtotal shipping priced = some taken) : 0 ≤ taken.discount := by
  have counted : ∀ {off : LinePrice → Option (Option Int)} {taken : Taken},
      (∀ lp l, l ∈ lines → lp.Prices l → Offers lp (off lp)) →
        takeEach r shipping off priced = some taken → 0 ≤ taken.discount := by
    intro off taken offers took
    apply discount_takeEach took
    intro lp member part offered
    obtain ⟨l, listed, prices⟩ := each.listed lp member
    obtain ⟨here, same, bounded⟩ := offers lp l listed prices
    exact (bounded part (Option.some.inj (same.symm.trans offered))).1
  have spreads : 0 ≤ (amountOff r subtotal shipping priced).discount := by
    simp only [amountOff]
    by_cases off : 0 ≤ r.amountOff
    · have placed := spread_remaining_le subtotal off priced (min r.amountOff subtotal) each.whole
        fun lp member => (each.fair lp member).floor
      omega
    · rw [spread_nonpos subtotal priced (by omega)]
      omega
  unfold take at took
  split at took
  · exact counted (fun _ _ _ prices => offers_percentOff prices rate) took
  · cases took
    exact spreads
  · cases took
    exact spreads
  · exact counted (fun _ _ _ prices => offers_tieredQuantity prices) took
  · next type =>
      exact counted (fun _ l member prices => offers_buyXGetY prices type (lowers l member)) took
  · cases took
    exact quoted
  · cases took
    exact le_rfl

theorem fair_tried {start : Running} (fair : start.Fair lines shippingQuote)
    (rates : ∀ r ∈ rules, 0 ≤ r.percentOff) (lowers : ∀ r ∈ rules, ∀ l ∈ lines, r.Lowers l)
    (tries : Tries lines ctx now rules start r q) : q.Fair lines shippingQuote := by
  obtain ⟨done, rest, rfl, ran, -⟩ := tries
  obtain ⟨final, ran', kept⟩ : ∃ final, promotions lines ctx now done start = some final ∧
      final.Fair lines shippingQuote :=
    fair_promotions fair (fun r member => rates r (mem_append_left _ member))
      fun r _ tries => lowers r (mem_append_left _ tries.listed)
  cases ran.symm.trans ran'
  exact kept

theorem Rule.Plain.lowers (plain : r.Plain) {l : CartLine} (unit : 0 ≤ l.unitListPrice)
    (quantity : 0 ≤ l.quantity) : r.Lowers l := by
  intro type
  obtain ⟨get, rate⟩ := plain.gives type
  exact lowers_of_gives get rate unit quantity type

/-- **A plain quote adds up.** Without free shipping, caps and negative give-aways the grand total
is what order-service derives from the parts. -/
theorem grandTotal_of_plain {root : Value} {set : RuleSet} {lines : List CartLine} {ctx : Context}
    {shippingQuote now : Int} {q : Quote}
    (loaded : fromJson root = .ok set) (plain : ∀ r ∈ set.rules, r.Plain)
    (billable : Billable lines) (quoted : 0 ≤ shippingQuote)
    (returned : set.calculate lines ctx shippingQuote now = some q) :
    q.grandTotal = q.subtotal + q.discountTotal + q.shippingTotal + q.taxTotal := by
  apply grandTotal_of_booked loaded billable quoted _ returned
  intro r q taken tries took
  have rates : ∀ r ∈ set.rules, 0 ≤ r.percentOff := fun r member =>
    ((fromJson_loaded loaded).percent r member).1
  have lowers : ∀ r ∈ set.rules, ∀ l ∈ lines, r.Lowers l := fun r member l ordered =>
    (plain r member).lowers (billable l ordered).1 (billable l ordered).2
  have fair : q.Fair lines shippingQuote :=
    fair_tried (fair_start billable.whole) rates lowers tries
  have shipping := (sound_tried (sound_start billable quoted) tries).shipping
  exact taken.booked_of_plain (plain r tries.listed)
    (discount_nonneg fair.lines (rates r tries.listed) (lowers r tries.listed) shipping took)

def fileOf (rule : List (String × Value)) : Value :=
  .object [("version", .string "rules-1"), ("rules", .array [.object rule])]

def fiveOff : Rule where
  id := "five"
  name := "five"
  type := .amountOff
  amountOff := 500

theorem grandTotal_fiveOff :
    ∃ q, (new [fiveOff] [] "rules-1").calculate [⟨"sku_1", 3, 3333, [], "Acme"⟩] {} 1500 0 =
        some q ∧ q.grandTotal = q.subtotal + q.discountTotal + q.shippingTotal + q.taxTotal := by
  have loaded : fromJson (fileOf [("id", .string "five"), ("type", .string "AMOUNT_OFF"),
    ("amountOff", .int 500)]) = .ok (.new [fiveOff] [] "rules-1") := rfl
  obtain ⟨q, returned⟩ : ∃ q, (new [fiveOff] [] "rules-1").calculate
      [⟨"sku_1", 3, 3333, [], "Acme"⟩] {} 1500 0 = some q := ⟨_, rfl⟩
  refine ⟨q, returned, grandTotal_of_plain loaded ?_ ?_ (by decide) returned⟩
  · intro r member
    obtain rfl := mem_singleton.mp member
    exact ⟨nofun, le_rfl, nofun⟩
  · simp [Billable]

/-- **When a quote adds up.** Where every rule that is tried divides by no zero and
books what it takes off the lines, a loaded rule set returns a quote whose grand
total is subtotal, discounts, shipping and tax together. Otherwise some turn
divides by zero or books another amount than the lines lose. -/
theorem quote_adds_up_or_misbooks {root : Value} {set : RuleSet} {lines : List CartLine}
    {shippingQuote : Int} (loaded : fromJson root = .ok set) (billable : Billable lines)
    (quoted : 0 ≤ shippingQuote) (ctx : Context) (now : Int) :
    (set.Books lines ctx shippingQuote now →
      ∃ quote, set.calculate lines ctx shippingQuote now = some quote ∧ quote.grandTotal =
          quote.subtotal + quote.discountTotal + quote.shippingTotal + quote.taxTotal) ∧
    (¬ set.Books lines ctx shippingQuote now →
      ∃ r q, Tries lines ctx now set.rules (.start lines shippingQuote) r q ∧
        Misbooks lines ctx now r q) := by
  constructor
  · intro books
    obtain ⟨final, ran⟩ : ∃ final,
        promotions lines ctx now set.rules (.start lines shippingQuote) = some final := by
      apply promotions_total
      intro r q tries
      obtain ⟨taken, took, -⟩ := books r q tries
      exact ⟨taken, took⟩
    have returned : set.calculate lines ctx shippingQuote now =
        some (set.close lines ctx final) := by
      simp only [calculate, ran, Option.map_some]
    refine ⟨_, returned, grandTotal_of_booked loaded billable quoted ?_ returned⟩
    intro r q taken tries took
    obtain ⟨other, same, booked⟩ := books r q tries
    cases took.symm.trans same
    exact booked
  · intro unbooked
    simp only [RuleSet.Books, not_forall] at unbooked
    obtain ⟨r, q, tries, unbooked⟩ := unbooked
    have sound := sound_tried (sound_start billable quoted) tries
    exact ⟨r, q, tries, misbooks_of_tried sound tries unbooked⟩

def tenPercent : Rule where
  id := "ten"
  name := "ten"
  type := .percentOff
  percentOff := 1000
  maxDiscount := 20000

def tenPercentFile : Value :=
  fileOf [("id", .string "ten"), ("type", .string "PERCENT_OFF"),
    ("percentOffBasisPoints", .int 1000), ("maxDiscount", .int 20000)]

theorem quote_adds_up_percent :
    ∃ quote, (new [tenPercent] [] "rules-1").calculate
        [⟨"sku_1", 3, 3333, [], "Acme"⟩] {} 1500 0 = some quote ∧
      quote.grandTotal =
        quote.subtotal + quote.discountTotal + quote.shippingTotal + quote.taxTotal := by
  have loaded : fromJson tenPercentFile = .ok (.new [tenPercent] [] "rules-1") := rfl
  apply (quote_adds_up_or_misbooks loaded (by simp [Billable]) (by decide) {} 0).1
  rintro r q ⟨done, rest, split, ran, -⟩
  cases done with
  | nil =>
    cases split
    cases ran
    exact ⟨_, rfl, ⟨by decide +kernel, by decide +kernel⟩, fun free => absurd free (by decide)⟩
  | cons _ done =>
    obtain ⟨-, later⟩ := List.cons.inj split
    cases done <;> cases later

def waiveShipping : Rule where
  id := "freeship"
  name := "freeship"
  type := .freeShipping

def waiveShippingFile : Value :=
  fileOf [("id", .string "freeship"), ("type", .string "FREE_SHIPPING")]

/-- The waived shipping is taken off twice: the customer is shown 600.00, and
order-service derives 550.00 from the parts of the quote. -/
theorem free_shipping_counted_twice :
    fromJson waiveShippingFile = .ok (.new [waiveShipping] [] "rules-1") ∧
      ∃ q, (new [waiveShipping] [] "rules-1").calculate
          [⟨"sku_1", 1, 60000, [], "Acme"⟩] {} 5000 0 = some q ∧
        q.grandTotal = 60000 ∧
        q.subtotal + q.discountTotal + q.shippingTotal + q.taxTotal = 55000 :=
  ⟨rfl, _, rfl, by decide +kernel, by decide +kernel⟩

end Souq.Pricing
