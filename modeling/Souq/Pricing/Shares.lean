import Souq.Lib.Proportion
import Souq.Pricing.Caps

/-!
# How a fixed amount is spread

An amount off the cart is divided over the lines in proportion to their list
prices. Every share but the last is rounded down, and the last line takes what
remains, as far as its own total goes. So the amount is placed in full exactly
when the last line costs at least what rounding leaves for it.
-/

namespace Souq.Pricing

open Proportion RuleSet List

variable {r : Rule} {subtotal : Int}

/-- What a line that is not the last one takes of an amount that suffices. -/
def Rule.part (r : Rule) (subtotal : Int) (lp : LinePrice) : Int :=
  min ((r.amountOff * lp.lineSubtotal).tdiv (max subtotal 1)) lp.lineTotal

theorem spread_remaining_last (remaining : Int) (lp : LinePrice) (enough : 0 ≤ remaining)
    (floored : 0 ≤ lp.lineTotal) :
    (spread r subtotal [lp] remaining).remaining = max (remaining - lp.lineTotal) 0 := by
  unfold spread
  split
  · simp only
    omega
  · simp only [isEmpty_nil, spread, share, ↓reduceIte]
    split <;> simp only <;> omega

/-- **The spread.** While the amount suffices every line takes its part, and what
the last line cannot take remains. -/
theorem spread_remaining (last : LinePrice) (floored : 0 ≤ last.lineTotal) :
    ∀ (front : List LinePrice) (remaining : Int), (∀ lp ∈ front, 0 ≤ r.part subtotal lp) →
      (front.map (r.part subtotal)).sum ≤ remaining →
      (spread r subtotal (front ++ [last]) remaining).remaining =
        max (remaining - (front.map (r.part subtotal)).sum - last.lineTotal) 0 := by
  intro front
  induction front with
  | nil =>
    intro remaining _ enough
    simp only [nil_append, map_nil, sum_nil, Int.sub_zero] at enough ⊢
    exact spread_remaining_last remaining last enough floored
  | cons lp front ih =>
    intro remaining positive enough
    obtain ⟨first, others⟩ := forall_mem_cons.mp positive
    have rest : 0 ≤ (front.map (r.part subtotal)).sum := by
      apply sum_nonneg
      intro part member
      obtain ⟨lp, listed, rfl⟩ := mem_map.mp member
      exact others lp listed
    rw [map_cons, sum_cons] at enough ⊢
    have shared : share r subtotal remaining lp (front ++ [last]).isEmpty = r.part subtotal lp := by
      have more : (front ++ [last]).isEmpty = false := by simp
      have within : r.part subtotal lp ≤ remaining := by omega
      simp only [share, more, Bool.false_eq_true, ↓reduceIte]
      unfold Rule.part at within ⊢
      omega
    rw [cons_append]
    unfold spread
    split
    · simp only
      omega
    · have tail := ih (remaining - r.part subtotal lp) others (by omega)
      simp only [shared]
      split
      · rw [tail]
        omega
      · rw [tail]
        omega

variable {set : RuleSet} {lines : List CartLine} {ctx : Context} {now shippingQuote : Int}
  {q : Running} {rules : List Rule}

/-- No other rule matches. -/
def RuleSet.OnlyMatches (set : RuleSet) (lines : List CartLine) (ctx : Context) (now : Int)
    (r : Rule) : Prop :=
  ∃ front back, set.rules = front ++ r :: back ∧
    matchesRule r lines ctx (subtotalOf lines) now = .ok () ∧
    ∀ other ∈ front ++ back, matchesRule other lines ctx (subtotalOf lines) now ≠ .ok ()

theorem promotions_unmatched
    (unmatched : ∀ other ∈ rules, matchesRule other lines ctx (subtotalOf lines) now ≠ .ok ())
    (q : Running) :
    ∃ rejected, promotions lines ctx now rules q = some { q with rejected := rejected } := by
  have untried : ∀ other before, Tries lines ctx now rules q other before → False :=
    fun other _ tries => unmatched other tries.listed tries.matched
  obtain ⟨final, ran⟩ := promotions_total fun other before tries =>
    (untried other before tries).elim
  obtain ⟨rejected, rfl⟩ : ∃ rejected, final = { q with rejected := rejected } := by
    apply promotions_induction
      (P := fun after => ∃ rejected, after = { q with rejected := rejected })
      _ ran ⟨_, rfl⟩
    rintro other before after turns ⟨_, rfl⟩
    rcases turns.recorded with ⟨rejected, rfl⟩ | ⟨_, tries, -⟩
    · exact ⟨rejected, rfl⟩
    · exact (untried other _ tries).elim
  exact ⟨rejected, ran⟩

theorem promotions_onlyMatches {taken : Taken} (only : set.OnlyMatches lines ctx now r)
    (supported : r.type ≠ .bundle)
    (took : take r (subtotalOf lines) shippingQuote (lines.map listPrice) = some taken) :
    ∃ rejected, promotions lines ctx now set.rules (.start lines shippingQuote) =
      some { (Running.start lines shippingQuote).record r taken with rejected := rejected } := by
  obtain ⟨front, back, split, matched, unmatched⟩ := only
  obtain ⟨first, before⟩ := promotions_unmatched
    (fun other member => unmatched other (mem_append_left back member))
    (.start lines shippingQuote)
  let middle := { Running.start lines shippingQuote with rejected := first }
  have turn : promote lines ctx now (subtotalOf lines) middle r = some (middle.record r taken) :=
    promote_of_tried rfl matched supported took
  obtain ⟨last, after⟩ := promotions_unmatched
    (fun other member => unmatched other (mem_append_right front member))
    (middle.record r taken)
  refine ⟨last, ?_⟩
  rw [split, promotions_append, before, Option.bind_some, promotions_cons, turn,
    Option.bind_some, after]
  unfold Running.record
  split
  · rfl
  · rfl

/-- What rounding leaves for the last line is no more than it costs. -/
def Rule.Rounds (r : Rule) (lines : List CartLine) : Prop :=
  ∀ front last, lines = front ++ [last] → r.amountOff < subtotalOf lines →
    r.amountOff - (parts r.amountOff (subtotalOf lines)
        (front.map fun l => l.unitListPrice * l.quantity)).sum ≤
      last.unitListPrice * last.quantity

/-- A rule that takes an amount, without a cap. -/
structure Rule.Fixed (r : Rule) : Prop where
  type : r.type = .amountOff ∨ r.type = .cartThreshold
  uncapped : r.maxDiscount ≤ 0
  amount : 0 ≤ r.amountOff

theorem take_fixed (fixed : r.Fixed) (subtotal shipping : Int) (before : List LinePrice) :
    take r subtotal shipping before = some (amountOff r subtotal shipping before) := by
  unfold take
  rcases fixed.type with type | type
  · rw [type]
  · rw [type]

theorem subtotalOf_append (front : List CartLine) (last : CartLine) :
    subtotalOf (front ++ [last]) =
      (front.map fun l => l.unitListPrice * l.quantity).sum + last.unitListPrice *
      last.quantity := by
  simp only [subtotalOf, map_append, map_map, sum_append, map_cons,
    map_nil, sum_cons, sum_nil, Int.add_zero]
  rfl

theorem part_listPrice (r : Rule) (l : CartLine) (divides : 0 < subtotal) :
    r.part subtotal (listPrice l) =
      min ((r.amountOff * (l.unitListPrice * l.quantity)).tdiv subtotal)
        (l.unitListPrice * l.quantity) := by
  have same : max subtotal 1 = subtotal := by omega
  simp only [Rule.part, same, listPrice]

variable {front : List CartLine}

theorem parts_below (fixed : r.Fixed) (billable : Billable front) (below : r.amountOff ≤ subtotal)
    (divides : 0 < subtotal) :
    (front.map listPrice).map (r.part subtotal) =
      parts r.amountOff subtotal (front.map fun l => l.unitListPrice * l.quantity) := by
  rw [parts, map_map, map_map]
  apply map_congr_left
  intro l member
  obtain ⟨unit, quantity⟩ := billable l member
  have weighed : 0 ≤ l.unitListPrice * l.quantity := Int.mul_nonneg unit quantity
  rw [Function.comp_apply, part_listPrice r l divides]
  exact min_eq_left (part_le_weight below divides weighed fixed.amount)

theorem parts_above (fixed : r.Fixed) (billable : Billable front) (above : subtotal ≤ r.amountOff)
    (divides : 0 < subtotal) :
    (front.map listPrice).map (r.part subtotal) =
      front.map fun l => l.unitListPrice * l.quantity := by
  rw [map_map]
  apply map_congr_left
  intro l member
  obtain ⟨unit, quantity⟩ := billable l member
  have weighed : 0 ≤ l.unitListPrice * l.quantity := Int.mul_nonneg unit quantity
  rw [Function.comp_apply, part_listPrice r l divides]
  exact min_eq_right (weight_le_part above divides weighed fixed.amount)

theorem Billable.total_nonneg (billable : Billable front) :
    ∀ weight ∈ front.map (fun l => l.unitListPrice * l.quantity), 0 ≤ weight := by
  intro weight member
  obtain ⟨l, listed, rfl⟩ := mem_map.mp member
  exact Int.mul_nonneg (billable l listed).1 (billable l listed).2

theorem rounds_append (r : Rule) (front : List CartLine) (last : CartLine) :
    r.Rounds (front ++ [last]) ↔ (r.amountOff < subtotalOf (front ++ [last]) →
      r.amountOff - (parts r.amountOff (subtotalOf (front ++ [last]))
          (front.map fun l => l.unitListPrice * l.quantity)).sum ≤
        last.unitListPrice * last.quantity) := by
  constructor
  · exact fun rounds => rounds front last rfl
  · intro fits other end' split
    obtain ⟨rfl, same⟩ := append_inj' split rfl
    obtain rfl := head_eq_of_cons_eq same
    exact fits

/-- **The spread of a fixed amount** over list prices leaves nothing exactly when it
rounds onto the last line. -/
theorem remaining_eq_zero_iff (fixed : r.Fixed) (billable : Billable lines) :
    (spread r (subtotalOf lines) (lines.map listPrice)
        (min r.amountOff (subtotalOf lines))).remaining = 0 ↔ r.Rounds lines := by
  have amount := fixed.amount
  rcases eq_nil_or_concat lines with rfl | ⟨front, last, rfl⟩
  · apply iff_of_true
    · simp only [subtotalOf, map_nil, sum_nil, spread]
      omega
    · intro front last split
      simp at split
  · rw [concat_eq_append] at billable ⊢
    have before : Billable front := fun l member => billable l (mem_append_left _ member)
    obtain ⟨unit, quantity⟩ := billable last (mem_append_right front (mem_singleton_self _))
    have priced : 0 ≤ last.unitListPrice * last.quantity := Int.mul_nonneg unit quantity
    have weighed := before.total_nonneg
    have positive := sum_nonneg weighed
    rw [rounds_append, map_append, map_singleton]
    have whole := subtotalOf_append front last
    generalize subtotalOf (front ++ [last]) = subtotal at whole ⊢
    rcases Int.lt_or_le 0 subtotal with divides | free
    · rcases Int.lt_or_le r.amountOff subtotal with below | above
      · have placed := parts_below fixed before below.le divides
        have enough : (parts r.amountOff subtotal
            (front.map fun l => l.unitListPrice * l.quantity)).sum ≤ r.amountOff :=
          sum_parts_le amount divides weighed (by omega)
        have shares : ∀ lp ∈ front.map listPrice, 0 ≤ r.part subtotal lp := by
          have each := parts_nonneg amount divides weighed
          rw [← placed] at each
          exact forall_mem_map.mp each
        rw [spread_remaining (listPrice last) priced _ _ shares (by rw [placed]; omega), placed]
        simp only [listPrice]
        omega
      · have placed := parts_above fixed before above divides
        have shares : ∀ lp ∈ front.map listPrice, 0 ≤ r.part subtotal lp := by
          have each := weighed
          rw [← placed] at each
          exact forall_mem_map.mp each
        rw [spread_remaining (listPrice last) priced _ _ shares (by rw [placed]; omega), placed]
        simp only [listPrice]
        omega
    · rw [spread_nonpos _ _ (by omega)]
      omega

/-- A quote whose discounts, and what its lines lost, both come to an amount. -/
structure Quote.Placed (quote : Quote) (subtotal amount : Int) : Prop where
  applied : -discounts quote.applied = amount
  lost : subtotal - lineSum quote.lines = amount

theorem record_uncapped {taken : Taken} (uncapped : r.maxDiscount ≤ 0)
    (positive : 0 ≤ taken.discount) :
    (q.record r taken).lines = taken.lines ∧
      discounts (q.record r taken).applied = discounts q.applied - taken.discount := by
  have whole : taken.capped r = taken := if_neg fun capped => by omega
  unfold Running.record
  rw [whole]
  split
  · refine ⟨rfl, ?_⟩
    simp only
    omega
  · refine ⟨rfl, ?_⟩
    simp only [discounts_append]
    omega

theorem listPrices_nonneg (billable : Billable lines) :
    ∀ lp ∈ lines.map listPrice, 0 ≤ lp.lineSubtotal :=
  forall_mem_map.mpr billable.whole

/-- A fixed discount is booked, and missing from the lines, as far as it was placed. -/
theorem placed_iff (set : RuleSet) (ctx : Context) (shippingQuote : Int)
    (rejected : List RejectedPromotion) (fixed : r.Fixed) (billable : Billable lines) :
    (set.close lines ctx { (Running.start lines shippingQuote).record r
        (amountOff r (subtotalOf lines) shippingQuote (lines.map listPrice)) with
          rejected := rejected }).Placed (subtotalOf lines) (min r.amountOff (subtotalOf lines)) ↔
      (spread r (subtotalOf lines) (lines.map listPrice)
        (min r.amountOff (subtotalOf lines))).remaining = 0 := by
  have floored := (sound_start billable (le_refl 0)).floored
  have same : lineSum (lines.map listPrice) = subtotalOf lines := by
    simp only [lineSum, subtotalOf, map_map]
    rfl
  have settled := settle_of_floored (floored_spread r (subtotalOf lines) (lines.map listPrice)
    (min r.amountOff (subtotalOf lines)) floored)
  have lost := lineSum_spread r (subtotalOf lines) (lines.map listPrice)
    (min r.amountOff (subtotalOf lines))
  have placed := spread_remaining_le (subtotalOf lines) fixed.amount (lines.map listPrice)
    (min r.amountOff (subtotalOf lines)) (listPrices_nonneg billable) floored
  obtain ⟨kept, booked⟩ : ((Running.start lines shippingQuote).record r
        (amountOff r (subtotalOf lines) shippingQuote (lines.map listPrice))).lines =
          (spread r (subtotalOf lines) (lines.map listPrice)
            (min r.amountOff (subtotalOf lines))).lines ∧
      discounts ((Running.start lines shippingQuote).record r
          (amountOff r (subtotalOf lines) shippingQuote (lines.map listPrice))).applied =
        0 - (min r.amountOff (subtotalOf lines) - (spread r (subtotalOf lines)
          (lines.map listPrice) (min r.amountOff (subtotalOf lines))).remaining) :=
    record_uncapped fixed.uncapped (Int.sub_nonneg_of_le placed)
  constructor
  · rintro ⟨applied, -⟩
    simp only [close, booked] at applied
    omega
  · intro nothing
    constructor
    · simp only [close, booked]
      omega
    · simp only [close, kept, settled]
      omega

/-- **When a fixed amount is placed in full.** Of a cart with one matching rule,
an uncapped amount off, the discounts and what the lines lose are both the amount,
or the subtotal if that is less, exactly when the amount rounds onto the last line. -/
theorem amount_placed_iff (set : RuleSet) (lines : List CartLine) (ctx : Context)
    (shippingQuote now : Int) (r : Rule) (only : set.OnlyMatches lines ctx now r) (fixed : r.Fixed)
    (billable : Billable lines) :
    (∃ quote, set.calculate lines ctx shippingQuote now = some quote ∧
      quote.Placed (subtotalOf lines) (min r.amountOff (subtotalOf lines))) ↔ r.Rounds lines := by
  have supported : r.type ≠ .bundle := by
    rcases fixed.type with type | type
    · simp [type]
    · simp [type]
  obtain ⟨rejected, ran⟩ := promotions_onlyMatches only supported
    (take_fixed fixed (subtotalOf lines) shippingQuote (lines.map listPrice))
  have returns := placed_iff set ctx shippingQuote rejected fixed billable
  rw [← remaining_eq_zero_iff fixed billable]
  constructor
  · rintro ⟨quote, returned, placed⟩
    simp only [calculate, ran, Option.map_some, Option.some.injEq] at returned
    subst returned
    exact returns.mp placed
  · intro nothing
    refine ⟨_, ?_, returns.mpr nothing⟩
    simp only [calculate, ran, Option.map_some]

def twoOff : Rule where
  id := "two"
  name := "two"
  type := .amountOff
  amountOff := 200

theorem onlyMatches_twoOff (lines : List CartLine) (ctx : Context) (now : Int) :
    (new [twoOff] [] "v1").OnlyMatches lines ctx now twoOff := by
  refine ⟨[], [], rfl, ?_, fun _ member => (not_mem_nil member).elim⟩
  simp [matchesRule, twoOff]

def twoLines : List CartLine := [⟨"sku_1", 1, 333, [], "Acme"⟩, ⟨"sku_2", 2, 1000, [], "Acme"⟩]

/-- Two pounds off a cart of two lines. -/
theorem two_off_placed :
    ∃ quote, (RuleSet.new [twoOff] [] "v1").calculate twoLines {} 1500 0 = some quote ∧
      quote.Placed 2333 200 := by
  have whole : subtotalOf twoLines = 2333 := by decide +kernel
  have amount : min twoOff.amountOff (subtotalOf twoLines) = 200 := by decide +kernel
  have placed := (amount_placed_iff (new [twoOff] [] "v1") twoLines {} 1500 0 twoOff
    (onlyMatches_twoOff _ _ _) ⟨.inl rfl, le_rfl, by decide⟩ (by simp [Billable, twoLines])).mpr
  rw [amount, whole] at placed
  apply placed
  apply (rounds_append twoOff [⟨"sku_1", 1, 333, [], "Acme"⟩] ⟨"sku_2", 2, 1000, [], "Acme"⟩).mpr
  decide +kernel

def twoOffFile : List Char :=
  "\x7b\"version\":\"v1\",\"rules\":[\x7b\"id\":\"two\",\"type\":\"AMOUNT_OFF\",".toList ++
    "\"amountOff\":200\x7d]\x7d".toList

theorem fromFile_twoOff :
    fromFile (fun _ => 0) twoOffFile = .ok (.new [twoOff] [] "v1") := by
  decide +kernel

def cheapLast : List CartLine :=
  [⟨"sku_1", 3, 111, [], "Acme"⟩, ⟨"sku_2", 1, 333, [], "Acme"⟩, ⟨"sku_3", 1, 333, [], "Acme"⟩,
    ⟨"sku_4", 1, 1, [], "Acme"⟩]

/-- Rounding leaves 0.02 for a last line of 0.01. -/
theorem cheap_last_line_loses_a_piastre : ¬ ∀ (strtod : List Char → Rat) (json : List Char)
    (set : RuleSet) (lines : List CartLine) (ctx : Context) (shippingQuote now : Int) (r : Rule),
    RuleSet.fromFile strtod json = .ok set → set.OnlyMatches lines ctx now r → r.Fixed →
    Billable lines → ∃ quote, set.calculate lines ctx shippingQuote now = some quote ∧
      quote.Placed (subtotalOf lines) (min r.amountOff (subtotalOf lines)) := by
  intro placed
  obtain ⟨quote, returned, whole⟩ := placed _ _ _ cheapLast {} 0 0 twoOff fromFile_twoOff
    (onlyMatches_twoOff _ _ _) ⟨.inl rfl, le_rfl, by decide⟩ (by simp [Billable, cheapLast])
  have booked : ((new [twoOff] [] "v1").calculate cheapLast {} 0 0).map
      (fun quote => -discounts quote.applied) = some 199 := by decide +kernel
  rw [returned, Option.map_some, Option.some.injEq, whole.applied] at booked
  revert booked
  decide +kernel

end Souq.Pricing
