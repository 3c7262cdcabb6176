import Mathlib.Algebra.Order.BigOperators.Group.List
import Mathlib.Algebra.Order.Ring.Int
import Souq.Pricing.Loader

/-!
# What a rule takes off a cart

A rule of the promotion loop takes an amount off the lines, or waives the
shipping, and a cap hands part of it back. Here is what that comes to over the
whole cart, for each type of promotion: the sum of the lines falls by the
discount of the rule, but for shipping that is waived, and rises again by what
the cap gives back. No line and no shipping falls below nothing.
-/

namespace Souq.Pricing

open List

def Taken.waived (taken : Taken) (r : Rule) : Int :=
  if r.type = .freeShipping then taken.discount else 0

/-- What the last discounted line takes back of a cap's excess. -/
def givenBack (excess : Int) (lines : List LinePrice) : Int :=
  match lines.reverse.find? fun lp => lp.lineDiscount < 0 with
  | some lp => min excess (-lp.lineDiscount)
  | none => 0

/-- The part of a cap's excess that is given back to nobody. -/
def Taken.withheld (taken : Taken) (r : Rule) : Int :=
  if r.maxDiscount > 0 ∧ taken.discount > r.maxDiscount then
    taken.discount - r.maxDiscount - givenBack (taken.discount - r.maxDiscount) taken.lines
  else 0

theorem nonNegative_nonneg (v : Int) : 0 ≤ nonNegative v := by
  unfold nonNegative
  split <;> omega

theorem nonNegative_of_nonneg {v : Int} (positive : 0 ≤ v) : nonNegative v = v := by
  unfold nonNegative
  split <;> omega

@[simp]
theorem lineSum_cons (lp : LinePrice) (lines : List LinePrice) :
    lineSum (lp :: lines) = lp.lineTotal + lineSum lines := by
  simp [lineSum]

theorem lineSum_reverse (lines : List LinePrice) : lineSum lines.reverse = lineSum lines := by
  simp [lineSum, map_reverse, sum_reverse]

@[simp]
theorem lineTotal_credit (lp : LinePrice) (promotion : String) :
    (lp.credit promotion).lineTotal = lp.lineTotal := rfl

variable {lp : LinePrice} {lines : List LinePrice} {r : Rule}
  {shipping subtotal now shippingQuote : Int} {off : LinePrice → Option (Option Int)}
  {taken : Taken} {ctx : Context} {q after : Running}

theorem lineTotal_take {off : Int} (fits : off ≤ lp.lineTotal) :
    (lp.take off).lineTotal = lp.lineTotal - off :=
  nonNegative_of_nonneg (by omega)

theorem lineTotal_take_nonneg (lp : LinePrice) (off : Int) : 0 ≤ (lp.take off).lineTotal :=
  nonNegative_nonneg _

/-- No line total is negative. -/
def Floored (lines : List LinePrice) : Prop := ∀ lp ∈ lines, 0 ≤ lp.lineTotal

theorem Floored.cons (first : 0 ≤ lp.lineTotal) (rest : Floored lines) : Floored (lp :: lines) := by
  intro other member
  rcases mem_cons.mp member with rfl | later
  · exact first
  · exact rest other later

theorem Floored.tail (all : Floored (lp :: lines)) :
    Floored lines :=
  fun other member => all other (mem_cons_of_mem _ member)

theorem Floored.sum (all : Floored lines) : 0 ≤ lineSum lines := by
  induction lines with
  | nil => exact le_rfl
  | cons lp lines ih =>
    rw [lineSum_cons]
    exact Int.add_nonneg (all lp mem_cons_self) (ih all.tail)

theorem lineSum_takeEach (fits : ∀ lp taken, off lp = some (some taken) → taken ≤ lp.lineTotal) :
    ∀ {lines : List LinePrice} {taken : Taken}, takeEach r shipping off lines = some taken →
      lineSum taken.lines = lineSum lines - taken.discount := by
  intro lines
  induction lines with
  | nil =>
    intro taken took
    cases took
    rfl
  | cons lp lines ih =>
    intro taken took
    simp only [takeEach, Option.bind_eq_bind, Option.bind_eq_some_iff] at took
    obtain ⟨here, offered, after, rest, result⟩ := took
    have tail := ih rest
    cases here with
    | none =>
      cases result
      simp only [lineSum_cons, tail]
      omega
    | some part =>
      cases result
      simp only [lineSum_cons, lineTotal_credit, lineTotal_take (fits lp part offered), tail]
      omega

theorem floored_takeEach :
    ∀ {lines : List LinePrice} {taken : Taken}, takeEach r shipping off lines = some taken →
      Floored lines → Floored taken.lines := by
  intro lines
  induction lines with
  | nil =>
    intro taken took floored
    cases took
    exact floored
  | cons lp lines ih =>
    intro taken took floored
    simp only [takeEach, Option.bind_eq_bind, Option.bind_eq_some_iff] at took
    obtain ⟨here, -, after, rest, result⟩ := took
    have tail := ih rest floored.tail
    cases here with
    | none =>
      cases result
      exact tail.cons (floored lp mem_cons_self)
    | some part =>
      cases result
      exact tail.cons (lineTotal_take_nonneg lp part)

theorem shipping_takeEach :
    ∀ {lines : List LinePrice} {taken : Taken}, takeEach r shipping off lines = some taken →
      taken.shippingTotal = shipping := by
  intro lines
  induction lines with
  | nil =>
    intro taken took
    cases took
    rfl
  | cons lp lines ih =>
    intro taken took
    simp only [takeEach, Option.bind_eq_bind, Option.bind_eq_some_iff] at took
    obtain ⟨here, -, after, rest, result⟩ := took
    cases here with
    | none | some part =>
      cases result
      exact (ih rest :)

theorem share_le (r : Rule) (subtotal remaining : Int) (lp : LinePrice) (last : Bool) :
    share r subtotal remaining lp last ≤ lp.lineTotal :=
  min_le_right _ _

theorem lineSum_spread (r : Rule) (subtotal : Int) :
    ∀ (lines : List LinePrice) (remaining : Int),
      lineSum (spread r subtotal lines remaining).lines =
        lineSum lines - (remaining - (spread r subtotal lines remaining).remaining) := by
  intro lines
  induction lines with
  | nil =>
    intro remaining
    simp [spread]
  | cons lp lines ih =>
    intro remaining
    have fits := share_le r subtotal remaining lp lines.isEmpty
    have tail := ih (remaining - share r subtotal remaining lp lines.isEmpty)
    unfold spread
    split
    · simp
    · simp only
      split
      · simp only [lineSum_cons, lineTotal_credit, lineTotal_take fits, tail]
        omega
      · simp only [lineSum_cons, lineTotal_take fits, tail]
        omega

theorem floored_spread (r : Rule) (subtotal : Int) :
    ∀ (lines : List LinePrice) (remaining : Int), Floored lines →
      Floored (spread r subtotal lines remaining).lines := by
  intro lines
  induction lines with
  | nil =>
    intro remaining floored
    exact floored
  | cons lp lines ih =>
    intro remaining floored
    have tail := ih (remaining - share r subtotal remaining lp lines.isEmpty) floored.tail
    unfold spread
    split
    · exact floored
    · simp only
      split
      · exact tail.cons (lineTotal_take_nonneg _ _)
      · exact tail.cons (lineTotal_take_nonneg _ _)

theorem percentOff_le (lp : LinePrice) (off : Int) (offered : percentOff r lp = some (some off)) :
    off ≤ lp.lineTotal := by
  cases offered
  exact min_le_right _ _

theorem tieredQuantity_le (lp : LinePrice) (off : Int)
    (offered : tieredQuantity r lp = some (some off)) : off ≤ lp.lineTotal := by
  unfold tieredQuantity at offered
  simp only at offered
  split at offered
  · cases offered
  · cases offered
    exact min_le_right _ _

theorem buyXGetY_le (lp : LinePrice) (off : Int) (offered : buyXGetY r lp = some (some off)) :
    off ≤ lp.lineTotal := by
  unfold buyXGetY at offered
  split at offered
  · cases offered
  · split at offered
    · cases offered
    · cases offered
      exact min_le_right _ _

theorem lineSum_take (took : take r subtotal shipping lines = some taken) :
    lineSum taken.lines = lineSum lines - (taken.discount - taken.waived r) := by
  unfold take at took
  unfold Taken.waived
  split at took
  · next type => simp [type, lineSum_takeEach percentOff_le took]
  · next type =>
      cases took
      simp only [type, amountOff, lineSum_spread]
      simp
  · next type =>
      cases took
      simp only [type, amountOff, lineSum_spread]
      simp
  · next type => simp [type, lineSum_takeEach tieredQuantity_le took]
  · next type => simp [type, lineSum_takeEach buyXGetY_le took]
  · next type =>
      cases took
      simp [type, freeShipping]
  · next type =>
      cases took
      simp [type]

theorem floored_take (took : take r subtotal shipping lines = some taken)
    (floored : Floored lines) :
    Floored taken.lines := by
  unfold take at took
  split at took
  · exact floored_takeEach took floored
  · cases took
    exact floored_spread _ _ _ _ floored
  · cases took
    exact floored_spread _ _ _ _ floored
  · exact floored_takeEach took floored
  · exact floored_takeEach took floored
  · cases took
    exact floored
  · cases took
    exact floored

theorem shipping_take (took : take r subtotal shipping lines = some taken) (quoted : 0 ≤ shipping) :
    0 ≤ taken.shippingTotal := by
  unfold take at took
  split at took
  · rw [shipping_takeEach took]
    exact quoted
  · cases took
    exact quoted
  · cases took
    exact quoted
  · rw [shipping_takeEach took]
    exact quoted
  · rw [shipping_takeEach took]
    exact quoted
  · cases took
    exact le_rfl
  · cases took
    exact quoted

theorem lineSum_giveBackFirst (excess : Int) (lines : List LinePrice) :
    lineSum (giveBackFirst excess lines) =
      lineSum lines + match lines.find? fun lp => lp.lineDiscount < 0 with
        | some lp => min excess (-lp.lineDiscount)
        | none => 0 := by
  induction lines with
  | nil => rfl
  | cons lp lines ih =>
    unfold giveBackFirst
    by_cases discounted : lp.lineDiscount < 0
    · simp only [discounted, ↓reduceIte, find?_cons, decide_true, lineSum_cons]
      exact Int.add_right_comm _ _ _
    · simp only [discounted, ↓reduceIte, find?_cons, decide_false, lineSum_cons, ih]
      omega

theorem lineSum_giveBack (excess : Int) (lines : List LinePrice) :
    lineSum (giveBack excess lines) = lineSum lines + givenBack excess lines := by
  unfold giveBack givenBack
  rw [lineSum_reverse, lineSum_giveBackFirst, lineSum_reverse]

theorem floored_giveBackFirst {excess : Int} (positive : 0 ≤ excess) (floored : Floored lines) :
    Floored (giveBackFirst excess lines) := by
  induction lines with
  | nil => exact floored
  | cons lp lines ih =>
    have first := floored lp mem_cons_self
    unfold giveBackFirst
    split
    · have back : 0 ≤ min excess (-lp.lineDiscount) := le_min positive (by omega)
      exact floored.tail.cons (Int.add_nonneg first back)
    · exact (ih floored.tail).cons first

theorem floored_giveBack {excess : Int} (positive : 0 ≤ excess) (floored : Floored lines) :
    Floored (giveBack excess lines) := by
  have reversed : Floored lines.reverse :=
    fun lp member => floored lp (mem_reverse.mp member)
  intro lp member
  exact floored_giveBackFirst positive reversed lp (mem_reverse.mp member)

theorem lineSum_capped (taken : Taken) (r : Rule) :
    lineSum (taken.capped r).lines =
      lineSum taken.lines + (taken.discount - (taken.capped r).discount) - taken.withheld r := by
  unfold Taken.capped Taken.withheld
  split
  · simp only [lineSum_giveBack]
    omega
  · omega

/-- Neither a line nor the shipping costs less than nothing. -/
structure Running.Sound (q : Running) : Prop where
  floored : Floored q.lines
  shipping : 0 ≤ q.shippingTotal

theorem Running.Sound.reject (sound : q.Sound) (r : Rule) (reason detail : String) :
    (q.reject r reason detail).Sound :=
  ⟨sound.floored, sound.shipping⟩

theorem Running.Sound.record (floored : Floored taken.lines) (shipping : 0 ≤ taken.shippingTotal)
    (r : Rule) : (q.record r taken).Sound := by
  unfold Running.record Taken.capped
  split
  · exact ⟨floored, shipping⟩
  · split
    · next capped => exact ⟨floored_giveBack (by omega) floored, shipping⟩
    · exact ⟨floored, shipping⟩

theorem Running.Sound.promote {lines : List CartLine} (sound : q.Sound)
    (turn : promote lines ctx now subtotal q r = some after) : after.Sound := by
  unfold Pricing.promote at turn
  split at turn
  · cases turn
    exact sound.reject r _ _
  · split at turn
    · split at turn
      · cases turn
        exact sound.reject r _ _
      · cases turn
        exact sound
    · split at turn
      · cases turn
        exact sound.reject r _ _
      · split at turn
        · cases turn
        · next taken took =>
            cases turn
            exact .record (floored_take took sound.floored) (shipping_take took sound.shipping) r

theorem applyBp_nonneg {amount bp : Int} (positive : 0 ≤ amount) (rate : 0 ≤ bp) :
    0 ≤ applyBp amount bp := by
  have product : 0 ≤ amount * bp := Int.mul_nonneg positive rate
  unfold applyBp
  split
  · unfold kMaxSafe at *
    split <;> omega
  · exact Int.tdiv_nonneg (by omega) (by decide)

theorem taxAmounts_nonneg {taxes : List TaxRule} {taxable : Int} (rates : ∀ t ∈ taxes, 0 ≤ t.rate)
    (positive : 0 ≤ taxable) :
    ∀ amount ∈ ((taxesFor taxes ctx taxable).filter fun t => !t.inclusive).map (·.amount),
      0 ≤ amount := by
  intro amount member
  simp only [taxesFor, mem_map, mem_filter] at member
  obtain ⟨_, ⟨⟨t, ⟨listed, -⟩, rfl⟩, added⟩, rfl⟩ := member
  have exclusive : t.inclusive = false := by simpa [taxLine] using added
  simp only [taxLine, exclusive, Bool.false_eq_true, ↓reduceIte]
  exact applyBp_nonneg positive (rates t listed)

theorem taxTotal_nonneg {taxes : List TaxRule} {taxable : Int} (rates : ∀ t ∈ taxes, 0 ≤ t.rate)
    (positive : 0 ≤ taxable) :
    0 ≤ taxTotalOf (taxesFor taxes ctx taxable) :=
  sum_nonneg (taxAmounts_nonneg rates positive)

theorem settle_of_floored (floored : Floored lines) :
    lineSum (lines.map LinePrice.settle) = lineSum lines := by
  induction lines with
  | nil => rfl
  | cons lp lines ih =>
    rw [map_cons, lineSum_cons, lineSum_cons, ih floored.tail]
    congr 1
    exact nonNegative_of_nonneg (floored lp mem_cons_self)

/-- No negative price or quantity. -/
def Billable (lines : List CartLine) : Prop :=
  ∀ l ∈ lines, 0 ≤ l.unitListPrice ∧ 0 ≤ l.quantity

theorem sound_start {lines : List CartLine} (billable : Billable lines)
    (quoted : 0 ≤ shippingQuote) :
    (Running.start lines shippingQuote).Sound := by
  refine ⟨fun lp member => ?_, quoted⟩
  obtain ⟨l, listed, rfl⟩ := mem_map.mp member
  exact Int.mul_nonneg (billable l listed).1 (billable l listed).2

theorem discount_takeEach :
    ∀ {lines : List LinePrice} {taken : Taken}, takeEach r shipping off lines = some taken →
      (∀ lp ∈ lines, ∀ part, off lp = some (some part) → 0 ≤ part) → 0 ≤ taken.discount := by
  intro lines
  induction lines with
  | nil =>
    intro taken took _
    cases took
    exact le_rfl
  | cons lp lines ih =>
    intro taken took positive
    simp only [takeEach, Option.bind_eq_bind, Option.bind_eq_some_iff] at took
    obtain ⟨here, offered, after, rest, result⟩ := took
    have tail := ih rest fun other member => positive other (mem_cons_of_mem _ member)
    cases here with
    | none =>
      cases result
      exact tail
    | some part =>
      cases result
      exact Int.add_nonneg (positive lp mem_cons_self part offered) tail

theorem share_nonneg {remaining : Int} (subtotal : Int) (last : Bool) (more : 0 ≤ remaining)
    (off : 0 ≤ r.amountOff) (whole : 0 ≤ lp.lineSubtotal) (floored : 0 ≤ lp.lineTotal) :
    0 ≤ share r subtotal remaining lp last := by
  have part : 0 ≤ (r.amountOff * lp.lineSubtotal).tdiv (max subtotal 1) :=
    Int.tdiv_nonneg (Int.mul_nonneg off whole) (by omega)
  unfold share
  refine le_min ?_ floored
  split
  · exact more
  · exact le_min more part

theorem spread_remaining_le (subtotal : Int) (off : 0 ≤ r.amountOff) :
    ∀ (lines : List LinePrice) (remaining : Int), (∀ lp ∈ lines, 0 ≤ lp.lineSubtotal) →
      Floored lines →
      (spread r subtotal lines remaining).remaining ≤ remaining := by
  intro lines
  induction lines with
  | nil =>
    intro remaining _ _
    exact le_rfl
  | cons lp lines ih =>
    intro remaining listed floored
    have tail := ih (remaining - share r subtotal remaining lp lines.isEmpty)
      (fun other member => listed other (mem_cons_of_mem _ member)) floored.tail
    unfold spread
    split
    · exact le_rfl
    · have part := share_nonneg subtotal lines.isEmpty (by omega : 0 ≤ remaining) off
        (listed lp mem_cons_self) (floored lp mem_cons_self)
      simp only
      split <;> simp only <;> omega

theorem spread_nonpos {remaining : Int} (subtotal : Int) (lines : List LinePrice)
    (nothing : remaining ≤ 0) : (spread r subtotal lines remaining).remaining = remaining := by
  cases lines with
  | nil => rfl
  | cons lp lines =>
    unfold spread
    rw [if_pos nothing]

theorem bestTier_nonneg (tiers : List Tier) (quantity : Int) : 0 ≤ bestTier tiers quantity := by
  have grows : ∀ best, 0 ≤ best → 0 ≤ tiers.foldl (fun best t =>
      if quantity ≥ t.minQuantity ∧ t.discountBp > best then t.discountBp else best) best := by
    induction tiers with
    | nil => exact fun _ positive => positive
    | cons t tiers ih =>
      intro best positive
      refine ih _ ?_
      simp only
      split <;> omega
  exact grows 0 le_rfl

end Souq.Pricing
