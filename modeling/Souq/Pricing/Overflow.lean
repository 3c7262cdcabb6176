import Souq.Pricing.Admission
import Souq.Pricing.Machine
import Souq.Pricing.Totals

/-!
# Where the evaluation overflows

On an ordinary cart, without negative lines or shipping and with no rule that raises a
line, every amount the evaluation adds up stays below the list prices and the shipping. What
is left are the products with numbers the loader does not bound, and the sum of the taxes.
-/

namespace Souq.Pricing

open Checked Machine List Int RuleSet

variable {r : Rule} {lp : LinePrice} {l : CartLine} {priced : List LinePrice}
  {lines : List CartLine} {ctx : Context} {q : Running} {taken : Taken}
  {subtotal remaining shippingQuote now : Int}

/-- A state of the loop on an ordinary cart: fair lines, and no more booked than the list
prices and the shipping. -/
structure Running.Tame (q : Running) (lines : List CartLine) (shippingQuote : Int) : Prop where
  fair : q.Fair lines shippingQuote
  tallied : q.discountTotal = discounts q.applied
  worth : q.worth ≤ kMaxSafe

theorem Running.Tame.shipping_nonneg (tame : q.Tame lines shippingQuote)
    (quoted : 0 ≤ shippingQuote) : 0 ≤ q.shippingTotal := by
  have between := tame.fair.shipping
  rw [Set.uIcc_of_le quoted] at between
  exact between.1

/-- **One turn** keeps the state tame. -/
theorem Running.Tame.record (tame : q.Tame lines shippingQuote)
    (took : take r subtotal q.shippingTotal q.lines = some taken)
    (after : (q.record r taken).Fair lines shippingQuote) (lowers : 0 ≤ taken.discount) :
    (q.record r taken).Tame lines shippingQuote := by
  have worth := worth_record took
  have tallied := tame.tallied
  have bound := tame.worth
  have withheld := withheld_nonneg taken r
  refine ⟨after, ?_, ?_⟩
  · unfold Running.record
    split
    · exact tallied
    · simp only [discounts_append, tallied]
      omega
  · split at worth <;> omega

/-- A cart without negative lines or shipping, on which no rule that is tried divides by
zero or raises a line. -/
structure RuleSet.Ordinary (set : RuleSet) (lines : List CartLine) (ctx : Context)
    (shippingQuote now : Int) : Prop where
  amounts : ∀ l ∈ lines, 0 ≤ l.unitListPrice * l.quantity
  shipping : 0 ≤ shippingQuote
  lowers : set.Lowers lines ctx shippingQuote now

variable {set : RuleSet} {start final : Running} {rules : List Rule}

theorem Running.Tame.tried (tame : q.Tame lines shippingQuote)
    (quoted : 0 ≤ shippingQuote) (rate : 0 ≤ r.percentOff) (lowers : ∀ l ∈ lines, r.Lowers l)
    (took : take r subtotal q.shippingTotal q.lines = some taken) :
    Priced taken.lines lines ∧ (q.record r taken).Tame lines shippingQuote := by
  obtain ⟨taken', took', each⟩ : ∃ taken, take r subtotal q.shippingTotal q.lines = some taken ∧
      Priced taken.lines lines := priced_take tame.fair.lines rate lowers
  obtain rfl := Option.some.inj (took.symm.trans took')
  have shipping : taken.shippingTotal ∈ Set.uIcc 0 shippingQuote := by
    rcases take_shippingTotal took with same | waived
    · rw [same]
      exact tame.fair.shipping
    · rw [waived]
      exact Set.left_mem_uIcc
  have counted := discount_nonneg tame.fair.lines rate lowers (tame.shipping_nonneg quoted) took
  exact ⟨each, tame.record took (tame.fair.record each shipping) counted⟩

theorem tame_start (whole : ∀ l ∈ lines, 0 ≤ l.unitListPrice * l.quantity)
    (total : subtotalOf lines + shippingQuote ≤ kMaxSafe) :
    (Running.start lines shippingQuote).Tame lines shippingQuote := by
  refine ⟨fair_start whole, rfl, ?_⟩
  rw [worth_start]
  exact total

/-- **The loop** keeps the state tame if every rule that is tried lowers every line. -/
theorem tame_promotions (quoted : 0 ≤ shippingQuote)
    (rates : ∀ r ∈ rules, 0 ≤ r.percentOff)
    (lowers : ∀ r q, Tries lines ctx now rules start r q → ∀ l ∈ lines, r.Lowers l)
    (ran : promotions lines ctx now rules start = some final)
    (tame : start.Tame lines shippingQuote) : final.Tame lines shippingQuote := by
  apply promotions_induction (P := fun q => q.Tame lines shippingQuote) _ ran tame
  intro r q after turns tame
  rcases turns.recorded with ⟨_, rfl⟩ | ⟨taken, tries, -, took, rfl⟩
  · obtain ⟨⟨each, shipping, discounts, applied⟩, tallied, worth⟩ := tame
    exact ⟨⟨each, shipping, discounts, applied⟩, tallied, worth⟩
  · have lowered := lowers r q tries
    exact (tame.tried quoted (rates r tries.listed) lowered took).2

theorem RuleSet.Ordinary.tame (ordinary : set.Ordinary lines ctx shippingQuote now)
    (loaded : set.Loaded)
    (total : subtotalOf lines + shippingQuote ≤ kMaxSafe) {done rest : List Rule}
    (split : set.rules = done ++ rest)
    (ran : promotions lines ctx now done (.start lines shippingQuote) = some q) :
    q.Tame lines shippingQuote := by
  apply tame_promotions ordinary.shipping _ _ ran (tame_start ordinary.amounts total)
  · exact fun r member => (loaded.percent r (split ▸ mem_append_left rest member)).1
  · intro r q tries
    apply ordinary.lowers r q
    rw [split]
    exact tries.left

end Souq.Pricing
