import Souq.Pricing.Baskets

/-!
# The neighbours of an item

A page is priced as one cart, so conditions on the cart, amounts that are spread, caps and
exclusive promotions can make the price of an item depend on what else is on the page. The
two loops, over the page and over the item alone, run turn by turn beside each other; the
item's tile is the same in both until a turn of one of these kinds sets the two apart.
-/

namespace Souq.Pricing

open List

variable {batch alone : List CartLine} {ctx : Context} {now : Int}
  {q p q₀ p₀ q₁ p₁ : Running} {r s : Rule} {taken : Taken} {rules : List Rule} {set : RuleSet}
  {k : Nat} {l : CartLine}

/-- A rule comes to its turn, and the two loops are in these states before it. -/
def Meets (batch alone : List CartLine) (ctx : Context) (now : Int) (rules : List Rule)
    (q₀ p₀ : Running) (r : Rule) (q p : Running) : Prop :=
  ∃ done rest, rules = done ++ r :: rest ∧ promotions batch ctx now done q₀ = some q ∧
    promotions alone ctx now done p₀ = some p

/-- The lines at a place of the page and of the item alone come from one list price. -/
structure Running.Beside (q p : Running) (k : Nat) (l : CartLine) : Prop where
  page : ∃ lp, q.lines[k]? = some lp ∧ (listPrice l).Becomes lp
  item : ∃ lp, p.lines[0]? = some lp ∧ (listPrice l).Becomes lp

theorem Running.Beside.later (beside : q.Beside p k l) (become : Become q.lines q₁.lines)
    (become' : Become p.lines p₁.lines) : q₁.Beside p₁ k l := by
  obtain ⟨⟨lp, found, becomes⟩, ⟨lp', found', becomes'⟩⟩ := beside
  obtain ⟨later, here, further⟩ := become.forward found
  obtain ⟨later', there, further'⟩ := become'.forward found'
  exact ⟨⟨later, here, becomes.trans further⟩, ⟨later', there, becomes'.trans further'⟩⟩

theorem Meets.later (meets : Meets batch alone ctx now rules q₁ p₁ r q p)
    (turn : promote batch ctx now (subtotalOf batch) q₀ s = some q₁)
    (turn' : promote alone ctx now (subtotalOf alone) p₀ s = some p₁) :
    Meets batch alone ctx now (s :: rules) q₀ p₀ r q p := by
  obtain ⟨done, rest, rfl, ran, ran'⟩ := meets
  refine ⟨s :: done, rest, rfl, ?_, ?_⟩
  · rw [promotions_cons, turn]
    exact ran
  · rw [promotions_cons, turn']
    exact ran'

variable {front back : List CartLine}

end Souq.Pricing
