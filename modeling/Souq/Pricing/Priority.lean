import Mathlib.Data.List.Pairwise
import Souq.Pricing.Rules

/-!
# Priority and exclusivity

The order in which a merchant lists the rules does not matter when their
priorities differ, since the constructor sorts them. Once an exclusive rule is
applied, every rule after it is only reported as rejected.
-/

namespace Souq.Pricing

open RuleSet List Rule Option Running

instance : IsTrans Rule before := ⟨fun _ _ _ first second => Int.le_trans first second⟩

instance : Std.Total before := ⟨fun a b => Int.le_total a.priority b.priority⟩

theorem insertionSort_eq_of_perm {rules others : List Rule}
    (distinct : rules.Pairwise fun a b => a.priority ≠ b.priority) (perm : rules.Perm others) :
    rules.insertionSort before = others.insertionSort before := by
  have same := (perm_insertionSort before rules).trans
    (perm.trans (perm_insertionSort before others).symm)
  refine same.eq_of_pairwise ?_ (pairwise_insertionSort before rules)
    (pairwise_insertionSort before others)
  intro a b left right le ge
  have listed : a ∈ rules := (mem_insertionSort _).mp left
  have listed' : b ∈ rules := perm.mem_iff.mpr ((mem_insertionSort _).mp right)
  by_contra different
  have symmetric : Std.Symm fun a b : Rule => a.priority ≠ b.priority := ⟨fun _ _ ne => ne.symm⟩
  exact distinct.forall listed listed' different (Int.le_antisymm le ge)

theorem RuleSet.new_eq_of_perm {rules others : List Rule}
    (distinct : rules.Pairwise fun a b => a.priority ≠ b.priority) (perm : rules.Perm others)
    (taxes : List TaxRule) (version : String) :
    new rules taxes version = new others taxes version := by
  rw [new, new, insertionSort_eq_of_perm distinct perm]

theorem RuleSet.rules_new_of_sorted {rules : List Rule} (sorted : rules.Pairwise before)
    (taxes : List TaxRule) (version : String) :
    (new rules taxes version).rules = rules :=
  sorted.insertionSort_eq

theorem RuleSet.sorted_new (rules : List Rule) (taxes : List TaxRule) (version : String) :
    (new rules taxes version).rules.Pairwise before :=
  pairwise_insertionSort before rules

def Rule.excluded (r : Rule) : RejectedPromotion :=
  ⟨r.id, r.couponCode, "EXCLUDED_BY_EXCLUSIVE_PROMOTION", ""⟩

def Running.exclude (q : Running) (rules : List Rule) : Running :=
  { q with rejected := q.rejected ++ rules.map excluded }

theorem exclusiveApplied_of_applied {lines : List CartLine} {ctx : Context} {now subtotal : Int}
    {before after : Running} {r : Rule} (exclusive : r.exclusive = true)
    (turn : promote lines ctx now subtotal before r = some after)
    (applied : after.applied ≠ before.applied) : after.exclusiveApplied = true := by
  unfold promote at turn
  split at turn
  · next closed =>
      cases turn
      exact closed
  · split at turn
    · split at turn
      · cases turn
        exact absurd rfl applied
      · cases turn
        exact absurd rfl applied
    · split at turn
      · cases turn
        exact absurd rfl applied
      · split at turn
        · cases turn
        · next taken took =>
            cases turn
            unfold record at applied ⊢
            split at applied
            · exact absurd rfl applied
            · next booked =>
                rw [if_neg booked]
                simp [exclusive]

/-- **What is left of the loop** once an exclusive rule was applied: every rule
is reported and nothing else changes. -/
theorem promotions_of_exclusive {lines : List CartLine} {ctx : Context} {now : Int} :
    ∀ {rules : List Rule} {q : Running}, q.exclusiveApplied = true →
      promotions lines ctx now rules q = some (q.exclude rules) := by
  intro rules
  induction rules with
  | nil =>
    intro q _
    simp [promotions, exclude]
  | cons r rules ih =>
    intro q closed
    have turn : promote lines ctx now (subtotalOf lines) q r =
        some (q.reject r "EXCLUDED_BY_EXCLUSIVE_PROMOTION") := by
      simp [promote, closed]
    have rest := ih (q := q.reject r "EXCLUDED_BY_EXCLUSIVE_PROMOTION") closed
    unfold promotions at rest ⊢
    simp only [foldlM_cons, turn, bind_eq_bind, bind_some, rest]
    simp [exclude, reject, excluded]

theorem promotions_append (lines : List CartLine) (ctx : Context) (now : Int)
    (front back : List Rule) (q : Running) :
    promotions lines ctx now (front ++ back) q =
      (promotions lines ctx now front q).bind (promotions lines ctx now back) := by
  simp only [promotions, foldlM_append]
  rfl

/-- The quote with further rules reported as suppressed. -/
def Quote.exclude (q : Quote) (rules : List Rule) : Quote :=
  { q with rejected := q.rejected ++ rules.map excluded }

/-- **Priority and exclusivity determine the quote.** Rules of pairwise distinct
priorities give the same quote in every order. When an exclusive rule is
applied, the rules after it leave the lines, the shipping, the discounts and the
applied promotions as they are, and the quote is that of the rules up to the
exclusive one, with the others reported as suppressed. -/
theorem priority_and_exclusivity (taxes : List TaxRule) (version : String) (lines : List CartLine)
    (ctx : Context) (shippingQuote now : Int) :
    (∀ rules others : List Rule, rules.Pairwise (fun a b => a.priority ≠ b.priority) →
      rules.Perm others →
      (new rules taxes version).calculate lines ctx shippingQuote now =
        (new others taxes version).calculate lines ctx shippingQuote now) ∧
    ∀ (rules front back : List Rule) (r : Rule) (before after : Running),
      (new rules taxes version).rules = front ++ r :: back →
      r.exclusive = true →
      promotions lines ctx now front (.start lines shippingQuote) = some before →
      promote lines ctx now (subtotalOf lines) before r = some after →
      after.applied ≠ before.applied →
      (∀ seen, seen <+: back → ∃ q, promotions lines ctx now seen after = some q ∧
        q.lines = after.lines ∧ q.shippingTotal = after.shippingTotal ∧
        q.discountTotal = after.discountTotal ∧ q.applied = after.applied) ∧
      (new rules taxes version).calculate lines ctx shippingQuote now =
        ((new (front ++ [r]) taxes version).calculate lines ctx shippingQuote now).map
          (Quote.exclude · back) := by
  refine ⟨fun rules others distinct perm => ?_, ?_⟩
  · rw [new_eq_of_perm distinct perm]
  · intro rules front back r before after split exclusive ran turn applied
    have closed := exclusiveApplied_of_applied exclusive turn applied
    refine ⟨fun seen _ => ⟨_, promotions_of_exclusive closed, rfl, rfl, rfl, rfl⟩, ?_⟩
    have sorted : (front ++ [r]).Pairwise Rule.before := by
      have whole := sorted_new rules taxes version
      rw [split] at whole
      exact whole.sublist (((nil_sublist back).cons_cons r).append_left front)
    have one : promotions lines ctx now [r] before = some after := by
      simp [promotions, turn]
    have rest : promotions lines ctx now (r :: back) before = some (after.exclude back) := by
      rw [show r :: back = [r] ++ back from rfl, promotions_append, one, bind_some,
        promotions_of_exclusive closed]
    unfold calculate
    rw [split, rules_new_of_sorted sorted, promotions_append, promotions_append, ran,
      bind_some, bind_some, rest, one]
    rfl

def percentRule (id : String) (bp priority : Int) (exclusive : Bool) : Rule where
  id := id
  name := "percent"
  type := .percentOff
  percentOff := bp
  priority := priority
  exclusive := exclusive

/-- The rules of the exclusivity test, listed in another order. -/
theorem exclusive_suppresses_lower_priority :
    ((new [percentRule "tiny" 500 30 false, percentRule "big" 3000 10 true,
          percentRule "small" 1000 20 false] [] "test").calculate
        [⟨"sku_1", 1, 10000, ["electronics"], "Acme"⟩] {} 0 1800000000).map (·.discountTotal) =
      some (-3000) := by
  have determined := priority_and_exclusivity [] "test"
    [⟨"sku_1", 1, 10000, ["electronics"], "Acme"⟩] {} 0 1800000000
  rw [determined.1 _ [percentRule "big" 3000 10 true, percentRule "small" 1000 20 false,
    percentRule "tiny" 500 30 false] (by decide) (by decide +kernel),
    (determined.2 _ [] [percentRule "small" 1000 20 false, percentRule "tiny" 500 30 false]
      (percentRule "big" 3000 10 true) _ _ rfl rfl rfl rfl (by decide +kernel)).2]
  decide +kernel

end Souq.Pricing
