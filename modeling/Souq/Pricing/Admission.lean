import Souq.Pricing.Bounds
import Souq.Pricing.Json

/-!
# Rule sets that raise a price

The loader checks a rule's percentage but not the quantities and the rate of a
buy-x-get-y rule. With a negative rate, or a negative quantity that leaves some
units to buy, such a rule takes a negative amount off a line; with quantities
that cancel it divides by zero. `fair_or_raised` says that nothing else goes wrong: the
loop keeps every line between nothing and its list price up to the first turn of
that kind.
-/

namespace Souq.Pricing

open List RuleSet

/-- No rule that is tried raises a line. -/
def RuleSet.Lowers (set : RuleSet) (lines : List CartLine) (ctx : Context)
    (shippingQuote now : Int) : Prop :=
  ∀ r q, Tries lines ctx now set.rules (.start lines shippingQuote) r q → ∀ l ∈ lines, r.Lowers l

def Raised (before after : List LinePrice) : Prop :=
  ∃ pair ∈ before.zip after, pair.1.lineTotal < pair.2.lineTotal

variable {r : Rule} {lines : List CartLine} {priced : List LinePrice} {shipping : Int}

theorem Raised.mono {before : List LinePrice} {after later : List LinePrice}
    (up : List.Forall₂ (fun one other => one.lineTotal ≤ other.lineTotal) after later) :
    Raised before after → Raised before later := by
  induction up generalizing before with
  | nil => exact id
  | @cons one other after later first rest ih =>
    rintro ⟨pair, member, higher⟩
    cases before with
    | nil => cases member
    | cons lp before =>
      rcases mem_cons.mp member with rfl | member
      · exact ⟨(lp, other), mem_cons_self, lt_of_lt_of_le higher first⟩
      · obtain ⟨pair, member, higher⟩ := ih ⟨pair, member, higher⟩
        exact ⟨pair, mem_cons_of_mem _ member, higher⟩

theorem giveBackFirst_up {excess : Int} (positive : 0 ≤ excess) (priced : List LinePrice) :
    List.Forall₂ (fun one other => one.lineTotal ≤ other.lineTotal) priced
      (giveBackFirst excess priced) := by
  induction priced with
  | nil => exact .nil
  | cons lp priced ih =>
    unfold giveBackFirst
    split
    · apply List.Forall₂.cons
      · simp only
        omega
      · exact forall₂_same.mpr fun _ _ => le_rfl
    · exact .cons le_rfl ih

theorem giveBack_up {excess : Int} (positive : 0 ≤ excess) (priced : List LinePrice) :
    List.Forall₂ (fun one other => one.lineTotal ≤ other.lineTotal) priced
      (giveBack excess priced) := by
  have up := forall₂_reverse_iff.mpr (giveBackFirst_up positive priced.reverse)
  rw [reverse_reverse] at up
  exact up

theorem Raised.record {q : Running} {taken : Taken} (raised : Raised priced taken.lines) :
    Raised priced (q.record r taken).lines := by
  unfold Running.record Taken.capped
  split
  · exact raised
  · split
    · next capped => exact raised.mono (giveBack_up (by omega) taken.lines)
    · exact raised

theorem raised_takeEach (each : Priced priced lines) {l : CartLine} (member : l ∈ lines)
    (harmed : ¬ r.Lowers l) :
    ∀ {taken : Taken}, takeEach r shipping (buyXGetY r) priced = some taken →
      Raised priced taken.lines := by
  simp only [Rule.Lowers, Classical.not_imp] at harmed
  obtain ⟨-, buys, enough, harm⟩ := harmed
  induction each with
  | nil => cases member
  | @cons lp other priced lines first rest ih =>
    intro taken took
    simp only [takeEach, Option.bind_eq_bind, Option.bind_eq_some_iff] at took
    obtain ⟨here, offered, after, later, result⟩ := took
    rcases mem_cons.mp member with rfl | member
    · unfold buyXGetY at offered
      rw [first.unit, first.quantity, if_neg (by omega)] at offered
      split at offered
      · cases offered
      · next divides =>
          have negative : r.giveaway l < 0 := by
            by_contra positive
            exact harm ⟨divides, by omega⟩
          have floor := first.fair.floor
          cases offered
          cases result
          refine ⟨_, mem_cons_self, ?_⟩
          change lp.lineTotal < nonNegative (lp.lineTotal - min (r.giveaway l) lp.lineTotal)
          rw [nonNegative_of_nonneg (by omega)]
          omega
    · obtain ⟨pair, member, higher⟩ := ih member later
      cases here with
      | none =>
        cases result
        exact ⟨pair, mem_cons_of_mem _ member, higher⟩
      | some part =>
        cases result
        exact ⟨pair, mem_cons_of_mem _ member, higher⟩

/-- A turn that divides by zero or raises a line. -/
def Raises (lines : List CartLine) (ctx : Context) (now : Int) (r : Rule) (q : Running) : Prop :=
  promote lines ctx now (subtotalOf lines) q r = none ∨
    ∃ after, promote lines ctx now (subtotalOf lines) q r = some after ∧ Raised q.lines after.lines

variable {ctx : Context} {shippingQuote now : Int} {rules : List Rule} {q start : Running}

theorem raises_of_harmed (fair : q.Fair lines shippingQuote)
    (tries : Tries lines ctx now rules start r q) {l : CartLine} (member : l ∈ lines)
    (harmed : ¬ r.Lowers l) : Raises lines ctx now r q := by
  obtain ⟨-, -, -, -, included, matched⟩ := tries
  have type : r.type = .buyXGetY := by
    by_contra other
    exact harmed fun same => (other same).elim
  unfold Raises promote
  simp only [included, matched, type, take, Bool.false_eq_true, ↓reduceIte, reduceCtorEq]
  cases took : takeEach r q.shippingTotal (buyXGetY r) q.lines with
  | none => exact .inl rfl
  | some taken => exact .inr ⟨_, rfl, (raised_takeEach fair.lines member harmed took).record⟩

/-- **The loop.** It keeps the lines fair to its end, or up to a turn that raises one. -/
theorem fair_or_raised : ∀ {rules : List Rule} {q : Running}, q.Fair lines shippingQuote →
    (∀ r ∈ rules, 0 ≤ r.percentOff) →
    (∀ r q', Tries lines ctx now rules q r q' → ∀ l ∈ lines, r.Lowers l) ∨
      ∃ r q', Tries lines ctx now rules q r q' ∧ Raises lines ctx now r q' := by
  intro rules
  induction rules with
  | nil =>
    refine fun _ _ => .inl ?_
    rintro r q' ⟨done, rest, split, -⟩
    cases done <;> cases split
  | cons first rules ih =>
    intro q fair rates
    by_cases lowers : Tries lines ctx now (first :: rules) q first q → ∀ l ∈ lines, first.Lowers l
    · obtain ⟨after, turn, kept⟩ := fair.promote (rates first mem_cons_self)
        fun included matched => lowers ⟨[], rules, rfl, rfl, included, matched⟩
      rcases ih kept fun r member => rates r (mem_cons_of_mem _ member) with
        later | ⟨r, q', tries, raises⟩
      · left
        rintro r q' ⟨done, rest, split, ran, included, matched⟩
        cases done with
        | nil =>
          cases split
          cases ran
          exact lowers ⟨[], rules, rfl, rfl, included, matched⟩
        | cons _ done =>
          cases split
          simp only [promotions, foldlM_cons, turn] at ran
          exact later r q' ⟨done, rest, rfl, ran, included, matched⟩
      · exact .inr ⟨r, q', tries.later turn, raises⟩
    · obtain ⟨tries, harmed⟩ := Classical.not_imp.mp lowers
      push Not at harmed
      obtain ⟨l, member, harmed⟩ := harmed
      exact .inr ⟨first, q, tries, raises_of_harmed fair tries member harmed⟩

/-- **When a loaded rule set cannot raise a price.** If every rule that is tried
on a cart lowers each of its lines, the quote is defined, its lines cost between
nothing and their list prices, and its discounts all take something off. If not,
some turn divides by zero or raises a line. -/
theorem loaded_lowers_or_raises {strtod : List Char → Rat} {json : List Char} {set : RuleSet}
    {lines : List CartLine} (loaded : fromFile strtod json = .ok set)
    (billable : Billable lines) (ctx : Context) (shippingQuote now : Int) :
    (set.Lowers lines ctx shippingQuote now →
      ∃ quote, set.calculate lines ctx shippingQuote now = some quote ∧
        (∀ lp ∈ quote.lines, 0 ≤ lp.lineTotal ∧ lp.lineTotal ≤ lp.lineSubtotal) ∧
        quote.discountTotal ≤ 0 ∧ ∀ a ∈ quote.applied, a.discount < 0) ∧
    (¬ set.Lowers lines ctx shippingQuote now →
      ∃ r q, Tries lines ctx now set.rules (.start lines shippingQuote) r q ∧
        Raises lines ctx now r q) := by
  have rates : ∀ r ∈ set.rules, 0 ≤ r.percentOff := fun r member =>
    ((fromFile_loaded loaded).percent r member).1
  have fair : (Running.start lines shippingQuote).Fair lines shippingQuote :=
    fair_start billable.whole
  constructor
  · intro lowers
    obtain ⟨q, ran, kept⟩ := fair_promotions fair rates lowers
    have quoted : (set.close lines ctx q).Fair shippingQuote := kept.close set
    refine ⟨set.close lines ctx q, ?_, ?_, quoted.discounts, quoted.applied⟩
    · simp only [calculate, ran, Option.map_some]
    · exact fun lp member => ⟨(quoted.lines lp member).floor, (quoted.lines lp member).ceiling⟩
  · intro harmful
    exact (fair_or_raised fair rates).resolve_left harmful

/-- A file with one rule, which gives a unit away at a negative rate. -/
def surchargeFile : List Char :=
  ("\x7b\"version\":\"v1\",\"rules\":[\x7b\"id\":\"r\",\"type\":\"BUY_X_GET_Y\"," ++
    "\"buyQuantity\":1,\"getQuantity\":1,\"getDiscountBasisPoints\":-10000\x7d]\x7d").toList

def surcharge : Rule where
  id := "r"
  name := "r"
  type := .buyXGetY
  buyQuantity := 1
  getQuantity := 1
  getDiscountBp := -10000

theorem fromFile_surcharge :
    fromFile (fun _ => 0) surchargeFile = .ok (.new [surcharge] [] "v1") := by
  decide +kernel

def twoUnits : List CartLine := [⟨"sku_1", 2, 1000, [], "Acme"⟩]

theorem billable_twoUnits : Billable twoUnits := by simp [Billable, twoUnits]

/-- The second unit is given away at a surcharge: 20.00 become 30.00. -/
theorem negative_rate_raises : ¬ ∀ (strtod : List Char → Rat) (json : List Char) (set : RuleSet)
    (lines : List CartLine) (ctx : Context) (shippingQuote now : Int) (quote : Quote),
    fromFile strtod json = .ok set → Billable lines →
    set.calculate lines ctx shippingQuote now = some quote →
    ∀ lp ∈ quote.lines, 0 ≤ lp.lineTotal ∧ lp.lineTotal ≤ lp.lineSubtotal := by
  intro bounded
  obtain ⟨quote, returned, lp, member, higher⟩ : ∃ quote,
      (new [surcharge] [] "v1").calculate twoUnits {} 0 0 = some quote ∧
        ∃ lp ∈ quote.lines, lp.lineSubtotal < lp.lineTotal :=
    ⟨_, rfl, _, mem_cons_self, by decide +kernel⟩
  have within := bounded _ _ _ _ _ _ _ quote fromFile_surcharge billable_twoUnits returned lp member
  omega

/-- On a single unit it offers nothing. -/
theorem surcharge_spares_one_unit :
    ∃ quote, (new [surcharge] [] "v1").calculate [⟨"sku_1", 1, 1000, [], "Acme"⟩] {} 0 0 =
        some quote ∧
      (∀ lp ∈ quote.lines, 0 ≤ lp.lineTotal ∧ lp.lineTotal ≤ lp.lineSubtotal) ∧
      quote.discountTotal ≤ 0 ∧ ∀ a ∈ quote.applied, a.discount < 0 := by
  apply (loaded_lowers_or_raises fromFile_surcharge _ _ 0 0).1
  · rintro r q ⟨done, rest, split, -⟩ l member
    obtain rfl := mem_singleton.mp member
    have tried : r ∈ [surcharge] := by
      change [surcharge] = done ++ r :: rest at split
      rw [split]
      exact mem_append_right done mem_cons_self
    obtain rfl := mem_singleton.mp tried
    decide
  · simp [Billable]

end Souq.Pricing
