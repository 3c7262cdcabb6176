import Souq.Pricing.Turns

/-!
# What a quote says about coupons

A rule with a coupon code matches only a customer who entered the code, and the
loop does not report why it failed to match anyone else. There is one other exit:
after an exclusive promotion every later rule is reported with its code, whoever
asks. So two rule lists that differ in codes the customer did not enter give the
same quote exactly when none of the differing rules comes after an applied
exclusive one.
-/

namespace Souq.Pricing

open RuleSet List

section Sorting

variable {α : Type} {before : α → α → Prop} [DecidableRel before]

theorem orderedInsert_of_before {a : α} {items : List α} (first : ∀ b ∈ items, before a b) :
    items.orderedInsert before a = a :: items := by
  cases items with
  | nil => rfl
  | cons b items => exact orderedInsert_cons_of_le _ items (first b mem_cons_self)

variable [IsTrans α before]

theorem filter_orderedInsert (keep : α → Bool) (a : α) :
    ∀ {items : List α}, items.Pairwise before → (items.orderedInsert before a).filter keep =
        if keep a then (items.filter keep).orderedInsert before a else items.filter keep := by
  intro items
  induction items with
  | nil =>
    intro _
    by_cases kept : keep a <;> simp [kept]
  | cons b items ih =>
    intro sorted
    obtain ⟨below, rest⟩ := pairwise_cons.mp sorted
    by_cases first : before a b
    · rw [orderedInsert_cons_of_le _ items first, filter_cons]
      split
      · apply (orderedInsert_of_before _).symm
        intro c member
        rcases mem_cons.mp (mem_filter.mp member).1 with rfl | later
        · exact first
        · exact IsTrans.trans a b c first (below c later)
      · rfl
    · rw [orderedInsert_of_not_le _ items first, filter_cons, ih rest, filter_cons]
      by_cases kept : keep b
      · simp only [kept, ↓reduceIte]
        split
        · exact (orderedInsert_of_not_le _ _ first).symm
        · rfl
      · simp only [kept, Bool.false_eq_true, ↓reduceIte]

variable [Std.Total before]

theorem filter_insertionSort (keep : α → Bool) (items : List α) :
    (items.insertionSort before).filter keep = (items.filter keep).insertionSort before := by
  induction items with
  | nil => rfl
  | cons a items ih =>
    rw [insertionSort_cons, filter_cons,
      filter_orderedInsert keep a (pairwise_insertionSort before items), ih]
    split
    · rw [insertionSort_cons]
    · rfl

end Sorting

variable {lines : List CartLine} {ctx : Context} {now subtotal shippingQuote : Int}
  {q after start final : Running} {r : Rule} {rules : List Rule}

/-- A code the customer may see: none, or one that was entered. -/
def Context.Knows (ctx : Context) (code : String) : Prop := code = "" ∨ code ∈ ctx.coupons

instance (ctx : Context) (code : String) : Decidable (ctx.Knows code) :=
  inferInstanceAs (Decidable (code = "" ∨ code ∈ ctx.coupons))

/-- The rules that carry no code the customer did not enter. -/
def visible (ctx : Context) (rules : List Rule) : List Rule :=
  rules.filter fun r => ctx.Knows r.couponCode

theorem RuleSet.visible_new (ctx : Context) (rules : List Rule) (taxes : List TaxRule)
    (version : String) :
    Pricing.visible ctx (new rules taxes version).rules =
      (new (Pricing.visible ctx rules) taxes version).rules :=
  filter_insertionSort _ rules

theorem knows_of_matched (matched : matchesRule r lines ctx subtotal now = .ok ()) :
    ctx.Knows r.couponCode := by
  unfold matchesRule at matched
  split at matched
  · cases matched
  · split at matched
    · cases matched
    · split at matched
      · cases matched
      · split at matched
        · cases matched
        · next presented =>
            by_cases empty : r.couponCode = ""
            · exact .inl empty
            · exact .inr (by simpa [empty] using presented)

/-- **One turn.** A rule the customer does not know of is passed over, unless an
exclusive one was applied before it. -/
theorem promote_unknown (unknown : ¬ ctx.Knows r.couponCode) (opened : q.exclusiveApplied = false) :
    promote lines ctx now subtotal q r = some q := by
  have unasked : ¬ (r.couponCode ≠ "" ∧ ctx.coupons.contains r.couponCode) := by
    rintro ⟨-, entered⟩
    exact unknown (.inr (contains_iff_mem.mp entered))
  unfold promote
  rw [if_neg (by simp [opened])]
  cases matched : matchesRule r lines ctx subtotal now with
  | error reason => exact if_neg unasked
  | ok _ => exact (unknown (knows_of_matched matched)).elim

/-- The rule comes after an exclusive one that was applied. -/
def Suppressed (lines : List CartLine) (ctx : Context) (now : Int) (rules : List Rule)
    (start : Running) (r : Rule) : Prop :=
  ∃ done rest q, rules = done ++ r :: rest ∧ promotions lines ctx now done start = some q ∧
    q.exclusiveApplied = true

theorem Suppressed.later {first : Rule}
    (turn : promote lines ctx now (subtotalOf lines) start first = some after)
    (suppressed : Suppressed lines ctx now rules after r) :
    Suppressed lines ctx now (first :: rules) start r := by
  obtain ⟨done, rest, q, rfl, ran, closed⟩ := suppressed
  refine ⟨first :: done, rest, q, rfl, ?_, closed⟩
  rw [promotions_cons, turn]
  exact ran

/-- **The loop** does what the visible rules do. -/
theorem promotions_visible :
    ∀ {rules : List Rule} {start : Running},
      (∀ r, Suppressed lines ctx now rules start r → ctx.Knows r.couponCode) →
      promotions lines ctx now (visible ctx rules) start =
        promotions lines ctx now rules start := by
  intro rules
  induction rules with
  | nil => exact fun _ => rfl
  | cons r rules ih =>
    intro start known
    by_cases knows : ctx.Knows r.couponCode
    · have kept : visible ctx (r :: rules) = r :: visible ctx rules := by simp [visible, knows]
      rw [kept, promotions_cons, promotions_cons]
      cases turn : promote lines ctx now (subtotalOf lines) start r with
      | none => rfl
      | some after => exact ih fun other suppressed => known other (suppressed.later turn)
    · have dropped : visible ctx (r :: rules) = visible ctx rules := by simp [visible, knows]
      have opened : start.exclusiveApplied = false := by
        apply Bool.eq_false_iff.mpr
        intro closed
        exact knows (known r ⟨[], rules, start, rfl, rfl, closed⟩)
      have turn : promote lines ctx now (subtotalOf lines) start r = some start :=
        promote_unknown knows opened
      rw [dropped, promotions_cons, turn]
      exact ih fun other suppressed => known other (suppressed.later turn)

/-- Only codes the customer entered were reported. -/
structure Running.Discreet (q : Running) (ctx : Context) : Prop where
  applied : ∀ a ∈ q.applied, ctx.Knows a.couponCode
  rejected : ∀ x ∈ q.rejected, ctx.Knows x.couponCode

/-- The quote names no coupon that the caller has not presented. -/
structure Quote.Discreet (quote : Quote) (ctx : Context) : Prop where
  applied : ∀ a ∈ quote.applied, ctx.Knows a.couponCode
  rejected : ∀ x ∈ quote.rejected, ctx.Knows x.couponCode

theorem Running.Discreet.reject (discreet : q.Discreet ctx) (knows : ctx.Knows r.couponCode)
    (reason detail : String) : (q.reject r reason detail).Discreet ctx := by
  refine ⟨discreet.applied, ?_⟩
  intro x member
  rcases mem_append.mp member with before | new
  · exact discreet.rejected x before
  · obtain rfl := mem_singleton.mp new
    exact knows

theorem Running.Discreet.record (discreet : q.Discreet ctx) (knows : ctx.Knows r.couponCode)
    (taken : Taken) : (q.record r taken).Discreet ctx := by
  unfold Running.record
  split
  · exact ⟨discreet.applied, discreet.rejected⟩
  · refine ⟨?_, discreet.rejected⟩
    intro a member
    rcases mem_append.mp member with before | new
    · exact discreet.applied a before
    · obtain rfl := mem_singleton.mp new
      exact knows

/-- **One turn** of the loop tells the customer nothing new. -/
theorem Running.Discreet.turn
    (known : ∀ r, Suppressed lines ctx now rules start r → ctx.Knows r.couponCode)
    (turns : Turns lines ctx now rules start r q after) (discreet : q.Discreet ctx) :
    after.Discreet ctx := by
  obtain ⟨done, rest, split, ran, turn⟩ := turns
  cases turn_of_promote turn with
  | excluded closed => exact discreet.reject (known r ⟨done, rest, q, split, ran, closed⟩) _ _
  | refused _ _ asked => exact discreet.reject (.inr (contains_iff_mem.mp asked.2)) _ _
  | passed => exact discreet
  | unsupported _ matched => exact discreet.reject (knows_of_matched matched) _ _
  | recorded _ matched => exact discreet.record (knows_of_matched matched) _

theorem Suppressed.reported (suppressed : Suppressed lines ctx now rules start r) :
    ∃ final, promotions lines ctx now rules start = some final ∧ r.excluded ∈ final.rejected := by
  obtain ⟨done, rest, q, rfl, ran, closed⟩ := suppressed
  refine ⟨q.exclude (r :: rest), ?_, ?_⟩
  · rw [promotions_append, ran, Option.bind_some]
    exact promotions_of_exclusive closed
  · apply mem_append_right
    exact mem_map_of_mem mem_cons_self

/-- No rule that comes after an applied exclusive one carries an unentered code. -/
def RuleSet.Guarded (set : RuleSet) (lines : List CartLine) (ctx : Context)
    (shippingQuote now : Int) : Prop :=
  ∀ r, Suppressed lines ctx now set.rules (.start lines shippingQuote) r → ctx.Knows r.couponCode

variable {set : RuleSet}

theorem discreet_iff : (∀ quote, set.calculate lines ctx shippingQuote now = some quote →
      quote.Discreet ctx) ↔ set.Guarded lines ctx shippingQuote now := by
  constructor
  · intro discreet r suppressed
    obtain ⟨final, ran, reported⟩ := suppressed.reported
    have quoted : set.calculate lines ctx shippingQuote now = some (set.close lines ctx final) := by
      simp only [calculate, ran, Option.map_some]
    exact (discreet _ quoted).rejected _ reported
  · intro known quote returned
    obtain ⟨final, ran, rfl⟩ := Option.map_eq_some_iff.mp returned
    have discreet : final.Discreet ctx :=
      promotions_induction (P := fun q => q.Discreet ctx)
        (fun _ _ _ turns before => before.turn known turns) ran
        ⟨forall_mem_nil _, forall_mem_nil _⟩
    exact ⟨discreet.applied, discreet.rejected⟩

theorem calculate_visible {taxes : List TaxRule} {version : String}
    (known : (new rules taxes version).Guarded lines ctx shippingQuote now) :
    (new (visible ctx rules) taxes version).calculate lines ctx shippingQuote now =
      (new rules taxes version).calculate lines ctx shippingQuote now := by
  unfold calculate
  rw [← visible_new, promotions_visible known]
  rfl

/-- **When coupons that were not entered are invisible.** Two rule lists with the
same visible rules give equal quotes, which name no code that was not entered,
exactly when in neither list a rule with such a code comes after an applied
exclusive one. -/
theorem coupons_invisible_iff (rules others : List Rule) (taxes : List TaxRule) (version : String)
    (lines : List CartLine) (ctx : Context) (shippingQuote now : Int)
    (same : visible ctx rules = visible ctx others) :
    ((new rules taxes version).calculate lines ctx shippingQuote now =
        (new others taxes version).calculate lines ctx shippingQuote now ∧
      (∀ quote, (new rules taxes version).calculate lines ctx shippingQuote now =
        some quote → quote.Discreet ctx) ∧
      ∀ quote, (new others taxes version).calculate lines ctx shippingQuote now =
        some quote → quote.Discreet ctx) ↔
      (new rules taxes version).Guarded lines ctx shippingQuote now ∧
        (new others taxes version).Guarded lines ctx shippingQuote now := by
  rw [discreet_iff, discreet_iff]
  constructor
  · exact fun ⟨_, known⟩ => known
  · rintro ⟨known, known'⟩
    refine ⟨?_, known, known'⟩
    rw [← calculate_visible known, ← calculate_visible known', same]

def vip (priority : Int) : Rule :=
  { percentRule "vip" 5000 priority false with couponCode := "VIP50" }

def clearance : Rule := percentRule "clearance" 1000 10 true

def oneTee : List CartLine := [⟨"tee", 1, 10000, [], "Acme"⟩]

theorem guarded_clearance :
    (new [clearance] [] "v1").Guarded oneTee {} 0 0 := by
  rintro r ⟨done, rest, q, split, -, -⟩
  change [clearance] = done ++ r :: rest at split
  have listed : r ∈ [clearance] := by
    rw [split]
    exact mem_append_right done mem_cons_self
  obtain rfl := mem_singleton.mp listed
  exact .inl rfl

theorem guarded_vip_first :
    (new [clearance, vip 5] [] "v1").Guarded oneTee {} 0 0 := by
  rintro r ⟨done, rest, q, split, ran, closed⟩
  change [vip 5, clearance] = done ++ r :: rest at split
  cases done with
  | nil =>
    cases ran
    cases closed
  | cons first done =>
    cases done with
    | nil =>
      cases split
      exact .inl rfl
    | cons second done =>
      have length := congrArg List.length split
      simp at length

/-- Evaluated before the clearance, the code stays hidden. -/
theorem vip_first_is_invisible :
    (new [clearance] [] "v1").calculate oneTee {} 0 0 =
      (new [clearance, vip 5] [] "v1").calculate oneTee {} 0 0 :=
  ((coupons_invisible_iff [clearance] [clearance, vip 5] [] "v1" oneTee {} 0 0
    (by decide +kernel)).mpr ⟨guarded_clearance, guarded_vip_first⟩).1

/-- Evaluated after it, the code is reported to a customer who never entered it. -/
theorem clearance_reveals_vip : ¬ ∀ (rules others : List Rule) (taxes : List TaxRule)
    (version : String) (lines : List CartLine) (ctx : Context) (shippingQuote now : Int),
    visible ctx rules = visible ctx others →
    (new rules taxes version).calculate lines ctx shippingQuote now =
        (new others taxes version).calculate lines ctx shippingQuote now ∧
      (∀ quote, (new rules taxes version).calculate lines ctx shippingQuote now =
        some quote → quote.Discreet ctx) ∧
      ∀ quote, (new others taxes version).calculate lines ctx shippingQuote now =
        some quote → quote.Discreet ctx := by
  intro invisible
  have equal := (invisible [clearance] [clearance, vip 20] [] "v1" oneTee {} 0 0
    (by decide +kernel)).1
  revert equal
  decide +kernel

end Souq.Pricing
