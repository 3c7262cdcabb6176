import Souq.Pricing.Json
import Souq.Pricing.Turns

/-!
# What a cap takes back

A capped rule books its cap and hands the rest of its discount back, all of it to
the last line that carries one. That line returns no more than its own discount,
so where the excess is larger the lines keep having lost what the rule did not
book. `Running.worth`, which a turn that books what it takes leaves alone, rises
with a rule that raises lines and falls with an excess that finds no line.
-/

namespace Souq.Pricing

open LinePrice List Running

variable {lines : List CartLine} {ctx : Context} {now subtotal shipping shippingQuote : Int}
  {q after : Running} {r : Rule} {taken : Taken} {set : RuleSet} {rules : List Rule}

def Running.due (q : Running) : Int := lineSum q.lines + q.shippingTotal

def discounts (applied : List AppliedPromotion) : Int := (applied.map (·.discount)).sum

/-- What the cart would come to without the discounts that are booked. -/
def Running.worth (q : Running) : Int := q.due - discounts q.applied

/-- A turn takes no more than the cap of its rule, and exactly what it books. -/
structure Running.CapKept (q after : Running) (r : Rule) : Prop where
  within : q.due - after.due ≤ r.maxDiscount
  booked : q.due - after.due = discounts q.applied - discounts after.applied

/-- Every capped rule keeps its cap at its turn. -/
def RuleSet.CapsKept (set : RuleSet) (lines : List CartLine) (ctx : Context)
    (shippingQuote now : Int) : Prop :=
  ∀ r q after, Turns lines ctx now set.rules (.start lines shippingQuote) r q after →
    0 < r.maxDiscount → q.CapKept after r

/-- What the lines and the shipping have lost is booked. -/
structure Quote.Balanced (quote : Quote) (shippingQuote : Int) : Prop where
  lost : (quote.lines.map fun lp => lp.lineSubtotal - lp.lineTotal).sum +
    (shippingQuote - quote.shippingTotal) = -quote.discountTotal
  applied : -quote.discountTotal = -discounts quote.applied

def lastDiscount (lines : List LinePrice) : Int :=
  match lines.reverse.find? fun lp => lp.lineDiscount < 0 with
  | some lp => -lp.lineDiscount
  | none => 0

/-- A rule that raises nothing on balance, and whose discount beyond the cap is not
more than the last discounted line has to return. -/
structure Taken.Fits (taken : Taken) (r : Rule) : Prop where
  lowers : 0 ≤ taken.discount
  excess : 0 < r.maxDiscount → r.maxDiscount < taken.discount →
    taken.discount - r.maxDiscount ≤ lastDiscount taken.lines

theorem discounts_append (applied : List AppliedPromotion) (a : AppliedPromotion) :
    discounts (applied ++ [a]) = discounts applied + a.discount := by
  simp [discounts]

theorem givenBack_eq_min {excess : Int} (positive : 0 ≤ excess) (lines : List LinePrice) :
    givenBack excess lines = min excess (lastDiscount lines) := by
  unfold givenBack lastDiscount
  cases lines.reverse.find? fun lp => lp.lineDiscount < 0 with
  | some lp => rfl
  | none => exact (min_eq_right positive).symm

theorem withheld_nonneg (taken : Taken) (r : Rule) : 0 ≤ taken.withheld r := by
  unfold Taken.withheld
  split
  · rw [givenBack_eq_min (by omega)]
    omega
  · exact le_rfl

theorem withheld_eq_zero_iff : taken.withheld r = 0 ↔
    (0 < r.maxDiscount → r.maxDiscount < taken.discount →
      taken.discount - r.maxDiscount ≤ lastDiscount taken.lines) := by
  unfold Taken.withheld
  split
  · next capped =>
      rw [givenBack_eq_min (by omega)]
      constructor
      · intro all _ _
        omega
      · intro fits
        have := fits capped.1 capped.2
        omega
  · next uncapped =>
      apply iff_of_true rfl
      intro cap above
      exact (uncapped ⟨cap, above⟩).elim

theorem due_take {before : List LinePrice} (took : take r subtotal shipping before = some taken) :
    lineSum before + shipping - (lineSum taken.lines + taken.shippingTotal) = taken.discount := by
  rw [lineSum_take took]
  unfold Taken.waived
  unfold take at took
  split at took
  · next type =>
      rw [shipping_takeEach took, type]
      simp
  · next type =>
      cases took
      simp [type, amountOff]
  · next type =>
      cases took
      simp [type, amountOff]
  · next type =>
      rw [shipping_takeEach took, type]
      simp
  · next type =>
      rw [shipping_takeEach took, type]
      simp
  · next type =>
      cases took
      simp [type, freeShipping]
  · next type =>
      cases took
      simp [type]

theorem due_record (took : take r subtotal q.shippingTotal q.lines = some taken) :
    q.due - (q.record r taken).due =
      if taken.discount ≤ 0 then taken.discount
      else (taken.capped r).discount + taken.withheld r := by
  have lost := due_take took
  have capped := lineSum_capped taken r
  unfold record due
  split
  · exact lost
  · simp only [capped_shippingTotal]
    omega

theorem discounts_record : discounts q.applied - discounts (q.record r taken).applied =
    if taken.discount ≤ 0 then 0 else (taken.capped r).discount := by
  unfold record
  split
  · exact Int.sub_self _
  · simp only [discounts_append]
    omega

/-- **One turn.** A rule changes the worth by what it raises or fails to hand back. -/
theorem worth_record (took : take r subtotal q.shippingTotal q.lines = some taken) :
    q.worth - (q.record r taken).worth =
      if taken.discount ≤ 0 then taken.discount else taken.withheld r := by
  have due := due_record took
  have booked := @discounts_record q r taken
  unfold worth
  split at due <;> omega

theorem fits_iff_worth (took : take r subtotal q.shippingTotal q.lines = some taken) :
    taken.Fits r ↔ (q.record r taken).worth = q.worth := by
  have change := worth_record took
  constructor
  · intro fits
    obtain ⟨lowers, excess⟩ := fits
    have all := withheld_eq_zero_iff.mpr excess
    split at change
    · omega
    · omega
  · intro same
    split at change
    · constructor
      · omega
      · intro _ above
        omega
    · next positive =>
        refine ⟨by omega, ?_⟩
        apply withheld_eq_zero_iff.mp
        omega

theorem capped_le (taken : Taken) (cap : 0 < r.maxDiscount) :
    (taken.capped r).discount ≤ r.maxDiscount := by
  unfold Taken.capped
  split
  · exact le_rfl
  · omega

theorem Taken.Fits.capKept (fits : taken.Fits r) (cap : 0 < r.maxDiscount)
    (took : take r subtotal q.shippingTotal q.lines = some taken) :
    q.CapKept (q.record r taken) r := by
  have due := due_record took
  have booked := @discounts_record q r taken
  have all := withheld_eq_zero_iff.mpr fits.excess
  have within := capped_le taken cap
  have lowers := fits.lowers
  constructor
  · split at due <;> omega
  · split at due <;> omega

/-- Every rule that is tried takes something off, and its excess finds a line. -/
def RuleSet.CapsFit (set : RuleSet) (lines : List CartLine) (ctx : Context)
    (shippingQuote now : Int) : Prop :=
  ∀ r q, Tries lines ctx now set.rules (.start lines shippingQuote) r q →
    ∃ taken, take r (subtotalOf lines) q.shippingTotal q.lines = some taken ∧ taken.Fits r

variable {start final : Running}

theorem Turns.worth_of_fits
    (fits : ∀ r q, Tries lines ctx now rules start r q →
      ∃ taken, take r (subtotalOf lines) q.shippingTotal q.lines = some taken ∧ taken.Fits r)
    (turns : Turns lines ctx now rules start r q after) : after.worth = q.worth := by
  rcases turns.recorded with ⟨_, rfl⟩ | ⟨taken, tries, -, took, rfl⟩
  · rfl
  · obtain ⟨other, took', fits⟩ := fits r q tries
    cases took.symm.trans took'
    exact (fits_iff_worth took).mp fits

theorem Turns.capKept_of_fits
    (fits : ∀ r q, Tries lines ctx now rules start r q →
      ∃ taken, take r (subtotalOf lines) q.shippingTotal q.lines = some taken ∧ taken.Fits r)
    (cap : 0 < r.maxDiscount) (turns : Turns lines ctx now rules start r q after) :
    q.CapKept after r := by
  rcases turns.recorded with ⟨_, rfl⟩ | ⟨taken, tries, -, took, rfl⟩
  · constructor
    · exact (Int.sub_self _).le.trans cap.le
    · exact (Int.sub_self _).trans (Int.sub_self _).symm
  · obtain ⟨other, took', fits⟩ := fits r q tries
    cases took.symm.trans took'
    exact fits.capKept cap took

theorem Turns.worth_le
    (kept : ∀ r q after, Turns lines ctx now rules start r q after → 0 < r.maxDiscount →
      q.CapKept after r)
    (turns : Turns lines ctx now rules start r q after) : q.worth ≤ after.worth := by
  by_cases cap : 0 < r.maxDiscount
  · have booked := (kept r q after turns cap).booked
    unfold worth
    omega
  · rcases turns.recorded with ⟨_, rfl⟩ | ⟨taken, -, -, took, rfl⟩
    · exact le_rfl
    · have change := worth_record took
      have uncapped : taken.withheld r = 0 :=
        withheld_eq_zero_iff.mpr fun capped => (cap capped).elim
      split at change <;> omega

theorem Turns.worth_eq
    (kept : ∀ r q after, Turns lines ctx now rules start r q after → 0 < r.maxDiscount →
      q.CapKept after r)
    (ran : promotions lines ctx now rules start = some final) (level : final.worth ≤ start.worth)
    (turns : Turns lines ctx now rules start r q after) : after.worth = q.worth := by
  have step := turns.worth_le kept
  obtain ⟨done, rest, rfl, before, turn⟩ := turns
  rw [promotions_append, before, Option.bind_some, promotions_cons, turn, Option.bind_some] at ran
  have front : start.worth ≤ q.worth :=
    promotions_induction (P := fun middle => start.worth ≤ middle.worth)
      (fun _ _ _ turns below => below.trans (turns.left.worth_le kept)) before le_rfl
  have reached : promotions lines ctx now (done ++ [r]) start = some after := by
    rw [promotions_append, before, Option.bind_some, promotions_cons, turn]
    rfl
  have back : after.worth ≤ final.worth := by
    apply promotions_induction (P := fun middle => after.worth ≤ middle.worth) _ ran le_rfl
    intro _ _ _ turns below
    have whole := turns.right reached
    rw [append_assoc] at whole
    exact below.trans (whole.worth_le kept)
  omega

theorem discountTotal_promotions (ran : promotions lines ctx now rules start = some final)
    (tallied : start.discountTotal = discounts start.applied) :
    final.discountTotal = discounts final.applied := by
  apply promotions_induction (P := fun q => q.discountTotal = discounts q.applied) _ ran tallied
  intro r q after turns booked
  rcases turns.recorded with ⟨_, rfl⟩ | ⟨taken, -, -, -, rfl⟩
  · exact booked
  · unfold record
    split
    · exact booked
    · simp only [discounts_append, booked]
      omega

theorem worth_start (lines : List CartLine) (shippingQuote : Int) :
    (Running.start lines shippingQuote).worth = subtotalOf lines + shippingQuote := by
  have same : lineSum (lines.map listPrice) = subtotalOf lines := by
    simp only [lineSum, subtotalOf, map_map]
    rfl
  simp [Running.worth, Running.due, Running.start, same, discounts]

theorem lineSum_settle_le (lines : List LinePrice) :
    lineSum lines ≤ lineSum (lines.map settle) := by
  induction lines with
  | nil => exact le_rfl
  | cons lp lines ih =>
    rw [map_cons, lineSum_cons, lineSum_cons]
    apply add_le_add _ ih
    simp only [settle, nonNegative]
    split <;> omega

theorem floored_of_settle {lines : List LinePrice}
    (same : lineSum (lines.map settle) ≤ lineSum lines) : Floored lines := by
  induction lines with
  | nil => exact nofun
  | cons lp lines ih =>
    have others := lineSum_settle_le lines
    rw [map_cons, lineSum_cons, lineSum_cons] at same
    have first : lp.settle.lineTotal = nonNegative lp.lineTotal := rfl
    unfold nonNegative at first
    apply Floored.cons
    · split at first <;> omega
    · apply ih
      split at first <;> omega

theorem lost_settled {before after : List LinePrice} (become : Become before after) :
    ((after.map settle).map fun lp => lp.lineSubtotal - lp.lineTotal).sum =
      (before.map (·.lineSubtotal)).sum - lineSum (after.map settle) := by
  induction become with
  | nil => rfl
  | cons becomes _ ih =>
    simp only [map_cons, sum_cons, lineSum_cons, ih]
    have same := becomes.subtotal
    simp only [settle]
    omega

theorem balanced_iff (ran : promotions lines ctx now set.rules (.start lines shippingQuote) =
      some final) :
    (set.close lines ctx final).Balanced shippingQuote ↔
      lineSum (final.lines.map settle) - lineSum final.lines + final.worth =
        (Running.start lines shippingQuote).worth := by
  have tallied := discountTotal_promotions ran rfl
  have lost := lost_settled (become_promotions ran)
  change _ = subtotalOf lines - _ at lost
  rw [worth_start]
  unfold worth due
  constructor
  · intro balanced
    obtain ⟨balance, -⟩ := balanced
    simp only [RuleSet.close] at balance
    omega
  · intro level
    constructor
    · simp only [RuleSet.close]
      omega
    · simp only [RuleSet.close, tallied]

/-- **When caps hold and the books agree.** Every capped rule takes no more than
its cap and books what it takes, and the lines and the shipping of the quote lost
the discounts it shows, exactly when each rule that is tried raises nothing on
balance and leaves an excess that the last discounted line can return, and no line
is below nothing when the loop ends. -/
theorem caps_hold_iff (set : RuleSet) (lines : List CartLine) (ctx : Context)
    (shippingQuote now : Int) :
    (set.CapsKept lines ctx shippingQuote now ∧
      ∃ quote, set.calculate lines ctx shippingQuote now = some quote ∧
        quote.Balanced shippingQuote) ↔
      set.CapsFit lines ctx shippingQuote now ∧
        ∀ q, promotions lines ctx now set.rules (.start lines shippingQuote) = some q →
          Floored q.lines := by
  constructor
  · intro kept
    obtain ⟨kept, quote, returned, balanced⟩ := kept
    obtain ⟨final, ran, rfl⟩ := Option.map_eq_some_iff.mp returned
    have total := (balanced_iff ran).mp balanced
    have settled := lineSum_settle_le final.lines
    have rises : (start lines shippingQuote).worth ≤ final.worth :=
      promotions_induction (P := fun middle => (start lines shippingQuote).worth ≤ middle.worth)
        (fun _ _ _ turns below => below.trans (turns.worth_le kept)) ran le_rfl
    constructor
    · intro r q tries
      by_cases bundle : r.type = .bundle
      · refine ⟨⟨q.lines, q.shippingTotal, 0, []⟩, by simp only [take, bundle], le_rfl, ?_⟩
        intro cap above
        exact (Int.lt_asymm cap above).elim
      · obtain ⟨taken, took, turns⟩ := tries.turn bundle ran
        refine ⟨taken, took, (fits_iff_worth took).mpr ?_⟩
        exact turns.worth_eq kept ran (by omega)
    · intro q ended
      cases ran.symm.trans ended
      exact floored_of_settle (by omega)
  · intro fits
    obtain ⟨fits, floored⟩ := fits
    obtain ⟨final, ran⟩ : ∃ final,
        promotions lines ctx now set.rules (.start lines shippingQuote) = some final :=
      promotions_total fun r q tries =>
        let ⟨taken, took, _⟩ := fits r q tries
        ⟨taken, took⟩
    have level : final.worth = (start lines shippingQuote).worth :=
      promotions_induction (P := fun middle => middle.worth = (start lines shippingQuote).worth)
        (fun _ _ _ turns before => (turns.worth_of_fits fits).trans before) ran rfl
    refine ⟨fun r q after turns cap => turns.capKept_of_fits fits cap,
      set.close lines ctx final, ?_, (balanced_iff ran).mpr ?_⟩
    · simp only [RuleSet.calculate, ran, Option.map_some]
    · rw [settle_of_floored (floored final ran), level]
      omega

def cappedFile : List Char :=
  "\x7b\"version\":\"v1\",\"rules\":[\x7b\"id\":\"ten\",\"type\":\"PERCENT_OFF\",".toList ++
    "\"percentOffBasisPoints\":1000,\"maxDiscount\":100\x7d]\x7d".toList

def cappedTen : Rule where
  id := "ten"
  name := "ten"
  type := .percentOff
  percentOff := 1000
  maxDiscount := 100

theorem fromFile_capped :
    RuleSet.fromFile (fun _ => 0) cappedFile = .ok (.new [cappedTen] [] "v1") := by
  decide +kernel

def twoHundreds : List CartLine :=
  [⟨"sku_1", 1, 10000, [], "Acme"⟩, ⟨"sku_2", 1, 10000, [], "Acme"⟩]

/-- Ten percent of two lines, capped at 1.00, takes 10.00 off the first line and
gives only the second one its discount back. -/
theorem cap_overshot : ¬ ∀ (strtod : List Char → Rat) (json : List Char) (set : RuleSet)
    (lines : List CartLine) (ctx : Context) (shippingQuote now : Int),
    RuleSet.fromFile strtod json = .ok set →
    set.CapsKept lines ctx shippingQuote now ∧
      ∃ quote, set.calculate lines ctx shippingQuote now = some quote ∧
        quote.Balanced shippingQuote := by
  intro capped
  obtain ⟨after, turn, lost⟩ : ∃ after, promote twoHundreds {} 0 (subtotalOf twoHundreds)
        (.start twoHundreds 0) cappedTen = some after ∧
      (start twoHundreds 0).due - after.due = 1000 := ⟨_, rfl, by decide +kernel⟩
  have kept := (capped _ _ _ twoHundreds {} 0 0 fromFile_capped).1 cappedTen _ after
    ⟨[], [], rfl, rfl, turn⟩ (by decide)
  have within : (start twoHundreds 0).due - after.due ≤ 100 := kept.within
  omega

end Souq.Pricing
