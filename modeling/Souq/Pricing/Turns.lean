import Souq.Pricing.Bounds
import Souq.Pricing.Priority

/-!
# The turns of the promotion loop

What a turn can do to the state of the loop, and what it leaves of a line. A
rule moves a line's total and its discount together, so the two stay apart by
the list price whatever the cart, and it never takes an id off a line again.
-/

namespace Souq.Pricing

open List Option

variable {lines : List CartLine} {ctx : Context} {now subtotal shipping : Int}
  {q after : Running} {r : Rule} {taken : Taken} {lp lp' : LinePrice}

/-- What the turn of a rule can do. -/
inductive Running.Turn (lines : List CartLine) (ctx : Context) (now subtotal : Int) (q : Running)
    (r : Rule) : Running → Prop where
  | excluded (closed : q.exclusiveApplied = true) :
      Turn lines ctx now subtotal q r (q.reject r "EXCLUDED_BY_EXCLUSIVE_PROMOTION")
  | refused {reason : String} (opened : q.exclusiveApplied = false)
      (failed : matchesRule r lines ctx subtotal now = .error reason)
      (asked : r.couponCode ≠ "" ∧ ctx.coupons.contains r.couponCode) :
      Turn lines ctx now subtotal q r (q.reject r reason)
  | passed {reason : String} (opened : q.exclusiveApplied = false)
      (failed : matchesRule r lines ctx subtotal now = .error reason)
      (unasked : ¬ (r.couponCode ≠ "" ∧ ctx.coupons.contains r.couponCode)) :
      Turn lines ctx now subtotal q r q
  | unsupported (opened : q.exclusiveApplied = false)
      (matched : matchesRule r lines ctx subtotal now = .ok ()) (bundle : r.type = .bundle) :
      Turn lines ctx now subtotal q r
        (q.reject r "PROMOTION_TYPE_NOT_SUPPORTED" "bundle pricing is not implemented")
  | recorded {taken : Taken} (opened : q.exclusiveApplied = false)
      (matched : matchesRule r lines ctx subtotal now = .ok ()) (supported : r.type ≠ .bundle)
      (took : take r subtotal q.shippingTotal q.lines = some taken) :
      Turn lines ctx now subtotal q r (q.record r taken)

theorem turn_of_promote (turn : promote lines ctx now subtotal q r = some after) :
    q.Turn lines ctx now subtotal r after := by
  unfold promote at turn
  split at turn
  · next closed =>
      cases turn
      exact .excluded closed
  · next opened =>
      have opened : q.exclusiveApplied = false := by simpa using opened
      cases matched : matchesRule r lines ctx subtotal now with
      | error reason =>
        simp only [matched] at turn
        split at turn
        · next asked =>
            cases turn
            exact .refused opened matched asked
        · next unasked =>
            cases turn
            exact .passed opened matched unasked
      | ok _ =>
        simp only [matched] at turn
        split at turn
        · next bundle =>
            cases turn
            exact .unsupported opened matched bundle
        · next supported =>
            cases took : take r subtotal q.shippingTotal q.lines with
            | none =>
              simp only [took] at turn
              cases turn
            | some taken =>
              simp only [took] at turn
              cases turn
              exact .recorded opened matched supported took

theorem promote_of_tried (opened : q.exclusiveApplied = false)
    (matched : matchesRule r lines ctx subtotal now = .ok ()) (supported : r.type ≠ .bundle)
    (took : take r subtotal q.shippingTotal q.lines = some taken) :
    promote lines ctx now subtotal q r = some (q.record r taken) := by
  simp only [promote, opened, matched, supported, took, Bool.false_eq_true, ↓reduceIte]

/-- The loop over `rules` comes from `start` to `q`, and the turn of `r` takes it to `after`. -/
def Turns (lines : List CartLine) (ctx : Context) (now : Int) (rules : List Rule)
    (start : Running) (r : Rule) (q after : Running) : Prop :=
  ∃ done rest, rules = done ++ r :: rest ∧ promotions lines ctx now done start = some q ∧
    promote lines ctx now (subtotalOf lines) q r = some after

variable {rules front back : List Rule} {start final : Running}

theorem promotions_cons (lines : List CartLine) (ctx : Context) (now : Int) (r : Rule)
    (rules : List Rule) (q : Running) :
    promotions lines ctx now (r :: rules) q =
      (promote lines ctx now (subtotalOf lines) q r).bind (promotions lines ctx now rules) := by
  simp only [promotions, foldlM_cons]
  rfl

theorem Turns.left (turn : Turns lines ctx now front start r q after) :
    Turns lines ctx now (front ++ back) start r q after := by
  obtain ⟨done, rest, rfl, ran, turned⟩ := turn
  exact ⟨done, rest ++ back, append_assoc _ _ _, ran, turned⟩

theorem Turns.right {middle : Running} (ran : promotions lines ctx now front start = some middle)
    (turn : Turns lines ctx now back middle r q after) :
    Turns lines ctx now (front ++ back) start r q after := by
  obtain ⟨done, rest, rfl, later, turned⟩ := turn
  refine ⟨front ++ done, rest, (append_assoc _ _ _).symm, ?_, turned⟩
  rw [promotions_append, ran]
  exact later

theorem Tries.listed (tries : Tries lines ctx now rules start r q) : r ∈ rules := by
  obtain ⟨done, rest, rfl, -⟩ := tries
  exact mem_append_right done mem_cons_self

theorem Tries.matched (tries : Tries lines ctx now rules start r q) :
    matchesRule r lines ctx (subtotalOf lines) now = .ok () := by
  obtain ⟨_, _, -, -, -, matched⟩ := tries
  exact matched

theorem Tries.left (tries : Tries lines ctx now front start r q) :
    Tries lines ctx now (front ++ back) start r q := by
  obtain ⟨done, rest, rfl, facts⟩ := tries
  exact ⟨done, rest ++ back, append_assoc _ _ _, facts⟩

/-- **The loop keeps** what its turns keep. -/
theorem promotions_induction {P : Running → Prop}
    (step : ∀ r q after, Turns lines ctx now rules start r q after → P q → P after)
    (ran : promotions lines ctx now rules start = some final) (holds : P start) : P final := by
  induction rules generalizing start with
  | nil =>
    cases ran
    exact holds
  | cons r rules ih =>
    rw [promotions_cons] at ran
    obtain ⟨middle, turn, rest⟩ := bind_eq_some_iff.mp ran
    have one : promotions lines ctx now [r] start = some middle := by
      rw [promotions_cons, turn]
      rfl
    exact ih (fun other q after turns => step other q after (turns.right one)) rest
      (step r start middle ⟨[], rules, rfl, rfl, turn⟩ holds)

theorem promotions_total
    (takes : ∀ r q, Tries lines ctx now rules start r q →
      ∃ taken, take r (subtotalOf lines) q.shippingTotal q.lines = some taken) :
    ∃ final, promotions lines ctx now rules start = some final := by
  induction rules generalizing start with
  | nil => exact ⟨start, rfl⟩
  | cons r rules ih =>
    obtain ⟨after, turn⟩ : ∃ after, promote lines ctx now (subtotalOf lines) start r =
        some after := by
      unfold promote
      split
      · exact ⟨_, rfl⟩
      · next opened =>
          cases matched : matchesRule r lines ctx (subtotalOf lines) now with
          | error reason =>
            simp only
            split
            · exact ⟨_, rfl⟩
            · exact ⟨_, rfl⟩
          | ok _ =>
            simp only
            split
            · exact ⟨_, rfl⟩
            · obtain ⟨taken, took⟩ := takes r start
                ⟨[], rules, rfl, rfl, by simpa using opened, matched⟩
              rw [took]
              exact ⟨_, rfl⟩
    obtain ⟨final, ran⟩ := ih fun other q tries => takes other q (tries.later turn)
    refine ⟨final, ?_⟩
    rw [promotions_cons, turn]
    exact ran

theorem Turns.recorded (turns : Turns lines ctx now rules start r q after) :
    (∃ rejected, after = { q with rejected := rejected }) ∨
      ∃ taken, Tries lines ctx now rules start r q ∧ r.type ≠ .bundle ∧
        take r (subtotalOf lines) q.shippingTotal q.lines = some taken ∧
        after = q.record r taken := by
  obtain ⟨done, rest, split, ran, turn⟩ := turns
  cases turn_of_promote turn with
  | excluded | refused | passed | unsupported => exact .inl ⟨_, rfl⟩
  | recorded opened matched supported took =>
    exact .inr ⟨_, ⟨done, rest, split, ran, opened, matched⟩, supported, took, rfl⟩

theorem Tries.turn (tries : Tries lines ctx now rules start r q) (supported : r.type ≠ .bundle)
    (ran : promotions lines ctx now rules start = some final) :
    ∃ taken, take r (subtotalOf lines) q.shippingTotal q.lines = some taken ∧
      Turns lines ctx now rules start r q (q.record r taken) := by
  obtain ⟨done, rest, rfl, before, opened, matched⟩ := tries
  rw [promotions_append, before, bind_some, promotions_cons] at ran
  obtain ⟨after, turn, -⟩ := bind_eq_some_iff.mp ran
  cases turn_of_promote turn with
  | excluded closed => cases opened.symm.trans closed
  | refused _ failed => cases matched.symm.trans failed
  | passed _ failed => cases matched.symm.trans failed
  | unsupported _ _ bundle => exact (supported bundle).elim
  | recorded _ _ _ took => exact ⟨_, took, done, rest, rfl, before, turn⟩

/-- What no turn changes in a line. -/
structure LinePrice.Becomes (lp lp' : LinePrice) : Prop where
  sku : lp'.sku = lp.sku
  quantity : lp'.quantity = lp.quantity
  unit : lp'.unitListPrice = lp.unitListPrice
  subtotal : lp'.lineSubtotal = lp.lineSubtotal
  balance : lp'.lineTotal - lp'.lineDiscount = lp.lineTotal - lp.lineDiscount
  ids : lp.appliedPromotionIds <+: lp'.appliedPromotionIds

theorem LinePrice.Becomes.refl (lp : LinePrice) : lp.Becomes lp :=
  ⟨rfl, rfl, rfl, rfl, rfl, prefix_rfl⟩

theorem LinePrice.Becomes.trans {a b c : LinePrice} (first : a.Becomes b) (second : b.Becomes c) :
    a.Becomes c :=
  ⟨second.sku.trans first.sku, second.quantity.trans first.quantity,
    second.unit.trans first.unit, second.subtotal.trans first.subtotal,
    second.balance.trans first.balance, first.ids.trans second.ids⟩

theorem becomes_take {part : Int} (fits : part ≤ lp.lineTotal) : lp.Becomes (lp.take part) := by
  refine ⟨rfl, rfl, rfl, rfl, ?_, prefix_rfl⟩
  rw [lineTotal_take fits]
  simp only [LinePrice.take]
  omega

theorem LinePrice.Becomes.credit (becomes : lp.Becomes lp') (promotion : String) :
    lp.Becomes (lp'.credit promotion) :=
  ⟨becomes.sku, becomes.quantity, becomes.unit, becomes.subtotal, becomes.balance,
    becomes.ids.trans (prefix_append _ _)⟩

abbrev Become (before after : List LinePrice) : Prop :=
  List.Forall₂ LinePrice.Becomes before after

theorem Become.refl (before : List LinePrice) : Become before before :=
  forall₂_same.mpr fun lp _ => .refl lp

theorem Become.trans {first second third : List LinePrice} (before : Become first second) :
    Become second third → Become first third := by
  intro after
  induction before generalizing third with
  | nil => exact after
  | cons becomes _ ih =>
    cases after with
    | cons further rest => exact .cons (becomes.trans further) (ih rest)

variable {before : List LinePrice}

theorem become_takeEach {off : LinePrice → Option (Option Int)}
    (fits : ∀ lp part, off lp = some (some part) → part ≤ lp.lineTotal) :
    ∀ {before : List LinePrice} {taken : Taken}, takeEach r shipping off before = some taken →
      Become before taken.lines := by
  intro before
  induction before with
  | nil =>
    intro taken took
    cases took
    exact .nil
  | cons lp before ih =>
    intro taken took
    simp only [takeEach, bind_eq_bind, bind_eq_some_iff] at took
    obtain ⟨here, offered, others, rest, result⟩ := took
    have tail := ih rest
    cases here with
    | none =>
      cases result
      exact .cons (.refl lp) tail
    | some part =>
      cases result
      exact .cons ((becomes_take (fits lp part offered)).credit r.id) tail

theorem become_spread (r : Rule) (subtotal : Int) : ∀ (before : List LinePrice) (remaining : Int),
    Become before (spread r subtotal before remaining).lines := by
  intro before
  induction before with
  | nil => exact fun _ => .nil
  | cons lp before ih =>
    intro remaining
    have taken := becomes_take (share_le r subtotal remaining lp before.isEmpty)
    unfold spread
    split
    · exact .refl _
    · simp only
      split
      · exact .cons (taken.credit r.id) (ih _)
      · exact .cons taken (ih _)

theorem become_take (took : take r subtotal shipping before = some taken) :
    Become before taken.lines := by
  unfold take at took
  split at took
  · exact become_takeEach percentOff_le took
  · cases took
    exact become_spread _ _ _ _
  · cases took
    exact become_spread _ _ _ _
  · exact become_takeEach tieredQuantity_le took
  · exact become_takeEach buyXGetY_le took
  · cases took
    exact .refl _
  · cases took
    exact .refl _

theorem become_giveBackFirst (excess : Int) (before : List LinePrice) :
    Become before (giveBackFirst excess before) := by
  induction before with
  | nil => exact .nil
  | cons lp before ih =>
    unfold giveBackFirst
    split
    · apply List.Forall₂.cons _ (Become.refl before)
      refine ⟨rfl, rfl, rfl, rfl, ?_, prefix_rfl⟩
      simp only
      omega
    · exact .cons (.refl lp) ih

theorem become_capped (taken : Taken) (r : Rule) : Become taken.lines (taken.capped r).lines := by
  unfold Taken.capped
  split
  · have reversed := become_giveBackFirst (taken.discount - r.maxDiscount) taken.lines.reverse
    have given := forall₂_reverse_iff.mpr reversed
    rw [reverse_reverse] at given
    exact given
  · exact .refl _

theorem become_record (took : take r subtotal shipping q.lines = some taken) :
    Become q.lines (q.record r taken).lines := by
  unfold Running.record
  split
  · exact become_take took
  · exact (become_take took).trans (become_capped taken r)

/-- **One turn** leaves every line with its list price, its balance and its ids. -/
theorem become_promote (turn : promote lines ctx now subtotal q r = some after) :
    Become q.lines after.lines := by
  cases turn_of_promote turn with
  | excluded | refused | passed | unsupported => exact .refl _
  | recorded _ _ _ took => exact become_record took

/-- **The loop** does. -/
theorem become_promotions (ran : promotions lines ctx now rules start = some final) :
    Become start.lines final.lines :=
  promotions_induction (P := fun q => Become start.lines q.lines)
    (fun _ _ _ ⟨_, _, _, _, turn⟩ before => before.trans (become_promote turn)) ran (.refl _)

end Souq.Pricing
