import Souq.Pricing.Totals

/-!
# Which promotion discounted which line

A rule writes its id on a line while it is evaluated, and the SKU into its entry,
before it is known whether the entry is kept. The two views agree as long as a
rule that marks lines takes something off each of them, is booked, and its cap
does not return a line's whole discount.
-/

namespace Souq.Pricing

open List

variable {lines : List CartLine} {ctx : Context} {now subtotal shipping shippingQuote : Int}
  {q after start final : Running} {r : Rule} {taken : Taken} {rules : List Rule} {set : RuleSet}

/-- The ids on the lines and the SKUs of the entries name each other, and the lines
with an id are those with a discount. -/
structure Attributed (lines : List LinePrice) (applied : List AppliedPromotion) : Prop where
  recorded : ∀ lp ∈ lines, ∀ id ∈ lp.appliedPromotionIds,
    ∃ a ∈ applied, a.promotionId = id ∧ lp.sku ∈ a.appliesToSkus
  carried : ∀ a ∈ applied, ∀ sku ∈ a.appliesToSkus,
    ∃ lp ∈ lines, lp.sku = sku ∧ a.promotionId ∈ lp.appliedPromotionIds
  discounted : ∀ lp ∈ lines, lp.appliedPromotionIds ≠ [] ↔ lp.lineDiscount < 0

/-- What keeps the attribution: a rule that is not booked marks only SKUs that an
entry of its id covers, a line with an id was discounted before or loses something,
and the excess of a cap is less than the discount of the line it goes to. -/
structure Taken.Attributes (taken : Taken) (r : Rule) (q : Running) : Prop where
  booked : taken.discount ≤ 0 → ∀ sku ∈ taken.appliesToSkus,
    ∃ a ∈ q.applied, a.promotionId = r.id ∧ sku ∈ a.appliesToSkus
  lowers : List.Forall₂ (fun lp lp' => lp'.appliedPromotionIds ≠ [] →
    lp.lineDiscount < lp.lineTotal - lp'.lineTotal) q.lines taken.lines
  spares : 0 < r.maxDiscount → r.maxDiscount < taken.discount → ∀ lp,
    taken.lines.reverse.find? (fun lp => lp.lineDiscount < 0) = some lp →
      taken.discount - r.maxDiscount < -lp.lineDiscount

/-- How a rule leaves its id on lines. -/
inductive Marked (promotion : String) :
    List LinePrice → List LinePrice → List String → Prop where
  | nil : Marked promotion [] [] []
  | spared {lp lp' : LinePrice} {before after : List LinePrice} {skus : List String}
      (sku : lp'.sku = lp.sku) (ids : lp'.appliedPromotionIds = lp.appliedPromotionIds)
      (raised : lp.lineDiscount ≤ lp'.lineDiscount) (rest : Marked promotion before after skus) :
      Marked promotion (lp :: before) (lp' :: after) skus
  | marked {lp lp' : LinePrice} {before after : List LinePrice} {skus : List String}
      (sku : lp'.sku = lp.sku)
      (ids : lp'.appliedPromotionIds = lp.appliedPromotionIds ++ [promotion])
      (rest : Marked promotion before after skus) :
      Marked promotion (lp :: before) (lp' :: after) (lp.sku :: skus)

variable {promotion : String} {before later : List LinePrice} {skus : List String}

theorem Marked.refl (promotion : String) (before : List LinePrice) :
    Marked promotion before before [] := by
  induction before with
  | nil => exact .nil
  | cons lp before ih => exact .spared rfl rfl le_rfl ih

theorem marked_takeEach {off : LinePrice → Option (Option Int)} :
    ∀ {before : List LinePrice} {taken : Taken}, takeEach r shipping off before = some taken →
      Marked r.id before taken.lines taken.appliesToSkus := by
  intro before
  induction before with
  | nil =>
    intro taken took
    cases took
    exact .nil
  | cons lp before ih =>
    intro taken took
    simp only [takeEach, Option.bind_eq_bind, Option.bind_eq_some_iff] at took
    obtain ⟨here, -, others, rest, result⟩ := took
    have tail := ih rest
    cases here with
    | none =>
      cases result
      exact .spared rfl rfl le_rfl tail
    | some part =>
      cases result
      exact .marked rfl rfl tail

theorem marked_spread (r : Rule) (subtotal : Int) : ∀ (before : List LinePrice) (remaining : Int),
    Marked r.id before (spread r subtotal before remaining).lines
      (spread r subtotal before remaining).appliesToSkus := by
  intro before
  induction before with
  | nil => exact fun _ => .nil
  | cons lp before ih =>
    intro remaining
    unfold spread
    split
    · exact .refl _ _
    · simp only
      split
      · exact .marked rfl rfl (ih _)
      · next nothing =>
          refine .spared rfl rfl ?_ (ih _)
          simp only [LinePrice.take]
          omega

theorem marked_take (took : take r subtotal shipping before = some taken) :
    Marked r.id before taken.lines taken.appliesToSkus := by
  unfold take at took
  split at took
  · exact marked_takeEach took
  · cases took
    exact marked_spread _ _ _ _
  · cases took
    exact marked_spread _ _ _ _
  · exact marked_takeEach took
  · exact marked_takeEach took
  · cases took
    exact .refl _ _
  · cases took
    exact .refl _ _

theorem Marked.origin (marked : Marked promotion before later skus) :
    ∀ lp' ∈ later, ∀ id ∈ lp'.appliedPromotionIds,
      (∃ lp ∈ before, lp.sku = lp'.sku ∧ id ∈ lp.appliedPromotionIds) ∨
        id = promotion ∧ lp'.sku ∈ skus := by
  induction marked with
  | nil => exact nofun
  | @spared lp lp' before later skus sku ids _ _ ih =>
    intro other listed id member
    rcases mem_cons.mp listed with rfl | listed
    · exact .inl ⟨lp, mem_cons_self, sku.symm, ids ▸ member⟩
    · rcases ih other listed id member with ⟨old, listed', facts⟩ | new
      · exact .inl ⟨old, mem_cons_of_mem _ listed', facts⟩
      · exact .inr new
  | @marked lp lp' before later skus sku ids _ ih =>
    intro other listed id member
    rcases mem_cons.mp listed with rfl | listed
    · rw [ids] at member
      rcases mem_append.mp member with old | new
      · exact .inl ⟨lp, mem_cons_self, sku.symm, old⟩
      · refine .inr ⟨mem_singleton.mp new, ?_⟩
        rw [sku]
        exact mem_cons_self
    · rcases ih other listed id member with ⟨old, listed', facts⟩ | ⟨same, listed'⟩
      · exact .inl ⟨old, mem_cons_of_mem _ listed', facts⟩
      · exact .inr ⟨same, mem_cons_of_mem _ listed'⟩

theorem Marked.listed (marked : Marked promotion before later skus) :
    ∀ sku ∈ skus, ∃ lp' ∈ later, lp'.sku = sku ∧ promotion ∈ lp'.appliedPromotionIds := by
  induction marked with
  | nil => exact nofun
  | spared _ _ _ _ ih =>
    intro sku member
    obtain ⟨lp', listed, facts⟩ := ih sku member
    exact ⟨lp', mem_cons_of_mem _ listed, facts⟩
  | @marked lp lp' before later skus sku ids _ ih =>
    intro other member
    rcases mem_cons.mp member with rfl | member
    · refine ⟨lp', mem_cons_self, sku, ?_⟩
      rw [ids]
      exact mem_append_right _ (mem_singleton_self _)
    · obtain ⟨lp', listed, facts⟩ := ih other member
      exact ⟨lp', mem_cons_of_mem _ listed, facts⟩

theorem Become.carried (become : Become before later) {sku id : String}
    (carried : ∃ lp ∈ before, lp.sku = sku ∧ id ∈ lp.appliedPromotionIds) :
    ∃ lp' ∈ later, lp'.sku = sku ∧ id ∈ lp'.appliedPromotionIds := by
  obtain ⟨lp, member, same, marked⟩ := carried
  induction become with
  | nil => cases member
  | @cons lp lp' before later becomes _ ih =>
    rcases mem_cons.mp member with rfl | others
    · exact ⟨lp', mem_cons_self, becomes.sku.trans same, becomes.ids.subset marked⟩
    · obtain ⟨lp', listed, facts⟩ := ih others
      exact ⟨lp', mem_cons_of_mem _ listed, facts⟩

theorem Marked.trans {last : List LinePrice} (marked : Marked promotion before later skus) :
    Marked promotion later last [] → Marked promotion before last skus := by
  intro after
  induction marked generalizing last with
  | nil => exact after
  | spared sku ids raised _ ih =>
    cases after with
    | spared sku' ids' raised' rest =>
      exact .spared (sku'.trans sku) (ids'.trans ids) (raised.trans raised') (ih rest)
  | marked sku ids _ ih =>
    cases after with
    | spared sku' ids' _ rest => exact .marked (sku'.trans sku) (ids'.trans ids) (ih rest)

def Eased (before later : List LinePrice) : Prop :=
  List.Forall₂ (fun lp lp' => lp'.sku = lp.sku ∧
    lp'.appliedPromotionIds = lp.appliedPromotionIds ∧ lp.lineDiscount ≤ lp'.lineDiscount)
    before later

theorem marked_of_eased (promotion : String) (eased : Eased before later) :
    Marked promotion before later [] := by
  induction eased with
  | nil => exact .nil
  | cons first _ ih => exact .spared first.1 first.2.1 first.2.2 ih

theorem eased_giveBackFirst {excess : Int} (positive : 0 ≤ excess) (before : List LinePrice) :
    Eased before (giveBackFirst excess before) := by
  have same : ∀ others : List LinePrice, Eased others others := fun others =>
    forall₂_same.mpr fun _ _ => ⟨rfl, rfl, le_rfl⟩
  induction before with
  | nil => exact .nil
  | cons lp before ih =>
    unfold giveBackFirst
    split
    · refine .cons ⟨rfl, rfl, ?_⟩ (same before)
      simp only
      omega
    · exact .cons ⟨rfl, rfl, le_rfl⟩ ih

theorem marked_capped (promotion : String) (taken : Taken) (r : Rule) :
    Marked promotion taken.lines (taken.capped r).lines [] := by
  unfold Taken.capped
  split
  · apply marked_of_eased
    have positive : 0 ≤ taken.discount - r.maxDiscount := by omega
    have reversed := eased_giveBackFirst positive taken.lines.reverse
    have given := forall₂_reverse_iff.mpr reversed
    rw [reverse_reverse] at given
    exact given
  · exact .refl _ _

theorem marked_record (took : take r subtotal shipping q.lines = some taken) :
    Marked r.id q.lines (q.record r taken).lines taken.appliesToSkus := by
  unfold Running.record
  split
  · exact marked_take took
  · exact (marked_take took).trans (marked_capped r.id taken r)

/-- Where every discount has an id, giving an excess back keeps every id discounted
exactly when the line it goes to keeps a discount. -/
theorem lowered_giveBackFirst {excess : Int}
    (traced : ∀ lp ∈ before, lp.lineDiscount < 0 → lp.appliedPromotionIds ≠ []) :
    (∀ lp ∈ giveBackFirst excess before, lp.appliedPromotionIds ≠ [] → lp.lineDiscount < 0) ↔
      (∀ lp ∈ before, lp.appliedPromotionIds ≠ [] → lp.lineDiscount < 0) ∧
        ∀ lp, before.find? (fun lp => lp.lineDiscount < 0) = some lp →
          excess < -lp.lineDiscount := by
  induction before with
  | nil => simp [giveBackFirst]
  | cons lp before ih =>
    obtain ⟨first, others⟩ := forall_mem_cons.mp traced
    unfold giveBackFirst
    by_cases discounted : lp.lineDiscount < 0
    · simp only [discounted, ↓reduceIte, forall_mem_cons, find?_cons, decide_true,
        Option.some.injEq, forall_eq']
      have id := first discounted
      constructor
      · rintro ⟨kept, rest⟩
        have left := kept id
        exact ⟨⟨fun _ => trivial, rest⟩, by omega⟩
      · rintro ⟨⟨-, rest⟩, less⟩
        exact ⟨fun _ => by omega, rest⟩
    · simp only [discounted, ↓reduceIte, forall_mem_cons, find?_cons, decide_false, ih others]
      exact and_assoc.symm

theorem Marked.traced (marked : Marked promotion before later skus)
    (traced : ∀ lp ∈ before, lp.lineDiscount < 0 → lp.appliedPromotionIds ≠ []) :
    ∀ lp ∈ later, lp.lineDiscount < 0 → lp.appliedPromotionIds ≠ [] := by
  induction marked with
  | nil => exact traced
  | spared _ ids raised _ ih =>
    obtain ⟨first, others⟩ := forall_mem_cons.mp traced
    refine forall_mem_cons.mpr ⟨fun discounted => ?_, ih others⟩
    rw [ids]
    apply first
    omega
  | marked _ ids _ ih =>
    obtain ⟨-, others⟩ := forall_mem_cons.mp traced
    refine forall_mem_cons.mpr ⟨fun _ => ?_, ih others⟩
    rw [ids]
    exact append_ne_nil_of_right_ne_nil _ (cons_ne_nil _ _)

theorem Become.lowers_iff (become : Become before later) :
    List.Forall₂ (fun lp lp' => lp'.appliedPromotionIds ≠ [] →
        lp.lineDiscount < lp.lineTotal - lp'.lineTotal) before later ↔
      ∀ lp ∈ later, lp.appliedPromotionIds ≠ [] → lp.lineDiscount < 0 := by
  induction become with
  | nil => simp
  | @cons lp lp' before later becomes _ ih =>
    have balance := becomes.balance
    rw [forall₂_cons, forall_mem_cons, ih]
    apply and_congr_left
    intro _
    apply imp_congr_right
    intro _
    omega

theorem discounted_record_iff
    (traced : ∀ lp ∈ taken.lines, lp.lineDiscount < 0 → lp.appliedPromotionIds ≠ [])
    (become : Become q.lines taken.lines) :
    (∀ lp ∈ (q.record r taken).lines, lp.appliedPromotionIds ≠ [] → lp.lineDiscount < 0) ↔
      List.Forall₂ (fun lp lp' => lp'.appliedPromotionIds ≠ [] →
        lp.lineDiscount < lp.lineTotal - lp'.lineTotal) q.lines taken.lines ∧
      (0 < r.maxDiscount → r.maxDiscount < taken.discount → ∀ lp,
        taken.lines.reverse.find? (fun lp => lp.lineDiscount < 0) = some lp →
          taken.discount - r.maxDiscount < -lp.lineDiscount) := by
  rw [become.lowers_iff]
  by_cases capped : r.maxDiscount > 0 ∧ taken.discount > r.maxDiscount
  · have lines : (q.record r taken).lines =
        giveBack (taken.discount - r.maxDiscount) taken.lines := by
      unfold Running.record Taken.capped
      rw [if_neg (by omega), if_pos capped]
    have reversed := @lowered_giveBackFirst taken.lines.reverse (taken.discount - r.maxDiscount)
      fun lp member => traced lp (mem_reverse.mp member)
    simp only [lines, giveBack, mem_reverse] at reversed ⊢
    rw [reversed]
    apply and_congr_right
    intro _
    exact ⟨fun spares _ _ => spares, fun spares => spares capped.1 capped.2⟩
  · have lines : (q.record r taken).lines = taken.lines := by
      unfold Running.record Taken.capped
      rw [if_neg capped]
      split
      · rfl
      · rfl
    rw [lines]
    constructor
    · exact fun lowered => ⟨lowered, fun cap above => (capped ⟨cap, above⟩).elim⟩
    · exact fun ⟨lowered, _⟩ => lowered

/-- **One turn.** It keeps the attribution exactly when the rule attributes what it takes. -/
theorem attributed_record_iff (attributed : Attributed q.lines q.applied)
    (took : take r subtotal q.shippingTotal q.lines = some taken) :
    Attributed (q.record r taken).lines (q.record r taken).applied ↔ taken.Attributes r q := by
  have marked := marked_record took
  have become := become_record took
  have before : ∀ lp ∈ q.lines, lp.lineDiscount < 0 → lp.appliedPromotionIds ≠ [] :=
    fun lp member => (attributed.discounted lp member).mpr
  have lowered := discounted_record_iff (r := r) ((marked_take took).traced before)
    (become_take took)
  by_cases books : taken.discount ≤ 0
  · have applied : (q.record r taken).applied = q.applied := by
      unfold Running.record
      rw [if_pos books]
    rw [applied]
    constructor
    · rintro ⟨recorded, -, discounted⟩
      obtain ⟨lowers, spares⟩ := lowered.mp fun lp member => (discounted lp member).mp
      refine ⟨fun _ sku member => ?_, lowers, spares⟩
      obtain ⟨lp, listed, rfl, id⟩ := marked.listed sku member
      exact recorded lp listed r.id id
    · rintro ⟨booked, lowers, spares⟩
      refine ⟨?_, ?_, fun lp member =>
        ⟨lowered.mpr ⟨lowers, spares⟩ lp member, marked.traced before lp member⟩⟩
      · intro lp member id carries
        rcases marked.origin lp member id carries with ⟨old, listed, same, id'⟩ | ⟨rfl, listed⟩
        · rw [← same]
          exact attributed.recorded old listed id id'
        · exact booked books lp.sku listed
      · intro a member sku listed
        exact become.carried (attributed.carried a member sku listed)
  · obtain ⟨entry, applied, same, skus⟩ : ∃ entry,
        (q.record r taken).applied = q.applied ++ [entry] ∧ entry.promotionId = r.id ∧
          entry.appliesToSkus = taken.appliesToSkus := by
      unfold Running.record
      rw [if_neg books]
      refine ⟨_, rfl, rfl, ?_⟩
      unfold Taken.capped
      split <;> rfl
    rw [applied]
    constructor
    · rintro ⟨-, -, discounted⟩
      obtain ⟨lowers, spares⟩ := lowered.mp fun lp member => (discounted lp member).mp
      exact ⟨fun unbooked => (books unbooked).elim, lowers, spares⟩
    · rintro ⟨-, lowers, spares⟩
      refine ⟨?_, ?_, fun lp member =>
        ⟨lowered.mpr ⟨lowers, spares⟩ lp member, marked.traced before lp member⟩⟩
      · intro lp member id carries
        rcases marked.origin lp member id carries with ⟨old, listed, same', id'⟩ | ⟨rfl, listed⟩
        · obtain ⟨a, listed, facts⟩ := attributed.recorded old listed id id'
          exact ⟨a, mem_append_left _ listed, same' ▸ facts⟩
        · exact ⟨entry, mem_append_right _ (mem_singleton_self _), same, skus ▸ listed⟩
      · intro a member sku listed
        rcases mem_append.mp member with old | new
        · exact become.carried (attributed.carried a old sku listed)
        · obtain rfl := mem_singleton.mp new
          rw [same]
          exact marked.listed sku (skus ▸ listed)

/-- Every rule that is tried attributes what it takes. -/
def RuleSet.Attributes (set : RuleSet) (lines : List CartLine) (ctx : Context)
    (shippingQuote now : Int) : Prop :=
  ∀ r q, Tries lines ctx now set.rules (.start lines shippingQuote) r q →
    ∃ taken, take r (subtotalOf lines) q.shippingTotal q.lines = some taken ∧ taken.Attributes r q

theorem attributed_start (lines : List CartLine) (shippingQuote : Int) :
    Attributed (Running.start lines shippingQuote).lines
      (Running.start lines shippingQuote).applied := by
  have listed : ∀ lp ∈ (Running.start lines shippingQuote).lines,
      lp.appliedPromotionIds = [] ∧ lp.lineDiscount = 0 := by
    intro lp member
    obtain ⟨l, -, rfl⟩ := mem_map.mp member
    exact ⟨rfl, rfl⟩
  constructor
  · intro lp member id carries
    rw [(listed lp member).1] at carries
    cases carries
  · exact nofun
  · intro lp member
    obtain ⟨ids, discount⟩ := listed lp member
    simp [ids, discount]

/-- **The loop.** Rules that attribute what they take keep the attribution. -/
theorem attributed_promotions
    (attributes : ∀ r q, Tries lines ctx now rules start r q →
      ∃ taken, take r (subtotalOf lines) q.shippingTotal q.lines = some taken ∧
        taken.Attributes r q)
    (attributed : Attributed start.lines start.applied) :
    ∃ final, promotions lines ctx now rules start = some final ∧
      Attributed final.lines final.applied := by
  obtain ⟨final, ran⟩ : ∃ final, promotions lines ctx now rules start = some final :=
    promotions_total fun r q tries =>
      let ⟨taken, took, _⟩ := attributes r q tries
      ⟨taken, took⟩
  refine ⟨final, ran, ?_⟩
  apply promotions_induction (P := fun q => Attributed q.lines q.applied) _ ran attributed
  intro r q after turns before
  rcases turns.recorded with ⟨_, rfl⟩ | ⟨taken, tries, -, took, rfl⟩
  · exact before
  · obtain ⟨other, took', facts⟩ := attributes r q tries
    cases took.symm.trans took'
    exact (attributed_record_iff before took).mpr facts

theorem attributed_close_iff (set : RuleSet) (lines : List CartLine) (ctx : Context) (q : Running) :
    Attributed (set.close lines ctx q).lines (set.close lines ctx q).applied ↔
      Attributed q.lines q.applied := by
  constructor
  · rintro ⟨recorded, carried, discounted⟩
    refine ⟨fun lp member => recorded lp.settle (mem_map_of_mem member), ?_,
      fun lp member => discounted lp.settle (mem_map_of_mem member)⟩
    intro a listed sku member
    obtain ⟨_, settled, facts⟩ := carried a listed sku member
    obtain ⟨lp, member, rfl⟩ := mem_map.mp settled
    exact ⟨lp, member, facts⟩
  · rintro ⟨recorded, carried, discounted⟩
    refine ⟨forall_mem_map.mpr recorded, ?_, forall_mem_map.mpr discounted⟩
    intro a listed sku member
    obtain ⟨lp, listed, facts⟩ := carried a listed sku member
    exact ⟨lp.settle, mem_map_of_mem listed, facts⟩

theorem attributes_bundle (attributed : Attributed q.lines q.applied) :
    (⟨q.lines, shipping, 0, []⟩ : Taken).Attributes r q := by
  refine ⟨fun _ => nofun, ?_, fun cap above => (Int.lt_asymm cap above).elim⟩
  apply forall₂_same.mpr
  intro lp member carries
  rw [Int.sub_self]
  exact (attributed.discounted lp member).mp carries

/-- **When discounts are attributed.** If every rule that is tried attributes what it
takes, then so does the quote. And only then do the quotes of all the rule sets
that stop after some of the rules. -/
theorem attribution_consistent_iff (set : RuleSet) (lines : List CartLine) (ctx : Context)
    (shippingQuote now : Int) :
    (set.Attributes lines ctx shippingQuote now →
      ∃ quote, set.calculate lines ctx shippingQuote now = some quote ∧
        Attributed quote.lines quote.applied) ∧
    ((∀ done rest, set.rules = done ++ rest →
      ∃ quote, (RuleSet.mk done set.taxes set.version).calculate lines ctx shippingQuote now =
        some quote ∧ Attributed quote.lines quote.applied) ↔
      set.Attributes lines ctx shippingQuote now) := by
  have quoted : set.Attributes lines ctx shippingQuote now → ∀ done rest,
      set.rules = done ++ rest →
      ∃ quote, (RuleSet.mk done set.taxes set.version).calculate lines ctx shippingQuote now =
        some quote ∧ Attributed quote.lines quote.applied := by
    intro attributes done rest split
    have tried : ∀ r q, Tries lines ctx now done (.start lines shippingQuote) r q →
        Tries lines ctx now set.rules (.start lines shippingQuote) r q := by
      intro r q tries
      rw [split]
      exact tries.left
    obtain ⟨final, ran, attributed⟩ := attributed_promotions
      (fun r q tries => attributes r q (tried r q tries)) (attributed_start lines shippingQuote)
    refine ⟨_, ?_, (attributed_close_iff ⟨done, set.taxes, set.version⟩ lines ctx final).mpr
      attributed⟩
    simp only [RuleSet.calculate, ran, Option.map_some]
  refine ⟨fun attributes => quoted attributes set.rules [] (append_nil _).symm, ?_, quoted⟩
  intro every r q tries
  obtain ⟨done, rest, split, ran, opened, matched⟩ := tries
  obtain ⟨_, returned, attributed⟩ := every done (r :: rest) split
  simp only [RuleSet.calculate, ran, Option.map_some, Option.some.injEq] at returned
  subst returned
  have before := (attributed_close_iff _ lines ctx q).mp attributed
  by_cases bundle : r.type = .bundle
  · exact ⟨⟨q.lines, q.shippingTotal, 0, []⟩, by simp only [take, bundle], attributes_bundle before⟩
  · have whole : set.rules = (done ++ [r]) ++ rest := by simp [split]
    obtain ⟨_, returned, attributed⟩ := every (done ++ [r]) rest whole
    obtain ⟨final, ended, rfl⟩ := Option.map_eq_some_iff.mp returned
    have tries : Tries lines ctx now (done ++ [r]) (.start lines shippingQuote) r q :=
      ⟨done, [], rfl, ran, opened, matched⟩
    obtain ⟨taken, took, -⟩ := tries.turn bundle ended
    have turn := promote_of_tried opened matched bundle took
    rw [promotions_append, ran, Option.bind_some, promotions_cons, turn] at ended
    cases ended
    exact ⟨taken, took, (attributed_record_iff before took).mp
      ((attributed_close_iff _ lines ctx _).mp attributed)⟩

def tenPercentText : List Char :=
  "\x7b\"version\":\"v1\",\"rules\":[\x7b\"id\":\"ten\",\"type\":\"PERCENT_OFF\",".toList ++
    "\"percentOffBasisPoints\":1000,\"maxDiscount\":20000\x7d]\x7d".toList

theorem fromFile_tenPercent :
    RuleSet.fromFile (fun _ => 0) tenPercentText = .ok (.new [tenPercent] [] "v1") := by
  decide +kernel

/-- A gift that costs nothing carries the id of ten percent off. -/
theorem gift_carries_an_id : ¬ ∀ (strtod : List Char → Rat) (json : List Char) (set : RuleSet)
    (lines : List CartLine) (ctx : Context) (shippingQuote now : Int),
    RuleSet.fromFile strtod json = .ok set →
    ∃ quote, set.calculate lines ctx shippingQuote now = some quote ∧
      Attributed quote.lines quote.applied := by
  intro consistent
  obtain ⟨quote, returned, attributed⟩ := consistent _ _ _
    [⟨"tee", 1, 10000, [], "Acme"⟩, ⟨"gift", 1, 0, [], "Acme"⟩] {} 0 0 fromFile_tenPercent
  obtain ⟨gift, member, carries, whole⟩ : ∃ gift ∈ quote.lines,
      gift.appliedPromotionIds = ["ten"] ∧ gift.lineDiscount = 0 := by
    have evaluated : ((RuleSet.new [tenPercent] [] "v1").calculate
        [⟨"tee", 1, 10000, [], "Acme"⟩, ⟨"gift", 1, 0, [], "Acme"⟩] {} 0 0).map (fun quote =>
          quote.lines.any fun lp => lp.appliedPromotionIds = ["ten"] ∧ lp.lineDiscount = 0) =
        some true := by decide +kernel
    rw [returned, Option.map_some, Option.some.injEq, any_eq_true] at evaluated
    obtain ⟨gift, member, facts⟩ := evaluated
    exact ⟨gift, member, of_decide_eq_true facts⟩
  have discounted := (attributed.discounted gift member).mp (by simp [carries])
  omega

end Souq.Pricing
