import Souq.Pricing.Listing

/-!
# Basket promotions on a listing

`GetPrices` hides basket promotions after the fact, line by line: a line that only they
discounted gets its list price back. The prices are those without the basket promotions as
long as no line is mixed, that is, moved by a basket promotion and touched by another one.
-/

namespace Souq.Pricing

open RuleSet Running List

variable {lines : List CartLine} {ctx : Context} {now subtotal shipping : Int}
  {q p q' after final : Running} {r : Rule} {taken : Taken} {rules : List Rule} {set : RuleSet}
  {k : Nat}

/-- The rules that look at one line at a time. -/
def RuleSet.withoutBaskets (set : RuleSet) : RuleSet :=
  { set with rules := set.rules.filter fun r => !r.type.cartScoped }

/-- Only basket promotions touch the line at a place: the others that are tried leave it alone,
and one of these that does not takes something and leaves its id, on a line that is listed at
nothing or more. -/
structure OnlyBaskets (lines : List CartLine) (ctx : Context) (now : Int) (rules : List Rule)
    (k : Nat) : Prop where
  others : ∀ r q, Tries lines ctx now rules (.start lines 0) r q → r.type.cartScoped = false →
    r.Leaves (subtotalOf lines) q k
  masks : ∀ r q taken, Tries lines ctx now rules (.start lines 0) r q → r.type.cartScoped = true →
    take r (subtotalOf lines) q.shippingTotal q.lines = some taken →
      (q.record r taken).lines[k]? = q.lines[k]? ∨ 0 < taken.discount ∧
        ∃ lp, (q.record r taken).lines[k]? = some lp ∧ r.id ∈ lp.appliedPromotionIds ∧
          0 ≤ lp.unitListPrice

/-- No id on the line at a place is that of a basket promotion in the quote. -/
def Running.Unscoped (q : Running) (k : Nat) : Prop :=
  ∀ lp ∈ q.lines[k]?, ∀ id ∈ lp.appliedPromotionIds, id ∉ cartScopedIds q.applied

instance (q : Running) (k : Nat) : Decidable (q.Unscoped k) :=
  inferInstanceAs (Decidable (∀ lp ∈ q.lines[k]?, _))

/-- No basket promotion moves the line at a place, and none of the quote has its id on it. -/
structure RuleSet.Spares (set : RuleSet) (lines : List CartLine) (ctx : Context) (now : Int)
    (k : Nat) : Prop where
  moves : ∀ r q taken, Tries lines ctx now set.rules (.start lines 0) r q →
    r.type.cartScoped = true →
    take r (subtotalOf lines) q.shippingTotal q.lines = some taken →
      (q.record r taken).lines[k]?.map (·.lineTotal) = q.lines[k]?.map (·.lineTotal)
  ids : ∀ r q taken, Tries lines ctx now set.rules (.start lines 0) r q →
    take r (subtotalOf lines) q.shippingTotal q.lines = some taken → (q.record r taken).Unscoped k

/-- No line is mixed, and an exclusive basket promotion shuts out only promotions that would
move none. -/
structure RuleSet.Unmixed (set : RuleSet) (lines : List CartLine) (ctx : Context) (now : Int) :
    Prop where
  each : ∀ k, set.Spares lines ctx now k ∨ OnlyBaskets lines ctx now set.rules k ∧
    OnlyBaskets lines ctx now set.withoutBaskets.rules k
  excluded : ∀ done r rest q p, set.rules = done ++ r :: rest →
    promotions lines ctx now done (.start lines 0) = some q →
    promotions lines ctx now (done.filter fun r => !r.type.cartScoped) (.start lines 0) = some p →
    q.exclusiveApplied = true → p.exclusiveApplied = false → r.type.cartScoped = false →
    matchesRule r lines ctx (subtotalOf lines) now = .ok () →
    ∀ taken, take r (subtotalOf lines) p.shippingTotal p.lines = some taken →
      (p.record r taken).lines.map (·.lineTotal) = p.lines.map (·.lineTotal)

theorem exclusive_record : (q.record r taken).exclusiveApplied =
    (q.exclusiveApplied || (decide (0 < taken.discount) && r.exclusive)) := by
  unfold record
  split
  · next nothing => simp [not_lt.mpr nothing]
  · next positive => simp [not_le.mp positive]

theorem applied_record : ∀ a ∈ (q.record r taken).applied,
    a ∈ q.applied ∨ a.type = r.type ∧ a.promotionId = r.id ∧ 0 < taken.discount := by
  unfold record
  split
  · exact fun a member => .inl member
  · next positive =>
      intro a member
      rcases mem_append.mp member with before | new
      · exact .inl before
      · obtain rfl := mem_singleton.mp new
        exact .inr ⟨rfl, rfl, not_le.mp positive⟩

theorem cartScopedIds_record : cartScopedIds (q.record r taken).applied =
    cartScopedIds q.applied ++
      if 0 < taken.discount ∧ r.type.cartScoped = true then [r.id] else [] := by
  unfold record
  split
  · next nothing => simp [not_lt.mpr nothing]
  · next positive =>
      cases basket : r.type.cartScoped with
      | true => simp [cartScopedIds, basket, not_le.mp positive]
      | false => simp [cartScopedIds, basket]

theorem Marked.ids_at {promotion : String} {before later : List LinePrice} {skus : List String}
    (marked : Marked promotion before later skus) {lp' : LinePrice} (found : later[k]? = some lp') :
    ∃ lp, before[k]? = some lp ∧ ∀ id ∈ lp'.appliedPromotionIds,
      id ∈ lp.appliedPromotionIds ∨ id = promotion := by
  induction marked generalizing k with
  | nil => cases found
  | spared _ ids _ _ ih =>
    cases k with
    | zero =>
      cases found
      exact ⟨_, rfl, fun id member => .inl (ids ▸ member)⟩
    | succ k => exact ih found
  | marked _ ids _ ih =>
    cases k with
    | zero =>
      cases found
      refine ⟨_, rfl, fun id member => ?_⟩
      rw [ids] at member
      simpa using member
    | succ k => exact ih found

/-- A line that costs its list price, or shows it because all its ids are of basket
promotions in the quote. -/
structure LinePrice.Masked (lp : LinePrice) (baskets : List String) : Prop where
  booked : ∀ id ∈ lp.appliedPromotionIds, id ∈ baskets
  whole : lp.appliedPromotionIds = [] → lp.lineTotal = lp.unitListPrice
  listed : lp.appliedPromotionIds ≠ [] → 0 ≤ lp.unitListPrice

theorem LinePrice.Masked.effective {lp : LinePrice} {baskets : List String}
    (masked : lp.Masked baskets) (single : lp.quantity = 1) : lp.settle.effective baskets =
      nonNegative lp.unitListPrice := by
  by_cases ids : lp.appliedPromotionIds = []
  · have shown : lp.settle.onlyCartScoped baskets = false := by
      simp only [LinePrice.onlyCartScoped, LinePrice.settle, ids]
      rfl
    rw [LinePrice.effective, shown]
    simp [LinePrice.settle, single, masked.whole ids]
  · have shown : lp.settle.onlyCartScoped baskets = true := by
      simp only [LinePrice.onlyCartScoped, LinePrice.settle, Bool.and_eq_true, all_eq_true,
        contains_iff_mem, Bool.not_eq_true', isEmpty_eq_false_iff]
      exact ⟨ids, masked.booked⟩
    rw [LinePrice.effective, shown, nonNegative_of_nonneg (masked.listed ids)]
    rfl

/-- **The loop** keeps a line masked that only basket promotions touch. -/
theorem OnlyBaskets.masked (only : OnlyBaskets lines ctx now rules k)
    (single : ∀ l ∈ lines, l.quantity = 1)
    (ran : promotions lines ctx now rules (.start lines 0) = some final) :
    ∀ lp, final.lines[k]? = some lp → lp.Masked (cartScopedIds final.applied) := by
  apply promotions_induction (P := fun q =>
    ∀ lp, q.lines[k]? = some lp → lp.Masked (cartScopedIds q.applied)) _ ran
  · intro lp found
    obtain ⟨l, listed, rfl⟩ := mem_map.mp (mem_of_getElem? found)
    exact ⟨nofun, fun _ => by simp [listPrice, single l listed], fun some' => (some' rfl).elim⟩
  · intro r q after turns masked
    rcases turns.recorded with ⟨_, rfl⟩ | ⟨taken, tries, -, took, rfl⟩
    · exact masked
    · intro lp' found
      rw [cartScopedIds_record]
      have kept : (q.record r taken).lines[k]? = q.lines[k]? → lp'.Masked
          (cartScopedIds q.applied ++
            if 0 < taken.discount ∧ r.type.cartScoped = true then [r.id] else []) := by
        intro same
        obtain ⟨booked, whole, listed⟩ := masked lp' (same ▸ found)
        exact ⟨fun id member => mem_append_left _ (booked id member), whole, listed⟩
      cases basket : r.type.cartScoped with
      | false =>
        rw [basket] at kept
        exact kept ((only.others r q tries basket).record took)
      | true =>
        rw [basket] at kept
        rcases only.masks r q taken tries basket took with same | ⟨positive, lp, found', id, listed⟩
        · exact kept same
        · obtain rfl := Option.some.inj (found.symm.trans found')
          obtain ⟨before, found, ids⟩ := (marked_record took).ids_at found
          rw [if_pos ⟨positive, rfl⟩]
          refine ⟨fun other member => ?_, fun none' => ?_, fun _ => listed⟩
          · rcases ids other member with old | rfl
            · exact mem_append_left _ ((masked before found).booked other old)
            · exact mem_append_right _ (mem_singleton_self _)
          · rw [none'] at id
            cases id

theorem RuleSet.Spares.unscoped (spares : set.Spares lines ctx now k)
    (ran : promotions lines ctx now set.rules (.start lines 0) = some final) {lp : LinePrice}
    (found : final.lines[k]? = some lp) :
    lp.settle.effective (cartScopedIds final.applied) = lp.settle.unitEffectivePrice := by
  have apart : final.Unscoped k := by
    apply promotions_induction (P := fun q => q.Unscoped k) _ ran
    · intro lp found
      obtain ⟨l, -, rfl⟩ := mem_map.mp (mem_of_getElem? found)
      exact nofun
    · intro r q after turns before
      rcases turns.recorded with ⟨_, rfl⟩ | ⟨taken, tries, -, took, rfl⟩
      · exact before
      · exact spares.ids r q taken tries took
  have shown : lp.settle.onlyCartScoped (cartScopedIds final.applied) = false := by
    have none' := apart lp found
    simp only [LinePrice.onlyCartScoped, LinePrice.settle]
    cases ids : lp.appliedPromotionIds with
    | nil => rfl
    | cons id ids =>
      rw [ids] at none'
      simp [none' id mem_cons_self]
  rw [LinePrice.effective, shown]
  rfl

/-- The loop with and without the basket promotions: the lines that these spare are alike,
and the other is open while this one is. -/
structure Running.Hides (q p : Running) (set : RuleSet) (lines : List CartLine) (ctx : Context)
    (now : Int) : Prop where
  alike : ∀ k, set.Spares lines ctx now k → Alike q.lines p.lines k
  opened : q.exclusiveApplied = false → p.exclusiveApplied = false

/-- **One turn** of a basket promotion. -/
theorem Running.Hides.basket (hides : q.Hides p set lines ctx now)
    (basket : r.type.cartScoped = true)
    (turns : Turns lines ctx now set.rules (.start lines 0) r q after) :
    after.Hides p set lines ctx now := by
  rcases turns.recorded with ⟨_, rfl⟩ | ⟨taken, tries, -, took, rfl⟩
  · exact ⟨hides.alike, hides.opened⟩
  · constructor
    · intro k spares
      exact ((become_record took).bare_at (spares.moves r q taken tries basket took)).trans
        (hides.alike k spares)
    · intro opened
      rw [exclusive_record, Bool.or_eq_false_iff] at opened
      exact hides.opened opened.1

/-- **One turn** of another promotion, with and without those of baskets. -/
theorem Running.Hides.regular (unmixed : set.Unmixed lines ctx now)
    (hides : q.Hides p set lines ctx now) (regular : r.type.cartScoped = false)
    {done rest : List Rule} (split : set.rules = done ++ r :: rest)
    (ran : promotions lines ctx now done (.start lines 0) = some q)
    (ran' : promotions lines ctx now (done.filter fun r => !r.type.cartScoped) (.start lines 0) =
      some p)
    (turn : promote lines ctx now (subtotalOf lines) q r = some after) :
    ∃ after', promote lines ctx now (subtotalOf lines) p r = some after' ∧
      after.Hides after' set lines ctx now := by
  have supported := ne_bundle regular
  have passed : (q.exclusiveApplied = true ∨
        ∃ reason, matchesRule r lines ctx (subtotalOf lines) now = .error reason) →
      ∃ rejected, after = { q with rejected := rejected } := by
    intro untried
    obtain ⟨rejected, same⟩ := promote_untried untried
    exact ⟨rejected, Option.some.inj (turn.symm.trans same)⟩
  cases matched : matchesRule r lines ctx (subtotalOf lines) now with
  | error reason =>
    obtain ⟨_, rfl⟩ := passed (.inr ⟨reason, matched⟩)
    obtain ⟨_, turn'⟩ := promote_untried (q := p) (.inr ⟨reason, matched⟩)
    exact ⟨_, turn', hides.alike, hides.opened⟩
  | ok _ =>
    cases closed' : p.exclusiveApplied with
    | true =>
      have closed : q.exclusiveApplied = true := by
        by_contra opened
        rw [hides.opened (by simpa using opened)] at closed'
        cases closed'
      obtain ⟨_, rfl⟩ := passed (.inl closed)
      obtain ⟨_, turn'⟩ := promote_untried (q := p) (.inl closed')
      exact ⟨_, turn', hides.alike, hides.opened⟩
    | false =>
      obtain ⟨taken', took'⟩ := take_regular regular (subtotalOf lines) p.shippingTotal p.lines
      have tries' : Tries lines ctx now set.withoutBaskets.rules (.start lines 0) r p := by
        refine ⟨_, rest.filter fun r => !r.type.cartScoped, ?_, ran', closed', matched⟩
        simp [RuleSet.withoutBaskets, split, regular]
      refine ⟨_, promote_of_tried closed' matched supported took', ?_⟩
      cases closed : q.exclusiveApplied with
      | true =>
        obtain ⟨_, rfl⟩ := passed (.inl closed)
        have totals :=
          unmixed.excluded done r rest q p split ran ran' closed closed' regular matched
          taken' took'
        constructor
        · intro k spares
          have still : Alike (p.record r taken').lines p.lines k := by
            apply (become_record took').bare_at
            rw [← getElem?_map, ← getElem?_map, totals]
          exact (hides.alike k spares).trans still.symm
        · intro opened
          cases closed.symm.trans opened
      | false =>
        have tries : Tries lines ctx now set.rules (.start lines 0) r q :=
          ⟨done, rest, split, ran, closed, matched⟩
        obtain ⟨taken, took⟩ := take_regular regular (subtotalOf lines) q.shippingTotal q.lines
        obtain rfl := Option.some.inj
          (turn.symm.trans (promote_of_tried closed matched supported took))
        have length : q.lines.length = p.lines.length :=
          (become_promotions ran).length_eq.symm.trans (become_promotions ran').length_eq
        obtain ⟨discount, alike⟩ := alike_record regular took took' length fun k =>
          (unmixed.each k).imp (hides.alike k) fun only =>
            ⟨only.1.others r q tries regular, only.2.others r p tries' regular⟩
        refine ⟨fun k spares => alike k (hides.alike k spares), ?_⟩
        rw [exclusive_record, exclusive_record, closed, closed', discount]
        exact id

/-- **The loop** with and without the basket promotions. -/
theorem Running.Hides.promotions (unmixed : set.Unmixed lines ctx now) :
    ∀ {rest done : List Rule} {q p final : Running}, set.rules = done ++ rest →
      Pricing.promotions lines ctx now done (.start lines 0) = some q →
      Pricing.promotions lines ctx now (done.filter fun r => !r.type.cartScoped) (.start lines 0) =
        some p →
      q.Hides p set lines ctx now → Pricing.promotions lines ctx now rest q = some final →
      ∃ final', Pricing.promotions lines ctx now (rest.filter fun r => !r.type.cartScoped) p =
        some final' ∧ final.Hides final' set lines ctx now := by
  intro rest
  induction rest with
  | nil =>
    intro done q p final _ _ _ hides ended
    cases ended
    exact ⟨p, rfl, hides⟩
  | cons r rest ih =>
    intro done q p final split ran ran' hides ended
    rw [promotions_cons] at ended
    obtain ⟨after, turn, ended⟩ := Option.bind_eq_some_iff.mp ended
    have further : ∀ {rules : List Rule} {s t u : Running},
        Pricing.promotions lines ctx now rules s = some t →
        promote lines ctx now (subtotalOf lines) t r = some u →
        Pricing.promotions lines ctx now (rules ++ [r]) s = some u := by
      intro rules s t u ran turn
      rw [promotions_append, ran, Option.bind_some, promotions_cons, turn]
      rfl
    have shifted : set.rules = (done ++ [r]) ++ rest := by simpa using split
    cases basket : r.type.cartScoped with
    | true =>
      rw [filter_cons_of_neg (by simp [basket])]
      apply ih shifted (further ran turn) _
        (hides.basket basket ⟨done, rest, split, ran, turn⟩) ended
      simpa [basket] using ran'
    | false =>
      obtain ⟨after', turn', later⟩ := hides.regular unmixed basket split ran ran' turn
      rw [filter_cons_of_pos (by simp [basket]), promotions_cons, turn', Option.bind_some]
      apply ih shifted (further ran turn) _ later ended
      simpa [basket] using further ran' turn'

def Quote.effectivePrices (quote : Quote) : List Int :=
  quote.lines.map (LinePrice.effective (cartScopedIds quote.applied))

def Quote.unitPrices (quote : Quote) : List Int := quote.lines.map (·.unitEffectivePrice)

theorem unitPrices_close (set : RuleSet) (lines : List CartLine) (ctx : Context) (q : Running) :
    (set.close lines ctx q).unitPrices = q.lines.map (·.settle.unitEffectivePrice) := by
  simp only [Quote.unitPrices, close, map_map, Function.comp_def]

/-- A line that only basket promotions touch shows its list price. -/
theorem OnlyBaskets.price (only : OnlyBaskets lines ctx now rules k)
    (single : ∀ l ∈ lines, l.quantity = 1)
    (ran : promotions lines ctx now rules (.start lines 0) = some final) :
    final.lines[k]?.map (fun lp => lp.settle.effective (cartScopedIds final.applied)) =
      lines[k]?.map fun l => nonNegative l.unitListPrice := by
  have become := become_promotions ran
  cases ordered : lines[k]? with
  | none =>
    have length : lines.length = final.lines.length := by
      simpa [start] using become.length_eq
    rw [getElem?_eq_none_iff, length, ← getElem?_eq_none_iff] at ordered
    rw [ordered]
    rfl
  | some l =>
    have listed : (start lines 0).lines[k]? = some (listPrice l) := by
      simp [start, ordered]
    obtain ⟨lp, found, becomes⟩ := become.forward listed
    have one : lp.quantity = 1 :=
      becomes.quantity.trans (single l (mem_of_getElem? ordered))
    rw [found, Option.map_some, Option.map_some, (only.masked single ran lp found).effective one,
      becomes.unit]
    rfl

theorem cartScopedIds_withoutBaskets
    (ran : promotions lines ctx now set.withoutBaskets.rules (.start lines 0) = some final) :
    cartScopedIds final.applied = [] := by
  apply cartScopedIds_eq_nil
  apply promotions_induction (P := fun q => ∀ a ∈ q.applied, a.type.cartScoped = false) _ ran nofun
  intro r q after turns booked
  rcases turns.recorded with ⟨_, rfl⟩ | ⟨taken, tries, -, -, rfl⟩
  · exact booked
  · intro a member
    rcases applied_record a member with before | ⟨type, -, -⟩
    · exact booked a before
    · rw [type]
      simpa using (mem_filter.mp tries.listed).2

/-- The prices with and without the basket promotions, line by line. -/
theorem RuleSet.Unmixed.prices (unmixed : set.Unmixed lines ctx now)
    (single : ∀ l ∈ lines, l.quantity = 1)
    (ran : promotions lines ctx now set.rules (.start lines 0) = some final) :
    ∃ final', promotions lines ctx now set.withoutBaskets.rules (.start lines 0) = some final' ∧
      (set.close lines ctx final).effectivePrices =
        (set.withoutBaskets.close lines ctx final').unitPrices := by
  have start : (start lines 0).Hides (.start lines 0) set lines ctx now := ⟨fun _ _ => rfl, id⟩
  have split : set.rules = [] ++ set.rules := rfl
  obtain ⟨final', ran', hides⟩ := start.promotions unmixed split rfl rfl ran
  refine ⟨final', ran', ?_⟩
  rw [unitPrices_close]
  simp only [Quote.effectivePrices, close, map_map]
  apply ext_getElem?
  intro k
  rw [getElem?_map, getElem?_map]
  rcases unmixed.each k with spares | ⟨only, only'⟩
  · have alike := hides.alike k spares
    unfold Alike at alike
    rw [getElem?_map, getElem?_map] at alike
    cases found : final.lines[k]? with
    | none =>
      rw [found, Option.map_none, eq_comm, Option.map_eq_none_iff] at alike
      rw [alike]
      rfl
    | some lp =>
      rw [found, Option.map_some, eq_comm, Option.map_eq_some_iff] at alike
      obtain ⟨lp', found', same⟩ := alike
      rw [found', Option.map_some, Option.map_some, settle_of_bare same]
      exact congrArg some (spares.unscoped ran found)
  · have shown' := only'.price single ran'
    rw [cartScopedIds_withoutBaskets ran'] at shown'
    simp only [effective_unscoped] at shown'
    exact (only.price single ran).trans shown'.symm

def page (amount : Int) : GetPricesRequest :=
  ⟨[⟨"tee", ⟨amount, ""⟩⟩], "", "", []⟩

end Souq.Pricing
