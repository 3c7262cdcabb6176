import Souq.Pricing.Attribution
import Souq.Pricing.Rpc

/-!
# Prices of a listing

`GetPrices`: the items of a page are priced as one cart of single units, and a line that
only basket promotions discounted gets its list price back. A listing has no coupons, no
shipping and no brands or categories.
-/

namespace Souq.Pricing

open List LinePrice Option

open Rpc (MoneyMessage)

/-- An item of a page. The product id is not read. -/
structure SkuListPrice where
  sku : String
  listPrice : MoneyMessage

/-- The items of a page. -/
structure GetPricesRequest where
  items : List SkuListPrice
  currencyCode : String
  countryCode : String
  customerSegments : List String

def GetPricesRequest.currency (request : GetPricesRequest) : String :=
  if request.currencyCode = "" then "EGP" else request.currencyCode

def GetPricesRequest.context (request : GetPricesRequest) : Context where
  countryCode := if request.countryCode = "" then "EG" else request.countryCode
  segments := request.customerSegments

/-- An item without a currency is taken to be in the batch's. -/
def SkuListPrice.inCurrency (currency : String) (item : SkuListPrice) : Bool :=
  item.listPrice.currencyCode = "" || item.listPrice.currencyCode = currency

def SkuListPrice.priced (currency : String) (item : SkuListPrice) : Bool :=
  item.sku ≠ "" && item.inCurrency currency

/-- One unit of an item, as a line of a cart. -/
def SkuListPrice.line (item : SkuListPrice) : CartLine where
  sku := item.sku
  quantity := 1
  unitListPrice := item.listPrice.amount
  categoryPath := []
  brand := ""

def GetPricesRequest.lines (request : GetPricesRequest) : List CartLine :=
  (request.items.filter (SkuListPrice.priced request.currency)).map SkuListPrice.line

/-- Promotions that only make sense across a basket. -/
def PromotionType.cartScoped : PromotionType → Bool
  | .cartThreshold | .freeShipping | .buyXGetY | .bundle => true
  | _ => false

def cartScopedIds (applied : List AppliedPromotion) : List String :=
  (applied.filter fun a => a.type.cartScoped).map (·.promotionId)

def LinePrice.onlyCartScoped (cartScoped : List String) (lp : LinePrice) : Bool :=
  !lp.appliedPromotionIds.isEmpty && lp.appliedPromotionIds.all cartScoped.contains

def LinePrice.effective (cartScoped : List String) (lp : LinePrice) : Int :=
  if lp.onlyCartScoped cartScoped then lp.unitListPrice else lp.unitEffectivePrice

variable {lines : List CartLine} {ctx : Context} {now subtotal shipping : Int} {q : Running}
  {r : Rule} {taken : Taken} {lp : LinePrice}

/-- A line without its ids and its price for a unit, which no rule reads. -/
def LinePrice.bare (lp : LinePrice) : LinePrice :=
  { lp with appliedPromotionIds := [], unitEffectivePrice := 0 }

/-- Two lists have the same line at a place, but for its ids. -/
def Alike (priced others : List LinePrice) (k : Nat) : Prop :=
  (priced.map bare)[k]? = (others.map bare)[k]?

/-- At every place two lists are alike, or neither changes to the list after it. -/
def Sides (priced others after after' : List LinePrice) : Prop :=
  ∀ k, Alike priced others k ∨ after[k]? = priced[k]? ∧ after'[k]? = others[k]?

variable {lp' moved moved' : LinePrice} {priced others after after' : List LinePrice}

@[simp]
theorem alike_cons_zero : Alike (lp :: priced) (lp' :: others) 0 ↔ lp.bare = lp'.bare := by
  simp [Alike]

@[simp]
theorem alike_cons_succ {k : Nat} :
    Alike (lp :: priced) (lp' :: others) (k + 1) ↔ Alike priced others k := by
  simp [Alike]

theorem Sides.head
    (sides : Sides (lp :: priced) (lp' :: others) (moved :: after) (moved' :: after')) :
    lp.bare = lp'.bare ∨ moved = lp ∧ moved' = lp' := by
  simpa using sides 0

theorem Sides.tail
    (sides : Sides (lp :: priced) (lp' :: others) (moved :: after) (moved' :: after')) :
    Sides priced others after after' := fun k => by
  simpa using sides (k + 1)

def LinePrice.lose (lp : LinePrice) (r : Rule) (here : Option Int) : LinePrice :=
  here.elim lp fun part => (lp.take part).credit r.id

theorem lose_bare (lp : LinePrice) (r : Rule) (here : Option Int) :
    (lp.bare.lose r here).bare = (lp.lose r here).bare := by
  cases here with
  | none => rfl
  | some part => rfl

theorem lose_eq_self {here : Option Int} (kept : lp.lose r here = lp) : here = none := by
  cases here with
  | none => rfl
  | some part =>
    have ids := congrArg (fun line => line.appliedPromotionIds.length) kept
    simp [LinePrice.lose, LinePrice.credit, LinePrice.take] at ids

theorem takeEach_cons {off : LinePrice → Option (Option Int)}
    (took : takeEach r shipping off (lp :: priced) = some taken) :
    ∃ here after, off lp = some here ∧ takeEach r shipping off priced = some after ∧
      taken.lines = lp.lose r here :: after.lines ∧
      taken.discount = here.getD 0 + after.discount := by
  simp only [takeEach, bind_eq_bind, bind_eq_some_iff] at took
  obtain ⟨here, offered, after, rest, result⟩ := took
  refine ⟨here, after, offered, rest, ?_⟩
  cases here with
  | none =>
    cases result
    simp [lose]
  | some part =>
    cases result
    simp [lose]

/-- **A rule for each line** takes the same off two carts that are alike but for lines
it does not touch. -/
theorem alike_takeEach {off : LinePrice → Option (Option Int)} {shipping' : Int}
    (blind : ∀ lp, off lp.bare = off lp) :
      ∀ {priced others : List LinePrice} {taken taken' : Taken},
    takeEach r shipping off priced = some taken → takeEach r shipping' off others = some taken' →
      priced.length = others.length → Sides priced others taken.lines taken'.lines →
      taken.discount = taken'.discount ∧
        ∀ k, Alike priced others k → Alike taken.lines taken'.lines k := by
  intro priced
  induction priced with
  | nil =>
    intro others taken taken' took took' length _
    obtain rfl := length_eq_zero_iff.mp length.symm
    cases took
    cases took'
    exact ⟨rfl, fun _ alike => alike⟩
  | cons lp priced ih =>
    intro others taken taken' took took' length sides
    cases others with
    | nil => cases length
    | cons lp' others =>
      obtain ⟨here, after, offered, rest, lines, discount⟩ := takeEach_cons took
      obtain ⟨here', after', offered', rest', lines', discount'⟩ := takeEach_cons took'
      rw [lines, lines'] at sides ⊢
      obtain ⟨same, tail⟩ := ih rest rest' (Nat.succ.inj length) sides.tail
      have equal : here = here' := by
        rcases sides.head with bare | ⟨kept, kept'⟩
        · rw [← blind, bare, blind, offered', some.injEq] at offered
          exact offered.symm
        · exact (lose_eq_self kept).trans (lose_eq_self kept').symm
      rw [discount, discount', same, equal]
      refine ⟨rfl, fun k alike => ?_⟩
      cases k with
      | zero =>
        rw [alike_cons_zero] at alike ⊢
        rw [← lose_bare lp, alike, lose_bare]
      | succ k =>
        rw [alike_cons_succ] at alike ⊢
        exact tail k alike

theorem spread_cons (r : Rule) (subtotal : Int) (lp : LinePrice) (priced : List LinePrice)
    {remaining : Int} (more : 0 < remaining) :
    ∃ moved, moved.bare = (lp.take (share r subtotal remaining lp priced.isEmpty)).bare ∧
      (moved = lp → share r subtotal remaining lp priced.isEmpty = 0) ∧
      (spread r subtotal (lp :: priced) remaining).lines = moved :: (spread r subtotal priced
        (remaining - share r subtotal remaining lp priced.isEmpty)).lines ∧
      (spread r subtotal (lp :: priced) remaining).remaining = (spread r subtotal priced
          (remaining - share r subtotal remaining lp priced.isEmpty)).remaining := by
  rw [spread, if_neg (by omega)]
  by_cases part : share r subtotal remaining lp priced.isEmpty > 0
  · rw [if_pos part]
    refine ⟨lp.lose r (some (share r subtotal remaining lp priced.isEmpty)), rfl, ?_, rfl, rfl⟩
    intro kept
    cases lose_eq_self kept
  · rw [if_neg part]
    refine ⟨_, rfl, fun kept => ?_, rfl, rfl⟩
    have lost := congrArg (fun line => line.lineDiscount) kept
    simp only [LinePrice.take] at lost
    omega

/-- **An amount** is spread alike over two carts that are alike but for lines without a
share in either. -/
theorem alike_spread (r : Rule) (subtotal : Int) : ∀ {priced others : List LinePrice}
    (remaining : Int), priced.length = others.length →
      Sides priced others (spread r subtotal priced remaining).lines
        (spread r subtotal others remaining).lines →
      (spread r subtotal priced remaining).remaining =
          (spread r subtotal others remaining).remaining ∧
        ∀ k, Alike priced others k → Alike (spread r subtotal priced remaining).lines
          (spread r subtotal others remaining).lines k := by
  intro priced
  induction priced with
  | nil =>
    intro others remaining length _
    obtain rfl := length_eq_zero_iff.mp length.symm
    exact ⟨rfl, fun _ alike => alike⟩
  | cons lp priced ih =>
    intro others remaining length sides
    cases others with
    | nil => cases length
    | cons lp' others =>
      by_cases more : 0 < remaining
      · obtain ⟨moved, bare, still, lines, left⟩ := spread_cons r subtotal lp priced more
        obtain ⟨moved', bare', still', lines', left'⟩ := spread_cons r subtotal lp' others more
        have last : priced.isEmpty = others.isEmpty := by
          rw [Bool.eq_iff_iff, isEmpty_iff_length_eq_zero, isEmpty_iff_length_eq_zero,
            Nat.succ.inj length]
        rw [lines, lines'] at sides ⊢
        rw [left, left']
        have equal : share r subtotal remaining lp priced.isEmpty =
            share r subtotal remaining lp' others.isEmpty := by
          rcases sides.head with bare | ⟨kept, kept'⟩
          · have blind : ∀ line : LinePrice, share r subtotal remaining line.bare others.isEmpty =
                share r subtotal remaining line others.isEmpty := fun _ => rfl
            rw [last, ← blind, bare, blind]
          · exact (still kept).trans (still' kept').symm
        rw [equal] at sides bare ⊢
        obtain ⟨same, tail⟩ := ih (remaining - share r subtotal remaining lp' others.isEmpty)
          (Nat.succ.inj length) sides.tail
        refine ⟨same, fun k alike => ?_⟩
        cases k with
        | zero =>
          rw [alike_cons_zero] at alike ⊢
          have blind : ∀ (line : LinePrice) (off : Int), (line.bare.take off).bare =
              (line.take off).bare := fun _ _ => rfl
          rw [bare, bare', ← blind, alike, blind]
        | succ k =>
          rw [alike_cons_succ] at alike ⊢
          exact tail k alike
      · have nothing : ∀ (lp : LinePrice) (priced : List LinePrice),
            spread r subtotal (lp :: priced) remaining = ⟨lp :: priced, remaining, []⟩ :=
          fun lp priced => by rw [spread, if_pos (by omega)]
        rw [nothing, nothing]
        exact ⟨rfl, fun _ alike => alike⟩

/-- A line that gets an excess back, as far as it was discounted. -/
def LinePrice.returned (lp : LinePrice) (excess : Int) : LinePrice :=
  { lp with
    lineDiscount := lp.lineDiscount + min excess (-lp.lineDiscount)
    lineTotal := lp.lineTotal + min excess (-lp.lineDiscount) }

variable {excess : Int}

theorem returned_ne (positive : 0 < excess) (discounted : lp.lineDiscount < 0) :
    lp.returned excess ≠ lp := by
  intro kept
  have given : (lp.returned excess).lineDiscount = lp.lineDiscount := by rw [kept]
  simp only [returned] at given
  omega

/-- The lines are searched from the back: a line gets the excess if none behind it is
discounted. -/
theorem giveBack_cons (excess : Int) (lp : LinePrice) (priced : List LinePrice) :
    giveBack excess (lp :: priced) =
      (if lp.lineDiscount < 0 ∧ ∀ later ∈ priced, 0 ≤ later.lineDiscount then lp.returned excess
        else lp) :: giveBack excess priced := by
  have searched : ∀ front : List LinePrice, giveBackFirst excess (front ++ [lp]) =
      giveBackFirst excess front ++ [if lp.lineDiscount < 0 ∧
        ∀ later ∈ front, 0 ≤ later.lineDiscount then lp.returned excess else lp] := by
    intro front
    induction front with
    | nil =>
      simp only [nil_append, giveBackFirst, not_mem_nil, false_imp_iff, implies_true, and_true]
      split
      · rfl
      · rfl
    | cons first front ih =>
      rw [cons_append, giveBackFirst, giveBackFirst, ih]
      by_cases here : first.lineDiscount < 0
      · simp [here, not_le.mpr here]
      · simp [here, not_lt.mp here]
  rw [giveBack, reverse_cons, searched, reverse_append, giveBack]
  simp

/-- **An excess** goes back to the same line of both carts, if to none that keeps its own. -/
theorem alike_giveBack (positive : 0 < excess) : ∀ {priced others : List LinePrice},
    priced.length = others.length →
      Sides priced others (giveBack excess priced) (giveBack excess others) →
      ((∀ lp ∈ priced, 0 ≤ lp.lineDiscount) ↔ ∀ lp ∈ others, 0 ≤ lp.lineDiscount) ∧
        ∀ k, Alike priced others k → Alike (giveBack excess priced) (giveBack excess others) k := by
  intro priced
  induction priced with
  | nil =>
    intro others length _
    obtain rfl := length_eq_zero_iff.mp length.symm
    exact ⟨Iff.rfl, fun _ alike => alike⟩
  | cons lp priced ih =>
    intro others length sides
    cases others with
    | nil => cases length
    | cons lp' others =>
      rw [giveBack_cons, giveBack_cons] at sides ⊢
      obtain ⟨whole, tail⟩ := ih (Nat.succ.inj length) sides.tail
      have head := sides.head
      simp only [forall_mem_cons, whole] at head ⊢
      by_cases back : ∀ later ∈ others, 0 ≤ later.lineDiscount
      · simp only [eq_true back, and_true] at head ⊢
        have whole' : ∀ line : LinePrice,
            (if line.lineDiscount < 0 then line.returned excess else line) = line →
              ¬ line.lineDiscount < 0 := by
          intro line kept discounted
          rw [if_pos discounted] at kept
          exact returned_ne positive discounted kept
        have same : lp.lineDiscount < 0 ↔ lp'.lineDiscount < 0 := by
          rcases head with bare | ⟨kept, kept'⟩
          · have equal : lp.lineDiscount = lp'.lineDiscount :=
              congrArg (fun line => line.lineDiscount) bare
            rw [equal]
          · exact iff_of_false (whole' lp kept) (whole' lp' kept')
        refine ⟨by rw [← not_lt, ← not_lt, same], fun k alike => ?_⟩
        cases k with
        | zero =>
          have blind : ∀ line : LinePrice, (line.bare.returned excess).bare =
              (line.returned excess).bare := fun _ => rfl
          rw [alike_cons_zero] at alike ⊢
          by_cases discounted : lp.lineDiscount < 0
          · rw [if_pos discounted, if_pos (same.mp discounted), ← blind lp, alike, blind]
          · rwa [if_neg discounted, if_neg (mt same.mpr discounted)]
        | succ k =>
          rw [alike_cons_succ] at alike ⊢
          exact tail k alike
      · simp only [eq_false back, and_false, ↓reduceIte, true_and]
        intro k alike
        cases k with
        | zero => exact alike
        | succ k =>
          rw [alike_cons_succ] at alike ⊢
          exact tail k alike

structure Rule.PerLine (r : Rule) (off : LinePrice → Option (Option Int)) : Prop where
  takes : ∀ subtotal shipping lines, take r subtotal shipping lines = takeEach r shipping off lines
  blind : ∀ lp, off lp.bare = off lp
  offers : ∀ lp, ∃ here, off lp = some here

theorem perLine (regular : r.type.cartScoped = false) (spreads : r.type ≠ .amountOff) :
    ∃ off, r.PerLine off := by
  cases type : r.type with
  | percentOff =>
    refine ⟨percentOff r, fun _ _ _ => ?_, fun _ => rfl, fun _ => ⟨_, rfl⟩⟩
    simp only [take, type]
  | tieredQuantity =>
    refine ⟨tieredQuantity r, fun _ _ _ => ?_, fun _ => rfl, fun lp => ?_⟩
    · simp only [take, type]
    · unfold tieredQuantity
      simp only
      split
      · exact ⟨_, rfl⟩
      · exact ⟨_, rfl⟩
  | amountOff => exact (spreads type).elim
  | buyXGetY =>
    rw [type] at regular
    cases regular
  | bundle =>
    rw [type] at regular
    cases regular
  | freeShipping =>
    rw [type] at regular
    cases regular
  | cartThreshold =>
    rw [type] at regular
    cases regular

theorem Rule.PerLine.takes_some {off : LinePrice → Option (Option Int)} (perLine : r.PerLine off)
    (subtotal shipping : Int) (priced : List LinePrice) :
    ∃ taken, take r subtotal shipping priced = some taken := by
  rw [perLine.takes]
  induction priced with
  | nil => exact ⟨_, rfl⟩
  | cons lp priced ih =>
    obtain ⟨here, offered⟩ := perLine.offers lp
    obtain ⟨taken, took⟩ := ih
    simp only [takeEach, offered, took, bind_eq_bind, bind_some]
    cases here with
    | none => exact ⟨_, rfl⟩
    | some part => exact ⟨_, rfl⟩

theorem ne_bundle (regular : r.type.cartScoped = false) : r.type ≠ .bundle := by
  intro bundle
  rw [bundle] at regular
  cases regular

theorem take_regular (regular : r.type.cartScoped = false) (subtotal shipping : Int)
    (priced : List LinePrice) : ∃ taken, take r subtotal shipping priced = some taken := by
  by_cases spreads : r.type = .amountOff
  · exact ⟨_, by simp only [take, spreads]; rfl⟩
  · obtain ⟨off, perLine⟩ := perLine regular spreads
    exact perLine.takes_some subtotal shipping priced

/-- **What a promotion that is none of baskets takes** from two carts that are alike but for
lines it does not touch. -/
theorem alike_take {shipping' : Int} {taken' : Taken} (regular : r.type.cartScoped = false)
    (took : take r subtotal shipping priced = some taken)
    (took' : take r subtotal shipping' others = some taken')
    (length : priced.length = others.length)
    (sides : Sides priced others taken.lines taken'.lines) :
    taken.discount = taken'.discount ∧
      ∀ k, Alike priced others k → Alike taken.lines taken'.lines k := by
  by_cases spreads : r.type = .amountOff
  · simp only [take, spreads] at took took'
    cases took
    cases took'
    obtain ⟨left, alike⟩ := alike_spread r subtotal (min r.amountOff subtotal) length sides
    exact ⟨by simp only [amountOff, left], alike⟩
  · obtain ⟨off, perLine⟩ := perLine regular spreads
    rw [perLine.takes] at took took'
    exact alike_takeEach perLine.blind took took' length sides

/-- A rule neither touches the line at a place nor hands it the excess of its cap. -/
def Rule.Leaves (r : Rule) (subtotal : Int) (q : Running) (k : Nat) : Prop :=
  ∀ taken, take r subtotal q.shippingTotal q.lines = some taken →
    taken.lines[k]? = q.lines[k]? ∧ (taken.capped r).lines[k]? = q.lines[k]?

theorem Rule.Leaves.record {k : Nat} (leaves : r.Leaves subtotal q k)
    (took : take r subtotal q.shippingTotal q.lines = some taken) :
    (q.record r taken).lines[k]? = q.lines[k]? := by
  obtain ⟨kept, kept'⟩ := leaves taken took
  unfold Running.record
  split
  · exact kept
  · exact kept'

/-- **One turn** of such a promotion. -/
theorem alike_record {p : Running} {taken' : Taken} (regular : r.type.cartScoped = false)
    (took : take r subtotal q.shippingTotal q.lines = some taken)
    (took' : take r subtotal p.shippingTotal p.lines = some taken')
    (length : q.lines.length = p.lines.length)
    (sides : ∀ k, Alike q.lines p.lines k ∨ r.Leaves subtotal q k ∧ r.Leaves subtotal p k) :
    taken.discount = taken'.discount ∧ ∀ k, Alike q.lines p.lines k →
      Alike (q.record r taken).lines (p.record r taken').lines k := by
  obtain ⟨discount, alike⟩ := alike_take regular took took' length fun k =>
    (sides k).imp_right fun leaves => ⟨(leaves.1 taken took).1, (leaves.2 taken' took').1⟩
  refine ⟨discount, fun k same => ?_⟩
  unfold Running.record Taken.capped
  rw [← discount]
  split
  · exact alike k same
  · split
    · next capped =>
        refine (alike_giveBack (by omega) ?_ ?_).2 k (alike k same)
        · rw [← (become_take took).length_eq, ← (become_take took').length_eq, length]
        · intro j
          rcases sides j with same | ⟨leaves, leaves'⟩
          · exact .inl (alike j same)
          · obtain ⟨here, given⟩ := leaves taken took
            obtain ⟨there, given'⟩ := leaves' taken' took'
            unfold Taken.capped at given given'
            rw [if_pos capped, ← here] at given
            rw [← discount, if_pos capped, ← there] at given'
            exact .inr ⟨given, given'⟩
    · exact alike k same

theorem Become.bare_at {k : Nat} (become : Become priced others)
    (totals : others[k]?.map (·.lineTotal) = priced[k]?.map (·.lineTotal)) :
    Alike others priced k := by
  induction become generalizing k with
  | nil => rfl
  | @cons lp lp' priced others becomes _ ih =>
    cases k with
    | zero =>
      have total : lp'.lineTotal = lp.lineTotal := by simpa using totals
      have balance := becomes.balance
      rw [alike_cons_zero]
      simp only [bare, mk.injEq, becomes.sku, becomes.quantity, becomes.unit,
        becomes.subtotal, total, true_and, and_true]
      omega
    | succ k =>
      rw [alike_cons_succ]
      exact ih (by simpa using totals)

theorem Become.forward {k : Nat} (become : Become priced others) (found : priced[k]? = some lp) :
    ∃ lp', others[k]? = some lp' ∧ lp.Becomes lp' := by
  induction become generalizing k with
  | nil => cases found
  | cons becomes _ ih =>
    cases k with
    | zero =>
      cases found
      exact ⟨_, rfl, becomes⟩
    | succ k => exact ih found

theorem promote_untried (untried : q.exclusiveApplied = true ∨
      ∃ reason, matchesRule r lines ctx subtotal now = .error reason) :
    ∃ rejected, promote lines ctx now subtotal q r = some { q with rejected := rejected } := by
  unfold promote
  split
  · exact ⟨_, rfl⟩
  · next opened =>
      cases matched : matchesRule r lines ctx subtotal now with
      | error reason =>
        simp only
        split
        · exact ⟨_, rfl⟩
        · exact ⟨_, rfl⟩
      | ok _ =>
        rcases untried with closed | ⟨reason, failed⟩
        · exact (opened closed).elim
        · cases failed.symm.trans matched

theorem settle_of_bare {lp lp' : LinePrice} (same : lp.bare = lp'.bare) :
    lp.settle.unitEffectivePrice = lp'.settle.unitEffectivePrice := by
  have total : lp.lineTotal = lp'.lineTotal := congrArg (fun line => line.lineTotal) same
  have quantity : lp.quantity = lp'.quantity := congrArg (fun line => line.quantity) same
  simp only [settle, total, quantity]

theorem effective_unscoped (lp : LinePrice) : lp.effective [] = lp.unitEffectivePrice := by
  have shown : lp.onlyCartScoped [] = false := by
    unfold onlyCartScoped
    cases lp.appliedPromotionIds with
    | nil => rfl
    | cons id ids => simp
  rw [effective, shown]
  rfl

theorem cartScopedIds_eq_nil {applied : List AppliedPromotion}
    (booked : ∀ a ∈ applied, a.type.cartScoped = false) : cartScopedIds applied = [] := by
  unfold cartScopedIds
  rw [filter_eq_nil_iff.mpr fun a member => by simp [booked a member]]
  rfl

end Souq.Pricing
