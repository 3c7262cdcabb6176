import Mathlib.Data.Rat.Defs
import Souq.Pricing.Rules

/-!
# Loading a rule set

What pricing-engine makes of a parsed rules file: the accessors of a JSON value
with their fallbacks, the mapping of every field, and the checks that refuse a
file. A field that is absent or of another type reads as its fallback, a
fraction is truncated and a 32-bit field is narrowed, as in the source.
-/

namespace Souq.Pricing

open List

/-- A parsed JSON value. A double is the number it denotes. -/
inductive Value where
  | null
  | bool (b : Bool)
  | int (n : Int)
  | double (d : Rat)
  | string (s : String)
  | array (items : List Value)
  | object (fields : List (String × Value))

namespace Value

def isObject : Value → Bool
  | .object _ => true
  | _ => false

def str (fallback : String) : Value → String
  | .string s => s
  | _ => fallback

def num (fallback : Int) : Value → Int
  | .int n => n
  | .double d => d.num.tdiv d.den
  | _ => fallback

def boolean (fallback : Bool) : Value → Bool
  | .bool b => b
  | _ => fallback

/-- The elements of an array, none of anything else. -/
def arr : Value → List Value
  | .array items => items
  | _ => []

/-- Field lookup that returns null for an absent field. -/
def get (key : String) : Value → Value
  | .object fields => (fields.lookup key).getD .null
  | _ => .null

end Value

/-- `static_cast` of a 64-bit integer to 32 bits. -/
def narrow (n : Int) : Int := n.bmod (2 ^ 32)

def parseType : String → Option PromotionType
  | "PERCENT_OFF" => some .percentOff
  | "AMOUNT_OFF" => some .amountOff
  | "BUY_X_GET_Y" => some .buyXGetY
  | "TIERED_QUANTITY" => some .tieredQuantity
  | "BUNDLE" => some .bundle
  | "FREE_SHIPPING" => some .freeShipping
  | "CART_THRESHOLD" => some .cartThreshold
  | _ => none

def parseField : String → Option Field
  | "CART_SUBTOTAL" => some .cartSubtotal
  | "LINE_QUANTITY" => some .lineQuantity
  | "CART_QUANTITY" => some .cartQuantity
  | "BRAND" => some .brand
  | "CATEGORY_PATH" => some .categoryPath
  | "SKU" => some .sku
  | "SEGMENT" => some .segment
  | "CHANNEL" => some .channel
  | "COUNTRY_CODE" => some .countryCode
  | _ => none

def parseOp : String → Option Op
  | "GTE" => some .gte
  | "LTE" => some .lte
  | "EQ" => some .eq
  | "IN" => some .isIn
  | "NOT_IN" => some .notIn
  | _ => none

def loadTax (t : Value) : Except String TaxRule :=
  let tax : TaxRule :=
    { countryCode := (t.get "countryCode").str ""
      name := (t.get "name").str "Tax"
      jurisdiction := (t.get "jurisdiction").str ""
      rate := narrow ((t.get "rateBasisPoints").num 0)
      inclusive := (t.get "inclusive").boolean true }
  if tax.countryCode.length ≠ 2 then
    .error ("tax entry has an invalid countryCode: " ++ tax.countryCode)
  else if tax.rate < 0 ∨ tax.rate > 10000 then
    .error ("tax rate for " ++ tax.countryCode ++ " is out of range (0-10000 bp)")
  else .ok tax

def loadTier (t : Value) : Tier :=
  ⟨narrow ((t.get "minQuantity").num 0), narrow ((t.get "discountBasisPoints").num 0)⟩

def loadCondition (rule : String) (c : Value) : Except String Condition :=
  match parseField ((c.get "field").str ""), parseOp ((c.get "op").str "") with
  | some field, some op =>
    .ok ⟨field, op, (c.get "numeric").num 0, (c.get "values").arr.map (Value.str "")⟩
  | _, _ => .error ("rule " ++ rule ++ " has an unknown condition field or operator")

def ruleOf (id : String) (type : PromotionType) (r : Value) : Rule where
  id := id
  name := (r.get "name").str id
  type := type
  percentOff := narrow ((r.get "percentOffBasisPoints").num 0)
  amountOff := (r.get "amountOff").num 0
  buyQuantity := narrow ((r.get "buyQuantity").num 0)
  getQuantity := narrow ((r.get "getQuantity").num 0)
  getDiscountBp := narrow ((r.get "getDiscountBasisPoints").num 10000)
  tiers := (r.get "tiers").arr.map loadTier
  couponCode := (r.get "couponCode").str ""
  conditions := []
  priority := narrow ((r.get "priority").num 100)
  exclusive := (r.get "exclusive").boolean false
  maxDiscount := (r.get "maxDiscount").num 0
  validFrom := (r.get "validFrom").num 0
  validUntil := (r.get "validUntil").num 0
  active := (r.get "active").boolean true

def Rule.check (rule : Rule) : Except String Unit :=
  if rule.type = .percentOff ∧ rule.maxDiscount = 0 then
    .error ("rule " ++ rule.id ++ " is a percentage discount with no maxDiscount; " ++
      "an uncapped percentage on a large cart is unbounded loss")
  else if rule.percentOff < 0 ∨ rule.percentOff > 10000 then
    .error ("rule " ++ rule.id ++ " has percentOffBasisPoints outside 0-10000")
  else if rule.validFrom ≠ 0 ∧ rule.validUntil ≠ 0 ∧ rule.validUntil ≤ rule.validFrom then
    .error ("rule " ++ rule.id ++ " expires before it starts")
  else .ok ()

def loadRule (r : Value) : Except String Rule :=
  let id := (r.get "id").str ""
  if id = "" then .error "every rule needs an id"
  else
    match parseType ((r.get "type").str "") with
    | none => .error ("rule " ++ id ++ " has an unknown type: " ++ (r.get "type").str "")
    | some type => do
      let rule := ruleOf id type r
      rule.check
      let conditions ← (r.get "conditions").arr.mapM (loadCondition id)
      return { rule with conditions := conditions }

/-- Loads a rule set from a parsed document, or refuses it. -/
def RuleSet.fromJson (root : Value) : Except String RuleSet :=
  if !root.isObject then .error "the top level must be an object"
  else
    let version := (root.get "version").str ""
    if version = "" then
      .error "`version` is required — orders record it so they can be re-priced"
    else do
      let taxes ← (root.get "taxes").arr.mapM loadTax
      let rules ← (root.get "rules").arr.mapM loadRule
      return .new rules taxes version

/-- What the loader checks. -/
structure RuleSet.Loaded (set : RuleSet) : Prop where
  percent : ∀ r ∈ set.rules, 0 ≤ r.percentOff ∧ r.percentOff ≤ 10000
  rate : ∀ t ∈ set.taxes, 0 ≤ t.rate ∧ t.rate ≤ 10000

theorem loadTax_rate {t : Value} {tax : TaxRule} (loaded : loadTax t = .ok tax) :
    0 ≤ tax.rate ∧ tax.rate ≤ 10000 := by
  unfold loadTax at loaded
  simp only at loaded
  split at loaded
  · cases loaded
  · split at loaded
    · cases loaded
    · next inRange =>
        cases loaded
        simp only
        constructor <;> omega

theorem Rule.check_percent {rule : Rule} (checked : rule.check = .ok ()) :
    0 ≤ rule.percentOff ∧ rule.percentOff ≤ 10000 := by
  unfold Rule.check at checked
  split at checked
  · cases checked
  · split at checked
    · cases checked
    · next inRange => constructor <;> omega

theorem loadRule_made {r : Value} {rule : Rule} (loaded : loadRule r = .ok rule) :
    ∃ type conditions, (ruleOf ((r.get "id").str "") type r).check = .ok () ∧
      (r.get "conditions").arr.mapM (loadCondition ((r.get "id").str "")) = .ok conditions ∧
      rule = { ruleOf ((r.get "id").str "") type r with conditions := conditions } := by
  unfold loadRule at loaded
  simp only at loaded
  split at loaded
  · cases loaded
  · split at loaded
    · cases loaded
    · next type _ =>
        cases checked : (ruleOf ((r.get "id").str "") type r).check with
        | error e =>
          rw [checked] at loaded
          cases loaded
        | ok _ =>
          rw [checked] at loaded
          cases read : (r.get "conditions").arr.mapM (loadCondition ((r.get "id").str "")) with
          | error e =>
            simp only [bind, Except.bind, read] at loaded
            cases loaded
          | ok conditions =>
            simp only [bind, Except.bind, read, pure, Except.pure, Except.ok.injEq] at loaded
            exact ⟨type, conditions, checked, rfl, loaded.symm⟩

theorem loadRule_percent {r : Value} {rule : Rule} (loaded : loadRule r = .ok rule) :
    0 ≤ rule.percentOff ∧ rule.percentOff ≤ 10000 := by
  obtain ⟨type, conditions, checked, -, rfl⟩ := loadRule_made loaded
  exact Rule.check_percent checked

theorem forall₂_of_mapM {α β ε : Type} {f : α → Except ε β} :
    ∀ {items : List α} {results : List β}, items.mapM f = .ok results →
      List.Forall₂ (fun a b => f a = .ok b) items results := by
  intro items
  induction items with
  | nil =>
    intro results mapped
    simp only [mapM_nil, pure, Except.pure, Except.ok.injEq] at mapped
    subst mapped
    exact .nil
  | cons a items ih =>
    intro results mapped
    rw [mapM_cons] at mapped
    cases first : f a with
    | error e => simp [first, bind, Except.bind] at mapped
    | ok b =>
      cases others : items.mapM f with
      | error e => simp [first, others, bind, Except.bind] at mapped
      | ok rest =>
        simp only [first, others, bind, Except.bind, pure, Except.pure, Except.ok.injEq] at mapped
        subst mapped
        exact .cons first (ih others)

theorem exists_of_mem_mapM {α β ε : Type} {f : α → Except ε β} {items : List α}
    {results : List β} (mapped : items.mapM f = .ok results) :
    ∀ b ∈ results, ∃ a ∈ items, f a = .ok b := by
  have each := forall₂_of_mapM mapped
  clear mapped
  induction each with
  | nil => exact nofun
  | @cons a b items results made _ ih =>
    intro c member
    rcases mem_cons.mp member with rfl | later
    · exact ⟨a, mem_cons_self, made⟩
    · obtain ⟨source, mem, made⟩ := ih c later
      exact ⟨source, mem_cons_of_mem _ mem, made⟩

theorem RuleSet.fromJson_made {root : Value} {set : RuleSet} (loaded : fromJson root = .ok set) :
    ∃ taxes rules, (root.get "taxes").arr.mapM loadTax = .ok taxes ∧
      (root.get "rules").arr.mapM loadRule = .ok rules ∧
      set = .new rules taxes ((root.get "version").str "") := by
  unfold RuleSet.fromJson at loaded
  split at loaded
  · cases loaded
  · simp only at loaded
    split at loaded
    · cases loaded
    · cases taxed : (root.get "taxes").arr.mapM loadTax with
      | error e => simp [taxed, bind, Except.bind] at loaded
      | ok taxes =>
        cases ruled : (root.get "rules").arr.mapM loadRule with
        | error e => simp [taxed, ruled, bind, Except.bind] at loaded
        | ok rules =>
          simp only [taxed, ruled, bind, Except.bind, pure, Except.pure, Except.ok.injEq] at loaded
          exact ⟨taxes, rules, rfl, rfl, loaded.symm⟩

theorem RuleSet.fromJson_loaded {root : Value} {set : RuleSet} (loaded : fromJson root = .ok set) :
    set.Loaded := by
  obtain ⟨taxes, rules, taxed, ruled, rfl⟩ := fromJson_made loaded
  refine ⟨fun r member => ?_, fun t member => ?_⟩
  · have original : r ∈ rules := (mem_insertionSort _).mp member
    obtain ⟨source, _, made⟩ := exists_of_mem_mapM ruled r original
    exact loadRule_percent made
  · obtain ⟨source, _, made⟩ := exists_of_mem_mapM taxed t member
    exact loadTax_rate made

end Souq.Pricing
