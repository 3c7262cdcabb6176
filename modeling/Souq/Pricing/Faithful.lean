import Mathlib.Data.List.Forall2
import Souq.Pricing.Strict

/-!
# What the loader makes of numbers

The numeric fields of a loaded rule set against the document. A fraction is truncated, as
the accessor says it should be. A number that lies in its field's type is the number
loaded, and a field that is absent has its default.
-/

namespace Souq.Pricing

open JsonGrammar List RuleSet Prod

open Souq.Pricing.Parser (Returned SameAscii)

def int32 (n : Int) : Prop := -2 ^ 31 ≤ n ∧ n < 2 ^ 31

def int64 (n : Int) : Prop := -2 ^ 63 ≤ n ∧ n < 2 ^ 63

instance : DecidablePred int32 := fun n => inferInstanceAs (Decidable (-2 ^ 31 ≤ n ∧ n < 2 ^ 31))

/-- How the number of a field is read, by the field's type and default, from what the
document has there. -/
abbrev Reading := (Int → Prop) → Int → Tree → Int → Prop

def exactly : Reading := fun _ default tree n => tree = .null ∧ n = default ∨ tree = .integer n

def towardZero (d : Rat) : Int := d.num.tdiv d.den

/-- The number the document has, without its fraction, if that is of the field's type. -/
def truncated (strtod : List Char → Rat) : Reading := fun fits default tree n =>
  (tree = .null → n = default) ∧ (∀ m, tree = .integer m → fits m → n = m) ∧
    ∀ spelling, tree = .decimal spelling → fits (towardZero (strtod spelling)) →
      n = towardZero (strtod spelling)

section Mirrors

variable (reads : Reading) (tree : Tree)

structure TaxRule.Mirrors (tax : TaxRule) : Prop where
  rate : reads int32 0 (tree.field "rateBasisPoints".toList) tax.rate

structure Tier.Mirrors (tier : Tier) : Prop where
  minQuantity : reads int32 0 (tree.field "minQuantity".toList) tier.minQuantity
  discountBp : reads int32 0 (tree.field "discountBasisPoints".toList) tier.discountBp

structure Condition.Mirrors (condition : Condition) : Prop where
  numeric : reads int64 0 (tree.field "numeric".toList) condition.numeric

/-- The rule has the numbers of the document. -/
structure Rule.Mirrors (rule : Rule) : Prop where
  percentOff : reads int32 0 (tree.field "percentOffBasisPoints".toList) rule.percentOff
  amountOff : reads int64 0 (tree.field "amountOff".toList) rule.amountOff
  buyQuantity : reads int32 0 (tree.field "buyQuantity".toList) rule.buyQuantity
  getQuantity : reads int32 0 (tree.field "getQuantity".toList) rule.getQuantity
  getDiscountBp : reads int32 10000 (tree.field "getDiscountBasisPoints".toList) rule.getDiscountBp
  priority : reads int32 100 (tree.field "priority".toList) rule.priority
  maxDiscount : reads int64 0 (tree.field "maxDiscount".toList) rule.maxDiscount
  validFrom : reads int64 0 (tree.field "validFrom".toList) rule.validFrom
  validUntil : reads int64 0 (tree.field "validUntil".toList) rule.validUntil
  tiers : List.Forall₂ (Tier.Mirrors reads) (tree.field "tiers".toList).items rule.tiers
  conditions : List.Forall₂ (Condition.Mirrors reads) (tree.field "conditions".toList).items
    rule.conditions

/-- The rules and taxes are those of the document. -/
structure RuleSet.Mirrors (set : RuleSet) : Prop where
  taxes : List.Forall₂ (TaxRule.Mirrors reads) (tree.field "taxes".toList).items set.taxes
  rules : ∃ rules, List.Forall₂ (Rule.Mirrors reads) (tree.field "rules".toList).items rules ∧
    set.rules = rules.insertionSort Rule.before

end Mirrors

variable {strtod : List Char → Rat} {tree : Tree} {v : Value}

theorem lookup_returned {key : String} (ascii : ∀ c ∈ key.toList, c.toNat < 0x80)
    {members : List (List Char × Tree)} {fields : List (String × Value)}
    (returned : List.Forall₂ (fun member field => SameAscii field.1.toList member.1 ∧
      Returned strtod member.2 field.2) members fields) :
    Option.Rel (Returned strtod)
      ((members.filter fun member => member.1 = key.toList).getLast?.map snd)
      (fields.reverse.lookup key) := by
  induction returned with
  | nil => exact .none
  | @cons member field members fields first _ ih =>
    obtain ⟨same, returned⟩ := first
    have named : field.1 = key ↔ member.1 = key.toList := by
      rw [← same.eq_iff ascii, String.toList_inj]
    rw [reverse_cons, lookup_append, filter_cons]
    generalize fields.reverse.lookup key = found at ih ⊢
    by_cases here : member.1 = key.toList
    · rw [if_pos (decide_eq_true here), getLast?_cons]
      obtain rfl := named.mpr here
      rw [lookup_cons_self]
      generalize (members.filter fun member => member.1 = field.1.toList).getLast? = last at ih ⊢
      cases last with
      | none =>
        cases ih
        exact .some returned
      | some last =>
        cases ih with
        | some returned => exact .some returned
    · have other : (key == field.1) = false := by
        rw [beq_eq_false_iff_ne]
        exact fun same => here (named.mp same.symm)
      rw [if_neg (by simpa using here), lookup_cons, other, lookup_nil, Option.or_none]
      exact ih

theorem forall₂_unmap {α β γ δ : Type} {R : α → γ → Prop} {S : β → δ → Prop} :
    ∀ {members : List (α × β)} {fields : List (γ × δ)},
      List.Forall₂ R (members.map fst) (fields.map fst) →
      List.Forall₂ S (members.map snd) (fields.map snd) →
      List.Forall₂ (fun member field => R member.1 field.1 ∧ S member.2 field.2) members fields
  | [], [], _, _ => .nil
  | _ :: _, _ :: _, .cons name names, .cons value values =>
    .cons ⟨name, value⟩ (forall₂_unmap names values)

theorem get_returned (returned : Returned strtod tree v) {key : String}
    (ascii : ∀ c ∈ key.toList, c.toNat < 0x80) :
    Returned strtod (tree.field key.toList) (v.get key) := by
  cases returned with
  | @object members fields names each =>
    have found := lookup_returned ascii (forall₂_unmap names each)
    rw [Tree.field, Value.get]
    generalize (members.filter fun member => member.1 = key.toList).getLast?.map snd = last
      at found ⊢
    generalize fields.reverse.lookup key = v at found ⊢
    cases found with
    | none => exact .null
    | some returned => exact returned
  | null | bool | integer | decimal | string | array => exact .null

theorem arr_returned (returned : Returned strtod tree v) :
    List.Forall₂ (Returned strtod) tree.items v.arr := by
  cases returned with
  | array each => exact each
  | null | bool | integer | decimal | string | object => exact .nil

theorem num_returned (returned : Returned strtod tree v) (default : Int) :
    truncated strtod int64 default tree (v.num default) := by
  refine ⟨?_, ?_, ?_⟩
  · rintro rfl
    cases returned
    rfl
  · rintro m rfl fits
    cases returned
    unfold int64 at fits
    rw [Value.num]
    omega
  · rintro spelling rfl _
    cases returned
    rfl

theorem narrow_returned (returned : Returned strtod tree v) {default : Int} (own : int32 default) :
    truncated strtod int32 default tree (narrow (v.num default)) := by
  have kept : ∀ m, int32 m → narrow m = m := by
    intro m fits
    unfold int32 at fits
    apply Int.bmod_eq_of_le <;> omega
  have wide : ∀ m, int32 m → int64 m := by
    intro m fits
    unfold int32 at fits
    unfold int64
    omega
  obtain ⟨absent, written, decimal⟩ := num_returned returned default
  refine ⟨fun null => ?_, fun m here fits => ?_, fun spelling here fits => ?_⟩
  · rw [absent null, kept default own]
  · rw [written m here (wide m fits), kept m fits]
  · rw [decimal spelling here (wide _ fits), kept _ fits]

/-- The records of a list are made one by one from what is returned for its elements. -/
theorem mapped_mirrors {α : Type} {load : Value → Except String α} {mirrors : Tree → α → Prop}
    {items : List Tree} {vs : List Value} {results : List α}
    (returned : List.Forall₂ (Returned strtod) items vs) (mapped : vs.mapM load = .ok results)
    (each : ∀ tree v result, Returned strtod tree v → load v = .ok result → mirrors tree result) :
    List.Forall₂ mirrors items results := by
  have made := forall₂_of_mapM mapped
  clear mapped
  induction returned generalizing results with
  | nil =>
    cases made
    exact .nil
  | cons first _ ih =>
    cases made with
    | cons loaded others => exact .cons (each _ _ _ first loaded) (ih others)

theorem loadTax_mirrors {tax : TaxRule} (returned : Returned strtod tree v)
    (loaded : loadTax v = .ok tax) : tax.Mirrors (truncated strtod) tree := by
  unfold loadTax at loaded
  simp only at loaded
  split at loaded
  · cases loaded
  · split at loaded
    · cases loaded
    · cases loaded
      exact ⟨narrow_returned (get_returned returned (by simp)) (by decide)⟩

theorem loadTier_mirrors (returned : Returned strtod tree v) :
    (loadTier v).Mirrors (truncated strtod) tree where
  minQuantity := narrow_returned (get_returned returned (by simp)) (by decide)
  discountBp := narrow_returned (get_returned returned (by simp)) (by decide)

theorem loadCondition_mirrors {rule : String} {condition : Condition}
    (returned : Returned strtod tree v) (loaded : loadCondition rule v = .ok condition) :
    condition.Mirrors (truncated strtod) tree := by
  unfold loadCondition at loaded
  split at loaded
  · cases loaded
    exact ⟨num_returned (get_returned returned (by simp)) 0⟩
  · cases loaded

theorem loadRule_mirrors {rule : Rule} (returned : Returned strtod tree v)
    (loaded : loadRule v = .ok rule) : rule.Mirrors (truncated strtod) tree := by
  obtain ⟨type, conditions, -, made, rfl⟩ := loadRule_made loaded
  have narrowed : ∀ {key : String} {default : Int}, (∀ c ∈ key.toList, c.toNat < 0x80) →
      int32 default → truncated strtod int32 default (tree.field key.toList)
        (narrow ((v.get key).num default)) :=
    fun ascii own => narrow_returned (get_returned returned ascii) own
  have wide : ∀ {key : String}, (∀ c ∈ key.toList, c.toNat < 0x80) →
      truncated strtod int64 0 (tree.field key.toList) ((v.get key).num 0) :=
    fun ascii => num_returned (get_returned returned ascii) 0
  have tiers := arr_returned (@get_returned _ _ _ returned "tiers" (by simp))
  have listed := arr_returned (@get_returned _ _ _ returned "conditions" (by simp))
  refine
    { percentOff := narrowed (by simp) (by decide)
      amountOff := wide (by simp)
      buyQuantity := narrowed (by simp) (by decide)
      getQuantity := narrowed (by simp) (by decide)
      getDiscountBp := narrowed (by simp) (by decide)
      priority := narrowed (by simp) (by decide)
      maxDiscount := wide (by simp)
      validFrom := wide (by simp)
      validUntil := wide (by simp)
      tiers := ?_
      conditions := ?_ }
  · exact forall₂_map_right_iff.mpr (tiers.imp fun _ _ returned => loadTier_mirrors returned)
  · exact mapped_mirrors listed made fun _ _ _ returned loaded =>
      loadCondition_mirrors returned loaded

/-- **The numbers of a file are the numbers loaded.** In a JSON text that is accepted every
number that lies in its field's type is loaded as it is, a fraction truncated toward zero,
and every absent field as its default. -/
theorem numbers_loaded (strtod : List Char → Rat) (text : List Char) (tree : Tree) (set : RuleSet)
    (document : Document full text tree) (loaded : fromFile strtod text = .ok set) :
    set.Mirrors (truncated strtod) tree := by
  obtain ⟨v, read, -, -, returned⟩ := Parser.parse_document strtod document
  rw [fromFile, read] at loaded
  obtain ⟨taxes, rules, taxed, ruled, rfl⟩ := fromJson_made loaded
  have taxed' := arr_returned (@get_returned _ _ _ returned "taxes" (by simp))
  have ruled' := arr_returned (@get_returned _ _ _ returned "rules" (by simp))
  refine ⟨?_, rules, ?_, rfl⟩
  · exact mapped_mirrors taxed' taxed fun _ _ _ => loadTax_mirrors
  · exact mapped_mirrors ruled' ruled fun _ _ _ => loadRule_mirrors

theorem content_plain {scope : Scope} {text : List Char}
    (plain : ∀ c ∈ text, 0x20 ≤ c.toNat ∧ c ≠ '"' ∧ c ≠ '\\' ∧ c.toNat < 0x80) :
    Content scope text text := by
  induction text with
  | nil => exact .nil
  | cons c text ih =>
    obtain ⟨⟨visible, quote, escape, ascii⟩, others⟩ := forall_mem_cons.mp plain
    have itself : encode c.toNat = [c] := by
      rw [encode, if_pos ascii, Char.ofNat_toNat]
    have piece : Piece scope (encode c.toNat) (encode c.toNat) := by
      refine .plain visible ⟨fun same => quote ?_, fun same => escape ?_⟩ (.inl (by omega))
      · exact Char.toNat_inj.mp same
      · exact Char.toNat_inj.mp same
    rw [itself] at piece
    exact .cons piece (ih others)

/-- A text written without blanks. -/
structure Plain (item : Item) : Prop where
  before : item.before = []
  after : item.after = []
  text : Text full item.text item.tree

theorem Plain.blank {item : Item} (plain : Plain item) : item.Blank where
  before := by
    rw [plain.before]
    exact fun _ member => (not_mem_nil member).elim
  after := by
    rw [plain.after]
    exact fun _ member => (not_mem_nil member).elim

def plainString (s : String) : Item := ⟨[], '"' :: (s.toList ++ ['"']), [], .string s.toList⟩

def plainArray (items : List Item) : Item :=
  ⟨[], '[' :: (separated (items.map Item.padded) ++ [']']), [], .array (items.map Item.tree)⟩

def plainMember (field : String × Item) : Member :=
  ⟨[], field.1.toList, field.1.toList, [], field.2⟩

def plainObject (fields : List (String × Item)) : Item :=
  ⟨[], '{' :: (separated ((fields.map plainMember).map Member.padded) ++ ['}']), [],
    .object ((fields.map plainMember).map Member.tree)⟩

def fractionalRate : Item := plainObject
  [("countryCode", plainString "EG"),
    ("rateBasisPoints", ⟨[], "1400.5".toList, [], .decimal "1400.5".toList⟩)]

def fractionalTax : Item :=
  plainObject [("version", plainString "v1"), ("taxes", plainArray [fractionalRate])]

theorem plainString_plain {s : String}
    (plain : ∀ c ∈ s.toList, 0x20 ≤ c.toNat ∧ c ≠ '"' ∧ c ≠ '\\' ∧ c.toNat < 0x80) :
    Plain (plainString s) :=
  ⟨rfl, rfl, .string (content_plain plain)⟩

theorem plainArray_plain {items : List Item} (nonempty : items ≠ [])
    (each : ∀ item ∈ items, Plain item) : Plain (plainArray items) :=
  ⟨rfl, rfl, .array nonempty (fun item member => (each item member).blank)
    fun item member => (each item member).text⟩

theorem plainObject_plain {fields : List (String × Item)} (nonempty : fields ≠ [])
    (each : ∀ field ∈ fields, (∀ c ∈ field.1.toList, 0x20 ≤ c.toNat ∧ c ≠ '"' ∧ c ≠ '\\' ∧
      c.toNat < 0x80) ∧ Plain field.2) : Plain (plainObject fields) := by
  refine ⟨rfl, rfl, .object (by simpa using nonempty) ?_ ?_ ?_⟩
  · intro member listed
    obtain ⟨field, member', rfl⟩ := mem_map.mp listed
    exact ⟨fun _ none => (not_mem_nil none).elim, fun _ none => (not_mem_nil none).elim,
      (each field member').2.blank⟩
  · intro member listed
    obtain ⟨field, member', rfl⟩ := mem_map.mp listed
    exact content_plain (each field member').1
  · intro member listed
    obtain ⟨field, member', rfl⟩ := mem_map.mp listed
    exact (each field member').2.text

theorem fractionalTax_document : Document full fractionalTax.text fractionalTax.tree := by
  have digits : Digits "1400".toList := ⟨by simp, by simp⟩
  have rate : Decimal "1400.5".toList := by
    have whole : Whole "1400".toList := ⟨digits, by simp⟩
    have fraction : Fraction ('.' :: "5".toList) := .some ⟨by simp, by simp⟩
    have number := Decimal.mk (.positive whole) fraction .none (cons_ne_nil _ _)
    simpa using number
  have number : Plain ⟨[], "1400.5".toList, [], .decimal "1400.5".toList⟩ :=
    ⟨rfl, rfl, .decimal rate⟩
  have tax : Plain fractionalRate := by
    apply plainObject_plain (cons_ne_nil _ _)
    rw [forall_mem_cons, forall_mem_singleton]
    exact ⟨⟨by simp, plainString_plain (by simp)⟩, by simp, number⟩
  have whole : Plain fractionalTax := by
    apply plainObject_plain (cons_ne_nil _ _)
    rw [forall_mem_cons, forall_mem_singleton]
    refine ⟨⟨by simp, plainString_plain (by simp)⟩, by simp, ?_⟩
    exact plainArray_plain (cons_ne_nil _ _) (forall_mem_singleton.mpr tax)
  exact ⟨⟨[], fractionalTax.text, [], fractionalTax.tree⟩, by simp [Item.padded], rfl,
    ⟨whole.blank.before, whole.blank.after⟩, whole.text⟩

theorem fractionalTax_accepted :
    ∃ set, fromFile (fun _ => 2801 / 2) fractionalTax.text = .ok set := by
  have accepted : (fromFile (fun _ => 2801 / 2) fractionalTax.text).isOk = true := by
    decide +kernel
  cases loaded : fromFile (fun _ => 2801 / 2) fractionalTax.text with
  | error e =>
    rw [loaded] at accepted
    cases accepted
  | ok set => exact ⟨set, rfl⟩

theorem fractionalTax_loaded : ∃ set,
    fromFile (fun _ => 2801 / 2) fractionalTax.text = .ok set ∧
      set.Mirrors (truncated fun _ => 2801 / 2) fractionalTax.tree := by
  obtain ⟨set, loaded⟩ := fractionalTax_accepted
  exact ⟨set, loaded, numbers_loaded _ _ _ _ fractionalTax_document loaded⟩

/-- A file that writes no integer for a rate is not refused. -/
theorem fraction_accepted :
    ¬ ∀ (strtod : List Char → Rat) (text : List Char) (tree : Tree) (set : RuleSet),
      Document full text tree → fromFile strtod text = .ok set →
        set.Mirrors exactly tree := by
  intro faithful
  obtain ⟨set, loaded⟩ := fractionalTax_accepted
  have taxes := (faithful _ _ _ _ fractionalTax_document loaded).taxes
  have rate : fractionalRate.tree.field "rateBasisPoints".toList = .decimal "1400.5".toList := by
    simp [fractionalRate, plainObject, plainMember, Member.tree, Tree.field]
  have listed : (fractionalTax.tree.field "taxes".toList).items = [fractionalRate.tree] := by
    simp [fractionalTax, plainObject, plainArray, plainMember, Member.tree, Tree.field, Tree.items]
  rw [listed] at taxes
  obtain ⟨tax, _, first, -, -⟩ := forall₂_cons_left_iff.mp taxes
  rcases first.rate with ⟨absent, -⟩ | written
  · rw [rate] at absent
    cases absent
  · rw [rate] at written
    cases written

end Souq.Pricing
