import Souq.Paymob.Signature

/-!
# The two shapes of a callback

Paymob posts a transaction as nested JSON and sends the same fields to the customer's browser
as a query with dotted names. Every signed field reads the same in both shapes, and so do the
kind, the success and the amount. The merchant reference, the decline code and the message are
looked up inside the nested objects only, which a query does not have: `shapes_agree_iff` says
when that makes no difference.
-/

namespace Souq.Paymob

open List Adapter Option String

open Payments (CallbackKind ReasonCode)

/-- A value that a query can carry. -/
inductive Scalar where
  | null
  | bool (b : Bool)
  | string (s : String)
  | int (n : Int) (small : n.natAbs < 2 ^ 53)

/-- What `encoding/json` decodes a value to. -/
def Scalar.any : Scalar → Any
  | .null => .null
  | .bool b => .bool b
  | .string s => .string s
  | .int n _ => .float64 n

/-- How a value is spelled in a query, where a null is omitted. -/
def Scalar.spell (capital : Bool) : Scalar → Option String
  | .null => none
  | .bool true => some (if capital then "True" else "true")
  | .bool false => some (if capital then "False" else "false")
  | .string s => some s
  | .int n _ => some (toString n)

/-- The fields of a transaction, and those of its three nested objects. -/
structure Transaction where
  field : String → Option Scalar
  order : String → Option Scalar
  sourceData : String → Option Scalar
  data : String → Option Scalar

namespace Transaction

/-- The `obj` of a posted callback. No field of a transaction has a point in its name. -/
def body (t : Transaction) : Flat := fun key =>
  if key = "order" then some (.object fun inner => (t.order inner).map Scalar.any)
  else if key = "source_data" then some (.object fun inner => (t.sourceData inner).map Scalar.any)
  else if key = "data" then some (.object fun inner => (t.data inner).map Scalar.any)
  else if '.' ∈ key.toList then none
  else (t.field key).map Scalar.any

def at' (t : Transaction) (name : String) : Option Scalar :=
  match (splitAtPoints name.toList).map ofList with
  | [key] => if key = "order" ∨ key = "source_data" ∨ key = "data" then none else t.field key
  | [outer, inner] =>
    if outer = "order" then t.order inner
    else if outer = "source_data" then t.sourceData inner
    else if outer = "data" then t.data inner
    else none
  | _ => none

/-- The query of a redirect presents a transaction, next to its HMAC. -/
def Presents (t : Transaction) (query : List (String × String)) : Prop :=
  ∀ name, name ≠ "hmac" → ∃ capital, query.lookup name = (t.at' name).bind (Scalar.spell capital)

end Transaction

namespace Adapter

variable {n : Int} {name key : String}

theorem toInt64_intCast (small : n.natAbs < 2 ^ 53) : toInt64 n = n := by
  have whole : (n : Rat).num.tdiv (n : Rat).den = n := by simp
  unfold toInt64
  rw [whole, if_pos (by omega)]

theorem parseUint_digits {digits : List Char} (all : ∀ c ∈ digits, c.isDigit = true) :
    ∀ n, Nat.ofDigitChars 10 digits n < 2 ^ 64 →
      parseUint n digits = some (Nat.ofDigitChars 10 digits n) := by
  induction digits with
  | nil => exact fun _ _ => rfl
  | cons c digits ih =>
    intro n fits
    rw [Nat.ofDigitChars_cons] at fits ⊢
    have later := ih (fun d member => all d (mem_cons_of_mem c member)) _ fits
    have grows : 10 * n + (c.toNat - 48) ≤
        Nat.ofDigitChars 10 digits (10 * n + (c.toNat - '0'.toNat)) := by
      rw [Nat.ofDigitChars_eq_ofDigitChars_zero]
      exact Nat.le_add_right_of_le (Nat.le_mul_of_pos_left _ (Nat.pow_pos (by decide)))
    unfold parseUint
    rw [if_pos (all c mem_cons_self), if_neg (by omega)]
    exact later

theorem natural_repr {n largest : Nat} (small : n < 2 ^ 53) (fits : n ≤ largest) :
    parseInt.natural n.repr.toList largest = n := by
  have digits : n.repr.toList = Nat.toDigits 10 n := by rw [Nat.repr, String.toList_ofList]
  have some' : Nat.toDigits 10 n ≠ [] := Nat.toDigits_ne_nil
  have read : parseUint 0 (Nat.toDigits 10 n) = some n := by
    have value : Nat.ofDigitChars 10 (Nat.toDigits 10 n) 0 = n := Nat.ofDigitChars_ten_toDigits
    rw [parseUint_digits, value]
    · exact fun c member => Nat.isDigit_of_mem_toDigits (by decide) (by decide) member
    · rw [value]
      omega
  unfold parseInt.natural
  rw [digits, if_neg some', read, getD_some]
  omega

theorem parseInt_toString (small : n.natAbs < 2 ^ 53) : parseInt (toString n).toList = n := by
  cases n with
  | ofNat n =>
    have unsigned : ∀ c rest, n.repr.toList = c :: rest → c.isDigit = true := by
      intro c rest starts
      exact digit_of_mem_repr (starts ▸ mem_cons_self)
    have bounded : n < 2 ^ 53 := small
    change parseInt n.repr.toList = n
    unfold parseInt
    split
    · next starts => exact absurd (unsigned _ _ starts) (by decide)
    · next starts => exact absurd (unsigned _ _ starts) (by decide)
    · exact natural_repr bounded (by omega)
  | negSucc n =>
    change parseInt ("-" ++ (n + 1).repr).toList = Int.negSucc n
    rw [toList_append]
    change -parseInt.natural (n + 1).repr.toList (2 ^ 63) = Int.negSucc n
    have bounded : n + 1 < 2 ^ 53 := small
    rw [natural_repr bounded (by omega)]
    omega

variable {p : Adapter} {t : Transaction} {query : List (String × String)}

/-- The rendered value of a field that may be missing. -/
def text (p : Adapter) (v : Option Scalar) : String := v.elim "" fun s => p.renderHMACScalar s.any

theorem render_int (small : n.natAbs < 2 ^ 53) :
    p.renderHMACScalar (.float64 n) = toString n := by
  simp only [renderHMACScalar, toInt64_intCast small, ↓reduceIte]

theorem render_spell (s : Scalar) (capital : Bool) :
    ((s.spell capital).elim "" fun text => p.renderHMACScalar (.string text)) =
      p.renderHMACScalar s.any := by
  cases s with
  | null => rfl
  | bool b => cases b <;> cases capital <;> rfl
  | string s => rfl
  | int n small =>
    simp only [Scalar.spell, Scalar.any, elim_some, render_int small]
    exact p.render_plain (plain_of_numeral (numeral_toString n))

theorem stringField_query (presents : t.Presents query) (other : name ≠ "hmac") :
    p.stringField (flattened query) name = p.text (t.at' name) := by
  obtain ⟨capital, spelled⟩ := presents name other
  unfold stringField Flat.get flattened text
  rw [spelled]
  cases t.at' name with
  | none => rfl
  | some s =>
    rw [elim_some, ← render_spell s capital]
    simp only [bind_some]
    cases s.spell capital <;> rfl

theorem splitAtPoints_dotless {text : List Char} (dotless : '.' ∉ text) :
    splitAtPoints text = [text] := by
  induction text with
  | nil => rfl
  | cons c text ih =>
    have first : c ≠ '.' := fun same => dotless (same ▸ mem_cons_self)
    have later : '.' ∉ text := fun member => dotless (mem_cons_of_mem c member)
    unfold splitAtPoints
    rw [if_neg first, ih later]

/-- A name of the transaction's own fields. -/
def Top (key : String) : Prop :=
  '.' ∉ key.toList ∧ ¬(key = "order" ∨ key = "source_data" ∨ key = "data")

instance (key : String) : Decidable (Top key) := by
  unfold Top
  infer_instance

theorem at_top (top : Top key) : t.at' key = t.field key := by
  unfold Transaction.at'
  rw [splitAtPoints_dotless top.1]
  simp only [map_cons, map_nil, ofList_toList, if_neg top.2]

theorem body_top (top : Top key) : t.body key = (t.at' key).map Scalar.any := by
  have outside := top.2
  push Not at outside
  rw [at_top top]
  unfold Transaction.body
  rw [if_neg outside.1, if_neg outside.2.1, if_neg outside.2.2, if_neg top.1]

theorem stringField_body (top : Top key) :
    p.stringField t.body key = p.text (t.at' key) := by
  unfold stringField Flat.get text
  rw [body_top top]
  cases t.at' key <;> rfl

theorem boolField_shapes (p : Adapter) (presents : t.Presents query) (top : Top key)
    (other : key ≠ "hmac") :
    boolField t.body key = boolField (flattened query) key := by
  rw [boolField_eq p, boolField_eq p, stringField_body top, stringField_query presents other]

theorem intField_shapes (presents : t.Presents query) (top : Top key) (other : key ≠ "hmac") :
    intField t.body key = intField (flattened query) key := by
  obtain ⟨capital, spelled⟩ := presents key other
  unfold intField Flat.get flattened
  rw [spelled, body_top top]
  cases t.at' key with
  | none => rfl
  | some s =>
    cases s with
    | null => rfl
    | bool b => cases b <;> cases capital <;> rfl
    | string s => rfl
    | int n small =>
      simp only [map_some, getD_some, Scalar.any, bind_some, Scalar.spell]
      rw [toInt64_intCast small, parseInt_toString small]

theorem hmacValue_nested {outer inner : String} {fields : String → Option Scalar}
    (split : (splitAtPoints name.toList).map ofList = [outer, inner])
    (dotted : t.body name = none)
    (found : t.body outer = some (.object fun key => (fields key).map Scalar.any))
    (value : t.at' name = fields inner) : p.hmacValue t.body name = p.text (t.at' name) := by
  unfold hmacValue text
  rw [split, value]
  simp only [descend, found, bind_some]
  cases fields inner with
  | none =>
    simp only [map_none, bind_none, Flat.get, dotted]
    rfl
  | some s => rfl

theorem hmacValue_body (member : name ∈ hmacFieldOrder) :
    p.hmacValue t.body name = p.text (t.at' name) := by
  by_cases top : Top name
  · rw [hmacValue_single (splitAtPoints_dotless top.1), stringField_body top]
  · have nested : name ∈ ["order.id", "source_data.pan", "source_data.sub_type",
        "source_data.type"] := by
      revert name
      decide
    simp only [mem_cons, not_mem_nil, or_false] at nested
    rcases nested with rfl | rfl | rfl | rfl
    · exact hmacValue_nested rfl rfl rfl rfl
    · exact hmacValue_nested rfl rfl rfl rfl
    · exact hmacValue_nested rfl rfl rfl rfl
    · exact hmacValue_nested rfl rfl rfl rfl

/-- **Both shapes carry the same signature.** -/
theorem computeHMAC_shapes (presents : t.Presents query) :
    p.computeHMAC t.body = p.computeHMAC (flattened query) := by
  have other : ∀ name ∈ hmacFieldOrder, name ≠ "hmac" := by decide
  unfold computeHMAC signedMessage
  congr 2
  apply map_congr_left
  intro name member
  rw [hmacValue_body member, hmacValue_flattened, stringField_query presents (other name member)]

theorem nested_order (inner : String) :
    p.nestedString t.body "order" inner = p.text (t.order inner) := by
  have found : t.body "order" = some (.object fun key => (t.order key).map Scalar.any) := rfl
  simp only [nestedString, Flat.get, found, getD_some, text]
  cases t.order inner <;> rfl

theorem nested_data (inner : String) :
    p.nestedString t.body "data" inner = p.text (t.data inner) := by
  have found : t.body "data" = some (.object fun key => (t.data key).map Scalar.any) := rfl
  simp only [nestedString, Flat.get, found, getD_some, text]
  cases t.data inner <;> rfl

theorem nested_query (presents : t.Presents query) {outer : String} (other : outer ≠ "hmac")
    (missing : t.at' outer = none) (inner : String) :
    p.nestedString (flattened query) outer inner = "" := by
  obtain ⟨capital, spelled⟩ := presents outer other
  unfold nestedString Flat.get flattened
  rw [spelled, missing]
  rfl

theorem flags_shapes (p : Adapter) (presents : t.Presents query) :
    kindOf t.body = kindOf (flattened query) ∧ hasFailed t.body = hasFailed (flattened query) ∧
      boolField t.body "success" = boolField (flattened query) "success" := by
  have refunded := boolField_shapes p presents (by decide : Top "is_refunded") (by decide)
  have voided := boolField_shapes p presents (by decide : Top "is_voided") (by decide)
  have success := boolField_shapes p presents (by decide : Top "success") (by decide)
  have capture := boolField_shapes p presents (by decide : Top "is_capture") (by decide)
  have pending := boolField_shapes p presents (by decide : Top "pending") (by decide)
  unfold kindOf hasFailed
  rw [refunded, voided, success, capture, pending]
  exact ⟨rfl, rfl, rfl⟩

theorem firstNonEmpty_eq_right {first second : String} :
    firstNonEmpty [first, second] = second ↔ first = "" ∨ first = second := by
  by_cases empty : first = ""
  · subst empty
    by_cases none' : second = "" <;> simp [firstNonEmpty, none']
  · simp [firstNonEmpty, empty]

/-- **When a POST and a GET callback mean the same.** The signatures always agree. The
callbacks agree exactly when the nested merchant reference is empty or repeated at the top,
and a failed transaction has no decline code and a message that says nothing more. -/
theorem shapes_agree_iff (p : Adapter) {t : Transaction} {query : List (String × String)}
    (presents : t.Presents query) :
    (p.computeHMAC t.body = p.computeHMAC (flattened query) ∧
        p.normaliseCallback t.body = p.normaliseCallback (flattened query)) ↔
      (p.text (t.order "merchant_order_id") = "" ∨
        p.text (t.order "merchant_order_id") = p.text (t.field "merchant_order_id")) ∧
      (hasFailed t.body = true → p.text (t.data "txn_response_code") = "" ∧
        p.mapDeclineCode "" (p.text (t.data "message")) = p.mapDeclineCode "" "") := by
  have string : ∀ {key}, Top key → key ≠ "hmac" →
      p.stringField t.body key = p.stringField (flattened query) key := by
    intro key top other
    rw [stringField_body top, stringField_query presents other]
  have ref : Top "merchant_order_id" := by decide
  have reference : p.stringField (flattened query) "merchant_order_id" =
      p.text (t.field "merchant_order_id") := by
    rw [stringField_query presents (by decide), at_top ref]
  have noOrder : t.at' "order" = none := rfl
  have noData : t.at' "data" = none := rfl
  obtain ⟨kind, failed, success⟩ := flags_shapes p presents
  have amount := intField_shapes presents (by decide : Top "amount_cents") (by decide)
  rw [← firstNonEmpty_eq_right]
  unfold normaliseCallback
  simp only [nested_order, nested_data, nested_query presents (by decide) noOrder,
    nested_query presents (by decide) noData, string (by decide : Top "id") (by decide),
    string (by decide : Top "currency") (by decide), string ref (by decide), reference, kind,
    success, amount, ← failed, computeHMAC_shapes presents, true_and]
  have bare : firstNonEmpty ["", p.text (t.field "merchant_order_id")] =
      p.text (t.field "merchant_order_id") := firstNonEmpty_eq_right.mpr (.inl rfl)
  simp only [bare, Callback.mk.injEq, true_and]
  cases hasFailed t.body with
  | false => simp
  | true =>
    simp only [↓reduceIte, some.injEq, true_imp_iff]
    constructor
    · rintro ⟨same, reason, code⟩
      exact ⟨same, code, code ▸ reason⟩
    · rintro ⟨same, code, reason⟩
      exact ⟨same, code.symm ▸ reason, code⟩

theorem eq_of_two_parts {text first second : List Char}
    (two : splitAtPoints text = [first, second]) : text = first ++ '.' :: second := by
  induction text generalizing first with
  | nil => cases two
  | cons c rest ih =>
    unfold splitAtPoints at two
    split at two
    · next point =>
        obtain ⟨rfl, later⟩ := List.cons.inj two
        rw [point, eq_of_splitAtPoints later]
        rfl
    · split at two
      · next parts split =>
          cases two
          rw [ih split]
          rfl
      · cases two

end Adapter

namespace Transaction

/-- The transaction with the values under some dotted names. -/
def of (entries : List (String × Scalar)) : Transaction where
  field key := entries.lookup key
  order inner := entries.lookup ("order." ++ inner)
  sourceData inner := entries.lookup ("source_data." ++ inner)
  data inner := entries.lookup ("data." ++ inner)

def Known (name : String) : Prop :=
  match (splitAtPoints name.toList).map ofList with
  | [key] => ¬(key = "order" ∨ key = "source_data" ∨ key = "data")
  | [outer, _] => outer = "order" ∨ outer = "source_data" ∨ outer = "data"
  | _ => False

instance (name : String) : Decidable (Known name) := by
  unfold Known
  split <;> infer_instance

variable {entries : List (String × Scalar)} {name : String}

theorem lookup_eq_none (known : ∀ pair ∈ entries, Known pair.1) (unknown : ¬ Known name) :
    entries.lookup name = none := by
  apply lookup_eq_none_iff.mpr
  intro pair member
  apply bne_iff_ne.mpr
  rintro rfl
  exact unknown (known pair member)

theorem eq_of_one {key : String} (split : (splitAtPoints name.toList).map ofList = [key]) :
    key = name := by
  obtain ⟨part, none', single, rfl, rest⟩ := map_eq_cons_iff.mp split
  obtain rfl := map_eq_nil_iff.mp rest
  rw [eq_of_splitAtPoints single, ofList_toList]

theorem eq_of_two {outer inner : String}
    (split : (splitAtPoints name.toList).map ofList = [outer, inner]) :
    name = outer ++ "." ++ inner := by
  obtain ⟨first, parts, two, rfl, rest⟩ := map_eq_cons_iff.mp split
  obtain ⟨second, none', rfl, rfl, last⟩ := map_eq_cons_iff.mp rest
  obtain rfl := map_eq_nil_iff.mp last
  apply toList_injective
  rw [eq_of_two_parts two]
  simp

theorem at_of (known : ∀ pair ∈ entries, Known pair.1) (name : String) :
    (of entries).at' name = entries.lookup name := by
  have unknown : ¬ Known name → none = entries.lookup name :=
    fun other => (lookup_eq_none known other).symm
  unfold Known at unknown
  unfold Transaction.at'
  rcases parts : (splitAtPoints name.toList).map ofList with _ | ⟨key, _ | ⟨inner, _ | _⟩⟩
  · exact unknown (by simp only [parts, not_false_eq_true])
  · obtain rfl := eq_of_one parts
    simp only [parts] at unknown ⊢
    split
    · next nested => exact unknown (not_not.mpr nested)
    · rfl
  · obtain rfl := eq_of_two parts
    simp only [parts] at unknown ⊢
    split
    · next order => rw [order]; rfl
    split
    · next source => rw [source]; rfl
    split
    · next data => rw [data]; rfl
    · next order source data => exact unknown (by tauto)
  · exact unknown (by simp only [parts, not_false_eq_true])

def spelled (capital : Bool) (entries : List (String × Scalar)) : List (String × String) :=
  entries.filterMap fun entry => (entry.2.spell capital).map fun text => (entry.1, text)

theorem lookup_spelled (capital : Bool) (name : String) : ∀ {entries : List (String × Scalar)},
    (entries.map Prod.fst).Nodup → (spelled capital entries).lookup name =
      (entries.lookup name).bind (Scalar.spell capital) := by
  intro entries
  induction entries with
  | nil => exact fun _ => rfl
  | cons entry entries ih =>
    intro distinct
    obtain ⟨key, s⟩ := entry
    obtain ⟨fresh, distinct⟩ := nodup_cons.mp distinct
    have later := ih distinct
    unfold spelled at later ⊢
    rw [filterMap_cons]
    by_cases same : name = key
    · subst same
      have absent : entries.lookup name = none := by
        apply lookup_eq_none_iff.mpr
        intro pair member
        apply bne_iff_ne.mpr
        rintro rfl
        exact fresh (mem_map.mpr ⟨pair, member, rfl⟩)
      rw [absent] at later
      cases text : s.spell capital with
      | none => simpa [lookup_cons, text] using later
      | some text => simp [text]
    · cases text : s.spell capital with
      | none => simpa [lookup_cons, beq_eq_false_iff_ne.mpr same] using later
      | some text => simpa [lookup_cons, beq_eq_false_iff_ne.mpr same] using later

theorem presents_spelled (known : ∀ pair ∈ entries, Known pair.1)
    (distinct : (entries.map Prod.fst).Nodup) (capital : Bool) :
    (of entries).Presents (spelled capital entries) := by
  intro name _
  refine ⟨capital, ?_⟩
  rw [at_of known, lookup_spelled capital name distinct]

end Transaction

/-- A payment that the issuer could not answer, of the order `ref`. -/
def unanswered : List (String × Scalar) :=
  [("order.merchant_order_id", .string "ref"), ("success", .bool false),
    ("data.txn_response_code", .string "91")]

theorem unanswered_presents :
    (Transaction.of unanswered).Presents (Transaction.spelled false unanswered) :=
  Transaction.presents_spelled (by decide) (by decide) false

/-- Posted, the failure is retriable and names its order; redirected, it is a hard decline
of no order. -/
theorem query_loses_order : ¬ ∀ (p : Adapter) (t : Transaction) (query : List (String × String)),
    t.Presents query → p.computeHMAC t.body = p.computeHMAC (flattened query) ∧
      p.normaliseCallback t.body = p.normaliseCallback (flattened query) := by
  intro agree
  have same := (agree transparent _ _ unanswered_presents).2
  have posted : (transparent.normaliseCallback (Transaction.of unanswered).body).reasonCode =
      some .providerUnavailable := by decide +kernel
  have redirected : (transparent.normaliseCallback
      (flattened (Transaction.spelled false unanswered))).reasonCode =
        some .cardDeclined := by decide +kernel
  rw [same, redirected] at posted
  cases posted

/-- A successful payment, in a query that spells its booleans in capitals. -/
def settled : List (String × Scalar) :=
  [("id", .int 111 (by decide)), ("amount_cents", .int 10000 (by decide)),
    ("success", .bool true), ("order.id", .int 222 (by decide)), ("source_data.pan", .null)]

theorem settled_shapes_agree :
    transparent.computeHMAC (Transaction.of settled).body =
        transparent.computeHMAC (flattened (Transaction.spelled true settled)) ∧
      transparent.normaliseCallback (Transaction.of settled).body =
        transparent.normaliseCallback (flattened (Transaction.spelled true settled)) :=
  (shapes_agree_iff transparent (Transaction.presents_spelled (by decide) (by decide) true)).mpr
    ⟨.inl rfl, by decide +kernel⟩

end Souq.Paymob
