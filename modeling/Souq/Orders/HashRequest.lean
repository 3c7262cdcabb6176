import Souq.Lib.GoJson

/-!
# The hash of a checkout

The handler of `POST /v1/orders` reads a body twice: once into `placeOrderBody`, which takes
the first value of the text and knows the fields, and once in `HashRequest` into an untyped
value, whose marshalled text is hashed. What the bodies are told apart by is not quite what
they are read as.
-/

namespace Souq.Orders.Hashing

open JsonText GoJson Option

def money : Kind := .struct [("amount", .int), ("currency", .string)]

def address : Kind :=
  .struct [("recipient", .string), ("line1", .string), ("line2", .string), ("city", .string),
    ("region", .string), ("postalCode", .string), ("countryCode", .string), ("phone", .string)]

def itemBody : Kind :=
  .struct [("sku", .string), ("productId", .string), ("title", .string), ("image", .string),
    ("quantity", .int), ("unitPrice", money)]

def placeOrderBody : Kind :=
  .struct [("cartId", .string), ("cartVersion", .int), ("items", .slice itemBody),
    ("subtotal", money), ("discountTotal", money), ("shippingTotal", money), ("taxTotal", money),
    ("expectedTotal", money), ("shippingAddress", address), ("billingAddress", .pointer address),
    ("paymentMethodToken", .string), ("rulesVersion", .string)]

def maxBodyBytes : Nat := 64 * 1024

/-- What the handler makes of the first value of a body, unless it refuses the body. -/
def decodeBody (raw : String) : Option Value :=
  if maxBodyBytes < raw.utf8ByteSize then none
  else (first raw.toList).bind fun read =>
    (placeOrderBody.decode read.1 placeOrderBody.zero).map Value.seen

/-- The characters that `json.Marshal` escapes for HTML and JavaScript. -/
def escapeHTML (c : Char) : Bool :=
  c = '<' || c = '>' || c = '&' || c = '\u2028' || c = '\u2029'

theorem escapeHTML_small (c : Char) (escaped : escapeHTML c = true) : c.toNat < 0x10000 := by
  simp only [escapeHTML, Bool.or_eq_true, decide_eq_true_eq] at escaped
  rcases escaped with (((rfl | rfl) | rfl) | rfl) | rfl <;> decide

section Hash

variable {δ : Type} (sha256 : String → δ) (other : Literal → Option Literal)

/-- `HashRequest`. A body that is not one JSON value is hashed as it came. -/
def hashRequest (body : String) : δ :=
  match (parse body.toList).bind (untyped other) with
  | some canonical => sha256 (String.ofList (print escapeHTML canonical))
  | none => sha256 body

/-- One JSON document up to blanks and the order of members with different names. -/
def SameDocument (a b : String) : Prop :=
  ∃ doc doc', parse a.toList = some doc ∧ parse b.toList = some doc' ∧ Same doc doc'

/-- Two bodies are told apart by their hashes as they should be. -/
structure Identifies (a b : String) : Prop where
  apart : decodeBody a ≠ decodeBody b → hashRequest sha256 other a ≠ hashRequest sha256 other b
  together : SameDocument a b → hashRequest sha256 other a = hashRequest sha256 other b

/-- No object of a body has two members that are decoded into one field. -/
def Unrepeated (body : String) : Prop := ∀ doc, parse body.toList = some doc → Doc.Clear doc

instance (body : String) : Decidable (Unrepeated body) :=
  decidable_of_iff (∀ doc ∈ parse body.toList, Doc.Clear doc) Iff.rfl

/-- Two bodies differ, and in nothing but the order of members and in integers that are one
float64. -/
def Blurs (a b : String) : Prop :=
  ∃ doc doc', parse a.toList = some doc ∧ parse b.toList = some doc' ∧
    canonical shown doc = canonical shown doc' ∧ canonical id doc ≠ canonical id doc'

end Hash

theorem decodeBody_some {raw : String} {seen : Value} (accepted : decodeBody raw = some seen) :
    ∃ doc rest value, first raw.toList = some (doc, rest) ∧
      placeOrderBody.decode doc placeOrderBody.zero = some value ∧ value.seen = seen := by
  unfold decodeBody at accepted
  split at accepted
  · cases accepted
  · obtain ⟨⟨doc, rest⟩, read, decoded⟩ := bind_eq_some_iff.mp accepted
    obtain ⟨value, decoded, shown⟩ := map_eq_some_iff.mp decoded
    exact ⟨doc, rest, value, read, decoded, shown⟩

theorem first_of_parse {text : List Char} {doc : Doc} (parsed : parse text = some doc) :
    ∃ rest, first text = some (doc, rest) := by
  obtain ⟨⟨doc', rest⟩, read, whole⟩ := bind_eq_some_iff.mp parsed
  split at whole
  · cases whole
    exact ⟨rest, read⟩
  · cases whole

theorem decoded_of_parse {raw : String} {seen : Value} (accepted : decodeBody raw = some seen)
    {doc : Doc} (parsed : parse raw.toList = some doc) :
    ∃ value, placeOrderBody.decode doc placeOrderBody.zero = some value ∧ value.seen = seen := by
  obtain ⟨rest, read⟩ := first_of_parse parsed
  obtain ⟨doc', rest', value, read', decoded, shown⟩ := decodeBody_some accepted
  rw [read] at read'
  cases read'
  exact ⟨value, decoded, shown⟩

section Accepted

variable {δ : Type} {sha256 : String → δ} {other : Literal → Option Literal} {a b : String}

theorem hashRequest_eq {seen : Value} (accepted : decodeBody a = some seen) :
    hashRequest sha256 other a = (parse a.toList).elim (sha256 a) fun doc =>
      sha256 (String.ofList (print escapeHTML (canonical shown doc))) := by
  unfold hashRequest
  cases parsed : parse a.toList with
  | none => rfl
  | some doc =>
    obtain ⟨value, decoded, -⟩ := decoded_of_parse accepted parsed
    rw [bind_some, untyped_eq other doc (every_of_decode decoded)]
    rfl

theorem parse_marshalled {seen : Value} (accepted : decodeBody a = some seen) {doc : Doc}
    (parsed : parse a.toList = some doc) :
    parse (print escapeHTML (canonical shown doc)) = some (canonical shown doc) := by
  obtain ⟨value, decoded, -⟩ := decoded_of_parse accepted parsed
  refine parse_print escapeHTML_small _ (every_canonical (fun literal integer => ?_) doc
    (every_of_decode decoded))
  obtain ⟨n, parsed⟩ := isSome_iff_exists.mp integer
  exact (ite_none_right_eq_some.mp parsed).1.1

/-- **Equal hashes** are of one text that is not JSON, or of documents that are marshalled
alike. -/
theorem hashRequest_eq_iff (injective : Function.Injective sha256) {seen seen' : Value}
    (accepted : decodeBody a = some seen) (accepted' : decodeBody b = some seen') :
    hashRequest sha256 other a = hashRequest sha256 other b ↔
      a = b ∨ ∃ doc doc', parse a.toList = some doc ∧ parse b.toList = some doc' ∧
        canonical shown doc = canonical shown doc' := by
  rw [hashRequest_eq accepted, hashRequest_eq accepted']
  cases parsed : parse a.toList with
  | none =>
    cases parsed' : parse b.toList with
    | none => exact injective.eq_iff.trans ⟨.inl, fun same => same.elim id nofun⟩
    | some doc' =>
      refine iff_of_false (fun same => ?_) ?_
      · have text := congrArg String.toList (injective same)
        rw [String.toList_ofList] at text
        have marshalled := parse_marshalled accepted' parsed'
        rw [← text, parsed] at marshalled
        cases marshalled
      · rintro (rfl | ⟨doc, -, read, -⟩)
        · rw [parsed] at parsed'
          cases parsed'
        · cases read
  | some doc =>
    cases parsed' : parse b.toList with
    | none =>
      refine iff_of_false (fun same => ?_) ?_
      · have text := congrArg String.toList (injective same)
        rw [String.toList_ofList] at text
        have marshalled := parse_marshalled accepted parsed
        rw [text, parsed'] at marshalled
        cases marshalled
      · rintro (rfl | ⟨-, doc', -, read, -⟩)
        · rw [parsed] at parsed'
          cases parsed'
        · cases read
    | some doc' =>
      constructor
      · intro same
        have texts := congrArg String.toList (injective same)
        rw [String.toList_ofList, String.toList_ofList] at texts
        have marshalled := parse_marshalled accepted parsed
        rw [texts, parse_marshalled accepted' parsed'] at marshalled
        exact .inr ⟨doc, doc', rfl, rfl, (some.inj marshalled).symm⟩
      · rintro (rfl | ⟨_, _, read, read', alike⟩)
        · rw [parsed] at parsed'
          cases parsed'
          rfl
        · cases read
          cases read'
          exact congrArg (fun doc => sha256 (String.ofList (print escapeHTML doc))) alike

/-- **Hashes tell bodies apart** that repeat no field exactly when they do not blur. -/
theorem identifies_iff (injective : Function.Injective sha256) (accepted : (decodeBody a).isSome)
    (accepted' : (decodeBody b).isSome) (clear : Unrepeated a) (clear' : Unrepeated b) :
    Identifies sha256 other a b ↔ ¬ Blurs a b := by
  obtain ⟨seen, accepted⟩ := isSome_iff_exists.mp accepted
  obtain ⟨seen', accepted'⟩ := isSome_iff_exists.mp accepted'
  have hashes : hashRequest sha256 other a = hashRequest sha256 other b ↔ _ :=
    hashRequest_eq_iff injective accepted accepted'
  constructor
  · rintro identifies ⟨doc, doc', parsed, parsed', alike, differ⟩
    refine identifies.apart (fun same => differ ?_)
      (hashes.mpr (.inr ⟨doc, doc', parsed, parsed', alike⟩))
    obtain ⟨value, decoded, rfl⟩ := decoded_of_parse accepted parsed
    obtain ⟨value', decoded', rfl⟩ := decoded_of_parse accepted' parsed'
    rw [accepted, accepted'] at same
    exact canonical_eq_of_decode placeOrderBody (clear doc parsed) (clear' doc' parsed') alike
      decoded decoded' (some.inj same)
  · refine fun sharp => ⟨fun differ same => ?_, fun ⟨doc, doc', parsed, parsed', same⟩ => ?_⟩
    · rcases hashes.mp same with rfl | ⟨doc, doc', parsed, parsed', alike⟩
      · exact differ rfl
      · by_cases exact' : canonical id doc = canonical id doc'
        · apply differ
          obtain ⟨value, decoded, rfl⟩ := decoded_of_parse accepted parsed
          obtain ⟨value', decoded', rfl⟩ := decoded_of_parse accepted' parsed'
          rw [← decode_canonical _ (clear doc parsed), exact',
            decode_canonical _ (clear' doc' parsed'), decoded'] at decoded
          rw [accepted, accepted', some.inj decoded]
        · exact sharp ⟨doc, doc', parsed, parsed', alike, exact'⟩
    · exact hashes.mpr (.inr ⟨doc, doc', parsed, parsed', canonical_same shown same⟩)

end Accepted

/-- A retry as the client might write it, and the cart two versions later. -/
def cart : String := "\x7b\"cartId\":\"crt_1\",\"cartVersion\":3\x7d"

def laterCart : String := "\x7b \"cartVersion\": 5, \"cartId\": \"crt_1\" \x7d"

theorem identifies_laterCart : Identifies id (fun _ => none) cart laterCart := by
  refine (identifies_iff Function.injective_id (by decide +kernel) (by decide +kernel)
    (by decide +kernel) (by decide +kernel)).mpr ?_
  rintro ⟨doc, doc', parsed, parsed', alike, -⟩
  have texts : (parse cart.toList).map (print escapeHTML ∘ canonical shown) ≠
      (parse laterCart.toList).map (print escapeHTML ∘ canonical shown) := by decide +kernel
  rw [parsed, parsed'] at texts
  exact texts (congrArg (fun doc => some (print escapeHTML doc)) alike)

/-- The version of the cart that a body was decoded into. -/
def cartVersion : Value → Option Int
  | .struct (_ :: .int n :: _) => some n
  | _ => none

/-- The first float64 that two integers share. -/
def hugeVersion : String := "\x7b\"cartVersion\":9007199254740992\x7d"

def nextVersion : String := "\x7b\"cartVersion\":9007199254740993\x7d"

/-- A version that is given twice, once as `null`, and a version that is only `null`. -/
def versionAndNull : String := "\x7b\"cartVersion\":5,\"cartVersion\":null\x7d"

def onlyNull : String := "\x7b\"cartVersion\":null\x7d"

/-- Two versions of a cart have one hash, as two integers of one float64 or because of a
repeated field. -/
theorem hashes_collide :
    ¬ Identifies id (fun _ => none) hugeVersion nextVersion ∧
      ¬ Identifies id (fun _ => none) versionAndNull onlyNull := by
  have differ {a b : String}
      (versions : (decodeBody a).map cartVersion ≠ (decodeBody b).map cartVersion) :
      decodeBody a ≠ decodeBody b := fun same => versions (congrArg (Option.map cartVersion) same)
  constructor
  · exact fun identifies => identifies.apart (differ (by decide +kernel)) (by decide +kernel)
  · exact fun identifies => identifies.apart (differ (by decide +kernel)) (by decide +kernel)

end Souq.Orders.Hashing
