import Souq.Lib.JsonText
import Souq.Lib.Wire
import Souq.Pricing.Rules

/-!
# A cart priced through the wire

The call `CalculateCart` from the cart service to pricing-engine. The client gives the request
to the transport as a JSON text and reads the answer as one; the server is generated from
`pricing.proto`, reads a message of tagged fields and answers with one. In a message a text is
a string of bytes (one character for each byte), which the server refuses if it is no UTF-8.
-/

namespace Souq.Pricing.Rpc

open JsonText Wire List Option

structure Money where
  amount : Int
  currency : String

/-- A line as cart-service sends it. -/
structure RequestLine where
  sku : String
  productId : String
  quantity : Int
  unitListPrice : Money
  categoryPath : List String
  brand : Option String
  attributes : List (String × String)

/-- The caller as cart-service sends it. -/
structure RequestContext where
  userId : Option String
  currency : String
  countryCode : String
  couponCodes : List String
  channel : String

/-- The request of cart-service. -/
structure CalculateRequest where
  lines : List RequestLine
  context : RequestContext

def integer (n : Int) : Doc := .num { negative := n < 0, whole := n.natAbs }

def Money.doc (m : Money) : Doc :=
  .obj [("amount", integer m.amount), ("currency", .str m.currency)]

def RequestLine.doc (l : RequestLine) : Doc :=
  .obj [ ("sku", .str l.sku), ("productId", .str l.productId), ("quantity", integer l.quantity),
    ("unitListPrice", l.unitListPrice.doc), ("categoryPath", .arr (l.categoryPath.map .str)),
    ("brand", l.brand.elim .null .str),
    ("attributes", .obj (l.attributes.map fun a => (a.1, .str a.2)))]

/-- A user id that is `undefined` is left out. -/
def RequestContext.doc (c : RequestContext) : Doc :=
  .obj (c.userId.toList.map (fun user => ("userId", .str user)) ++ [
    ("currency", .str c.currency), ("countryCode", .str c.countryCode),
    ("couponCodes", .arr (c.couponCodes.map .str)), ("channel", .str c.channel)])

def CalculateRequest.doc (r : CalculateRequest) : Doc :=
  .obj [("lines", .arr (r.lines.map RequestLine.doc)), ("context", r.context.doc)]

/-- `Buffer.from(JSON.stringify(v))`. -/
def serialize (request : CalculateRequest) : List UInt8 :=
  utf8 (print (fun _ => false) request.doc)

/-- `JSON.parse(b.toString())`. -/
def deserialize (bytes : List UInt8) : Option Doc := parse (decodeUtf8 bytes)

def stored (bytes : List UInt8) : String :=
  String.ofList (bytes.map fun b => Char.ofNat b.toNat)

def bytesOf (s : String) : List UInt8 := s.toList.map fun c => UInt8.ofNat c.toNat

def varints (fields : Fields) (number : Nat) : List Nat :=
  fields.filterMap fun field =>
    match field with
    | (k, .varint n) => if k = number then some n else none
    | _ => none

def contents (fields : Fields) (number : Nat) : List (List UInt8) :=
  fields.filterMap fun field =>
    match field with
    | (k, .bytes content) => if k = number then some content else none
    | _ => none

def int64 (fields : Fields) (number : Nat) : Int :=
  ((varints fields number).getLastD 0 : Int).bmod (2 ^ 64)

def int32 (fields : Fields) (number : Nat) : Int :=
  ((varints fields number).getLastD 0 : Int).bmod (2 ^ 32)

def texts (fields : Fields) (number : Nat) : Option (List String) :=
  (contents fields number).mapM fun content =>
    if utf8 (decodeUtf8 content) = content then some (stored content) else none

def text (fields : Fields) (number : Nat) : Option String :=
  (texts fields number).map fun texts => texts.getLastD ""

def submessage (fields : Fields) (number : Nat) : Option Fields :=
  ((contents fields number).mapM parseMessage).map List.flatten

def submessages {α : Type} (fields : Fields) (number : Nat) (decode : Fields → Option α) :
    Option (List α) :=
  (contents fields number).mapM fun content => (parseMessage content).bind decode

structure MoneyMessage where
  amount : Int
  currencyCode : String

def MoneyMessage.decode (fields : Fields) : Option MoneyMessage := do
  return ⟨int64 fields 1, ← text fields 2⟩

def lastOfKey : List (String × String) → List (String × String)
  | [] => []
  | entry :: rest =>
    if rest.any (fun other => other.1 = entry.1) then lastOfKey rest
    else entry :: lastOfKey rest

structure CartLineMessage where
  sku : String
  productId : String
  quantity : Int
  unitListPrice : MoneyMessage
  categoryPath : List String
  brand : String
  attributes : List (String × String)

def CartLineMessage.decode (fields : Fields) : Option CartLineMessage := do
  let attributes ← submessages fields 7 fun entry => do return (← text entry 1, ← text entry 2)
  return {
    sku := ← text fields 1
    productId := ← text fields 2
    quantity := int32 fields 3
    unitListPrice := ← MoneyMessage.decode (← submessage fields 4)
    categoryPath := ← texts fields 5
    brand := ← text fields 6
    attributes := lastOfKey attributes }

structure PricingContextMessage where
  userId : String
  sessionId : String
  currencyCode : String
  countryCode : String
  postalCode : String
  customerSegments : List String
  couponCodes : List String
  channel : String
  rulesVersion : String

def PricingContextMessage.decode (fields : Fields) : Option PricingContextMessage := do
  return {
    userId := ← text fields 1
    sessionId := ← text fields 2
    currencyCode := ← text fields 3
    countryCode := ← text fields 4
    postalCode := ← text fields 5
    customerSegments := ← texts fields 6
    couponCodes := ← texts fields 7
    channel := ← text fields 8
    rulesVersion := ← text fields 9 }

/-- The request that the engine's schema describes. -/
structure CalculateCartRequest where
  lines : List CartLineMessage
  context : PricingContextMessage
  shippingQuote : MoneyMessage

def CalculateCartRequest.decode (fields : Fields) : Option CalculateCartRequest := do
  return {
    lines := ← submessages fields 1 CartLineMessage.decode
    context := ← PricingContextMessage.decode (← submessage fields 2)
    shippingQuote := ← MoneyMessage.decode (← submessage fields 3) }

def receive (bytes : List UInt8) : Option CalculateCartRequest :=
  (parseMessage bytes).bind CalculateCartRequest.decode

def toMinor (m : MoneyMessage) : Int := m.amount

/-- A context as the engine gets it, with what its rules do not read. -/
structure Caller extends Context where
  userId : String
  currency : String

def toContext (m : PricingContextMessage) : Caller where
  userId := m.userId
  currency := if m.currencyCode = "" then "EGP" else m.currencyCode
  countryCode := if m.countryCode = "" then "EG" else m.countryCode
  channel := if m.channel = "" then "web" else m.channel
  segments := m.customerSegments
  coupons := m.couponCodes

/-- A line as the engine gets it, with what its rules do not read. -/
structure Line extends CartLine where
  productId : String
  attributes : List (String × String)

def toLine (m : CartLineMessage) : Line where
  sku := m.sku
  productId := m.productId
  quantity := m.quantity
  unitListPrice := toMinor m.unitListPrice
  brand := m.brand
  categoryPath := m.categoryPath
  attributes := m.attributes

def toLines (messages : List CartLineMessage) : List Line := messages.map toLine

/-- A field that holds its default is not written. -/
def putInt (number : Nat) (n : Int) : Fields :=
  if n = 0 then [] else [(number, .varint (n % 2 ^ 64).toNat)]

def putText (number : Nat) (s : String) : Fields :=
  if s = "" then [] else [(number, .bytes (bytesOf s))]

def putFlag (number : Nat) (b : Bool) : Fields := if b then [(number, .varint 1)] else []

def putTexts (number : Nat) (ss : List String) : Fields :=
  ss.map fun s => (number, .bytes (bytesOf s))

def putMessage (number : Nat) (fields : Fields) : Fields :=
  [(number, .bytes (encodeFields fields))]

def setMoney (number : Nat) (amount : Int) (currency : String) : Fields :=
  putMessage number (putInt 1 amount ++ putText 2 currency)

def toProto : PromotionType → Int
  | .percentOff => 1
  | .amountOff => 2
  | .buyXGetY => 3
  | .tieredQuantity => 4
  | .bundle => 5
  | .freeShipping => 6
  | .cartThreshold => 7

def putLine (currency : String) (lp : LinePrice) : Fields :=
  putMessage 1 (putText 1 lp.sku ++ putInt 2 lp.quantity ++ setMoney 3 lp.unitListPrice currency ++
    setMoney 4 lp.unitEffectivePrice currency ++ setMoney 5 lp.lineSubtotal currency ++
    setMoney 6 lp.lineDiscount currency ++ setMoney 7 lp.lineTotal currency ++
    putTexts 8 lp.appliedPromotionIds)

def putApplied (currency : String) (a : AppliedPromotion) : Fields :=
  putMessage 7 (putText 1 a.promotionId ++ putText 2 a.name ++ putInt 3 (toProto a.type) ++
    setMoney 4 a.discount currency ++ putText 5 a.couponCode ++ putTexts 6 a.appliesToSkus ++
    putInt 7 a.priority ++ putFlag 8 a.exclusive)

def putRejected (r : RejectedPromotion) : Fields :=
  putMessage 8 (putText 1 r.promotionId ++ putText 2 r.couponCode ++ putText 3 r.reasonCode ++
    putText 4 r.detail)

def putTax (currency : String) (t : TaxLine) : Fields :=
  putMessage 9 (putText 1 t.name ++ putText 2 t.jurisdiction ++ putMessage 3 (putInt 1 t.rate) ++
    setMoney 4 t.amount currency ++ putFlag 5 t.inclusive)

/-- The fields of a `CalculateCartResponse`. The engine never sets that a quote is degraded. -/
def response (currency : String) (quote : Quote) : Fields :=
  quote.lines.flatMap (putLine currency) ++ setMoney 2 quote.subtotal currency ++
    setMoney 3 quote.discountTotal currency ++ setMoney 4 quote.shippingTotal currency ++
    setMoney 5 quote.taxTotal currency ++ setMoney 6 quote.grandTotal currency ++
    quote.applied.flatMap (putApplied currency) ++ quote.rejected.flatMap putRejected ++
    quote.taxLines.flatMap (putTax currency) ++ putText 10 quote.rulesVersion

def respond (currency : String) (quote : Quote) : List UInt8 :=
  encodeFields (response currency quote)

/-- The handler, from the bytes of a request to those of the answer. -/
def calculateCart (set : RuleSet) (now : Int) (bytes : List UInt8) : Option (List UInt8) := do
  let request ← receive bytes
  let lines := toLines request.lines
  let ctx := toContext request.context
  let quote ← set.calculate (lines.map Line.toCartLine) ctx.toContext
    (toMinor request.shippingQuote) now
  return respond ctx.currency quote

/-- A text of the client as the server holds it. -/
def held (text : String) : String := stored (utf8 text.toList)

/-- The line arrives as it was sent. -/
structure LineCarried (line : RequestLine) (read : Line) : Prop where
  sku : read.sku = held line.sku
  quantity : read.quantity = line.quantity
  unitListPrice : read.unitListPrice = line.unitListPrice.amount
  categoryPath : read.categoryPath = line.categoryPath.map held
  brand : read.brand = held (line.brand.getD "")
  attributes : read.attributes.Perm (line.attributes.map fun a => (held a.1, held a.2))

/-- The caller arrives as it was sent. -/
structure ContextCarried (context : RequestContext) (read : Caller) : Prop where
  currency : read.currency = held context.currency
  countryCode : read.countryCode = held context.countryCode
  coupons : read.coupons = context.couponCodes.map held
  channel : read.channel = held context.channel

/-- The server reads what the client asks. -/
def Understood (request : CalculateRequest) : Prop :=
  ∃ message, receive (serialize request) = some message ∧
    List.Forall₂ LineCarried request.lines (toLines message.lines) ∧
    ContextCarried request.context (toContext message.context)

def amountDoc (amount : Int) (currency : String) : Doc := Money.doc ⟨amount, currency⟩

/-- A quote as the client's `PricedCart`. -/
def pricedCart (currency : String) (quote : Quote) : Doc :=
  .obj [ ("lines", .arr (quote.lines.map fun lp => .obj [
      ("unitEffectivePrice", amountDoc lp.unitEffectivePrice currency),
      ("lineTotal", amountDoc lp.lineTotal currency),
      ("lineDiscount", amountDoc lp.lineDiscount currency)])),
    ("subtotal", amountDoc quote.subtotal currency),
    ("discountTotal", amountDoc quote.discountTotal currency),
    ("shippingTotal", amountDoc quote.shippingTotal currency),
    ("taxTotal", amountDoc quote.taxTotal currency),
    ("grandTotal", amountDoc quote.grandTotal currency),
    ("appliedPromotions", .arr (quote.applied.map fun a => .obj [
      ("promotionId", .str a.promotionId), ("name", .str a.name),
      ("discount", amountDoc a.discount currency), ("couponCode", .str a.couponCode)])),
    ("rejectedPromotions", .arr (quote.rejected.map fun r => .obj [
      ("couponCode", .str r.couponCode), ("reasonCode", .str r.reasonCode)])),
    ("rulesVersion", .str quote.rulesVersion), ("degraded", .bool false)]

/-- The client reads what the server answers. -/
def Inverted (currency : String) (quote : Quote) : Prop :=
  deserialize (respond currency quote) = some (pricedCart currency quote)

theorem integral_integer (n : Int) : (integer n).Integral := rfl

theorem integral_texts (texts : List String) : (Doc.arr (texts.map .str)).Integral :=
  everyElement_iff.mpr fun doc member => by
    obtain ⟨text, -, rfl⟩ := mem_map.mp member
    trivial

theorem integral_money (m : Money) : m.doc.Integral :=
  everyMember_iff.mpr (forall_mem_cons.mpr ⟨integral_integer m.amount,
    forall_mem_singleton.mpr trivial⟩)

theorem integral_line (l : RequestLine) : l.doc.Integral := by
  apply everyMember_iff.mpr
  simp only [forall_mem_cons]
  refine ⟨trivial, trivial, integral_integer l.quantity, integral_money l.unitListPrice,
    integral_texts l.categoryPath, ?_, ?_, nofun⟩
  · cases l.brand with
    | none => trivial
    | some brand => trivial
  · refine everyMember_iff.mpr fun member inside => ?_
    obtain ⟨entry, -, rfl⟩ := mem_map.mp inside
    trivial

theorem integral_context (c : RequestContext) : c.doc.Integral := by
  refine everyMember_iff.mpr fun member inside => ?_
  rcases mem_append.mp inside with user | rest
  · obtain ⟨user, -, rfl⟩ := mem_map.mp user
    trivial
  · simp only [mem_cons, not_mem_nil, or_false] at rest
    rcases rest with rfl | rfl | rfl | rfl
    · trivial
    · trivial
    · exact integral_texts c.couponCodes
    · trivial

theorem integral_request (request : CalculateRequest) : request.doc.Integral := by
  refine everyMember_iff.mpr (forall_mem_cons.mpr ⟨everyElement_iff.mpr fun doc member => ?_,
    forall_mem_singleton.mpr (integral_context request.context)⟩)
  obtain ⟨line, -, rfl⟩ := mem_map.mp member
  exact integral_line line

theorem fields_serialize {request : CalculateRequest} {fields : Fields}
    (parsed : parseMessage (serialize request) = some fields) : ∀ field ∈ fields, 4 ≤ field.1 := by
  have visible : ∀ c ∈ print (fun _ => false) request.doc, 0x20 ≤ c.toNat :=
    visible_print (fun _ escaped => by cases escaped) request.doc (integral_request request)
  obtain ⟨read, reading, rfl⟩ := map_eq_some_iff.mp parsed
  exact legible_fields (legible_utf8 visible 3) reading

theorem contents_eq_nil {fields : Fields} {number : Nat}
    (apart : ∀ field ∈ fields, number < field.1) : contents fields number = [] := by
  refine filterMap_eq_nil_iff.mpr fun field member => ?_
  have far := apart field member
  obtain ⟨k, value⟩ := field
  cases value with
  | bytes content => exact if_neg (Nat.ne_of_gt far)
  | _ => rfl

/-- **A request** as the server reads it has no lines. -/
theorem receive_serialize {request : CalculateRequest} {message : CalculateCartRequest}
    (received : receive (serialize request) = some message) : message.lines = [] := by
  obtain ⟨fields, parsed, decoded⟩ := bind_eq_some_iff.mp received
  have none : contents fields 1 = [] := contents_eq_nil fun field member =>
    Nat.lt_of_lt_of_le (by decide) (fields_serialize parsed field member)
  simp only [CalculateCartRequest.decode, submessages, none, bind_eq_bind,
    bind_eq_some_iff] at decoded
  obtain ⟨lines, empty, context, -, context', -, quote, -, quote', -, same⟩ := decoded
  cases same
  exact (some.inj empty).symm

theorem encodeFields_append (fields rest : Fields) :
    encodeFields (fields ++ rest) = encodeFields fields ++ encodeFields rest := by
  induction fields with
  | nil => rfl
  | cons field fields ih =>
    obtain ⟨number, value⟩ := field
    simp only [cons_append, encodeFields, ih, append_assoc]

theorem subtotal_tag (currency : String) (quote : Quote) : 0x12 ∈ respond currency quote := by
  have first : 0x12 ∈ encodeFields (setMoney 2 quote.subtotal currency) := mem_cons_self
  simp only [respond, response, encodeFields_append, mem_append]
  exact .inl (.inl (.inl (.inl (.inl (.inl (.inl (.inl (.inr first))))))))

/-- **An answer** is not read by the client. -/
theorem deserialize_respond (currency : String) (quote : Quote) :
    deserialize (respond currency quote) = none := by
  refine eq_none_iff_forall_ne_some.mpr fun doc parsed => ?_
  have shown : '\x12' ∈ decodeUtf8 (respond currency quote) :=
    mem_decodeFrom (by decide : (0x12 : UInt8).toNat < 0x80) (subtotal_tag currency quote) nofun
  exact absurd (visible_of_parse parsed _ shown) (by decide)

theorem calculateCart_unread {set : RuleSet} {now : Int} {bytes reply : List UInt8}
    (answered : calculateCart set now bytes = some reply) : deserialize reply = none := by
  simp only [calculateCart, bind_eq_bind, bind_eq_some_iff] at answered
  obtain ⟨request, -, quote, -, replied⟩ := answered
  cases replied
  exact deserialize_respond _ quote

/-- **No exchange succeeds.** No answer is read by the client, and no request with lines is
understood by the server. -/
theorem exchange_fails (request : CalculateRequest) (currency : String) (quote : Quote) :
    ¬ (Understood request ∧ Inverted currency quote) ∧ deserialize (respond currency quote) = none ∧
      (request.lines ≠ [] → ¬ Understood request) ∧
      ∀ set now bytes reply, calculateCart set now bytes = some reply →
        deserialize reply = none := by
  have unread := deserialize_respond currency quote
  refine ⟨fun ⟨_, inverted⟩ => ?_, unread, fun filled ⟨message, received, lines, _⟩ => ?_,
    fun set now bytes reply answered => calculateCart_unread answered⟩
  · cases unread.symm.trans inverted
  · rw [receive_serialize received] at lines
    cases lines_eq : request.lines with
    | nil => exact filled lines_eq
    | cons line rest =>
      rw [lines_eq] at lines
      cases lines

def lampCart : CalculateRequest where
  lines := [⟨"LAMP-1", "lamp", 2, ⟨4500, "EGP"⟩, ["home", "lighting"], none, [("colour", "red")]⟩]
  context := ⟨none, "EGP", "EG", [], "web"⟩

def lampQuote : Quote where
  lines := [⟨"LAMP-1", 2, 4500, 4500, 9000, 0, 9000, []⟩]
  subtotal := 9000
  discountTotal := 0
  shippingTotal := 0
  taxTotal := 0
  grandTotal := 9000
  applied := []
  rejected := []
  taxLines := []
  rulesVersion := "v1"

/-- The server refuses the request of a cart with one lamp, and the client its price. -/
theorem lamp_unpriced : ¬ Understood lampCart ∧ ¬ Inverted "EGP" lampQuote := by
  have refused : (receive (serialize lampCart)).isNone = true := by decide +kernel
  have unread : (deserialize (respond "EGP" lampQuote)).isNone = true := by decide +kernel
  refine ⟨fun ⟨message, received, _⟩ => ?_, fun inverted => ?_⟩
  · rw [received] at refused
    cases refused
  · rw [inverted] at unread
    cases unread

end Souq.Pricing.Rpc
