import Mathlib.Algebra.Group.Int.Defs
import Mathlib.Algebra.Group.Nat.Defs
import Mathlib.Data.Rat.Defs
import Souq.Payments.Callback

/-!
# Paymob's callbacks

How the Paymob adapter of payment-service reads a callback: the JSON body of a POST or the
query of a redirect becomes a map, the HMAC over twenty of its fields is compared with the one
that was presented, and other fields become a `Callback`. Each accessor has its own rules for
the two shapes.

`encoding/json` and the texts Go gives to a fraction and to a composite value are parameters, as
is HMAC-SHA512 under the account's secret. When the callback happened and what is kept for the
log are left out, since nothing reads them.
-/

namespace Souq.Paymob

open Payments (CallbackKind ReasonCode)

/-- A decoded value, Go's `any`. A `float64` is the number it denotes. -/
inductive Any where
  | null
  | bool (b : Bool)
  | string (s : String)
  | float64 (x : Rat)
  | array (items : List Any)
  | object (fields : String → Option Any)

/-- Go's `map[string]any`. -/
abbrev Flat := String → Option Any

/-- A missing key reads as `nil`. -/
def Flat.get (m : Flat) (key : String) : Any := (m key).getD .null

/-- A body's envelope; `obj` is `none` when it is missing. -/
structure Envelope where
  type : String
  obj : Option Any
  hmac : String

/-- The account and what the adapter relies on: the currency, the HMAC of a message in
hexadecimal digits, `strings.ToLower`, the decoder of a body, and the texts of a number that
is no 64-bit integer and of the inside of a composite value. -/
structure Adapter where
  currency : String
  mac : String → String
  toLower : String → String
  unmarshal : List UInt8 → Option Envelope
  formatFloat : Rat → String
  numeric : ∀ x, ∀ c ∈ (formatFloat x).toList, c.isDigit = true ∨ c = '-' ∨ c = '.'
  spell : Any → String

/-- The conversion to `int64`: truncation, and the least integer where it does not fit. -/
def toInt64 (x : Rat) : Int :=
  if -2 ^ 63 ≤ x.num.tdiv x.den ∧ x.num.tdiv x.den < 2 ^ 63 then x.num.tdiv x.den else -2 ^ 63

/-- The digits of `strconv.ParseUint` in base ten, saturating at 64 bits. -/
def parseUint : Nat → List Char → Option Nat
  | n, [] => some n
  | n, c :: rest =>
    if c.isDigit then
      if 2 ^ 64 ≤ 10 * n + (c.toNat - 48) then some (2 ^ 64 - 1)
      else parseUint (10 * n + (c.toNat - 48)) rest
    else none

/-- `strconv.ParseInt` in base ten, whose value is used even when it fails. -/
def parseInt (text : List Char) : Int :=
  match text with
  | '-' :: digits => -natural digits (2 ^ 63)
  | '+' :: digits => natural digits (2 ^ 63 - 1)
  | digits => natural digits (2 ^ 63 - 1)
where
  natural (digits : List Char) (largest : Nat) : Int :=
    if digits = [] then 0 else min ((parseUint 0 digits).getD 0) largest

/-- `strings.EqualFold` with a text in lower case. -/
def equalFold (s lower : String) : Bool := s.toList.map Char.toLower = lower.toList

/-- `strings.Contains`. -/
def contains (m needle : String) : Bool := m.toList.tails.any needle.toList.isPrefixOf

def firstNonEmpty (vals : List String) : String := (vals.find? (· ≠ "")).getD ""

/-- `strings.Split` at points. -/
def splitAtPoints : List Char → List (List Char)
  | [] => [[]]
  | c :: rest =>
    if c = '.' then [] :: splitAtPoints rest
    else
      match splitAtPoints rest with
      | part :: parts => (c :: part) :: parts
      | [] => [[c]]

namespace Adapter

variable (p : Adapter)

def renderHMACScalar : Any → String
  | .null => ""
  | .bool b => if b then "true" else "false"
  | .string s => if s = "True" then "true" else if s = "False" then "false" else s
  | .float64 x => if x = toInt64 x then toString (toInt64 x) else p.formatFloat x
  | .array items => "[" ++ p.spell (.array items) ++ "]"
  | .object fields => "map[" ++ p.spell (.object fields) ++ "]"

/-- The walk of `hmacValue` along the parts of a path. -/
def descend : Any → List String → Option Any
  | v, [] => some v
  | .object m, part :: parts => (m part).bind fun v => descend v parts
  | _, _ :: _ => none

/-- A nested field, or the field of the dotted name where there is no nested one. -/
def hmacValue (flat : Flat) (field : String) : String :=
  match descend (.object flat) ((splitAtPoints field.toList).map String.ofList) with
  | some v => p.renderHMACScalar v
  | none => p.renderHMACScalar (flat.get field)

def stringField (m : Flat) (key : String) : String := p.renderHMACScalar (m.get key)

def nestedString (m : Flat) (outer inner : String) : String :=
  match m.get outer with
  | .object obj => p.renderHMACScalar (Flat.get obj inner)
  | _ => ""

def boolField (m : Flat) (key : String) : Bool :=
  match m.get key with
  | .bool b => b
  | .string s => equalFold s "true"
  | _ => false

def intField (m : Flat) (key : String) : Int :=
  match m.get key with
  | .float64 x => toInt64 x
  | .string s => parseInt s.toList
  | _ => 0

def hmacFieldOrder : List String :=
  ["amount_cents", "created_at", "currency", "error_occured", "has_parent_transaction", "id",
    "integration_id", "is_3d_secure", "is_auth", "is_capture", "is_refunded",
    "is_standalone_payment", "is_voided", "order.id", "owner", "pending", "source_data.pan",
    "source_data.sub_type", "source_data.type", "success"]

def signedMessage (flat : Flat) : String :=
  String.join (hmacFieldOrder.map (p.hmacValue flat))

/-- The signature of a callback. -/
def computeHMAC (flat : Flat) : String := p.mac (p.signedMessage flat)

/-- A provider's notification. `orderID` is the merchant reference. -/
structure Callback where
  verified : Bool
  kind : CallbackKind
  providerRef : String
  orderID : String
  amount : Int
  currency : String
  success : Bool
  reasonCode : Option ReasonCode := none
  declineCode : String := ""
  deriving DecidableEq

/-- The reason for a decline, by its message first. -/
def mapDeclineCode (code message : String) : ReasonCode :=
  let m := p.toLower message
  if contains m "insufficient" then .insufficientFunds
  else if contains m "expired" then .cardExpired
  else if contains m "cvv" || contains m "cvc" || contains m "security code" then .invalidCVC
  else if contains m "3d" || contains m "authentication" then .threeDSFailed
  else if contains m "fraud" || contains m "risk" then .fraudSuspected
  else if contains m "timeout" || contains m "unavailable" || contains m "try again" ||
      contains m "issuer down" then .providerUnavailable
  else if code = "51" then .insufficientFunds
  else if code = "54" then .cardExpired
  else if code = "82" ∨ code = "N7" then .invalidCVC
  else if code = "91" ∨ code = "96" then .providerUnavailable
  else if code = "04" ∨ code = "07" ∨ code = "41" ∨ code = "43" then .fraudSuspected
  else .cardDeclined

/-- A transaction that is neither reversed, successful nor pending. -/
def hasFailed (flat : Flat) : Bool :=
  !boolField flat "is_refunded" && !boolField flat "is_voided" && !boolField flat "success" &&
    !boolField flat "pending"

def kindOf (flat : Flat) : CallbackKind :=
  if boolField flat "is_refunded" then .refunded
  else if boolField flat "is_voided" then .voided
  else if boolField flat "success" && boolField flat "is_capture" then .captured
  else if boolField flat "success" then .authorized
  else if boolField flat "pending" then .authorized
  else .failed

/-- What a callback means to the service. -/
def normaliseCallback (flat : Flat) : Callback :=
  let failed := hasFailed flat
  let declineCode := if failed then p.nestedString flat "data" "txn_response_code" else ""
  { verified := true
    kind := kindOf flat
    providerRef := p.stringField flat "id"
    orderID := firstNonEmpty [p.nestedString flat "order" "merchant_order_id",
      p.stringField flat "merchant_order_id"]
    amount := intField flat "amount_cents"
    currency := firstNonEmpty [p.stringField flat "currency", p.currency]
    success := boolField flat "success"
    declineCode := declineCode
    reasonCode := if failed then some (p.mapDeclineCode declineCode
      (p.nestedString flat "data" "message")) else none }

/-- The request of a callback. -/
structure Input where
  body : List UInt8 := []
  headers : List (String × String) := []
  query : List (String × String) := []

/-- Why a callback is refused. -/
inductive Refusal where
  | objNotObject
  | neither
  | noHMAC
  | mismatch
  deriving DecidableEq

def Refusal.text : Refusal → String
  | .objNotObject => "paymob: callback obj is not an object"
  | .neither => "paymob: callback had neither a JSON body nor query parameters"
  | .noHMAC => "psp: callback signature verification failed: no hmac present"
  | .mismatch => "psp: callback signature verification failed"

def value (pairs : List (String × String)) (key : String) : String := (pairs.lookup key).getD ""

def flattened (query : List (String × String)) : Flat := fun key =>
  (query.lookup key).map .string

/-- The envelope of a body that decodes and has an `obj`. -/
def bodyOf (input : Input) : Option (Envelope × Any) :=
  if input.body = [] then none
  else (p.unmarshal input.body).bind fun envelope => envelope.obj.map fun obj => (envelope, obj)

def flatten (input : Input) : Except Refusal (Flat × String) :=
  match p.bodyOf input with
  | some (envelope, obj) =>
    let presented := firstNonEmpty
      [envelope.hmac, value input.query "hmac", value input.headers "hmac"]
    match obj with
    | .object flat => .ok (flat, presented)
    | .null => .ok (fun _ => none, presented)
    | _ => .error .objNotObject
  | none =>
    if input.query = [] then .error .neither
    else .ok (flattened input.query, value input.query "hmac")

def presentedHMAC (input : Input) : Except Refusal String := (p.flatten input).map (·.2)

/-- A callback with a valid signature. -/
def parseCallback (input : Input) : Except Refusal Callback := do
  let (flat, presented) ← p.flatten input
  if presented = "" then .error .noHMAC
  else if p.computeHMAC flat ≠ p.toLower presented then .error .mismatch
  else return p.normaliseCallback flat

variable {p}

theorem parseCallback_ok {input : Input} {cb : Callback} :
    p.parseCallback input = .ok cb ↔ ∃ flat presented, p.flatten input = .ok (flat, presented) ∧
      presented ≠ "" ∧ p.computeHMAC flat = p.toLower presented ∧
        p.normaliseCallback flat = cb := by
  unfold parseCallback
  rcases p.flatten input with refusal | ⟨flat, presented⟩
  · simp [bind, Except.bind]
  · by_cases missing : presented = ""
    · simp [bind, Except.bind, missing]
    · by_cases signed : p.computeHMAC flat = p.toLower presented
      · simp [bind, Except.bind, missing, signed, pure, Except.pure]
      · simp [bind, Except.bind, missing, signed]

theorem splitAtPoints_ne_nil (text : List Char) : splitAtPoints text ≠ [] := by
  cases text with
  | nil => nofun
  | cons c rest =>
    unfold splitAtPoints
    split
    · nofun
    · split <;> nofun

theorem eq_of_splitAtPoints {text part : List Char} (single : splitAtPoints text = [part]) :
    part = text := by
  induction text generalizing part with
  | nil =>
    cases single
    rfl
  | cons c rest ih =>
    unfold splitAtPoints at single
    split at single
    · cases rest with
      | nil => cases single
      | cons d rest => exact absurd (List.cons.inj single).2 (splitAtPoints_ne_nil _)
    · split at single
      · next split =>
          cases single
          rw [ih split]
      · next split => exact absurd split (splitAtPoints_ne_nil rest)

theorem hmacValue_single {field : String} (single : splitAtPoints field.toList = [field.toList])
    (flat : Flat) : p.hmacValue flat field = p.stringField flat field := by
  unfold hmacValue stringField
  rw [single]
  simp only [List.map_cons, List.map_nil, String.ofList_toList, descend, Flat.get]
  cases flat field <;> rfl

theorem hmacValue_flattened (query : List (String × String)) (field : String) :
    p.hmacValue (flattened query) field = p.stringField (flattened query) field := by
  rcases split : splitAtPoints field.toList with _ | ⟨part, parts⟩
  · exact absurd split (splitAtPoints_ne_nil _)
  · cases parts with
    | nil =>
      obtain rfl := eq_of_splitAtPoints split
      exact hmacValue_single split _
    | cons next parts =>
      unfold hmacValue stringField
      rw [split]
      simp only [List.map_cons, descend, flattened]
      cases query.lookup (String.ofList part) <;> rfl

end Adapter

end Souq.Paymob
