import Mathlib.Data.Set.Function

/-!
# The provider's idempotency keys

`PSPKeyDeriver` names a movement of money after the operation, the order and the client's
key, and never after the attempt. A Go string is a `String` with one character for each byte,
and the MAC is a function of the salt and the message.
-/

namespace Souq.Payments.ProviderKeys

open List

def opAuthorize : String := "authorize"
def opCapture : String := "capture"
def opVoid : String := "void"
def opRefund : String := "refund"

def valid (operation : String) : Bool :=
  operation ∈ [opAuthorize, opCapture, opVoid, opRefund]

/-- `%d:%s`, the length of a field and the field. -/
def frame (field : String) : String := toString field.length ++ ":" ++ field

/-- What is written to the MAC. -/
def message (operation orderID idempotencyKey : String) : String :=
  String.join ([operation, orderID, idempotencyKey].map frame)

def hexDigit (n : Nat) : Char := "0123456789abcdef".toList.getD n '0'

def encodeToString (bytes : List UInt8) : List Char :=
  bytes.flatMap fun b => [hexDigit (b.toNat / 16), hexDigit (b.toNat % 16)]

/-- `PSPKeyDeriver`, with what it has from the standard library: the MAC and `%q`. -/
structure Deriver where
  hmac : String → String → List UInt8
  quote : String → String
  salt : String

namespace Deriver

/-- The first 128 bits of the MAC. -/
def short (d : Deriver) (text : String) : List UInt8 := (d.hmac d.salt text).take 16

/-- The key of an operation, and what it cannot be derived from. -/
def derive (d : Deriver) (operation orderID idempotencyKey : String) : Except String String :=
  if orderID = "" then .error "payment: cannot derive a PSP key without an order id"
  else if idempotencyKey = "" then
    .error "payment: cannot derive a PSP key without the client idempotency key"
  else if !valid operation then .error ("payment: unknown operation " ++ d.quote operation)
  else
    let sum := d.hmac d.salt (message operation orderID idempotencyKey)
    .ok ("souq" ++ String.ofList ((encodeToString sum).take 32))

def deriveRefund (d : Deriver) (orderID refundID : String) : Except String String :=
  if refundID = "" then .error "payment: cannot derive a refund key without a refund id"
  else d.derive opRefund orderID refundID

end Deriver

/-- The digits end at the first colon, and say where the field ends. -/
theorem frame_append_inj {field field' : String} {rest rest' : List Char}
    (same : (frame field).toList ++ rest = (frame field').toList ++ rest') :
    field = field' ∧ rest = rest' := by
  have digits (n : Nat) (text : List Char) :
      (Nat.toDigits 10 n ++ ':' :: text).takeWhile Char.isDigit = Nat.toDigits 10 n := by
    rw [takeWhile_append_of_pos fun c member =>
      Nat.isDigit_of_mem_toDigits (by decide) (by decide) member]
    exact append_nil _
  have framed (field : String) (text : List Char) : (frame field).toList ++ text =
      Nat.toDigits 10 field.length ++ ':' :: (field.toList ++ text) := by
    simp [frame, String.toList_append, append_assoc]
  rw [framed, framed] at same
  have lengths := congrArg (List.takeWhile Char.isDigit) same
  rw [digits, digits] at lengths
  rw [lengths] at same
  have tails := (List.cons.inj (append_cancel_left same)).2
  have long : field.length = field'.length := by
    rw [← Nat.ofDigitChars_ten_toDigits (n := field.length), lengths, Nat.ofDigitChars_ten_toDigits]
  obtain ⟨fields, rests⟩ := append_inj tails long
  exact ⟨String.toList_injective fields, rests⟩

theorem message_inj {operation operation' orderID orderID' key key' : String}
    (same : message operation orderID key = message operation' orderID' key') :
    operation = operation' ∧ orderID = orderID' ∧ key = key' := by
  have texts := congrArg String.toList same
  simp only [message, map_cons, map_nil, String.join_cons, String.toList_append] at texts
  obtain ⟨operations, texts⟩ := frame_append_inj texts
  obtain ⟨orders, texts⟩ := frame_append_inj texts
  exact ⟨operations, orders, (frame_append_inj texts).1⟩

theorem take_encodeToString (n : Nat) (bytes : List UInt8) :
    (encodeToString bytes).take (2 * n) = encodeToString (bytes.take n) := by
  induction n generalizing bytes with
  | zero => rfl
  | succ n ih =>
    cases bytes with
    | nil => rfl
    | cons b bytes => exact congrArg (fun tail => _ :: _ :: tail) (ih bytes)

theorem encodeToString_injective : Function.Injective encodeToString := by
  have hexDigits : ∀ n < 16, ∀ m < 16, hexDigit n = hexDigit m → n = m := by decide
  intro bytes
  induction bytes with
  | nil =>
    rintro (_ | ⟨b, others⟩) same
    · rfl
    · cases same
  | cons b bytes ih =>
    rintro (_ | ⟨b', others⟩) same
    · cases same
    · obtain ⟨high, same⟩ := List.cons.inj same
      obtain ⟨low, same⟩ := List.cons.inj same
      have bound := b.toNat_lt
      have bound' := b'.toNat_lt
      have first := hexDigits _ (by omega) _ (by omega) high
      have second := hexDigits _ (by omega) _ (by omega) low
      have byte : b = b' := UInt8.toNat_inj.mp (by omega)
      rw [byte, ih same]

theorem Deriver.derive_ok {d : Deriver} {operation orderID idempotencyKey key : String}
    (derived : d.derive operation orderID idempotencyKey = .ok key) :
    key = "souq" ++ String.ofList
      (encodeToString (d.short (message operation orderID idempotencyKey))) := by
  unfold derive at derived
  split_ifs at derived
  cases derived
  rw [show 32 = 2 * 16 from rfl, take_encodeToString]
  rfl

theorem Deriver.derive_inj {d : Deriver} {used : Set String}
    (collisionFree : Set.InjOn d.short used)
    {operation operation' orderID orderID' key key' shared : String}
    (first : message operation orderID key ∈ used)
    (second : message operation' orderID' key' ∈ used)
    (derived : d.derive operation orderID key = .ok shared)
    (derived' : d.derive operation' orderID' key' = .ok shared) :
    operation = operation' ∧ orderID = orderID' ∧ key = key' := by
  have same := (derive_ok derived).symm.trans (derive_ok derived')
  have texts := congrArg String.toList same
  simp only [String.toList_append, String.toList_ofList] at texts
  exact message_inj (collisionFree first second
    (encodeToString_injective (append_cancel_left texts)))

/-- The message says what is moved, and where the truncated MAC has no collision among the
messages in use, so does the key. -/
theorem keys_distinct (d : Deriver) {used : Set String} (collisionFree : Set.InjOn d.short used) :
    (∀ operation orderID key operation' orderID' key',
      message operation orderID key = message operation' orderID' key' →
      operation = operation' ∧ orderID = orderID' ∧ key = key') ∧
    (∀ operation orderID key, valid operation = true → orderID ≠ "" → key ≠ "" →
      ∃ provided, d.derive operation orderID key = .ok provided) ∧
    (∀ operation orderID key operation' orderID' key' provided,
      message operation orderID key ∈ used → message operation' orderID' key' ∈ used →
      d.derive operation orderID key = .ok provided →
      d.derive operation' orderID' key' = .ok provided →
      operation = operation' ∧ orderID = orderID' ∧ key = key') ∧
    ∀ orderID refundID operation orderID' key provided, operation ≠ opRefund →
      message opRefund orderID refundID ∈ used → message operation orderID' key ∈ used →
      d.deriveRefund orderID refundID = .ok provided →
      d.derive operation orderID' key ≠ .ok provided := by
  refine ⟨fun _ _ _ _ _ _ => message_inj, fun operation orderID key known order named => ?_,
    fun _ _ _ _ _ _ _ => d.derive_inj collisionFree, ?_⟩
  · unfold Deriver.derive
    rw [if_neg order, if_neg named, known]
    exact ⟨_, rfl⟩
  · intro orderID refundID operation orderID' key provided other first second refund derived
    unfold Deriver.deriveRefund at refund
    split_ifs at refund
    exact other (d.derive_inj collisionFree first second refund derived).1.symm

/-- What HMAC-SHA256 gives under a salt of 32 times `x` for the capture and the refund of order
`1:2` under the key `3`. -/
def sampled : Deriver where
  hmac := fun _ text =>
    if text = "7:capture3:1:21:3" then
      [52, 117, 221, 246, 57, 234, 234, 117, 7, 46, 125, 252, 9, 118, 215, 44, 150, 165, 99, 233,
        24, 207, 211, 77, 113, 102, 184, 9, 141, 129, 91, 74]
    else
      [70, 113, 243, 114, 186, 88, 228, 238, 13, 239, 128, 181, 118, 105, 54, 9, 217, 44, 44, 186,
        152, 9, 16, 138, 174, 81, 172, 229, 225, 107, 193, 2]
  quote := String.quote
  salt := "xxxxxxxxxxxxxxxxxxxxxxxxxxxxxxxx"

theorem sampled_apart :
    sampled.deriveRefund "1:2" "3" = .ok "souq4671f372ba58e4ee0def80b576693609" ∧
    sampled.derive opCapture "1:2" "3" ≠ .ok "souq4671f372ba58e4ee0def80b576693609" := by
  have refund : sampled.deriveRefund "1:2" "3" = .ok "souq4671f372ba58e4ee0def80b576693609" := by
    decide
  have apart : Set.InjOn sampled.short {"7:capture3:1:21:3", "6:refund3:1:21:3"} := by
    rintro _ (rfl | rfl) _ (rfl | rfl) same
    · rfl
    · exact absurd same (by decide)
    · exact absurd same (by decide)
    · rfl
  exact ⟨refund, (keys_distinct sampled apart).2.2.2 _ _ _ _ _ _ (by decide)
    (.inr (by decide)) (.inl (by decide)) refund⟩

end Souq.Payments.ProviderKeys
