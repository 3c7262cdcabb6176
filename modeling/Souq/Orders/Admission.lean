import Mathlib
import Souq.Orders.Database

/-!
# What order-service accepts

`PlaceOrderInput.Validate`, `RecomputeTotal` and the checks of `PlaceOrder` before its
transaction, and what the columns of `orders` make of the order it inserts. Amounts are
64-bit integers whose sums and products wrap around. The identifiers the rest of the
model numbers are still strings here, because their form is checked.
-/

namespace Souq.Orders.Admission

/-- Go's `strings.ToUpper`. -/
abbrev ToUpper := String → String

/-- What a 64-bit integer keeps of a number. -/
def int64 (n : Int) : Int := n.bmod (2 ^ 64)

def add (m o : Money) : Except String Money :=
  if m.currency ≠ o.currency then
    .error ("currency mismatch: " ++ m.currency ++ " + " ++ o.currency)
  else .ok ⟨int64 (m.amount + o.amount), m.currency⟩

def mul (m : Money) (qty : Int) : Money := ⟨int64 (m.amount * qty), m.currency⟩

/-- An amount as error messages show it. -/
def string (m : Money) : String :=
  let cents := (m.amount.tmod 100).natAbs
  toString (m.amount.tdiv 100) ++ "." ++ (if cents < 10 then "0" else "") ++
  toString cents ++ " " ++ m.currency

/-- Where an order goes. -/
structure Address where
  recipient : String
  line1 : String
  line2 : String := ""
  city : String
  region : String := ""
  postalCode : String
  countryCode : String
  phone : String := ""

/-- A line of an order. -/
structure OrderItem where
  lineNo : Nat
  sku : String
  productID : String
  title : String
  imageURL : String := ""
  quantity : Int
  unitPrice : Money
  lineTotal : Money

/-- What a checkout request supplies. A user or key that is the empty string is `none`. -/
structure PlaceOrderInput where
  userID : Option ID
  items : List OrderItem
  subtotal : Money
  discountTotal : Money
  shippingTotal : Money
  taxTotal : Money
  expectedTotal : Money
  shippingAddress : Address
  billingAddress : Option Address := none
  paymentMethodToken : String
  rulesVersion : String
  idempotencyKey : Option ID

/-- Why `PlaceOrder` refuses a request. -/
inductive PlaceError where
  | invalidOrder (detail : String)
  | totalMismatch (detail : String)
  deriving DecidableEq

def crockford (c : Char) : Bool :=
  (decide ('0' ≤ c) && decide (c ≤ '9')) ||
    (decide ('A' ≤ c) && decide (c ≤ 'Z') && c != 'I' && c != 'L' && c != 'O' && c != 'U')

def validID (kind id : String) : Bool :=
  id.utf8ByteSize == kind.utf8ByteSize + 1 + 26 && (kind ++ "_").toList.isPrefixOf id.toList &&
    (id.toList.drop (kind.length + 1)).all crockford

def Address.validate (toUpper : ToUpper) (a : Address) : Except String Unit :=
  if a.recipient = "" then .error "recipient is required"
  else if a.line1 = "" then .error "line1 is required"
  else if a.city = "" then .error "city is required"
  else if a.postalCode = "" then .error "postalCode is required"
  else if a.countryCode.utf8ByteSize ≠ 2 ∨ toUpper a.countryCode ≠ a.countryCode then
    .error "countryCode must be ISO-3166-1 alpha-2, uppercase"
  else .ok ()

def validateItems : Nat → List OrderItem → Except String Unit
  | _, [] => .ok ()
  | i, it :: items =>
    if validID "sku" it.sku = false then .error s!"items[{i}].sku is not a valid SKU id"
    else if validID "prd" it.productID = false then
      .error s!"items[{i}].productId is not a valid product id"
    else if it.quantity < 1 ∨ 999 < it.quantity then
      .error s!"items[{i}].quantity must be between 1 and 999"
    else if it.unitPrice.amount < 0 then .error s!"items[{i}].unitPrice cannot be negative"
    else validateItems (i + 1) items

/-- The checks of an order, the first that fails deciding. -/
def PlaceOrderInput.validate (toUpper : ToUpper) (input : PlaceOrderInput) :
    Except String Unit := do
  if input.userID = none then throw "userId is required"
  if input.items.length = 0 then throw "an order must have at least one line"
  if 100 < input.items.length then throw "an order may not exceed 100 lines"
  if input.paymentMethodToken = "" then throw "paymentMethodToken is required"
  if input.rulesVersion = "" then throw "rulesVersion is required"
  if input.idempotencyKey = none then throw "Idempotency-Key is required on this endpoint"
  (input.shippingAddress.validate toUpper).mapError ("shippingAddress: " ++ ·)
  if let some billing := input.billingAddress then
    (billing.validate toUpper).mapError ("billingAddress: " ++ ·)
  validateItems 0 input.items

def sumLines : Money → List OrderItem → Except String Money
  | sub, [] => .ok sub
  | sub, it :: items => do
    if mul it.unitPrice it.quantity ≠ it.lineTotal then
      throw (s!"line {it.lineNo}: lineTotal {string it.lineTotal} does not equal " ++
        s!"unitPrice x quantity {string (mul it.unitPrice it.quantity)}")
    sumLines (← add sub (mul it.unitPrice it.quantity)) items

/-- The grand total, derived from the parts. -/
def recomputeTotal (input : PlaceOrderInput) : Except String Money := do
  let sub ← sumLines ⟨0, input.subtotal.currency⟩ input.items
  if sub ≠ input.subtotal then
    throw s!"subtotal {string input.subtotal} does not equal the sum of lines {string sub}"
  let total ← [input.discountTotal, input.shippingTotal, input.taxTotal].foldlM add sub
  if total.amount < 0 then throw s!"computed total is negative: {string total}"
  pure total

/-- The checks of `PlaceOrder` before its transaction, and the total of the order. -/
def admission (toUpper : ToUpper) (input : PlaceOrderInput) : Except PlaceError Money := do
  (input.validate toUpper).mapError .invalidOrder
  let total ← (recomputeTotal input).mapError .invalidOrder
  if total ≠ input.expectedTotal then
    throw (.totalMismatch (s!"cart total is {string total} but the client expected " ++
      string input.expectedTotal))
  pure total

/-- What a `CHAR(3)` column keeps of a text: three characters, filled up with blanks.
More than three are taken only when the rest is blank. -/
def char3 (text : String) : Option String :=
  if (text.toList.drop 3).all (· == ' ') then
    some (String.ofList ((text.toList ++ [' ', ' ', ' ']).take 3))
  else none

theorem length_char3 {text stored : String} (kept : char3 text = some stored) :
    stored.length = 3 := by
  unfold char3 at kept
  split at kept <;> cases kept
  rw [String.length_ofList, List.length_take, List.length_append]
  simp

/-- The amounts of an order take the currency of its row. -/
def inCurrency (currency : String) (m : Money) : Money := ⟨m.amount, currency⟩

/-- A line as its row is read back. -/
def OrderItem.stored (number : String → ID) (currency : String) (it : OrderItem) :
    Orders.OrderItem where
  lineNo := it.lineNo
  sku := number it.sku
  productID := number it.productID
  title := it.title
  quantity := it.quantity
  unitPrice := inCurrency currency it.unitPrice
  lineTotal := inCurrency currency it.lineTotal

/-- The order as its rows are read back, when the tables take it: the currency fits its
column, and the `CHECK`s on the total and the quantities hold. -/
def PlaceOrderInput.stored (number : String → ID) (id : ID) (input : PlaceOrderInput)
    (total : Money) : Option Order :=
  if total.amount < 0 ∨ ∃ it ∈ input.items, it.quantity ≤ 0 then none
  else
    (char3 total.currency).map fun currency =>
      newOrder id
        { userID := input.userID.getD 0
          items := input.items.map (OrderItem.stored number currency)
          subtotal := inCurrency currency input.subtotal
          discountTotal := inCurrency currency input.discountTotal
          shippingTotal := inCurrency currency input.shippingTotal
          taxTotal := inCurrency currency input.taxTotal
          paymentMethodToken := input.paymentMethodToken }
        (inCurrency currency total)

/-- `PlaceOrder` accepts a request as an order. -/
def Accepts (toUpper : ToUpper) (number : String → ID) (input : PlaceOrderInput) (ord : Order) :
    Prop :=
  ∃ total, admission toUpper input = .ok total ∧ input.stored number ord.id total = some ord

theorem Accepts.total {toUpper : ToUpper} {number : String → ID} {input : PlaceOrderInput}
    {ord : Order} (accepts : Accepts toUpper number input ord) :
    ord.total.amount = input.expectedTotal.amount ∧ ord.total.currency.length = 3 := by
  obtain ⟨total, admits, stored⟩ := accepts
  have shown : total = input.expectedTotal := by
    unfold admission at admits
    simp only [bind, Except.bind] at admits
    split at admits
    · cases admits
    · split at admits
      · cases admits
      · split at admits
        · cases admits
        · rename_i same
          cases admits
          exact not_not.mp same
  unfold PlaceOrderInput.stored at stored
  split at stored
  · cases stored
  · obtain ⟨currency, kept, made⟩ := Option.map_eq_some_iff.mp stored
    rw [← made]
    exact ⟨by rw [← shown]; rfl, length_char3 kept⟩

def tenPounds : PlaceOrderInput where
  userID := some 7
  items := [
    { lineNo := 0
      sku := "sku_01HZX3V9K2M4N6P8Q0R2S4T6V8"
      productID := "prd_01HZX3V9K2M4N6P8Q0R2S4T6V9"
      title := "Oud"
      quantity := 2
      unitPrice := ⟨500, "EGP"⟩
      lineTotal := ⟨1000, "EGP"⟩ }]
  subtotal := ⟨1000, "EGP"⟩
  discountTotal := ⟨0, "EGP"⟩
  shippingTotal := ⟨0, "EGP"⟩
  taxTotal := ⟨0, "EGP"⟩
  expectedTotal := ⟨1000, "EGP"⟩
  shippingAddress :=
    { recipient := "Mona", line1 := "1 Tahrir", city := "Cairo", postalCode := "11511",
      countryCode := "EG" }
  paymentMethodToken := "tok"
  rulesVersion := "v1"
  idempotencyKey := some 9

end Souq.Orders.Admission
