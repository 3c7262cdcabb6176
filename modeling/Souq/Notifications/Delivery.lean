import Souq.Json
import Souq.Lib.Transition

/-!
# Delivering notifications

`DeliveryService.deliver` of notification-service claims the dedupe key of a command
before anything is sent, and releases the claim when the provider is known not to have
accepted the message. Any number of consumers run it. A statement that fails, or whose
caller dies, may still take effect later.
-/

namespace Souq.Notifications

open Transition Function

/-- A command, as it was parsed. -/
structure Command where
  channel : Json
  userId : Json := .undefined
  to' : Json := .undefined
  template : Json
  locale : Json
  params : Json
  dedupeKey : Json
  sendAfter : Json := .undefined

/-- Whom a message goes to. -/
structure Recipient where
  userId : String
  email : Option String
  phone : Option String
  locale : String
  emailOptOut : Bool
  smsOptOut : Bool
  pushOptOut : Bool

def templates : List String :=
  ["order_confirmed", "order_cancelled", "order_shipped", "order_delivered", "payment_failed",
    "payment_refunded", "password_reset", "email_verification", "security_alert",
    "abandoned_cart", "back_in_stock"]

/-- Templates that ignore opt-out and quiet hours. -/
def transactional : List String :=
  ["order_confirmed", "order_cancelled", "payment_failed", "payment_refunded", "order_shipped",
    "order_delivered", "password_reset", "email_verification", "security_alert"]

/-- `Object.hasOwn` turns its argument into a key. -/
def templateExists (name : Json) : Bool := decide (name.text ∈ templates)

/-- A set of strings holds no value of another type. -/
def isTransactional (template : Json) : Bool := transactional.any template.isStr

/-- Maps an event onto the notification it should produce, if any. -/
def toCommand (type : Json) (data : Json) : Option Command :=
  let base (template : String) (params : List (String × Json)) (dedupeKey : String) : Command :=
    { channel := .str "EMAIL", locale := .str "en-GB", userId := data.get "userId",
      template := .str template, params := .obj params, dedupeKey := .str dedupeKey }
  match type with
  | .str "souq.order.confirmed.v1" =>
    some (base "order_confirmed"
      [("orderRef", data.get "orderId"), ("total", (data.get "total").get "amount"),
        ("name", .str "there")]
      ("order_confirmed:" ++ (data.get "orderId").text))
  | .str "souq.order.cancelled.v1" =>
    some (base "order_cancelled"
      [("orderRef", data.get "orderId"), ("reason", data.get "reasonCode"), ("name", .str "there")]
      ("order_cancelled:" ++ (data.get "orderId").text))
  | .str "souq.order.shipped.v1" =>
    some (base "order_shipped" [("orderRef", data.get "orderId"), ("carrier", data.get "carrier"),
        ("trackingNumber", data.get "trackingNumber"), ("name", .str "there")]
      ("order_shipped:" ++ (data.get "orderId").text))
  | .str "souq.payment.failed.v1" =>
    if (data.get "retriable").truthy then none
    else
      some (base "payment_failed" [("orderRef", data.get "orderId"), ("name", .str "there")]
        ("payment_failed:" ++ (data.get "paymentId").text))
  | .str "souq.payment.refunded.v1" =>
    some (base "payment_refunded"
      [("orderRef", data.get "orderId"), ("amount", (data.get "amount").get "amount"),
        ("name", .str "there")]
      ("payment_refunded:" ++ (data.get "refundId").text))
  | .str "souq.notify.v1" =>
    some {
      channel := data.get "channel", userId := data.get "userId", to' := data.get "to",
      template := data.get "template", locale := (data.get "locale").orElse (.str "en-GB"),
      params := (data.get "params").orElse (.obj []), dedupeKey := data.get "dedupeKey",
      sendAfter := data.get "sendAfter" }
  | _ => none

/-- A record of the topic. -/
inductive Message where
  | empty
  | malformed
  | parsed (envelope : Json)

/-- What `eachMessage` hands to `deliver`. Reading a field of `null` is an error, and the
event is skipped as malformed. -/
def Message.command : Message → Option Command
  | .empty | .malformed | .parsed .null => none
  | .parsed envelope =>
    match toCommand (envelope.get "type") ((envelope.get "data").orElse (.obj [])) with
    | some cmd => if templateExists cmd.template then some cmd else none
    | none => none

/-- Why nothing is sent. -/
inductive SuppressionReason where
  | duplicate
  | optedOut
  | noAddress
  | hardBounced
  | quietHours

/-- What comes of a command. -/
inductive DeliveryOutcome where
  /-- A send to a channel that `send` does not know returns `undefined`. -/
  | sent (providerId : Option String)
  | suppressed (reason : SuppressionReason)
  | failed (reason : String) (retriable : Bool)

def ofNullable : Option String → Json
  | some value => .str value
  | none => .null

def addressFor (channel : Json) : Option Recipient → Json
  | none => .null
  | some r =>
    if channel.isStr "EMAIL" then ofNullable r.email
    else if channel.isStr "SMS" then ofNullable r.phone
    else .null

def optedOut (channel : Json) (r : Recipient) : Bool :=
  if channel.isStr "EMAIL" then r.emailOptOut
  else if channel.isStr "SMS" then r.smsOptOut
  else if channel.isStr "PUSH" then r.pushOptOut
  else false

def inQuietHours (utcHour : Nat) (locale : String) : Bool :=
  let offsetHours := if endsWith locale "-EG" || locale = "ar" then 2 else 0
  let hour := (utcHour + offsetHours + 24) % 24
  decide (22 ≤ hour) || decide (hour < 8)

/-- How `deliver` comes to the send. -/
inductive Screened where
  | threw
  | suppressed (reason : SuppressionReason)
  | passed (address : Json)

/-- What `deliver` does between the claim and the send. The lookup of the recipient never
throws; the one in the suppression list may. A locale that is not a string is an error
where it is first used, at the latest in `render`. -/
def screen (cmd : Command) (found : Option Recipient) (utcHour : Nat) (bounced : Option Bool) :
    Screened :=
  let recipient := if cmd.userId.truthy then found else none
  let address := cmd.to'.orElse (addressFor cmd.channel recipient)
  let locale := (recipient.map fun r => Json.str r.locale).getD cmd.locale
  if !address.truthy then .suppressed .noAddress
  else if !isTransactional cmd.template && recipient.any (optedOut cmd.channel) then
    .suppressed .optedOut
  else
    match locale with
    | .str locale =>
      if !isTransactional cmd.template && cmd.channel.isStr "SMS" && inQuietHours utcHour locale
      then .suppressed .quietHours
      else
        match bounced with
        | none => .threw
        | some true => .suppressed .hardBounced
        | some false => .passed address
    | _ =>
      if !isTransactional cmd.template && cmd.channel.isStr "SMS" then .threw
      else if bounced = some true then .suppressed .hardBounced
      else .threw

/-- What a client throws. -/
structure Failure where
  /-- The value is an `Error`; otherwise `message` is what it is shown as. -/
  isError : Bool := true
  name : String := "Error"
  message : String
  httpStatusCode : Option Nat := none

/-- Retriable means that the provider is certain not to have accepted the message. -/
def isRetriable (err : Failure) : Bool :=
  if !err.isError then false
  else if err.name = "ThrottlingException" || err.name = "TooManyRequestsException" then true
  else
    let message := err.message.toLower
    if includes message "econnrefused" || includes message "enotfound" then true
    else if includes message "timeout" || includes message "etimedout" then false
    else err.httpStatusCode.any fun status => decide (500 ≤ status)

/-- How a provider answers. -/
inductive Answer where
  | accepted (messageId : Option String)
  /-- The client throws, and the message was handed over or not. -/
  | failed (err : Failure) (landed : Bool)

def hasProvider (channel : Json) : Bool := channel.isStr "EMAIL" || channel.isStr "SMS"

/-- The result of `send`, given what the provider would answer. -/
def send (channel : Json) (answer : Answer) : Except Failure (Option String) :=
  if hasProvider channel then
    match answer with
    | .accepted messageId => .ok (some (messageId.getD "unknown"))
    | .failed err _ => .error err
  else if channel.isStr "PUSH" || channel.isStr "WEBHOOK" then
    .error { message := channel.text ++ " delivery is not implemented" }
  else .ok none

def Answer.landed : Answer → Bool
  | .accepted _ => true
  | .failed _ landed => landed

/-- Where a call of `deliver` is. The key is a string from the claim on: the driver
rejects every other value. -/
inductive Phase where
  | idle
  | claiming (cmd : Command)
  | screening (key : String) (cmd : Command)
  | sending (key : String) (cmd : Command) (address : Json)
  | releasing (key : String) (reason : String)
  | returned (outcome : DeliveryOutcome)
  | threw

def Phase.over : Phase → Bool
  | .idle | .returned _ | .threw => true
  | _ => false

/-- The call has claimed this key and not given it back. -/
def Phase.holds : Phase → String → Bool
  | .screening held _, key | .sending held _ _, key | .releasing held _, key => held = key
  | _, _ => false

/-- The statements on `dedupe`. -/
inductive Statement where
  | claim (key : String)
  | release (key : String)
  deriving DecidableEq

/-- The replicas, the table they share and the provider. -/
structure Cluster (ι : Type) where
  /-- The rows of `dedupe`. -/
  dedupe : String → Bool := fun _ => false
  phases : ι → Phase := fun _ => .idle
  /-- Statements whose effect their callers did not learn. -/
  doubt : List Statement := []
  /-- How often the row of a key has expired. -/
  expiries : String → Nat := fun _ => 0
  /-- The messages that a provider has accepted: their keys, and in which of the times
  between two expiries. -/
  accepted : List (String × Nat) := []

/-- One step of a run. -/
inductive Turn (ι : Type) where
  | receive (i : ι) (message : Message)
  | claim (i : ι)
  | claimFails (i : ι)
  | screen (i : ι) (found : Option Recipient) (utcHour : Nat) (bounced : Option Bool)
  | send (i : ι) (answer : Answer)
  | release (i : ι)
  | releaseFails (i : ι)
  /-- The process dies; a message that is being sent has landed or not. -/
  | crash (i : ι) (landed : Bool)
  /-- A statement in doubt takes effect, or never will. -/
  | settle (statement : Statement) (effective : Bool)
  /-- The retention of a row ends. -/
  | expire (key : String)

namespace Cluster

variable {ι : Type} [DecidableEq ι]

def set (s : Cluster ι) (i : ι) (phase : Phase) : Cluster ι :=
  { s with phases := update s.phases i phase }

/-- `INSERT … IF NOT EXISTS` and `DELETE`. -/
def perform (s : Cluster ι) : Statement → Cluster ι
  | .claim key => { s with dedupe := update s.dedupe key true }
  | .release key => { s with dedupe := update s.dedupe key false }

def doubting (s : Cluster ι) (statement : Statement) : Cluster ι :=
  { s with doubt := s.doubt ++ [statement] }

def accept (s : Cluster ι) (key : String) : Cluster ι :=
  { s with accepted := s.accepted ++ [(key, s.expiries key)] }

/-- The end of the `try` and the `catch` block. -/
def afterSend (key : String) : Except Failure (Option String) → Phase
  | .ok providerId => .returned (.sent providerId)
  | .error err =>
    if isRetriable err then .releasing key err.message
    else .returned (.failed err.message false)

def step (s : Cluster ι) : Turn ι → Cluster ι
  | .receive i message =>
    if (s.phases i).over then
      match message.command with
      | some cmd => s.set i (.claiming cmd)
      | none => s.set i .idle
    else s
  | .claim i =>
    match s.phases i with
    | .claiming cmd =>
      match cmd.dedupeKey with
      | .str key =>
        if s.dedupe key then s.set i (.returned (.suppressed .duplicate))
        else (s.perform (.claim key)).set i (.screening key cmd)
      | _ => s.set i .threw
    | _ => s
  | .claimFails i =>
    match s.phases i with
    | .claiming cmd =>
      match cmd.dedupeKey with
      | .str key => (s.doubting (.claim key)).set i .threw
      | _ => s.set i .threw
    | _ => s
  | .screen i found utcHour bounced =>
    match s.phases i with
    | .screening key cmd =>
      match Notifications.screen cmd found utcHour bounced with
      | .threw => s.set i .threw
      | .suppressed reason => s.set i (.returned (.suppressed reason))
      | .passed address => s.set i (.sending key cmd address)
    | _ => s
  | .send i answer =>
    match s.phases i with
    | .sending key cmd _ =>
      let handed := if hasProvider cmd.channel && answer.landed then s.accept key else s
      handed.set i (afterSend key (Notifications.send cmd.channel answer))
    | _ => s
  | .release i =>
    match s.phases i with
    | .releasing key reason => (s.perform (.release key)).set i (.returned (.failed reason true))
    | _ => s
  | .releaseFails i =>
    match s.phases i with
    | .releasing key reason => (s.doubting (.release key)).set i (.returned (.failed reason true))
    | _ => s
  | .crash i landed =>
    match s.phases i with
    | .claiming cmd =>
      match cmd.dedupeKey with
      | .str key => (s.doubting (.claim key)).set i .idle
      | _ => s.set i .idle
    | .sending key cmd _ =>
      (if hasProvider cmd.channel && landed then s.accept key else s).set i .idle
    | .releasing key _ => (s.doubting (.release key)).set i .idle
    | _ => s.set i .idle
  | .settle statement effective =>
    if statement ∈ s.doubt then
      let settled := { s with doubt := s.doubt.erase statement }
      if effective then settled.perform statement else settled
    else s
  | .expire key =>
    { s with
      dedupe := update s.dedupe key false
      expiries := update s.expiries key (s.expiries key + 1) }

/-- The runs of the replicas. -/
def system (ι : Type) [DecidableEq ι] : System (Cluster ι) (Turn ι) := System.ofFunction {} step

/-- The row of a key is retained while a call holds the key or a release of it is in doubt. -/
def Retains (s : Cluster ι) (key : String) : Turn ι → Prop
  | .expire other => other = key → (∀ i, (s.phases i).holds key = false) ∧ .release key ∉ s.doubt
  | _ => True

end Cluster

/-- An error that `isRetriable` accepts means that the provider did not accept the message. -/
def Turn.Honest {ι : Type} : Turn ι → Prop
  | .send _ (.failed err landed) => isRetriable err = true → landed = false
  | _ => True

end Souq.Notifications
