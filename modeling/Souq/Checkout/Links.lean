import Souq.Checkout.Protocol
import Souq.Checkout.World
import Souq.Inventory.Effect
import Souq.Lib.Inbox
import Souq.Orders.Outbox
import Souq.Payments.Effect

/-!
# What the services have in common

The view of a world that the protocol is about, and the identifiers that tie its
rows, messages and handlers together: everything about an order names the
reservation and the payment drawn when it was placed.
-/

namespace Souq.Checkout

open Saga Transact Transition List Inbox
open Orders (Envelope)

def stands (t : Trigger) (e : Envelope) : Bool := triggerFor e.type = some t

/-- How many events are of a kind. -/
def said (events : List Envelope) (t : Trigger) : Nat := events.countP (stands t)

def fresh (events : List Envelope) (processed : List ID) (t : Trigger) : Nat :=
  waiting Orders.Envelope.id (stands t) processed events

/-- The record carries the command of a step. -/
def carries (step : Step) (record : Orders.OutboxRecord) : Bool := record.step = some step

def unclaimed (outbox : List Orders.OutboxRecord) (processed : List ID) (step : Step) : Nat :=
  waiting Orders.OutboxRecord.eventID (carries step) processed outbox

/-- A handler is about to carry out a `RESERVE`. -/
def reserves : Inventory.Task → Bool
  | .apply (.reserve ..) => true
  | _ => false

/-- A handler is about to report that stock fell short. -/
def reports : Inventory.Task → Bool
  | .publishFailure .. => true
  | _ => false

def charges : Payments.Call → Bool
  | .authorize _ => true
  | _ => false

namespace World

/-- The events about orders that the participants have committed. -/
def announcements (w : World) : List Envelope :=
  w.inventory.announced.map fromInventory ++ w.payments.outbox.map fromPayments

def view (orderID : ID) (w : World) : View where
  status := w.status
  authorizeSent := (w.orders.board.ctx false).authorizeSent
  inventorySettled := (w.orders.board.ctx false).inventorySettled
  paymentSettled := (w.orders.board.ctx false).paymentSettled
  sent := fun step => w.orders.outbox.any (carries step)
  said := Checkout.said w.announcements
  fresh := Checkout.fresh w.announcements w.orders.processed
  reserving := unclaimed w.orders.outbox w.inventory.processed .reserve + w.tasks.countP reserves
  failing := w.tasks.countP reports
  authorizing := unclaimed w.orders.outbox w.payments.processed .authorize
  charging := w.calls.countP charges
  reservation := w.reservation orderID
  payment := w.payment orderID

end World

theorem said_append (first second : List Envelope) (t : Trigger) :
    said (first ++ second) t = said first t + said second t := countP_append

theorem fresh_append (first second : List Envelope) (processed : List ID) (t : Trigger) :
    fresh (first ++ second) processed t = fresh first processed t + fresh second processed t :=
  waiting_append ..

variable {v : View} {t : Trigger} {record : Orders.OutboxRecord}

theorem announces_of_grow {before after others : List Envelope} {processed : List ID}
    {said' fresh' : Trigger → Nat}
    (grows : after = before ∨ ∃ e, triggerFor e.type = some t ∧ after = before ++ [e])
    (was : ∀ x, v.said x = said before x + said others x)
    (wasFresh : ∀ x, v.fresh x = fresh before processed x + fresh others processed x)
    (is : ∀ x, said' x = said after x + said others x)
    (isFresh : ∀ x, fresh' x = fresh after processed x + fresh others processed x) :
    Announces v t said' fresh' := by
  rcases grows with rfl | ⟨e, kind, rfl⟩
  · refine ⟨fun x _ => ⟨?_, ?_⟩, ?_, ?_, ?_⟩
    · rw [is, was]
    · rw [isFresh, wasFresh]
    · rw [is, was]
    · rw [is, was]
      exact Nat.le_succ _
    · rw [isFresh, wasFresh]
      exact Nat.le_add_right _ _
  · have one : ∀ x, said [e] x = if t = x then 1 else 0 := by
      intro x
      simp [said, stands, kind]
    have fresher : ∀ x, fresh [e] processed x ≤ said [e] x := fun x =>
      waiting_le Orders.Envelope.id (stands x) processed [e]
    refine ⟨fun x different => ?_, ?_, ?_, ?_⟩
    · have none' : said [e] x = 0 := by rw [one, if_neg (Ne.symm different)]
      have none'' : fresh [e] processed x = 0 := Nat.le_zero.mp (none' ▸ fresher x)
      rw [is, was, isFresh, wasFresh, said_append, fresh_append, none', none'']
      exact ⟨rfl, rfl⟩
    · rw [is, was, said_append]
      omega
    · rw [is, was, said_append, one, if_pos rfl]
      omega
    · have single := fresher t
      rw [one, if_pos rfl] at single
      rw [is, was, isFresh, wasFresh, said_append, fresh_append, one, if_pos rfl]
      omega

theorem hears_of_processed {e : Envelope} {events : List Envelope} {processed : List ID}
    (member : e ∈ events) (kind : triggerFor e.type = some t) (new : e.id ∉ processed)
    (was : v.fresh = fresh events processed) :
    Hears v t (fresh events (processed ++ [e.id])) := by
  rw [Hears, was]
  refine ⟨fun x => waiting_processed_le _ _ _ _ _, fun _ => ?_⟩
  exact waiting_processed_lt member (by simpa [stands] using kind) new

theorem hears_timeout (v : View) : Hears v .timeout v.fresh :=
  ⟨fun _ => Nat.le_refl _, fun event => (event rfl).elim⟩

/-- An event is about the order and names no other reservation or payment. -/
def About (orderID reservationID paymentID : ID) (e : Envelope) : Prop :=
  ∃ body, e.body = some body ∧ body.orderID = some orderID ∧
    (body.reservationID = none ∨ body.reservationID = some reservationID) ∧
    (body.paymentID = none ∨ body.paymentID = some paymentID)

/-- A handler of inventory-service carries out a command that was sent. -/
def Asked (orderID reservationID : ID) (sent : Step → Bool) : Inventory.Task → Prop
  | .apply (.reserve o r _ _) => o = orderID ∧ r = reservationID
  | .apply (.release o r _) => o = orderID ∧ r = reservationID ∧ sent .release = true
  | .apply (.commit o r) => o = orderID ∧ r = reservationID ∧ sent .commit = true
  | .publishFailure r o _ => o = orderID ∧ r = reservationID

/-- An operation of payment-service carries out a command that was sent. -/
def Called (orderID paymentID : ID) (sent : Step → Bool) : Payments.Call → Prop
  | .authorize cmd => cmd.orderID = orderID ∧ cmd.paymentID = paymentID
  | .capture _ p _ _ => p = paymentID ∧ sent .capture = true
  | .void o p _ => o = orderID ∧ p = paymentID ∧ sent .void = true

/-- Every row, command and call is of the one order. -/
structure Linked (orderID reservationID paymentID : ID) (w : World) : Prop where
  order : ∀ ord, w.orders.order = some ord → ord.names orderID reservationID paymentID
  blank : w.orders.order = none → w.orders.outbox = [] ∧ w.tasks = [] ∧ w.calls = [] ∧
    w.inventory.reservations = [] ∧ w.payments.payments = [] ∧ w.announcements = []
  commands : ∀ record ∈ w.orders.outbox, ∀ c, record.message = .command c →
    c.names orderID reservationID paymentID
  tasks : ∀ task ∈ w.tasks, Asked orderID reservationID (w.view orderID).sent task
  calls : ∀ call ∈ w.calls, Called orderID paymentID (w.view orderID).sent call
  reservations : ∀ row ∈ w.inventory.reservations, row.id = reservationID ∧ row.orderID = orderID
  single : w.inventory.reservations.length ≤ 1
  payments : ∀ row ∈ w.payments.payments, row.id = paymentID ∧ row.orderID = orderID
  events : ∀ e ∈ w.announcements, About orderID reservationID paymentID e

variable {orderID reservationID paymentID : ID} {w : World}

theorem Asked.mono {sent sent' : Step → Bool} (grows : ∀ step, sent step = true → sent' step = true)
    {task : Inventory.Task} (asked : Asked orderID reservationID sent task) :
    Asked orderID reservationID sent' task := by
  rcases task with (_ | _ | _) | _
  · exact asked
  · exact ⟨asked.1, asked.2.1, grows _ asked.2.2⟩
  · exact ⟨asked.1, asked.2.1, grows _ asked.2.2⟩
  · exact asked

theorem Called.mono {sent sent' : Step → Bool}
    (grows : ∀ step, sent step = true → sent' step = true) {call : Payments.Call}
    (called : Called orderID paymentID sent call) : Called orderID paymentID sent' call := by
  cases call with
  | authorize => exact called
  | capture => exact ⟨called.1, grows _ called.2⟩
  | void => exact ⟨called.1, called.2.1, grows _ called.2.2⟩

theorem World.mem_announcements {e : Envelope} (sent : e ∈ w.events)
    (kind : triggerFor e.type = some t) : e ∈ w.announcements := by
  rcases mem_append.mp sent with stock | payment
  · obtain ⟨record, member, rfl⟩ := mem_map.mp stock
    apply mem_append_left
    refine mem_map.mpr ⟨record, mem_filter.mpr ⟨member, ?_⟩, rfl⟩
    rcases record with ⟨eventID, _ | _ | _ | _ | _⟩ <;> first | rfl | cases kind
  · exact mem_append_right _ payment

theorem commandOf_eq_some {c : Orders.Command} :
    commandOf record = some c ↔ record.message = .command c := by
  unfold commandOf
  cases record.message with
  | command other => simp
  | event e => simp

theorem sent_of_mem (orderID : ID) {c : Orders.Command} (member : record ∈ w.orders.outbox)
    (carried : commandOf record = some c) :
    (w.view orderID).sent c.step = true := by
  refine any_eq_true.mpr ⟨record, member, ?_⟩
  simp [carries, Orders.OutboxRecord.step, commandOf_eq_some.mp carried]

variable {rows : Orders.Rows} {emit : List Step}

theorem sends_of_sending
    (sending : Orders.Sending orderID reservationID paymentID emit w.orders rows) :
    Sends (w.view orderID) emit (({ w with orders := rows } : World).view orderID).sent
      (({ w with orders := rows } : World).view orderID).reserving
      (({ w with orders := rows } : World).view orderID).authorizing := by
  obtain ⟨new, grown, counts, -⟩ := sending.sent
  have count : ∀ (processed : List ID) step, unclaimed new processed step ≤ emit.count step :=
    fun processed step => (waiting_le _ _ processed new).trans (counts step)
  refine ⟨fun step was => ?_, fun step is => ?_, ?_, ?_⟩
  · simp only [World.view, grown, any_append, Bool.or_eq_true]
    exact .inl was
  · simp only [World.view, grown, any_append, Bool.or_eq_true] at is
    rcases is with was | now
    · exact .inl was
    · right
      have some' : 0 < new.countP (carries step) := by
        obtain ⟨record, member, carried⟩ := any_eq_true.mp now
        exact countP_pos_iff.mpr ⟨record, member, carried⟩
      exact count_pos_iff.mp (Nat.lt_of_lt_of_le some' (counts step))
  · have more := count w.inventory.processed .reserve
    simp only [World.view, unclaimed, grown, waiting_append] at more ⊢
    omega
  · have more := count w.payments.processed .authorize
    simp only [World.view, unclaimed, grown, waiting_append] at more ⊢
    omega

theorem Linked.order' (linked : Linked orderID reservationID paymentID w)
    (sending : Orders.Sending orderID reservationID paymentID emit w.orders rows) :
    Linked orderID reservationID paymentID { w with orders := rows } := by
  obtain ⟨row, found, named⟩ := sending.names
  have grows := (sends_of_sending sending).kept
  obtain ⟨new, grown, -, names⟩ := sending.sent
  refine ⟨?_, ?_, ?_, ?_, ?_, linked.reservations, linked.single, linked.payments, linked.events⟩
  · intro ord held
    obtain rfl := Option.some.inj (found.symm.trans held)
    exact named
  · intro absent
    cases found.symm.trans absent
  · intro record member c carried
    rw [show ({ w with orders := rows } : World).orders.outbox = _ from grown] at member
    rcases mem_append.mp member with old | recent
    · exact linked.commands record old c carried
    · exact names record recent c carried
  · intro task member
    exact (linked.tasks task member).mono grows
  · intro call member
    exact (linked.calls call member).mono grows

theorem Linked.placed_of_command (linked : Linked orderID reservationID paymentID w)
    (member : record ∈ w.orders.outbox) :
    w.orders.order ≠ none := by
  intro absent
  rw [(linked.blank absent).1] at member
  cases member

/-- A run of protocol steps that need no closer look. -/
def Ordinary : View → View → Prop :=
  Relation.ReflTransGen fun v after => Rule v .ordinary after

theorem Ordinary.refl (v : View) : Ordinary v v := Relation.ReflTransGen.refl

theorem Ordinary.rule {after : View} (rule : Rule v .ordinary after) : Ordinary v after :=
  Relation.ReflTransGen.single rule

/-- A step of the services keeps the links and is a run of ordinary steps. -/
def Follows (orderID : ID) (w after : World) : Prop :=
  (∃ r p, Linked orderID r p after) ∧ Ordinary (w.view orderID) (after.view orderID)

theorem Follows.stays (linked : Linked orderID reservationID paymentID w) :
    Follows orderID w w := ⟨⟨_, _, linked⟩, Ordinary.refl _⟩

end Souq.Checkout
