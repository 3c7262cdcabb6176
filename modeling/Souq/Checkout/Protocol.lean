import Souq.Inventory.Store
import Souq.Lib.Transition
import Souq.Payments.Store
import Souq.Saga.Table

/-!
# The checkout protocol

What the three services exchange about one order, without their tables: the state
of the order, which commands were ever sent, how many events of each kind were
ever announced and how many of them are still unheard, and the states of the
reservation and the payment. A `RESERVE` and an `AUTHORIZE` are carried out at
most once; what is left of them is counted, so that a reply uses up the command
it replies to.
-/

namespace Souq.Checkout

open Saga Transition
open Inventory (ReservationState)

/-- What decides how a checkout goes on. -/
structure View where
  status : Option State
  authorizeSent : Bool
  inventorySettled : Bool
  paymentSettled : Bool
  /-- The commands that were ever sent. -/
  sent : Step → Bool
  /-- How many events of each kind were announced. -/
  said : Trigger → Nat
  /-- How many of them the order has not heard. -/
  fresh : Trigger → Nat
  /-- `RESERVE` commands that are still to be carried out. -/
  reserving : Nat
  /-- Reservations that fell short and are still to be reported. -/
  failing : Nat
  /-- `AUTHORIZE` commands that are still to be started. -/
  authorizing : Nat
  /-- Authorizations that wait for the provider. -/
  charging : Nat
  reservation : Option ReservationState
  payment : Option Payments.State

def View.ctx (v : View) (retriable : Bool) : Ctx where
  authorizeSent := v.authorizeSent
  inventorySettled := v.inventorySettled
  paymentSettled := v.paymentSettled
  paymentRetriable := retriable

/-- The commands of a decision are sent, and no others. -/
structure Sends (v : View) (emit : List Step) (sent : Step → Bool) (reserving authorizing : Nat) :
    Prop where
  kept : ∀ step, v.sent step = true → sent step = true
  new : ∀ step, sent step = true → v.sent step = true ∨ step ∈ emit
  reserving : reserving ≤ v.reserving + emit.count .reserve
  authorizing : authorizing ≤ v.authorizing + emit.count .authorize

/-- What announcing an event changes; the event is lost if its id is taken. -/
structure Announces (v : View) (t : Trigger) (said fresh : Trigger → Nat) : Prop where
  others : ∀ other, other ≠ t → said other = v.said other ∧ fresh other = v.fresh other
  kept : v.said t ≤ said t
  once : said t ≤ v.said t + 1
  fresh : fresh t ≤ v.fresh t + (said t - v.said t)

/-- What hearing an event changes; a timeout is not heard. -/
def Hears (v : View) (t : Trigger) (fresh : Trigger → Nat) : Prop :=
  (∀ other, fresh other ≤ v.fresh other) ∧ (t ≠ .timeout → fresh t < v.fresh t)

def releasedFrom : Option ReservationState → ReservationState
  | some .failed => .failed
  | _ => .released

def replyFor : Payments.State → Option Trigger
  | .authorized => some .authorized
  | .captured => some .captured
  | .failed => some .authFailed
  | .voided => some .voided
  | _ => none

theorem replyFor_cases {state : Payments.State} {t : Trigger} (reply : replyFor state = some t) :
    t = .authorized ∨ t = .captured ∨ t = .authFailed ∨ t = .voided := by
  cases state <;> simp_all [replyFor]

/-- The steps that need a closer look. -/
inductive Kind where
  | expiry
  | approval
  | ordinary

/-- The steps of the protocol. -/
inductive Rule : View → Kind → View → Prop where
  | place {v : View} {sent : Step → Bool} {reserving authorizing : Nat} (new : v.status = none)
      (sends : Sends v [.reserve] sent reserving authorizing) :
      Rule v .ordinary { v with
        status := some .pending, sent := sent, reserving := reserving, authorizing := authorizing }
  | decide {v : View} {origin : State} {t : Trigger} {retriable : Bool} {d : Decision}
      {authorizeSent inventorySettled paymentSettled : Bool} {sent : Step → Bool}
      {fresh : Trigger → Nat} {reserving authorizing : Nat} (current : v.status = some origin)
      (decided : Decides origin t (v.ctx retriable) d) (hears : Hears v t fresh)
      (sends : Sends v d.emit sent reserving authorizing)
      (charged : authorizeSent = false → v.authorizeSent = false ∧ .authorize ∉ d.emit)
      (released : inventorySettled = true → v.inventorySettled = true ∨ t = .released)
      (voided : paymentSettled = true → v.paymentSettled = true ∨ t = .voided) :
      Rule v .ordinary { v with
        status := some d.next, authorizeSent := authorizeSent,
        inventorySettled := inventorySettled, paymentSettled := paymentSettled, sent := sent,
        fresh := fresh, reserving := reserving, authorizing := authorizing }
  | cancel {v : View} {origin : State} {emit : List Step}
      {inventorySettled paymentSettled : Bool} {sent : Step → Bool} {reserving authorizing : Nat}
      (current : v.status = some origin) (early : origin = .pending ∨ origin = .stockReserved)
      (emits : ∀ step ∈ emit, step = .release ∨ step = .void)
      (sends : Sends v emit sent reserving authorizing)
      (released : inventorySettled = true → v.inventorySettled = true)
      (voided : paymentSettled = true → v.paymentSettled = true) :
      Rule v .ordinary { v with
        status := some .compensating, inventorySettled := inventorySettled,
        paymentSettled := paymentSettled, sent := sent, reserving := reserving,
        authorizing := authorizing }
  | lose {v : View} {reserving failing authorizing charging : Nat} (less : reserving ≤ v.reserving)
      (less' : failing ≤ v.failing) (fewer : authorizing ≤ v.authorizing)
      (fewer' : charging ≤ v.charging) :
      Rule v .ordinary { v with
        reserving := reserving, failing := failing, authorizing := authorizing,
        charging := charging }
  | reserved {v : View} {reserving : Nat} {said fresh : Trigger → Nat}
      (used : reserving < v.reserving) (new : v.reservation = none)
      (announces : Announces v .reserved said fresh) :
      Rule v .ordinary { v with
        reserving := reserving, reservation := some .reserved, said := said, fresh := fresh }
  | fellShort {v : View} {reserving failing : Nat} (used : reserving < v.reserving)
      (more : failing ≤ v.failing + 1) :
      Rule v .ordinary { v with reserving := reserving, failing := failing }
  | reported {v : View} {failing : Nat} {said fresh : Trigger → Nat} (used : failing < v.failing)
      (announces : Announces v .reserveFailed said fresh) :
      Rule v .ordinary { v with
        failing := failing, reservation := some (v.reservation.getD .failed), said := said,
        fresh := fresh }
  | released {v : View} {said fresh : Trigger → Nat} (asked : v.sent .release = true)
      (live : v.reservation ≠ some .committed) (announces : Announces v .released said fresh) :
      Rule v .ordinary { v with
        reservation := some (releasedFrom v.reservation), said := said, fresh := fresh }
  | committed {v : View} {said fresh : Trigger → Nat} (asked : v.sent .commit = true)
      (held : v.reservation = some .reserved ∨ v.reservation = some .committed)
      (announces : Announces v .committed said fresh) :
      Rule v .ordinary { v with reservation := some .committed, said := said, fresh := fresh }
  | expired {v : View} {said fresh : Trigger → Nat} (held : v.reservation = some .reserved)
      (announces : Announces v .released said fresh) :
      Rule v .expiry { v with reservation := some .released, said := said, fresh := fresh }
  | charge {v : View} {authorizing charging : Nat} (used : authorizing < v.authorizing)
      (new : v.payment = none ∨ v.payment = some .pending) (more : charging ≤ v.charging + 1) :
      Rule v .ordinary { v with
        authorizing := authorizing, charging := charging, payment := some .authorizing }
  | chargeAgain {v : View} {authorizing : Nat} {state : Payments.State} {t : Trigger}
      {said fresh : Trigger → Nat} (used : authorizing < v.authorizing)
      (there : v.payment = some state) (reply : replyFor state = some t)
      (announces : Announces v t said fresh) :
      Rule v .ordinary { v with authorizing := authorizing, said := said, fresh := fresh }
  | approved {v : View} {charging : Nat} {said fresh : Trigger → Nat} (used : charging < v.charging)
      (announces : Announces v .authorized said fresh) :
      Rule v .approval { v with
        charging := charging, payment := some .authorized, said := said, fresh := fresh }
  | declined {v : View} {charging : Nat} {said fresh : Trigger → Nat} (used : charging < v.charging)
      (announces : Announces v .authFailed said fresh) :
      Rule v .ordinary { v with
        charging := charging, payment := some .failed, said := said, fresh := fresh }
  | capture {v : View} (asked : v.sent .capture = true) (held : v.payment = some .authorized) :
      Rule v .ordinary { v with payment := some .capturing }
  | captured {v : View} {said fresh : Trigger → Nat} (asked : v.sent .capture = true)
      (announces : Announces v .captured said fresh) :
      Rule v .ordinary { v with payment := some .captured, said := said, fresh := fresh }
  | voided {v : View} {said fresh : Trigger → Nat} (asked : v.sent .void = true)
      (announces : Announces v .voided said fresh) :
      Rule v .ordinary { v with payment := some .voided, said := said, fresh := fresh }
  | voidedAgain {v : View} {said fresh : Trigger → Nat} (asked : v.sent .void = true)
      (settled : v.payment = some .failed) (announces : Announces v .voided said fresh) :
      Rule v .ordinary { v with said := said, fresh := fresh }

def View.blank : View where
  status := none
  authorizeSent := false
  inventorySettled := false
  paymentSettled := false
  sent := fun _ => false
  said := fun _ => 0
  fresh := fun _ => 0
  reserving := 0
  failing := 0
  authorizing := 0
  charging := 0
  reservation := none
  payment := none

def protocol : System View Kind where
  init := fun v => v = View.blank
  step := Rule

end Souq.Checkout
