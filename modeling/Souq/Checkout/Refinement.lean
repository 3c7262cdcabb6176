import Souq.Checkout.Invariants
import Souq.Checkout.InventorySteps
import Souq.Checkout.OrderSteps
import Souq.Checkout.PaymentSteps

/-!
# The services follow the protocol

Every step of the services is a run of steps of the protocol on the view of the
world. Only the expiry of a reservation and the approval of an authorization need
a closer look; every other step is ordinary. So every state the services reach
shows a view the protocol reaches, also in runs that avoid some of these steps.
-/

namespace Souq.Checkout

open Saga Transact Transition List Follows Relation.ReflTransGen World

/-- A sweep of inventory-service claims the order's reservation. -/
def Expires (orderID : ID) (w : World) : Action → Prop
  | .sweepExpired _ batch now => ClaimsExpired orderID w batch now
  | _ => False

def Authorizes : Action → Prop
  | .answer call result _ => Approves call result
  | _ => False

instance (orderID : ID) (w : World) : DecidablePred (Expires orderID w) := fun a =>
  match a with
  | .sweepExpired _ batch now => inferInstanceAs (Decidable (ClaimsExpired orderID w batch now))
  | .place .. | .handle .. | .tick .. | .cancel .. | .receive .. | .work .. | .abandon ..
  | .restock .. | .command .. | .answer .. | .hangUp .. => inferInstanceAs (Decidable False)

instance : DecidablePred Authorizes := fun a =>
  match a with
  | .answer call result _ => inferInstanceAs (Decidable (Approves call result))
  | .place .. | .handle .. | .tick .. | .cancel .. | .receive .. | .work .. | .abandon ..
  | .restock .. | .command .. | .sweepExpired .. | .hangUp .. => inferInstanceAs (Decidable False)

variable {cfg : Payments.Config} {orderID reservationID paymentID : ID} {w : World}

/-- **Simulation.** A step of the services is a run of ordinary steps of the
protocol, an expiry, or an approval. -/
theorem exec_cases (cfg : Payments.Config) (linked : Linked orderID reservationID paymentID w)
    (a : Action) :
    Follows orderID w (w.exec cfg orderID a) ∨
      (∃ kind, (kind = .expiry ∧ Expires orderID w a ∨ kind = .approval ∧ Authorizes a) ∧
        Rule (w.view orderID) kind ((w.exec cfg orderID a).view orderID)) ∧
      ∃ r p, Linked orderID r p (w.exec cfg orderID a) := by
  cases a with
  | place input total mint now => exact .inl (follows_place linked input total mint now)
  | tick limit mint now => exact .inl (follows_tick linked limit mint now)
  | cancel userID mint now => exact .inl (follows_cancel linked userID mint now)
  | abandon task => exact .inl (follows_abandon linked task)
  | restock stock => exact .inl (follows_restock linked stock)
  | hangUp call => exact .inl (follows_hangUp linked call)
  | handle e mint now =>
    left
    simp only [exec]
    split
    case isTrue sent => exact follows_handle linked sent.1 mint now
    case isFalse => exact stays linked
  | receive record =>
    left
    simp only [exec]
    split
    case isTrue member => exact follows_receive linked member
    case isFalse => exact stays linked
  | work task mint now =>
    left
    simp only [exec]
    split
    case isTrue member => exact follows_work linked member mint now
    case isFalse => exact stays linked
  | command record mint =>
    left
    simp only [exec]
    split
    case isTrue member => exact follows_command cfg linked member mint
    case isFalse => exact stays linked
  | sweepExpired mint batch now =>
    rcases sweepExpired_cases linked mint batch now with follows | ⟨claims, linked', rule⟩
    · exact .inl follows
    · exact .inr ⟨⟨.expiry, .inl ⟨rfl, claims⟩, rule⟩, linked'⟩
  | answer call result mint =>
    simp only [exec]
    split
    case isTrue member =>
      rcases answer_cases cfg linked member result mint with follows | ⟨approves, linked', rule⟩
      · exact .inl follows
      · exact .inr ⟨⟨.approval, .inr ⟨rfl, approves⟩, rule⟩, linked'⟩
    case isFalse => exact .inl (stays linked)

/-- Runs of the services that avoid some expiries or approvals show runs of the
protocol that avoid them. -/
structure Shows (orderID : ID) (ok : World → Action → Prop) (ok' : View → Kind → Prop) : Prop where
  ordinary : ∀ v, ok' v .ordinary
  expiry : ∀ w a, ok w a → Expires orderID w a → ok' (w.view orderID) .expiry
  approval : ∀ w a, ok w a → Authorizes a → ok' (w.view orderID) .approval

theorem Linked.blank' (orderID reservationID paymentID : ID) :
    Linked orderID reservationID paymentID {} := by
  refine ⟨fun ord found => ?_, fun _ => ⟨rfl, rfl, rfl, rfl, rfl, rfl⟩,
    fun _ member => (not_mem_nil member).elim, fun _ member => (not_mem_nil member).elim,
    fun _ member => (not_mem_nil member).elim, fun _ member => (not_mem_nil member).elim,
    Nat.zero_le 1, fun _ member => (not_mem_nil member).elim,
    fun _ member => (not_mem_nil member).elim⟩
  cases found

/-- **Refinement.** Every state the services reach shows a view the protocol
reaches. -/
theorem view_reachable {ok : World → Action → Prop} {ok' : View → Kind → Prop}
    (shows : Shows orderID ok ok') (reached : ((services cfg orderID).restrict ok).Reachable w) :
    (∃ r p, Linked orderID r p w) ∧ (protocol.restrict ok').Reachable (w.view orderID) := by
  apply reached.refines
  · intro w initial
    obtain rfl : w = {} := initial
    exact ⟨⟨0, 0, Linked.blank' _ _ _⟩, .init rfl⟩
  · intro w a after linked taken
    obtain ⟨allowed, rfl⟩ : ok w a ∧ after = w.exec cfg orderID a := taken
    obtain ⟨r, p, linked⟩ := linked
    rcases exec_cases cfg linked a with ⟨linked', ordinary⟩ | ⟨⟨kind, cause, rule⟩, linked'⟩
    · refine ⟨linked', ?_⟩
      exact mono (fun v after rule => ⟨.ordinary, shows.ordinary v, rule⟩) _ _ ordinary
    · refine ⟨linked', single ⟨kind, ?_, rule⟩⟩
      rcases cause with ⟨rfl, expires⟩ | ⟨rfl, approves⟩
      · exact shows.expiry w a allowed expires
      · exact shows.approval w a allowed approves

/-- The invariant of the protocol holds of everything the services reach. -/
theorem consistent_view {ok : World → Action → Prop}
    (reached : ((services cfg orderID).restrict ok).Reachable w) : Consistent (w.view orderID) := by
  have shows : Shows orderID ok fun _ _ => True :=
    ⟨fun _ => trivial, fun _ _ _ _ => trivial, fun _ _ _ _ => trivial⟩
  exact consistent_of_reachable (view_reachable shows reached).2.of_restrict

end Souq.Checkout
