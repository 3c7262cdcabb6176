import Souq.Checkout.Settled

/-!
# The sides of the saga

An order goes forward or is rolled back. What inventory-service and payment-service have done
about it says which, whatever the order has heard of them.
-/

namespace Souq.Checkout

open Saga Transition

variable {cfg : Payments.Config} {orderID : ID} {w : World}

/-- Stock is deducted and money taken for orders that go forward, the money last; a payment is
voided only for an order that is rolled back, and a cancelled order has no stock. -/
structure Sides (orderID : ID) (w : World) : Prop where
  committed : w.reservation orderID = some .committed →
    w.status = some .paid ∨ w.status = some .stockCommitted ∨ w.status = some .confirmed
  charged : w.payment orderID = some .capturing ∨ w.payment orderID = some .captured →
    w.reservation orderID = some .committed ∧
      (w.status = some .stockCommitted ∨ w.status = some .confirmed)
  voided : w.payment orderID = some .voided →
    w.status = some .compensating ∨ w.status = some .cancelled
  cancelled : w.status = some .cancelled →
    w.reservation orderID = some .released ∨ w.reservation orderID = some .failed

/-- **The sides stay apart**, in every run of the three services. -/
theorem sides_apart (reached : (services cfg orderID).Reachable w) : Sides orderID w := by
  have consistent : Consistent (w.view orderID) :=
    consistent_view (reached.restrict fun _ _ => trivial)
  obtain ⟨sided, stocked, charged, heard⟩ := consistent
  constructor
  · intro committed
    exact sided.commit (stocked.committed committed)
  · intro taken
    have late := sided.capture (charged.captured taken)
    exact ⟨stocked.saidCommitted (heard.committed late), late⟩
  · intro voided
    exact sided.rollBack (.inr (charged.voided (.inl voided)))
  · intro cancelled
    rcases (heard.cancelled cancelled).1 with announced | announced
    · exact stocked.saidReleased announced
    · exact stocked.saidFailed announced

theorem sides_confirming : Sides 1 (play mockConfig 1 confirming) ∧
    (play mockConfig 1 confirming).payment 1 = some .captured :=
  ⟨sides_apart (play_reachable mockConfig 1 confirming), by decide +kernel⟩

/-- **One answer to each question.** However often commands are delivered, at most one event
tells the order whether its stock is reserved, and at most one whether its payment is
authorized. -/
theorem answered_once (reached : (services cfg orderID).Reachable w) :
    said w.announcements .reserved + said w.announcements .reserveFailed ≤ 1 ∧
      said w.announcements .authorized + said w.announcements .authFailed ≤ 1 := by
  have consistent : Consistent (w.view orderID) :=
    consistent_view (reached.restrict fun _ _ => trivial)
  have stock := consistent.stocked.once
  have money := consistent.charged.once
  simp only [World.view] at stock money
  omega

theorem answered_confirming :
    said (play mockConfig 1 confirming).announcements .reserved +
      said (play mockConfig 1 confirming).announcements .reserveFailed ≤ 1 :=
  (answered_once (play_reachable mockConfig 1 confirming)).1

/-- **A finished order is over.** A confirmed or cancelled order keeps its status, and no
command of a kind that was not sent before is ever sent for it. -/
theorem finished_for_good {state : State} (terminal : isTerminal state = true)
    (reached : (services cfg orderID).Reachable w) (finished : w.status = some state)
    {after : World} (later : (services cfg orderID).Leads w after) :
    after.status = some state ∧ ∀ step,
      after.orders.outbox.any (carries step) = w.orders.outbox.any (carries step) := by
  obtain ⟨status, sent⟩ := view_persists
    (P := fun v => v.status = some state ∧ v.sent = (w.view orderID).sent)
    (fun rule held => (rule.finished terminal held.1).imp_right (·.trans held.2)) reached
    ⟨finished, rfl⟩ later
  exact ⟨status, congrFun sent⟩

/-- A cancellation comes too late for a confirmed order. -/
theorem finished_confirming : ((play mockConfig 1 confirming).exec mockConfig 1
    (.cancel 7 (Orders.mintFrom 1000) 7)).status = some .confirmed := by
  have confirmed : (play mockConfig 1 confirming).status = some .confirmed := by decide +kernel
  exact (finished_for_good rfl (play_reachable mockConfig 1 confirming) confirmed
    (Relation.ReflTransGen.single ⟨.cancel 7 (Orders.mintFrom 1000) 7, rfl⟩)).1

end Souq.Checkout
