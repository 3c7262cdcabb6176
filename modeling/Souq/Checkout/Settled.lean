import Souq.Checkout.Refinement

/-!
# The settled side of the saga

A captured payment has its stock committed, and a confirmed order has both, now
and in every continuation.
-/

namespace Souq.Checkout

open Saga Transact Transition

/-- No step of the protocol leaves a terminal state or sends a command from one. -/
theorem Rule.finished {v after : View} {kind : Kind} {state : State} (rule : Rule v kind after)
    (terminal : isTerminal state = true) (held : v.status = some state) :
    after.status = some state ∧ after.sent = v.sent := by
  cases rule with
  | place new => cases new.symm.trans held
  | decide current decided hears sends =>
    obtain rfl := Option.some.inj (current.symm.trans held)
    have quiet := decided.quiet terminal
    refine ⟨congrArg some (decided.terminal terminal), funext fun step => ?_⟩
    refine Bool.eq_iff_iff.mpr ⟨fun new => ?_, sends.kept step⟩
    simpa [quiet] using sends.new step new
  | cancel current early =>
    obtain rfl := Option.some.inj (current.symm.trans held)
    rcases early with rfl | rfl <;> cases terminal
  | _ => exact ⟨held, rfl⟩

theorem Ordinary.keeps {P : View → Prop} {v after : View} (run : Ordinary v after)
    (keep : ∀ {v after : View} {kind : Kind}, Rule v kind after → P v → P after) (held : P v) :
    P after := by
  induction run with
  | refl => exact held
  | tail _ rule ih => exact keep rule ih

variable {cfg : Payments.Config} {orderID : ID} {w : World}

/-- What survives every step of the protocol persists in the world. -/
theorem view_persists {P : View → Prop}
    (keep : ∀ {v after : View} {kind : Kind}, Rule v kind after → P v → P after)
    (reached : (services cfg orderID).Reachable w) (held : P (w.view orderID)) {after : World}
    (later : (services cfg orderID).Leads w after) : P (after.view orderID) := by
  apply reached.persists (Q := fun w => P (w.view orderID)) ?_ held later
  intro w a after reached held taken
  obtain rfl : after = w.exec cfg orderID a := taken
  have shows : Shows orderID (fun _ _ => True) fun _ _ => True :=
    ⟨fun _ => trivial, fun _ _ _ _ => trivial, fun _ _ _ _ => trivial⟩
  obtain ⟨⟨r, p, linked⟩, -⟩ := view_reachable shows (reached.restrict fun _ _ => trivial)
  rcases exec_cases cfg linked a with ⟨-, ordinary⟩ | ⟨⟨kind, -, rule⟩, -⟩
  · exact ordinary.keeps keep held
  · exact keep rule held

theorem status_persists {state : State} (terminal : isTerminal state = true)
    (reached : (services cfg orderID).Reachable w) (held : w.status = some state) {after : World}
    (later : (services cfg orderID).Leads w after) : after.status = some state :=
  view_persists (P := fun v => v.status = some state)
  (fun rule held => (rule.finished terminal held).1) reached held later

theorem Consistent.captured {v : View} (consistent : Consistent v)
    (captured : v.payment = some .captured) : v.reservation = some .committed := by
  have asked := consistent.charged.captured (.inr captured)
  have late := consistent.sided.capture asked
  exact consistent.stocked.saidCommitted (consistent.heard.committed late)

theorem Consistent.confirmed {v : View} (consistent : Consistent v)
    (confirmed : v.status = some .confirmed) :
    v.reservation = some .committed ∧ v.payment = some .captured := by
  constructor
  · exact consistent.stocked.saidCommitted (consistent.heard.committed (.inr confirmed))
  · exact consistent.charged.saidCaptured (consistent.heard.captured confirmed)

/-- **The settled side.** A captured payment has its reservation committed; a
confirmed order has its reservation committed and its payment captured, and keeps
both in every continuation. -/
theorem settled_together (cfg : Payments.Config) (orderID : ID) {w : World}
    (reached : (services cfg orderID).Reachable w) :
    (w.payment orderID = some .captured → w.reservation orderID = some .committed) ∧
      (w.status = some .confirmed →
        w.reservation orderID = some .committed ∧ w.payment orderID = some .captured) ∧
      (w.status = some .confirmed → ∀ after, (services cfg orderID).Leads w after →
        after.reservation orderID = some .committed ∧ after.payment orderID = some .captured) := by
  have consistent : ∀ {w}, (services cfg orderID).Reachable w → Consistent (w.view orderID) :=
    fun reached => consistent_view (reached.restrict fun _ _ => trivial)
  refine ⟨(consistent reached).captured, (consistent reached).confirmed, ?_⟩
  intro confirmed after later
  have still := status_persists rfl reached confirmed later
  exact (consistent (reached.leads later)).confirmed still

/-- A checkout that goes through. -/
theorem settled_confirming :
    (play mockConfig 1 confirming).status = some .confirmed ∧
      (play mockConfig 1 confirming).reservation 1 = some .committed ∧
      (play mockConfig 1 confirming).payment 1 = some .captured := by
  have confirmed : (play mockConfig 1 confirming).status = some .confirmed := by decide +kernel
  have both := (settled_together mockConfig 1 (play_reachable mockConfig 1 confirming)).2.1
      confirmed
  exact ⟨confirmed, both.1, both.2⟩

end Souq.Checkout
