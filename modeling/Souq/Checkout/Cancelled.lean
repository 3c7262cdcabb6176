import Souq.Checkout.Settled

/-!
# The cancelled side of the saga

A cancelled order holds no stock and no money, unless a payment that was voided is
authorized after all: `Void` does not wait for an authorization that is with the
provider, and the second transaction of `Authorize` does not look at the state it
overwrites. Runs without such a step unwind every cancelled order for good.
-/

namespace Souq.Checkout

open Saga Transact Transition Relation.ReflTransGen

/-- The order holds neither stock nor money. -/
structure Unwound (orderID : ID) (w : World) : Prop where
  reserved : w.reservation orderID ≠ some .reserved
  committed : w.reservation orderID ≠ some .committed
  authorized : w.payment orderID ≠ some .authorized
  capturing : w.payment orderID ≠ some .capturing
  captured : w.payment orderID ≠ some .captured

/-- The provider approves a payment that was voided. -/
def ApprovesVoided (orderID : ID) (w : World) (a : Action) : Prop :=
  Authorizes a ∧ w.payment orderID = some .voided

instance (orderID : ID) (w : World) : DecidablePred (ApprovesVoided orderID w) := fun a =>
  inferInstanceAs (Decidable (Authorizes a ∧ w.payment orderID = some .voided))

/-- A step of the protocol does not approve a voided payment. -/
def Respectful (v : View) (kind : Kind) : Prop := kind = .approval → v.payment ≠ some .voided

/-- A payment that was announced as voided stays closed. -/
def Tombstoned (v : View) : Prop :=
  0 < v.said .voided → v.payment = some .voided ∨ v.payment = some .failed

theorem Tombstoned.step {v after : View} {kind : Kind} (consistent : Consistent v)
    (tombstoned : Tombstoned v) (respectful : Respectful v kind) (rule : Rule v kind after) :
    Tombstoned after := by
  obtain ⟨⟨-, capture, rollBack⟩, -, ⟨-, -, -, waiting, charging, -, voided, -, -⟩, -⟩ := consistent
  unfold Tombstoned at tombstoned ⊢
  cases rule with
  | charge used new more =>
    intro announced
    rcases tombstoned announced with closed | closed <;> rcases new with open' | open' <;>
      cases closed.symm.trans open'
  | chargeAgain used there reply announces =>
    rcases waiting (Nat.zero_lt_of_lt used) with new | tombstone
    · cases there.symm.trans new
    · exact fun _ => .inl tombstone
  | approved used announces =>
    intro announced
    have before : 0 < v.said .voided := by
      rw [← (announces.others .voided (by decide)).1]
      exact announced
    -- The provider can only approve what still waits for it.
    rcases charging (Nat.zero_lt_of_lt used) with open' | tombstone
    · rcases tombstoned before with closed | closed <;> cases closed.symm.trans open'
    · exact (respectful rfl tombstone).elim
  | declined => exact fun _ => .inr rfl
  | capture asked held =>
    intro announced
    rcases tombstoned announced with closed | closed <;> cases closed.symm.trans held
  | captured asked announces =>
    intro announced
    have before : 0 < v.said .voided := by
      rw [← (announces.others .voided (by decide)).1]
      exact announced
    rcases rollBack (.inr (voided (.inr before))) with back | back <;>
      rcases capture asked with ahead | ahead <;> cases back.symm.trans ahead
  | voided => exact fun _ => .inl rfl
  | voidedAgain asked settled => exact fun _ => .inr settled
  | reserved _ _ announces | reported _ announces | released _ _ announces
  | committed _ _ announces | expired _ announces =>
    rw [← (announces.others .voided (by decide)).1] at tombstoned
    exact tombstoned
  | _ => exact tombstoned

theorem tombstoned_of_reachable {v : View} (reached : (protocol.restrict Respectful).Reachable v) :
    Consistent v ∧ Tombstoned v := by
  apply reached.invariant
  · intro v initial
    obtain rfl : v = View.blank := initial
    exact ⟨Consistent.blank, fun announced => (Nat.lt_irrefl 0 announced).elim⟩
  · intro v kind after both taken
    exact ⟨both.1.step taken.2, Tombstoned.step both.1 both.2 taken.1 taken.2⟩

variable {cfg : Payments.Config} {orderID : ID} {w : World}

theorem Consistent.unwound (consistent : Consistent (w.view orderID))
    (tombstoned : Tombstoned (w.view orderID)) (cancelled : w.status = some .cancelled) :
    Unwound orderID w := by
  obtain ⟨stock, money⟩ := consistent.heard.cancelled cancelled
  have returned : w.reservation orderID = some .released ∨
      w.reservation orderID = some .failed := by
    rcases stock with announced | announced
    · exact consistent.stocked.saidReleased announced
    · exact consistent.stocked.saidFailed announced
  have closed : w.payment orderID = none ∨ w.payment orderID = some .voided ∨
      w.payment orderID = some .failed := by
    rcases money with announced | announced | ⟨-, -, untouched⟩
    · exact .inr (tombstoned announced)
    · exact .inr (consistent.charged.saidFailed announced).symm
    · rcases untouched with absent | tombstone
      · exact .inl absent
      · exact .inr (.inl tombstone)
  constructor
  · rcases returned with held | held <;> simp [held]
  · rcases returned with held | held <;> simp [held]
  · rcases closed with held | held | held <;> simp [held]
  · rcases closed with held | held | held <;> simp [held]
  · rcases closed with held | held | held <;> simp [held]

/-- **The cancelled side.** In a run that approves no voided payment, a cancelled
order holds neither stock nor money, and never will. -/
theorem cancelled_unwound (cfg : Payments.Config) (orderID : ID) {w after : World}
    (reached : ((services cfg orderID).restrict fun w a =>
      ¬ ApprovesVoided orderID w a).Reachable w)
    (cancelled : w.status = some .cancelled)
    (later : ((services cfg orderID).restrict fun w a =>
      ¬ ApprovesVoided orderID w a).Leads w after) : Unwound orderID after := by
  have shows : Shows orderID (fun w a => ¬ ApprovesVoided orderID w a) Respectful := by
    refine ⟨fun v ordinary => ?_, fun w a _ _ expiry => ?_, fun w a respects authorizes _ => ?_⟩
    · cases ordinary
    · cases expiry
    · exact fun voided => respects ⟨authorizes, voided⟩
  have still := status_persists rfl reached.of_restrict cancelled later.of_restrict
  obtain ⟨consistent, tombstoned⟩ :=
    tombstoned_of_reachable (view_reachable shows (reached.leads later)).2
  exact consistent.unwound tombstoned still

/-- A customer cancels an order whose authorization is with the provider. The void
does not wait for it, and the order is cancelled. -/
def withdrawing : List (World → Action) :=
  [fun _ => .restock shelf, fun _ => .place Orders.singleLine ⟨1000, "USD"⟩ (Orders.mintFrom 100) 0,
    claims .reserve, works 200 1, hears 200 300 2, starts .authorize 400,
    fun _ => .cancel 7 (Orders.mintFrom 500) 3, starts .void 600, answers .approved 610,
    claims .release, works 700 4, hears 700 800 5, hears 610 900 6]

/-- Until the approval arrives the order is unwound. -/
theorem withdrawing_unwound :
    (play mockConfig 1 withdrawing).status = some .cancelled ∧
      Unwound 1 (play mockConfig 1 withdrawing) := by
  have permitted : Permits mockConfig 1 (fun w a => ¬ ApprovesVoided 1 w a) withdrawing {} := by
    decide +kernel
  have cancelled : (play mockConfig 1 withdrawing).status = some .cancelled := by decide +kernel
  exact ⟨cancelled, cancelled_unwound mockConfig 1 (play_restrict permitted) cancelled refl⟩

/-- The approval arrives after all: the cancelled order is charged. -/
theorem cancelled_charged : ¬ ∀ w after, (services mockConfig 1).Reachable w →
    w.status = some .cancelled → (services mockConfig 1).Leads w after → Unwound 1 after := by
  intro holds
  have cancelled : (play mockConfig 1 withdrawing).status = some .cancelled := by decide +kernel
  have charged : ((play mockConfig 1 withdrawing).exec mockConfig 1
      (answers .approved 410 (play mockConfig 1 withdrawing))).payment 1 = some .authorized := by
    decide +kernel
  have unwound := holds _ _ (play_reachable mockConfig 1 withdrawing) cancelled
    (single ⟨answers .approved 410 (play mockConfig 1 withdrawing), rfl⟩)
  exact unwound.authorized charged

end Souq.Checkout
