import Souq.Checkout.Refinement

/-!
# Expiry against the saga

inventory-service expires reservations on its own clock. An expiry of a
reservation whose order is still on its way to `PAID` takes the stock from under
it: the order can be paid without stock, its `COMMIT` is refused, and the
`released` event is an illegal transition. Runs without such a sweep keep the stock
of a paid order and deliver no illegal event.
-/

namespace Souq.Checkout

open Saga Transact Transition
open Orders (Envelope)

def Counting (status : Option State) : Prop :=
  status = some .pending ∨ status = some .stockReserved ∨ status = some .paid

def RolledBack (status : Option State) : Prop :=
  status = some .compensating ∨ status = some .cancelled

instance (status : Option State) : Decidable (Counting status) :=
  inferInstanceAs (Decidable (_ ∨ _ ∨ _))

/-- The sweep expires a reservation that the order counts on. -/
def SweepsOpen (orderID : ID) (w : World) (a : Action) : Prop :=
  Expires orderID w a ∧ Counting w.status

instance (orderID : ID) (w : World) : DecidablePred (SweepsOpen orderID w) := fun a =>
  inferInstanceAs (Decidable (Expires orderID w a ∧ Counting w.status))

/-- A step of the protocol expires no reservation the order counts on. -/
def Patient (v : View) (kind : Kind) : Prop := kind = .expiry → ¬ Counting v.status

/-- Stock goes back only when the order is rolled back. -/
structure Kept (v : View) : Prop where
  released : 0 < v.said .released → RolledBack v.status
  reserved : 0 < v.said .reserved → v.reservation = some .reserved ∨
    v.reservation = some .committed ∨ RolledBack v.status

theorem Kept.weaken {v after : View} (kept : Kept v)
    (status : RolledBack v.status → RolledBack after.status)
    (reservation : after.reservation = v.reservation)
    (said : ∀ x, ofStock x = true → after.said x = v.said x) : Kept after := by
  constructor
  · intro announced
    exact status (kept.released (said .released rfl ▸ announced))
  · intro announced
    rw [reservation]
    exact (kept.reserved (said .reserved rfl ▸ announced)).imp_right (Or.imp_right status)

theorem Consistent.rolledBack_of_expiry {v : View} (consistent : Consistent v)
    (patient : Patient v .expiry) (held : v.reservation = some .reserved) :
    RolledBack v.status := by
  have waits := patient rfl
  have uncommitted : ¬ (v.status = some .stockCommitted ∨ v.status = some .confirmed) := by
    intro late
    cases held.symm.trans (consistent.stocked.saidCommitted (consistent.heard.committed late))
  rcases status : v.status with _ | state
  · cases held.symm.trans (consistent.stocked.unplaced status).2.2.1
  · rw [status] at waits uncommitted
    cases state
    · exact (waits (.inl rfl)).elim
    · exact (waits (.inr (.inl rfl))).elim
    · exact (waits (.inr (.inr rfl))).elim
    · exact (uncommitted (.inl rfl)).elim
    · exact (uncommitted (.inr rfl)).elim
    · exact .inl rfl
    · exact .inr rfl

theorem Kept.step {v after : View} {kind : Kind} (consistent : Consistent v) (kept : Kept v)
    (patient : Patient v kind) (rule : Rule v kind after) : Kept after := by
  cases rule with
  | place new =>
    refine kept.weaken (fun back => ?_) rfl fun _ _ => rfl
    rcases back with back | back <;> cases new.symm.trans back
  | decide current decided =>
    refine kept.weaken (fun back => ?_) rfl fun _ _ => rfl
    simp only [RolledBack, current, Option.some.injEq] at back ⊢
    exact decided.onward.rolledBack back
  | cancel => exact kept.weaken (fun _ => .inl rfl) rfl fun _ _ => rfl
  | reserved used new announces =>
    exact ⟨fun announced => kept.released (announces.before (by decide) announced),
      fun _ => .inl rfl⟩
  | reported used announces =>
    refine ⟨fun announced => kept.released (announces.before (by decide) announced),
      fun announced => ?_⟩
    have before := announces.before (x := .reserved) (by decide) announced
    have once := consistent.stocked.once
    omega
  | released asked =>
    have back := consistent.sided.rollBack (.inl asked)
    exact ⟨fun _ => back, fun _ => .inr (.inr back)⟩
  | committed asked held announces =>
    exact ⟨fun announced => kept.released (announces.before (by decide) announced),
      fun _ => .inr (.inl rfl)⟩
  | expired held announces =>
    have back := consistent.rolledBack_of_expiry patient held
    exact ⟨fun _ => back, fun _ => .inr (.inr back)⟩
  | chargeAgain used there reply announces =>
    exact kept.weaken id rfl fun x own => announces.kept_apart (ofMoney_of_reply reply) own
  | approved used announces | declined used announces | captured asked announces
  | voided asked announces | voidedAgain asked settled announces =>
    exact kept.weaken id rfl fun x own => announces.kept_apart rfl own
  | _ => exact kept.weaken id rfl fun _ _ => rfl

theorem kept_of_reachable {v : View} (reached : (protocol.restrict Patient).Reachable v) :
    Consistent v ∧ Kept v := by
  apply reached.invariant
  · intro v initial
    obtain rfl : v = View.blank := initial
    exact ⟨Consistent.blank, fun announced => (Nat.lt_irrefl 0 announced).elim,
      fun announced => (Nat.lt_irrefl 0 announced).elim⟩
  · intro v kind after both taken
    exact ⟨both.1.step taken.2, Kept.step both.1 both.2 taken.1 taken.2⟩

variable {cfg : Payments.Config} {orderID : ID} {w : World}

theorem kept_view (reached : ((services cfg orderID).restrict fun w a =>
    ¬ SweepsOpen orderID w a).Reachable w) :
    (∃ r p, Linked orderID r p w) ∧ Consistent (w.view orderID) ∧ Kept (w.view orderID) := by
  have shows : Shows orderID (fun w a => ¬ SweepsOpen orderID w a) Patient := by
    refine ⟨fun v ordinary => ?_, fun w a waits expires _ => ?_, fun w a _ _ approval => ?_⟩
    · cases ordinary
    · exact fun counting => waits ⟨expires, counting⟩
    · cases approval
  obtain ⟨linked, reached'⟩ := view_reachable shows reached
  exact ⟨linked, kept_of_reachable reached'⟩

/-- The order owns its stock: it is held or committed, and a `COMMIT` goes through
as far as the stock rows cover what is held. -/
structure OwnsStock (orderID : ID) (w : World) : Prop where
  held : w.reservation orderID = some .reserved ∨ w.reservation orderID = some .committed
  commits : ∀ row, w.inventory.reservationOf orderID = some row →
    w.inventory.Covers (w.inventory.lines row.id) → ∀ mint, ∃ after,
      (Inventory.commit mint row.id orderID).run w.inventory = (.ok (), after)

/-- **A paid order owns its stock** in every run that sweeps no reservation an order
still counts on. -/
theorem paid_owns_stock (cfg : Payments.Config) (orderID : ID) {w : World}
    (reached : ((services cfg orderID).restrict fun w a => ¬ SweepsOpen orderID w a).Reachable w)
    (paid : w.status = some .paid ∨ w.status = some .stockCommitted) : OwnsStock orderID w := by
  obtain ⟨⟨r, p, linked⟩, consistent, kept⟩ := kept_view reached
  have advanced : w.status = some .stockReserved ∨ w.status = some .paid ∨
      w.status = some .stockCommitted ∨ w.status = some .confirmed := by
    rcases paid with status | status
    · exact .inr (.inl status)
    · exact .inr (.inr (.inl status))
  have held : w.reservation orderID = some .reserved ∨ w.reservation orderID = some .committed := by
    rcases kept.reserved (consistent.heard.reserved advanced).1 with held | held | back
    · exact .inl held
    · exact .inr held
    · rcases back with back | back <;> rcases paid with status | status <;>
        cases back.symm.trans status
  refine ⟨held, ?_⟩
  intro row found covered mint
  have state : row.state = .reserved ∨ row.state = .committed := by
    simpa [World.reservation, found] using held
  have named : row.id = r := (linked.reservations row (Table.mem_of_find found)).1
  have located : w.inventory.reservation row.id = some row := by
    rw [named, linked.reservation_eq]
    exact found
  exact Inventory.commit_succeeds mint orderID located state covered

/-- A reservation is made and paid for, and its `COMMIT` is late. -/
theorem paying_owns_stock :
    (play mockConfig 1 paying).status = some .paid ∧ OwnsStock 1 (play mockConfig 1 paying) := by
  have permitted : Permits mockConfig 1 (fun w a => ¬ SweepsOpen 1 w a) paying {} := by
    decide +kernel
  have paid : (play mockConfig 1 paying).status = some .paid := by decide +kernel
  exact ⟨paid, paid_owns_stock mockConfig 1 (play_restrict permitted) (.inl paid)⟩

/-- The `COMMIT` of a paid order is still in flight when its reservation expires,
fifteen minutes after it was made. -/
def expiring : List (World → Action) :=
  paying ++ [fun _ => .sweepExpired (inventoryMint 1000) 100 (901 * 1000000)]

/-- A paid order loses its stock. -/
theorem paid_without_stock : ¬ ∀ w, (services mockConfig 1).Reachable w →
    w.status = some .paid ∨ w.status = some .stockCommitted → OwnsStock 1 w := by
  intro holds
  have paid : (play mockConfig 1 expiring).status = some .paid := by decide +kernel
  have released : (play mockConfig 1 expiring).reservation 1 = some .released := by decide +kernel
  have owns := holds _ (play_reachable mockConfig 1 expiring) (.inl paid)
  rcases owns.held with held | held <;> cases released.symm.trans held

def Expects (status : Option State) : Trigger → Prop
  | .reserved | .reserveFailed => status = some .pending ∨ RolledBack status
  | .authorized | .authFailed => status = some .stockReserved ∨ RolledBack status
  | .committed => status = some .paid ∨ status = some .stockCommitted ∨ status = some .confirmed
  | .captured => status = some .stockCommitted ∨ status = some .confirmed
  | .released | .voided => RolledBack status
  | .timeout => True

theorem status_cases (status : Option State) :
    status = none ∨ status = some .pending ∨ status = some .stockReserved ∨
      (status = some .paid ∨ status = some .stockCommitted ∨ status = some .confirmed) ∨
      RolledBack status := by
  rcases status with _ | state
  · exact .inl rfl
  · cases state <;> simp [RolledBack]

/-- An answer to the `RESERVE` is unheard before the order has stock. -/
theorem Consistent.expects_reserved {v : View} (consistent : Consistent v)
    (unheard : 0 < v.fresh .reserved ∨ 0 < v.fresh .reserveFailed) :
    v.status = some .pending ∨ RolledBack v.status := by
  have reserved := consistent.heard.fresh .reserved
  have reserveFailed := consistent.heard.fresh .reserveFailed
  have once := consistent.stocked.once
  rcases status_cases v.status with absent | pending | advanced | advanced | back
  · obtain ⟨-, -, -, quiet, quiet'⟩ := consistent.stocked.unplaced absent
    omega
  · exact .inl pending
  · obtain ⟨announced, none'⟩ := consistent.heard.reserved (.inl advanced)
    omega
  · obtain ⟨announced, none'⟩ := consistent.heard.reserved (.inr advanced)
    omega
  · exact .inr back

/-- An answer to the `AUTHORIZE` is unheard before the order is paid. -/
theorem Consistent.expects_authorized {v : View} (consistent : Consistent v)
    (unheard : 0 < v.fresh .authorized ∨ 0 < v.fresh .authFailed) :
    v.status = some .stockReserved ∨ RolledBack v.status := by
  have authorized := consistent.heard.fresh .authorized
  have authFailed := consistent.heard.fresh .authFailed
  have once := consistent.charged.once
  rcases status_cases v.status with absent | pending | reserved | advanced | back
  · obtain ⟨-, -, -, quiet, quiet'⟩ := consistent.charged.early (.inl absent)
    omega
  · obtain ⟨-, -, -, quiet, quiet'⟩ := consistent.charged.early (.inr pending)
    omega
  · exact .inl reserved
  · obtain ⟨announced, none'⟩ := consistent.heard.authorized advanced
    omega
  · exact .inr back

theorem Kept.expects {v : View} (consistent : Consistent v) (kept : Kept v) {t : Trigger}
    (unheard : 0 < v.fresh t) : Expects v.status t := by
  have announced : 0 < v.said t := Nat.lt_of_lt_of_le unheard (consistent.heard.fresh t)
  have charged := consistent.charged
  cases t with
  | reserved => exact consistent.expects_reserved (.inl unheard)
  | reserveFailed => exact consistent.expects_reserved (.inr unheard)
  | authorized => exact consistent.expects_authorized (.inl unheard)
  | authFailed => exact consistent.expects_authorized (.inr unheard)
  | committed =>
    have committed := consistent.stocked.saidCommitted announced
    exact consistent.sided.commit (consistent.stocked.committed committed)
  | captured =>
    exact consistent.sided.capture (charged.captured (.inr (charged.saidCaptured announced)))
  | released => exact kept.released announced
  | voided => exact consistent.sided.rollBack (.inr (charged.voided (.inr announced)))
  | timeout => trivial

theorem Expects.legal {status : State} {t : Trigger} (expected : Expects (some status) t) {c : Ctx}
    {err : ErrIllegalTransition} : Saga.next status t c ≠ .error err := by
  intro illegal
  rcases next_eq_error illegal with
    ⟨rfl, pair⟩ | ⟨rfl, pair⟩ | ⟨rfl, pair⟩ | ⟨rfl, pair⟩ | ⟨rfl, pair⟩
  · rcases pair with rfl | rfl | rfl | rfl <;> simp [Expects, RolledBack] at expected
  · rcases pair with rfl | rfl | rfl | rfl | rfl <;> simp [Expects, RolledBack] at expected
  · rcases pair with rfl | rfl | rfl | rfl | rfl | rfl <;> simp [Expects, RolledBack] at expected
  · rcases pair with rfl | rfl | rfl | rfl | rfl | rfl <;> simp [Expects, RolledBack] at expected
  · rcases pair with rfl | rfl <;> simp [Expects] at expected

/-- **An illegal transition is never a race** in a run that sweeps no reservation an
order still counts on. -/
theorem no_illegal_transition (cfg : Payments.Config) (orderID : ID) {w : World}
    (reached : ((services cfg orderID).restrict fun w a => ¬ SweepsOpen orderID w a).Reachable w)
    {e : Envelope} (sent : e ∈ w.events) (mint : Orders.Mint) (now : Time)
    (err : ErrIllegalTransition) :
    ((Orders.handle mint now e).run w.orders).1 ≠ .error (.illegal err) := by
  intro illegal
  obtain ⟨-, consistent, kept⟩ := kept_view reached
  obtain ⟨t, retriable, ord, modelled, new, found, unbranched⟩ := Orders.handle_illegal illegal
  have current : (w.view orderID).status = some ord.status := by
    simp only [World.view, World.status, Orders.Rows.status, found, Option.map_some]
  have unheard : 0 < (w.view orderID).fresh t := by
    refine List.countP_pos_iff.mpr ⟨e, World.mem_announcements sent modelled, ?_⟩
    simp [stands, modelled, new]
  have expected := Kept.expects consistent kept unheard
  rw [current] at expected
  exact expected.legal unbranched

/-- The authorization of a reserved order arrives in time. -/
theorem paying_legal : ∃ e ∈ (play mockConfig 1 (paying.take 7)).events,
    triggerFor e.type = some .authorized ∧ ∀ err,
      ((Orders.handle (Orders.mintFrom 500) 3 e).run (play mockConfig 1 (paying.take 7)).orders).1 ≠
        .error (.illegal err) := by
  have permitted : Permits mockConfig 1 (fun w a => ¬ SweepsOpen 1 w a) (paying.take 7) {} := by
    decide +kernel
  have sent : ∃ e ∈ (play mockConfig 1 (paying.take 7)).events,
      triggerFor e.type = some .authorized := by decide +kernel
  obtain ⟨e, member, kind⟩ := sent
  exact ⟨e, member, kind, no_illegal_transition mockConfig 1 (play_restrict permitted) member _ _⟩

/-- The event of the expiry reaches a paid order, which has no branch for it. -/
theorem expiry_is_illegal : ¬ ∀ w, (services mockConfig 1).Reachable w → ∀ e ∈ w.events,
    ∀ mint now err, ((Orders.handle mint now e).run w.orders).1 ≠ .error (.illegal err) := by
  intro holds
  have dead : ∃ e ∈ (play mockConfig 1 expiring).events,
      ((Orders.handle (Orders.mintFrom 1100) 1 e).run (play mockConfig 1 expiring).orders).1 =
        .error (.illegal ⟨.paid, .released⟩) := by decide +kernel
  obtain ⟨e, member, illegal⟩ := dead
  exact holds _ (play_reachable mockConfig 1 expiring) e member _ _ _ illegal

end Souq.Checkout
