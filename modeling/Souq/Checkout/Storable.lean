import Souq.Checkout.World
import Souq.Orders.Admission
import Souq.Payments.Effect

/-!
# Whatever order-service accepts, payment-service should store

An accepted order is paid with an `AUTHORIZE` command that carries its total, and undone
with a `VOID`. The first transactions of payment-service insert a row of `payments` for
either. Two of that table's `CHECK`s know less than the rest of the platform: an amount
must be positive, while a total may be zero, and the provider must be on a list that the
one real provider is not on.
-/

namespace Souq.Checkout

open Transact Orders.Admission

def Succeeds (cfg : Payments.Config) (mint : Payments.Mint) (eventID : ID)
    (db : Payments.Database) : Payments.Command → Prop
  | .authorize cmd => ∃ after, (Payments.authorizeStart cfg mint eventID cmd).run db =
      (.ok true, after)
  | .capture _ paymentID _ =>
    ∃ pmt after, (Payments.captureStart mint eventID paymentID).run db = (.ok pmt, after)
  | .void orderID paymentID key =>
    ∃ goes after,
      (Payments.voidStart cfg mint eventID orderID paymentID key).run db = (.ok goes, after)

/-- The command of a step, when it is new to payment-service and the table of payments is
empty, is taken. -/
def Taken (cfg : Payments.Config) (ord : Orders.Order) (step : Saga.Step) : Prop :=
  ∀ (mint : Payments.Mint) (eventID reservationID paymentID : ID) (db : Payments.Database),
    db.payments = [] → eventID ∉ db.processed →
    ∀ command ∈ toPayments (Orders.payload ord reservationID paymentID step),
      Succeeds cfg mint eventID db command

variable {db : Payments.Database} {eventID : ID}

theorem run_insertPayment_empty (empty : db.payments = []) (row : Payments.Payment) :
    (Payments.insertPayment row).run db =
      if row.admissible then (.ok (), db.putPayment row) else (.error .rejected, db) := by
  have inserting : db.inserting row = if row.admissible then .inserted else .rejected := by
    simp only [Payments.Database.inserting, Payments.Database.payment,
      Payments.Database.paymentOf, empty, Table.find_nil, Option.isSome_none, Bool.or_self,
      Bool.false_eq_true, ↓reduceIte]
  change Program.run (Payments.orDuplicate (db.inserting row))
    (Payments.dialect.replay (if db.inserting row = .inserted then [.payment row] else []) db) = _
  rw [inserting]
  by_cases admits : row.admissible = true
  · simp only [admits, ↓reduceIte]
    rfl
  · simp only [admits, Bool.false_eq_true, ↓reduceIte, reduceCtorEq]
    rfl

theorem run_claimed {α : Type} (fresh : eventID ∉ db.processed) (body : Payments.Tx α)
    (otherwise : α) :
    (Payments.claimEvent eventID >>= fun new =>
      if new = true then body else pure otherwise).run db = body.run (db.claim [eventID]) := by
  rw [Program.run_bind, Payments.run_claimEvent]
  simp only [List.contains_eq_mem, fresh, decide_false, Bool.not_false, ↓reduceIte,
    Bool.false_eq_true]

theorem authorize_succeeds_iff {cfg : Payments.Config} {mint : Payments.Mint}
    (empty : db.payments = []) (fresh : eventID ∉ db.processed) (cmd : Payments.AuthorizeCommand) :
    Succeeds cfg mint eventID db (.authorize cmd) ↔
      (Payments.newPayment cfg cmd).admissible = true := by
  have absent : (db.claim [eventID]).payment cmd.paymentID = none := by
    change Table.find Payments.Payment.id db.payments cmd.paymentID = none
    rw [empty, Table.find_nil]
  have there : ((db.claim [eventID]).putPayment (Payments.newPayment cfg cmd)).payment
      (Payments.newPayment cfg cmd).id = some (Payments.newPayment cfg cmd) := by
    simp [Payments.Database.payment, Payments.Database.putPayment, Table.find_upsert]
  have same : ((Payments.newPayment cfg cmd).withState .authorizing {}).admissible =
      (Payments.newPayment cfg cmd).admissible := rfl
  simp only [Succeeds, Payments.authorizeStart]
  rw [run_claimed fresh, Program.run_bind, Payments.run_getPaymentForUpdate, absent]
  have claimed : (db.claim [eventID]).payments = [] := empty
  simp only [Program.run_bind, run_insertPayment_empty claimed]
  by_cases admits : (Payments.newPayment cfg cmd).admissible = true
  · simp only [admits, ↓reduceIte, Payments.run_updatePaymentState there, same, Program.run_pure,
      iff_true]
    exact ⟨_, rfl⟩
  · simp only [admits, Bool.false_eq_true, ↓reduceIte, iff_false]
    rintro ⟨after, fails⟩
    cases fails

theorem void_succeeds_iff {cfg : Payments.Config} {mint : Payments.Mint} (empty : db.payments = [])
    (fresh : eventID ∉ db.processed) (orderID paymentID key : ID) :
    Succeeds cfg mint eventID db (.void orderID paymentID key) ↔
      (Payments.tombstone cfg orderID paymentID key).admissible = true := by
  have absent : (db.claim [eventID]).payment paymentID = none := by
    change Table.find Payments.Payment.id db.payments paymentID = none
    rw [empty, Table.find_nil]
  simp only [Succeeds, Payments.voidStart]
  rw [run_claimed fresh, Program.run_bind, Payments.run_getPaymentForUpdate, absent]
  have claimed : (db.claim [eventID]).payments = [] := empty
  simp only [Program.run_bind, run_insertPayment_empty claimed]
  by_cases admits : (Payments.tombstone cfg orderID paymentID key).admissible = true
  · simp only [admits, ↓reduceIte, Payments.run_emit, Program.run_pure, iff_true]
    exact ⟨_, _, rfl⟩
  · simp only [admits, Bool.false_eq_true, ↓reduceIte, iff_false]
    rintro ⟨goes, after, fails⟩
    cases fails

theorem accepted_iff (name : Payments.ProviderName) : name.accepted = true ↔ name ≠ .paymob := by
  cases name <;> decide

theorem tombstone_admissible_iff (cfg : Payments.Config) (orderID paymentID key : ID) :
    (Payments.tombstone cfg orderID paymentID key).admissible = true ↔ cfg.name ≠ .paymob := by
  rw [← accepted_iff]
  unfold Payments.Payment.admissible Payments.tombstone
  have fits : "EGP".length ≤ 3 := by decide
  simp [fits]

theorem newPayment_admissible_iff (cfg : Payments.Config) (cmd : Payments.AuthorizeCommand)
    (fits : cmd.amount.currency.length ≤ 3) :
    (Payments.newPayment cfg cmd).admissible = true ↔
      cfg.name ≠ .paymob ∧ 0 < cmd.amount.amount := by
  rw [← accepted_iff]
  unfold Payments.Payment.admissible Payments.newPayment
  simp only [Bool.and_eq_true, decide_eq_true_eq, fits, and_true, Int.le_refl]
  constructor
  · rintro ⟨⟨positive, -⟩, known⟩
    exact ⟨known, positive⟩
  · rintro ⟨known, positive⟩
    exact ⟨⟨positive, Int.le_of_lt positive⟩, known⟩

/-- **What order-service accepts, payment-service stores** exactly when the order costs
something and the provider is not Paymob. -/
theorem storable_iff {toUpper : ToUpper} {number : String → ID} {input : PlaceOrderInput}
    {ord : Orders.Order} (accepts : Accepts toUpper number input ord) (cfg : Payments.Config) :
    Taken cfg ord .authorize ∧ Taken cfg ord .void ↔
      cfg.name ≠ .paymob ∧ 0 < input.expectedTotal.amount := by
  obtain ⟨shown, width⟩ := accepts.total
  have authorizes : ∀ (mint : Payments.Mint) (eventID reservationID paymentID : ID)
      (db : Payments.Database), db.payments = [] → eventID ∉ db.processed →
      ((∀ command ∈ toPayments (Orders.payload ord reservationID paymentID .authorize),
        Succeeds cfg mint eventID db command) ↔
        cfg.name ≠ .paymob ∧ 0 < input.expectedTotal.amount) := by
    intro mint eventID reservationID paymentID db empty fresh
    simp only [Orders.payload, toPayments, Option.mem_some_iff, forall_eq',
      authorize_succeeds_iff empty fresh]
    rw [newPayment_admissible_iff _ _ (Nat.le_of_eq width), shown]
  have voids : ∀ (mint : Payments.Mint) (eventID reservationID paymentID : ID)
      (db : Payments.Database), db.payments = [] → eventID ∉ db.processed →
      ((∀ command ∈ toPayments (Orders.payload ord reservationID paymentID .void),
        Succeeds cfg mint eventID db command) ↔ cfg.name ≠ .paymob) := by
    intro mint eventID reservationID paymentID db empty fresh
    simp only [Orders.payload, toPayments, Option.mem_some_iff, forall_eq',
      void_succeeds_iff empty fresh, tombstone_admissible_iff]
  constructor
  · rintro ⟨taken, -⟩
    exact (authorizes ⟨0, 0⟩ 0 0 0 {} rfl nofun).mp (taken ⟨0, 0⟩ 0 0 0 {} rfl nofun)
  · rintro ⟨known, positive⟩
    refine ⟨fun mint eventID reservationID paymentID db empty fresh => ?_,
      fun mint eventID reservationID paymentID db empty fresh => ?_⟩
    · exact (authorizes mint eventID reservationID paymentID db empty fresh).mpr ⟨known, positive⟩
    · exact (voids mint eventID reservationID paymentID db empty fresh).mpr known

def tenPoundOrder : Orders.Order :=
  Orders.newOrder 1
    { userID := 7
      items := [⟨0, 11, 11, "Oud", 2, ⟨500, "EGP"⟩, ⟨1000, "EGP"⟩⟩]
      subtotal := ⟨1000, "EGP"⟩
      discountTotal := ⟨0, "EGP"⟩
      shippingTotal := ⟨0, "EGP"⟩
      taxTotal := ⟨0, "EGP"⟩
      paymentMethodToken := "tok" }
    ⟨1000, "EGP"⟩

theorem accepts_tenPounds : Accepts id (fun _ => 11) tenPounds tenPoundOrder :=
  ⟨⟨1000, "EGP"⟩, rfl, rfl⟩

/-- With the mock provider the order is stored. -/
theorem storable_with_mock :
    Taken mockConfig tenPoundOrder .authorize ∧ Taken mockConfig tenPoundOrder .void :=
  (storable_iff accepts_tenPounds mockConfig).mpr ⟨by decide, by decide⟩

/-- With Paymob it is not: the `CHECK` on `payments.provider` does not know the name. -/
theorem paymob_not_storable : ¬ ∀ (toUpper : ToUpper) (number : String → ID)
    (input : PlaceOrderInput) (ord : Orders.Order) (cfg : Payments.Config),
    Accepts toUpper number input ord → Taken cfg ord .authorize ∧ Taken cfg ord .void := by
  intro storable
  obtain ⟨taken, -⟩ := storable id _ tenPounds tenPoundOrder { mockConfig with name := .paymob }
    accepts_tenPounds
  have succeeds := taken ⟨500, 600⟩ 400 200 300 {} rfl nofun _ rfl
  rw [authorize_succeeds_iff rfl (List.not_mem_nil)] at succeeds
  exact absurd succeeds (by decide +kernel)

end Souq.Checkout
