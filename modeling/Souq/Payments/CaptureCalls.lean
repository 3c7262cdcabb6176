import Souq.Payments.CaptureRetry

/-!
# Captures nobody asked the provider for

Whether a capture is a call of the provider depends on the method of the payment. An authorize
command knows it, but `InsertPayment` has no column for it, and the capture comes with a later
command, which scans the row. A scanned payment has no method, Paymob supports no capture
without one, and so every capture under Paymob is settled locally.
-/

namespace Souq.Payments

open Transact Transition

/-- A row as the service has read it. -/
structure InMemory where
  row : Payment
  method : Option PaymentMethod

/-- What `selectPayment` reads. -/
def scanPaymentRow (row : Payment) : InMemory := { row := row, method := none }

/-- Paymob captures separately what was paid by card to an account that authorizes only. -/
def paymobSupportsCapture (authorizeOnly : Bool) : Option PaymentMethod → Bool
  | some .card => authorizeOnly
  | some .wallet | some .cashOnDelivery | some .installment => false
  | none => false

def paymob (authorizeOnly : Bool) (derive : Operation → ID → ID → ID) : Config where
  name := .paymob
  supportsCapture := paymobSupportsCapture authorizeOnly
  derive := derive

/-- A call of the provider's `Capture` that returned. -/
structure CaptureCall where
  paymentID : ID
  outcome : Outcome

/-- The service, and the calls of the provider's `Capture` so far. -/
structure Audited (ι : Type) where
  service : Service ι := {}
  calls : List CaptureCall := []

section

variable {ι : Type}

/-- The call of the provider's `Capture` that a step is the answer to. -/
def Service.asked (cfg : Config) (s : Service ι) : Turn ι → List CaptureCall
  | .answer i result _ =>
    match s.work i with
    | some (.call (.capture _ paymentID _ _)) =>
      match s.db.payment paymentID with
      | some row =>
        if cfg.supportsCapture (scanPaymentRow row).method then [⟨paymentID, result.outcome⟩]
        else []
      | none => []
    | _ => []
  | _ => []

variable [DecidableEq ι]

/-- A step, with the captures it asks for. -/
def Audited.step (cfg : Config) (key : CallbackKey) (s : Audited ι) (turn : Turn ι) :
    Audited ι where
  service := s.service.step cfg key turn
  calls := s.calls ++ s.service.asked cfg turn

def auditing (ι : Type) [DecidableEq ι] (cfg : Config) (key : CallbackKey) (db : Database) :
    System (Audited ι) (Turn ι) :=
  .ofFunction { service := { db := db } } (Audited.step cfg key)

variable {key : CallbackKey} {db : Database} {s : Audited ι} {cfg : Config}

theorem Audited.admitted (meets : db.Admitted) (reached : (auditing ι cfg key db).Reachable s) :
    s.service.db.Admitted := by
  apply reached.invariant
  · rintro _ rfl
    exact meets
  · rintro s turn _ admits rfl
    exact Service.step_admitted admits

omit [DecidableEq ι] in
theorem asked_paymob {authorizeOnly : Bool} {derive : Operation → ID → ID → ID}
    (s : Service ι) (turn : Turn ι) : s.asked (paymob authorizeOnly derive) turn = [] := by
  unfold Service.asked
  split
  · split
    · split <;> rfl
    · rfl
  · rfl

theorem calls_paymob {authorizeOnly : Bool} {derive : Operation → ID → ID → ID}
    (reached : (auditing ι (paymob authorizeOnly derive) key db).Reachable s) : s.calls = [] := by
  apply reached.invariant
  · rintro _ rfl
    rfl
  · rintro s turn _ none' rfl
    unfold Audited.step
    rw [asked_paymob, none']
    rfl

end

/-- **A capture without the provider.** In every run with Paymob, from any tables that meet their
`CHECK`s, every capture operation moves its payment to `CAPTURED`, whatever the provider would
have answered, and the provider's `Capture` was not called. -/
theorem paymob_captures_unasked {ι : Type} [DecidableEq ι] {authorizeOnly : Bool}
    {derive : Operation → ID → ID → ID} {key : CallbackKey} {db : Database} {s : Audited ι}
    (meets : db.Admitted)
    (reached : (auditing ι (paymob authorizeOnly derive) key db).Reachable s) {i : ι}
    {orderID paymentID pspKey : ID} {providerAuthID : Option ID} {row : Payment}
    (waits : s.service.work i = some (.call (.capture orderID paymentID pspKey providerAuthID)))
    (found : s.service.db.payment paymentID = some row) (result : Result) (mint : Mint) :
    (s.step (paymob authorizeOnly derive) key (.answer i result mint)).service.db.stateOf
        paymentID = some .captured ∧
      ¬∃ call ∈ (s.step (paymob authorizeOnly derive) key (.answer i result mint)).calls,
        call.paymentID = paymentID ∧ call.outcome = .approved := by
  have named : row.id = paymentID := Table.key_of_find found
  constructor
  · have admits := Audited.admitted meets reached row (Table.mem_of_find found)
    have entered :=
      @settleCapture_approved _ _ { outcome := .approved, providerRef := providerAuthID }
      _ mint pspKey found admits rfl
    simp only [Audited.step, Service.step, waits]
    exact (entered.stateOf paymentID).trans (if_pos named)
  · have none' := calls_paymob (reached.step (a := .answer i result mint) rfl)
    rintro ⟨call, member, -⟩
    rw [show (s.step _ key _).calls = [] from none'] at member
    cases member

def beforePaymob : Database := authorizedOrder.db

/-- The service is restarted with Paymob and gets the capture command. -/
def afterRestart : Audited (Fin 2) :=
  [Turn.start 0 503 (.capture 20 30 7) ⟨603, 703⟩].foldl
    (Audited.step (paymob true mocked.derive) callbackKeys) { service := { db := beforePaymob } }

/-- Even a capture that the provider would decline goes through. -/
theorem declined_capture_settled :
    (afterRestart.step (paymob true mocked.derive) callbackKeys
        (.answer 0 { outcome := .declined } ⟨604, 704⟩)).service.db.stateOf 30 =
          some .captured := by
  obtain ⟨row, found, -⟩ := found_of_stateOf (show afterRestart.service.db.stateOf 30 =
    some .capturing by decide +kernel)
  have meets : beforePaymob.Admitted := by
    unfold Database.Admitted
    decide +kernel
  have waits : afterRestart.service.work 0 = some (.call (.capture 20 30 201 none)) := by
    decide +kernel
  exact (paymob_captures_unasked meets (.foldl _) waits found { outcome := .declined }
    ⟨604, 704⟩).1

/-- A payment that could be captured through Paymob is captured without Paymob. -/
theorem card_captured_unasked : ¬ ∀ (derive : Operation → ID → ID → ID) (key : CallbackKey)
    (db : Database) (method : ID → PaymentMethod) (s : Audited (Fin 2)) (turn : Turn (Fin 2))
    (paymentID : ID), db.Admitted →
    (paymob true derive).supportsCapture (some (method paymentID)) = true →
    (auditing (Fin 2) (paymob true derive) key db).Reachable s →
    (∃ i, s.service.Capturing paymentID i ∧ ∃ result mint, turn = .answer i result mint) →
    s.service.db.stateOf paymentID ≠ some .captured →
    (s.step (paymob true derive) key turn).service.db.stateOf paymentID = some .captured →
    ∃ call ∈ (s.step (paymob true derive) key turn).calls,
      call.paymentID = paymentID ∧ call.outcome = .approved := by
  intro asked
  have meets : beforePaymob.Admitted := by
    unfold Database.Admitted
    decide +kernel
  have call := asked mocked.derive callbackKeys beforePaymob (fun _ => .card) afterRestart
    (.answer 0 { outcome := .declined } ⟨604, 704⟩) 30 meets rfl (.foldl _)
    ⟨0, by decide +kernel, _, _, rfl⟩ (by decide +kernel) (by decide +kernel)
  revert call
  decide +kernel

end Souq.Payments
