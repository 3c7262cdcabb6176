import Souq.Checkout.Links

/-!
# payment-service follows the protocol

The first transaction of a command, the provider's answer and a crash between the
two are runs of ordinary steps. An approved authorization is a step of its own
kind.
-/

namespace Souq.Checkout

open Saga Transact Transition List
open Orders (Envelope)

variable {orderID reservationID paymentID : ID} {w : World}

theorem Linked.payment_view (linked : Linked orderID reservationID paymentID w) :
    (w.view orderID).payment = (w.payments.payment paymentID).map Payments.Payment.state := by
  have named : ∀ row ∈ w.payments.payments, row.id = paymentID :=
    fun row member => (linked.payments row member).1
  have owned : ∀ row ∈ w.payments.payments, row.orderID = orderID :=
    fun row member => (linked.payments row member).2
  rw [Payments.Database.payment, Table.find_eq_head named, ← Table.find_eq_head owned]
  rfl

variable {row : Payments.Payment} {eventID : ID} {call : Payments.Call}
  {cmd : Payments.AuthorizeCommand} {record : Orders.OutboxRecord}

theorem Linked.found_payment (linked : Linked orderID reservationID paymentID w)
    (found : w.payments.payment paymentID = some row) :
    row.id = paymentID ∧ row.orderID = orderID :=
  linked.payments row (Table.mem_of_find found)

/-- A transaction of payment-service claimed commands, wrote the order's payment
and announced it if it replies. -/
structure Charge (orderID reservationID paymentID : ID) (w : World) (payments : Payments.Database)
    (state : Payments.State) (reply : Option Trigger) (claimed : List ID) : Prop where
  rows : ∀ row ∈ payments.payments, row.id = paymentID ∧ row.orderID = orderID
  payment : (payments.paymentOf orderID).map Payments.Payment.state = some state
  processed : payments.processed = w.payments.processed ++ claimed
  announced : payments.outbox.map fromPayments = w.payments.outbox.map fromPayments ∨
    ∃ e t, reply = some t ∧ About orderID reservationID paymentID e ∧ triggerFor e.type = some t ∧
      payments.outbox.map fromPayments = w.payments.outbox.map fromPayments ++ [e]

theorem Linked.charge (linked : Linked orderID reservationID paymentID w)
    {payments : Payments.Database} {event : Option Payments.Event} {state : Payments.State}
    {reply : Option Trigger} {claimed : List ID}
    (wrote : Payments.Wrote w.payments payments row (event.map (Payments.OutboxRecord.mk eventID))
      claimed) (named : row.id = paymentID) (owned : row.orderID = orderID)
    (held : row.state = state)
    (replies : ∀ e ∈ event, ∃ t, reply = some t ∧ About orderID reservationID paymentID
      (fromPayments ⟨eventID, e⟩) ∧ triggerFor (fromPayments ⟨eventID, e⟩).type = some t) :
    Charge orderID reservationID paymentID w payments state reply claimed := by
  have same : ∀ other ∈ w.payments.payments, other.id = row.id :=
    fun other member => ((linked.payments other member).1).trans named.symm
  have all : ∀ other ∈ payments.payments, other.id = paymentID ∧ other.orderID = orderID := by
    intro other member
    rw [wrote.payments] at member
    rcases Table.mem_upsert member with new | old
    · rw [new]
      exact ⟨named, owned⟩
    · exact linked.payments other old
  refine ⟨all, ?_, wrote.processed, ?_⟩
  · rw [Payments.Database.paymentOf, Table.find_eq_head fun other member => (all other member).2,
      wrote.payments, Table.head_upsert same, Option.map_some, held]
  · rcases wrote.outbox with stays | ⟨record, announced, grows⟩
    · exact .inl (by rw [stays])
    · right
      obtain ⟨e, emitted, rfl⟩ := Option.map_eq_some_iff.mp announced
      obtain ⟨t, answers, about, kind⟩ := replies e emitted
      exact ⟨_, t, answers, about, kind, by rw [grows, map_append]; rfl⟩

variable {payments : Payments.Database} {state : Payments.State} {reply : Option Trigger}
  {claimed : List ID} {calls : List Payments.Call}

theorem Charge.linked
    (charge : Charge orderID reservationID paymentID w payments state reply claimed)
    (linked : Linked orderID reservationID paymentID w) (placed : w.orders.order ≠ none)
    (called : ∀ call ∈ calls, Called orderID paymentID (w.view orderID).sent call) :
    Linked orderID reservationID paymentID { w with payments := payments, calls := calls } := by
  refine ⟨linked.order, fun absent => (placed absent).elim, linked.commands, linked.tasks, called,
    linked.reservations, linked.single, charge.rows, ?_⟩
  intro e member
  rcases mem_append.mp member with stocked | paid
  · exact linked.events e (mem_append_left _ stocked)
  · rcases charge.announced with same | ⟨new, -, -, about, -, more⟩
    · rw [same] at paid
      exact linked.events e (mem_append_right _ paid)
    · rw [more] at paid
      rcases mem_append.mp paid with old | recent
      · exact linked.events e (mem_append_right _ old)
      · rw [mem_singleton.mp recent]
        exact about

theorem Charge.announces {t : Trigger}
    (charge : Charge orderID reservationID paymentID w payments state (some t) claimed)
    (calls : List Payments.Call) :
    Announces (w.view orderID) t
      (said ({ w with payments := payments, calls := calls } : World).announcements)
      (fresh ({ w with payments := payments, calls := calls } : World).announcements
        w.orders.processed) := by
  have grows : payments.outbox.map fromPayments = w.payments.outbox.map fromPayments ∨
      ∃ e : Envelope, triggerFor e.type = some t ∧
        payments.outbox.map fromPayments = w.payments.outbox.map fromPayments ++ [e] := by
    rcases charge.announced with same | ⟨e, t', reply, -, kind, more⟩
    · exact .inl same
    · exact .inr ⟨e, kind.trans reply.symm, more⟩
  apply announces_of_grow grows
  · intro x
    rw [Nat.add_comm]
    exact said_append _ _ x
  · intro x
    rw [Nat.add_comm]
    exact fresh_append _ _ _ x
  · intro x
    rw [Nat.add_comm]
    exact said_append _ _ x
  · intro x
    rw [Nat.add_comm]
    exact fresh_append _ _ _ x

theorem Charge.announcements
    (charge : Charge orderID reservationID paymentID w payments state none claimed)
    (calls : List Payments.Call) :
    ({ w with payments := payments, calls := calls } : World).announcements =
      w.announcements := by
  rcases charge.announced with same | ⟨e, t, answers, -⟩
  · simp only [World.announcements, same]
  · cases answers

theorem Charge.view (charge : Charge orderID reservationID paymentID w payments state reply claimed)
    (calls : List Payments.Call) :
    ({ w with payments := payments, calls := calls } : World).view orderID =
      { w.view orderID with
        authorizing := unclaimed w.orders.outbox (w.payments.processed ++ claimed) .authorize
        charging := calls.countP charges
        payment := some state
        said := said ({ w with payments := payments, calls := calls } : World).announcements
        fresh := fresh ({ w with payments := payments, calls := calls } : World).announcements
          w.orders.processed } := by
  rw [← charge.payment, ← charge.processed]
  rfl

theorem Ordinary.claims {v after : View} {authorizing : Nat} (run : Ordinary v after)
    (fewer : authorizing ≤ after.authorizing) :
    Ordinary v { after with authorizing := authorizing } :=
  run.trans (Ordinary.rule (Rule.lose (Nat.le_refl _) (Nat.le_refl _) fewer (Nat.le_refl _)))

theorem World.authorizing_le (w : World) (orderID : ID) (claimed : List ID) :
    unclaimed w.orders.outbox (w.payments.processed ++ claimed) .authorize ≤
      (w.view orderID).authorizing := Inbox.waiting_processed_le _ _ _ _ _

theorem Linked.placed_of_call (linked : Linked orderID reservationID paymentID w)
    (member : call ∈ w.calls) : w.orders.order ≠ none := by
  intro absent
  rw [(linked.blank absent).2.2.1] at member
  cases member

theorem Linked.called_cons (linked : Linked orderID reservationID paymentID w)
    (called : Called orderID paymentID (w.view orderID).sent call) :
    ∀ other ∈ call :: w.calls, Called orderID paymentID (w.view orderID).sent other := by
  intro other member
  rcases mem_cons.mp member with first | rest
  · rw [first]
    exact called
  · exact linked.calls other rest

theorem Linked.called_erase (linked : Linked orderID reservationID paymentID w)
    (call : Payments.Call) :
    ∀ other ∈ w.calls.erase call, Called orderID paymentID (w.view orderID).sent other :=
  fun other member => linked.calls other (mem_of_mem_erase member)

theorem eventFor_replies (eventID : ID) (named : row.id = paymentID) (owned : row.orderID = orderID)
    (reservationID : ID) :
    ∀ e ∈ Payments.eventFor row, ∃ t, replyFor row.state = some t ∧
      About orderID reservationID paymentID (fromPayments ⟨eventID, e⟩) ∧
      triggerFor (fromPayments ⟨eventID, e⟩).type = some t := by
  intro e announced
  subst named owned
  cases held : row.state <;> simp only [Payments.eventFor, held] at announced <;> cases announced
  all_goals exact ⟨_, rfl, ⟨_, rfl, rfl, .inl rfl, .inr rfl⟩, rfl⟩

theorem Charge.follows {after : Payments.Database}
    (charge : Charge orderID reservationID paymentID w after .authorizing none [eventID])
    (linked : Linked orderID reservationID paymentID w) (placed : w.orders.order ≠ none)
    (called : Called orderID paymentID (w.view orderID).sent (.authorize cmd))
    (used : unclaimed w.orders.outbox (w.payments.processed ++ [eventID]) .authorize < (w.view
      orderID).authorizing)
    (open' : (w.view orderID).payment = none ∨ (w.view orderID).payment = some .pending) :
    Follows orderID w { w with payments := after, calls := .authorize cmd :: w.calls } := by
  refine ⟨⟨_, _, charge.linked linked placed (linked.called_cons called)⟩, ?_⟩
  rw [charge.view, charge.announcements]
  exact Ordinary.rule (Rule.charge used open' (Nat.le_of_eq (countP_cons_of_pos rfl)))

variable (cfg : Payments.Config)

variable (linked : Linked orderID reservationID paymentID w)
include linked

theorem follows_authorize
    (member : record ∈ w.orders.outbox) (carried : carries .authorize record = true)
    (owned : cmd.orderID = orderID) (named : cmd.paymentID = paymentID) (mint : Payments.Mint) :
    Follows orderID w { w with
      payments := (Payments.Command.start cfg mint record.eventID (.authorize cmd) w.payments).1
      calls := (Payments.Command.start cfg mint record.eventID (.authorize cmd)
        w.payments).2.toList ++ w.calls } := by
  subst owned named
  have placed := linked.placed_of_command member
  rcases Payments.start_authorize_cases cfg mint record.eventID cmd w.payments with
    stays | ⟨after, row, event, goes, started, new, authorizing, wrote⟩
  · rw [stays]
    exact Follows.stays linked
  · rw [started]
    have used : unclaimed w.orders.outbox (w.payments.processed ++ [record.eventID]) .authorize <
        (w.view cmd.orderID).authorizing := Inbox.waiting_processed_lt member carried new
    have held := linked.payment_view
    cases found : w.payments.payment cmd.paymentID with
    | none =>
      rw [found] at authorizing held
      cases authorizing with
      | new named owned state =>
        exact (linked.charge wrote named owned state nofun).follows linked placed ⟨rfl, rfl⟩ used
          (.inl held)
    | some old =>
      obtain ⟨named, owned⟩ := linked.found_payment found
      rw [found] at authorizing held
      cases authorizing with
      | resumed pending =>
        exact (linked.charge wrote named owned rfl nofun).follows linked placed ⟨rfl, rfl⟩ used
          (.inr (held.trans (congrArg some pending)))
      | again settled =>
        have charge := linked.charge wrote named owned rfl
          (eventFor_replies mint.eventID named owned reservationID)
        refine ⟨⟨_, _, charge.linked linked placed linked.calls⟩, ?_⟩
        change Ordinary _ (({ w with payments := after, calls := w.calls } : World).view
          cmd.orderID)
        rw [charge.view]
        have same : (w.view cmd.orderID).payment = some row.state := held
        cases replies : replyFor row.state with
        | none =>
          rw [replies] at charge
          rw [charge.announcements, ← same]
          exact (Ordinary.refl _).claims (w.authorizing_le cmd.orderID _)
        | some t =>
          rw [replies] at charge
          rw [← same]
          exact Ordinary.rule (Rule.chargeAgain used same replies (charge.announces w.calls))

theorem follows_capture
    (member : record ∈ w.orders.outbox) (asked : (w.view orderID).sent .capture = true) (o key : ID)
    (mint : Payments.Mint) :
    Follows orderID w { w with
      payments := (Payments.Command.start cfg mint record.eventID (.capture o paymentID key)
        w.payments).1
      calls := (Payments.Command.start cfg mint record.eventID (.capture o paymentID key)
        w.payments).2.toList ++ w.calls } := by
  have placed := linked.placed_of_command member
  rcases Payments.start_capture_cases cfg mint record.eventID o paymentID key w.payments with
    stays | ⟨after, old, row, event, pmt, started, found, capturing, wrote⟩
  · rw [stays]
    exact Follows.stays linked
  · rw [started]
    obtain ⟨named, owned⟩ := linked.found_payment found
    have held := linked.payment_view
    rw [found] at held
    cases capturing with
    | open' authorized =>
      have charge : Charge orderID reservationID paymentID w after .capturing none
          [record.eventID] := linked.charge wrote named owned rfl nofun
      refine ⟨⟨_, _, charge.linked linked placed (linked.called_cons ⟨named, asked⟩)⟩, ?_⟩
      change Ordinary _ (({ w with payments := after, calls := _ :: w.calls } : World).view orderID)
      rw [charge.view, charge.announcements, countP_cons_of_neg (by simp [charges])]
      have rule := Rule.capture asked (held.trans (congrArg some authorized))
      exact (Ordinary.rule rule).claims (w.authorizing_le orderID _)
    | again settled amount =>
      subst named owned
      have charge : Charge old.orderID reservationID old.id w after .captured (some .captured)
          [record.eventID] := by
        apply linked.charge wrote rfl rfl settled
        intro e announced
        cases announced
        exact ⟨_, rfl, ⟨_, rfl, rfl, .inl rfl, .inr rfl⟩, rfl⟩
      refine ⟨⟨_, _, charge.linked linked placed linked.calls⟩, ?_⟩
      change Ordinary _ (({ w with payments := after, calls := w.calls } : World).view old.orderID)
      rw [charge.view]
      have rule := Rule.captured asked (charge.announces w.calls)
      exact (Ordinary.rule rule).claims (w.authorizing_le old.orderID _)

theorem follows_void
    (member : record ∈ w.orders.outbox) (asked : (w.view orderID).sent .void = true) (key : ID)
    (mint : Payments.Mint) :
    Follows orderID w { w with
      payments := (Payments.Command.start cfg mint record.eventID (.void orderID paymentID key)
        w.payments).1
      calls := (Payments.Command.start cfg mint record.eventID (.void orderID paymentID key)
        w.payments).2.toList ++ w.calls } := by
  have placed := linked.placed_of_command member
  rcases Payments.start_void_cases cfg mint record.eventID orderID paymentID key w.payments with
    stays | ⟨after, row, announces, wasTombstone, goes, started, voiding, wrote⟩
  · rw [stays]
    exact Follows.stays linked
  · rw [started]
    have held := linked.payment_view
    have settles : announces = true → row.id = paymentID → row.orderID = orderID →
        ∀ {state}, row.state = state →
        Charge orderID reservationID paymentID w after state (some .voided) [record.eventID] := by
      intro answers named owned state settled
      subst answers
      apply linked.charge wrote named owned settled
      intro e announced
      cases announced
      exact ⟨_, rfl, ⟨_, rfl, rfl, .inl rfl, .inr rfl⟩, rfl⟩
    have becomesVoided : announces = true → goes = false → row.id = paymentID →
        row.orderID = orderID → row.state = .voided → Follows orderID w { w with
          payments := after
          calls := (if goes then some (.void orderID paymentID (cfg.derive .void orderID key))
            else none : Option Payments.Call).toList ++ w.calls } := by
      intro answers stops named owned settled
      subst stops
      have charge := settles answers named owned settled
      refine ⟨⟨_, _, charge.linked linked placed linked.calls⟩, ?_⟩
      change Ordinary _ (({ w with payments := after, calls := w.calls } : World).view orderID)
      rw [charge.view]
      have rule := Rule.voided asked (charge.announces w.calls)
      exact (Ordinary.rule rule).claims (w.authorizing_le orderID _)
    cases found : w.payments.payment paymentID with
    | none =>
      rw [found] at voiding
      cases voiding with
      | tombstone named owned state => exact becomesVoided rfl rfl named owned state
    | some old =>
      obtain ⟨named, owned⟩ := linked.found_payment found
      rw [found] at voiding held
      cases voiding with
      | again settled =>
        rcases settled with voided | failed
        · exact becomesVoided rfl rfl named owned voided
        · have charge := settles rfl named owned failed
          refine ⟨⟨_, _, charge.linked linked placed linked.calls⟩, ?_⟩
          change Ordinary _ (({ w with payments := after, calls := w.calls } : World).view orderID)
          have same : (w.view orderID).payment = some .failed :=
            held.trans (congrArg some failed)
          rw [charge.view, ← same]
          have rule := Rule.voidedAgain asked same (charge.announces w.calls)
          exact (Ordinary.rule rule).claims (w.authorizing_le orderID _)
      | open' live =>
        have charge : Charge orderID reservationID paymentID w after row.state none
            [record.eventID] := linked.charge wrote named owned rfl nofun
        have called : Called orderID paymentID (w.view orderID).sent
            (.void orderID paymentID (cfg.derive .void orderID key)) := ⟨rfl, rfl, asked⟩
        refine ⟨⟨_, _, charge.linked linked placed (linked.called_cons called)⟩, ?_⟩
        change Ordinary _
          (({ w with payments := after, calls := _ :: w.calls } : World).view orderID)
        have same : (w.view orderID).payment = some row.state := held
        rw [charge.view, charge.announcements, ← same, countP_cons_of_neg (by simp [charges])]
        exact (Ordinary.refl _).claims (w.authorizing_le orderID _)

theorem follows_command (member : record ∈ w.orders.outbox) (mint : Payments.Mint) :
    Follows orderID w (w.command cfg record mint) := by
  unfold World.command
  cases accepted : (commandOf record).bind toPayments with
  | none => exact Follows.stays linked
  | some command =>
    obtain ⟨c, carried, accepted⟩ := Option.bind_eq_some_iff.mp accepted
    have message := commandOf_eq_some.mp carried
    have sent := sent_of_mem orderID member carried
    have named := linked.commands record member c message
    cases c <;> cases accepted
    · have carries' : carries .authorize record = true := by
        simp [carries, Orders.OutboxRecord.step, message, Orders.Command.step]
      exact follows_authorize cfg linked member carries' named.1 named.2 mint
    · obtain ⟨rfl, rfl⟩ := named
      exact follows_capture cfg linked member sent _ _ mint
    · obtain ⟨rfl, rfl⟩ := named
      exact follows_void cfg linked member sent _ mint

/-- An operation that ends without a trace the saga sees. -/
theorem follows_unseen (call : Payments.Call) (unseen : payments.visible = w.payments.visible) :
    Follows orderID w { w with payments := payments, calls := w.calls.erase call } := by
  simp only [Payments.Database.visible, Prod.mk.injEq] at unseen
  obtain ⟨rows, outbox, processed⟩ := unseen
  have same : ({ w with payments := payments, calls := w.calls.erase call } : World).view orderID =
      { w.view orderID with charging := (w.calls.erase call).countP charges } := by
    simp only [World.view, World.payment, World.announcements, Payments.Database.paymentOf, rows,
      outbox, processed]
    rfl
  have announcements : ({ w with payments := payments, calls := w.calls.erase call } :
      World).announcements = w.announcements := by
    simp only [World.announcements, outbox]
  refine ⟨⟨reservationID, paymentID, linked.order, ?_, linked.commands, linked.tasks,
    linked.called_erase call, linked.reservations, linked.single, ?_, ?_⟩, ?_⟩
  · intro absent
    obtain ⟨sent, tasks, calls, reservations, payments', events⟩ := linked.blank absent
    exact ⟨sent, tasks, by simp [calls], reservations, rows.trans payments',
      announcements.trans events⟩
  · simp only [rows]
    exact linked.payments
  · rw [announcements]
    exact linked.events
  · rw [same]
    exact Ordinary.rule (Rule.lose (Nat.le_refl _) (Nat.le_refl _) (Nat.le_refl _)
      (List.Sublist.countP_le erase_sublist))

theorem follows_hangUp (call : Payments.Call) :
    Follows orderID w { w with calls := w.calls.erase call } :=
  follows_unseen linked call rfl

theorem Linked.settle {old : Payments.Payment}
    (found : w.payments.payment paymentID = some old) {fields : Payments.StateFields}
    {event : Payments.Event} {t : Trigger}
    (wrote : Payments.Wrote w.payments payments (old.withState state fields) (some ⟨eventID, event⟩)
      []) (about : About old.orderID reservationID old.id (fromPayments ⟨eventID, event⟩))
    (kind : triggerFor (fromPayments ⟨eventID, event⟩).type = some t) :
    Charge orderID reservationID paymentID w payments state (some t) [] := by
  obtain ⟨named, owned⟩ := linked.found_payment found
  have written : Payments.Wrote w.payments payments (old.withState state fields)
      (Option.map (Payments.OutboxRecord.mk eventID) (some event)) [] := wrote
  apply linked.charge written named owned rfl
  intro e announced
  cases announced
  rw [named, owned] at about
  exact ⟨t, rfl, about, kind⟩

omit linked in
theorem Charge.view_answer
    (charge : Charge orderID reservationID paymentID w payments state reply [])
    (calls : List Payments.Call) :
    ({ w with payments := payments, calls := calls } : World).view orderID =
      { w.view orderID with
        charging := calls.countP charges
        payment := some state
        said := said ({ w with payments := payments, calls := calls } : World).announcements
        fresh := fresh ({ w with payments := payments, calls := calls } : World).announcements
          w.orders.processed } := by
  rw [charge.view, append_nil]
  rfl

omit linked in
def Approves (call : Payments.Call) (result : Payments.Result) : Prop :=
  charges call = true ∧ result.outcome = .approved

omit linked in
instance (call : Payments.Call) (result : Payments.Result) : Decidable (Approves call result) :=
  inferInstanceAs (Decidable (_ ∧ _))

/-- An answer to an authorization is an ordinary step unless it approves it. -/
theorem answer_authorize_cases
    (member : .authorize cmd ∈ w.calls) (result : Payments.Result) (mint : Payments.Mint) :
    Follows orderID w (w.answer cfg (.authorize cmd) result mint) ∨ result.outcome = .approved ∧
      (∃ r p, Linked orderID r p (w.answer cfg (.authorize cmd) result mint)) ∧
      Rule (w.view orderID) .approval
        ((w.answer cfg (.authorize cmd) result mint).view orderID) := by
  obtain ⟨rfl, rfl⟩ := linked.calls _ member
  have placed := linked.placed_of_call member
  have used := Inbox.countP_erase member charges
  simp only [charges, ↓reduceIte] at used
  have fewer : (w.calls.erase (.authorize cmd)).countP charges < (w.view cmd.orderID).charging := by
    simp only [World.view, used]
    omega
  unfold World.answer
  rcases Payments.authorizeFinish_inTx_cases cfg mint cmd result w.payments with
    unseen | ⟨old, row, event, found, authorized, wrote⟩
  · exact .inl (follows_unseen linked _ unseen)
  · generalize outcome : result.outcome = answer at authorized
    cases authorized with
    | approved fields amount =>
      right
      have charge := linked.settle (t := .authorized) found wrote
        ⟨_, rfl, rfl, .inl rfl, .inr rfl⟩ rfl
      refine ⟨rfl, ⟨_, _, charge.linked linked placed (linked.called_erase _)⟩, ?_⟩
      simp only [Payments.Call.finish]
      rw [charge.view_answer]
      exact Rule.approved fewer (charge.announces _)
    | declined fields reasonCode retriable =>
      left
      have charge := linked.settle (t := .authFailed) found wrote
        ⟨_, rfl, rfl, .inl rfl, .inr rfl⟩ rfl
      refine ⟨⟨_, _, charge.linked linked placed (linked.called_erase _)⟩, ?_⟩
      simp only [Payments.Call.finish]
      rw [charge.view_answer]
      exact Ordinary.rule (Rule.declined fewer (charge.announces _))

omit linked in
theorem charging_erase (orderID : ID) (member : call ∈ w.calls) (quiet : charges call = false) :
    (w.calls.erase call).countP charges = (w.view orderID).charging := by
  have counted := Inbox.countP_erase member charges
  simp only [quiet, Bool.false_eq_true, ↓reduceIte, Nat.add_zero] at counted
  exact counted.symm

theorem follows_settleCapture {o p key : ID}
    {auth : Option ID} (member : .capture o p key auth ∈ w.calls) (result : Payments.Result)
    (mint : Payments.Mint) :
    Follows orderID w (w.answer cfg (.capture o p key auth) result mint) := by
  obtain ⟨rfl, asked⟩ := linked.calls _ member
  have placed := linked.placed_of_call member
  unfold World.answer
  simp only [Payments.Call.finish]
  rcases Payments.settleCapture_inTx_cases mint p key
    (if cfg.supportsCapture none then result else { outcome := .approved, providerRef := auth })
    w.payments with unseen | ⟨old, fields, amount, -, found, wrote⟩
  · exact follows_unseen linked _ unseen
  · have charge := linked.settle (t := .captured) found wrote ⟨_, rfl, rfl, .inl rfl, .inr rfl⟩ rfl
    refine ⟨⟨_, _, charge.linked linked placed (linked.called_erase _)⟩, ?_⟩
    rw [charge.view_answer, charging_erase orderID member rfl]
    exact Ordinary.rule (Rule.captured asked (charge.announces _))

theorem follows_voidFinish {o p key : ID}
    (member : .void o p key ∈ w.calls) (result : Payments.Result) (mint : Payments.Mint) :
    Follows orderID w (w.answer cfg (.void o p key) result mint) := by
  obtain ⟨rfl, rfl, asked⟩ := linked.calls _ member
  have placed := linked.placed_of_call member
  unfold World.answer
  simp only [Payments.Call.finish]
  rcases Payments.voidFinish_inTx_cases mint o p key result w.payments with
    unseen | ⟨old, -, found, wrote⟩
  · exact follows_unseen linked _ unseen
  · obtain ⟨named, owned⟩ := linked.found_payment found
    have charge := linked.settle (t := .voided) found wrote
      ⟨_, rfl, congrArg some owned.symm, .inl rfl, .inr (congrArg some named.symm)⟩ rfl
    refine ⟨⟨_, _, charge.linked linked placed (linked.called_erase _)⟩, ?_⟩
    rw [charge.view_answer, charging_erase o member rfl]
    exact Ordinary.rule (Rule.voided asked (charge.announces _))

theorem answer_cases (member : call ∈ w.calls) (result : Payments.Result) (mint : Payments.Mint) :
    Follows orderID w (w.answer cfg call result mint) ∨ Approves call result ∧
      (∃ r p, Linked orderID r p (w.answer cfg call result mint)) ∧
      Rule (w.view orderID) .approval ((w.answer cfg call result mint).view orderID) := by
  cases call with
  | authorize cmd =>
    rcases answer_authorize_cases cfg linked member result mint with
      follows | ⟨approved, linked', rule⟩
    · exact .inl follows
    · exact .inr ⟨⟨rfl, approved⟩, linked', rule⟩
  | capture o p key auth => exact .inl (follows_settleCapture cfg linked member result mint)
  | void o p key => exact .inl (follows_voidFinish cfg linked member result mint)

end Souq.Checkout
