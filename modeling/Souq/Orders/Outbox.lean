import Souq.Orders.Board

/-!
# What the orchestrator's transactions send

Every transaction appends to the outbox, at most one command for each step it
emits. All commands of an order name the identifiers drawn when it was placed.
-/

namespace Souq.Orders

open Saga Transact List

def Command.names (orderID reservationID paymentID : ID) : Command → Prop
  | .reserve o r _ _ | .release o r _ | .commit o r => o = orderID ∧ r = reservationID
  | .authorize o p _ _ _ | .capture o p _ | .void o p _ => o = orderID ∧ p = paymentID

def Order.names (ord : Order) (orderID reservationID paymentID : ID) : Prop :=
  ord.id = orderID ∧ ord.reservationID = some reservationID ∧ ord.paymentID = some paymentID

/-- The outbox grew by at most one command for each emitted step, each with the
right names. -/
def Sent (names : Command → Prop) (emit : List Step) (before after : List OutboxRecord) : Prop :=
  ∃ new, after = before ++ new ∧
    (∀ step, new.countP (fun record => record.step = some step) ≤ emit.count step) ∧
    ∀ record ∈ new, ∀ c, record.message = .command c → names c

section Sent

variable {names : Command → Prop} {first second : List Step}
    {before between after : List OutboxRecord}

theorem Sent.refl (emit : List Step) (box : List OutboxRecord) : Sent names emit box box :=
  ⟨[], (append_nil box).symm, fun _ => Nat.zero_le _, fun _ member => nomatch member⟩

theorem Sent.trans (one : Sent names first before between) (two : Sent names second between after) :
    Sent names (first ++ second) before after := by
  obtain ⟨new, rfl, counts, named⟩ := one
  obtain ⟨more, rfl, counts', named'⟩ := two
  refine ⟨new ++ more, append_assoc .., ?_, ?_⟩
  · intro step
    rw [countP_append, count_append]
    exact Nat.add_le_add (counts step) (counts' step)
  · intro record member c carries
    rcases mem_append.mp member with old | recent
    · exact named record old c carries
    · exact named' record recent c carries

variable (box : List OutboxRecord)

theorem enqueued_cases (record : OutboxRecord) :
    enqueued box record = box ∨ enqueued box record = box ++ [record] := by
  unfold enqueued
  split
  · exact .inl rfl
  · exact .inr rfl

theorem sent_event (eventID : ID) (e : OrderEvent) :
    Sent names [] box (enqueued box ⟨eventID, .event e⟩) := by
  rcases enqueued_cases box ⟨eventID, .event e⟩ with same | more
  · rw [same]
    exact Sent.refl [] box
  · rw [more]
    refine ⟨_, rfl, fun step => ?_, ?_⟩
    · simp [OutboxRecord.step]
    · intro record member c carries
      obtain rfl := mem_singleton.mp member
      cases carries

theorem sent_command (eventID : ID) {c : Command} (named : names c) :
    Sent names [c.step] box (enqueued box ⟨eventID, .command c⟩) := by
  rcases enqueued_cases box ⟨eventID, .command c⟩ with same | more
  · rw [same]
    exact Sent.refl _ box
  · rw [more]
    refine ⟨_, rfl, fun step => ?_, ?_⟩
    · by_cases same : c.step = step <;> simp [OutboxRecord.step, same]
    · intro record member other carries
      obtain rfl := mem_singleton.mp member
      cases carries
      exact named

end Sent

variable {orderID reservationID paymentID : ID}

variable {ord : Order} {rows : Rows}

theorem payload_names (named : ord.id = orderID) (step : Step) :
    (payload ord reservationID paymentID step).names orderID reservationID paymentID := by
  cases step <;> exact ⟨named, rfl⟩

theorem Order.names.withIDs (named : ord.names orderID reservationID paymentID) (r p : ID) :
    (ord.withIDs r p).names orderID reservationID paymentID := by
  obtain ⟨own, reserved, paid⟩ := named
  exact ⟨own, by simp [Order.withIDs, reserved], by simp [Order.withIDs, paid]⟩

variable (mint : Mint) (now : Time)

theorem foldl_emitted_sent (deadline : Duration) (named : ord.names orderID reservationID paymentID)
    (emit : List Step) {row : Order} (found : rows.order = some row)
    (keeps : row.names orderID reservationID paymentID) :
    (∃ row, (emit.foldl (emitted mint now ord deadline) rows).order = some row ∧
        row.names orderID reservationID paymentID) ∧
      Sent (Command.names orderID reservationID paymentID) emit rows.outbox
        (emit.foldl (emitted mint now ord deadline) rows).outbox := by
  induction emit generalizing rows row with
  | nil => exact ⟨⟨row, found, keeps⟩, Sent.refl [] _⟩
  | cons step emit ih =>
    have found' : (emitted mint now ord deadline rows step).order = some (row.withIDs
        (ord.reservationID.getD (mint.reservationID step))
        (ord.paymentID.getD (mint.paymentID step))) := by
      simp only [emitted, found, Option.map_some]
    obtain ⟨stays, sent⟩ := ih found' (keeps.withIDs _ _)
    refine ⟨stays, ?_⟩
    obtain ⟨own, reserved, paid⟩ := named
    have head : Sent (Command.names orderID reservationID paymentID) [step] rows.outbox
        (emitted mint now ord deadline rows step).outbox := by
      have names : (payload ord reservationID paymentID step).names orderID reservationID
          paymentID := payload_names own step
      have one := sent_command rows.outbox (mint.commandID step) names
      rw [payload_step] at one
      simpa only [emitted, commandRecord, reserved, paid, Option.getD_some] using one
    exact head.trans sent

theorem publicEvents_sent {names : Command → Prop} (ord : Order) (d : Decision) (r p : Option ID)
    (box : List OutboxRecord) :
    Sent names [] box (publicEvents mint ord d r p box) := by
  unfold publicEvents
  split
  · exact sent_event ..
  · exact sent_event ..
  · exact Sent.refl [] box

theorem Order.names.statusRow (named : ord.names orderID reservationID paymentID) (d : Decision)
    {r p : Option ID} (reserved : r = none ∨ r = some reservationID)
    (paid : p = none ∨ p = some paymentID) (reasonCode : String) :
    (statusRow ord d r p reasonCode).names orderID reservationID paymentID := by
  obtain ⟨own, reservation, payment⟩ := named
  unfold Orders.statusRow
  split
  · exact ⟨own, reservation, payment⟩
  · refine ⟨own, ?_, ?_⟩
    · rcases reserved with rfl | rfl <;>
        simp [Order.withStatus, statusFields, reservation]
    · rcases paid with rfl | rfl <;>
        simp [Order.withStatus, statusFields, payment]

/-- The order keeps its identifiers and commands for the emitted steps were sent. -/
structure Sending (orderID reservationID paymentID : ID) (emit : List Step) (before after : Rows) :
    Prop where
  names : ∃ row, after.order = some row ∧ row.names orderID reservationID paymentID
  sent : Sent (Command.names orderID reservationID paymentID) emit before.outbox after.outbox

theorem persisted_sending (trigger : Trigger) (d : Decision) (eventID : Option ID) {r p : Option ID}
    (reasonCode : String) (found : rows.order = some ord)
    (named : ord.names orderID reservationID paymentID)
    (reserved : r = none ∨ r = some reservationID) (paid : p = none ∨ p = some paymentID) :
    Sending orderID reservationID paymentID d.emit rows
      (persisted mint now ord trigger d eventID r p reasonCode rows) := by
  unfold persisted
  split
  case isTrue => exact ⟨⟨ord, found, named⟩, Sent.refl _ _⟩
  case isFalse =>
    have moved : ({ rows with
        order := some (statusRow ord d r p reasonCode)
        steps := ackSteps now trigger eventID rows.steps } : Rows).order =
      some (statusRow ord d r p reasonCode) := rfl
    obtain ⟨keeps, sent⟩ := foldl_emitted_sent mint now d.deadline named d.emit moved
      (named.statusRow d reserved paid reasonCode)
    have all := sent.trans (publicEvents_sent mint ord d r p _)
    rw [append_nil] at all
    exact ⟨keeps, all⟩

theorem withdrawn_sending (rows : Rows) (named : ord.names orderID reservationID paymentID) :
    Sending orderID reservationID paymentID
      (.release :: if (ctxOf rows.steps false).authorizeSent then [.void] else []) rows
      (withdrawn mint now ord rows) := by
  have moved : ({ rows with order := some (ord.withStatus .compensating
      { cancellationReason := some .customerCancelled }) } : Rows).order =
    some (ord.withStatus .compensating { cancellationReason := some .customerCancelled }) := rfl
  obtain ⟨keeps, sent⟩ := foldl_emitted_sent mint now timeoutCompensating named
    (.release :: if (ctxOf rows.steps false).authorizeSent then [.void] else []) moved
    ⟨named.1, by simp [Order.withStatus, named.2.1], by simp [Order.withStatus, named.2.2]⟩
  exact ⟨keeps, sent⟩

theorem placed_sending (rows : Rows) (unreserved : ord.reservationID = none)
    (unpaid : ord.paymentID = none) :
    Sending ord.id (mint.reservationID .reserve) (mint.paymentID .reserve) [.reserve] rows
      (placed mint now ord rows) := by
  constructor
  · refine ⟨_, rfl, rfl, ?_, ?_⟩
    · simp [Order.withIDs, unreserved]
    · simp [Order.withIDs, unpaid]
  · have names : (payload ord (mint.reservationID .reserve) (mint.paymentID .reserve)
        .reserve).names ord.id (mint.reservationID .reserve) (mint.paymentID .reserve) :=
      payload_names rfl .reserve
    have one := sent_command rows.outbox (mint.commandID .reserve) names
    have both := one.trans (sent_event _ mint.eventID (.created ord))
    simpa only [placed, emitted, commandRecord, unreserved, unpaid, Option.getD_none,
      payload_step, append_nil] using both

theorem timedOut_sending (found : rows.order = some ord)
    (named : ord.names orderID reservationID paymentID) :
    Sending orderID reservationID paymentID
      (onTimeout ord.status (ctxOf rows.steps false)).emit rows (timedOut mint now ord rows) :=
  persisted_sending mint now .timeout _ none "" found named (.inr named.2.1) (.inr named.2.2)

end Souq.Orders
