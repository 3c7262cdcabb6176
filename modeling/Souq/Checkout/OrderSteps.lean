import Souq.Checkout.Links
import Souq.Orders.Timers

/-!
# order-service follows the protocol

Placing an order, handling an event, a tick of the sweeper and a cancellation are
runs of ordinary steps of the protocol.
-/

namespace Souq.Checkout

open Saga Transact Transition
open Orders (Envelope)

variable {orderID reservationID paymentID : ID} {w : World}

theorem simulate_decided {rows : Orders.Rows} {ord : Orders.Order} {t : Trigger} {retriable : Bool}
    {d : Decision} (found : w.orders.order = some ord)
    (board : rows.board = w.orders.board.after t d)
    (decides : Decides ord.status t (w.orders.board.ctx retriable) d)
    (sending : Orders.Sending orderID reservationID paymentID d.emit w.orders rows)
    (hears : Hears (w.view orderID) t (fresh w.announcements rows.processed)) :
    Ordinary (w.view orderID) (({ w with orders := rows } : World).view orderID) := by
  have status : rows.status = some d.next := congrArg Orders.Board.status board
  have current : (w.view orderID).status = some ord.status := by
    simp only [World.view, World.status, Orders.Rows.status, found, Option.map_some]
  have shape : ({ w with orders := rows } : World).view orderID =
      { w.view orderID with
        status := some d.next
        authorizeSent := (rows.board.ctx false).authorizeSent
        inventorySettled := (rows.board.ctx false).inventorySettled
        paymentSettled := (rows.board.ctx false).paymentSettled
        sent := (({ w with orders := rows } : World).view orderID).sent
        fresh := fresh w.announcements rows.processed
        reserving := (({ w with orders := rows } : World).view orderID).reserving
        authorizing := (({ w with orders := rows } : World).view orderID).authorizing } := by
    rw [← status]
    rfl
  rw [shape]
  apply Ordinary.rule
  refine .decide current decides hears (sends_of_sending sending) ?_ ?_ ?_
  · intro absent
    rw [board] at absent
    exact Orders.Board.after_authorizeSent absent
  · intro settled
    rw [board] at settled
    simp only [Orders.Board.ctx, beq_iff_eq] at settled
    rcases Orders.Board.after_acked settled with was | closes
    · exact .inl (beq_iff_eq.mpr was)
    · exact .inr (Orders.Board.stepAckedBy_eq_release closes)
  · intro settled
    rw [board] at settled
    simp only [Orders.Board.ctx, beq_iff_eq] at settled
    rcases Orders.Board.after_acked settled with was | closes
    · exact .inl (beq_iff_eq.mpr was)
    · exact .inr (Orders.Board.stepAckedBy_eq_void closes)

variable (linked : Linked orderID reservationID paymentID w)
include linked

/-- Nothing about an order exists before it is placed, so it can draw any
identifiers. -/
theorem Linked.draw (new : w.orders.order = none) (r p : ID) : Linked orderID r p w := by
  obtain ⟨outbox, tasks, calls, reservations, payments, events⟩ := linked.blank new
  refine ⟨?_, linked.blank, ?_, ?_, ?_, ?_, linked.single, ?_, ?_⟩
  · intro ord found
    cases new.symm.trans found
  · rw [outbox]
    exact fun record member => nomatch member
  · rw [tasks]
    exact fun task member => nomatch member
  · rw [calls]
    exact fun call member => nomatch member
  · rw [reservations]
    exact fun row member => nomatch member
  · rw [payments]
    exact fun row member => nomatch member
  · rw [events]
    exact fun e member => nomatch member

theorem follows_place
    (input : Orders.PlaceOrderInput) (total : Money) (mint : Orders.Mint) (now : Time) :
    Follows orderID w
      (w.order (Orders.placeOrder mint now (Orders.newOrder orderID input total))) := by
  rcases Orders.placeOrder_inTx_cases mint now (Orders.newOrder orderID input total) w.orders with
    stays | ⟨new, places⟩
  · rw [World.order, stays]
    exact Follows.stays linked
  · rw [World.order, places]
    have sending : Orders.Sending orderID (mint.reservationID .reserve) (mint.paymentID .reserve)
        [.reserve] w.orders
          (Orders.placed mint now (Orders.newOrder orderID input total) w.orders) :=
      @Orders.placed_sending (Orders.newOrder orderID input total) mint now w.orders rfl rfl
    have board := Orders.placed_board mint now w.orders
      (show (Orders.newOrder orderID input total).status = .pending from rfl)
    refine ⟨⟨_, _, (linked.draw new _ _).order' sending⟩, ?_⟩
    have blank : (w.view orderID).status = none := by
      simp only [World.view, World.status, Orders.Rows.status, new, Option.map_none]
    have rule := Rule.place blank (sends_of_sending sending)
    have context : (w.orders.board.place).ctx false = w.orders.board.ctx false := by
      simp [Orders.Board.place, Orders.Board.send, Orders.Board.ctx]
    apply Ordinary.rule
    convert rule using 1
    simp only [World.view, board, context]
    rfl

theorem follows_handle {e : Envelope} (sent : e ∈ w.events) (mint : Orders.Mint) (now : Time) :
    Follows orderID w (w.order (Orders.handle mint now e)) := by
  rcases Orders.handle_inTx_cases mint now e w.orders with
    stays | ⟨t, body, ord, d, reacts, handles⟩
  · rw [World.order, stays]
    exact Follows.stays linked
  · rw [World.order, handles]
    have member := World.mem_announcements sent reacts.modelled
    obtain ⟨body', parsed, -, reserved, paid⟩ := linked.events e member
    obtain rfl := Option.some.inj (parsed.symm.trans reacts.parsed)
    have sending : Orders.Sending orderID reservationID paymentID d.emit w.orders
        (Orders.reacted mint now e t body' ord d w.orders) := by
      obtain ⟨names, commands⟩ := Orders.persisted_sending mint now t d (some e.id) body'.reasonCode
        (show ({ w.orders with processed := w.orders.processed ++ [e.id] } : Orders.Rows).order =
          some ord from reacts.found) (linked.order ord reacts.found) reserved paid
      exact ⟨names, commands⟩
    refine ⟨⟨_, _, linked.order' sending⟩, ?_⟩
    apply simulate_decided reacts.found (Orders.reacted_board reacts mint now) reacts.decides
      sending
    rw [Orders.reacted, Orders.persisted_processed]
    exact hears_of_processed member reacts.modelled reacts.fresh rfl

theorem follows_swept (mint : Orders.Mint) (now : Time) (ov : Orders.OverdueOrder) :
    Follows orderID w { w with orders := Orders.swept mint now w.orders ov } := by
  rcases Orders.swept_cases mint now w.orders ov with escalated | stays | ⟨ord, found, fires⟩
  · rw [escalated]
    have same : ({ w with
        orders := Orders.postponed ov.step (now + 300 * second) w.orders } : World).view orderID =
        w.view orderID := by
      simp only [World.view, Orders.postponed_ctx]
      rfl
    refine ⟨⟨reservationID, paymentID, ?_⟩, same ▸ Ordinary.refl _⟩
    exact ⟨linked.order, linked.blank, linked.commands, linked.tasks, linked.calls,
      linked.reservations, linked.single, linked.payments, linked.events⟩
  · rw [stays]
    exact Follows.stays linked
  · rw [fires]
    have sending := Orders.timedOut_sending mint now found (linked.order ord found)
    have decides := next_eq_ok.mp (Orders.next_timeout ord.status (w.orders.board.ctx false))
    refine ⟨⟨_, _, linked.order' sending⟩, ?_⟩
    rw [Orders.onTimeout_ctxOf] at sending
    apply simulate_decided found ?_ decides sending
    · rw [Orders.timedOut, Orders.persisted_processed]
      exact hears_timeout _
    · rw [Orders.timedOut, Orders.persisted_board _ _ _ _ _ _ _ _ found, Orders.onTimeout_ctxOf]

theorem follows_tick (limit : Nat) (mint : Step → Orders.Mint) (now : Time) :
    Follows orderID w (w.order (Orders.tick limit mint now)) := by
  have fired : ∀ (claimed : List Orders.OverdueOrder) {w : World} {r p : ID},
      Linked orderID r p w → Follows orderID w { w with
        orders := claimed.foldl (fun rows ov => Orders.swept (mint ov.step) now rows ov)
          w.orders } := by
    intro claimed
    induction claimed with
    | nil => exact fun linked => Follows.stays linked
    | cons ov claimed ih =>
      intro w r p linked
      obtain ⟨⟨r', p', linked'⟩, first⟩ := follows_swept linked (mint ov.step) now ov
      obtain ⟨linked'', rest⟩ := ih linked'
      exact ⟨linked'', first.trans rest⟩
  rw [World.order, Program.inTx_of_ok (Orders.run_tick limit mint now w.orders)]
  exact fired _ linked

theorem follows_cancel (userID : ID) (mint : Orders.Mint) (now : Time) :
    Follows orderID w (w.order (Orders.cancelOrder mint now userID)) := by
  rcases Orders.cancelOrder_inTx_cases mint now userID w.orders with
    stays | ⟨ord, found, -, open', cancels⟩
  · rw [World.order, stays]
    exact Follows.stays linked
  · rw [World.order, cancels]
    have sending := Orders.withdrawn_sending mint now w.orders (linked.order ord found)
    have board := Orders.withdrawn_board mint now ord w.orders
    refine ⟨⟨_, _, linked.order' sending⟩, ?_⟩
    have current : (w.view orderID).status = some ord.status := by
      simp only [World.view, World.status, Orders.Rows.status, found, Option.map_some]
    have early : ord.status = .pending ∨ ord.status = .stockReserved := by
      simpa only [Orders.Order.cancellable, Bool.or_eq_true, beq_iff_eq] using open'
    have emits : ∀ step ∈ (Step.release ::
        if (Orders.ctxOf w.orders.steps false).authorizeSent then [.void] else []),
        step = .release ∨ step = .void := by
      intro step member
      rcases List.mem_cons.mp member with first | second
      · exact .inl first
      · split at second
        · exact .inr (List.mem_singleton.mp second)
        · cases second
    have charged : (w.orders.board.cancel.ctx false).authorizeSent =
        (w.orders.board.ctx false).authorizeSent := by
      simp [Orders.Board.cancel, Orders.Board.send, Orders.Board.ctx]
    have released : (w.orders.board.cancel.ctx false).inventorySettled = true →
        (w.view orderID).inventorySettled = true := by
      intro settled
      exact beq_iff_eq.mpr (Orders.Board.send_settled (beq_iff_eq.mp settled))
    have voided : (w.orders.board.cancel.ctx false).paymentSettled = true →
        (w.view orderID).paymentSettled = true := by
      intro settled
      exact beq_iff_eq.mpr (Orders.Board.send_settled (beq_iff_eq.mp settled))
    have rule := Rule.cancel current early emits (sends_of_sending sending) released voided
    apply Ordinary.rule
    convert rule using 1
    simp only [World.view, board, charged]
    congr 1
    · exact congrArg Orders.Board.status board
    · rw [Orders.withdrawn, Orders.foldl_emitted_processed]
      rfl

end Souq.Checkout
