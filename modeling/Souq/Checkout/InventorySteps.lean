import Souq.Checkout.Links

/-!
# inventory-service follows the protocol

A handler that claims a command, carries it out, reports a failure or crashes, and
the stock levels that change under it, are runs of ordinary steps. An expiry is a
step of its own kind.
-/

namespace Souq.Checkout

open Saga Transact Transition List
open Orders (Envelope)

variable {orderID reservationID paymentID : ID} {w : World}

theorem Linked.reservation_eq (linked : Linked orderID reservationID paymentID w) :
    w.inventory.reservation reservationID = w.inventory.reservationOf orderID := by
  have named : ∀ row ∈ w.inventory.reservations, row.id = reservationID :=
    fun row member => (linked.reservations row member).1
  have owned : ∀ row ∈ w.inventory.reservations, row.orderID = orderID :=
    fun row member => (linked.reservations row member).2
  rw [Inventory.Database.reservation, Inventory.Database.reservationOf, Table.find_eq_head named,
    Table.find_eq_head owned]

/-- A transaction of inventory-service wrote the order's reservation and announced
it. -/
structure Stock (orderID reservationID paymentID : ID) (w : World) (inventory : Inventory.Database)
    (state : Inventory.ReservationState) (t : Trigger) : Prop where
  single : inventory.reservations.length ≤ 1
  reservations : ∀ row ∈ inventory.reservations, row.id = reservationID ∧ row.orderID = orderID
  reservation : (inventory.reservationOf orderID).map Inventory.Reservation.state = some state
  processed : inventory.processed = w.inventory.processed
  announced : inventory.announced.map fromInventory = w.inventory.announced.map fromInventory ∨
    ∃ e, About orderID reservationID paymentID e ∧ triggerFor e.type = some t ∧
      inventory.announced.map fromInventory = w.inventory.announced.map fromInventory ++ [e]

variable {row : Inventory.Reservation} {record : Orders.OutboxRecord} {task : Inventory.Task}
  {o r : ID}

theorem Linked.stock (linked : Linked orderID reservationID paymentID w)
    {inventory : Inventory.Database} {record : Inventory.OutboxRecord} {t : Trigger}
    (wrote : Inventory.Wrote w.inventory inventory row record) (named : row.id = reservationID)
    (owned : row.orderID = orderID)
    (about : About orderID reservationID paymentID (fromInventory record))
    (kind : triggerFor (fromInventory record).type = some t) :
    Stock orderID reservationID paymentID w inventory row.state t := by
  have same : ∀ other ∈ w.inventory.reservations, other.id = row.id :=
    fun other member => ((linked.reservations other member).1).trans named.symm
  have all : ∀ other ∈ inventory.reservations,
      other.id = reservationID ∧ other.orderID = orderID := by
    intro other member
    rw [wrote.reservations] at member
    rcases Table.mem_upsert member with new | old
    · rw [new]
      exact ⟨named, owned⟩
    · exact linked.reservations other old
  refine ⟨?_, all, ?_, wrote.processed, ?_⟩
  · rw [wrote.reservations]
    exact Table.length_upsert same linked.single
  · rw [Inventory.Database.reservationOf, Table.find_eq_head fun other member =>
      (all other member).2, wrote.reservations, Table.head_upsert same, Option.map_some]
  · rcases wrote.announced with stays | grows
    · exact .inl (by rw [stays])
    · exact .inr ⟨_, about, kind, by rw [grows, map_append]; rfl⟩

variable {inventory : Inventory.Database} {state : Inventory.ReservationState} {t : Trigger}
  {tasks : List Inventory.Task}

theorem Stock.linked (stock : Stock orderID reservationID paymentID w inventory state t)
    (linked : Linked orderID reservationID paymentID w) (placed : w.orders.order ≠ none)
    (asked : ∀ task ∈ tasks, Asked orderID reservationID (w.view orderID).sent task) :
    Linked orderID reservationID paymentID { w with inventory := inventory, tasks := tasks } := by
  refine ⟨linked.order, fun absent => (placed absent).elim, linked.commands, asked, linked.calls,
    stock.reservations, stock.single, linked.payments, ?_⟩
  intro e member
  rcases mem_append.mp member with stocked | paid
  · rcases stock.announced with same | ⟨new, about, -, more⟩
    · rw [same] at stocked
      exact linked.events e (mem_append_left _ stocked)
    · rw [more] at stocked
      rcases mem_append.mp stocked with old | recent
      · exact linked.events e (mem_append_left _ old)
      · rw [mem_singleton.mp recent]
        exact about
  · exact linked.events e (mem_append_right _ paid)

theorem Stock.announces (stock : Stock orderID reservationID paymentID w inventory state t)
    (tasks : List Inventory.Task) :
    Announces (w.view orderID) t
      (said ({ w with inventory := inventory, tasks := tasks } : World).announcements)
      (fresh ({ w with inventory := inventory, tasks := tasks } : World).announcements
        w.orders.processed) := by
  apply announces_of_grow (stock.announced.imp_right ?_) (fun x => said_append _ _ x)
    (fun x => fresh_append _ _ _ x) (fun x => said_append _ _ x) (fun x => fresh_append _ _ _ x)
  exact fun ⟨e, _, kind, grows⟩ => ⟨e, kind, grows⟩

theorem Stock.view (stock : Stock orderID reservationID paymentID w inventory state t)
    (tasks : List Inventory.Task) :
    ({ w with inventory := inventory, tasks := tasks } : World).view orderID =
      { w.view orderID with
        reserving := unclaimed w.orders.outbox w.inventory.processed .reserve +
          tasks.countP reserves
        failing := tasks.countP reports
        reservation := some state
        said := said ({ w with inventory := inventory, tasks := tasks } : World).announcements
        fresh := fresh ({ w with inventory := inventory, tasks := tasks } : World).announcements
          w.orders.processed } := by
  rw [← stock.reservation, ← stock.processed]
  rfl

variable (linked : Linked orderID reservationID paymentID w)
include linked

theorem Linked.asked {c : Orders.Command}
    {command : Inventory.Command} (member : record ∈ w.orders.outbox)
    (carried : commandOf record = some c) (accepted : toInventory c = some command) :
    Asked orderID reservationID (w.view orderID).sent (.apply command) := by
  have named := linked.commands record member c (commandOf_eq_some.mp carried)
  have sent := sent_of_mem orderID member carried
  cases c <;> cases accepted
  · exact named
  · exact ⟨named.1, named.2, sent⟩
  · exact ⟨named.1, named.2, sent⟩

omit linked in
theorem claimed_reserving {c : Orders.Command} {command : Inventory.Command}
    (member : record ∈ w.orders.outbox) (carried : commandOf record = some c)
    (accepted : toInventory c = some command) (new : record.eventID ∉ w.inventory.processed) :
    unclaimed w.orders.outbox (w.inventory.processed ++ [record.eventID]) .reserve +
        (Inventory.Task.apply command :: w.tasks).countP reserves ≤
      unclaimed w.orders.outbox w.inventory.processed .reserve + w.tasks.countP reserves := by
  have fewer := Inbox.waiting_processed_le Orders.OutboxRecord.eventID (carries .reserve)
    w.inventory.processed [record.eventID] w.orders.outbox
  have message := commandOf_eq_some.mp carried
  unfold unclaimed
  cases c <;> cases accepted
  · have reserves' : carries .reserve record = true := by
      simp [carries, Orders.OutboxRecord.step, message, Orders.Command.step]
    have used := Inbox.waiting_processed_lt member reserves' new
    rw [countP_cons_of_pos rfl]
    omega
  · rw [countP_cons_of_neg (by simp [reserves])]
    omega
  · rw [countP_cons_of_neg (by simp [reserves])]
    omega

theorem follows_receive (member : record ∈ w.orders.outbox) :
    Follows orderID w (w.receive record) := by
  unfold World.receive
  cases accepted : (commandOf record).bind toInventory with
  | none => exact Follows.stays linked
  | some command =>
    obtain ⟨c, carried, accepted⟩ := Option.bind_eq_some_iff.mp accepted
    by_cases handled : w.inventory.processed.contains record.eventID = true
    · simp only [Inventory.run_claimEvent, handled, Bool.not_true, ↓reduceIte]
      exact Follows.stays linked
    · simp only [Inventory.run_claimEvent, handled, Bool.not_false, Bool.false_eq_true, ↓reduceIte]
      have placed := linked.placed_of_command member
      refine ⟨⟨reservationID, paymentID, linked.order, fun absent => (placed absent).elim,
        linked.commands, ?_, linked.calls, linked.reservations, linked.single, linked.payments,
        linked.events⟩, ?_⟩
      · intro task claimed
        rcases mem_cons.mp claimed with new | old
        · rw [new]
          exact linked.asked member carried accepted
        · exact linked.tasks task old
      · have new : record.eventID ∉ w.inventory.processed := by simpa using handled
        have less := claimed_reserving member carried accepted new
        exact Ordinary.rule (Rule.lose less (Nat.le_of_eq (countP_cons_of_neg (by simp [reports])))
          (Nat.le_refl _) (Nat.le_refl _))

theorem follows_abandon (task : Inventory.Task) :
    Follows orderID w { w with tasks := w.tasks.erase task } := by
  have fewer : ∀ kind : Inventory.Task → Bool,
      (w.tasks.erase task).countP kind ≤ w.tasks.countP kind :=
    fun kind => List.Sublist.countP_le erase_sublist
  refine ⟨⟨reservationID, paymentID, linked.order, ?_, linked.commands, ?_, linked.calls,
    linked.reservations, linked.single, linked.payments, linked.events⟩, ?_⟩
  · intro absent
    obtain ⟨outbox, tasks, rest⟩ := linked.blank absent
    exact ⟨outbox, by simp [tasks], rest⟩
  · intro other member
    exact linked.tasks other (mem_of_mem_erase member)
  · exact Ordinary.rule (Rule.lose (Nat.add_le_add_left (fewer reserves) _) (fewer reports)
      (Nat.le_refl _) (Nat.le_refl _))

theorem Linked.withTasks (placed : w.orders.order ≠ none)
    (asked : ∀ task ∈ tasks, Asked orderID reservationID (w.view orderID).sent task) :
    Linked orderID reservationID paymentID { w with tasks := tasks } :=
  ⟨linked.order, fun absent => (placed absent).elim, linked.commands, asked, linked.calls,
    linked.reservations, linked.single, linked.payments, linked.events⟩

theorem Linked.placed_of_task (member : task ∈ w.tasks) : w.orders.order ≠ none := by
  intro absent
  rw [(linked.blank absent).2.1] at member
  cases member

theorem Linked.asked_erase (task : Inventory.Task) : ∀ other ∈ w.tasks.erase task,
    Asked orderID reservationID (w.view orderID).sent other :=
  fun other member => linked.tasks other (mem_of_mem_erase member)

theorem follows_reserve {items : List Inventory.ReservationLine} {ttlSeconds : Int}
    (member : .apply (.reserve o r items ttlSeconds) ∈ w.tasks) (mint : Inventory.Mint)
    (now : Time) :
    Follows orderID w (w.work (.apply (.reserve o r items ttlSeconds)) mint now) := by
  obtain ⟨rfl, rfl⟩ := linked.tasks _ member
  have placed := linked.placed_of_task member
  have used := Inbox.countP_erase member reserves
  have silent := Inbox.countP_erase member reports
  simp only [reserves, reports, ↓reduceIte, Bool.false_eq_true, Nat.add_zero] at used silent
  have fewer : unclaimed w.orders.outbox w.inventory.processed .reserve +
      (w.tasks.erase (.apply (.reserve o r items ttlSeconds))).countP reserves <
        (w.view o).reserving := by
    simp only [World.view, used]
    omega
  unfold World.work
  rcases Inventory.run_reserve_cases mint now o r items ttlSeconds w.inventory with
    ran | ⟨unavailable, ran⟩ | ⟨after, lines, expiresAt, ran, new, wrote⟩
  · rw [ran]
    exact follows_abandon linked _
  · rw [ran]
    refine ⟨⟨_, _, linked.withTasks placed ?_⟩, Ordinary.rule (Rule.fellShort fewer ?_)⟩
    · intro task member'
      rcases mem_cons.mp member' with first | rest
      · rw [first]
        exact ⟨rfl, rfl⟩
      · exact linked.asked_erase _ task rest
    · simp only [World.view, silent]
      exact Nat.le_of_eq (countP_cons_of_pos rfl)
  · rw [ran]
    have stock := linked.stock (t := .reserved) wrote rfl rfl ⟨_, rfl, rfl, .inr rfl, .inl rfl⟩ rfl
    have absent : (w.view o).reservation = none := by
      have unknown := linked.reservation_eq.symm.trans new
      simp only [World.view, World.reservation, unknown, Option.map_none]
    change Follows o w { w with
      inventory := after, tasks := w.tasks.erase (.apply (.reserve o r items ttlSeconds)) }
    refine ⟨⟨_, _, stock.linked linked placed (linked.asked_erase _)⟩, ?_⟩
    rw [stock.view, ← silent]
    exact Ordinary.rule (Rule.reserved fewer absent (stock.announces _))

omit linked in
/-- A handler that neither reserves nor reports leaves those that do. -/
theorem Stock.view_erase (stock : Stock orderID reservationID paymentID w inventory state t)
    (member : task ∈ w.tasks) (quiet : reserves task = false) (silent : reports task = false) :
    ({ w with inventory := inventory, tasks := w.tasks.erase task } : World).view orderID =
      { w.view orderID with
        reservation := some state
        said := said ({ w with
          inventory := inventory, tasks := w.tasks.erase task } : World).announcements
        fresh := fresh ({ w with
          inventory := inventory, tasks := w.tasks.erase task } : World).announcements
          w.orders.processed } := by
  have reserving := Inbox.countP_erase member reserves
  have failing := Inbox.countP_erase member reports
  simp only [quiet, silent, Bool.false_eq_true, ↓reduceIte, Nat.add_zero] at reserving failing
  rw [stock.view, ← reserving, ← failing]
  rfl

theorem Linked.reservation_view : (w.view orderID).reservation =
      (w.inventory.reservation reservationID).map Inventory.Reservation.state := by
  rw [linked.reservation_eq]
  rfl

theorem Linked.found_reservation (found : w.inventory.reservation reservationID = some row) :
    row.id = reservationID ∧ row.orderID = orderID :=
  linked.reservations row (Table.mem_of_find found)

theorem Linked.released
    (released : Inventory.Released reservationID orderID (w.inventory.reservation reservationID)
      row) :
    row.id = reservationID ∧ row.orderID = orderID ∧
      (w.view orderID).reservation ≠ some .committed ∧
      row.state = releasedFrom (w.view orderID).reservation := by
  rw [linked.reservation_view]
  cases found : w.inventory.reservation reservationID with
  | none =>
    rw [found] at released
    cases released with
    | tombstone named owned state => exact ⟨named, owned, nofun, state⟩
  | some old =>
    obtain ⟨named, owned⟩ := linked.found_reservation found
    rw [found] at released
    cases released with
    | open' reasonCode held =>
      refine ⟨named, owned, ?_, ?_⟩ <;>
        simp [held, releasedFrom, Inventory.Reservation.close]
    | again settled =>
      refine ⟨named, owned, ?_⟩
      rcases settled with held | held <;> simp [held, releasedFrom]

theorem follows_release {reasonCode : String}
    (member : .apply (.release o r reasonCode) ∈ w.tasks) (mint : Inventory.Mint) (now : Time) :
    Follows orderID w (w.work (.apply (.release o r reasonCode)) mint now) := by
  obtain ⟨rfl, rfl, asked⟩ := linked.tasks _ member
  have placed := linked.placed_of_task member
  change Follows o w { w with
    inventory := (Inventory.release mint r o
      (if reasonCode = "" then "SAGA_COMPENSATION" else reasonCode)).inTx w.inventory
    tasks := w.tasks.erase (.apply (.release o r reasonCode)) }
  rcases Inventory.release_inTx_cases mint r o
    (if reasonCode = "" then "SAGA_COMPENSATION" else reasonCode) w.inventory with
    stays | ⟨row, wasTombstone, released, wrote⟩
  · rw [stays]
    exact follows_abandon linked _
  · obtain ⟨named, owned, live, state⟩ := linked.released released
    have stock := linked.stock (t := .released) wrote named owned
      ⟨_, rfl, rfl, .inr rfl, .inl rfl⟩ rfl
    refine ⟨⟨_, _, stock.linked linked placed (linked.asked_erase _)⟩, ?_⟩
    rw [stock.view_erase member rfl rfl, state]
    exact Ordinary.rule (Rule.released asked live (stock.announces _))

theorem follows_commit
    (member : .apply (.commit o r) ∈ w.tasks) (mint : Inventory.Mint) (now : Time) :
    Follows orderID w (w.work (.apply (.commit o r)) mint now) := by
  obtain ⟨rfl, rfl, asked⟩ := linked.tasks _ member
  have placed := linked.placed_of_task member
  change Follows o w { w with
    inventory := (Inventory.commit mint r o).inTx w.inventory
    tasks := w.tasks.erase (.apply (.commit o r)) }
  rcases Inventory.commit_inTx_cases mint r o w.inventory with
    stays | ⟨old, row, found, committed, wrote⟩
  · rw [stays]
    exact follows_abandon linked _
  · obtain ⟨named, owned⟩ := linked.found_reservation found
    have outcome : row.id = r ∧ row.orderID = o ∧ row.state = .committed ∧
        ((w.view o).reservation = some .reserved ∨ (w.view o).reservation = some .committed) := by
      rw [linked.reservation_view, found, Option.map_some]
      cases committed with
      | open' held => exact ⟨named, owned, rfl, .inl (congrArg some held)⟩
      | again settled => exact ⟨named, owned, settled, .inr (congrArg some settled)⟩
    obtain ⟨named', owned', state, held⟩ := outcome
    have stock := linked.stock (t := .committed) wrote named' owned'
      ⟨_, rfl, rfl, .inr rfl, .inl rfl⟩ rfl
    refine ⟨⟨_, _, stock.linked linked placed (linked.asked_erase _)⟩, ?_⟩
    rw [stock.view_erase member rfl rfl, state]
    exact Ordinary.rule (Rule.committed asked held (stock.announces _))

theorem follows_publishFailure {unavailable : List Inventory.UnavailableSKU}
    (member : .publishFailure r o unavailable ∈ w.tasks) (mint : Inventory.Mint) (now : Time) :
    Follows orderID w (w.work (.publishFailure r o unavailable) mint now) := by
  obtain ⟨rfl, rfl⟩ := linked.tasks _ member
  have placed := linked.placed_of_task member
  change Follows o w { w with
    inventory := (Inventory.publishFailure mint r o unavailable).inTx w.inventory
    tasks := w.tasks.erase (.publishFailure r o unavailable) }
  rcases Inventory.publishFailure_inTx_cases mint r o unavailable w.inventory with
    stays | ⟨row, written, wrote⟩
  · rw [stays]
    exact follows_abandon linked _
  · have outcome : row.id = r ∧ row.orderID = o ∧
        row.state = (w.view o).reservation.getD .failed := by
      rw [linked.reservation_view]
      rcases written with found | ⟨absent, rfl⟩
      · obtain ⟨named, owned⟩ := linked.found_reservation found
        exact ⟨named, owned, by rw [found]; rfl⟩
      · exact ⟨rfl, rfl, by rw [absent]; rfl⟩
    obtain ⟨named, owned, state⟩ := outcome
    have stock := linked.stock (t := .reserveFailed) wrote named owned
      ⟨_, rfl, rfl, .inr rfl, .inl rfl⟩ rfl
    have reserving := Inbox.countP_erase member reserves
    have failing := Inbox.countP_erase member reports
    simp only [reserves, reports, ↓reduceIte, Bool.false_eq_true, Nat.add_zero] at reserving failing
    have fewer : (w.tasks.erase (.publishFailure r o unavailable)).countP reports <
        (w.view o).failing := by
      simp only [World.view, failing]
      omega
    refine ⟨⟨_, _, stock.linked linked placed (linked.asked_erase _)⟩, ?_⟩
    rw [stock.view, ← reserving, state]
    exact Ordinary.rule (Rule.reported fewer (stock.announces _))

theorem follows_work (member : task ∈ w.tasks) (mint : Inventory.Mint) (now : Time) :
    Follows orderID w (w.work task mint now) := by
  rcases task with (_ | _ | _) | _
  · exact follows_reserve linked member mint now
  · exact follows_release linked member mint now
  · exact follows_commit linked member mint now
  · exact follows_publishFailure linked member mint now

theorem follows_restock (stock : ID → Option Inventory.StockLevel) :
    Follows orderID w { w with inventory := { w.inventory with stock := stock } } :=
  ⟨⟨_, _, linked.order, linked.blank, linked.commands, linked.tasks, linked.calls,
    linked.reservations, linked.single, linked.payments, linked.events⟩, Ordinary.refl _⟩

omit linked in
def ClaimsExpired (orderID : ID) (w : World) (batch : Nat) (now : Time) : Prop :=
  ∃ row ∈ (w.inventory.expired now).take batch, row.orderID = orderID

omit linked in
instance (orderID : ID) (w : World) (batch : Nat) (now : Time) :
    Decidable (ClaimsExpired orderID w batch now) :=
  inferInstanceAs (Decidable (∃ row ∈ (w.inventory.expired now).take batch, row.orderID = orderID))

theorem sweepExpired_cases (mint : Inventory.Mint) (batch : Nat) (now : Time) :
    Follows orderID w
        { w with inventory := (Inventory.sweepExpired mint batch now).inTx w.inventory } ∨
      ClaimsExpired orderID w batch now ∧
      (∃ r p, Linked orderID r p
        { w with inventory := (Inventory.sweepExpired mint batch now).inTx w.inventory }) ∧
      Rule (w.view orderID) .expiry
        (({ w with inventory := (Inventory.sweepExpired mint batch now).inTx w.inventory } :
          World).view orderID) := by
  rcases Inventory.sweepExpired_inTx_cases mint batch now linked.single with
    stays | ⟨row, only, held, claimed, wrote⟩
  · left
    rw [stays]
    exact Follows.stays linked
  · right
    obtain ⟨named, owned⟩ := linked.reservations row (by rw [only]; exact mem_singleton_self _)
    have placed : w.orders.order ≠ none := by
      intro absent
      obtain ⟨-, -, -, empty, -⟩ := linked.blank absent
      cases only.symm.trans empty
    have held' : (w.view orderID).reservation = some .reserved := by
      simp [World.view, World.reservation, Inventory.Database.reservationOf, Table.find,
        only, owned,
        held]
    have stock := linked.stock (t := .released) wrote named owned
      ⟨_, rfl, congrArg some owned, .inr (congrArg some named), .inl rfl⟩ rfl
    refine ⟨⟨row, by rw [claimed]; exact mem_singleton_self _, owned⟩,
      ⟨_, _, stock.linked linked placed linked.tasks⟩, ?_⟩
    rw [stock.view w.tasks]
    exact Rule.expired held' (stock.announces w.tasks)

end Souq.Checkout
