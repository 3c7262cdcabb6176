import Souq.Checkout.Protocol

/-!
# Invariants of the checkout protocol

Which commands can have been sent in each state of the order, and what the
announcements say about the reservation and the payment.
-/

namespace Souq.Checkout

open Saga Transition List Nat Option
open Inventory (ReservationState)

/-- The events inventory-service announces. -/
def ofStock : Trigger → Bool
  | .reserved | .reserveFailed | .released | .committed => true
  | _ => false

section Announces

variable {v : View} {t : Trigger} {said fresh : Trigger → Nat}

variable {x : Trigger}

theorem Announces.said_of_ne (announces : Announces v t said fresh) (different : x ≠ t) :
    said x = v.said x := (announces.others x different).1

theorem Announces.fresh_of_ne (announces : Announces v t said fresh) (different : x ≠ t) :
    fresh x ≤ v.fresh x := ((announces.others x different).2).le

theorem Announces.before (announces : Announces v t said fresh) (different : x ≠ t)
    (announced : 0 < said x) : 0 < v.said x :=
  announces.said_of_ne different ▸ announced

theorem Announces.kept_apart {side : Bool} (announces : Announces v t said fresh)
    (here : ofStock t = side) (there : ofStock x = !side) : said x = v.said x := by
  apply announces.said_of_ne
  rintro rfl
  cases side <;> cases here.symm.trans there

theorem Announces.fresh_le (announces : Announces v t said fresh)
    (before : ∀ t, v.fresh t ≤ v.said t) (other : Trigger) : fresh other ≤ said other := by
  have old := before other
  by_cases same : other = t
  · subst same
    have kept := announces.kept
    have more := announces.fresh
    omega
  · obtain ⟨said', fresh'⟩ := announces.others other same
    omega

theorem Announces.said_le (announces : Announces v t said fresh) (other : Trigger) :
    v.said other ≤ said other := by
  by_cases same : other = t
  · subst same
    exact announces.kept
  · exact (announces.said_of_ne same).ge

end Announces

variable {state : Payments.State} {after : View} {reserving authorizing : Nat} {kind : Kind}

theorem ofMoney_of_reply {t : Trigger} (reply : replyFor state = some t) :
    ofStock t = false := by
  rcases replyFor_cases reply with rfl | rfl | rfl | rfl <;> rfl

theorem releasedFrom_cases (state : Option ReservationState) :
    releasedFrom state = .released ∨ releasedFrom state = .failed := by
  rcases state with _ | _ | _ | _ | _ <;> simp [releasedFrom]

/-- The commands sent are those of the side the order is on. -/
structure Sided (v : View) : Prop where
  commit : v.sent .commit = true →
    v.status = some .paid ∨ v.status = some .stockCommitted ∨ v.status = some .confirmed
  capture : v.sent .capture = true → v.status = some .stockCommitted ∨ v.status = some .confirmed
  rollBack : v.sent .release = true ∨ v.sent .void = true →
    v.status = some .compensating ∨ v.status = some .cancelled

theorem Sided.decide {v : View} (sided : Sided v) {origin : State} {t : Trigger} {c : Ctx}
    {d : Decision} (current : v.status = some origin) (decided : Decides origin t c d)
    (sends : Sends v d.emit after.sent reserving authorizing) (moves : after.status = some d.next) :
    Sided after := by
  have course := decided.course
  have onward := decided.onward
  obtain ⟨commit, capture, rollBack⟩ := sided
  rw [current] at commit capture rollBack
  simp only [some.injEq] at commit capture rollBack
  constructor <;> rw [moves] <;> simp only [some.injEq]
  · intro sent
    rcases sends.new _ sent with before | now
    · exact onward.paid (commit before)
    · exact .inl (course.commit now)
  · intro sent
    rcases sends.new _ sent with before | now
    · exact onward.stockCommitted (capture before)
    · exact .inl (course.capture now)
  · rintro (sent | sent)
    · rcases sends.new _ sent with before | now
      · exact onward.rolledBack (rollBack (.inl before))
      · exact .inl (course.rollBack (.inl now))
    · rcases sends.new _ sent with before | now
      · exact onward.rolledBack (rollBack (.inr before))
      · exact .inl (course.rollBack (.inr now))

theorem Sided.send {v : View} {emit : List Step} (sided : Sided v)
    (early : v.status = none ∨ v.status = some .pending ∨ v.status = some .stockReserved)
    (sends : Sends v emit after.sent reserving authorizing) (commit : .commit ∉ emit)
    (capture : .capture ∉ emit)
    (rollBack : .release ∈ emit ∨ .void ∈ emit → after.status = some .compensating) :
    Sided after := by
  obtain ⟨commits, captures, rollsBack⟩ := sided
  have uncommitted : v.sent .commit ≠ true := by
    intro sent
    rcases early with h | h | h <;> rw [h] at commits <;> simpa using commits sent
  have uncaptured : v.sent .capture ≠ true := by
    intro sent
    rcases early with h | h | h <;> rw [h] at captures <;> simpa using captures sent
  have unreleased : ¬ (v.sent .release = true ∨ v.sent .void = true) := by
    intro sent
    rcases early with h | h | h <;> rw [h] at rollsBack <;> simpa using rollsBack sent
  constructor
  · intro sent
    rcases sends.new _ sent with before | now
    · exact (uncommitted before).elim
    · exact (commit now).elim
  · intro sent
    rcases sends.new _ sent with before | now
    · exact (uncaptured before).elim
    · exact (capture now).elim
  · rintro (sent | sent)
    · rcases sends.new _ sent with before | now
      · exact (unreleased (.inl before)).elim
      · exact .inl (rollBack (.inl now))
    · rcases sends.new _ sent with before | now
      · exact (unreleased (.inr before)).elim
      · exact .inl (rollBack (.inr now))

theorem Sided.step {v : View} (sided : Sided v) (rule : Rule v kind after) :
    Sided after := by
  cases rule with
  | place new sends => exact sided.send (.inl new) sends (by simp) (by simp) (by simp)
  | decide current decided hears sends => exact sided.decide current decided sends rfl
  | @cancel _ emit _ _ _ _ _ current early emits sends =>
    have only : ∀ step, step ≠ .release → step ≠ .void → step ∉ emit :=
      fun step first second member => (emits step member).elim first second
    refine sided.send (.inr ?_) sends (only _ (by decide) (by decide))
      (only _ (by decide) (by decide)) fun _ => rfl
    rcases early with rfl | rfl
    · exact .inl current
    · exact .inr current
  | _ => exact ⟨sided.commit, sided.capture, sided.rollBack⟩

/-- What can be under way and announced of the reservation. -/
structure Stocked (v : View) : Prop where
  unplaced : v.status = none → v.reserving = 0 ∧ v.failing = 0 ∧ v.reservation = none ∧
    v.said .reserved = 0 ∧ v.said .reserveFailed = 0
  once : v.said .reserved + v.said .reserveFailed + v.reserving + v.failing ≤ 1
  held : v.reservation = some .reserved ∨ v.reservation = some .committed →
    v.reserving = 0 ∧ v.failing = 0
  committed : v.reservation = some .committed → v.sent .commit = true
  saidCommitted : 0 < v.said .committed → v.reservation = some .committed
  saidReleased : 0 < v.said .released →
    v.reservation = some .released ∨ v.reservation = some .failed
  saidFailed : 0 < v.said .reserveFailed →
    v.reservation = some .released ∨ v.reservation = some .failed

/-- What can be under way and announced of the payment. -/
structure Charged (v : View) : Prop where
  early : v.status = none ∨ v.status = some .pending → v.authorizing = 0 ∧ v.charging = 0 ∧
    v.payment = none ∧ v.said .authorized = 0 ∧ v.said .authFailed = 0
  once : v.said .authorized + v.said .authFailed + v.authorizing + v.charging ≤ 1
  unsent : v.authorizeSent = false → v.authorizing = 0 ∧ v.charging = 0 ∧
    v.said .authorized = 0 ∧ v.said .authFailed = 0 ∧
    (v.payment = none ∨ v.payment = some .voided)
  waiting : 0 < v.authorizing → v.payment = none ∨ v.payment = some .voided
  charging : 0 < v.charging → v.payment = some .authorizing ∨ v.payment = some .voided
  captured : v.payment = some .capturing ∨ v.payment = some .captured → v.sent .capture = true
  voided : v.payment = some .voided ∨ 0 < v.said .voided → v.sent .void = true
  saidCaptured : 0 < v.said .captured → v.payment = some .captured
  saidFailed : 0 < v.said .authFailed → v.payment = some .failed ∨ v.payment = some .voided

/-- The status comes from events that were heard. -/
structure Heard (v : View) : Prop where
  fresh : ∀ t, v.fresh t ≤ v.said t
  reserved : v.status = some .stockReserved ∨ v.status = some .paid ∨
    v.status = some .stockCommitted ∨ v.status = some .confirmed →
    0 < v.said .reserved ∧ v.fresh .reserved = 0
  authorized : v.status = some .paid ∨ v.status = some .stockCommitted ∨
    v.status = some .confirmed → 0 < v.said .authorized ∧ v.fresh .authorized = 0
  committed : v.status = some .stockCommitted ∨ v.status = some .confirmed → 0 < v.said .committed
  captured : v.status = some .confirmed → 0 < v.said .captured
  released : v.inventorySettled = true → 0 < v.said .released
  voided : v.paymentSettled = true → 0 < v.said .voided
  cancelled : v.status = some .cancelled → (0 < v.said .released ∨ 0 < v.said .reserveFailed) ∧
    (0 < v.said .voided ∨ 0 < v.said .authFailed ∨
      v.authorizing = 0 ∧ v.charging = 0 ∧ (v.payment = none ∨ v.payment = some .voided))

/-- The invariant of a checkout. -/
structure Consistent (v : View) : Prop where
  sided : Sided v
  stocked : Stocked v
  charged : Charged v
  heard : Heard v

theorem Stocked.weaken {v : View} (stocked : Stocked v)
    (status : after.status = none → v.status = none) (reserving : after.reserving ≤ v.reserving)
    (failing : after.failing ≤ v.failing) (reservation : after.reservation = v.reservation)
    (sent : v.sent .commit = true → after.sent .commit = true)
    (said : ∀ x, ofStock x = true → after.said x = v.said x) : Stocked after := by
  obtain ⟨unplaced, once, held, committed, saidCommitted, saidReleased, saidFailed⟩ := stocked
  have reserved := said .reserved rfl
  have reserveFailed := said .reserveFailed rfl
  refine ⟨fun absent => ?_, by omega, fun live => ?_, fun settled => ?_, ?_, ?_, ?_⟩
  · obtain ⟨none', none'', new, quiet, quiet'⟩ := unplaced (status absent)
    exact ⟨by omega, by omega, reservation.trans new, by omega, by omega⟩
  · rw [reservation] at live
    obtain ⟨none', none''⟩ := held live
    omega
  · rw [reservation] at settled
    exact sent (committed settled)
  · rw [reservation, said .committed rfl]
    exact saidCommitted
  · rw [reservation, said .released rfl]
    exact saidReleased
  · rw [reservation, reserveFailed]
    exact saidFailed

theorem Stocked.place {v : View} {sent : Step → Bool} (stocked : Stocked v) (new : v.status = none)
    (sends : Sends v [.reserve] sent reserving authorizing) :
    Stocked { v with
      status := some .pending, sent := sent, reserving := reserving, authorizing :=
        authorizing } := by
  obtain ⟨none', none'', absent, quiet, quiet'⟩ := stocked.unplaced new
  have one : reserving ≤ v.reserving + 1 := sends.reserving
  refine ⟨fun absent => ?_, ?_, fun live => ?_, fun settled => ?_, stocked.saidCommitted,
    stocked.saidReleased, stocked.saidFailed⟩
  · cases absent
  · simp only
    omega
  · rcases live with held | held <;> cases absent.symm.trans held
  · cases absent.symm.trans settled

theorem Stocked.reserved {v : View} {said fresh : Trigger → Nat} (stocked : Stocked v)
    (used : reserving < v.reserving) (new : v.reservation = none)
    (announces : Announces v .reserved said fresh) :
    Stocked { v with
      reserving := reserving, reservation := some .reserved, said := said, fresh := fresh } := by
  obtain ⟨unplaced, once, -, -, saidCommitted, saidReleased, saidFailed⟩ := stocked
  have failed := announces.said_of_ne (x := .reserveFailed) (by decide)
  have one := announces.once
  refine ⟨fun absent => ?_, ?_, fun _ => ?_, fun settled => ?_, fun announced => ?_,
    fun announced => ?_, fun announced => ?_⟩
  · obtain ⟨none', -⟩ := unplaced absent
    omega
  · simp only
    omega
  · simp only
    omega
  · cases settled
  · cases new.symm.trans (saidCommitted (announces.before (by decide) announced))
  · rcases saidReleased (announces.before (by decide) announced) with held | held <;>
      cases new.symm.trans held
  · rcases saidFailed (announces.before (by decide) announced) with held | held <;>
      cases new.symm.trans held

theorem Stocked.fellShort {v : View} {failing : Nat} (stocked : Stocked v)
    (used : reserving < v.reserving) (more : failing ≤ v.failing + 1) :
    Stocked { v with reserving := reserving, failing := failing } := by
  obtain ⟨unplaced, once, held, committed, saidCommitted, saidReleased, saidFailed⟩ := stocked
  refine ⟨fun absent => ?_, ?_, fun live => ?_, committed, saidCommitted, saidReleased, saidFailed⟩
  · obtain ⟨none', -⟩ := unplaced absent
    omega
  · simp only
    omega
  · obtain ⟨none', -⟩ := held live
    omega

theorem Stocked.reported {v : View} {failing : Nat} {said fresh : Trigger → Nat}
    (stocked : Stocked v) (used : failing < v.failing)
    (announces : Announces v .reserveFailed said fresh) :
    Stocked { v with
      failing := failing, reservation := some (v.reservation.getD .failed), said := said,
      fresh := fresh } := by
  obtain ⟨unplaced, once, held, committed, saidCommitted, saidReleased, saidFailed⟩ := stocked
  have reserved := announces.said_of_ne (x := .reserved) (by decide)
  have one := announces.once
  -- A reservation that fell short was not made by another handler.
  have closed : v.reservation.getD .failed = .released ∨ v.reservation.getD .failed = .failed := by
    rcases row : v.reservation with _ | state
    · exact .inr rfl
    · cases state
      · have := held (.inl row)
        omega
      · have := held (.inr row)
        omega
      · exact .inl rfl
      · exact .inr rfl
  refine ⟨fun absent => ?_, ?_, fun live => ?_, fun settled => ?_, fun announced => ?_, fun _ => ?_,
    fun _ => ?_⟩
  · obtain ⟨-, none', -⟩ := unplaced absent
    omega
  · simp only
    omega
  · simp only [some.injEq] at live
    rcases closed with equal | equal <;> rcases live with other | other <;>
      cases equal.symm.trans other
  · simp only [some.injEq] at settled
    rcases closed with equal | equal <;> cases equal.symm.trans settled
  · have := held (.inr (saidCommitted (announces.before (by decide) announced)))
    omega
  · simpa only [some.injEq] using closed
  · simpa only [some.injEq] using closed

theorem Stocked.close {v : View} {state : ReservationState} {said fresh : Trigger → Nat}
    (stocked : Stocked v) (placed : v.status ≠ none) (live : v.reservation ≠ some .committed)
    (closes : state = .released ∨ state = .failed) (announces : Announces v .released said fresh) :
    Stocked { v with reservation := some state, said := said, fresh := fresh } := by
  obtain ⟨-, once, -, -, saidCommitted, -, -⟩ := stocked
  have reserved := announces.said_of_ne (x := .reserved) (by decide)
  have failed := announces.said_of_ne (x := .reserveFailed) (by decide)
  refine ⟨fun absent => (placed absent).elim, ?_, fun open' => ?_, fun settled => ?_,
    fun announced => ?_, fun _ => ?_, fun _ => ?_⟩
  · simp only
    omega
  · simp only [some.injEq] at open'
    rcases closes with rfl | rfl <;> rcases open' with other | other <;> cases other
  · simp only [some.injEq] at settled
    rcases closes with rfl | rfl <;> cases settled
  · exact (live (saidCommitted (announces.before (by decide) announced))).elim
  · simpa only [some.injEq] using closes
  · simpa only [some.injEq] using closes

theorem Stocked.commits {v : View} {said fresh : Trigger → Nat} (stocked : Stocked v)
    (asked : v.sent .commit = true)
    (held : v.reservation = some .reserved ∨ v.reservation = some .committed)
    (announces : Announces v .committed said fresh) :
    Stocked { v with reservation := some .committed, said := said, fresh := fresh } := by
  have none' := stocked.held held
  obtain ⟨unplaced, once, -, -, -, saidReleased, saidFailed⟩ := stocked
  have reserved := announces.said_of_ne (x := .reserved) (by decide)
  have failed := announces.said_of_ne (x := .reserveFailed) (by decide)
  have open' : ∀ {P : Prop}, v.reservation = some .released ∨ v.reservation = some .failed → P := by
    rintro P (other | other) <;> rcases held with equal | equal <;> cases equal.symm.trans other
  refine ⟨fun absent => ?_, ?_, fun _ => none', fun _ => asked, fun _ => rfl, fun announced => ?_,
    fun announced => ?_⟩
  · obtain ⟨-, -, new, -⟩ := unplaced absent
    rcases held with equal | equal <;> cases new.symm.trans equal
  · simp only
    omega
  · exact open' (saidReleased (announces.before (by decide) announced))
  · exact open' (saidFailed (announces.before (by decide) announced))

theorem Stocked.step {v : View} (stocked : Stocked v) (sided : Sided v) (rule : Rule v kind after) :
    Stocked after := by
  cases rule with
  | place new sends => exact stocked.place new sends
  | decide current decided hears sends =>
    have fewer := sends.reserving
    rw [count_eq_zero.mpr decided.course.reserve] at fewer
    exact stocked.weaken nofun fewer (le_refl _) rfl (sends.kept _) fun _ _ => rfl
  | @cancel _ emit _ _ _ _ _ current early emits sends =>
    have quiet : .reserve ∉ emit := fun member => by rcases emits _ member with h | h <;> cases h
    have fewer := sends.reserving
    rw [count_eq_zero.mpr quiet] at fewer
    exact stocked.weaken nofun fewer (le_refl _) rfl (sends.kept _) fun _ _ => rfl
  | lose less less' => exact stocked.weaken id less less' rfl id fun _ _ => rfl
  | reserved used new announces => exact stocked.reserved used new announces
  | fellShort used more => exact stocked.fellShort used more
  | reported used announces => exact stocked.reported used announces
  | released asked live announces =>
    have placed : v.status ≠ none := by
      intro absent
      rcases sided.rollBack (.inl asked) with back | back <;> cases absent.symm.trans back
    exact stocked.close placed live (releasedFrom_cases _) announces
  | committed asked held announces => exact stocked.commits asked held announces
  | expired held announces =>
    have placed : v.status ≠ none := by
      intro absent
      obtain ⟨-, -, new, -⟩ := stocked.unplaced absent
      cases new.symm.trans held
    exact stocked.close placed (by rw [held]; decide) (.inl rfl) announces
  | chargeAgain used there reply announces =>
    exact stocked.weaken id (le_refl _) (le_refl _) rfl id
      fun x own => announces.kept_apart (ofMoney_of_reply reply) own
  | approved used announces | declined used announces | captured asked announces
  | voided asked announces | voidedAgain asked settled announces =>
    exact stocked.weaken id (le_refl _) (le_refl _) rfl id fun x own => announces.kept_apart rfl own
  | _ => exact stocked.weaken id (le_refl _) (le_refl _) rfl id fun _ _ => rfl

/-- What does not charge and announces nothing about the payment, except that it is
voided when that was asked for. -/
theorem Charged.weaken_voided {v : View} (charged : Charged v)
    (status : after.status = none ∨ after.status = some .pending → v.status = none ∨ v.status = some
      .pending) (authorizing : after.authorizing ≤ v.authorizing)
    (charging : after.charging ≤ v.charging) (payment : after.payment = v.payment)
    (unsent : after.authorizeSent = false → v.authorizeSent = false)
    (sent : ∀ step, v.sent step = true → after.sent step = true)
    (said : ∀ x, ofStock x = false → x ≠ .voided → after.said x = v.said x)
    (voids : 0 < after.said .voided → v.sent .void = true) : Charged after := by
  obtain ⟨early, once, fresh, waiting, charges, captured, voided, saidCaptured, saidFailed⟩ :=
    charged
  have authorized := said .authorized rfl (by decide)
  have authFailed := said .authFailed rfl (by decide)
  refine ⟨fun absent => ?_, by omega, fun absent => ?_, fun waits => ?_, fun calls => ?_,
    fun taken => ?_, fun closed => ?_, fun announced => ?_, fun announced => ?_⟩
  · obtain ⟨none', none'', new, quiet, quiet'⟩ := early (status absent)
    exact ⟨by omega, by omega, payment.trans new, by omega, by omega⟩
  · obtain ⟨none', none'', quiet, quiet', new⟩ := fresh (unsent absent)
    rw [payment]
    exact ⟨by omega, by omega, by omega, by omega, new⟩
  · rw [payment]
    exact waiting (by omega)
  · rw [payment]
    exact charges (by omega)
  · rw [payment] at taken
    exact sent _ (captured taken)
  · rw [payment] at closed
    rcases closed with held | announced
    · exact sent _ (voided (.inl held))
    · exact sent _ (voids announced)
  · rw [payment]
    exact saidCaptured (said .captured rfl (by decide) ▸ announced)
  · rw [payment]
    exact saidFailed (authFailed ▸ announced)

theorem Charged.weaken {v : View} (charged : Charged v)
    (status : after.status = none ∨ after.status = some .pending → v.status = none ∨ v.status = some
      .pending) (authorizing : after.authorizing ≤ v.authorizing)
    (charging : after.charging ≤ v.charging) (payment : after.payment = v.payment)
    (unsent : after.authorizeSent = false → v.authorizeSent = false)
    (sent : ∀ step, v.sent step = true → after.sent step = true)
    (said : ∀ x, ofStock x = false → after.said x = v.said x) : Charged after := by
  apply charged.weaken_voided status authorizing charging payment unsent sent
    (fun x own _ => said x own)
  intro announced
  exact charged.voided (.inr (said .voided rfl ▸ announced))

theorem Charged.authorize {v : View} (charged : Charged v)
    (status : v.status = none ∨ v.status = some .pending)
    (late : after.status ≠ none ∧ after.status ≠ some .pending)
    (sent : after.authorizeSent = false → False)
    (authorizing : after.authorizing ≤ v.authorizing + 1) (charging : after.charging = v.charging)
    (payment : after.payment = v.payment)
    (commands : ∀ step, v.sent step = true → after.sent step = true) (said : after.said = v.said) :
    Charged after := by
  obtain ⟨none', none'', new, quiet, quiet'⟩ := charged.early status
  have authorized : after.said .authorized = 0 := by rw [said]; exact quiet
  have failed : after.said .authFailed = 0 := by rw [said]; exact quiet'
  refine ⟨fun absent => ?_, by omega, fun absent => (sent absent).elim,
    fun _ => .inl (payment.trans new), fun calls => ?_, fun taken => ?_, fun closed => ?_,
    fun announced => ?_, fun announced => ?_⟩
  · rcases absent with absent | absent
    · exact (late.1 absent).elim
    · exact (late.2 absent).elim
  · omega
  · rw [payment, new] at taken
    rcases taken with taken | taken <;> cases taken
  · rw [payment, said] at closed
    exact commands _ (charged.voided closed)
  · rw [said] at announced
    cases new.symm.trans (charged.saidCaptured announced)
  · omega

theorem Charged.charge {v : View} {charging : Nat} (charged : Charged v)
    (used : authorizing < v.authorizing) (new : v.payment = none ∨ v.payment = some .pending)
    (more : charging ≤ v.charging + 1) :
    Charged { v with
      authorizing := authorizing, charging := charging, payment := some .authorizing } := by
  obtain ⟨early, once, fresh, waiting, charges, -, voided, saidCaptured, saidFailed⟩ := charged
  refine ⟨fun absent => ?_, ?_, fun absent => ?_, fun waits => ?_, fun _ => .inl rfl,
    fun taken => ?_, fun closed => ?_, fun announced => ?_, fun announced => ?_⟩
  · obtain ⟨none', -⟩ := early absent
    omega
  · simp only
    omega
  · obtain ⟨none', -⟩ := fresh absent
    omega
  · simp only at waits
    omega
  · rcases taken with taken | taken <;> cases taken
  · rcases closed with held | announced
    · cases held
    · exact voided (.inr announced)
  · have held := saidCaptured announced
    rcases new with open' | open' <;> cases open'.symm.trans held
  · rcases saidFailed announced with held | held <;> rcases new with open' | open' <;>
      cases open'.symm.trans held

theorem Charged.answered {v : View} {charging : Nat} {t : Trigger} {said fresh : Trigger → Nat}
    (charged : Charged v) (used : charging < v.charging)
    (answers : state = .authorized ∧ t = .authorized ∨ state = .failed ∧ t = .authFailed)
    (announces : Announces v t said fresh) :
    Charged { v with
      charging := charging, payment := some state, said := said, fresh := fresh } := by
  obtain ⟨early, once, unsent, waiting, charges, -, voided, saidCaptured, saidFailed⟩ := charged
  have most := announces.once
  have held := charges (zero_lt_of_lt used)
  have bound : said .authorized + said .authFailed ≤
      v.said .authorized + v.said .authFailed + 1 := by
    rcases answers with ⟨-, rfl⟩ | ⟨-, rfl⟩
    · rw [announces.said_of_ne (x := .authFailed) (by decide)]
      omega
    · rw [announces.said_of_ne (x := .authorized) (by decide)]
      omega
  have captured : said .captured = v.said .captured := by
    rcases answers with ⟨-, rfl⟩ | ⟨-, rfl⟩ <;> exact announces.said_of_ne (by decide)
  have voided' : said .voided = v.said .voided := by
    rcases answers with ⟨-, rfl⟩ | ⟨-, rfl⟩ <;> exact announces.said_of_ne (by decide)
  refine ⟨fun absent => ?_, ?_, fun absent => ?_, fun waits => ?_, fun calls => ?_, fun taken => ?_,
    fun closed => ?_, fun announced => ?_, fun announced => ?_⟩
  · obtain ⟨-, none', -⟩ := early absent
    omega
  · simp only
    omega
  · obtain ⟨-, none', -⟩ := unsent absent
    omega
  · simp only at waits
    omega
  · simp only at calls
    omega
  · simp only [some.injEq] at taken
    rcases answers with ⟨rfl, -⟩ | ⟨rfl, -⟩ <;> rcases taken with taken | taken <;> cases taken
  · simp only [some.injEq] at closed
    rcases closed with settled | announced
    · rcases answers with ⟨rfl, -⟩ | ⟨rfl, -⟩ <;> cases settled
    · exact voided (.inr (voided' ▸ announced))
  · have taken := saidCaptured (captured ▸ announced)
    rcases held with open' | open' <;> cases open'.symm.trans taken
  · rcases answers with ⟨-, rfl⟩ | ⟨rfl, -⟩
    · have declined := announces.before (x := .authFailed) (by decide) announced
      omega
    · exact .inl rfl

theorem Charged.capture {v : View} (charged : Charged v) (asked : v.sent .capture = true)
    (held : v.payment = some .authorized) : Charged { v with payment := some .capturing } := by
  obtain ⟨early, once, unsent, waiting, charges, -, voided, saidCaptured, saidFailed⟩ := charged
  refine ⟨fun absent => ?_, once, fun absent => ?_, fun waits => ?_, fun calls => ?_,
    fun _ => asked, fun closed => ?_, fun announced => ?_, fun announced => ?_⟩
  · obtain ⟨-, -, new, -⟩ := early absent
    cases new.symm.trans held
  · obtain ⟨-, -, -, -, new | closed⟩ := unsent absent
    · cases new.symm.trans held
    · cases closed.symm.trans held
  · rcases waiting waits with new | closed
    · cases new.symm.trans held
    · cases closed.symm.trans held
  · rcases charges calls with open' | closed
    · cases open'.symm.trans held
    · cases closed.symm.trans held
  · rcases closed with settled | announced
    · cases settled
    · exact voided (.inr announced)
  · cases (saidCaptured announced).symm.trans held
  · rcases saidFailed announced with closed | closed <;> cases closed.symm.trans held

theorem Charged.captures {v : View} {said fresh : Trigger → Nat} (charged : Charged v)
    (asked : v.sent .capture = true)
    (late : v.status = some .stockCommitted ∨ v.status = some .confirmed)
    (paid : 0 < v.said .authorized) (announces : Announces v .captured said fresh) :
    Charged { v with payment := some .captured, said := said, fresh := fresh } := by
  obtain ⟨-, once, unsent, -, -, -, voided, -, -⟩ := charged
  have authorized := announces.said_of_ne (x := .authorized) (by decide)
  have failed := announces.said_of_ne (x := .authFailed) (by decide)
  refine ⟨fun absent => ?_, ?_, fun absent => ?_, fun waits => ?_, fun calls => ?_, fun _ => asked,
    fun closed => ?_, fun _ => rfl, fun announced => ?_⟩
  · rcases absent with absent | absent <;> rcases late with status | status <;>
      cases absent.symm.trans status
  · simp only
    omega
  · obtain ⟨-, -, quiet, -⟩ := unsent absent
    omega
  · simp only at waits
    omega
  · simp only at calls
    omega
  · rcases closed with settled | announced
    · cases settled
    · exact voided (.inr (announces.before (by decide) announced))
  · simp only at announced
    omega

theorem Charged.voids {v : View} {said fresh : Trigger → Nat} (charged : Charged v)
    (asked : v.sent .void = true)
    (late : v.status = some .compensating ∨ v.status = some .cancelled)
    (uncaptured : v.sent .capture ≠ true) (announces : Announces v .voided said fresh) :
    Charged { v with payment := some .voided, said := said, fresh := fresh } := by
  obtain ⟨-, once, unsent, -, -, captured, -, saidCaptured, -⟩ := charged
  have authorized := announces.said_of_ne (x := .authorized) (by decide)
  have failed := announces.said_of_ne (x := .authFailed) (by decide)
  refine ⟨fun absent => ?_, ?_, fun absent => ?_, fun _ => .inr rfl, fun _ => .inr rfl,
    fun taken => ?_, fun _ => asked, fun announced => ?_, fun _ => .inr rfl⟩
  · rcases absent with absent | absent <;> rcases late with status | status <;>
      cases absent.symm.trans status
  · simp only
    omega
  · obtain ⟨none', none'', quiet, quiet', -⟩ := unsent absent
    exact ⟨none', none'', authorized.trans quiet, failed.trans quiet', .inr rfl⟩
  · rcases taken with taken | taken <;> cases taken
  · have taken := saidCaptured (announces.before (by decide) announced)
    exact (uncaptured (captured (.inr taken))).elim

theorem Charged.again {v : View} {t : Trigger} (charged : Charged v)
    (used : authorizing < v.authorizing) (there : v.payment = some state)
    (reply : replyFor state = some t) : state = .voided ∧ t = .voided := by
  rcases charged.waiting (zero_lt_of_lt used) with new | tombstone
  · cases there.symm.trans new
  · obtain rfl := some.inj (there.symm.trans tombstone)
    cases reply
    exact ⟨rfl, rfl⟩

theorem Charged.step {v : View} (charged : Charged v) (sided : Sided v)
    (paid : v.status = some .stockCommitted ∨ v.status = some .confirmed → 0 < v.said .authorized)
    (rule : Rule v kind after) : Charged after := by
  cases rule with
  | place new sends =>
    exact charged.weaken (fun _ => .inl new) sends.authorizing (le_refl _) rfl id sends.kept
      fun _ _ => rfl
  | @decide origin t retriable d _ _ _ _ _ _ _ current decided hears sends sent =>
    have course := decided.course
    have more := sends.authorizing
    by_cases charges : .authorize ∈ d.emit
    · obtain ⟨rfl, next⟩ := course.authorize charges
      rw [count_eq_one_of_mem course.once charges] at more
      refine charged.authorize (.inr current) ?_ (fun absent => (sent absent).2 charges) more rfl
        rfl sends.kept rfl
      simp only [next]
      exact ⟨by decide, by decide⟩
    · rw [count_eq_zero.mpr charges] at more
      refine charged.weaken (fun absent => ?_) more (le_refl _) rfl
        (fun absent => (sent absent).1) sends.kept fun _ _ => rfl
      rcases absent with absent | absent
      · cases absent
      · exact .inr (current.trans (congrArg some (course.pending (some.inj absent))))
  | @cancel _ emit _ _ _ _ _ current early emits sends =>
    have quiet : .authorize ∉ emit := fun member => by rcases emits _ member with h | h <;> cases h
    have more := sends.authorizing
    rw [count_eq_zero.mpr quiet] at more
    refine charged.weaken (fun absent => ?_) more (le_refl _) rfl id sends.kept fun _ _ => rfl
    rcases absent with absent | absent <;> cases absent
  | lose less less' fewer fewer' =>
    exact charged.weaken id fewer fewer' rfl id (fun _ => id) fun _ _ => rfl
  | charge used new more => exact charged.charge used new more
  | chargeAgain used there reply announces =>
    obtain ⟨rfl, rfl⟩ := charged.again used there reply
    exact charged.weaken_voided id used.le (le_refl _) rfl id (fun _ => id)
      (fun x _ other => announces.said_of_ne other) fun _ => charged.voided (.inl there)
  | approved used announces => exact charged.answered used (.inl ⟨rfl, rfl⟩) announces
  | declined used announces => exact charged.answered used (.inr ⟨rfl, rfl⟩) announces
  | capture asked held => exact charged.capture asked held
  | captured asked announces =>
    have late := sided.capture asked
    exact charged.captures asked late (paid late) announces
  | voided asked announces =>
    have back := sided.rollBack (.inr asked)
    refine charged.voids asked back (fun sent => ?_) announces
    rcases back with back | back <;> rcases sided.capture sent with late | late <;>
      cases back.symm.trans late
  | voidedAgain asked settled announces =>
    exact charged.weaken_voided id (le_refl _) (le_refl _) rfl id (fun _ => id)
      (fun x _ other => announces.said_of_ne other) fun _ => asked
  | reserved used new announces | reported used announces | released asked live announces
  | committed asked held announces | expired held announces =>
    exact charged.weaken id (le_refl _) (le_refl _) rfl id (fun _ => id)
      fun x own => announces.kept_apart rfl own
  | fellShort used more =>
    exact charged.weaken id (le_refl _) (le_refl _) rfl id (fun _ => id) fun _ _ => rfl

def Uncharged (v : View) : Prop :=
  v.authorizing = 0 ∧ v.charging = 0 ∧ (v.payment = none ∨ v.payment = some .voided)

theorem Heard.weaken {v : View} (heard : Heard v) (status : after.status = v.status)
    (inventorySettled : after.inventorySettled = v.inventorySettled)
    (paymentSettled : after.paymentSettled = v.paymentSettled) (said : ∀ t, v.said t ≤ after.said t)
    (fresh : ∀ t, after.fresh t ≤ after.said t)
    (reserved : 0 < v.said .reserved → after.fresh .reserved ≤ v.fresh .reserved)
    (authorized : 0 < v.said .authorized → after.fresh .authorized ≤ v.fresh .authorized)
    (uncharged : v.status = some .cancelled → Uncharged v → Uncharged after) : Heard after := by
  have still : ∀ {t}, 0 < v.said t → 0 < after.said t := fun announced =>
    lt_of_lt_of_le announced (said _)
  refine ⟨fresh, fun advanced => ?_, fun advanced => ?_, fun advanced => ?_, fun advanced => ?_,
    fun settled => ?_, fun settled => ?_, fun cancelled => ?_⟩
  · rw [status] at advanced
    obtain ⟨announced, none'⟩ := heard.reserved advanced
    have fewer := reserved announced
    exact ⟨still announced, by omega⟩
  · rw [status] at advanced
    obtain ⟨announced, none'⟩ := heard.authorized advanced
    have fewer := authorized announced
    exact ⟨still announced, by omega⟩
  · rw [status] at advanced
    exact still (heard.committed advanced)
  · rw [status] at advanced
    exact still (heard.captured advanced)
  · rw [inventorySettled] at settled
    exact still (heard.released settled)
  · rw [paymentSettled] at settled
    exact still (heard.voided settled)
  · rw [status] at cancelled
    obtain ⟨stock, money⟩ := heard.cancelled cancelled
    refine ⟨stock.imp still still, ?_⟩
    rcases money with announced | announced | none'
    · exact .inl (still announced)
    · exact .inr (.inl (still announced))
    · exact .inr (.inr (uncharged cancelled none'))

theorem Heard.announced {v : View} {t : Trigger} (heard : Heard v)
    (announces : Announces v t after.said after.fresh) (status : after.status = v.status)
    (inventorySettled : after.inventorySettled = v.inventorySettled)
    (paymentSettled : after.paymentSettled = v.paymentSettled)
    (reserved : t = .reserved → v.said .reserved = 0)
    (authorized : t = .authorized → v.said .authorized = 0)
    (uncharged : v.status = some .cancelled → Uncharged v → Uncharged after) : Heard after := by
  refine heard.weaken status inventorySettled paymentSettled announces.said_le
    (announces.fresh_le heard.fresh) (fun announced => ?_) (fun announced => ?_) uncharged
  · apply announces.fresh_of_ne
    rintro rfl
    have := reserved rfl
    omega
  · apply announces.fresh_of_ne
    rintro rfl
    have := authorized rfl
    omega

theorem Heard.restart {v : View} (heard : Heard v)
    (status : after.status = some .pending ∨ after.status = some .compensating)
    (inventorySettled : after.inventorySettled = true → v.inventorySettled = true)
    (paymentSettled : after.paymentSettled = true → v.paymentSettled = true)
    (said : after.said = v.said) (fresh : after.fresh = v.fresh) : Heard after := by
  have never : ∀ {state : State} {P : Prop}, state ≠ .pending → state ≠ .compensating →
      after.status = some state → P := by
    intro state P first second held
    rcases status with other | other <;> rw [other] at held <;> cases held
    · exact (first rfl).elim
    · exact (second rfl).elim
  refine ⟨?_, fun advanced => ?_, fun advanced => ?_, fun advanced => ?_, fun advanced => ?_,
    fun settled => ?_, fun settled => ?_, fun cancelled => ?_⟩
  · rw [said, fresh]
    exact heard.fresh
  · rcases advanced with held | held | held | held <;> exact never (by decide) (by decide) held
  · rcases advanced with held | held | held <;> exact never (by decide) (by decide) held
  · rcases advanced with held | held <;> exact never (by decide) (by decide) held
  · exact never (by decide) (by decide) advanced
  · rw [said]
    exact heard.released (inventorySettled settled)
  · rw [said]
    exact heard.voided (paymentSettled settled)
  · exact never (by decide) (by decide) cancelled

theorem Heard.decide {v : View} {origin : State} {t : Trigger} {retriable : Bool} {d : Decision}
    (consistent : Consistent v) (current : v.status = some origin)
    (decided : Decides origin t (v.ctx retriable) d) (hears : Hears v t after.fresh)
    (said : after.said = v.said) (status : after.status = some d.next)
    (quiet : .authorize ∉ d.emit → after.authorizing ≤ v.authorizing)
    (charging : after.charging = v.charging) (payment : after.payment = v.payment)
    (released : after.inventorySettled = true → v.inventorySettled = true ∨ t = .released)
    (voided : after.paymentSettled = true → v.paymentSettled = true ∨ t = .voided) :
    Heard after := by
  obtain ⟨-, stocked, charged, heard⟩ := consistent
  have course := decided.course
  have announced : ∀ {x}, t = x → x ≠ .timeout → 0 < v.said x := by
    rintro x rfl event
    exact lt_of_lt_of_le (zero_lt_of_lt (hears.2 event)) (heard.fresh t)
  have before : ∀ {state}, origin = state → v.status = some state := fun same =>
    current.trans (congrArg some same)
  refine ⟨fun x => ?_, fun advanced => ?_, fun advanced => ?_, fun advanced => ?_,
    fun advanced => ?_,
    fun settled => ?_, fun settled => ?_, fun cancelled => ?_⟩ <;> rw [said]
  · exact (hears.1 x).trans (heard.fresh x)
  · have fewer := hears.1 .reserved
    simp only [status, some.injEq] at advanced
    rcases course.reservedBy advanced with same | rfl
    · obtain ⟨some', none'⟩ := heard.reserved
        (same.imp before (Or.imp before (Or.imp before before)))
      exact ⟨some', by omega⟩
    · have used := hears.2 (by decide)
      have bound := heard.fresh .reserved
      have once := stocked.once
      exact ⟨by omega, by omega⟩
  · have fewer := hears.1 .authorized
    simp only [status, some.injEq] at advanced
    rcases course.authorizedBy advanced with same | rfl
    · obtain ⟨some', none'⟩ := heard.authorized (same.imp before (Or.imp before before))
      exact ⟨some', by omega⟩
    · have used := hears.2 (by decide)
      have bound := heard.fresh .authorized
      have once := charged.once
      exact ⟨by omega, by omega⟩
  · simp only [status, some.injEq] at advanced
    rcases course.committedBy advanced with same | hears
    · exact heard.committed (same.imp before before)
    · exact announced hears (by decide)
  · simp only [status, some.injEq] at advanced
    rcases course.confirmed advanced with same | ⟨-, hears⟩
    · exact heard.captured (before same)
    · exact announced hears (by decide)
  · rcases released settled with was | hears
    · exact heard.released was
    · exact announced hears (by decide)
  · rcases voided settled with was | hears
    · exact heard.voided was
    · exact announced hears (by decide)
  · simp only [status, some.injEq] at cancelled
    have silent : .authorize ∉ d.emit := fun emits => by
      cases cancelled.symm.trans (course.authorize emits).2
    have fewer := quiet silent
    have untouched : Uncharged v → Uncharged after := by
      rintro ⟨none', none'', new⟩
      rw [Uncharged, charging, payment]
      exact ⟨by omega, none'', new⟩
    rcases course.cancelled cancelled with same | ⟨same, hears⟩ | ⟨-, stock, money⟩
    · obtain ⟨stock, money⟩ := heard.cancelled (before same)
      exact ⟨stock, money.imp_right (Or.imp_right untouched)⟩
    · obtain ⟨none', none'', new, -⟩ := charged.early (.inr (before same))
      exact ⟨.inr (announced hears (by decide)), .inr (.inr (untouched ⟨none', none'', .inl new⟩))⟩
    · constructor
      · rcases stock with was | hears | hears
        · exact .inl (heard.released was)
        · exact .inl (announced hears (by decide))
        · exact .inr (announced hears (by decide))
      · rcases money with was | unsent | hears | hears
        · exact .inl (heard.voided was)
        · obtain ⟨none', none'', -, -, new⟩ := charged.unsent unsent
          exact .inr (.inr (untouched ⟨none', none'', new⟩))
        · exact .inl (announced hears (by decide))
        · exact .inr (.inl (announced hears (by decide)))

theorem Heard.step {v : View} (consistent : Consistent v) (rule : Rule v kind after) :
    Heard after := by
  have heard := consistent.heard
  have once := consistent.stocked.once
  have onceCharged := consistent.charged.once
  cases rule with
  | place new => exact heard.restart (.inl rfl) id id rfl rfl
  | @decide _ _ _ d _ _ _ _ _ _ _ current decided hears sends _ released voided =>
    refine Heard.decide consistent current decided hears rfl rfl (fun silent => ?_) rfl rfl released
      voided
    have more := sends.authorizing
    rw [count_eq_zero.mpr silent] at more
    exact more
  | cancel _ _ _ _ released voided => exact heard.restart (.inr rfl) released voided rfl rfl
  | lose less less' fewer fewer' =>
    refine heard.weaken rfl rfl rfl (fun _ => le_refl _) heard.fresh (fun _ => le_refl _)
      (fun _ => le_refl _) fun _ none' => ?_
    exact ⟨le_zero.mp (none'.1 ▸ fewer), le_zero.mp (none'.2.1 ▸ fewer'), none'.2.2⟩
  | fellShort =>
    exact heard.weaken rfl rfl rfl (fun _ => le_refl _) heard.fresh (fun _ => le_refl _)
      (fun _ => le_refl _) fun _ none' => none'
  | charge used new =>
    refine heard.weaken rfl rfl rfl (fun _ => le_refl _) heard.fresh (fun _ => le_refl _)
      (fun _ => le_refl _) fun _ none' => ?_
    have := none'.1
    omega
  | capture asked held =>
    refine heard.weaken rfl rfl rfl (fun _ => le_refl _) heard.fresh (fun _ => le_refl _)
      (fun _ => le_refl _) fun _ none' => ?_
    rcases none'.2.2 with new | closed
    · cases new.symm.trans held
    · cases closed.symm.trans held
  | reserved used new announces =>
    exact heard.announced announces rfl rfl rfl (fun _ => by omega) nofun fun _ none' => none'
  | reported used announces | released asked live announces | committed asked held announces
  | expired held announces =>
    exact heard.announced announces rfl rfl rfl nofun nofun fun _ none' => none'
  | chargeAgain used there reply announces =>
    obtain ⟨rfl, rfl⟩ := consistent.charged.again used there reply
    refine heard.announced announces rfl rfl rfl nofun nofun fun _ none' => ?_
    have := none'.1
    omega
  | approved used announces =>
    refine heard.announced announces rfl rfl rfl nofun (fun _ => by omega) fun _ none' => ?_
    have := none'.2.1
    omega
  | declined used announces =>
    refine heard.announced announces rfl rfl rfl nofun nofun fun _ none' => ?_
    have := none'.2.1
    omega
  | captured asked announces =>
    refine heard.announced announces rfl rfl rfl nofun nofun fun cancelled _ => ?_
    rcases consistent.sided.capture asked with late | late <;> cases cancelled.symm.trans late
  | voided asked announces =>
    exact heard.announced announces rfl rfl rfl nofun nofun fun _ none' =>
      ⟨none'.1, none'.2.1, .inr rfl⟩
  | voidedAgain asked settled announces =>
    exact heard.announced announces rfl rfl rfl nofun nofun fun _ none' => none'

theorem Consistent.step {v : View} (consistent : Consistent v) (rule : Rule v kind after) :
    Consistent after where
  sided := consistent.sided.step rule
  stocked := consistent.stocked.step consistent.sided rule
  charged := consistent.charged.step consistent.sided (fun late => (consistent.heard.authorized
    (.inr late)).1) rule
  heard := Heard.step consistent rule

theorem Consistent.blank : Consistent View.blank := by
  refine ⟨?_, ?_, ?_, ?_⟩ <;> constructor <;> simp [View.blank]

theorem consistent_of_reachable {v : View} (reached : protocol.Reachable v) : Consistent v := by
  apply reached.invariant
  · intro v initial
    obtain rfl : v = View.blank := initial
    exact Consistent.blank
  · intro v kind after consistent rule
    exact consistent.step rule

end Souq.Checkout
