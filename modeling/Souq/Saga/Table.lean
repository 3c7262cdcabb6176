import Souq.Saga.Machine

/-!
# The transition table

The machine read as a relation: one row for each branch of `next` that yields a
decision. What the saga can and cannot do is proved by going through the rows.
-/

namespace Souq.Saga

/-- The table of transitions. -/
inductive Decides : State → Trigger → Ctx → Decision → Prop where
  | reserved (c : Ctx) : Decides .pending .reserved c
      { next := .stockReserved, emit := [.authorize], deadline := timeoutStockReserved }
  | outOfStock (c : Ctx) : Decides .pending .reserveFailed c
      { next := .cancelled, reason := some .insufficientStock, failedStep := some .reserve }
  | reservationTimeout (c : Ctx) : Decides .pending .timeout c
      { next := .compensating, emit := [.release], deadline := timeoutCompensating }
  | earlyReleased (c : Ctx) : Decides .pending .released c { next := .pending, ackOnly := true }
  | earlyVoided (c : Ctx) : Decides .pending .voided c { next := .pending, ackOnly := true }
  | authorized (c : Ctx) : Decides .stockReserved .authorized c
      { next := .paid, emit := [.commit], deadline := 0 }
  | retriable {c : Ctx} (again : c.paymentRetriable = true) :
      Decides .stockReserved .authFailed c { next := .stockReserved, ackOnly := true }
  | declined {c : Ctx} (final : c.paymentRetriable = false) :
      Decides .stockReserved .authFailed c
        { next := .compensating, emit := [.release], reason := some .paymentDeclined,
          failedStep := some .authorize, deadline := timeoutCompensating }
  | paymentTimeout (c : Ctx) : Decides .stockReserved .timeout c
      { next := .compensating, emit := [.release, .void], reason := some .paymentTimeout,
        failedStep := some .authorize, deadline := timeoutCompensating }
  | reservedAgain (c : Ctx) :
      Decides .stockReserved .reserved c { next := .stockReserved, ackOnly := true }
  | committed (c : Ctx) : Decides .paid .committed c { next := .stockCommitted, emit := [.capture] }
  | authorizedAgain (c : Ctx) : Decides .paid .authorized c { next := .paid, ackOnly := true }
  | commitRetry (c : Ctx) : Decides .paid .timeout c
      { next := .paid, emit := [.commit], deadline := retryCommitInterval }
  | captured (c : Ctx) : Decides .stockCommitted .captured c { next := .confirmed }
  | committedAgain (c : Ctx) :
      Decides .stockCommitted .committed c { next := .stockCommitted, ackOnly := true }
  | captureRetry (c : Ctx) : Decides .stockCommitted .timeout c
      { next := .stockCommitted, emit := [.capture], deadline := retryCaptureInterval }
  | released (c : Ctx) :
      Decides .compensating .released c (settleOrWait { c with inventorySettled := true })
  | neverReserved (c : Ctx) :
      Decides .compensating .reserveFailed c (settleOrWait { c with inventorySettled := true })
  | voided (c : Ctx) :
      Decides .compensating .voided c (settleOrWait { c with paymentSettled := true })
  | neverAuthorized (c : Ctx) :
      Decides .compensating .authFailed c (settleOrWait { c with paymentSettled := true })
  | lateReserved (c : Ctx) :
      Decides .compensating .reserved c { next := .compensating, ackOnly := true }
  | unexpectedAuthorized {c : Ctx} (unsent : c.authorizeSent = false) :
      Decides .compensating .authorized c { next := .compensating, ackOnly := true }
  | lateAuthorized {c : Ctx} (sent : c.authorizeSent = true) :
      Decides .compensating .authorized c
        { next := .compensating, emit := [.void], deadline := timeoutCompensating }
  | compensationTimeout (c : Ctx) : Decides .compensating .timeout c
      { next := .compensating, emit := compensationsFor c, deadline := timeoutCompensating }
  | afterConfirmed (t : Trigger) (c : Ctx) :
      Decides .confirmed t c { next := .confirmed, ackOnly := true }
  | afterCancelled (t : Trigger) (c : Ctx) :
      Decides .cancelled t c { next := .cancelled, ackOnly := true }

variable {origin : State} {t : Trigger} {c : Ctx} {d : Decision}

/-- The machine decides exactly as the table says. -/
theorem next_eq_ok :
    next origin t c = .ok d ↔ Decides origin t c d := by
  constructor
  · intro decided
    cases origin <;> cases t <;> simp only [next, Except.ok.injEq, reduceCtorEq] at decided
    case stockReserved.authFailed =>
      split at decided
      case isTrue again => cases decided; exact .retriable again
      case isFalse final => cases decided; exact .declined (Bool.eq_false_iff.mpr final)
    case compensating.authorized =>
      split at decided
      case isTrue unsent => cases decided; exact .unexpectedAuthorized (by simpa using unsent)
      case isFalse sent => cases decided; exact .lateAuthorized (by simpa using sent)
    all_goals subst decided; constructor
  · intro row
    cases row with
    | retriable again => simp only [next, again, ↓reduceIte]
    | declined final => simp only [next, final, Bool.false_eq_true, ↓reduceIte]
    | unexpectedAuthorized unsent => simp only [next, unsent, Bool.not_false, ↓reduceIte]
    | lateAuthorized sent => simp only [next, sent, Bool.not_true, Bool.false_eq_true, ↓reduceIte]
    | _ => rfl

theorem next_eq_error {err : ErrIllegalTransition} (illegal : next origin t c = .error err) :
    (origin = .pending ∧ (t = .authorized ∨ t = .authFailed ∨ t = .committed ∨ t = .captured)) ∨
      (origin = .stockReserved ∧
        (t = .reserveFailed ∨ t = .released ∨ t = .committed ∨ t = .captured ∨ t = .voided)) ∨
      (origin = .paid ∧ (t = .reserved ∨ t = .reserveFailed ∨ t = .released ∨ t = .authFailed ∨
        t = .captured ∨ t = .voided)) ∨
      (origin = .stockCommitted ∧ (t = .reserved ∨ t = .reserveFailed ∨ t = .released ∨
        t = .authorized ∨ t = .authFailed ∨ t = .voided)) ∨
      (origin = .compensating ∧ (t = .committed ∨ t = .captured)) := by
  cases origin <;> cases t <;> simp only [next, reduceCtorEq] at illegal <;>
    simp only [reduceCtorEq,
    and_self, true_and, false_and, or_self, or_true, or_false]
  all_goals split at illegal <;> cases illegal

theorem settleOrWait_cases (c : Ctx) :
    (c.inventorySettled = true ∧ (c.paymentSettled = true ∨ c.authorizeSent = false) ∧
        settleOrWait c = { next := .cancelled, reason := some .paymentDeclined }) ∨
      ((c.inventorySettled = false ∨ c.paymentSettled = false ∧ c.authorizeSent = true) ∧
        settleOrWait c = { next := .compensating, ackOnly := true }) := by
  unfold settleOrWait
  cases c.inventorySettled <;> cases c.paymentSettled <;> cases c.authorizeSent <;> simp

theorem settleOrWait_next (c : Ctx) :
    (settleOrWait c).next = .cancelled ∨ (settleOrWait c).next = .compensating := by
  obtain ⟨-, -, settled⟩ | ⟨-, waits⟩ := settleOrWait_cases c
  · exact .inl (by rw [settled])
  · exact .inr (by rw [waits])

theorem Decides.eq_paid (decided : Decides origin t c d) (paid : d.next = .paid) :
    origin = .stockReserved ∧ t = .authorized ∨ origin = .paid := by
  cases decided with
  | authorized => exact .inl ⟨rfl, rfl⟩
  | committed | authorizedAgain | commitRetry => exact .inr rfl
  | released | neverReserved | voided | neverAuthorized =>
    obtain cancels | waits := settleOrWait_next _
    · cases cancels.symm.trans paid
    · cases waits.symm.trans paid
  | _ => cases paid

theorem Decides.eq_stockCommitted (decided : Decides origin t c d)
    (committed : d.next = .stockCommitted) :
    origin = .paid ∧ t = .committed ∨ origin = .stockCommitted := by
  cases decided with
  | committed => exact .inl ⟨rfl, rfl⟩
  | captured | committedAgain | captureRetry => exact .inr rfl
  | released | neverReserved | voided | neverAuthorized =>
    obtain cancels | waits := settleOrWait_next _
    · cases cancels.symm.trans committed
    · cases waits.symm.trans committed
  | _ => cases committed

/-- Where a decision can come from, by the state it leads to, and what it may
send there. -/
structure Course (origin : State) (t : Trigger) (c : Ctx) (d : Decision) : Prop where
  pending : d.next = .pending → origin = .pending
  stockReserved : d.next = .stockReserved →
    origin = .stockReserved ∨ origin = .pending ∧ t = .reserved
  paid : d.next = .paid → origin = .paid ∨ origin = .stockReserved ∧ t = .authorized
  stockCommitted : d.next = .stockCommitted →
    origin = .stockCommitted ∨ origin = .paid ∧ t = .committed
  confirmed : d.next = .confirmed → origin = .confirmed ∨ origin = .stockCommitted ∧ t = .captured
  compensating : d.next = .compensating →
    origin = .compensating ∨ origin = .pending ∨ origin = .stockReserved
  cancelled : d.next = .cancelled → origin = .cancelled ∨ origin = .pending ∧ t = .reserveFailed ∨
    origin = .compensating ∧ (c.inventorySettled = true ∨ t = .released ∨ t = .reserveFailed) ∧
      (c.paymentSettled = true ∨ c.authorizeSent = false ∨ t = .voided ∨ t = .authFailed)
  reserve : .reserve ∉ d.emit
  authorize : .authorize ∈ d.emit → origin = .pending ∧ d.next = .stockReserved
  commit : .commit ∈ d.emit → d.next = .paid
  capture : .capture ∈ d.emit → d.next = .stockCommitted
  rollBack : .release ∈ d.emit ∨ .void ∈ d.emit → d.next = .compensating
  once : d.emit.Nodup

/-- Where a decision can lead, by the side of the point of no return it starts on. -/
structure Onward (origin next : State) : Prop where
  paid : origin = .paid ∨ origin = .stockCommitted ∨ origin = .confirmed →
    next = .paid ∨ next = .stockCommitted ∨ next = .confirmed
  stockCommitted : origin = .stockCommitted ∨ origin = .confirmed →
    next = .stockCommitted ∨ next = .confirmed
  rolledBack : origin = .compensating ∨ origin = .cancelled →
    next = .compensating ∨ next = .cancelled

theorem compensationsFor_cases (c : Ctx) :
    compensationsFor c = [] ∨ compensationsFor c = [.release] ∨ compensationsFor c = [.void] ∨
      compensationsFor c = [.release, .void] := by
  unfold compensationsFor
  cases c.inventorySettled <;> cases c.authorizeSent <;> cases c.paymentSettled <;> simp

theorem Decides.course (decided : Decides origin t c d) : Course origin t c d := by
  cases decided with
  | released | neverReserved =>
    obtain ⟨-, settled, next⟩ | ⟨-, next⟩ :=
      settleOrWait_cases { c with inventorySettled := true } <;> rw [next]
    · have paid : c.paymentSettled = true ∨ c.authorizeSent = false := settled
      constructor <;> simp [paid]
    · constructor <;> simp
  | voided | neverAuthorized =>
    obtain ⟨held, -, next⟩ | ⟨-, next⟩ :=
      settleOrWait_cases { c with paymentSettled := true } <;> rw [next]
    · have released : c.inventorySettled = true := held
      constructor <;> simp [released]
    · constructor <;> simp
  | compensationTimeout =>
    rcases compensationsFor_cases c with none' | one | one | both
    · constructor <;> simp [none']
    · constructor <;> simp [one]
    · constructor <;> simp [one]
    · constructor <;> simp [both]
  | _ => constructor <;> simp

theorem Course.reservedBy (course : Course origin t c d)
    (advanced : d.next = .stockReserved ∨ d.next = .paid ∨ d.next = .stockCommitted ∨ d.next =
      .confirmed) :
    (origin = .stockReserved ∨ origin = .paid ∨ origin = .stockCommitted ∨ origin = .confirmed) ∨
      t = .reserved := by
  rcases advanced with next | next | next | next
  · rcases course.stockReserved next with same | ⟨-, heard⟩
    · exact .inl (.inl same)
    · exact .inr heard
  · rcases course.paid next with same | ⟨same, -⟩
    · exact .inl (.inr (.inl same))
    · exact .inl (.inl same)
  · rcases course.stockCommitted next with same | ⟨same, -⟩
    · exact .inl (.inr (.inr (.inl same)))
    · exact .inl (.inr (.inl same))
  · rcases course.confirmed next with same | ⟨same, -⟩
    · exact .inl (.inr (.inr (.inr same)))
    · exact .inl (.inr (.inr (.inl same)))

theorem Course.authorizedBy (course : Course origin t c d)
    (advanced : d.next = .paid ∨ d.next = .stockCommitted ∨ d.next = .confirmed) :
    (origin = .paid ∨ origin = .stockCommitted ∨ origin = .confirmed) ∨ t = .authorized := by
  rcases advanced with next | next | next
  · rcases course.paid next with same | ⟨-, heard⟩
    · exact .inl (.inl same)
    · exact .inr heard
  · rcases course.stockCommitted next with same | ⟨same, -⟩
    · exact .inl (.inr (.inl same))
    · exact .inl (.inl same)
  · rcases course.confirmed next with same | ⟨same, -⟩
    · exact .inl (.inr (.inr same))
    · exact .inl (.inr (.inl same))

theorem Course.committedBy (course : Course origin t c d)
    (advanced : d.next = .stockCommitted ∨ d.next = .confirmed) :
    (origin = .stockCommitted ∨ origin = .confirmed) ∨ t = .committed := by
  rcases advanced with next | next
  · rcases course.stockCommitted next with same | ⟨-, heard⟩
    · exact .inl (.inl same)
    · exact .inr heard
  · rcases course.confirmed next with same | ⟨same, -⟩
    · exact .inl (.inr same)
    · exact .inl (.inl same)

/-- No decision crosses the point of no return backwards. -/
theorem Decides.onward (decided : Decides origin t c d) : Onward origin d.next := by
  cases decided with
  | released | neverReserved | voided | neverAuthorized =>
    exact ⟨by simp, by simp, fun _ => (settleOrWait_next _).symm⟩
  | _ => constructor <;> simp

theorem Decides.terminal (decided : Decides origin t c d) (terminal : isTerminal origin = true) :
    d.next = origin := by
  cases decided <;> first | rfl | cases terminal

theorem Decides.quiet (decided : Decides origin t c d) (terminal : isTerminal origin = true) :
    d.emit = [] := by
  cases decided <;> first | rfl | cases terminal

end Souq.Saga
