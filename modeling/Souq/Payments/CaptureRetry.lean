import Souq.Payments.Committed

/-!
# Retrying a capture

The saga is past its point of no return when it asks for a capture, so a capture that fails has
to be tried again. The first attempt leaves the payment `CAPTURING`, and the entry check of the
next one wants it `AUTHORIZED`: an attempt that is not approved, or that a crash cuts off, leaves
a payment that no command captures any more, unless a callback has moved it meanwhile.
-/

namespace Souq.Payments

open Transact Transition Function Table Command Option Program Service Database Work

/-- The state of a payment. -/
def Database.stateOf (db : Database) (paymentID : ID) : Option State :=
  (db.payment paymentID).map Payment.state

variable {after : Database} {row : Payment}

theorem stateOf_congr {db : Database} (same : after.payments = db.payments) (paymentID : ID) :
    after.stateOf paymentID = db.stateOf paymentID := by
  unfold stateOf payment
  rw [same]

theorem stateOf_visible {db : Database} (same : after.visible = db.visible) (paymentID : ID) :
    after.stateOf paymentID = db.stateOf paymentID := by
  simp only [visible, Prod.mk.injEq] at same
  exact stateOf_congr same.1 paymentID

theorem stateOf_of_found {db : Database} {paymentID : ID}
    (found : db.payment paymentID = some row) :
    db.stateOf paymentID = some row.state := by
  unfold stateOf
  rw [found, map_some]

theorem found_of_stateOf {db : Database} {paymentID : ID} {state : State}
    (held : db.stateOf paymentID = some state) :
    ∃ row, db.payment paymentID = some row ∧ row.state = state :=
  map_eq_some_iff.mp held

theorem Entered.stateOf {db : Database} {record : OutboxRecord} {claimed : List ID}
    (entered : Entered db after row record claimed) (paymentID : ID) :
    after.stateOf paymentID =
      if row.id = paymentID then some row.state else db.stateOf paymentID := by
  unfold Database.stateOf
  rw [entered.payment]
  split <;> rfl

theorem Wrote.stateOf {db : Database} {record : Option OutboxRecord} {claimed : List ID}
    (wrote : Wrote db after row record claimed) (paymentID : ID) :
    after.stateOf paymentID =
      if row.id = paymentID then some row.state else db.stateOf paymentID := by
  unfold Database.stateOf
  rw [wrote.payment]
  split <;> rfl

def Call.about : Call → ID
  | .authorize cmd => cmd.paymentID
  | .capture _ paymentID _ _ => paymentID
  | .void _ paymentID _ => paymentID

theorem Call.finish_other {cfg : Config} {mint : Mint} {result : Result} {call : Call}
    {db : Database} {paymentID : ID} (other : call.about ≠ paymentID) :
    (call.finish cfg mint result db).stateOf paymentID = db.stateOf paymentID := by
  have elsewhere : ∀ {old row : Payment} {record : Option OutboxRecord},
      db.payment call.about = some old → row.id = old.id →
      Wrote db (call.finish cfg mint result db) row record [] →
      (call.finish cfg mint result db).stateOf paymentID = db.stateOf paymentID := by
    intro old row record found same wrote
    have named : old.id = call.about := key_of_find found
    rw [wrote.stateOf, if_neg (by rw [same, named]; exact other)]
  cases call with
  | authorize cmd =>
    rcases authorizeFinish_inTx_cases cfg mint cmd result db with
      same | ⟨old, row, event, found, change, wrote⟩
    · exact stateOf_visible same paymentID
    · apply elsewhere found _ wrote
      generalize result.outcome = outcome at change
      cases change <;> rfl
  | capture orderID captured pspKey providerAuthID =>
    rcases settleCapture_inTx_cases mint captured pspKey _ db with
      same | ⟨old, fields, amount, -, found, wrote⟩
    · exact stateOf_visible same paymentID
    · apply elsewhere found _ wrote
      rfl
  | void orderID voided pspKey =>
    rcases voidFinish_inTx_cases mint orderID voided pspKey result db with
      same | ⟨old, -, found, wrote⟩
    · exact stateOf_visible same paymentID
    · apply elsewhere found _ wrote
      rfl

def Work.captures (paymentID : ID) : Work → Bool
  | .call (.capture _ captured _ _) => captured == paymentID
  | _ => false

namespace Service

variable {ι : Type} {s t : Service ι} {paymentID : ID}

/-- A capture of the payment is in hand. -/
def Capturing (s : Service ι) (paymentID : ID) (i : ι) : Prop :=
  (s.work i).any (captures paymentID) = true

def Open (s : Service ι) (paymentID : ID) : Prop :=
  s.db.stateOf paymentID = some .authorized ∨ s.db.stateOf paymentID = some .captured ∨
    s.db.stateOf paymentID = some .capturing ∧ ∃ i, s.Capturing paymentID i

/-- A step ends the last attempt on a payment that is still `CAPTURING` without an approval, or
writes `FAILED` or `VOIDED` over the payment. -/
def Strands (key : CallbackKey) (s : Service ι) (paymentID : ID) : Turn ι → Prop
  | .answer i result _ =>
    match s.work i with
    | some (.call (.authorize cmd)) => cmd.paymentID = paymentID ∧ result.outcome = .declined
    | some (.call (.capture _ captured _ _)) =>
      captured = paymentID ∧ s.db.stateOf paymentID = some .capturing ∧
        result.outcome ≠ .approved ∧ ∀ j, s.Capturing paymentID j → j = i
    | some (.call (.void _ voided _)) => voided = paymentID ∧ result.outcome = .approved
    | _ => False
  | .apply i _ =>
    match s.work i with
    | some (.callback cb about) =>
      about = paymentID ∧ key cb.providerRef cb.kind ∉ s.db.processed ∧
        (cb.kind = .voided ∨ cb.kind = .failed ∧ s.db.stateOf paymentID = some .capturing)
    | _ => False
  | .crash i =>
    s.db.stateOf paymentID = some .capturing ∧ s.Capturing paymentID i ∧
      ∀ j, s.Capturing paymentID j → j = i
  | _ => False

instance (s : Service ι) (paymentID : ID) (i : ι) : Decidable (s.Capturing paymentID i) :=
  inferInstanceAs (Decidable (_ = true))

instance [Fintype ι] [DecidableEq ι] (key : CallbackKey) (s : Service ι) (paymentID : ID)
    (turn : Turn ι) : Decidable (s.Strands key paymentID turn) := by
  unfold Strands
  split
  · split <;> infer_instance
  · split <;> infer_instance
  all_goals infer_instance

theorem Open.congr (state : t.db.stateOf paymentID = s.db.stateOf paymentID)
    (work : ∀ i, t.Capturing paymentID i ↔ s.Capturing paymentID i) :
    t.Open paymentID ↔ s.Open paymentID := by
  unfold Open
  simp only [state, work]

variable [DecidableEq ι]

variable {db : Database} {i : ι} {cfg : Config} {key : CallbackKey}

theorem capturing_update {work : Option Work}
    (same : work.any (captures paymentID) = (s.work i).any (captures paymentID)) (j : ι) :
    (⟨db, update s.work i work⟩ : Service ι).Capturing paymentID j ↔ s.Capturing paymentID j := by
  unfold Capturing
  dsimp only
  rw [update_apply]
  split
  · next here => rw [here, same]
  · rfl

omit [DecidableEq ι] in
theorem stateOf_kept {row : Payment} {record : Option OutboxRecord} {claimed : List ID}
    (wrote : Wrote s.db db row record claimed)
    (kept : row.id = paymentID → s.db.payment paymentID = some row) :
    db.stateOf paymentID = s.db.stateOf paymentID := by
  rw [wrote.stateOf]
  split
  · next named => exact (stateOf_of_found (kept named)).symm
  · rfl

omit [DecidableEq ι] in
theorem Open.found (opened : s.Open paymentID) :
    ∃ row, s.db.payment paymentID = some row ∧ row.state ≠ .pending := by
  rcases opened with held | held | ⟨held, -⟩
  all_goals
    obtain ⟨row, found, state⟩ := found_of_stateOf held
    exact ⟨row, found, by rw [state]; decide⟩

theorem Open.start (opened : s.Open paymentID) (i : ι) (eventID : ID) (command : Command)
    (mint : Mint) :
    (s.step cfg key (.start i eventID command mint)).Open paymentID := by
  obtain ⟨was, there, active⟩ := opened.found
  cases free : s.work i with
  | some work => simpa only [step, free] using opened
  | none =>
    have idle : ∀ {db : Database} {work : Option Work},
        db.stateOf paymentID = s.db.stateOf paymentID →
        work.any (captures paymentID) = false →
        (⟨db, update s.work i work⟩ : Service ι).Open paymentID := by
      intro db work state none'
      apply (Open.congr state _).mpr opened
      apply capturing_update
      rw [free, none', any_none]
    simp only [step, free]
    cases command with
    | authorize cmd =>
      rcases start_authorize_cases cfg mint eventID cmd s.db with
        same | ⟨after, row, event, goes, starts, -, change, wrote⟩
      · rw [same]
        exact idle rfl rfl
      · rw [starts]
        apply idle
        · apply stateOf_kept wrote
          intro named
          generalize found : s.db.payment cmd.paymentID = existing at change
          cases change with
          | new same owned state =>
            rw [← named, same, found] at there
            cases there
          | resumed held =>
            rw [← named] at there
            obtain rfl := some.inj ((payment_of_find found).symm.trans there)
            exact absurd held active
          | again settled => exact named ▸ payment_of_find found
        · cases goes <;> rfl
    | capture orderID captured idempotencyKey =>
      rcases start_capture_cases cfg mint eventID orderID captured idempotencyKey s.db with
        same | ⟨after, old, row, event, pmt, starts, found, change, wrote⟩
      · rw [same]
        exact idle rfl rfl
      · rw [starts]
        have here := payment_of_find found
        cases change with
        | again settled amount =>
          apply idle _ rfl
          exact stateOf_kept wrote fun named => named ▸ here
        | open' held =>
          by_cases named : old.id = paymentID
          · apply Or.inr
            apply Or.inr
            constructor
            · exact (wrote.stateOf paymentID).trans (if_pos named)
            · apply Exists.intro i
              unfold Capturing
              simp only [update_self, map_some, any_some, captures, beq_iff_eq]
              exact named
          · apply idle
            · exact (wrote.stateOf paymentID).trans (if_neg named)
            · simp only [map_some, any_some, captures, beq_eq_false_iff_ne]
              exact named
    | void orderID voided idempotencyKey =>
      rcases start_void_cases cfg mint eventID orderID voided idempotencyKey s.db with
        same | ⟨after, row, announces, wasTombstone, goes, starts, change, wrote⟩
      · rw [same]
        exact idle rfl rfl
      · rw [starts]
        apply idle
        · apply stateOf_kept wrote
          intro named
          generalize found : s.db.payment voided = existing at change
          cases change with
          | tombstone same owned state =>
            rw [← named, same, found] at there
            cases there
          | again | open' => exact named ▸ payment_of_find found
        · cases goes <;> rfl

omit [DecidableEq ι] in
theorem open_of_state {state : State} (held : s.db.stateOf paymentID = some state)
    (settled : state = .authorized ∨ state = .captured) : s.Open paymentID := by
  cases settled with
  | inl authorized => exact .inl (authorized ▸ held)
  | inr captured => exact .inr (.inl (captured ▸ held))

omit [DecidableEq ι] in
theorem not_open_of_state {state : State} (held : s.db.stateOf paymentID = some state)
    (lost : state = .failed ∨ state = .voided) : ¬s.Open paymentID := by
  unfold Open
  rw [held]
  cases lost with
  | inl failed => simp [failed]
  | inr voided => simp [voided]

theorem open_idle {work : Work} (waits : s.work i = some work)
    (other : work.captures paymentID = false)
    (state : db.stateOf paymentID = s.db.stateOf paymentID) :
    (⟨db, update s.work i none⟩ : Service ι).Open paymentID ↔ s.Open paymentID := by
  apply Open.congr state
  apply capturing_update
  rw [waits, any_some, other, any_none]

theorem open_ended (opened : s.Open paymentID)
    (state : db.stateOf paymentID = s.db.stateOf paymentID) :
    (⟨db, update s.work i none⟩ : Service ι).Open paymentID ↔
      ¬(s.db.stateOf paymentID = some .capturing ∧ ∀ j, s.Capturing paymentID j → j = i) := by
  have others : ∀ j, (⟨db, update s.work i none⟩ : Service ι).Capturing paymentID j ↔
      j ≠ i ∧ s.Capturing paymentID j := by
    intro j
    unfold Capturing
    dsimp only
    rw [update_apply]
    split
    · next here => simp [here]
    · next other => simp [other]
  unfold Open at opened ⊢
  simp only [state, others]
  constructor
  · rintro now ⟨held, last⟩
    rcases now with authorized | captured | ⟨-, j, other, still⟩
    · rw [authorized] at held
      cases held
    · rw [captured] at held
      cases held
    · exact other (last j still)
  · intro spared
    rcases opened with authorized | captured | ⟨held, -⟩
    · exact .inl authorized
    · exact .inr (.inl captured)
    · apply Or.inr
      apply Or.inr
      by_contra none'
      apply spared
      constructor
      · exact held
      · intro j still
        by_contra other
        exact none' ⟨held, j, other, still⟩

theorem open_answer_iff (admits : s.db.Admitted) (separate : cfg.supportsCapture none = true)
    (opened : s.Open paymentID) (i : ι) (result : Result) (mint : Mint) :
    (s.step cfg key (.answer i result mint)).Open paymentID ↔
      ¬s.Strands key paymentID (.answer i result mint) := by
  obtain ⟨row, found, -⟩ := opened.found
  have admitted : row.admissible = true := admits row (mem_of_find found)
  have named : row.id = paymentID := key_of_find found
  rcases waits : s.work i with _ | ⟨call⟩ | ⟨cb, about⟩
  · simp only [step, Strands, waits, not_false_eq_true, opened]
  · simp only [step, Strands, waits]
    by_cases other : call.about ≠ paymentID
    · have quiet : (Work.call call).captures paymentID = false := by
        cases call with
        | authorize | void => rfl
        | capture => exact beq_eq_false_iff_ne.mpr other
      rw [open_idle waits quiet (Call.finish_other other)]
      simp only [opened, true_iff]
      cases call with
      | authorize | void => exact fun strands => other strands.1
      | capture => exact fun strands => other strands.1
    · have here := not_not.mp other
      have found' : s.db.payment call.about = some row := by rw [here, found]
      cases call with
      | authorize cmd =>
        have quiet : (call (.authorize cmd)).captures paymentID = false := rfl
        have about : cmd.paymentID = paymentID := here
        simp only [about, true_and]
        cases answered : result.outcome with
        | approved =>
          have entered := authorizeFinish_approved cfg mint found' admitted answered
          have state := (entered.stateOf paymentID).trans (if_pos named)
          exact iff_of_true (open_of_state state (.inl rfl)) (by simp)
        | declined =>
          have entered := authorizeFinish_declined cfg mint found' admitted answered
          have state := (entered.stateOf paymentID).trans (if_pos named)
          exact iff_of_false (not_open_of_state state (.inl rfl)) (not_not_intro rfl)
        | pending =>
          have same := authorizeFinish_undecided cfg mint cmd s.db (.inl answered)
          exact iff_of_true ((open_idle waits quiet (stateOf_visible same _)).mpr opened) (by simp)
        | unknown =>
          have same := authorizeFinish_undecided cfg mint cmd s.db (.inr answered)
          exact iff_of_true ((open_idle waits quiet (stateOf_visible same _)).mpr opened) (by simp)
      | capture orderID captured pspKey providerAuthID =>
        have about : captured = paymentID := here
        simp only [about, true_and, Call.finish, separate, ↓reduceIte]
        rw [about] at found'
        by_cases approved : result.outcome = .approved
        · have entered := settleCapture_approved mint pspKey found admitted approved
          have state := (entered.stateOf paymentID).trans (if_pos named)
          exact iff_of_true (open_of_state state (.inr rfl)) fun strands =>
            strands.2.1 approved
        · rw [open_ended opened (stateOf_visible (settleCapture_unapproved approved s.db) _)]
          simp only [ne_eq, approved, not_false_eq_true, true_and]
      | void orderID voided pspKey =>
        have quiet : (call (.void orderID voided pspKey)).captures paymentID = false := rfl
        have about : voided = paymentID := here
        simp only [about, true_and, Call.finish]
        by_cases approved : result.outcome = .approved
        · have entered := voidFinish_approved mint orderID pspKey found admitted approved
          have state := (entered.stateOf paymentID).trans (if_pos named)
          exact iff_of_false (not_open_of_state state (.inr rfl)) (not_not_intro approved)
        · exact iff_of_true ((open_idle waits quiet (stateOf_visible
            (voidFinish_unapproved approved s.db) _)).mpr opened) approved
  · simp only [step, Strands, waits, not_false_eq_true, opened]

theorem open_apply_iff (admits : s.db.Admitted) (opened : s.Open paymentID) (i : ι) (mint : Mint) :
    (s.step cfg key (.apply i mint)).Open paymentID ↔ ¬s.Strands key paymentID (.apply i mint) := by
  obtain ⟨row, found, -⟩ := opened.found
  have admitted : row.admissible = true := admits row (mem_of_find found)
  have named : row.id = paymentID := key_of_find found
  rcases waits : s.work i with _ | ⟨call⟩ | ⟨cb, about⟩
  · simp only [step, Strands, waits, not_false_eq_true, opened]
  · simp only [step, Strands, waits, not_false_eq_true, opened]
  · simp only [step, Strands, waits]
    have quiet : (callback cb about).captures paymentID = false := rfl
    by_cases other : about ≠ paymentID
    · have state : ((handleCallback key mint cb about).inTx s.db).stateOf paymentID =
          s.db.stateOf paymentID := by
        rcases handleCallback_inTx_cases key mint cb about s.db with
          ⟨same, -⟩ | ⟨-, old, after, event, there, change, wrote⟩
        · exact stateOf_congr same paymentID
        · have about' : old.id = about := key_of_find there
          rw [wrote.stateOf, if_neg]
          cases change <;> exact about' ▸ other
      exact iff_of_true ((open_idle waits quiet state).mpr opened) fun strands => other strands.1
    · obtain rfl := not_not.mp other
      simp only [true_and]
      by_cases fresh : key cb.providerRef cb.kind ∈ s.db.processed
      · rw [handleCallback_again fresh]
        exact iff_of_true ((open_idle waits quiet rfl).mpr opened) fun strands => strands.1 fresh
      · simp only [fresh, not_false_eq_true, true_and]
        have held := stateOf_of_found found
        rcases handleCallback_cases mint fresh found admitted with
          ⟨ignored, after⟩ | ⟨refused, after⟩ | ⟨after, event, enters, entered⟩
        · rw [after]
          apply iff_of_true ((open_idle waits quiet rfl).mpr opened)
          rw [held]
          cases ignored with
          | unsuccessful kind success => simp [kind]
          | known kind known => simp [kind]
          | late kind known => cases known <;> simp [*]
          | refunded kind => simp [kind]
        · rw [after]
          apply iff_of_true ((open_idle waits quiet rfl).mpr opened)
          cases refused with
          | mismatch kind success unknown differs => simp [kind]
          | uncovered kind uncovered => simp [kind]
        · have own : after.id = about := by
            cases enters <;> exact named
          have state := (entered.stateOf about).trans (if_pos own)
          cases enters with
          | authorized kind success unknown agrees =>
            exact iff_of_true (open_of_state state (.inl rfl)) (by simp [kind])
          | captured kind covers =>
            exact iff_of_true (open_of_state state (.inr rfl)) (by simp [kind])
          | failed kind unknown =>
            apply iff_of_false (not_open_of_state state (.inl rfl))
            rcases opened with authorized | captured | ⟨capturing, -⟩
            · exact absurd (.inl (some.inj (held.symm.trans authorized))) unknown
            · exact absurd (.inr (some.inj (held.symm.trans captured))) unknown
            · exact not_not_intro (.inr ⟨kind, capturing⟩)
          | voided kind =>
            exact iff_of_false (not_open_of_state state (.inr rfl)) (not_not_intro (.inl kind))

/-- **Step lemma.** A step strands an open payment exactly where `Strands` says so. -/
theorem open_step_iff (admits : s.db.Admitted) (separate : cfg.supportsCapture none = true)
    (opened : s.Open paymentID) (turn : Turn ι) :
    (s.step cfg key turn).Open paymentID ↔ ¬s.Strands key paymentID turn := by
  cases turn with
  | start i eventID command mint => exact iff_of_true (opened.start i eventID command mint) id
  | answer i result mint => exact open_answer_iff admits separate opened i result mint
  | receive i cb =>
    cases busy : s.work i with
    | some work => simp only [step, busy, Strands, opened, not_false_eq_true]
    | none =>
      simp only [step, busy, Strands, not_false_eq_true, iff_true]
      apply (Open.congr _ _).mpr opened
      · rfl
      · apply capturing_update
        rw [busy, lookup]
        split
        · cases s.db.paymentByMerchantRef cb.orderID <;> rfl
        · rfl
  | apply i mint => exact open_apply_iff admits opened i mint
  | crash i =>
    simp only [step, Strands]
    by_cases attempts : s.Capturing paymentID i
    · rw [open_ended opened rfl]
      simp only [attempts, true_and]
    · simp only [attempts, false_and, and_false, not_false_eq_true, iff_true]
      apply (Open.congr _ _).mpr opened
      · rfl
      · apply capturing_update
        exact (Bool.eq_false_iff.mpr attempts).symm

end Service

/-- A further capture command calls the provider under the derived key, or announces the capture
again once the payment is `CAPTURED`. -/
def Retries (cfg : Config) (db : Database) (paymentID : ID) : Prop :=
  ∀ (eventID orderID idempotencyKey : ID) (mint : Mint), eventID ∉ db.processed →
    (∀ record ∈ db.outbox, record.eventID ≠ mint.eventID) →
    ∃ row, db.payment paymentID = some row ∧
      ((start cfg mint eventID (.capture orderID paymentID idempotencyKey) db).2 =
          some (.capture orderID paymentID (cfg.derive .capture orderID idempotencyKey)
            row.providerAuthID) ∨
        row.state = .captured ∧
          (start cfg mint eventID (.capture orderID paymentID idempotencyKey) db).2 = none ∧
          (start cfg mint eventID (.capture orderID paymentID idempotencyKey) db).1.outbox =
            db.outbox ++ [⟨mint.eventID, .captured row.orderID row.id ⟨row.amount, row.currency⟩⟩])

section

variable {cfg : Config} {db : Database} {paymentID : ID}

theorem run_captureStart {row : Payment} {eventID : ID} (mint : Mint)
    (fresh : eventID ∉ db.processed) (found : db.payment paymentID = some row)
    (admits : row.admissible = true) :
    (captureStart mint eventID paymentID).run db =
      if row.state = .captured then
        (.ok none, { db.claim [eventID] with
          outbox := insertNew OutboxRecord.eventID db.outbox
            ⟨mint.eventID, .captured row.orderID row.id ⟨row.amount, row.currency⟩⟩ })
      else if row.state ≠ .authorized then (.error (.cannotCapture row.state), db.claim [eventID])
      else (.ok (some row), (db.claim [eventID]).putPayment (row.withState .capturing {})) := by
  have there : (db.claim [eventID]).payment row.id = some row := payment_of_find found
  unfold captureStart
  rw [run_bind, run_claimEvent]
  simp only [List.contains_eq_mem, fresh, decide_false, Bool.not_false, Bool.false_eq_true,
    ↓reduceIte, run_bind, run_getPaymentForUpdate, payment_claim, found]
  split
  · rfl
  · split
    · rfl
    · rw [run_bind, run_updatePaymentState there,
        if_pos (row.admissible_withState admits _ rfl)]
      rfl

/-- A capture command goes ahead, or announces the capture again, in two states. -/
theorem retries_iff (admits : db.Admitted) :
    Retries cfg db paymentID ↔
      db.stateOf paymentID = some .authorized ∨ db.stateOf paymentID = some .captured := by
  constructor
  · intro retries
    obtain ⟨eventID, fresh⟩ := Infinite.exists_notMem_finset db.processed.toFinset
    obtain ⟨recordID, unused⟩ :=
      Infinite.exists_notMem_finset (db.outbox.map OutboxRecord.eventID).toFinset
    rw [List.mem_toFinset] at fresh unused
    obtain ⟨row, found, asks⟩ := retries eventID 0 0 ⟨recordID, 0⟩ fresh
      fun record member same => unused (List.mem_map.mpr ⟨record, member, same⟩)
    rw [stateOf_of_found found, some.injEq, some.injEq]
    by_contra neither
    rw [not_or] at neither
    have ran := run_captureStart ⟨recordID, 0⟩ fresh found (admits row (mem_of_find found))
    rw [if_neg neither.2, if_pos neither.1] at ran
    simp only [start, firstTx, run_bind, ran, reduceCtorEq, false_or] at asks
    exact neither.2 asks.1
  · intro held eventID orderID idempotencyKey mint fresh unused
    have settled : ∃ row, db.payment paymentID = some row ∧
        (row.state = .authorized ∨ row.state = .captured) := by
      rcases held with held | held
      all_goals
        obtain ⟨row, found, state⟩ := found_of_stateOf held
        exact ⟨row, found, by simp [state]⟩
    obtain ⟨row, found, state⟩ := settled
    have ran := run_captureStart mint fresh found (admits row (mem_of_find found))
    apply Exists.intro row
    constructor
    · exact found
    · cases state with
      | inl authorized =>
        apply Or.inl
        have named : row.id = paymentID := key_of_find found
        rw [if_neg (by simp [authorized]), if_neg (by simp [authorized])] at ran
        simp only [start, firstTx, run_bind, run_pure, ran, map_some, named]
      | inr captured =>
        apply Or.inr
        rw [if_pos captured, insertNew_of_absent unused] at ran
        simp only [start, firstTx, run_bind, run_pure, ran, map_none, captured, and_self]

end

/-- **A capture is retried until it succeeds.** An authorized payment can be captured by a
further command throughout a run, between the attempts that are under way, exactly where no step
of the run ends the last attempt without an approval while the payment is still `CAPTURING`, or
writes `FAILED` or `VOIDED` over the payment. -/
theorem capture_retried_iff {ι : Type} [DecidableEq ι] {cfg : Config} {key : CallbackKey}
    {s : Service ι} {paymentID : ID} (reached : (serving ι cfg key).Reachable s)
    (separate : cfg.supportsCapture none = true)
    (authorized : s.db.stateOf paymentID = some .authorized) (turns : List (Turn ι)) :
    (∀ front, front <+: turns → Retries cfg (front.foldl (step cfg key) s).db paymentID ∨
          (front.foldl (step cfg key) s).db.stateOf paymentID = some .capturing ∧
            ∃ i, (front.foldl (step cfg key) s).Capturing paymentID i) ↔
      ∀ front turn, front ++ [turn] <+: turns →
        ¬(front.foldl (step cfg key) s).Strands key paymentID turn := by
  have start : s.db.Admitted := by
    apply reached.invariant
    · rintro _ rfl row member
      cases member
    · rintro s turn _ admits rfl
      exact step_admitted admits
  have admitted : ∀ t, (System.ofFunction s (step cfg key)).Reachable t → t.db.Admitted := by
    intro t later
    apply later.invariant
    · rintro _ rfl
      exact start
    · rintro s turn _ admits rfl
      exact step_admitted admits
  rw [← System.throughout_iff (P := fun t => t.Open paymentID) (.inl authorized)
    fun t turn later opened => open_step_iff (admitted t later) separate opened turn]
  apply forall_congr'
  intro front
  apply imp_congr_right
  intro _
  rw [retries_iff (admitted _ (.foldl front))]
  exact or_assoc

scoped instance two : NeZero 2 := ⟨by decide⟩

def authorization : List (Turn (Fin 2)) :=
  [.start 0 501 (.authorize authorizeOrder) ⟨601, 701⟩,
    .answer 0 { outcome := .approved } ⟨602, 702⟩]

def authorizedOrder : Service (Fin 2) :=
  authorization.foldl (step mocked callbackKeys) {}

theorem authorizedOrder_reachable :
    (serving (Fin 2) mocked callbackKeys).Reachable authorizedOrder :=
  .foldl authorization

/-- The provider's answer to its capture is lost, after a callback has reported the capture. -/
def reportedMeanwhile : List (Turn (Fin 2)) :=
  [.start 0 503 (.capture 20 30 7) ⟨603, 703⟩, .receive 1 captureCallback, .apply 1 ⟨604, 704⟩,
    .answer 0 { outcome := .unknown } ⟨605, 705⟩]

theorem reported_capture_retried :
    Retries mocked (reportedMeanwhile.foldl (step mocked callbackKeys) authorizedOrder).db 30 := by
  have permits : System.Permits (step mocked callbackKeys)
      (fun s turn => ¬s.Strands callbackKeys 30 turn) reportedMeanwhile authorizedOrder := by
    decide +kernel
  have retried := (capture_retried_iff authorizedOrder_reachable (by decide) (by decide +kernel)
    reportedMeanwhile).mpr (fun front turn taken => permits.step taken) reportedMeanwhile
      List.prefix_rfl
  apply retried.resolve_right
  rintro ⟨held, -⟩
  exact absurd held (by decide +kernel)

def failedCapture : List (Turn (Fin 2)) :=
  [.start 0 503 (.capture 20 30 7) ⟨603, 703⟩, .answer 0 { outcome := .unknown } ⟨604, 704⟩]

/-- After that no further command captures the payment. -/
theorem failed_capture_not_retried : ¬ ∀ (cfg : Config) (key : CallbackKey)
    (s t : Service (Fin 2)) (paymentID : ID), (serving (Fin 2) cfg key).Reachable s →
    cfg.supportsCapture none = true → s.db.stateOf paymentID = some .authorized →
    (serving (Fin 2) cfg key).Leads s t → (∀ i, ¬t.Capturing paymentID i) →
    Retries cfg t.db paymentID := by
  intro retried
  have attempted : (serving (Fin 2) mocked callbackKeys).Leads authorizedOrder
      (failedCapture.foldl (step mocked callbackKeys) authorizedOrder) :=
    .foldl failedCapture authorizedOrder
  have retries := retried mocked callbackKeys _ _ 30 authorizedOrder_reachable rfl
    (by decide +kernel) attempted (by decide +kernel)
  have admits : (failedCapture.foldl (step mocked callbackKeys) authorizedOrder).db.Admitted := by
    unfold Database.Admitted
    decide +kernel
  rw [retries_iff admits] at retries
  revert retries
  decide +kernel

end Souq.Payments
