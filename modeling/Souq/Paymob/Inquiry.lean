import Mathlib.Data.List.Nodup
import Souq.Paymob.Signature

/-!
# Replaying an order Paymob has seen

When Paymob refuses an order as a duplicate, the adapter asks for its transactions, prefers one
of them and answers with its outcome. The preferred one is the newest of the successful ones, or
the newest of all. A void or a refund is a flag of a successful transaction, so a newer payment
that was reversed hides an older one that was not, and a newer failure hides one that is still
pending: `truthful_iff`.
-/

namespace Souq.Paymob

open List

open Payments (Outcome ReasonCode)

/-- A transaction of an order. -/
structure PaymobTransaction where
  id : Int
  pending : Bool := false
  success : Bool := false
  isVoided : Bool := false
  isRefunded : Bool := false
  message : String := ""
  txnResponseCode : String := ""
  deriving DecidableEq

/-- An order as Paymob reports it. -/
structure PaymobOrder where
  id : Int
  transactions : List PaymobTransaction

/-- What the adapter answers; the raw response for the log is left out. -/
structure AuthorizeResult where
  outcome : Outcome
  providerRef : String := ""
  orderRef : String := ""
  redirectURL : String := ""
  reasonCode : Option ReasonCode := none
  declineCode : String := ""

/-- One turn of the loop of `latestTransaction`. -/
def better (best t : PaymobTransaction) : PaymobTransaction :=
  if t.success && !best.success then t
  else if t.success = best.success ∧ t.id > best.id then t
  else best

def latestTransaction : List PaymobTransaction → Option PaymobTransaction
  | [] => none
  | t :: txns => some (txns.foldl better t)

namespace Adapter

variable (p : Adapter)

def fromTransaction (t : PaymobTransaction) (orderID : Int) : AuthorizeResult :=
  let refs : AuthorizeResult :=
    { outcome := .declined, providerRef := toString t.id, orderRef := toString orderID }
  if t.success && !t.isVoided && !t.isRefunded then { refs with outcome := .approved }
  else if t.pending then { refs with outcome := .pending }
  else if t.isVoided || t.isRefunded then { refs with reasonCode := some .cardDeclined }
  else
    { refs with
      reasonCode := some (p.mapDeclineCode t.txnResponseCode t.message)
      declineCode := t.txnResponseCode }

/-- The answer, and the error it comes with. The inquiry and the request of a payment key for
an order without a transaction may fail. -/
def replayExisting (order : Except String PaymobOrder) (paymentKey : Int → Except String String)
    (iframeURL : String → String) : AuthorizeResult × Option String :=
  match order with
  | .error e =>
    ({ outcome := .unknown }, some ("psp: outcome unknown, reconciliation required: " ++ e))
  | .ok order =>
    match latestTransaction order.transactions with
    | some txn => (p.fromTransaction txn order.id, none)
    | none =>
      match paymentKey order.id with
      | .error e => ({ outcome := .unknown }, some e)
      | .ok key =>
        ({ outcome := .pending, orderRef := toString order.id, redirectURL := iframeURL key },
          none)

end Adapter

namespace PaymobTransaction

/-- The money of a transaction was taken and not given back. -/
def Stands (t : PaymobTransaction) : Prop :=
  t.success = true ∧ t.isVoided = false ∧ t.isRefunded = false

instance (t : PaymobTransaction) : Decidable t.Stands := by
  unfold Stands
  infer_instance

/-- A successful transaction outranks another one, and of two alike the newer one does. -/
def Outranks (t s : PaymobTransaction) : Prop :=
  (t.success = true ∧ s.success = false) ∨ (t.success = s.success ∧ s.id < t.id)

instance (t s : PaymobTransaction) : Decidable (t.Outranks s) := by
  unfold Outranks
  infer_instance

/-- The first of the transactions that nothing outranks. -/
structure Preferred (txns : List PaymobTransaction) (t : PaymobTransaction) : Prop where
  member : t ∈ txns
  first : ∀ s ∈ txns, ¬s.Outranks t

variable {txns : List PaymobTransaction} {t s u : PaymobTransaction}

theorem Outranks.trans (left : t.Outranks s) (right : s.Outranks u) : t.Outranks u := by
  unfold Outranks at *
  grind

theorem outranks_total (differ : t.id ≠ s.id) : t.Outranks s ∨ s.Outranks t := by
  unfold Outranks
  cases t.success <;> cases s.success <;> simp <;> omega

theorem better_eq (best t : PaymobTransaction) :
    better best t = if t.Outranks best then t else best := by
  unfold better Outranks
  grind

theorem Preferred.better {best : PaymobTransaction} (preferred : Preferred txns best)
    (t : PaymobTransaction) : Preferred (txns ++ [t]) (better best t) := by
  have irreflexive : ¬t.Outranks t := by
    unfold Outranks
    simp
  rw [better_eq]
  split
  · next above =>
      constructor
      · exact mem_append_right _ mem_cons_self
      · intro s member outranks
        cases mem_append.mp member with
        | inl seen => exact preferred.first s seen (outranks.trans above)
        | inr last => exact irreflexive (mem_singleton.mp last ▸ outranks)
  · next below =>
      constructor
      · exact mem_append_left _ preferred.member
      · intro s member outranks
        cases mem_append.mp member with
        | inl seen => exact preferred.first s seen outranks
        | inr last => exact below (mem_singleton.mp last ▸ outranks)

theorem Preferred.foldl {best : PaymobTransaction} (preferred : Preferred txns best) :
    ∀ rest, Preferred (txns ++ rest) (rest.foldl Paymob.better best) := by
  intro rest
  induction rest generalizing txns best with
  | nil => simpa using preferred
  | cons t rest ih =>
    have next := ih (preferred.better t)
    rw [append_assoc] at next
    exact next

theorem latestTransaction_preferred (found : latestTransaction txns = some t) :
    Preferred txns t := by
  cases txns with
  | nil => exact absurd found (by simp [latestTransaction])
  | cons first rest =>
    have start : Preferred [first] first := by
      constructor
      · exact mem_cons_self
      · intro s member outranks
        obtain rfl := mem_singleton.mp member
        simp [Outranks] at outranks
    have result : rest.foldl Paymob.better first = t := Option.some.inj found
    exact result ▸ start.foldl rest

theorem latestTransaction_isSome (nonempty : txns ≠ []) : ∃ t, latestTransaction txns = some t := by
  cases txns with
  | nil => exact absurd rfl nonempty
  | cons first rest => exact ⟨_, rfl⟩

theorem Preferred.outranks (distinct : (txns.map (·.id)).Nodup) (preferred : Preferred txns t)
    (member : s ∈ txns) (other : s ≠ t) : t.Outranks s := by
  have differ : t.id ≠ s.id := by
    intro same
    exact other (inj_on_of_nodup_map distinct member preferred.member same.symm)
  cases outranks_total differ with
  | inl above => exact above
  | inr below => exact absurd below (preferred.first s member)

theorem Preferred.unique (distinct : (txns.map (·.id)).Nodup) (left : Preferred txns t)
    (right : Preferred txns s) : t = s := by
  by_contra differ
  exact right.first t left.member (left.outranks distinct right.member (Ne.symm differ))

theorem latestTransaction_perm {other : List PaymobTransaction}
    (distinct : (txns.map (·.id)).Nodup) (same : txns.Perm other) :
    latestTransaction txns = latestTransaction other := by
  cases found : latestTransaction txns with
  | none =>
    have empty : txns = [] := by
      by_contra nonempty
      obtain ⟨t, found'⟩ := latestTransaction_isSome nonempty
      rw [found] at found'
      cases found'
    subst empty
    rw [← same.nil_eq, found]
  | some t =>
    have preferred := latestTransaction_preferred found
    have nonempty : other ≠ [] := ne_nil_of_mem (same.mem_iff.mp preferred.member)
    obtain ⟨s, found'⟩ := latestTransaction_isSome nonempty
    have preferred' := latestTransaction_preferred found'
    have moved : Preferred txns s :=
      ⟨same.mem_iff.mpr preferred'.member,
        fun u member => preferred'.first u (same.mem_iff.mp member)⟩
    rw [found', preferred.unique distinct moved]

def Shown (P : PaymobTransaction → Prop) (txns : List PaymobTransaction) : Prop :=
  (∃ t ∈ txns, P t) → ∀ s ∈ txns, ¬P s → ∃ t ∈ txns, P t ∧ t.Outranks s

theorem Preferred.shown (distinct : (txns.map (·.id)).Nodup) (preferred : Preferred txns t)
    {P : PaymobTransaction → Prop} : Shown P txns ↔ ((∃ s ∈ txns, P s) → P t) := by
  constructor
  · intro shown some'
    by_contra lacks
    obtain ⟨s, member, -, outranks⟩ := shown some' t preferred.member lacks
    exact preferred.first s member outranks
  · intro has some' s member lacks
    have other : s ≠ t := fun same => lacks (same ▸ has some')
    exact ⟨t, preferred.member, has some', preferred.outranks distinct member other⟩

end PaymobTransaction

open PaymobTransaction

/-- The answer says what became of the money. -/
structure AuthorizeResult.Truthful (res : AuthorizeResult) (txns : List PaymobTransaction) :
    Prop where
  approved : res.outcome = .approved ↔ ∃ t ∈ txns, t.Stands
  pending : (∀ t ∈ txns, ¬t.Stands) → (txns = [] ∨ ∃ t ∈ txns, t.pending = true) →
    res.outcome = .pending
  declined : res.outcome = .declined → txns ≠ [] ∧ ∀ t ∈ txns, ¬t.Stands ∧ t.pending = false

namespace Adapter

variable {p : Adapter} {txns : List PaymobTransaction} {t : PaymobTransaction}
  {orderID : Int} {paymentKey : Int → Except String String} {iframeURL : String → String}

theorem fromTransaction_outcome : (p.fromTransaction t orderID).outcome =
    if t.Stands then .approved else if t.pending then .pending else .declined := by
  unfold fromTransaction Stands
  grind

theorem fromTransaction_truthful (member : t ∈ txns) :
    (p.fromTransaction t orderID).Truthful txns ↔ ((∃ s ∈ txns, s.Stands) → t.Stands) ∧
        ((∀ s ∈ txns, ¬s.Stands) → (∃ s ∈ txns, s.pending = true) → t.pending = true) := by
  have nonempty : txns ≠ [] := ne_nil_of_mem member
  constructor
  · intro truthful
    have outcome := @fromTransaction_outcome p t orderID
    constructor
    · intro some'
      have approved := truthful.approved.mpr some'
      grind
    · intro none' some'
      have pending := truthful.pending none' (.inr some')
      grind
  · rintro ⟨stands, pending⟩
    constructor
    · rw [fromTransaction_outcome]
      grind
    · intro none' some'
      have awaits := pending none' (some'.resolve_left nonempty)
      rw [fromTransaction_outcome, if_neg (none' t member), if_pos awaits]
    · rw [fromTransaction_outcome]
      grind

/-- What the adapter answers when the inquiry reports these transactions. -/
def replayOf (p : Adapter) (orderID : Int) (paymentKey : Int → Except String String)
    (iframeURL : String → String) (txns : List PaymobTransaction) : AuthorizeResult :=
  (p.replayExisting (.ok ⟨orderID, txns⟩) paymentKey iframeURL).1

theorem replayOf_perm {other : List PaymobTransaction} (distinct : (txns.map (·.id)).Nodup)
    (same : txns.Perm other) :
    p.replayOf orderID paymentKey iframeURL txns =
      p.replayOf orderID paymentKey iframeURL other := by
  unfold replayOf replayExisting
  simp only [latestTransaction_perm distinct same]

theorem replayOf_found (found : latestTransaction txns = some t) :
    p.replayOf orderID paymentKey iframeURL txns = p.fromTransaction t orderID := by
  unfold replayOf replayExisting
  simp only [found]

theorem replayOf_refused {e : String} (refused : paymentKey orderID = .error e) :
    p.replayOf orderID paymentKey iframeURL [] = { outcome := .unknown } := by
  simp only [replayOf, replayExisting, latestTransaction, refused]

theorem replayOf_issued {key : String} (issued : paymentKey orderID = .ok key) :
    p.replayOf orderID paymentKey iframeURL [] =
      { outcome := .pending, orderRef := toString orderID, redirectURL := iframeURL key } := by
  simp only [replayOf, replayExisting, latestTransaction, issued]

theorem replayOf_nil :
    (p.replayOf orderID paymentKey iframeURL []).Truthful [] ↔
      ∃ key, paymentKey orderID = .ok key := by
  cases answer : paymentKey orderID with
  | error e =>
    rw [replayOf_refused answer]
    constructor
    · intro truthful
      have pending := truthful.pending (by simp) (.inl rfl)
      cases pending
    · rintro ⟨key, issued⟩
      cases issued
  | ok key =>
    rw [replayOf_issued answer]
    constructor
    · exact fun _ => ⟨key, rfl⟩
    · intro _
      constructor <;> simp

/-- The answer about an order tells the truth, whatever the order of its transactions, exactly
where no reversed payment outranks the ones that stand, no other attempt outranks the ones that
are still pending while none stands, and a payment key is issued where there is no transaction. -/
theorem truthful_iff (distinct : (txns.map (·.id)).Nodup) :
    ((p.replayOf orderID paymentKey iframeURL txns).Truthful txns ∧ ∀ other, txns.Perm other →
          (p.replayOf orderID paymentKey iframeURL other).outcome =
              (p.replayOf orderID paymentKey iframeURL txns).outcome ∧
            (p.replayOf orderID paymentKey iframeURL other).providerRef =
              (p.replayOf orderID paymentKey iframeURL txns).providerRef) ↔
      Shown Stands txns ∧ ((∀ t ∈ txns, ¬t.Stands) → Shown (·.pending = true) txns) ∧
        (txns = [] → ∃ key, paymentKey orderID = .ok key) := by
  have ordered : ∀ other, txns.Perm other → p.replayOf orderID paymentKey iframeURL other =
        p.replayOf orderID paymentKey iframeURL txns :=
    fun other same => (replayOf_perm distinct same).symm
  have settled : ((p.replayOf orderID paymentKey iframeURL txns).Truthful txns) ↔
      Shown Stands txns ∧ ((∀ t ∈ txns, ¬t.Stands) → Shown (·.pending = true) txns) ∧
        (txns = [] → ∃ key, paymentKey orderID = .ok key) := by
    by_cases nonempty : txns = []
    · subst nonempty
      rw [replayOf_nil]
      simp [Shown]
    · obtain ⟨t, found⟩ := latestTransaction_isSome nonempty
      have preferred := latestTransaction_preferred found
      rw [replayOf_found found, fromTransaction_truthful preferred.member,
        preferred.shown distinct, preferred.shown distinct]
      simp only [nonempty, false_implies, and_true]
  constructor
  · intro holds
    exact settled.mp holds.1
  · intro shown
    exact ⟨settled.mpr shown, fun other same => by rw [ordered other same]; exact ⟨rfl, rfl⟩⟩

/-- A failed attempt, a payment that stands, and another failed attempt after it. -/
def retried : List PaymobTransaction :=
  [{ id := 3 }, { id := 2, success := true }, { id := 1, txnResponseCode := "51" }]

theorem retried_truthful :
    (transparent.replayOf 7 (fun _ => .ok "key") id retried).Truthful retried := by
  apply ((@truthful_iff transparent retried 7 (fun _ => .ok "key") id (by decide)).mpr _).1
  constructor
  · intro _
    decide
  · constructor
    · intro none'
      exact absurd ⟨by decide, by decide, by decide⟩
        (none' { id := 2, success := true } (by decide))
    · intro _
      exact ⟨"key", rfl⟩

/-- Two payments of one order, the newer of which was given back. -/
def paidTwice : List PaymobTransaction :=
  [{ id := 1, success := true }, { id := 2, success := true, isRefunded := true }]

/-- The refund of one payment hides the other one, which stands. -/
theorem refund_hides_payment : (paidTwice.map (·.id)).Nodup ∧
    (∃ t ∈ paidTwice, t.Stands) ∧
      (transparent.replayOf 7 (fun _ => .ok "key") id paidTwice).outcome = .declined := by
  constructor
  · decide
  · constructor
    · decide
    · decide

end Adapter

end Souq.Paymob
