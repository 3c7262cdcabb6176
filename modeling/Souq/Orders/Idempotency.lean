import Souq.Orders.Admission

/-!
# Idempotent checkout

The handler of `POST /v1/orders` with `ClaimKey`, `CompleteKey` and `ReleaseKey` of
`order-service/internal/store`. The claim of a key, the order and the response are three
transactions, and a handler can be lost between any two of them. A claim that finds the
key taken reads its record in a second statement, which sees what is committed by then.

The records are what they are in `idempotency_keys`; a key is remembered as purged once
the janitor has deleted an expired record of it. A transaction whose commit fails was
rolled back.
-/

namespace Souq.Orders.Idempotency

open Saga Transition Admission Function List Option

/-- The values of `idempotency_keys.state`. -/
inductive KeyState where
  | inProgress
  | completed
  deriving DecidableEq

/-- The body of an accepted checkout. -/
structure Response where
  orderID : ID
  status : State
  statusUrl : String
  pollAfterMs : Nat

/-- A row of `idempotency_keys`. -/
structure Record where
  userID : ID
  endpoint : String
  requestHash : ID
  state : KeyState := .inProgress
  responseCode : Option Nat := none
  responseBody : Option Response := none
  expiresAt : Time

/-- A row of `orders` with the key it was placed under. -/
structure Placed where
  order : Order
  idempotencyKey : ID

/-- The body that points to an order. -/
def responseFor (ord : Order) : Response where
  orderID := ord.id
  status := ord.status
  statusUrl := s!"/v1/orders/{ord.id}/status"
  pollAfterMs := 500

/-- A request that has been read and decoded. -/
structure Request where
  key : ID
  userID : ID
  hash : ID
  body : Admission.PlaceOrderInput

/-- What the handler passes to `PlaceOrder`: the user of the session, the key of the
header and lines with their number and total. -/
def Request.input (req : Request) : Admission.PlaceOrderInput :=
  { req.body with
    userID := some req.userID
    items := req.body.items.mapIdx fun i it =>
      { it with lineNo := i, lineTotal := mul it.unitPrice it.quantity }
    idempotencyKey := some req.key }

/-- How a request is answered. -/
inductive Reply where
  | accepted (body : Response)
  | replayed (code : Nat) (body : Option Response)
  | keyReused
  | inProgress
  | refused
  | failed

/-- How far a request has come. -/
inductive Phase where
  | claiming
  | looking
  | placing
  | releasing
  | completing (placed : Placed)

def Phase.owns : Phase → Bool
  | .placing | .releasing | .completing _ => true
  | .claiming | .looking => false

def Phase.orders : Phase → List Placed
  | .completing placed => [placed]
  | _ => []

def ttl : Time := 24 * 3600 * 1000000

def claimed (req : Request) (now : Time) : Record where
  userID := req.userID
  endpoint := "POST /v1/orders"
  requestHash := req.hash
  expiresAt := now + ttl

/-- What the claim of a taken key finds. -/
def lookup (req : Request) : Option Record → Reply
  | none => .inProgress
  | some record =>
    if record.userID ≠ req.userID ∨ record.requestHash ≠ req.hash then .keyReused
    else if record.state = .inProgress then .inProgress
    else .replayed (record.responseCode.getD 0) record.responseBody

/-- The record after `CompleteKey`. -/
def Record.complete (ord : Order) (record : Record) : Record :=
  { record with
    state := .completed
    responseCode := some 202
    responseBody := some (responseFor ord) }

/-- The committed tables, the handlers at work, the keys that were purged and the answers
given. -/
structure Checkout (ι : Type) where
  records : ID → Option Record := fun _ => none
  orders : List Placed := []
  handlers : ι → Option (Request × Phase) := fun _ => none
  purged : ID → Bool := fun _ => false
  replies : List (Request × Reply) := []

/-- What can happen next: a request arrives, a handler runs its next statement or
transaction, which may fail, a handler is lost, or the janitor runs. -/
inductive Action (ι : Type) where
  | arrive (i : ι) (req : Request)
  | claim (i : ι) (now : Time) (fails : Bool)
  | look (i : ι) (fails : Bool)
  | place (i : ι) (orderID : ID) (fails : Bool)
  | release (i : ι) (fails : Bool)
  | complete (i : ι) (fails : Bool)
  | crash (i : ι)
  | purge (now : Time)

namespace Checkout

variable {ι : Type} [DecidableEq ι]

def go (s : Checkout ι) (i : ι) (req : Request) (phase : Phase) : Checkout ι :=
  { s with handlers := update s.handlers i (some (req, phase)) }

def answer (s : Checkout ι) (i : ι) (req : Request) (reply : Reply) : Checkout ι :=
  { s with
    handlers := update s.handlers i none
    replies := s.replies ++ [(req, reply)] }

def put (s : Checkout ι) (key : ID) (record : Option Record) : Checkout ι :=
  { s with records := update s.records key record }

/-- The order `PlaceOrder` commits for a request, when it accepts the request and the
identifier it has drawn is new. -/
def placed (toUpper : ToUpper) (number : String → ID) (s : Checkout ι) (req : Request)
    (orderID : ID) : Option Placed :=
  match admission toUpper req.input with
  | .error _ => none
  | .ok total =>
    if s.orders.any fun other => other.order.id == orderID then none
    else (req.input.stored number orderID total).map fun ord => ⟨ord, req.key⟩

/-- A statement of one request, or the purge of a key. -/
def step (toUpper : ToUpper) (number : String → ID) (s : Checkout ι) : Action ι → Checkout ι
  | .arrive i req =>
    match s.handlers i with
    | none => s.go i req .claiming
    | some _ => s
  | .claim i now fails =>
    match s.handlers i with
    | some (req, .claiming) =>
      if fails then s.answer i req .failed
      else
        match s.records req.key with
        | none => (s.put req.key (some (claimed req now))).go i req .placing
        | some _ => s.go i req .looking
    | _ => s
  | .look i fails =>
    match s.handlers i with
    | some (req, .looking) =>
      s.answer i req (if fails then .failed else lookup req (s.records req.key))
    | _ => s
  | .place i orderID fails =>
    match s.handlers i with
    | some (req, .placing) =>
      match if fails then none else s.placed toUpper number req orderID with
      | some placed => { s with orders := s.orders ++ [placed] }.go i req (.completing placed)
      | none => s.go i req .releasing
    | _ => s
  | .release i fails =>
    match s.handlers i with
    | some (req, .releasing) =>
      (if fails then s
        else s.put req.key ((s.records req.key).filter fun record => record.state != .inProgress)
        ).answer i req .refused
    | _ => s
  | .complete i fails =>
    match s.handlers i with
    | some (req, .completing placed) =>
      (if fails then s
        else s.put req.key ((s.records req.key).map (Record.complete placed.order))
        ).answer i req (.accepted (responseFor placed.order))
    | _ => s
  | .crash i => { s with handlers := update s.handlers i none }
  | .purge now =>
    { s with
      records := fun key => (s.records key).filter fun record => decide (now ≤ record.expiresAt)
      purged := fun key => s.purged key ||
        (s.records key).any fun record => decide (record.expiresAt < now) }

/-- The orders placed under a key. -/
def ordersOf (s : Checkout ι) (key : ID) : List Placed :=
  s.orders.filter fun placed => placed.idempotencyKey = key

end Checkout

/-- The runs of concurrent requests. -/
def checkout (ι : Type) [DecidableEq ι] (toUpper : ToUpper) (number : String → ID) :
    System (Checkout ι) (Action ι) :=
  .ofFunction {} (Checkout.step toUpper number)

section Invariant

variable {ι : Type} {s t : Checkout ι} {key : ID}

def InProgress (s : Checkout ι) (key : ID) : Prop :=
  ∃ record, s.records key = some record ∧ record.state = .inProgress

def Owns (s : Checkout ι) (i : ι) (key : ID) (phase : Phase) : Prop :=
  ∃ req, s.handlers i = some (req, phase) ∧ req.key = key ∧ phase.owns = true

def Record.Describes (record : Record) (placed : Placed) : Prop :=
  record.state = .completed ∧ record.responseCode = some 202 ∧
    record.responseBody = some (responseFor placed.order)

/-- What holds for a key that was not purged: at most one handler owns it, its record is
in progress as long as one does, and there is an order once that handler has placed it. -/
structure Guarded (s : Checkout ι) (key : ID) : Prop where
  unique : ∀ i j one two, Owns s i key one → Owns s j key two → i = j
  owned : ∀ i phase, Owns s i key phase → InProgress s key ∧ s.ordersOf key = phase.orders
  free : s.records key = none → s.ordersOf key = []
  done : ∀ record, s.records key = some record → record.state = .completed →
    ∃ placed, s.ordersOf key = [placed] ∧ record.Describes placed
  single : (s.ordersOf key).length ≤ 1

/-- A step that leaves the record and the orders of a key and gives nobody the key keeps
it guarded. -/
theorem Guarded.frame (guarded : Guarded s key) (record : t.records key = s.records key)
    (orders : t.ordersOf key = s.ordersOf key)
    (owners : ∀ i phase, Owns t i key phase → Owns s i key phase) : Guarded t key := by
  refine ⟨fun i j one two first second => ?_, fun i phase owns => ?_, fun absent => ?_,
    fun found here state => ?_, ?_⟩
  · exact guarded.unique i j one two (owners i one first) (owners j two second)
  · obtain ⟨⟨found, here, state⟩, placed⟩ := guarded.owned i phase (owners i phase owns)
    exact ⟨⟨found, record.trans here, state⟩, orders.trans placed⟩
  · rw [orders]
    exact guarded.free (record.symm.trans absent)
  · rw [orders]
    exact guarded.done found (record.symm.trans here) state
  · rw [orders]
    exact guarded.single

variable {i : ι} {h : Option (Request × Phase)} {phase : Phase} {req : Request}

theorem Guarded.own (others : ∀ j phase, Owns t j key phase → j = i)
    (owned : ∀ phase, Owns t i key phase → InProgress t key ∧ t.ordersOf key = phase.orders)
    (free : t.records key = none → t.ordersOf key = [])
    (done : ∀ record, t.records key = some record → record.state = .completed → ∃ placed, t.ordersOf
      key = [placed] ∧ record.Describes placed) (single : (t.ordersOf key).length ≤ 1) :
    Guarded t key := by
  refine ⟨fun j k one two first second => ?_, fun j phase owns => ?_, free, done, single⟩
  · rw [others j one first, others k two second]
  · obtain rfl := others j phase owns
    exact owned phase owns

theorem owns_update [DecidableEq ι] {j : ι} (handlers : t.handlers = update s.handlers i h)
    (owns : Owns t j key phase) :
    (j = i ∧ ∃ req, h = some (req, phase) ∧ req.key = key ∧ phase.owns = true) ∨
      j ≠ i ∧ Owns s j key phase := by
  obtain ⟨req, at', named, holds⟩ := owns
  rw [handlers] at at'
  by_cases same : j = i
  · subst same
    rw [update_self] at at'
    exact .inl ⟨rfl, req, at', named, holds⟩
  · rw [update_of_ne same] at at'
    exact .inr ⟨same, req, at', named, holds⟩

theorem Guarded.leave [DecidableEq ι] (guarded : Guarded s key)
    (handlers : t.handlers = update s.handlers i h)
    (loses : ∀ req phase, h = some (req, phase) → req.key = key → phase.owns = false)
    (record : t.records key = s.records key) (orders : t.ordersOf key = s.ordersOf key) :
    Guarded t key := by
  refine guarded.frame record orders fun j phase owns => ?_
  rcases owns_update handlers owns with ⟨-, req, at', named, holds⟩ | ⟨-, owns⟩
  · rw [loses req phase at' named] at holds
    cases holds
  · exact owns

variable [DecidableEq ι] {toUpper : ToUpper} {number : String → ID}

theorem Guarded.advance (guarded : Guarded s key) (at' : s.handlers i = some (req, phase))
    (named : req.key = key) (holds : phase.owns = true)
    (handlers : t.handlers = update s.handlers i h)
    (owned : ∀ req phase, h = some (req, phase) → phase.owns = true → InProgress t key ∧ t.ordersOf
      key = phase.orders) (free : t.records key = none → t.ordersOf key = [])
    (done : ∀ record, t.records key = some record → record.state = .completed → ∃ placed, t.ordersOf
      key = [placed] ∧ record.Describes placed) (single : (t.ordersOf key).length ≤ 1) :
    Guarded t key := by
  refine Guarded.own (i := i) (fun j next owns => ?_) (fun next owns => ?_) free done single
  · rcases owns_update handlers owns with ⟨same, -⟩ | ⟨-, owns⟩
    · exact same
    · exact guarded.unique j i next phase owns ⟨req, at', named, holds⟩
  · rcases owns_update handlers owns with ⟨-, req, at', -, holds⟩ | ⟨other, -⟩
    · exact owned req next at' holds
    · exact absurd rfl other

theorem Guarded.claim (guarded : Guarded s key) (i : ι) (now : Time) (fails : Bool) :
    Guarded (s.step toUpper number (.claim i now fails)) key := by
  simp only [Checkout.step]
  split
  · rename_i req at'
    split
    · exact guarded.leave rfl (by simp) rfl rfl
    · split
      · rename_i absent
        by_cases named : req.key = key
        · subst named
          have none' : ∀ j phase, ¬ Owns s j req.key phase := by
            intro j phase owns
            obtain ⟨⟨record, found, -⟩, -⟩ := guarded.owned j phase owns
            rw [absent] at found
            cases found
          have here : ((s.put req.key (some (claimed req now))).go i req .placing).records req.key =
              some (claimed req now) := update_self ..
          refine Guarded.own (i := i) (fun j phase owns => ?_) (fun phase owns => ?_)
            (fun free => ?_)
            (fun record found state => ?_) ?_
          · rcases owns_update (s := s) rfl owns with ⟨same, -⟩ | ⟨-, owns⟩
            · exact same
            · exact absurd owns (none' j phase)
          · rcases owns_update (s := s) rfl owns with ⟨-, _, at', -, -⟩ | ⟨other, -⟩
            · cases at'
              exact ⟨⟨_, here, rfl⟩, guarded.free absent⟩
            · exact absurd rfl other
          · rw [here] at free
            cases free
          · rw [here] at found
            cases found
            cases state
          · exact guarded.single
        · refine guarded.leave rfl (fun _ _ at' same => ?_) ?_ rfl
          · cases at'
            exact absurd same named
          · exact update_of_ne (Ne.symm named) ..
      · exact guarded.leave rfl (fun _ _ at' _ => by cases at'; rfl) rfl rfl
  · exact guarded

omit [DecidableEq ι] in
theorem ordersOf_append (s : Checkout ι) (placed : Placed) (key : ID) :
    Checkout.ordersOf { s with orders := s.orders ++ [placed] } key =
      s.ordersOf key ++ if placed.idempotencyKey = key then [placed] else [] := by
  simp only [Checkout.ordersOf, filter_append, filter_singleton]
  by_cases named : placed.idempotencyKey = key <;> simp [named]

omit [DecidableEq ι] in
theorem key_placed {orderID : ID} {fails : Bool} {placed : Placed}
    (places : (if fails then none else s.placed toUpper number req orderID) = some placed) :
    placed.idempotencyKey = req.key := by
  split at places
  · cases places
  · unfold Checkout.placed at places
    split at places
    · cases places
    · split at places
      · cases places
      · obtain ⟨ord, -, rfl⟩ := map_eq_some_iff.mp places
        rfl

theorem Guarded.place (guarded : Guarded s key) (i : ι) (orderID : ID) (fails : Bool) :
    Guarded (s.step toUpper number (.place i orderID fails)) key := by
  simp only [Checkout.step]
  split
  · rename_i req at'
    split
    · rename_i placed places
      have keyed := key_placed places
      have more : Checkout.ordersOf ({ s with orders := s.orders ++ [placed] }.go i req
          (.completing placed)) key = s.ordersOf key ++ if req.key = key then [placed] else [] := by
        rw [← keyed]
        exact ordersOf_append s placed key
      by_cases named : req.key = key
      · obtain ⟨⟨record, here, state⟩, none'⟩ := guarded.owned i .placing ⟨req, at', named, rfl⟩
        rw [if_pos named, none'] at more
        refine guarded.advance at' named rfl (h := some (req, .completing placed)) rfl
          (fun _ phase same _ => ?_) (fun free => ?_) (fun found there completed => ?_) ?_
        · cases same
          exact ⟨⟨record, here, state⟩, more⟩
        · exact absurd (here.symm.trans free) (by simp)
        · cases here.symm.trans there
          rw [state] at completed
          cases completed
        · rw [more]
          exact Nat.le_refl 1
      · refine guarded.leave rfl (fun _ _ same named' => ?_) rfl ?_
        · cases same
          exact absurd named' named
        · rw [more, if_neg named, append_nil]
    · by_cases named : req.key = key
      · obtain ⟨⟨record, here, state⟩, none'⟩ := guarded.owned i .placing ⟨req, at', named, rfl⟩
        refine guarded.advance at' named rfl (h := some (req, .releasing)) rfl
          (fun _ phase same _ => ?_) guarded.free guarded.done guarded.single
        cases same
        exact ⟨⟨record, here, state⟩, none'⟩
      · refine guarded.leave rfl (fun _ _ same named' => ?_) rfl rfl
        cases same
        exact absurd named' named
  · exact guarded

theorem Guarded.release (guarded : Guarded s key) (i : ι) (fails : Bool) :
    Guarded (s.step toUpper number (.release i fails)) key := by
  simp only [Checkout.step]
  split
  · rename_i req at'
    by_cases named : req.key = key
    · subst named
      obtain ⟨⟨record, here, state⟩, none'⟩ := guarded.owned i .releasing ⟨req, at', rfl, rfl⟩
      cases fails with
      | true =>
        exact guarded.advance at' rfl rfl (h := none) rfl (by simp) guarded.free
          guarded.done guarded.single
      | false =>
        have gone : (s.records req.key).filter (fun record => record.state != .inProgress) =
            none := by
          rw [here]
          simp [state]
        refine guarded.advance at' rfl rfl (h := none) rfl (by simp) (fun _ => none')
          (fun found there => ?_) guarded.single
        change update s.records req.key _ req.key = some found at there
        rw [update_self, gone] at there
        cases there
    · refine guarded.leave (i := i) (h := none) ?_ (by simp) ?_ ?_
      · cases fails <;> rfl
      · cases fails
        · exact update_of_ne (Ne.symm named) ..
        · rfl
      · cases fails <;> rfl
  · exact guarded

theorem Guarded.complete (guarded : Guarded s key) (i : ι) (fails : Bool) :
    Guarded (s.step toUpper number (.complete i fails)) key := by
  simp only [Checkout.step]
  split
  · rename_i req placed at'
    by_cases named : req.key = key
    · subst named
      obtain ⟨⟨record, here, state⟩, one⟩ :=
        guarded.owned i (.completing placed) ⟨req, at', rfl, rfl⟩
      cases fails with
      | true =>
        exact guarded.advance at' rfl rfl (h := none) rfl (by simp) guarded.free
          guarded.done guarded.single
      | false =>
        have completed : (s.records req.key).map (Record.complete placed.order) =
            some (record.complete placed.order) := by rw [here, map_some]
        refine guarded.advance at' rfl rfl (h := none) rfl (by simp) (fun absent => ?_)
          (fun found there _ => ?_) guarded.single
        · change update s.records req.key _ req.key = none at absent
          rw [update_self, completed] at absent
          cases absent
        · change update s.records req.key _ req.key = some found at there
          rw [update_self, completed] at there
          cases there
          exact ⟨placed, one, rfl, rfl, rfl⟩
    · refine guarded.leave (i := i) (h := none) ?_ (by simp) ?_ ?_
      · cases fails <;> rfl
      · cases fails
        · exact update_of_ne (Ne.symm named) ..
        · rfl
      · cases fails <;> rfl
  · exact guarded

theorem Guarded.purge (guarded : Guarded s key) (now : Time)
    (kept : (s.step toUpper number (.purge now)).purged key = false) :
    Guarded (s.step toUpper number (.purge now)) key := by
  refine guarded.frame ?_ rfl fun i phase owns => owns
  simp only [Checkout.step, Bool.or_eq_false_iff] at kept ⊢
  cases found : s.records key with
  | none => rfl
  | some record =>
    rw [found] at kept
    simp only [any_some, decide_eq_false_iff_not, Nat.not_lt] at kept
    simp only [filter_some, kept.2, decide_true, ↓reduceIte]

theorem purged_step (action : Action ι)
    (kept : (s.step toUpper number action).purged key = false) : s.purged key = false := by
  have same : (∀ now, action ≠ .purge now) → (s.step toUpper number action).purged = s.purged := by
    intro other
    cases action with
    | purge now => exact absurd rfl (other now)
    | crash i => rfl
    | _ =>
      simp only [Checkout.step]
      (repeat' split) <;> rfl
  cases action with
  | purge now =>
    simp only [Checkout.step, Bool.or_eq_false_iff] at kept
    exact kept.1
  | _ => rwa [same nofun] at kept

/-- **Step lemma.** -/
theorem Guarded.step (guarded : Guarded s key) (action : Action ι)
    (kept : (s.step toUpper number action).purged key = false) :
    Guarded (s.step toUpper number action) key := by
  cases action with
  | arrive i req =>
    simp only [Checkout.step]
    split
    · exact guarded.leave rfl (fun _ _ same _ => by cases same; rfl) rfl rfl
    · exact guarded
  | claim i now fails => exact guarded.claim i now fails
  | look i fails =>
    simp only [Checkout.step]
    split
    · exact guarded.leave rfl (by simp) rfl rfl
    · exact guarded
  | place i orderID fails => exact guarded.place i orderID fails
  | release i fails => exact guarded.release i fails
  | complete i fails => exact guarded.complete i fails
  | crash i => exact guarded.leave rfl (by simp) rfl rfl
  | purge now => exact guarded.purge now kept

/-- What is stored or answered tells of an order that was placed. -/
structure Truthful (s : Checkout ι) : Prop where
  placed : ∀ i req placed, s.handlers i = some (req, .completing placed) →
    placed ∈ s.ordersOf req.key
  stored : ∀ key record, s.records key = some record → record.state = .completed →
    ∃ placed ∈ s.ordersOf key, record.Describes placed
  replayed : ∀ req code body, (req, Reply.replayed code body) ∈ s.replies →
    ∃ placed ∈ s.ordersOf req.key, code = 202 ∧ body = some (responseFor placed.order)

omit [DecidableEq ι] in
theorem Truthful.grow (truthful : Truthful s) (orders : ∀ key, s.ordersOf key ⊆ t.ordersOf key)
    (handlers : ∀ i req placed, t.handlers i = some (req, .completing placed) →
      s.handlers i = some (req, .completing placed) ∨ placed ∈ t.ordersOf req.key)
    (records : ∀ key record, t.records key = some record → record.state = .completed →
      s.records key = some record ∨ ∃ placed ∈ t.ordersOf key, record.Describes placed)
    (replies : ∀ req code body, (req, Reply.replayed code body) ∈ t.replies →
      (req, Reply.replayed code body) ∈ s.replies ∨
        ∃ placed ∈ t.ordersOf req.key, code = 202 ∧ body = some (responseFor placed.order)) :
    Truthful t := by
  refine ⟨fun i req placed at' => ?_, fun key record found state => ?_,
    fun req code body told => ?_⟩
  · exact (handlers i req placed at').elim
      (fun old => orders _ (truthful.placed i req placed old)) id
  · rcases records key record found state with old | new
    · obtain ⟨placed, member, describes⟩ := truthful.stored key record old state
      exact ⟨placed, orders key member, describes⟩
    · exact new
  · rcases replies req code body told with old | new
    · obtain ⟨placed, member, tells⟩ := truthful.replayed req code body old
      exact ⟨placed, orders _ member, tells⟩
    · exact new

omit [DecidableEq ι] in
theorem Truthful.lookup (truthful : Truthful s) {code : Nat} {body : Option Response}
    (replays : Idempotency.lookup req (s.records req.key) = .replayed code body) :
    ∃ placed ∈ s.ordersOf req.key, code = 202 ∧ body = some (responseFor placed.order) := by
  cases found : s.records req.key with
  | none =>
    rw [found] at replays
    cases replays
  | some record =>
    simp only [found, Idempotency.lookup] at replays
    split at replays
    · cases replays
    · split at replays
      · cases replays
      · rename_i finished
        cases replays
        have state : record.state = .completed := by
          cases state : record.state with
          | inProgress => exact absurd state finished
          | completed => rfl
        obtain ⟨placed, member, -, code, body⟩ := truthful.stored req.key record found state
        exact ⟨placed, member, by rw [code]; rfl, body⟩

theorem completing_update {j : ι} {placed : Placed}
    (at' : update s.handlers i h j = some (req, .completing placed)) :
    s.handlers j = some (req, .completing placed) ∨ h = some (req, .completing placed) := by
  by_cases same : j = i
  · subst same
    rw [update_self] at at'
    exact .inr at'
  · rw [update_of_ne same] at at'
    exact .inl at'

theorem replayed_append {replies : List (Request × Reply)} {told : Request} {reply : Reply}
    {code : Nat} {body : Option Response}
    (member : (told, Reply.replayed code body) ∈ replies ++ [(req, reply)]) :
    (told, Reply.replayed code body) ∈ replies ∨ told = req ∧ reply = .replayed code body := by
  rcases mem_append.mp member with old | new
  · exact .inl old
  · cases mem_singleton.mp new
    exact .inr ⟨rfl, rfl⟩

theorem Truthful.go (truthful : Truthful s) (i : ι) (req : Request)
    (own : ∀ placed, phase = .completing placed → placed ∈ s.ordersOf req.key) :
    Truthful (s.go i req phase) := by
  refine truthful.grow (fun _ => List.Subset.refl _) (fun j told placed at' => ?_)
    (fun _ _ found _ => .inl found) fun _ _ _ told => .inl told
  rcases completing_update at' with old | new
  · exact .inl old
  · cases new
    exact .inr (own placed rfl)

theorem Truthful.answer (truthful : Truthful s) (i : ι) (req : Request) {reply : Reply}
    (tells : ∀ code body, reply = .replayed code body →
      ∃ placed ∈ s.ordersOf req.key, code = 202 ∧ body = some (responseFor placed.order)) :
    Truthful (s.answer i req reply) := by
  refine truthful.grow (fun _ => List.Subset.refl _) (fun j told placed at' => ?_)
    (fun _ _ found _ => .inl found) fun told code body member => ?_
  · rcases completing_update at' with old | new
    · exact .inl old
    · cases new
  · rcases replayed_append member with old | ⟨rfl, replays⟩
    · exact .inl old
    · exact .inr (tells code body replays)

omit [DecidableEq ι] in
theorem Truthful.put (truthful : Truthful s) (key : ID) {written : Option Record}
    (tells : ∀ record, written = some record → record.state = .completed →
      s.records key = some record ∨ ∃ placed ∈ s.ordersOf key, record.Describes placed) :
    Truthful (s.put key written) := by
  refine truthful.grow (fun _ => List.Subset.refl _) (fun _ _ _ at' => .inl at')
    (fun other record found state => ?_) fun _ _ _ told => .inl told
  change update s.records key written other = some record at found
  by_cases named : other = key
  · subst named
    rw [update_self] at found
    exact tells record found state
  · rw [update_of_ne named] at found
    exact .inl found

omit [DecidableEq ι] in
theorem Truthful.more (truthful : Truthful s) (placed : Placed) :
    Truthful { s with orders := s.orders ++ [placed] } := by
  refine truthful.grow (fun key => ?_) (fun _ _ _ at' => .inl at')
    (fun _ _ found _ => .inl found) fun _ _ _ told => .inl told
  rw [ordersOf_append]
  exact subset_append_left ..

theorem Truthful.step (truthful : Truthful s) (action : Action ι) :
    Truthful (s.step toUpper number action) := by
  cases action with
  | arrive i req =>
    simp only [Checkout.step]
    split
    · exact truthful.go i req (fun _ same => by cases same)
    · exact truthful
  | claim i now fails =>
    simp only [Checkout.step]
    split
    · rename_i req at'
      split
      · exact truthful.answer i req (fun _ _ same => by cases same)
      · split
        · refine (truthful.put req.key fun record written state => ?_).go i req
            (fun _ same => by cases same)
          cases written
          cases state
        · exact truthful.go i req (fun _ same => by cases same)
    · exact truthful
  | look i fails =>
    simp only [Checkout.step]
    split
    · rename_i req at'
      refine truthful.answer i req fun code body replays => ?_
      cases fails with
      | true => cases replays
      | false => exact truthful.lookup replays
    · exact truthful
  | place i orderID fails =>
    simp only [Checkout.step]
    split
    · rename_i req at'
      split
      · rename_i placed places
        refine (truthful.more placed).go i req fun other same => ?_
        cases same
        rw [ordersOf_append, if_pos (key_placed places)]
        exact mem_append_right _ (mem_singleton.mpr rfl)
      · exact truthful.go i req (fun _ same => by cases same)
    · exact truthful
  | release i fails =>
    simp only [Checkout.step]
    split
    · rename_i req at'
      cases fails with
      | true => exact truthful.answer i req (fun _ _ same => by cases same)
      | false =>
        refine (truthful.put req.key fun record written _ => ?_).answer i req
          (fun _ _ same => by cases same)
        exact .inl (filter_eq_some_iff.mp written).1
    · exact truthful
  | complete i fails =>
    simp only [Checkout.step]
    split
    · rename_i req placed at'
      cases fails with
      | true => exact truthful.answer i req (fun _ _ same => by cases same)
      | false =>
        refine (truthful.put req.key fun record written _ => ?_).answer i req
          (fun _ _ same => by cases same)
        obtain ⟨old, -, rfl⟩ := map_eq_some_iff.mp written
        exact .inr ⟨placed, truthful.placed i req placed at', rfl, rfl, rfl⟩
    · exact truthful
  | crash i =>
    refine truthful.grow (fun _ => List.Subset.refl _) (fun j told placed at' => ?_)
      (fun _ _ found _ => .inl found) fun _ _ _ told => .inl told
    rcases completing_update at' with old | new
    · exact .inl old
    · cases new
  | purge now =>
    refine truthful.grow (fun _ => List.Subset.refl _) (fun _ _ _ at' => .inl at')
      (fun key record found _ => ?_) fun _ _ _ told => .inl told
    exact .inl (filter_eq_some_iff.mp found).1

omit [DecidableEq ι] in
theorem guarded_init (key : ID) : Guarded ({} : Checkout ι) key := by
  refine ⟨fun i j one two owns => ?_, fun i phase owns => ?_, fun _ => rfl,
    fun record found => ?_, Nat.zero_le 1⟩
  · obtain ⟨req, at', -⟩ := owns
    cases at'
  · obtain ⟨req, at', -⟩ := owns
    cases at'
  · cases found

/-- **Run lemma.** Every key that was not purged is guarded in every reachable state. -/
theorem guarded_of_reachable (reached : (checkout ι toUpper number).Reachable s)
    (kept : s.purged key = false) : Guarded s key := by
  have all : ∀ key, s.purged key = false → Guarded s key := by
    refine reached.invariant (I := fun s => ∀ key, s.purged key = false → Guarded s key) ?_ ?_
    · rintro _ rfl key -
      exact guarded_init key
    · rintro s action _ guarded rfl key kept
      exact (guarded key (purged_step action kept)).step action kept
  exact all key kept

theorem truthful_of_reachable (reached : (checkout ι toUpper number).Reachable s) :
    Truthful s := by
  refine reached.invariant ?_ ?_
  · rintro _ rfl
    refine ⟨fun i req placed at' => ?_, fun key record found => ?_, fun req code body told => ?_⟩
    · cases at'
    · cases found
    · cases told
  · rintro s action _ truthful rfl
    exact truthful.step action

end Invariant

/-- **Idempotent checkout.** For any number of concurrent requests, with crashes and failures
anywhere, at most one order is ever placed under a key before its record is purged, and a
replay tells the code and the body stored for the request that placed it. -/
theorem idempotent_checkout {ι : Type} [DecidableEq ι] (toUpper : ToUpper)
    (number : String → ID) {s : Checkout ι} (reached : (checkout ι toUpper number).Reachable s) :
    (∀ key, s.purged key = false → (s.ordersOf key).length ≤ 1) ∧
      ∀ req code body, (req, Reply.replayed code body) ∈ s.replies →
        ∃ placed ∈ s.ordersOf req.key, code = 202 ∧ body = some (responseFor placed.order) :=
  ⟨fun _ kept => (guarded_of_reachable reached kept).single,
    (truthful_of_reachable reached).replayed⟩

def tenPoundRequest : Request where
  key := 9
  userID := 7
  hash := 77
  body := tenPounds

/-- The request is sent twice at once, and once more after it was answered. -/
def retries : List (Action Nat) :=
  [.arrive 0 tenPoundRequest, .arrive 1 tenPoundRequest, .claim 0 1 false, .claim 1 2 false,
    .look 1 false, .place 0 1 false, .complete 0 false, .arrive 1 tenPoundRequest,
    .claim 1 3 false, .look 1 false]

/-- The first one places an order, the second is told to wait and the third is answered with
the response of the first. -/
theorem retries_replayed :
    ((retries.foldl (Checkout.step id fun _ => 11) {}).ordersOf 9).length ≤ 1 ∧
      ∃ placed ∈ (retries.foldl (Checkout.step id fun _ => 11) {}).ordersOf 9,
        (some ⟨1, .pending, "/v1/orders/1/status", 500⟩ : Option Response) =
          some (responseFor placed.order) := by
  obtain ⟨single, replayed⟩ := idempotent_checkout (ι := Nat) id (fun _ => 11) (.foldl retries)
  have told : (retries.foldl (Checkout.step id fun _ => 11) {}).replies[2]? =
      some (tenPoundRequest, .replayed 202 (some ⟨1, .pending, "/v1/orders/1/status", 500⟩)) := rfl
  obtain ⟨placed, member, -, body⟩ := replayed _ _ _ (mem_of_getElem? told)
  exact ⟨single 9 rfl, placed, member, body⟩

end Souq.Orders.Idempotency
