import Mathlib.Data.List.Count
import Souq.Notifications.Delivery

/-!
# No customer is notified twice

A dedupe key is a token: while its row is retained, either one call holds it, or one
release of it is in doubt, or one message was accepted under it, or none of these. Only
the holder sends, and what it does next decides which of the others comes true.
-/

namespace Souq.Notifications

open Transition Function List Nat Notifications

namespace Cluster

section

variable {ι : Type} {s t u : Cluster ι} {key : String} {holder : Option ι}

/-- Nothing has happened that concerns a key, except that its row may have appeared. -/
structure Agrees (key : String) (s t : Cluster ι) : Prop where
  holds : ∀ i, (t.phases i).holds key = (s.phases i).holds key
  doubt : t.doubt.count (.release key) = s.doubt.count (.release key)
  accepted : ∀ period, t.accepted.count (key, period) = s.accepted.count (key, period)
  expiries : t.expiries key = s.expiries key
  dedupe : s.dedupe key = true → t.dedupe key = true

/-- How often the token of a key was handed out and not given back. -/
def spent (s : Cluster ι) (key : String) (holder : Option ι) : Nat :=
  holder.toList.length + s.doubt.count (.release key) + s.accepted.count (key, s.expiries key)

/-- One holder of the key may still send, and at most one message was accepted. -/
structure Token (s : Cluster ι) (key : String) (holder : Option ι) : Prop where
  holds : ∀ i, (s.phases i).holds key = true ↔ holder = some i
  once : s.spent key holder ≤ 1
  retained : 0 < s.spent key holder → s.dedupe key = true
  accepted : ∀ period, s.accepted.count (key, period) ≤ 1
  later : ∀ period, s.expiries key < period → s.accepted.count (key, period) = 0

theorem Agrees.spent (agrees : Agrees key s t) (holder : Option ι) :
    t.spent key holder = s.spent key holder := by
  unfold Cluster.spent
  rw [agrees.doubt, agrees.expiries, agrees.accepted]

theorem Token.agrees (token : Token s key holder) (agrees : Agrees key s t) :
    Token t key holder where
  holds := fun i => by
    rw [agrees.holds i]
    exact token.holds i
  once := by
    rw [agrees.spent]
    exact token.once
  retained := by
    rw [agrees.spent]
    exact fun positive => agrees.dedupe (token.retained positive)
  accepted := fun period => by
    rw [agrees.accepted]
    exact token.accepted period
  later := fun period => by
    rw [agrees.expiries, agrees.accepted]
    exact token.later period

theorem not_holds_of_over {phase : Phase} (ended : phase.over = true) (key : String) :
    phase.holds key = false := by
  cases phase with
  | idle => rfl
  | returned outcome => rfl
  | threw => rfl
  | claiming cmd => rfl
  | screening | sending | releasing => cases ended

theorem agrees_perform_claim (s : Cluster ι) (key other : String) :
    Agrees key s (s.perform (.claim other)) where
  holds := fun _ => rfl
  doubt := rfl
  accepted := fun _ => rfl
  expiries := rfl
  dedupe := fun present => by
    by_cases same : key = other
    · subst same
      exact update_self key true s.dedupe
    · change update s.dedupe other true key = true
      rw [update_of_ne same]
      exact present

theorem agrees_perform_release (s : Cluster ι) {other : String} (different : key ≠ other) :
    Agrees key s (s.perform (.release other)) where
  holds := fun _ => rfl
  doubt := rfl
  accepted := fun _ => rfl
  expiries := rfl
  dedupe := fun present => by
    change update s.dedupe other false key = true
    rw [update_of_ne different]
    exact present

theorem agrees_doubting (s : Cluster ι) {statement : Statement}
    (different : statement ≠ .release key) : Agrees key s (s.doubting statement) where
  holds := fun _ => rfl
  doubt := by
    change (s.doubt ++ [statement]).count _ = _
    rw [count_append, count_singleton, if_neg (by simpa using different), Nat.add_zero]
  accepted := fun _ => rfl
  expiries := rfl
  dedupe := fun present => present

theorem agrees_settled (s : Cluster ι) {statement : Statement}
    (different : statement ≠ .release key) :
    Agrees key s { s with doubt := s.doubt.erase statement } where
  holds := fun _ => rfl
  doubt := count_erase_of_ne different.symm
  accepted := fun _ => rfl
  expiries := rfl
  dedupe := fun present => present

theorem agrees_accept (s : Cluster ι) {other : String} (different : key ≠ other) :
    Agrees key s (s.accept other) where
  holds := fun _ => rfl
  doubt := rfl
  accepted := fun period => by
    have distinct : (other, s.expiries other) ≠ (key, period) := fun same =>
      different (congrArg Prod.fst same).symm
    change (s.accepted ++ [(other, s.expiries other)]).count _ = _
    rw [count_append, count_singleton, if_neg (by simpa using distinct), Nat.add_zero]
  expiries := rfl
  dedupe := fun present => present

/-- The token was handed out and is on its way back: the row is still there. -/
structure Loose (s : Cluster ι) (key : String) : Prop where
  token : Token s key none
  unspent : s.spent key none = 0
  present : s.dedupe key = true

theorem Loose.accept (loose : Loose s key) : Token (s.accept key) key none := by
  have unspent := loose.unspent
  unfold spent at unspent
  have counts : ∀ period, (s.accept key).accepted.count (key, period)
      = s.accepted.count (key, period) + if period = s.expiries key then 1 else 0 := by
    intro period
    change (s.accepted ++ [(key, s.expiries key)]).count _ = _
    rw [count_append, count_singleton]
    by_cases now : period = s.expiries key
    · subst now
      simp
    · rw [if_neg (by simpa using Ne.symm now), if_neg now]
  have once : (s.accept key).spent key none = 1 := by
    unfold spent
    rw [counts]
    change _ + s.doubt.count _ + (s.accepted.count (key, s.expiries key) + _) = 1
    rw [if_pos (show (s.accept key).expiries key = s.expiries key from rfl)]
    omega
  refine ⟨loose.token.holds, once.le, fun _ => loose.present, fun period => ?_,
    fun period after => ?_⟩
  · rw [counts]
    by_cases now : period = s.expiries key
    · subst now
      rw [if_pos rfl]
      omega
    · rw [if_neg now]
      exact loose.token.accepted period
  · rw [counts, if_neg (show period ≠ s.expiries key from ne_of_gt after)]
    exact loose.token.later period after

theorem Loose.doubting (loose : Loose s key) : Token (s.doubting (.release key)) key none := by
  have unspent := loose.unspent
  refine ⟨loose.token.holds, ?_, fun _ => loose.present, loose.token.accepted, loose.token.later⟩
  unfold spent at unspent ⊢
  change _ + (s.doubt ++ [_]).count _ + s.accepted.count (key, s.expiries key) ≤ 1
  rw [count_append, count_singleton_self]
  omega

theorem Token.release (token : Token s key none) (unspent : s.spent key none = 0) :
    Token (s.perform (.release key)) key none :=
  ⟨token.holds, token.once, fun positive => absurd unspent positive.ne', token.accepted,
    token.later⟩

theorem Token.settle (token : Token s key holder) (doubted : .release key ∈ s.doubt) :
    Token { s with doubt := s.doubt.erase (.release key) } key none ∧
      spent { s with doubt := s.doubt.erase (.release key) } key none = 0 := by
  have once := token.once
  have positive : 0 < s.doubt.count (.release key) := count_pos_iff.mpr doubted
  unfold spent at once
  have unspent : spent { s with doubt := s.doubt.erase (.release key) } key none = 0 := by
    unfold spent
    change 0 + (s.doubt.erase _).count _ + s.accepted.count (key, s.expiries key) = 0
    rw [count_erase_self]
    omega
  have free : holder = none := by
    cases holder with
    | none => rfl
    | some i =>
      rw [Option.toList_some, length_singleton] at once
      omega
  subst free
  exact ⟨⟨token.holds, unspent.le.trans (zero_le 1), fun more => absurd unspent more.ne',
    token.accepted, token.later⟩, unspent⟩

end

section Phases

variable {ι : Type} [DecidableEq ι] {s : Cluster ι} {key : String} {holder : Option ι} {i : ι}
  {phase : Phase}

theorem agrees_set (same : phase.holds key = (s.phases i).holds key) :
    Agrees key s (s.set i phase) where
  holds := fun j => by
    by_cases own : j = i
    · subst own
      change (update s.phases j phase j).holds key = _
      rw [update_self, same]
    · change (update s.phases i phase j).holds key = _
      rw [update_of_ne own]
  doubt := rfl
  accepted := fun _ => rfl
  expiries := rfl
  dedupe := fun present => present

theorem Token.drop (token : Token s key holder) (held : (s.phases i).holds key = true)
    (free : phase.holds key = false) : Loose (s.set i phase) key := by
  have owner : holder = some i := (token.holds i).mp held
  subst owner
  have once := token.once
  have unspent : (s.set i phase).spent key none = 0 := by
    unfold spent at once ⊢
    rw [Option.toList_some, length_singleton] at once
    change 0 + s.doubt.count _ + s.accepted.count (key, s.expiries key) = 0
    omega
  have present : s.dedupe key = true := by
    apply token.retained
    unfold spent
    rw [Option.toList_some, length_singleton]
    omega
  refine ⟨⟨fun j => ?_, unspent.le.trans (zero_le 1), fun _ => present, token.accepted,
    token.later⟩, unspent, present⟩
  by_cases own : j = i
  · subst own
    change (update s.phases j phase j).holds key = true ↔ _
    simp [free]
  · change (update s.phases i phase j).holds key = true ↔ _
    rw [update_of_ne own, token.holds j]
    simp [Ne.symm own]

theorem Token.claim (token : Token s key holder) (absent : s.dedupe key = false)
    (holds : phase.holds key = true) :
    Token ((s.perform (.claim key)).set i phase) key (some i) := by
  have unspent : s.spent key holder = 0 := by
    by_contra positive
    rw [token.retained (Nat.pos_of_ne_zero positive)] at absent
    cases absent
  have free : holder = none := by
    cases holder with
    | none => rfl
    | some j =>
      unfold spent at unspent
      rw [Option.toList_some, length_singleton] at unspent
      omega
  subst free
  have present : ((s.perform (.claim key)).set i phase).dedupe key = true := by
    change update s.dedupe key true key = true
    exact update_self key true s.dedupe
  refine ⟨fun j => ?_, ?_, fun _ => present, token.accepted, token.later⟩
  · by_cases own : j = i
    · subst own
      change (update s.phases j phase j).holds key = true ↔ _
      simp [holds]
    · change (update s.phases i phase j).holds key = true ↔ _
      rw [update_of_ne own, token.holds j]
      simp [Ne.symm own]
  · unfold spent at unspent ⊢
    change 1 + s.doubt.count _ + s.accepted.count (key, s.expiries key) ≤ 1
    change 0 + s.doubt.count _ + s.accepted.count (key, s.expiries key) = 0 at unspent
    omega

theorem Token.expire (token : Token s key holder) (unheld : ∀ i, (s.phases i).holds key = false)
    (settled : .release key ∉ s.doubt) : Token (s.step (.expire key)) key none := by
  have expiries : (s.step (.expire key)).expiries key = s.expiries key + 1 :=
    update_self key _ s.expiries
  have fresh : s.accepted.count (key, s.expiries key + 1) = 0 :=
    token.later _ (lt_succ_self _)
  have unspent : (s.step (.expire key)).spent key none = 0 := by
    unfold spent
    rw [expiries]
    change 0 + s.doubt.count _ + s.accepted.count _ = 0
    rw [count_eq_zero.mpr settled, fresh]
  refine ⟨fun i => ?_, unspent.le.trans (zero_le 1), fun positive =>
    absurd unspent positive.ne',
    token.accepted, fun period after => token.later period ?_⟩
  · change (s.phases i).holds key = true ↔ _
    simp [unheld i]
  · rw [expiries] at after
    omega

omit [DecidableEq ι] in
theorem over_of_landed {answer : Answer} (honest : (Turn.send i answer).Honest) {channel : Json}
    (landed : (hasProvider channel && answer.landed) = true) (key : String) :
    (afterSend key (send channel answer)).over = true := by
  obtain ⟨provider, taken⟩ := Bool.and_eq_true_iff.mp landed
  unfold send
  rw [if_pos provider]
  cases answer with
  | accepted messageId => rfl
  | failed err refused =>
    cases retriable : isRetriable err with
    | false =>
      simp only [afterSend, retriable]
      rfl
    | true =>
      have kept : refused = false := honest retriable
      subst kept
      cases taken

theorem holds_afterSend {other : String} (different : key ≠ other)
    (result : Except Failure (Option String)) : (afterSend other result).holds key = false := by
  cases result with
  | ok providerId => rfl
  | error err =>
    simp only [afterSend]
    cases isRetriable err with
    | true => exact decide_eq_false (Ne.symm different)
    | false => rfl

theorem Token.set (token : Token s key holder) (i : ι) {phase : Phase}
    (less : phase.holds key = true → (s.phases i).holds key = true) :
    ∃ holder', Token (s.set i phase) key holder' := by
  cases after : phase.holds key with
  | true => exact ⟨holder, token.agrees (agrees_set (after.trans (less after).symm))⟩
  | false =>
    cases before : (s.phases i).holds key with
    | true => exact ⟨none, (token.drop before after).token⟩
    | false => exact ⟨holder, token.agrees (agrees_set (after.trans before.symm))⟩

theorem Token.finish {f : Cluster ι → Cluster ι} {held : String} (token : Token s key holder)
    (holding : ∀ key, (s.phases i).holds key = decide (held = key))
    (free : ∀ key, phase.holds key = false)
    (commutes : (f s).set i phase = f (s.set i phase))
    (elsewhere : ∀ t : Cluster ι, key ≠ held → Agrees key t (f t))
    (own : ∀ t : Cluster ι, Loose t held → Token (f t) held none) :
    ∃ holder', Token ((f s).set i phase) key holder' := by
  rw [commutes]
  by_cases same : key = held
  · subst same
    exact ⟨none, own _ (token.drop ((holding key).trans (decide_eq_true rfl)) (free key))⟩
  · have before : (s.phases i).holds key = false :=
      (holding key).trans (decide_eq_false (Ne.symm same))
    exact ⟨holder, (token.agrees (agrees_set ((free key).trans before.symm))).agrees
      (elsewhere _ same)⟩

theorem Token.accepting {held : String} {taken : Bool} (token : Token s key holder)
    (holding : ∀ key, (s.phases i).holds key = decide (held = key))
    (less : ∀ key, phase.holds key = true → held = key)
    (free : taken = true → ∀ key, phase.holds key = false) :
    ∃ holder', Token ((if taken then s.accept held else s).set i phase) key holder' := by
  cases taken with
  | true =>
    exact token.finish (f := fun t => t.accept held) holding (free rfl) rfl
      (fun t different => agrees_accept t different) fun t loose => loose.accept
  | false => exact token.set i fun after => (holding key).trans (decide_eq_true (less key after))

theorem keeps_token (token : Token s key holder) {turn : Turn ι} (honest : turn.Honest)
    (retains : s.Retains key turn) : ∃ holder', Token (s.step turn) key holder' := by
  have stays : ∃ holder', Token s key holder' := ⟨holder, token⟩
  have ends (i : ι) {phase : Phase} (ended : phase.over = true) :
      ∃ holder', Token (s.set i phase) key holder' :=
    token.set i fun after =>
      absurd after (by rw [not_holds_of_over ended]; exact Bool.false_ne_true)
  cases turn with
  | receive i message =>
    simp only [step]
    by_cases ended : (s.phases i).over = true
    · rw [if_pos ended]
      cases message.command with
      | none => exact ends i rfl
      | some cmd => exact token.set i (fun after => by cases after)
    · rw [if_neg ended]
      exact stays
  | claim i =>
    simp only [step]
    cases at' : s.phases i with
    | claiming cmd =>
      simp only
      cases cmd.dedupeKey with
      | str other =>
        simp only
        cases row : s.dedupe other with
        | true => exact ends i rfl
        | false =>
          by_cases same : key = other
          · subst same
            exact ⟨some i, token.claim row (decide_eq_true rfl)⟩
          · refine ⟨holder, (token.agrees (agrees_perform_claim s key other)).agrees
              (agrees_set ?_)⟩
            change decide (other = key) = (s.phases i).holds key
            rw [at', decide_eq_false (Ne.symm same)]
            rfl
      | _ => exact ends i rfl
    | _ => exact stays
  | claimFails i =>
    simp only [step]
    cases at' : s.phases i with
    | claiming cmd =>
      simp only
      cases cmd.dedupeKey with
      | str other =>
        refine ⟨holder, (token.agrees (agrees_doubting s (by simp))).agrees (agrees_set ?_)⟩
        change false = (s.phases i).holds key
        rw [at']
        rfl
      | _ => exact ends i rfl
    | _ => exact stays
  | screen i found utcHour bounced =>
    simp only [step]
    cases at' : s.phases i with
    | screening held cmd =>
      simp only
      cases screen cmd found utcHour bounced with
      | threw => exact ends i rfl
      | suppressed reason => exact ends i rfl
      | passed address =>
        refine token.set i fun after => ?_
        rw [at']
        exact after
    | _ => exact stays
  | send i answer =>
    simp only [step]
    cases at' : s.phases i with
    | sending held cmd address =>
      refine token.accepting (fun key => by rw [at']; rfl) (fun key after => ?_)
        fun landed key => not_holds_of_over (over_of_landed honest landed held) key
      by_contra different
      rw [holds_afterSend (Ne.symm different)] at after
      cases after
    | _ => exact stays
  | release i =>
    simp only [step]
    cases at' : s.phases i with
    | releasing held reason =>
      exact token.finish (f := fun t => t.perform (.release held))
        (fun key => by rw [at']; rfl) (fun key => rfl) rfl
        (fun t different => agrees_perform_release t different)
        fun t loose => loose.token.release loose.unspent
    | _ => exact stays
  | releaseFails i =>
    simp only [step]
    cases at' : s.phases i with
    | releasing held reason =>
      exact token.finish (f := fun t => t.doubting (.release held))
        (fun key => by rw [at']; rfl) (fun key => rfl) rfl
        (fun t different => agrees_doubting t (by simpa using Ne.symm different))
        fun t loose => loose.doubting
    | _ => exact stays
  | crash i landed =>
    simp only [step]
    cases at' : s.phases i with
    | claiming cmd =>
      simp only
      cases cmd.dedupeKey with
      | str other =>
        refine ⟨holder, (token.agrees (agrees_doubting s (by simp))).agrees (agrees_set ?_)⟩
        change false = (s.phases i).holds key
        rw [at']
        rfl
      | _ => exact ends i rfl
    | sending held cmd address =>
      exact token.accepting (fun key => by rw [at']; rfl) (fun key after => by cases after)
        fun _ key => rfl
    | releasing held reason =>
      exact token.finish (f := fun t => t.doubting (.release held))
        (fun key => by rw [at']; rfl) (fun key => rfl) rfl
        (fun t different => agrees_doubting t (by simpa using Ne.symm different))
        fun t loose => loose.doubting
    | _ => exact ends i rfl
  | settle statement effective =>
    simp only [step]
    by_cases doubted : statement ∈ s.doubt
    · rw [if_pos doubted]
      by_cases own : statement = .release key
      · subst own
        obtain ⟨settled, unspent⟩ := token.settle doubted
        cases effective with
        | true => exact ⟨none, settled.release unspent⟩
        | false => exact ⟨none, settled⟩
      · have settled := token.agrees (agrees_settled s own)
        cases effective with
        | false => exact ⟨holder, settled⟩
        | true =>
          cases statement with
          | claim other => exact ⟨holder, settled.agrees (agrees_perform_claim _ key other)⟩
          | release other =>
            have different : key ≠ other := fun same => own (same ▸ rfl)
            exact ⟨holder, settled.agrees (agrees_perform_release _ different)⟩
    · rw [if_neg doubted]
      exact stays
  | expire other =>
    by_cases same : other = key
    · subst same
      obtain ⟨unheld, settled⟩ := retains rfl
      exact ⟨none, token.expire unheld settled⟩
    · refine ⟨holder, token.agrees ⟨fun _ => rfl, rfl, fun _ => rfl, ?_, fun present => ?_⟩⟩
      · exact update_of_ne (Ne.symm same) _ _
      · exact (update_of_ne (Ne.symm same) _ _).trans present

omit [DecidableEq ι] in
theorem token_init (key : String) : Token ({} : Cluster ι) key none where
  holds := fun i => by
    change false = true ↔ _
    simp
  once := zero_le 1
  retained := fun positive => absurd positive (lt_irrefl 0)
  accepted := fun _ => zero_le 1
  later := fun _ _ => rfl

/-- **At most once.** While the row of a dedupe key is retained, a provider accepts at
most one message under the key: in every interleaving of deliveries in which an error
that `isRetriable` accepts means that nothing was accepted, and in which the row of the
key does not expire under a call that holds the key or under a release in doubt, at most
one message of the key is accepted between two expiries. -/
theorem accepted_once (key : String)
    (reached : ((system ι).restrict fun s turn => turn.Honest ∧ s.Retains key turn).Reachable s)
    (period : Nat) : s.accepted.count (key, period) ≤ 1 := by
  have invariant : ∃ holder, Token s key holder := by
    refine reached.invariant (I := fun s => ∃ holder, Token s key holder) ?_ ?_
    · rintro start rfl
      exact ⟨none, token_init key⟩
    · rintro before turn after ⟨holder, token⟩ ⟨⟨honest, retains⟩, rfl⟩
      exact keeps_token token honest retains
  obtain ⟨holder, token⟩ := invariant
  exact token.accepted period

/-- An order is confirmed, and two consumers get the event. -/
def confirmed : Message :=
  .parsed (.obj [("type", .str "souq.order.confirmed.v1"),
    ("data", .obj [("orderId", .str "7"), ("userId", .str "u")])])

def customer : Recipient :=
  { userId := "u", email := some "u@souq.dev", phone := none, locale := "ar-EG",
    emailOptOut := true, smsOptOut := false, pushOptOut := false }

/-- One is refused by the provider and the other one succeeds, after which the first one
tries again. -/
def retried : List (Turn Nat) :=
  [.receive 0 confirmed, .receive 1 confirmed, .claim 0, .screen 0 (some customer) 23 (some false),
    .send 0 (.failed { message := "connect ECONNREFUSED" } false), .release 0, .claim 1,
    .screen 1 (some customer) 23 (some false), .send 1 (.accepted (some "m-1")),
    .receive 0 confirmed, .claim 0]

theorem accepted_once_retried :
    (retried.foldl step {}).accepted = [("order_confirmed:7", 0)] ∧
      (retried.foldl step {}).accepted.count ("order_confirmed:7", 0) ≤ 1 := by
  refine ⟨by decide +kernel, ?_⟩
  refine accepted_once "order_confirmed:7" (System.Reachable.foldl_restrict ?_) 0
  simp [retried, System.Permits, Turn.Honest, Retains]

end Phases

end Cluster

end Souq.Notifications
