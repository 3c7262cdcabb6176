import Mathlib.Data.List.Count
import Mathlib.Data.List.DropRight
import Souq.Lib.Rounding
import Souq.Lib.Transition

/-!
# The circuit breaker

`CircuitBreaker` of the cart service keeps the last outcomes in a sliding window and
judges full windows only. The policy that it stands for remembers every outcome since
it last closed. A client that makes one call at a time cannot tell the two apart.

Clock readings are milliseconds. The callbacks only log, and are left out.
-/

namespace Souq.Carts

open Transition Rounding List

/-- The state of a breaker. -/
inductive BreakerState where
  | closed | opened | halfOpen
  deriving DecidableEq

/-- The settings of a breaker, whose threshold is a rate. -/
structure CircuitBreakerOptions where
  windowSize : Nat := 20
  failureThreshold : ℚ := 1 / 2
  probeAfterMs : Int := 10000
  windowSize_pos : 0 < windowSize := by decide
  threshold_pos : 0 < failureThreshold := by decide +kernel
  threshold_le : failureThreshold ≤ 1 := by decide +kernel

/-- A breaker, with the outcomes of its window. -/
structure CircuitBreaker where
  state : BreakerState := .closed
  failures : List Bool := []
  openedAt : Int := 0

/-- `failures.filter(Boolean).length / failures.length` -/
def rate (failures : List Bool) : ℚ := nearest (failures.count true / failures.length)

namespace CircuitBreaker

variable (o : CircuitBreakerOptions)

/-- Whether a call may proceed under the current state. -/
def allow (now : Int) (b : CircuitBreaker) : Bool × CircuitBreaker :=
  match b.state with
  | .closed => (true, b)
  | .opened =>
    if now - b.openedAt < o.probeAfterMs then (false, b)
    else (true, { b with state := .halfOpen })
  | .halfOpen => (false, b)

def push (success : Bool) (b : CircuitBreaker) : List Bool :=
  let failures := b.failures ++ [!success]
  if failures.length > o.windowSize then failures.tail else failures

def record (now : Int) (success : Bool) (b : CircuitBreaker) : CircuitBreaker :=
  match b.state with
  | .halfOpen =>
    if success then { b with state := .closed, failures := [] }
    else { b with state := .opened, openedAt := now }
  | _ =>
    let failures := b.push o success
    if failures.length < o.windowSize then { b with failures := failures }
    else if rate failures ≥ o.failureThreshold ∧ b.state = .closed then
      { state := .opened, failures := failures, openedAt := now }
    else { b with failures := failures }

end CircuitBreaker

/-- A closed breaker with every outcome since it closed, one that has been open since an
instant, or one that waits for its probe. -/
inductive Policy where
  | closed (outcomes : List Bool)
  | opened (since : Int)
  | halfOpen

namespace Policy

/-- The state a policy is in. -/
def state : Policy → BreakerState
  | .closed _ => .closed
  | .opened _ => .opened
  | .halfOpen => .halfOpen

variable (o : CircuitBreakerOptions)

/-- There are enough outcomes, and too many of the last ones are failures. -/
def Trips (outcomes : List Bool) : Prop :=
  o.windowSize ≤ outcomes.length ∧
    o.failureThreshold ≤ nearest ((outcomes.rtake o.windowSize).count false / o.windowSize)

instance (outcomes : List Bool) : Decidable (Trips o outcomes) :=
  inferInstanceAs (Decidable (_ ∧ _))

/-- Closed, it admits every call; open, it admits nothing until the delay has elapsed, and
then one call, the probe. -/
def allow (now : Int) : Policy → Bool × Policy
  | .closed outcomes => (true, .closed outcomes)
  | .opened since =>
    if now < since + o.probeAfterMs then (false, .opened since) else (true, .halfOpen)
  | .halfOpen => (false, .halfOpen)

/-- The outcome of the probe alone decides. An open breaker has no call to hear of. -/
def record (now : Int) (success : Bool) : Policy → Policy
  | .closed outcomes =>
    if Trips o (outcomes ++ [success]) then .opened now else .closed (outcomes ++ [success])
  | .opened since => .opened since
  | .halfOpen => if success then .closed [] else .opened now

end Policy

/-- What a client asks of its breaker. -/
inductive BreakerCall where
  | allow (now : Int)
  | record (now : Int) (success : Bool)

/-- The breaker as its client has used it: whether a call was admitted whose outcome is
not recorded, and what `allow` has answered. -/
structure Client where
  breaker : CircuitBreaker := {}
  inFlight : Bool := false
  answers : List Bool := []

/-- The same client with the policy for its breaker. -/
structure PolicyClient where
  policy : Policy := .closed []
  answers : List Bool := []

section Client

variable (o : CircuitBreakerOptions)

/-- A client that calls its breaker. -/
def Client.step (s : Client) : BreakerCall → Client
  | .allow now =>
    let asked := s.breaker.allow o now
    ⟨asked.2, s.inFlight || asked.1, s.answers ++ [asked.1]⟩
  | .record now success => ⟨s.breaker.record o now success, false, s.answers⟩

/-- A client that follows the policy. -/
def PolicyClient.step (s : PolicyClient) : BreakerCall → PolicyClient
  | .allow now =>
    let asked := s.policy.allow o now
    ⟨asked.2, s.answers ++ [asked.1]⟩
  | .record now success => ⟨s.policy.record o now success, s.answers⟩

/-- An outcome is recorded for a call that was admitted. -/
def Client.owns (s : Client) : BreakerCall → Prop
  | .allow _ => True
  | .record _ _ => s.inFlight = true

instance (s : Client) : (call : BreakerCall) → Decidable (s.owns call)
  | .allow _ => inferInstanceAs (Decidable True)
  | .record _ _ => inferInstanceAs (Decidable (s.inFlight = true))

end Client

variable {o : CircuitBreakerOptions}

theorem rtake_concat {α : Type} (n : Nat) (positive : 0 < n) (outcomes : List α) (x : α) :
    (outcomes ++ [x]).rtake n =
      if (outcomes.rtake n ++ [x]).length > n then (outcomes.rtake n ++ [x]).tail
      else outcomes.rtake n ++ [x] := by
  obtain ⟨m, rfl⟩ : ∃ m, n = m + 1 := ⟨n - 1, by omega⟩
  rw [rtake_concat_succ]
  simp only [List.rtake, length_append, length_drop, length_singleton]
  by_cases full : m + 1 ≤ outcomes.length
  · have nonempty : outcomes.drop (outcomes.length - (m + 1)) ≠ [] := by
      simp only [ne_eq, drop_eq_nil_iff]
      omega
    rw [if_pos (by omega), tail_append_of_ne_nil nonempty, tail_drop]
    congr 2
    omega
  · rw [if_neg (by omega)]
    congr 2
    omega

theorem push_window (success : Bool) (outcomes : List Bool) (state : BreakerState) (at' : Int) :
    CircuitBreaker.push o success ⟨state, (outcomes.rtake o.windowSize).map (!·), at'⟩ =
      ((outcomes ++ [success]).rtake o.windowSize).map (!·) := by
  rw [rtake_concat o.windowSize o.windowSize_pos]
  have pushed : (outcomes.rtake o.windowSize).map (!·) ++ [!success] =
      (outcomes.rtake o.windowSize ++ [success]).map (!·) := by simp
  simp only [CircuitBreaker.push, pushed, length_map]
  split
  · exact map_tail.symm
  · rfl

theorem trips_iff (outcomes : List Bool) :
    Policy.Trips o outcomes ↔ ¬ ((outcomes.rtake o.windowSize).map (!·)).length < o.windowSize ∧
        rate ((outcomes.rtake o.windowSize).map (!·)) ≥ o.failureThreshold := by
  have size : ((outcomes.rtake o.windowSize).map (!·)).length =
      min o.windowSize outcomes.length := by
    simp only [List.rtake, length_map, length_drop]
    omega
  have failed : ((outcomes.rtake o.windowSize).map (!·)).count true =
      (outcomes.rtake o.windowSize).count false :=
    count_map_of_injective _ (!·) (fun a b same => by simpa using same) false
  unfold Policy.Trips rate
  rw [failed, size, Nat.not_lt, le_min_iff]
  constructor
  · rintro ⟨full, reached⟩
    exact ⟨⟨le_refl _, full⟩, by rwa [Nat.min_eq_left full]⟩
  · rintro ⟨⟨-, full⟩, reached⟩
    exact ⟨full, by rwa [Nat.min_eq_left full] at reached⟩

/-- The breaker and the policy are in the same state, and agree about what matters in it. -/
inductive Follows (o : CircuitBreakerOptions) : CircuitBreaker → Policy → Prop where
  | closed (outcomes : List Bool) (at' : Int) :
      Follows o ⟨.closed, (outcomes.rtake o.windowSize).map (!·), at'⟩ (.closed outcomes)
  | opened (failures : List Bool) (since : Int) :
      Follows o ⟨.opened, failures, since⟩ (.opened since)
  | halfOpen (failures : List Bool) (at' : Int) : Follows o ⟨.halfOpen, failures, at'⟩ .halfOpen

namespace Follows

variable {b : CircuitBreaker} {p : Policy}

theorem state (follows : Follows o b p) : b.state = p.state := by
  cases follows with
  | closed => rfl
  | opened => rfl
  | halfOpen => rfl

theorem allow (follows : Follows o b p) (now : Int) :
    (b.allow o now).1 = (p.allow o now).1 ∧ Follows o (b.allow o now).2 (p.allow o now).2 := by
  cases follows with
  | closed outcomes at' => exact ⟨rfl, .closed outcomes at'⟩
  | halfOpen failures at' => exact ⟨rfl, .halfOpen failures at'⟩
  | opened failures since =>
    simp only [CircuitBreaker.allow, Policy.allow]
    by_cases early : now - since < o.probeAfterMs
    · rw [if_pos early, if_pos (by omega)]
      exact ⟨rfl, .opened failures since⟩
    · rw [if_neg early, if_neg (by omega)]
      exact ⟨rfl, .halfOpen failures since⟩

theorem record (follows : Follows o b p) (now : Int) (success : Bool) (heard : b.state ≠ .opened) :
    Follows o (b.record o now success) (p.record o now success) := by
  cases follows with
  | opened => exact (heard rfl).elim
  | halfOpen failures at' =>
    cases success with
    | true =>
      have empty : ([] : List Bool).rtake o.windowSize = [] := rtake_nil ..
      have closed := Follows.closed (o := o) [] at'
      rwa [empty] at closed
    | false => exact .opened failures now
  | closed outcomes at' =>
    simp only [CircuitBreaker.record, Policy.record, push_window]
    have judged := trips_iff (o := o) (outcomes ++ [success])
    by_cases short : (((outcomes ++ [success]).rtake o.windowSize).map (!·)).length < o.windowSize
    · rw [if_pos short, if_neg fun trips => (judged.mp trips).1 short]
      exact .closed (outcomes ++ [success]) at'
    · rw [if_neg short]
      by_cases reached : rate (((outcomes ++ [success]).rtake o.windowSize).map (!·)) ≥
          o.failureThreshold
      · rw [if_pos ⟨reached, trivial⟩, if_pos (judged.mpr ⟨short, reached⟩)]
        exact .opened _ now
      · rw [if_neg fun both => reached both.1, if_neg fun trips => reached (judged.mp trips).2]
        exact .closed (outcomes ++ [success]) at'

end Follows

/-- The breaker has answered as the policy does. -/
structure Agrees (o : CircuitBreakerOptions) (s : Client) (p : PolicyClient) : Prop where
  follows : Follows o s.breaker p.policy
  answers : s.answers = p.answers
  /-- A breaker that is open has heard of every call it admitted. -/
  heard : s.inFlight = true → s.breaker.state ≠ .opened

theorem CircuitBreaker.allow_opened {now : Int} {b : CircuitBreaker}
    (after : (b.allow o now).2.state = .opened) :
    (b.allow o now).1 = false ∧ b.state = .opened := by
  cases shown : b.state with
  | closed =>
    simp only [CircuitBreaker.allow, shown] at after
    cases after
  | halfOpen =>
    simp only [CircuitBreaker.allow, shown] at after
    cases after
  | opened =>
    simp only [CircuitBreaker.allow, shown] at after ⊢
    split
    · exact ⟨rfl, trivial⟩
    · rename_i late
      rw [if_neg late] at after
      cases after

theorem Agrees.step {s : Client} {p : PolicyClient} (agrees : Agrees o s p) (call : BreakerCall)
    (owns : s.owns call) : Agrees o (s.step o call) (p.step o call) := by
  obtain ⟨follows, answers, heard⟩ := agrees
  cases call with
  | allow now =>
    obtain ⟨same, after⟩ := follows.allow now
    refine ⟨after, by simp only [Client.step, PolicyClient.step, answers, same], ?_⟩
    intro waiting shut
    obtain ⟨refused, before⟩ := CircuitBreaker.allow_opened shut
    refine heard ?_ before
    simpa [Client.step, refused] using waiting
  | record now success =>
    exact ⟨follows.record now success (heard owns), answers, fun waiting => by cases waiting⟩

/-- **The breaker implements its policy.** A client that records only outcomes of calls in
flight, one at a time, finds the breaker in the state of the policy and with its answers. -/
theorem follows_policy (o : CircuitBreakerOptions) (calls : List BreakerCall)
    (owned : System.Permits (Client.step o) Client.owns calls {}) :
    (calls.foldl (Client.step o) {}).breaker.state =
        (calls.foldl (PolicyClient.step o) {}).policy.state ∧
      (calls.foldl (Client.step o) {}).answers =
        (calls.foldl (PolicyClient.step o) {}).answers := by
  have begun : Agrees o {} {} := by
    have empty : ([] : List Bool).rtake o.windowSize = [] := rtake_nil ..
    have closed := Follows.closed (o := o) [] 0
    rw [empty] at closed
    exact ⟨closed, rfl, fun waiting => by cases waiting⟩
  have agrees :
      Agrees o (calls.foldl (Client.step o) {}) (calls.foldl (PolicyClient.step o) {}) := by
    induction calls using List.reverseRecOn with
    | nil => exact begun
    | append_singleton calls call ih =>
      obtain ⟨earlier, owns⟩ := System.permits_concat.mp owned
      rw [foldl_append, foldl_append]
      exact (ih earlier).step call owns
  exact ⟨agrees.follows.state, agrees.answers⟩

/-- Two failures in a window of two, an early call, the probe, and its failure. -/
def sampleCalls : List BreakerCall :=
  [.allow 0, .record 5 false, .allow 10, .record 20 false, .allow 70, .allow 120, .allow 121,
    .record 130 false, .allow 200]

/-- A window of two, of which one may fail, and a delay of a tenth of a second. -/
def sampleOptions : CircuitBreakerOptions where
  windowSize := 2
  failureThreshold := 3 / 4
  probeAfterMs := 100

theorem sample_follows_policy :
    (sampleCalls.foldl (Client.step sampleOptions) {}).answers =
        (sampleCalls.foldl (PolicyClient.step sampleOptions) {}).answers ∧
      (sampleCalls.foldl (PolicyClient.step sampleOptions) {}).answers =
        [true, true, false, true, false, false] :=
  ⟨(follows_policy sampleOptions sampleCalls (by decide +kernel)).2, by decide +kernel⟩

end Souq.Carts
