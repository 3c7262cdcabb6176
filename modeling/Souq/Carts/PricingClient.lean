import Souq.Carts.CircuitBreaker

/-!
# Concurrent pricing calls

`PricingClient.calculate` asks the breaker when it starts and tells it the outcome when
the reply arrives. In between other calls start and end, and `record` is not told which
call it hears of: while the breaker waits for its probe, the outcome of any call that is
still in flight decides in the probe's place.
-/

namespace Souq.Carts

open Transition List CircuitBreaker

def pricingBreaker : CircuitBreakerOptions where
  windowSize := 20
  failureThreshold := 1 / 2
  probeAfterMs := 10000

/-- A call that was admitted and waits for its reply. -/
structure PricingCall where
  number : Nat
  startedAt : Int

/-- How the breaker has left its half-open state. -/
structure Departure where
  /-- The call admitted by the `allow` that had made it half-open. -/
  probe : Option Nat
  /-- The call whose outcome has decided. -/
  decider : Nat
  /-- How many calls had been admitted when the breaker last opened. -/
  before : Nat
  deriving DecidableEq

/-- The calls of a process that share one breaker. -/
structure PricingClient where
  breaker : CircuitBreaker := {}
  admitted : Nat := 0
  inFlight : List PricingCall := []
  clock : Int := 0
  probe : Option Nat := none
  /-- How many calls had been admitted when the breaker last opened. -/
  before : Nat := 0
  departures : List Departure := []

/-- A call, or what comes of one. -/
inductive PricingEvent where
  | calculate (now : Int)
  /-- The reply to a call, or its deadline. -/
  | reply (number : Nat) (success : Bool) (now : Int)

namespace PricingClient

/-- The part of `calculate` up to the request. -/
def calculate (s : PricingClient) (now : Int) : PricingClient :=
  match s.breaker.allow pricingBreaker now with
  | (false, breaker) => { s with breaker := breaker, clock := now }
  | (true, breaker) =>
    { s with
      breaker := breaker
      admitted := s.admitted + 1
      inFlight := s.inFlight ++ [⟨s.admitted, now⟩]
      clock := now
      probe := if s.breaker.state = .opened then some s.admitted else s.probe }

def hear (s : PricingClient) (number : Nat) (success : Bool) (now : Int) : PricingClient :=
  let breaker := s.breaker.record pricingBreaker now success
  { s with
    breaker := breaker
    inFlight := s.inFlight.filter fun call => call.number ≠ number
    clock := now
    before := if s.breaker.state ≠ .opened ∧ breaker.state = .opened then s.admitted else s.before
    departures :=
      if s.breaker.state = .halfOpen then s.departures ++ [⟨s.probe, number, s.before⟩]
      else s.departures }

def waits (s : PricingClient) (number : Nat) : Bool :=
  s.inFlight.any fun call => call.number == number

/-- A call is admitted or refused, and a reply is heard once. -/
def step (s : PricingClient) : PricingEvent → PricingClient
  | .calculate now => s.calculate now
  | .reply number success now => if s.waits number then s.hear number success now else s

/-- While the breaker is half-open nothing was admitted after its probe; and whenever it
stopped being half-open, the outcome of its probe has decided, so that of no call admitted
before it opened. -/
structure ProbeDecides (s : PricingClient) : Prop where
  single : s.breaker.state = .halfOpen → ∃ n, s.probe = some n ∧ s.admitted = n + 1
  decided : ∀ d ∈ s.departures, d.probe = some d.decider
  late : ∀ d ∈ s.departures, d.before ≤ d.decider

/-- A half-open breaker hears of another call than its probe. -/
def Mistakes (s : PricingClient) : PricingEvent → Prop
  | .calculate _ => False
  | .reply number _ _ => s.breaker.state = .halfOpen ∧ s.waits number = true ∧ s.probe ≠ some number

instance (s : PricingClient) : (event : PricingEvent) → Decidable (s.Mistakes event)
  | .calculate _ => inferInstanceAs (Decidable False)
  | .reply _ _ _ => inferInstanceAs (Decidable (_ ∧ _ ∧ _))

end PricingClient

/-- The runs of a client. -/
def pricing : System PricingClient PricingEvent := .ofFunction {} PricingClient.step

namespace CircuitBreaker

variable {o : CircuitBreakerOptions} {b : CircuitBreaker} {now : Int} {success : Bool}

/-- An open breaker that admits a call is half-open, and no other call makes it so. -/
theorem allow_admits (admits : (b.allow o now).1 = true) :
    ((b.allow o now).2.state = .halfOpen ↔ b.state = .opened) ∧
      (b.allow o now).2.state ≠ .opened ∧ b.state ≠ .halfOpen ∧
      (b.state = .opened → b.openedAt + o.probeAfterMs ≤ now) := by
  cases shown : b.state with
  | closed => simp [allow, shown]
  | halfOpen => simp [allow, shown] at admits
  | opened =>
    simp only [allow, shown] at admits ⊢
    split
    · rename_i early
      rw [if_pos early] at admits
      cases admits
    · refine ⟨by simp, by simp, by simp, fun _ => ?_⟩
      omega

theorem allow_refuses (refuses : (b.allow o now).1 = false) : (b.allow o now).2 = b := by
  cases shown : b.state with
  | closed => simp [allow, shown] at refuses
  | halfOpen => simp [allow, shown]
  | opened =>
    simp only [allow, shown] at refuses ⊢
    split
    · rfl
    · rename_i late
      rw [if_neg late] at refuses
      cases refuses

theorem record_not_halfOpen : (b.record o now success).state ≠ .halfOpen := by
  cases shown : b.state with
  | halfOpen =>
    simp only [record, shown]
    split
    · simp
    · simp
  | closed =>
    simp only [record, shown]
    split
    · simp
    · split
      · simp
      · simp
  | opened =>
    simp only [record, shown]
    split
    · simp
    · simp

/-- A breaker that an outcome leaves open has opened now, unless it was open before. -/
theorem record_opened (opens : (b.record o now success).state = .opened) :
    b.state = .opened ∧ (b.record o now success).openedAt = b.openedAt ∨
      b.state ≠ .opened ∧ (b.record o now success).openedAt = now := by
  cases shown : b.state with
  | halfOpen =>
    cases success with
    | true => simp [record, shown] at opens
    | false => exact .inr ⟨by simp, by simp [record, shown]⟩
  | closed =>
    simp only [record, shown] at opens ⊢
    split
    · rename_i short
      rw [if_pos short] at opens
      cases opens
    · rename_i full
      split
      · exact .inr ⟨by simp, rfl⟩
      · rename_i calm
        rw [if_neg full, if_neg calm] at opens
        cases opens
  | opened =>
    refine .inl ⟨rfl, ?_⟩
    simp only [record, shown]
    split
    · rfl
    · simp

end CircuitBreaker

namespace PricingClient

variable {s : PricingClient}

/-- The calls are numbered, and a half-open breaker waits for the last one. -/
structure Counts (s : PricingClient) : Prop where
  before : s.before ≤ s.admitted
  waiting : s.breaker.state = .halfOpen → ∃ n, s.probe = some n ∧ s.admitted = n + 1 ∧ s.before ≤ n

theorem Counts.calculate (counts : Counts s) (now : Int) : Counts (s.calculate now) := by
  unfold PricingClient.calculate
  split
  · rename_i breaker asked
    have same : breaker = s.breaker := by
      have kept := allow_refuses (congrArg Prod.fst asked)
      rwa [asked] at kept
    subst same
    exact ⟨counts.before, counts.waiting⟩
  · rename_i breaker asked
    obtain ⟨probes, -, -, -⟩ := allow_admits (congrArg Prod.fst asked)
    rw [asked] at probes
    refine ⟨Nat.le_succ_of_le counts.before, fun half => ?_⟩
    exact ⟨s.admitted, if_pos (probes.mp half), rfl, counts.before⟩

theorem Counts.hear (counts : Counts s) (number : Nat) (success : Bool) (now : Int) :
    Counts (s.hear number success now) := by
  refine ⟨?_, fun half => (record_not_halfOpen half).elim⟩
  simp only [PricingClient.hear]
  split
  · exact le_refl _
  · exact counts.before

theorem Counts.step (counts : Counts s) (event : PricingEvent) : Counts (s.step event) := by
  cases event with
  | calculate now => exact counts.calculate now
  | reply number success now =>
    simp only [PricingClient.step]
    split
    · exact counts.hear number success now
    · exact counts

theorem counts_reachable (reached : pricing.Reachable s) : Counts s := by
  refine reached.invariant ?_ fun s event t counts taken => ?_
  · rintro _ rfl
    exact ⟨le_refl _, fun half => by cases half⟩
  · rw [taken]
    exact counts.step event

theorem departures_calculate (now : Int) : (s.calculate now).departures = s.departures := by
  unfold PricingClient.calculate
  split
  · rfl
  · rfl

/-- **One event.** The probe still decides unless a half-open breaker hears of another
call. -/
theorem ProbeDecides.step_iff (counts : Counts s) (decides : ProbeDecides s)
    (event : PricingEvent) : ProbeDecides (s.step event) ↔ ¬ s.Mistakes event := by
  have single : (s.step event).breaker.state = .halfOpen →
      ∃ n, (s.step event).probe = some n ∧ (s.step event).admitted = n + 1 := by
    intro half
    obtain ⟨n, probe, last, -⟩ := (counts.step event).waiting half
    exact ⟨n, probe, last⟩
  have quiet (same : (s.step event).departures = s.departures) : ProbeDecides (s.step event) :=
    ⟨single, same ▸ decides.decided, same ▸ decides.late⟩
  cases event with
  | calculate now => exact iff_of_true (quiet (departures_calculate now)) id
  | reply number success now =>
    by_cases waits : s.waits number = true
    · have heard : s.step (.reply number success now) = s.hear number success now := if_pos waits
      by_cases half : s.breaker.state = .halfOpen
      · have added : (s.step (.reply number success now)).departures =
            s.departures ++ [⟨s.probe, number, s.before⟩] := by
          rw [heard]
          exact if_pos half
        constructor
        · rintro after ⟨-, -, other⟩
          refine other (after.decided ⟨s.probe, number, s.before⟩ ?_)
          rw [added]
          exact mem_append_right _ mem_cons_self
        · intro sound
          have own : s.probe = some number := by
            by_contra other
            exact sound ⟨half, waits, other⟩
          obtain ⟨n, probe, -, since⟩ := counts.waiting half
          obtain rfl : n = number := Option.some.inj (probe.symm.trans own)
          refine ⟨single, fun d member => ?_, fun d member => ?_⟩
          · rw [added] at member
            rcases mem_append.mp member with old | new
            · exact decides.decided d old
            · rw [mem_singleton.mp new]
              exact own
          · rw [added] at member
            rcases mem_append.mp member with old | new
            · exact decides.late d old
            · rw [mem_singleton.mp new]
              exact since
      · refine iff_of_true (quiet ?_) fun mistaken => half mistaken.1
        rw [heard]
        exact if_neg half
    · have unheard : s.step (.reply number success now) = s := if_neg waits
      exact iff_of_true (quiet (by rw [unheard])) fun mistaken => waits mistaken.2.1

/-- **Only the probe decides.** In a run of concurrent calls the probe of a half-open
breaker decides throughout, exactly when a half-open breaker never hears of another call
that was still in flight. -/
theorem probe_decides_throughout_iff (events : List PricingEvent) :
    (∀ front, front <+: events → ProbeDecides (front.foldl step {})) ↔
      ∀ front event, front ++ [event] <+: events → ¬ (front.foldl step {}).Mistakes event := by
  refine System.throughout_iff ?_ (fun s event reached decides => ?_) events
  · exact ⟨fun half => (by cases half), by simp, by simp⟩
  · exact decides.step_iff (counts_reachable reached) event

/-- Twenty calls out of 21 fail, and the breaker opens. The clock jumps by ten seconds, a
probe is admitted, and then the reply to the call that is left arrives. -/
def lateReply : List PricingEvent :=
  List.replicate 21 (.calculate 0) ++ (List.range 20).map (fun n => .reply n false 100) ++
    [.calculate 10100, .reply 20 true 10200]

/-- The breaker closes before its probe is answered. -/
theorem late_reply_closes :
    ¬ ∀ events front, front <+: events → ProbeDecides (front.foldl step {}) := by
  intro always
  have decided := (always lateReply lateReply (prefix_refl _)).decided
  have departed : ⟨some 21, 20, 21⟩ ∈ (lateReply.foldl step {}).departures := by decide +kernel
  cases decided ⟨some 21, 20, 21⟩ departed

def deadlineMs : Int := 250

/-- The clock does not go back, and a call hears of its reply by its deadline. -/
def Timely (s : PricingClient) : PricingEvent → Prop
  | .calculate now => s.clock ≤ now
  | .reply number _ now => s.clock ≤ now ∧
      ∀ call ∈ s.inFlight, call.number = number → now ≤ call.startedAt + deadlineMs

/-- By the time a probe is admitted, the deadlines of the calls before it have passed. -/
structure Paced (s : PricingClient) : Prop where
  started : ∀ call ∈ s.inFlight, call.startedAt ≤ s.clock
  opened : s.breaker.state = .opened → ∀ call ∈ s.inFlight, call.startedAt ≤ s.breaker.openedAt
  waiting : s.breaker.state = .halfOpen → ∀ call ∈ s.inFlight,
    s.probe = some call.number ∨ call.startedAt + pricingBreaker.probeAfterMs ≤ s.clock

theorem Paced.calculate (paced : Paced s) {now : Int} (later : s.clock ≤ now) :
    Paced (s.calculate now) := by
  unfold PricingClient.calculate
  split
  · rename_i breaker asked
    have same : breaker = s.breaker := by
      have kept := allow_refuses (congrArg Prod.fst asked)
      rwa [asked] at kept
    subst same
    refine ⟨fun call member => (paced.started call member).trans later, paced.opened, ?_⟩
    intro half call member
    exact (paced.waiting half call member).imp_right fun passed => passed.trans later
  · rename_i breaker asked
    obtain ⟨probes, shut, -, delay⟩ := allow_admits (congrArg Prod.fst asked)
    rw [asked] at probes shut
    refine ⟨fun call member => ?_, fun opened => (shut opened).elim, fun half call member => ?_⟩
    · rcases mem_append.mp member with old | new
      · exact (paced.started call old).trans later
      · rw [mem_singleton.mp new]
    · have opened := probes.mp half
      rcases mem_append.mp member with old | new
      · have before := paced.opened opened call old
        have elapsed := delay opened
        exact .inr (by simp only; omega)
      · rw [mem_singleton.mp new]
        exact .inl (if_pos opened)

theorem Paced.hear (paced : Paced s) {number : Nat} {success : Bool} {now : Int}
    (later : s.clock ≤ now) : Paced (s.hear number success now) := by
  have remains : ∀ call ∈ (s.hear number success now).inFlight, call ∈ s.inFlight :=
    fun call member => (mem_filter.mp member).1
  refine ⟨fun call member => (paced.started call (remains call member)).trans later, ?_,
    fun half => (record_not_halfOpen half).elim⟩
  intro opens call member
  have started := paced.started call (remains call member)
  rcases record_opened opens with ⟨opened, same⟩ | ⟨-, same⟩
  · exact (paced.opened opened call (remains call member)).trans_eq same.symm
  · exact (started.trans later).trans_eq same.symm

theorem Paced.not_mistakes (paced : Paced s) {event : PricingEvent} (timely : s.Timely event) :
    ¬ s.Mistakes event := by
  cases event with
  | calculate now => exact id
  | reply number success now =>
    rintro ⟨half, waits, other⟩
    obtain ⟨call, member, named⟩ := any_eq_true.mp waits
    obtain rfl : call.number = number := beq_iff_eq.mp named
    have inTime := timely.2 call member rfl
    have later := timely.1
    rcases paced.waiting half call member with own | passed
    · exact other own
    · simp only [pricingBreaker, deadlineMs] at passed inTime
      omega

/-- **Deadlines keep replies apart.** Where every call hears of its reply by its deadline, as
the clock of the breaker counts, only the probe decides. -/
theorem timely_probe_decides (reached : (pricing.restrict Timely).Reachable s) :
    ProbeDecides s := by
  suffices all : Counts s ∧ Paced s ∧ ProbeDecides s from all.2.2
  refine reached.invariant (I := fun s => Counts s ∧ Paced s ∧ ProbeDecides s) ?_
    fun s event t holds taken => ?_
  · rintro _ rfl
    exact ⟨⟨le_refl _, fun half => by cases half⟩,
      ⟨by simp, fun opened => (by cases opened), fun half => by cases half⟩,
      ⟨fun half => (by cases half), by simp, by simp⟩⟩
  · obtain ⟨timely, rfl⟩ := taken
    obtain ⟨counts, paced, decides⟩ := holds
    refine ⟨counts.step event, ?_, (decides.step_iff counts event).mpr (paced.not_mistakes timely)⟩
    cases event with
    | calculate now => exact paced.calculate timely
    | reply number success now =>
      simp only [step]
      split
      · exact paced.hear timely.1
      · exact paced

instance (s : PricingClient) : (event : PricingEvent) → Decidable (s.Timely event)
  | .calculate _ => inferInstanceAs (Decidable (_ ≤ _))
  | .reply _ _ _ => inferInstanceAs (Decidable (_ ∧ _))

/-- Twenty calls fail in time, and so does the probe. -/
def failing : List PricingEvent :=
  List.replicate 20 (.calculate 0) ++ (List.range 20).map (fun n => .reply n false 100) ++
    [.calculate 10100, .reply 20 false 10200]

theorem failing_probe_decides : ProbeDecides (failing.foldl step {}) ∧
    (failing.foldl step {}).departures = [⟨some 20, 20, 20⟩] := by
  have permitted : System.Permits step Timely failing {} := by decide +kernel
  exact ⟨timely_probe_decides (System.Reachable.foldl_restrict permitted), by decide +kernel⟩

end PricingClient

end Souq.Carts
