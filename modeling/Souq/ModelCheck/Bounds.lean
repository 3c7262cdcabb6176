import Souq.ModelCheck.Exhaustive

/-!
# What the bounds report

The bound on the states is met by as many states as it allows, not only by more,
and the states on the last layer that the bound on the depth allows have no edges.
So there are two alarms that are false, and no others.
-/

namespace Souq.ModelCheck

open List Relation.ReflTransGen Set

variable {σ : Type}

namespace Model

/-- The search gave up on the number of states. An invariant may have the same name,
and then it fails in the last state. -/
def GivesUp (m : Model σ) (r : Result σ) : Prop :=
  ∃ v, r.violation = some v ∧ v.invariant = "state-space bound" ∧ m.Holds v.trace.last

/-- There are as many states within the bound on the depth as the bound on the states
says, and nothing is wrong with them. -/
def Brimful (m : Model σ) : Prop :=
  2 ≤ m.maxStates ∧ {s | m.Within s}.encard = m.maxStates.toNat ∧ ∀ s, m.Within s → m.Holds s

/-- The search has nothing to stop for. A bound of one state is met by two. -/
def Completes (m : Model σ) : Prop :=
  {s | m.Within s}.encard < max 2 m.maxStates.toNat ∧ ∀ s, m.Within s → m.Holds s

variable [State σ]

/-- The bound and the wedged states are real. -/
def NoFalseAlarm (m : Model σ) (r : Result σ) : Prop :=
  (m.GivesUp r → (m.maxStates.toNat : ℕ∞) < {s | m.Within s}.encard) ∧
    ∀ t ∈ r.wedged, ¬ m.Finishes t.last

/-- A state that has yet to finish, and can, is as far away as the bound on the depth
allows. -/
structure CutOff (m : Model σ) (s : σ) : Prop where
  within : m.Within s
  last : ∀ n, m.After n s → ¬ m.Expands n
  ongoing : terminal s = false
  finishes : m.Finishes s

end Model

variable [State σ]

section Empty

variable {m : Model σ} {done : List (Trace σ)} {s : Search σ} {ranges : Ranges}

/-- No recorded edge leads back to a state that is cut off. -/
theorem Layered.not_leads (layered : Layered m done s) (empty : s.queue = [])
    (identifies : Set.InjOn key {s | m.Reachable s}) {x : σ} (cut : m.CutOff x) :
    ¬ ∃ a ∈ (s.seen.filter fun entry => terminal entry.2.last).map Prod.fst,
      Worklist.Leads (predecessors ranges s.successors) a (key x) := by
  rintro ⟨a, start, leads⟩
  have reached : m.Reachable x := by
    obtain ⟨n, after, -⟩ := cut.within
    exact after.reachable
  have unique : ∀ t ∈ done, key t.last = key x → t.last = x := fun t finished named =>
    identifies (layered.reachable (mem_append_left _ finished)) reached named
  rcases cases_tail leads with same | ⟨b, -, edge⟩
  · obtain ⟨t, finished, ends, named⟩ := (layered.mem_terminal empty).mp start
    have ongoing := cut.ongoing
    rw [← unique t finished (named.trans same.symm), ends] at ongoing
    cases ongoing
  · obtain ⟨t, finished, expands, named, -⟩ := (layered.edges _ _).mp (mem_predecessors.mp edge)
    have after := (layered.paths t (mem_append_left _ finished)).1.after
    rw [unique t finished named.symm] at after
    exact cut.last _ after expands

/-- **An empty queue.** What is reported as wedged can indeed not finish, if and only if
no state was cut off. -/
theorem Layered.wedged_iff (layered : Layered m done s) (empty : s.queue = [])
    (identifies : Set.InjOn key {s | m.Reachable s}) {wedged : List (Trace σ)}
    (listed : ∀ t, t ∈ wedged ↔ t ∈ done ∧
      ¬ ∃ a ∈ (s.seen.filter fun entry => terminal entry.2.last).map Prod.fst,
        Worklist.Leads (predecessors ranges s.successors) a (key t.last)) :
    (∀ t ∈ wedged, ¬ m.Finishes t.last) ↔ ∀ x, ¬ m.CutOff x := by
  constructor
  · intro stuck x cut
    obtain ⟨n, after, allowed⟩ := cut.within
    obtain ⟨t, finished, rfl, -⟩ := layered.complete empty identifies after allowed
    refine stuck t ((listed t).mpr ⟨finished, ?_⟩) cut.finishes
    exact layered.not_leads empty identifies cut
  · intro whole t member finishes
    obtain ⟨finished, left⟩ := (listed t).mp member
    have within := (layered.mem_iff empty identifies).mp (mem_map_of_mem finished)
    refine left (layered.leads empty identifies (fun x within ongoing finishes => ?_) within
      finishes)
    by_contra far
    exact whole x ⟨within, fun n after expands => far ⟨n, after, expands⟩, ongoing, finishes⟩

end Empty

section Explore

variable {m : Model σ} {r : Result σ} {v : Violation σ}

/-- Where the search stops for the number of states, the alarm is false exactly when
there are no more of them. -/
theorem Stopped.iff (stopped : Stopped m r v) (positive : 0 < m.maxStates) :
    m.NoFalseAlarm r ↔ ¬ m.Brimful ∧ (m.Completes → ∀ x, ¬ m.CutOff x) := by
  have bound : m.bound = m.maxStates := if_neg positive.ne'
  have within : m.Within v.trace.last := ⟨_, stopped.path.after, stopped.allowed⟩
  have listed : ∀ t ∈ r.wedged, ¬ m.Finishes t.last := by simp [stopped.unlisted]
  rcases stopped.cause with
    ⟨inv, member, -, fails⟩ | ⟨holds, named, found, distinct, all, two, full⟩
  · have violated : ¬ m.Holds v.trace.last := fun holds => by
      cases fails.symm.trans (holds inv member)
    refine iff_of_true ⟨fun gives => ?_, listed⟩ ⟨fun brimful => ?_, fun completes => ?_⟩
    · obtain ⟨w, reported, -, holds⟩ := gives
      cases stopped.reported.symm.trans reported
      exact (violated holds).elim
    · exact violated (brimful.2.2 _ within)
    · exact (violated (completes.2 _ within)).elim
  · have gives : m.GivesUp r := ⟨v, stopped.reported, named, holds⟩
    rw [bound] at full
    have inside : ({s | s ∈ found} : Set σ) ⊆ {s | m.Within s} := fun s member => (all s member).1
    have count : ({s | s ∈ found} : Set σ).encard = found.length := by
      classical
      have same : ({s | s ∈ found} : Set σ) = ↑found.toFinset := by
        ext x
        simp
      rw [same, encard_coe_eq_coe_finsetCard, toFinset_card_of_nodup distinct]
    have more : m.maxStates.toNat ≤ found.length := by omega
    have least : (max 2 m.maxStates.toNat : ℕ∞) ≤ {s | m.Within s}.encard := by
      calc (max 2 m.maxStates.toNat : ℕ∞) ≤ found.length :=
            max_le (by exact_mod_cast two) (by exact_mod_cast more)
        _ = ({s | s ∈ found} : Set σ).encard := count.symm
        _ ≤ {s | m.Within s}.encard := encard_le_encard inside
    constructor
    · intro quiet
      refine ⟨fun brimful => ?_, fun completes => (completes.1.not_ge least).elim⟩
      exact (quiet.1 gives).ne brimful.2.1.symm
    · intro bounds
      refine ⟨fun _ => lt_of_le_of_ne ((le_max_right _ _).trans least) fun same => ?_, listed⟩
      rw [← same] at least
      have large : 2 ≤ m.maxStates.toNat := by exact_mod_cast (le_max_left (2 : ℕ∞) _).trans least
      have whole : ({s | s ∈ found} : Set σ) = {s | m.Within s} := by
        refine (finite_toSet found).eq_of_subset_of_encard_le inside ?_
        rw [← same, count]
        exact_mod_cast more
      refine bounds.1 ⟨by omega, same.symm, fun s near => ?_⟩
      rw [← mem_ofPred_eq (p := fun s => m.Within s), ← whole] at near
      exact (all s near).2

/-- **The bounds.** The search ends for every positive bound on the states. Its bounds
raise no false alarm if and only if the states within reach are not exactly as many
as the bound says, and a search that completes cuts off no state that can still
finish. -/
theorem bounds_exact (ranges : Ranges) (m : Model σ)
    (identifies : Set.InjOn key {s | m.Reachable s}) (positive : 0 < m.maxStates) :
    ∃ r, explore ranges m = some r ∧
      (m.NoFalseAlarm r ↔ ¬ m.Brimful ∧ (m.Completes → ∀ x, ¬ m.CutOff x)) := by
  have bound : m.bound = m.maxStates := if_neg positive.ne'
  rcases explore_layered ranges (by omega) identifies with
    ⟨done, s, layered, empty, ends⟩ | ⟨r, v, ends, stopped⟩
  · obtain ⟨r, finishes, unviolated, -, -, -, -, listed⟩ := layered.finish ranges empty
    have count := layered.encard empty identifies
    have room := layered.room
    rw [bound] at room
    have holds : ∀ x, m.Within x → m.Holds x := by
      intro x within
      obtain ⟨t, finished, rfl⟩ := mem_map.mp ((layered.mem_iff empty identifies).mpr within)
      exact layered.holds (mem_append_left _ finished)
    have completes : m.Completes := by
      refine ⟨?_, holds⟩
      rw [count]
      have less : s.seen.length < max 2 m.maxStates.toNat := by omega
      exact_mod_cast less
    have spare : ¬ m.Brimful := by
      rintro ⟨two, full, -⟩
      rw [count] at full
      have same : s.seen.length = m.maxStates.toNat := by exact_mod_cast full
      omega
    have silent : ¬ m.GivesUp r := by
      rintro ⟨v, reported, -⟩
      cases unviolated.symm.trans reported
    refine ⟨r, ends.trans finishes, ?_⟩
    unfold Model.NoFalseAlarm
    rw [layered.wedged_iff empty identifies listed]
    exact ⟨fun quiet => ⟨spare, fun _ => quiet.2⟩,
      fun bounds => ⟨fun gives => (silent gives).elim, bounds.2 completes⟩⟩
  · exact ⟨r, ends, stopped.iff positive⟩

end Explore

def twoStates : Model Bool := { switch with maxStates := 2 }

instance : State (Fin 3) := ⟨fun n => toString n.val, fun n => n = 2⟩

/-- Two steps to the end, and a bound of one. -/
def oneStep : Model (Fin 3) where
  initial := 0
  actions := [⟨"next", fun n => if n = 2 then none else some (n + 1)⟩]
  invariants := []
  maxStates := 9
  maxDepth := 1

/-- Both bounds raise a false alarm. -/
theorem bounds_alarm :
    (Set.InjOn key {s | twoStates.Reachable s} ∧
      ∃ r, explore inOrder twoStates = some r ∧ ¬ twoStates.NoFalseAlarm r) ∧
    Set.InjOn key {s | oneStep.Reachable s} ∧
      ∃ r, explore inOrder oneStep = some r ∧ ¬ oneStep.NoFalseAlarm r := by
  have apart : ∀ s t : Bool, key s = key t → s = t := by decide
  have distinct : ∀ s t : Fin 3, key s = key t → s = t := by decide
  have few : {s | twoStates.Within s}.encard ≤ 2 := by
    calc {s | twoStates.Within s}.encard ≤ (univ : Set Bool).encard :=
          encard_le_encard (subset_univ _)
      _ = Fintype.card Bool := by rw [encard_univ, ENat.card_eq_coe_fintype_card]
      _ = 2 := rfl
  refine ⟨⟨fun s _ t _ same => apart s t same, _, rfl, fun quiet => ?_⟩,
    fun s _ t _ same => distinct s t same, _, rfl, fun quiet => ?_⟩
  · exact (quiet.1 ⟨_, rfl, rfl, fun inv member => by cases member⟩).not_ge few
  · have ends : oneStep.Step 1 2 := ⟨_, mem_cons_self, rfl⟩
    refine quiet.2 ⟨["next"], [0, 1], cons_ne_nil _ _⟩ ?_ ⟨2, single ends, rfl⟩
    exact mem_cons_of_mem _ mem_cons_self

theorem depth_oneStep {n : Nat} {s : Fin 3} (after : oneStep.After n s) : s.val = n := by
  induction after with
  | initial => rfl
  | @step n s next _ moved ih =>
    obtain ⟨action, member, moved⟩ := moved
    obtain rfl := mem_singleton.mp member
    have moves : ∀ s next : Fin 3, (if s = 2 then none else some (s + 1)) = some next →
        next.val = s.val + 1 := by decide
    rw [moves s next moved, ih]

/-- The middle state is cut off by the bound on the depth, and reported as wedged. -/
theorem oneStep_bounds : ∃ r, explore inOrder oneStep = some r ∧ ¬ oneStep.NoFalseAlarm r := by
  have apart : ∀ s t : Fin 3, key s = key t → s = t := by decide
  have few : {s | oneStep.Within s}.encard ≤ 3 := by
    calc {s | oneStep.Within s}.encard ≤ (univ : Set (Fin 3)).encard :=
          encard_le_encard (subset_univ _)
      _ = Fintype.card (Fin 3) := by rw [encard_univ, ENat.card_eq_coe_fintype_card]
      _ = 3 := rfl
  have completes : oneStep.Completes := ⟨few.trans_lt (by decide), nofun⟩
  have first : oneStep.Step 0 1 := ⟨_, mem_cons_self, rfl⟩
  have second : oneStep.Step 1 2 := ⟨_, mem_cons_self, rfl⟩
  have cut : oneStep.CutOff 1 := by
    refine ⟨⟨1, .step .initial first, fun _ => le_rfl⟩, fun n after expands => ?_, rfl, 2,
      single second, rfl⟩
    obtain rfl := depth_oneStep after
    exact expands ⟨by decide, by decide⟩
  obtain ⟨r, ends, quiet⟩ :=
    bounds_exact inOrder oneStep (fun s _ t _ same => apart s t same) (by decide)
  exact ⟨r, ends, fun silent => (quiet.mp silent).2 completes 1 cut⟩

end Souq.ModelCheck
