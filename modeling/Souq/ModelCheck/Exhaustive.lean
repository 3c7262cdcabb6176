import Souq.ModelCheck.Layers

/-!
# The search is exhaustive

The states seen are, at any moment of the search, those whose turn is over and
those in the queue, in that order. The first kind is closed under the actions,
so that an empty queue leaves exactly the reachable states. The edges recorded
on the way are all there are, and the backward closure over them finds exactly
the states that can finish.
-/

namespace Souq.ModelCheck

open List

variable {σ : Type}

namespace Model

theorem Reachable.after {m : Model σ} {s : σ} (reached : m.Reachable s) : ∃ n, m.After n s := by
  induction reached with
  | refl => exact ⟨0, .initial⟩
  | tail _ step ih =>
    obtain ⟨n, after⟩ := ih
    exact ⟨n + 1, after.step step⟩

theorem within_iff {m : Model σ} (unbounded : m.maxDepth = 0) {s : σ} :
    m.Within s ↔ m.Reachable s := by
  constructor
  · rintro ⟨n, after, -⟩
    exact after.reachable
  · intro reached
    obtain ⟨n, after⟩ := reached.after
    exact ⟨n, after, fun bounded => by omega⟩

end Model

theorem mem_predecessors {ranges : Ranges} {successors : List (String × List String)}
    {a b : String} : a ∈ predecessors ranges successors b ↔ Edge successors a b := by
  simp only [predecessors, mem_flatMap, mem_map, mem_filter, decide_eq_true_eq,
    (ranges.perm 1 successors).mem_iff]
  constructor
  · rintro ⟨⟨k, bs⟩, entry, ⟨_, ⟨member, rfl⟩, rfl⟩⟩
    exact ⟨bs, entry, member⟩
  · rintro ⟨bs, entry, member⟩
    exact ⟨(a, bs), entry, b, ⟨member, rfl⟩, rfl⟩

variable [State σ]

/-- The backward closure ends. It leaves out the traces that lead to no terminal one
over the recorded edges. -/
theorem exists_findWedged (ranges : Ranges) {seen : List (String × Trace σ)}
    {successors : List (String × List String)} (distinct : (seen.map Prod.fst).Nodup)
    (edges : ∀ a b, Edge successors a b → a ∈ seen.map Prod.fst) :
    ∃ wedged, findWedged ranges seen successors = some wedged ∧ wedged.Subperm (seen.map Prod.snd) ∧
      ∀ t, t ∈ wedged ↔ ∃ entry ∈ seen, entry.2 = t ∧
        ¬ ∃ a ∈ (seen.filter fun entry => terminal entry.2.last).map Prod.fst,
          Worklist.Leads (predecessors ranges successors) a entry.1 := by
  set start := (seen.filter fun entry => terminal entry.2.last).map Prod.fst with startIs
  have few : start.Sublist (seen.map Prod.fst) := filter_sublist.map _
  have order : (ranges.order 2 start).Perm start := ranges.perm 2 start
  have inside : ∀ k ∈ seen.map Prod.fst, ∀ n ∈ predecessors ranges successors k,
      n ∈ seen.map Prod.fst := fun k _ n edge => edges n k (mem_predecessors.mp edge)
  have enough : (ranges.order 2 start).length + ((seen.map Prod.fst).length - start.length) ≤
      seen.length := by
    have bounded := few.length_le
    rw [order.length_eq]
    simp only [length_map] at bounded ⊢
    omega
  obtain ⟨closed, closes⟩ := Worklist.exists_close inside
    (s := ⟨ranges.order 2 start, start⟩) (fun k member => few.subset (order.mem_iff.mp member))
    (fun k member => few.subset member) (distinct.sublist few) enough
  have closing : Worklist.Closing (predecessors ranges successors) start
      ⟨ranges.order 2 start, start⟩ :=
    { queued := fun k member => order.mem_iff.mp member
      closed := fun k member unqueued => (unqueued (order.mem_iff.mpr member)).elim
      started := fun k member => member
      reached := fun k member => ⟨k, member, Relation.ReflTransGen.refl⟩ }
  refine ⟨_, by unfold findWedged; simp only [← startIs, closes]; rfl, ?_, fun t => ?_⟩
  · refine (perm_insertionSort _ _).subperm.trans ?_
    exact (filter_sublist.map _).subperm.trans ((ranges.perm 3 seen).map _).subperm
  · rw [(perm_insertionSort _ _).mem_iff]
    simp only [mem_map, mem_filter, decide_eq_true_eq, (ranges.perm 3 seen).mem_iff,
      closing.mem_close closes]
    constructor
    · rintro ⟨entry, ⟨member, left⟩, rfl⟩
      exact ⟨entry, member, rfl, left⟩
    · rintro ⟨entry, member, rfl, left⟩
      exact ⟨entry, ⟨member, left⟩, rfl⟩

section Empty

variable {m : Model σ} {done : List (Trace σ)} {s : Search σ} {ranges : Ranges}

/-- Every state within the bound on the depth is the end of a trace, one with no more
actions than steps lead there. -/
theorem Layered.complete (layered : Layered m done s) (empty : s.queue = [])
    (identifies : Set.InjOn key {s | m.Reachable s}) {n : Nat} {x : σ} (after : m.After n x)
    (allowed : m.Allows n) : ∃ t ∈ done, t.last = x ∧ t.actions.length ≤ n := by
  obtain ⟨t, belongs, found⟩ := layered.reaches identifies after allowed (by simp [empty])
  exact ⟨t, by simpa [empty] using belongs, found⟩

theorem Layered.mem_iff (layered : Layered m done s) (empty : s.queue = [])
    (identifies : Set.InjOn key {s | m.Reachable s}) {x : σ} :
    x ∈ done.map Trace.last ↔ m.Within x := by
  constructor
  · intro member
    obtain ⟨t, finished, rfl⟩ := mem_map.mp member
    obtain ⟨path, allowed, -⟩ := layered.paths t (mem_append_left _ finished)
    exact ⟨_, path.after, allowed⟩
  · rintro ⟨n, after, allowed⟩
    obtain ⟨t, finished, rfl, -⟩ := layered.complete empty identifies after allowed
    exact mem_map_of_mem finished

theorem Layered.nodup (layered : Layered m done s) (empty : s.queue = []) :
    (done.map Trace.last).Nodup := by
  have keys := layered.distinct
  rw [layered.keys, empty, append_nil] at keys
  refine List.Nodup.of_map key ?_
  rwa [map_map]

theorem Layered.encard (layered : Layered m done s) (empty : s.queue = [])
    (identifies : Set.InjOn key {s | m.Reachable s}) :
    {s | m.Within s}.encard = s.seen.length := by
  classical
  have same : {s | m.Within s} = ↑(done.map Trace.last).toFinset := by
    ext x
    rw [Finset.mem_coe, mem_toFinset, layered.mem_iff empty identifies, Set.mem_ofPred_eq]
  rw [same, Set.encard_coe_eq_coe_finsetCard, toFinset_card_of_nodup (layered.nodup empty),
    layered.seen, empty, append_nil, length_map, length_map]

theorem Layered.mem_terminal (layered : Layered m done s) (empty : s.queue = []) {k : String} :
    k ∈ (s.seen.filter fun entry => terminal entry.2.last).map Prod.fst ↔
      ∃ t ∈ done, terminal t.last = true ∧ key t.last = k := by
  rw [layered.seen, empty, append_nil]
  simp only [mem_map, mem_filter]
  constructor
  · rintro ⟨entry, ⟨⟨t, finished, rfl⟩, ends⟩, rfl⟩
    exact ⟨t, finished, ends, rfl⟩
  · rintro ⟨t, finished, ends, rfl⟩
    exact ⟨_, ⟨⟨t, finished, rfl⟩, ends⟩, rfl⟩

/-- Backwards over the recorded edges, the terminal states lead to every state that can
finish, where the states on the way there have made their turns. -/
theorem Layered.leads (layered : Layered m done s) (empty : s.queue = [])
    (identifies : Set.InjOn key {s | m.Reachable s})
    (whole : ∀ x, m.Within x → terminal x = false → m.Finishes x → ∃ n, m.After n x ∧ m.Expands n)
    {x : σ} (within : m.Within x) (finishes : m.Finishes x) :
    ∃ a ∈ (s.seen.filter fun entry => terminal entry.2.last).map Prod.fst,
      Worklist.Leads (predecessors ranges s.successors) a (key x) := by
  obtain ⟨u, path, ends⟩ := finishes
  induction path using Relation.ReflTransGen.head_induction_on with
  | refl =>
    obtain ⟨n, after, allowed⟩ := within
    obtain ⟨t, finished, rfl, -⟩ := layered.complete empty identifies after allowed
    exact ⟨key t.last, (layered.mem_terminal empty).mpr ⟨t, finished, ends, rfl⟩,
      Relation.ReflTransGen.refl⟩
  | @head y next step path ih =>
    by_cases ended : terminal y = true
    · obtain ⟨n, after, allowed⟩ := within
      obtain ⟨t, finished, rfl, -⟩ := layered.complete empty identifies after allowed
      exact ⟨key t.last, (layered.mem_terminal empty).mpr ⟨t, finished, ended, rfl⟩,
        Relation.ReflTransGen.refl⟩
    · obtain ⟨n, after, expands⟩ :=
        whole y within (Bool.eq_false_iff.mpr ended) ⟨u, path.head step, ends⟩
      obtain ⟨a, start, leads⟩ := ih ⟨n + 1, after.step step, Model.allows_succ.mpr expands⟩
      by_cases same : key next = key y
      · exact ⟨a, start, same ▸ leads⟩
      · obtain ⟨t, finished, rfl, short⟩ := layered.complete empty identifies after
          ((Model.allows_succ.mpr expands).mono (Nat.le_succ n))
        have near : m.Expands t.actions.length := Model.allows_succ.mp
          ((Model.allows_succ.mpr expands).mono (Nat.succ_le_succ short))
        refine ⟨a, start, leads.tail (mem_predecessors.mpr ((layered.edges _ _).mpr ?_))⟩
        exact ⟨t, finished, near, rfl, next, step, same, rfl⟩

theorem Layered.finishes (layered : Layered m done s) (empty : s.queue = [])
    (identifies : Set.InjOn key {s | m.Reachable s}) {x : σ} (reached : m.Reachable x) {a : String}
    (start : a ∈ (s.seen.filter fun entry => terminal entry.2.last).map Prod.fst)
    (leads : Worklist.Leads (predecessors ranges s.successors) a (key x)) : m.Finishes x := by
  obtain ⟨y, also, same, finishes⟩ : ∃ y, m.Reachable y ∧ key y = key x ∧ m.Finishes y := by
    generalize key x = k at leads
    induction leads with
    | refl =>
      obtain ⟨t, finished, ends, named⟩ := (layered.mem_terminal empty).mp start
      exact ⟨t.last, layered.reachable (mem_append_left _ finished), named,
        t.last, Relation.ReflTransGen.refl, ends⟩
    | tail _ edge ih =>
      obtain ⟨y, also, same, u, path, ends⟩ := ih
      obtain ⟨t, finished, -, rfl, next, step, -, named⟩ :=
        (layered.edges _ _).mp (mem_predecessors.mp edge)
      have here := layered.reachable (mem_append_left _ finished)
      cases identifies also (here.tail step) (same.trans named)
      exact ⟨t.last, here, rfl, u, path.head step, ends⟩
  exact identifies also reached same ▸ finishes

/-- **The backward closure.** It ends, and what it leaves out are the traces to which no
recorded edges lead back. -/
theorem Layered.findWedged (ranges : Ranges) (layered : Layered m done s) (empty : s.queue = []) :
    ∃ wedged, ModelCheck.findWedged ranges s.seen s.successors = some wedged ∧
      (wedged.map Trace.last).Nodup ∧ ∀ t, t ∈ wedged ↔ t ∈ done ∧
        ¬ ∃ a ∈ (s.seen.filter fun entry => terminal entry.2.last).map Prod.fst,
          Worklist.Leads (predecessors ranges s.successors) a (key t.last) := by
  have inside : ∀ a b, Edge s.successors a b → a ∈ s.keys := by
    intro a b edge
    obtain ⟨t, finished, -, rfl, -⟩ := (layered.edges _ _).mp edge
    rw [layered.keys]
    exact mem_map_of_mem (mem_append_left _ finished)
  obtain ⟨wedged, found, part, listed⟩ := exists_findWedged ranges layered.distinct inside
  have traces : s.seen = done.map fun t => (key t.last, t) := by
    rw [layered.seen, empty, append_nil]
  refine ⟨wedged, found, ?_, fun t => (listed t).trans ?_⟩
  · obtain ⟨kept, same, sub⟩ := part
    refine (same.map Trace.last).nodup_iff.mp (List.Nodup.sublist (sub.map Trace.last) ?_)
    rw [traces, map_map, map_map]
    exact layered.nodup empty
  · rw [traces]
    constructor
    · rintro ⟨entry, known, rfl, left⟩
      obtain ⟨u, finished, rfl⟩ := mem_map.mp known
      exact ⟨finished, left⟩
    · rintro ⟨finished, left⟩
      exact ⟨_, mem_map_of_mem finished, rfl, left⟩

theorem Layered.finish (ranges : Ranges) (layered : Layered m done s) (empty : s.queue = []) :
    ∃ r, ModelCheck.finish ranges s = some r ∧ r.violation = none ∧
      r.reached.Perm (done.map Trace.last) ∧ r.statesExplored = s.seen.length ∧
      r.deadlocks = s.res.deadlocks ∧
      (r.wedged.map Trace.last).Nodup ∧ ∀ t, t ∈ r.wedged ↔ t ∈ done ∧
        ¬ ∃ a ∈ (s.seen.filter fun entry => terminal entry.2.last).map Prod.fst,
          Worklist.Leads (predecessors ranges s.successors) a (key t.last) := by
  obtain ⟨wedged, found, once, listed⟩ := layered.findWedged ranges empty
  refine ⟨{ s.res with
    statesExplored := s.seen.length
    reached := (ranges.order 0 s.seen).map fun entry => entry.2.last
    wedged := wedged }, ?_, layered.clean.1, ?_, rfl, rfl, once, listed⟩
  · unfold ModelCheck.finish
    rw [found]
    rfl
  refine ((ranges.perm 0 s.seen).map _).trans ?_
  rw [layered.seen, empty, append_nil, map_map]
  rfl

end Empty

section Explore

variable {m : Model σ}

omit [State σ] in
theorem length_le_ncard {found : List σ} {all : Set σ} (distinct : found.Nodup)
    (finite : all.Finite)
    (inside : ∀ s ∈ found, s ∈ all) : found.length ≤ all.ncard := by
  classical
  calc found.length = (↑found.toFinset : Set σ).ncard := by
        rw [Set.ncard_coe_finset, toFinset_card_of_nodup distinct]
    _ ≤ all.ncard := Set.ncard_le_ncard (fun s member => inside s (by simpa using member)) finite

omit [State σ] in
theorem Stopped.fails {r : Result σ} {v : Violation σ} (stopped : Stopped m r v)
    (finite : {s | m.Reachable s}.Finite) (small : ({s | m.Reachable s}.ncard : Int) < m.bound) :
    ∃ inv ∈ m.invariants, inv.name = v.invariant ∧ inv.fn v.trace.last = some v.detail := by
  rcases stopped.cause with failing | ⟨-, -, found, distinct, within, -, full⟩
  · exact failing
  · have most := length_le_ncard distinct finite fun s member => by
      obtain ⟨n, after, -⟩ := (within s member).1
      exact after.reachable
    omega

/-- **The model checker.** Where the key identifies the reachable states and they
are fewer than the bound, the search ends and its report is exact. -/
theorem explore_exact (ranges : Ranges) (m : Model σ)
    (identifies : Set.InjOn key {s | m.Reachable s}) (unbounded : m.maxDepth = 0)
    (finite : {s | m.Reachable s}.Finite) (small : ({s | m.Reachable s}.ncard : Int) < m.bound) :
    ∃ r, explore ranges m = some r ∧ (r.violation = none ↔ ∀ s, m.Reachable s → m.Holds s) ∧
      (r.violation = none → (r.reached.Nodup ∧ ∀ s, s ∈ r.reached ↔ m.Reachable s) ∧
        r.statesExplored = {s | m.Reachable s}.ncard ∧
        ((r.deadlocks.map Trace.last).Nodup ∧ ∀ s, s ∈ r.deadlocks.map Trace.last ↔
          m.Reachable s ∧ terminal s = false ∧ m.Idle s) ∧
        ((r.wedged.map Trace.last).Nodup ∧ ∀ s, s ∈ r.wedged.map Trace.last ↔
          m.Reachable s ∧ ¬ m.Finishes s)) := by
  have all : ∀ {x}, m.Within x ↔ m.Reachable x := Model.within_iff unbounded
  have expands : ∀ n, m.Expands n := fun n bounded => by omega
  rcases explore_layered ranges (by omega) identifies with
    ⟨done, s, layered, empty, ends⟩ | ⟨r, v, ends, stopped⟩
  · obtain ⟨r, reports, unviolated, reached, explored, deadlocks, once, wedged⟩ :=
      layered.finish ranges empty
    have listed : ∀ {x}, x ∈ done.map Trace.last ↔ m.Reachable x :=
      (layered.mem_iff empty identifies).trans all
    have there : ∀ {t}, t ∈ done → m.Reachable t.last := fun finished =>
      listed.mp (mem_map_of_mem finished)
    refine ⟨r, ends.trans reports, ?_, fun _ => ⟨⟨?_, ?_⟩, ?_, ⟨?_, ?_⟩, once, ?_⟩⟩
    · refine ⟨fun _ x reached => ?_, fun _ => unviolated⟩
      obtain ⟨t, finished, rfl⟩ := mem_map.mp (listed.mpr reached)
      exact layered.holds (mem_append_left _ finished)
    · exact reached.nodup_iff.mpr (layered.nodup empty)
    · exact fun x => reached.mem_iff.trans listed
    · have count := layered.encard empty identifies
      have same : {s | m.Within s} = {s | m.Reachable s} := Set.ext fun x => all
      rw [same, ← finite.cast_ncard_eq] at count
      exact explored.trans (by exact_mod_cast count.symm)
    · rw [deadlocks]
      exact (layered.nodup empty).sublist (layered.once.map Trace.last)
    · intro x
      rw [deadlocks]
      constructor
      · intro member
        obtain ⟨t, dead, rfl⟩ := mem_map.mp member
        obtain ⟨finished, -, ongoing, idle⟩ := (layered.deadlocks t).mp dead
        exact ⟨there finished, ongoing, fun next step =>
          identifies ((there finished).tail step) (there finished) (idle next step)⟩
      · rintro ⟨reached, ongoing, idle⟩
        obtain ⟨t, finished, rfl⟩ := mem_map.mp (listed.mpr reached)
        refine mem_map_of_mem ((layered.deadlocks t).mpr ⟨finished, expands _, ongoing, ?_⟩)
        exact fun next step => congrArg key (idle next step)
    · intro x
      constructor
      · intro member
        obtain ⟨t, stuck, rfl⟩ := mem_map.mp member
        obtain ⟨finished, left⟩ := (wedged t).mp stuck
        refine ⟨there finished, fun finishes => left ?_⟩
        exact layered.leads empty identifies
          (fun x within _ _ => within.imp fun n within => ⟨within.1, expands n⟩)
          (all.mpr (there finished)) finishes
      · rintro ⟨reached, stuck⟩
        obtain ⟨t, finished, rfl⟩ := mem_map.mp (listed.mpr reached)
        refine mem_map_of_mem ((wedged t).mpr ⟨finished, ?_⟩)
        rintro ⟨a, start, leads⟩
        exact stuck (layered.finishes empty identifies reached start leads)
  · have violated : r.violation ≠ none := by
      rw [stopped.reported]
      exact Option.some_ne_none v
    obtain ⟨inv, listed, -, fails⟩ := stopped.fails finite small
    refine ⟨r, ends, ⟨fun clean => (violated clean).elim, fun holds => ?_⟩,
      fun clean => (violated clean).elim⟩
    cases fails.symm.trans (holds _ stopped.path.after.reachable inv listed)

end Explore

instance : State Bool := ⟨toString, id⟩

/-- Every loop visits the entries in the order they were added. -/
def inOrder : Ranges := ⟨fun _ _ entries => entries, fun _ _ _ => .refl _⟩

def switch : Model Bool where
  initial := false
  actions := [⟨"on", fun _ => some true⟩]
  invariants := []

theorem few_reachable (m : Model Bool) (unbounded : m.bound = 500000) :
    ({s | m.Reachable s}.ncard : Int) < m.bound := by
  have few : {s | m.Reachable s}.ncard ≤ 2 := by
    calc {s | m.Reachable s}.ncard ≤ (Set.univ : Set Bool).ncard :=
          Set.ncard_le_ncard (Set.subset_univ _) Set.finite_univ
      _ = 2 := by rw [Set.ncard_univ, Nat.card_eq_fintype_card, Fintype.card_bool]
  omega

theorem switch_exact : ∃ r, explore inOrder switch = some r ∧
    r.violation = none ∧ r.statesExplored = {s | switch.Reachable s}.ncard := by
  have injective : ∀ s t : Bool, key s = key t → s = t := by decide
  obtain ⟨r, ends, clean, counts⟩ := explore_exact inOrder switch
    (fun s _ t _ same => injective s t same) rfl (Set.toFinite _) (few_reachable switch rfl)
  have unviolated : r.violation = none := clean.mpr fun s _ inv member => by cases member
  exact ⟨r, ends, unviolated, (counts unviolated).2.1⟩

end Souq.ModelCheck
