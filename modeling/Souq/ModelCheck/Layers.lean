import Mathlib.Data.Set.Card
import Souq.ModelCheck.Turns

/-!
# The layers of the search

Traces leave the queue in the order of their lengths, and two that wait in it
differ by one action at most. When a trace makes its turn, every state that at
most as many steps lead to has been seen. The bound on the depth only ends the
layers early.
-/

namespace Souq.ModelCheck

open List ModelCheck Trace Nat

variable {σ : Type}

namespace Model

/-- As many steps lead from the initial state to this one. -/
inductive After (m : Model σ) : Nat → σ → Prop
  | initial : After m 0 m.initial
  | step {n : Nat} {s next : σ} : After m n s → m.Step s next → After m (n + 1) next

/-- A path of this length is within the bound on the depth. -/
def Allows (m : Model σ) (n : Nat) : Prop := m.maxDepth > 0 → (n : Int) ≤ m.maxDepth

/-- The state can be reached within the bound on the depth. -/
def Within (m : Model σ) (s : σ) : Prop := ∃ n, m.After n s ∧ m.Allows n

/-- The actions are taken at the end of a trace of this length. -/
def Expands (m : Model σ) (n : Nat) : Prop := ¬ (m.maxDepth > 0 ∧ (n : Int) ≥ m.maxDepth)

variable {m : Model σ} {n k : Nat} {s next : σ}

theorem After.reachable (after : m.After n s) : m.Reachable s := by
  induction after with
  | initial => exact Relation.ReflTransGen.refl
  | step _ step ih => exact ih.tail step

theorem Allows.mono (allowed : m.Allows n) (less : k ≤ n) : m.Allows k := by
  intro bounded
  have most := allowed bounded
  omega

theorem allows_succ : m.Allows (n + 1) ↔ m.Expands n := by
  unfold Allows Expands
  constructor
  · rintro allowed ⟨bounded, deep⟩
    have most := allowed bounded
    omega
  · intro expands bounded
    by_contra more
    exact expands ⟨bounded, by omega⟩

theorem allows_zero : m.Allows 0 := fun bounded => by omega

end Model

namespace Trace

/-- A trace goes from the initial state along the actions it names. -/
structure Path (m : Model σ) (t : Trace σ) : Prop where
  starts : t.states.head? = some m.initial
  length : t.states.length = t.actions.length + 1
  steps : ∀ i name s next, t.actions[i]? = some name → t.states[i]? = some s →
    t.states[i + 1]? = some next → ∃ action ∈ m.actions, action.name = name ∧
      action.fn s = some next

variable {m : Model σ} {t : Trace σ}

theorem Path.getElem?_last (path : t.Path m) : t.states[t.actions.length]? = some t.last := by
  rw [last, getLast_eq_getElem, getElem?_eq_getElem (by rw [path.length]; omega)]
  simp [path.length]

theorem path_initial (m : Model σ) : Path m ⟨[], [m.initial], cons_ne_nil _ _⟩ where
  starts := rfl
  length := rfl
  steps := by simp

theorem Path.extend (path : t.Path m) {action : Action σ} (listed : action ∈ m.actions) {next : σ}
    (enables : action.fn t.last = some next) : (t.extend action.name next).Path m where
  starts := by
    have starts := path.starts
    simp only [Trace.extend, head?_append, starts, Option.some_or]
  length := by simp [Trace.extend, path.length]
  steps := by
    intro i name s after named here there
    simp only [Trace.extend] at named here there
    have within : i < t.actions.length + 1 := by
      have bound := (List.getElem?_eq_some_iff.mp named).1
      simpa using bound
    rw [getElem?_append_left (by rw [path.length]; omega)] at here
    rcases Nat.lt_succ_iff_lt_or_eq.mp within with earlier | rfl
    · rw [getElem?_append_left earlier] at named
      rw [getElem?_append_left (by rw [path.length]; omega)] at there
      exact path.steps i name s after named here there
    · rw [path.getElem?_last] at here
      cases here
      have last : t.actions.length + 1 = t.states.length := path.length.symm
      rw [last, getElem?_concat_length] at there
      rw [getElem?_concat_length] at named
      cases there
      cases named
      exact ⟨action, listed, rfl, enables⟩

theorem Path.after (path : t.Path m) : m.After t.actions.length t.last := by
  have along : ∀ i s, t.states[i]? = some s → m.After i s := by
    intro i
    induction i with
    | zero =>
      intro s here
      rw [← head?_eq_getElem?, path.starts] at here
      cases here
      exact .initial
    | succ i ih =>
      intro s here
      have inside : i < t.actions.length := by
        have bound := (List.getElem?_eq_some_iff.mp here).1
        rw [path.length] at bound
        omega
      have before : i < t.states.length := by
        rw [path.length]
        omega
      obtain ⟨action, listed, -, enables⟩ := path.steps i _ _ s
        (getElem?_eq_getElem inside) (getElem?_eq_getElem before) here
      exact .step (ih _ (getElem?_eq_getElem before)) ⟨action, listed, enables⟩
  exact along _ _ path.getElem?_last

@[simp] theorem length_extend (t : Trace σ) (name : String) (next : σ) :
    (t.extend name next).actions.length = t.actions.length + 1 := by
  simp [extend]

@[simp] theorem dropLast_extend (t : Trace σ) (name : String) (next : σ) :
    (t.extend name next).states.dropLast = t.states := by
  simp [extend]

end Trace

variable [State σ]

/-- The search has stopped at the end of a trace, with the only two things to
report: an invariant that fails, or too many distinct states. -/
structure Stopped (m : Model σ) (r : Result σ) (v : Violation σ) : Prop where
  reported : r.violation = some v
  unlisted : r.wedged = []
  path : v.trace.Path m
  allowed : m.Allows v.trace.actions.length
  earlier : ∀ s ∈ v.trace.states.dropLast, m.Holds s
  closer : ∀ n s, m.After n s → n < v.trace.actions.length → m.Holds s
  cause : (∃ inv ∈ m.invariants, inv.name = v.invariant ∧ inv.fn v.trace.last = some v.detail) ∨
    m.Holds v.trace.last ∧ v.invariant = "state-space bound" ∧
      ∃ found : List σ, found.Nodup ∧ (∀ s ∈ found, m.Within s ∧ m.Holds s) ∧
        2 ≤ found.length ∧ m.bound ≤ found.length

/-- What holds of the search between two turns, with the lengths of the traces. -/
structure Layered (m : Model σ) (done : List (Trace σ)) (s : Search σ) : Prop where
  seen : s.seen = (done ++ s.queue).map fun t => (key t.last, t)
  distinct : s.keys.Nodup
  initial : ∃ t ∈ done ++ s.queue, t.last = m.initial ∧ t.actions.length = 0
  paths : ∀ t ∈ done ++ s.queue, t.Path m ∧ m.Allows t.actions.length ∧ ∀ x ∈ t.states, m.Holds x
  sorted : (done ++ s.queue).Pairwise fun t u => t.actions.length ≤ u.actions.length
  near : ∀ t ∈ s.queue, ∀ u ∈ s.queue, u.actions.length ≤ t.actions.length + 1
  closed : ∀ t ∈ done, m.Expands t.actions.length → ∀ next, m.Step t.last next →
    ∃ u ∈ done ++ s.queue, key u.last = key next ∧ u.actions.length ≤ t.actions.length + 1
  edges : ∀ a b, Edge s.successors a b ↔ ∃ t ∈ done, m.Expands t.actions.length ∧
    a = key t.last ∧ ∃ next, m.Step t.last next ∧ key next ≠ key t.last ∧ b = key next
  deadlocks : ∀ t, t ∈ s.res.deadlocks ↔ t ∈ done ∧ m.Expands t.actions.length ∧
    terminal t.last = false ∧ ∀ next, m.Step t.last next → key next = key t.last
  once : s.res.deadlocks.Sublist done
  room : (s.seen.length : Int) < max 2 m.bound
  clean : s.res.violation = none ∧ s.res.wedged = []

section Queue

variable {m : Model σ} {done : List (Trace σ)} {s : Search σ}

theorem Layered.keys (layered : Layered m done s) :
    s.keys = (done ++ s.queue).map fun t => key t.last := by
  rw [Search.keys, layered.seen, map_map]
  rfl

theorem Layered.reachable (layered : Layered m done s) {t : Trace σ}
    (belongs : t ∈ done ++ s.queue) :
    m.Reachable t.last :=
  (layered.paths t belongs).1.after.reachable

theorem Layered.holds (layered : Layered m done s) {t : Trace σ} (belongs : t ∈ done ++ s.queue) :
    m.Holds t.last :=
  (layered.paths t belongs).2.2 _ (getLast_mem _)

/-- **The layers.** Where every trace that waits has at least this many actions, the
states that as many steps lead to have been seen, at the end of no longer traces. -/
theorem Layered.reaches (layered : Layered m done s)
    (identifies : Set.InjOn key {s | m.Reachable s}) {n : Nat} {x : σ} (after : m.After n x)
    (allowed : m.Allows n) (later : ∀ t ∈ s.queue, n ≤ t.actions.length) :
    ∃ t ∈ done ++ s.queue, t.last = x ∧ t.actions.length ≤ n := by
  induction after with
  | initial =>
    obtain ⟨t, belongs, ends, short⟩ := layered.initial
    exact ⟨t, belongs, ends, short.le⟩
  | @step n y next before step ih =>
    obtain ⟨t, belongs, rfl, short⟩ := ih (allowed.mono (le_succ n))
      fun t waits => (le_succ n).trans (later t waits)
    have finished : t ∈ done := by
      rcases mem_append.mp belongs with finished | waits
      · exact finished
      · have long := later t waits
        omega
    have expands := Model.allows_succ.mp (allowed.mono (succ_le_succ short))
    obtain ⟨u, known, named, close⟩ := layered.closed t finished expands next step
    refine ⟨u, known, identifies (layered.reachable known) ?_ named, by omega⟩
    exact (layered.reachable belongs).tail step

section Turn

variable {cur : Trace σ} {queue : List (Trace σ)}

theorem Layered.first (layered : Layered m done s) (first : s.queue = cur :: queue) :
    (∀ t ∈ done, t.actions.length ≤ cur.actions.length) ∧
      ∀ t ∈ queue, cur.actions.length ≤ t.actions.length ∧
        t.actions.length ≤ cur.actions.length + 1 := by
  have sorted := layered.sorted
  rw [first, pairwise_append, pairwise_cons] at sorted
  refine ⟨fun t finished => sorted.2.2 t finished cur mem_cons_self, fun t waits => ?_⟩
  refine ⟨sorted.2.1.1 t waits, layered.near cur ?_ t ?_⟩
  · simp [first]
  · simp [first, waits]

theorem Layered.grown (layered : Layered m done s) (waits : cur ∈ done ++ s.queue)
    (expands : m.Expands cur.actions.length) {action : Action σ} (listed : action ∈ m.actions)
    {next : σ} (enables : action.fn cur.last = some next) :
    (cur.extend action.name next).Path m ∧ m.Allows (cur.extend action.name next).actions.length ∧
      m.Within next := by
  have path := (layered.paths cur waits).1.extend listed enables
  have allowed : m.Allows (cur.extend action.name next).actions.length := by
    rw [length_extend]
    exact Model.allows_succ.mpr expands
  refine ⟨path, allowed, _, ?_, allowed⟩
  have after := path.after
  rwa [last_extend] at after

theorem Layered.cut (layered : Layered m done s) (first : s.queue = cur :: queue)
    (deep : ¬ m.Expands cur.actions.length) {res : Result σ}
    (kept : res.deadlocks = s.res.deadlocks) (clean : res.violation = none ∧ res.wedged = []) :
    Layered m (done ++ [cur]) { s with queue := queue, res := res } := by
  have same : done ++ [cur] ++ queue = done ++ s.queue := by simp [first]
  have behind := (layered.first first).2
  refine ⟨?_, layered.distinct, ?_, ?_, ?_, ?_, ?_, ?_, ?_, ?_, layered.room, clean⟩
  · rw [same]
    exact layered.seen
  · rw [same]
    exact layered.initial
  · rw [same]
    exact layered.paths
  · rw [same]
    exact layered.sorted
  · intro t one u other
    exact layered.near t (first ▸ mem_cons_of_mem _ one) u (first ▸ mem_cons_of_mem _ other)
  · intro t member expands
    rw [same]
    rcases mem_append.mp member with old | last
    · exact layered.closed t old expands
    · obtain rfl := mem_singleton.mp last
      exact (deep expands).elim
  · intro a b
    refine (layered.edges a b).trans ⟨?_, ?_⟩
    · intro edge
      obtain ⟨t, old, rest⟩ := edge
      exact ⟨t, mem_append_left _ old, rest⟩
    · intro edge
      obtain ⟨t, member, expands, rest⟩ := edge
      rcases mem_append.mp member with old | last
      · exact ⟨t, old, expands, rest⟩
      · obtain rfl := mem_singleton.mp last
        exact (deep expands).elim
  · intro t
    rw [kept, layered.deadlocks, mem_append, or_and_right]
    refine (or_iff_left fun last => ?_).symm
    exact deep (mem_singleton.mp last.1 ▸ last.2.1)
  · rw [kept]
    exact layered.once.trans (sublist_append_left _ _)

theorem Layered.turn (layered : Layered m done s) (first : s.queue = cur :: queue)
    (expands : m.Expands cur.actions.length) {res ended : Result σ} {new : List (Trace σ)}
    {s' : Search σ} {enabled : Nat}
    (visited : Visited m cur { s with queue := queue, res := res } m.actions new s' enabled)
    (deadlocks : ended.deadlocks = if enabled = 0 ∧ terminal cur.last = false
      then s.res.deadlocks ++ [cur] else s.res.deadlocks)
    (clean : ended.violation = none ∧ ended.wedged = []) :
    Layered m (done ++ [cur]) { s' with res := ended } := by
  have waits : cur ∈ done ++ s.queue := by simp [first]
  have traces : done ++ [cur] ++ s'.queue = done ++ s.queue ++ new := by
    simp [visited.queue, first]
  have keys : s'.keys = (done ++ s.queue ++ new).map fun t => key t.last := by
    rw [Search.keys, visited.seen, layered.seen, ← map_append, map_map]
    rfl
  have longer : ∀ t ∈ new, t.actions.length = cur.actions.length + 1 := by
    intro t added
    obtain ⟨-, action, -, next, -, rfl⟩ := visited.grown t added
    exact length_extend ..
  obtain ⟨ahead, behind⟩ := layered.first first
  -- no trace is longer than those that join the queue
  have most : ∀ t ∈ done ++ s.queue, t.actions.length ≤ cur.actions.length + 1 := by
    intro t member
    rcases mem_append.mp member with old | queued
    · exact le_succ_of_le (ahead t old)
    · rw [first] at queued
      rcases mem_cons.mp queued with rfl | later
      · exact le_succ _
      · exact (behind t later).2
  have idle : enabled = 0 ↔ ∀ next, m.Step cur.last next → key next = key cur.last := by
    rw [visited.idle]
    constructor
    · rintro all next ⟨action, listed, enables⟩
      exact all action listed next enables
    · exact fun all action listed next enables => all next ⟨action, listed, enables⟩
  refine ⟨?_, visited.distinct, ?_, ?_, ?_, ?_, ?_, ?_, ?_, ?_, ?_, clean⟩
  · rw [traces, map_append, ← layered.seen]
    exact visited.seen
  · obtain ⟨t, belongs, rest⟩ := layered.initial
    rw [traces]
    exact ⟨t, mem_append_left _ belongs, rest⟩
  · intro t member
    rw [traces] at member
    rcases mem_append.mp member with old | added
    · exact layered.paths t old
    · obtain ⟨holds, action, listed, next, enables, rfl⟩ := visited.grown t added
      obtain ⟨path, allowed, -⟩ := layered.grown waits expands listed enables
      refine ⟨path, allowed, fun x on => ?_⟩
      rcases mem_append.mp on with before | last
      · exact (layered.paths cur waits).2.2 x before
      · rw [last_extend] at holds
        rwa [mem_singleton.mp last]
  · rw [traces, pairwise_append]
    refine ⟨layered.sorted, ?_, fun t old u added => ?_⟩
    · refine pairwise_of_forall_mem_list fun t one u other => ?_
      rw [longer t one, longer u other]
    · rw [longer u added]
      exact most t old
  · intro t one u other
    have least : ∀ t ∈ s'.queue, cur.actions.length ≤ t.actions.length ∧
        t.actions.length ≤ cur.actions.length + 1 := by
      intro t member
      rw [visited.queue] at member
      rcases mem_append.mp member with later | added
      · exact behind t later
      · rw [longer t added]
        exact ⟨le_succ _, le_rfl⟩
    exact (least u other).2.trans (succ_le_succ (least t one).1)
  · intro t member expanded next step
    rw [traces]
    rcases mem_append.mp member with old | last
    · obtain ⟨u, known, named, close⟩ := layered.closed t old expanded next step
      exact ⟨u, mem_append_left _ known, named, close⟩
    · obtain rfl := mem_singleton.mp last
      obtain ⟨action, listed, enables⟩ := step
      have found := visited.found action listed next enables
      rw [keys] at found
      obtain ⟨u, known, named⟩ := mem_map.mp found
      refine ⟨u, known, named, ?_⟩
      rcases mem_append.mp known with old | added
      · exact most u old
      · exact (longer u added).le
  · intro a b
    refine (visited.edges a b).trans ((or_congr_left (layered.edges a b)).trans ⟨?_, ?_⟩)
    · intro edge
      rcases edge with ⟨t, old, rest⟩ | ⟨rfl, action, listed, next, enables, moves, rfl⟩
      · exact ⟨t, mem_append_left _ old, rest⟩
      · exact ⟨cur, mem_append_right _ mem_cons_self, expands, rfl, next,
          ⟨action, listed, enables⟩, moves, rfl⟩
    · intro edge
      obtain ⟨t, member, expanded, rfl, next, step, moves, rfl⟩ := edge
      rcases mem_append.mp member with old | last
      · exact .inl ⟨t, old, expanded, rfl, next, step, moves, rfl⟩
      · obtain rfl := mem_singleton.mp last
        obtain ⟨action, listed, enables⟩ := step
        exact .inr ⟨rfl, action, listed, next, enables, moves, rfl⟩
  · intro t
    simp only [deadlocks]
    by_cases stuck : enabled = 0 ∧ terminal cur.last = false
    · rw [if_pos stuck, mem_append, mem_append, layered.deadlocks, or_and_right]
      refine or_congr_right (iff_self_and.mpr fun last => ?_)
      exact mem_singleton.mp last ▸ ⟨expands, stuck.2, idle.mp stuck.1⟩
    · rw [if_neg stuck, mem_append, layered.deadlocks, or_and_right]
      refine (or_iff_left fun last => stuck ?_).symm
      obtain rfl := mem_singleton.mp last.1
      exact ⟨idle.mpr last.2.2.2, last.2.2.1⟩
  · simp only [deadlocks]
    split
    · exact layered.once.append (List.Sublist.refl _)
    · exact layered.once.trans (sublist_append_left _ _)
  · rcases visited.room with rfl | room
    · have room := layered.room
      have same : s'.seen = s.seen := by simp [visited.seen]
      change (s'.seen.length : Int) < _
      rwa [same]
    · exact lt_max_of_lt_right room

/-- An action at which the search stops. What was closer holds, and everything seen
is a state of its own within the bound on the depth. -/
theorem Layered.stopped (layered : Layered m done s)
    (identifies : Set.InjOn key {s | m.Reachable s})
    (first : s.queue = cur :: queue) (expands : m.Expands cur.actions.length) {res r : Result σ}
    (clean : res.wedged = []) {new : List (Trace σ)} {front : List (Action σ)} {s' : Search σ}
    {enabled : Nat} {action : Action σ} (listed : action ∈ m.actions)
    (visited : Visited m cur { s with queue := queue, res := res } front new s' enabled)
    (stops : Stops m cur s' action r) : ∃ v, Stopped m r v := by
  have waits : cur ∈ done ++ s.queue := by simp [first]
  obtain ⟨next, v, enables, fresh, reported, kept, trace, cause⟩ := stops
  obtain ⟨path, allowed, within⟩ := layered.grown waits expands listed enables
  have all : ∀ t ∈ done ++ s.queue ++ new, m.Within t.last ∧ m.Holds t.last := by
    intro t member
    rcases mem_append.mp member with old | added
    · exact ⟨⟨_, (layered.paths t old).1.after, (layered.paths t old).2.1⟩, layered.holds old⟩
    · obtain ⟨holds, other, known, x, leads, rfl⟩ := visited.grown t added
      refine ⟨?_, holds⟩
      rw [last_extend]
      exact (layered.grown waits expands known leads).2.2
  have keys : s'.keys = ((done ++ s.queue ++ new).map last).map key := by
    rw [Search.keys, visited.seen, layered.seen, ← map_append, map_map, map_map]
    rfl
  have count : s'.seen.length = (done ++ s.queue ++ new).length := by
    rw [visited.seen, layered.seen, ← map_append, length_map]
  have one : 0 < (done ++ s.queue ++ new).length :=
    length_pos_of_mem (mem_append_left _ waits)
  have unlisted : r.wedged = [] := by rw [kept, visited.res, clean]
  refine ⟨v, reported, unlisted, trace ▸ path, trace ▸ allowed, ?_, ?_, ?_⟩
  · intro x before
    rw [trace, dropLast_extend] at before
    exact (layered.paths cur waits).2.2 x before
  · intro n x after shorter
    rw [trace, length_extend] at shorter
    have least : ∀ t ∈ s.queue, n ≤ t.actions.length := by
      intro t member
      rw [first] at member
      rcases mem_cons.mp member with rfl | later
      · omega
      · have longer := ((layered.first first).2 t later).1
        omega
    have shallow : m.Allows n := (layered.paths cur waits).2.1.mono (by omega)
    obtain ⟨t, belongs, rfl, -⟩ := layered.reaches identifies after shallow least
    exact layered.holds belongs
  · rw [trace, last_extend]
    rcases cause with failing | ⟨holds, named, full⟩
    · exact .inl failing
    · refine .inr ⟨holds, named, (done ++ s.queue ++ new).map last ++ [next], ?_, ?_, ?_, ?_⟩
      · refine List.Nodup.of_map key ?_
        rw [map_append, ← keys]
        refine visited.distinct.append (nodup_singleton _) fun k old added => ?_
        exact fresh (mem_singleton.mp added ▸ old)
      · intro x member
        rcases mem_append.mp member with old | last
        · obtain ⟨t, belongs, rfl⟩ := mem_map.mp old
          exact all t belongs
        · exact mem_singleton.mp last ▸ ⟨within, holds⟩
      · rw [length_append, length_map, length_singleton]
        omega
      · rw [length_append, length_map, length_singleton, ← count]
        exact_mod_cast full

/-- **One turn.** The search goes on with less to do, or it stops. -/
theorem Layered.expand (layered : Layered m done s) (identifies : Set.InjOn key {s | m.Reachable s})
    (first : s.queue = cur :: queue) :
    (∃ s', expand m cur { s with queue := queue } = .ok s' ∧
        Layered m (done ++ [cur]) s' ∧
        s'.queue.length + (m.bound.toNat - s'.seen.length) <
          s.queue.length + (m.bound.toNat - s.seen.length)) ∨
      ∃ r v, expand m cur { s with queue := queue } = .error r ∧ Stopped m r v := by
  have waits : cur ∈ done ++ s.queue := by simp [first]
  have here : key cur.last ∈ s.keys := by
    rw [layered.keys]
    exact mem_map_of_mem waits
  obtain ⟨res, same, listed, turn⟩ := expand_eq m cur { s with queue := queue }
  have clean : res.violation = none ∧ res.wedged = [] :=
    ⟨same.1.trans layered.clean.1, same.2.trans layered.clean.2⟩
  rw [turn]
  by_cases expands : m.Expands cur.actions.length
  · rw [if_neg expands]
    have begun : Visited m cur { s with queue := queue, res := res } [] []
        { s with queue := queue, res := res } 0 :=
      { seen := by simp
        queue := by simp
        res := rfl
        distinct := layered.distinct
        grown := by simp
        found := by simp
        edges := by simp
        idle := by simp
        room := .inl rfl }
    rcases begun.foldlM here fun _ listed => listed with
      ⟨new, s', enabled, ran, visited⟩ |
      ⟨r, front, action, new, s', enabled, ran, known, visited, stops⟩
    · have less : s'.queue.length + (m.bound.toNat - s'.seen.length) <
          s.queue.length + (m.bound.toNat - s.seen.length) := by
        rw [visited.queue, visited.seen, first]
        simp only [length_append, length_cons, length_map]
        rcases visited.room with rfl | room
        · simp
        · rw [visited.seen] at room
          simp only [length_append, length_map] at room
          omega
      have kept : s'.res.violation = none ∧ s'.res.wedged = [] := by
        rw [visited.res]
        exact clean
      have before : s'.res.deadlocks = s.res.deadlocks := by
        rw [visited.res]
        exact listed
      rw [ran]
      by_cases stuck : enabled = 0 ∧ (!terminal cur.last) = true
      · refine .inl ⟨_, if_pos stuck, layered.turn first expands visited ?_ kept, less⟩
        rw [if_pos ⟨stuck.1, by simpa using stuck.2⟩, ← before]
      · refine .inl ⟨_, if_neg stuck, layered.turn first expands visited ?_ kept, less⟩
        rw [if_neg fun both => stuck ⟨both.1, by simpa using both.2⟩, before]
    · rw [ran]
      obtain ⟨v, stopped⟩ := layered.stopped identifies first expands clean.2 known visited stops
      exact .inr ⟨r, v, rfl, stopped⟩
  · rw [if_pos (not_not.mp expands)]
    refine .inl ⟨_, rfl, layered.cut first expands listed clean, ?_⟩
    simp only [first, length_cons]
    omega

end Turn

/-- **The loop.** With enough turns the queue runs empty, or the search stops. -/
theorem Layered.search (ranges : Ranges) (layered : Layered m done s)
    (identifies : Set.InjOn key {s | m.Reachable s}) {fuel : Nat}
    (enough : s.queue.length + (m.bound.toNat - s.seen.length) ≤ fuel) :
    (∃ done' s', Layered m done' s' ∧ s'.queue = [] ∧ search ranges m fuel s = finish ranges s') ∨
      ∃ r v, search ranges m fuel s = some r ∧ Stopped m r v := by
  induction fuel generalizing done s with
  | zero =>
    have empty : s.queue = [] := eq_nil_of_length_eq_zero (by omega)
    refine .inl ⟨done, s, layered, empty, ?_⟩
    unfold search
    rw [empty]
  | succ fuel ih =>
    unfold search
    cases first : s.queue with
    | nil => exact .inl ⟨done, s, layered, first, rfl⟩
    | cons cur queue =>
      rcases layered.expand identifies first with
        ⟨s', ran, next, less⟩ | ⟨r, v, ran, stopped⟩
      · simp only [ran]
        exact ih next (by omega)
      · simp only [ran]
        exact .inr ⟨r, v, rfl, stopped⟩

end Queue

section Explore

variable {m : Model σ}

theorem layered_initial (holds : m.Holds m.initial) :
    Layered m [] ⟨[(key m.initial, ⟨[], [m.initial], cons_ne_nil _ _⟩)], [],
      [⟨[], [m.initial], cons_ne_nil _ _⟩], {}⟩ where
  seen := rfl
  distinct := nodup_singleton _
  initial := ⟨_, mem_cons_self, rfl, rfl⟩
  paths := by
    intro t member
    obtain rfl := mem_singleton.mp member
    refine ⟨path_initial m, Model.allows_zero, fun x on => ?_⟩
    exact mem_singleton.mp on ▸ holds
  sorted := pairwise_singleton _ _
  near := by
    intro t one u other
    obtain rfl := mem_singleton.mp one
    obtain rfl := mem_singleton.mp other
    exact le_succ _
  closed := by simp
  edges := by simp [Edge]
  deadlocks := by simp
  once := .refl _
  room := by simp
  clean := ⟨rfl, rfl⟩

/-- **The search.** It stops with something to report, or it has emptied its queue. -/
theorem explore_layered (ranges : Ranges) (positive : 0 < m.bound)
    (identifies : Set.InjOn key {s | m.Reachable s}) :
    (∃ done s, Layered m done s ∧ s.queue = [] ∧ explore ranges m = finish ranges s) ∨
      ∃ r v, explore ranges m = some r ∧ Stopped m r v := by
  unfold explore
  cases checked : checkInvariants m m.initial ⟨[], [m.initial], cons_ne_nil _ _⟩ with
  | some v =>
    simp only [checked]
    obtain ⟨trace, failing⟩ := exists_of_checkInvariants checked
    refine .inr ⟨{ violation := some v, statesExplored := 1 }, v, ?_, rfl, rfl, ?_, ?_, ?_, ?_, ?_⟩
    · rfl
    · exact trace ▸ path_initial m
    · rw [trace]
      exact Model.allows_zero
    · simp [trace]
    · simp [trace]
    · rw [trace]
      exact .inl failing
  | none =>
    simp only [checked]
    have enough : 1 + (m.bound.toNat - 1) ≤ m.bound.toNat := by omega
    exact (layered_initial (checkInvariants_eq_none.mp checked)).search ranges identifies enough

end Explore

end Souq.ModelCheck
