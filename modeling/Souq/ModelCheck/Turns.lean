import Mathlib.Logic.Relation
import Souq.ModelCheck.Explorer

/-!
# The turn of one trace

What the actions at the end of a trace add to the search: every state they lead to has
been seen, and an edge is recorded to each but the state itself.
-/

namespace Souq.ModelCheck

open List

variable {σ : Type}

namespace Model

def Step (m : Model σ) (s next : σ) : Prop := ∃ action ∈ m.actions, action.fn s = some next

/-- Some actions lead to the state. -/
def Reachable (m : Model σ) : σ → Prop := Relation.ReflTransGen m.Step m.initial

/-- The state satisfies every invariant. -/
def Holds (m : Model σ) (s : σ) : Prop := ∀ inv ∈ m.invariants, inv.fn s = none

/-- Every enabled action leads back to the state. -/
def Idle (m : Model σ) (s : σ) : Prop := ∀ next, m.Step s next → next = s

/-- A terminal state is within reach. -/
def Finishes [State σ] (m : Model σ) (s : σ) : Prop :=
  ∃ t, Relation.ReflTransGen m.Step s t ∧ terminal t = true

end Model

theorem checkInvariants_eq_none {m : Model σ} {s : σ} {trace : Trace σ} :
    checkInvariants m s trace = none ↔ m.Holds s := by
  simp [checkInvariants, Model.Holds]

def Edge (successors : List (String × List String)) (a b : String) : Prop :=
  ∃ bs, (a, bs) ∈ successors ∧ b ∈ bs

theorem edge_appendAt {k v a b : String} {successors : List (String × List String)} :
    Edge (appendAt k v successors) a b ↔ Edge successors a b ∨ a = k ∧ b = v := by
  induction successors with
  | nil => simp [Edge, appendAt]
  | cons entry successors ih =>
    obtain ⟨k', vs⟩ := entry
    unfold appendAt
    split
    · rename_i same
      subst same
      simp only [Edge, mem_cons, Prod.mk.injEq]
      constructor
      · rintro ⟨bs, ⟨rfl, rfl⟩ | old, member⟩
        · rcases mem_append.mp member with earlier | added
          · exact .inl ⟨vs, .inl ⟨rfl, rfl⟩, earlier⟩
          · exact .inr ⟨rfl, mem_singleton.mp added⟩
        · exact .inl ⟨bs, .inr old, member⟩
      · rintro (⟨bs, ⟨rfl, rfl⟩ | old, member⟩ | ⟨rfl, rfl⟩)
        · exact ⟨_, .inl ⟨rfl, rfl⟩, mem_append_left _ member⟩
        · exact ⟨bs, .inr old, member⟩
        · exact ⟨_, .inl ⟨rfl, rfl⟩, mem_append_right _ mem_cons_self⟩
    · have split : ∀ rest, Edge ((k', vs) :: rest) a b ↔ a = k' ∧ b ∈ vs ∨ Edge rest a b := by
        intro rest
        constructor
        · rintro ⟨bs, entry, member⟩
          rcases mem_cons.mp entry with here | later
          · cases here
            exact .inl ⟨rfl, member⟩
          · exact .inr ⟨bs, later, member⟩
        · rintro (⟨rfl, member⟩ | ⟨bs, later, member⟩)
          · exact ⟨vs, mem_cons_self, member⟩
          · exact ⟨bs, mem_cons_of_mem _ later, member⟩
      rw [split, split, ih, or_assoc]

variable [State σ]

def Search.keys (s : Search σ) : List String := s.seen.map Prod.fst

/-- What the actions of a state have added. -/
structure Visited (m : Model σ) (cur : Trace σ) (start : Search σ) (done : List (Action σ))
    (new : List (Trace σ)) (s : Search σ) (enabled : Nat) : Prop where
  seen : s.seen = start.seen ++ new.map fun t => (key t.last, t)
  queue : s.queue = start.queue ++ new
  res : s.res = start.res
  distinct : s.keys.Nodup
  grown : ∀ t ∈ new, m.Holds t.last ∧ ∃ action ∈ m.actions, ∃ next,
    action.fn cur.last = some next ∧ t = cur.extend action.name next
  found : ∀ action ∈ done, ∀ next, action.fn cur.last = some next → key next ∈ s.keys
  edges : ∀ a b, Edge s.successors a b ↔ Edge start.successors a b ∨
    a = key cur.last ∧ ∃ action ∈ done, ∃ next, action.fn cur.last = some next ∧
      key next ≠ key cur.last ∧ b = key next
  idle : enabled = 0 ↔ ∀ action ∈ done, ∀ next, action.fn cur.last = some next →
    key next = key cur.last
  room : new = [] ∨ s.seen.length < m.bound

section Visit

variable {m : Model σ} {cur : Trace σ} {start s : Search σ} {done : List (Action σ)}
  {new : List (Trace σ)} {enabled : Nat} {action : Action σ}

theorem Visited.skip (visited : Visited m cur start done new s enabled)
    (here : key cur.last ∈ s.keys)
    (idles : ∀ next, action.fn cur.last = some next → key next = key cur.last) :
    Visited m cur start (done ++ [action]) new s enabled where
  seen := visited.seen
  queue := visited.queue
  res := visited.res
  distinct := visited.distinct
  grown := visited.grown
  found := by
    intro other member next enables
    rcases mem_append.mp member with earlier | last
    · exact visited.found other earlier next enables
    · obtain rfl := mem_singleton.mp last
      rwa [idles next enables]
  edges := by
    intro a b
    rw [visited.edges]
    refine or_congr_right (and_congr_right fun _ => ⟨?_, ?_⟩)
    · rintro ⟨other, earlier, rest⟩
      exact ⟨other, mem_append_left _ earlier, rest⟩
    · rintro ⟨other, member, next, enables, moves, same⟩
      rcases mem_append.mp member with earlier | last
      · exact ⟨other, earlier, next, enables, moves, same⟩
      · obtain rfl := mem_singleton.mp last
        exact (moves (idles next enables)).elim
  idle := by
    rw [visited.idle]
    constructor
    · intro all other member next enables
      rcases mem_append.mp member with earlier | last
      · exact all other earlier next enables
      · obtain rfl := mem_singleton.mp last
        exact idles next enables
    · exact fun all other earlier => all other (mem_append_left _ earlier)
  room := visited.room

theorem Visited.edge (visited : Visited m cur start done new s enabled) {next : σ}
    (enables : action.fn cur.last = some next) (moves : key next ≠ key cur.last) (a b : String) :
    Edge (appendAt (key cur.last) (key next) s.successors) a b ↔ Edge start.successors a b ∨
      a = key cur.last ∧ ∃ other ∈ done ++ [action], ∃ next, other.fn cur.last = some next ∧
        key next ≠ key cur.last ∧ b = key next := by
  rw [edge_appendAt, visited.edges, or_assoc]
  refine or_congr_right ?_
  constructor
  · rintro (⟨rfl, other, earlier, rest⟩ | ⟨rfl, rfl⟩)
    · exact ⟨rfl, other, mem_append_left _ earlier, rest⟩
    · exact ⟨rfl, action, mem_append_right _ mem_cons_self, next, enables, moves, rfl⟩
  · rintro ⟨rfl, other, member, n, leads, different, rfl⟩
    rcases mem_append.mp member with earlier | last
    · exact .inl ⟨rfl, other, earlier, n, leads, different, rfl⟩
    · obtain rfl := mem_singleton.mp last
      cases enables.symm.trans leads
      exact .inr ⟨rfl, rfl⟩

theorem Visited.not_idle {next : σ} (enables : action.fn cur.last = some next)
    (moves : key next ≠ key cur.last) :
    enabled + 1 = 0 ↔ ∀ other ∈ done ++ [action], ∀ next, other.fn cur.last = some next →
      key next = key cur.last := by
  constructor
  · intro zero
    cases zero
  · intro all
    exact (moves (all action (mem_append_right _ mem_cons_self) next enables)).elim

theorem Visited.again (visited : Visited m cur start done new s enabled) {next : σ}
    (enables : action.fn cur.last = some next) (moves : key next ≠ key cur.last)
    (known : key next ∈ s.keys) :
    Visited m cur start (done ++ [action]) new
      { s with successors := appendAt (key cur.last) (key next) s.successors } (enabled + 1) where
  seen := visited.seen
  queue := visited.queue
  res := visited.res
  distinct := visited.distinct
  grown := visited.grown
  found := by
    intro other member n leads
    rcases mem_append.mp member with earlier | last
    · exact visited.found other earlier n leads
    · obtain rfl := mem_singleton.mp last
      cases enables.symm.trans leads
      exact known
  edges := visited.edge enables moves
  idle := Visited.not_idle enables moves
  room := visited.room

theorem Visited.add (visited : Visited m cur start done new s enabled) (listed : action ∈ m.actions)
    {next : σ} (enables : action.fn cur.last = some next) (moves : key next ≠ key cur.last)
    (fresh : key next ∉ s.keys) (holds : m.Holds next)
    (room : (s.seen ++ [(key next, cur.extend action.name next)]).length < m.bound) :
    Visited m cur start (done ++ [action]) (new ++ [cur.extend action.name next])
      { s with
        seen := s.seen ++ [(key next, cur.extend action.name next)]
        successors := appendAt (key cur.last) (key next) s.successors
        queue := s.queue ++ [cur.extend action.name next] } (enabled + 1) where
  seen := by simp [visited.seen]
  queue := by simp [visited.queue]
  res := visited.res
  distinct := by
    simp only [Search.keys, map_append, map_cons, map_nil]
    refine visited.distinct.append (nodup_singleton _) ?_
    intro k old added
    rw [mem_singleton.mp added] at old
    exact fresh old
  grown := by
    intro t member
    rcases mem_append.mp member with earlier | last
    · exact visited.grown t earlier
    · rw [mem_singleton.mp last, Trace.last_extend]
      exact ⟨holds, action, listed, next, enables, rfl⟩
  found := by
    intro other member n leads
    simp only [Search.keys, map_append, mem_append]
    rcases mem_append.mp member with earlier | last
    · exact .inl (visited.found other earlier n leads)
    · obtain rfl := mem_singleton.mp last
      cases enables.symm.trans leads
      exact .inr mem_cons_self
  edges := visited.edge enables moves
  idle := Visited.not_idle enables moves
  room := .inr room

omit [State σ] in
theorem mem_keys_iff {k : String} : (s.seen.any fun entry => entry.1 = k) = true ↔ k ∈ s.keys := by
  simp only [Search.keys, any_eq_true, mem_map, decide_eq_true_eq]

omit [State σ] in
theorem exists_of_checkInvariants {x : σ} {trace : Trace σ} {v : Violation σ}
    (checked : checkInvariants m x trace = some v) : v.trace = trace ∧
      ∃ inv ∈ m.invariants, inv.name = v.invariant ∧ inv.fn x = some v.detail := by
  obtain ⟨inv, listed, fails⟩ := exists_of_findSome?_eq_some checked
  obtain ⟨err, returned, rfl⟩ := Option.map_eq_some_iff.mp fails
  exact ⟨rfl, inv, listed, rfl, returned⟩

/-- The search stops at an action that leads to a new state, with what it reports. -/
def Stops (m : Model σ) (cur : Trace σ) (s : Search σ) (action : Action σ) (r : Result σ) : Prop :=
  ∃ next v, action.fn cur.last = some next ∧ key next ∉ s.keys ∧ r.violation = some v ∧
    r.wedged = s.res.wedged ∧ v.trace = cur.extend action.name next ∧
    ((∃ inv ∈ m.invariants, inv.name = v.invariant ∧ inv.fn next = some v.detail) ∨
      m.Holds next ∧ v.invariant = "state-space bound" ∧ m.bound ≤ s.seen.length + 1)

/-- **One action.** The search goes on, or it stops. -/
theorem Visited.visit (visited : Visited m cur start done new s enabled)
    (here : key cur.last ∈ s.keys) (listed : action ∈ m.actions) :
    (∃ new' s' enabled', ModelCheck.visit m cur (s, enabled) action = .ok (s', enabled') ∧
        Visited m cur start (done ++ [action]) new' s' enabled') ∨
      ∃ r, ModelCheck.visit m cur (s, enabled) action = .error r ∧ Stops m cur s action r := by
  unfold ModelCheck.visit
  cases enables : action.fn cur.last with
  | none =>
    exact .inl ⟨new, s, enabled, rfl,
      visited.skip here fun next leads => by cases enables.symm.trans leads⟩
  | some next =>
    by_cases same : key next = key cur.last
    · simp only [same, ↓reduceIte]
      refine .inl ⟨new, s, enabled, rfl, visited.skip here fun n leads => ?_⟩
      cases enables.symm.trans leads
      exact same
    · simp only [same, ↓reduceIte]
      by_cases known : (s.seen.any fun entry => entry.1 = key next) = true
      · simp only [known, ↓reduceIte]
        exact .inl ⟨new, _, _, rfl, visited.again enables same (mem_keys_iff.mp known)⟩
      · have fresh : key next ∉ s.keys := fun member => known (mem_keys_iff.mpr member)
        simp only [known, Bool.false_eq_true, ↓reduceIte]
        cases checked : checkInvariants m next (cur.extend action.name next) with
        | some v =>
          obtain ⟨trace, failing⟩ := exists_of_checkInvariants checked
          exact .inr ⟨_, rfl, next, v, enables, fresh, rfl, rfl, trace, .inl failing⟩
        | none =>
          simp only
          split
          · rename_i full
            exact .inr ⟨_, rfl, next, _, enables, fresh, rfl, rfl, rfl,
              .inr ⟨checkInvariants_eq_none.mp checked, rfl, by simpa using full⟩⟩
          · rename_i below
            exact .inl ⟨_, _, _, rfl, visited.add listed enables same fresh
              (checkInvariants_eq_none.mp checked) (lt_of_not_ge below)⟩

/-- **The actions of one state.** The search goes on after all of them, or it stops at
one of them. -/
theorem Visited.foldlM (visited : Visited m cur start done new s enabled)
    (here : key cur.last ∈ start.keys) {actions : List (Action σ)}
    (listed : ∀ action ∈ actions, action ∈ m.actions) :
    (∃ new' s' enabled', actions.foldlM (ModelCheck.visit m cur) (s, enabled) = .ok (s', enabled') ∧
        Visited m cur start (done ++ actions) new' s' enabled') ∨
      ∃ r front action new' s' enabled',
        actions.foldlM (ModelCheck.visit m cur) (s, enabled) = .error r ∧ action ∈ m.actions ∧
          Visited m cur start front new' s' enabled' ∧ Stops m cur s' action r := by
  induction actions generalizing done new s enabled with
  | nil => exact .inl ⟨new, s, enabled, rfl, by simpa using visited⟩
  | cons action actions ih =>
    have there : key cur.last ∈ s.keys := by
      rw [Search.keys, visited.seen, map_append]
      exact mem_append_left _ here
    rw [foldlM_cons]
    rcases visited.visit there (listed action mem_cons_self) with
      ⟨new', s', enabled', ran, next⟩ | ⟨r, stopped, stops⟩
    · have later := ih next fun other member => listed other (mem_cons_of_mem _ member)
      rw [append_assoc] at later
      rw [ran]
      exact later
    · rw [stopped]
      exact .inr ⟨r, done, action, new, s, enabled, rfl, listed action mem_cons_self,
        visited, stops⟩

theorem expand_eq (m : Model σ) (cur : Trace σ) (s : Search σ) :
    ∃ res : Result σ, (res.violation = s.res.violation ∧ res.wedged = s.res.wedged) ∧
      res.deadlocks = s.res.deadlocks ∧ expand m cur s =
      if m.maxDepth > 0 ∧ (cur.actions.length : Int) ≥ m.maxDepth then .ok { s with res := res }
      else (m.actions.foldlM (visit m cur) ({ s with res := res }, 0)).bind fun acted =>
        if acted.2 = 0 ∧ !terminal cur.last then
          .ok { acted.1 with
            res := { acted.1.res with deadlocks := acted.1.res.deadlocks ++ [cur] } }
        else .ok acted.1 := by
  refine ⟨{ s.res with
    maxDepthSeen := max s.res.maxDepthSeen cur.actions.length
    terminalStates := if terminal cur.last then s.res.terminalStates + 1
      else s.res.terminalStates }, ⟨rfl, rfl⟩, rfl, ?_⟩
  unfold expand
  split
  · rfl
  · rfl

end Visit

end Souq.ModelCheck
