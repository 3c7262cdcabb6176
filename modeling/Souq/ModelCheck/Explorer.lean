import Mathlib.Data.List.Sort
import Souq.Lib.Worklist

/-!
# The model checker

`Explore` of `libs/go-modelcheck/explorer.go`: a breadth-first search that checks
every invariant at every state, followed by a backward closure that finds the
states which cannot finish.

A Go map is the list of its entries in the order they were added. A `range` over
a map may visit them in any order, so every such loop has an order of its own.
-/

namespace Souq.ModelCheck

/-- A point in the model. -/
class State (σ : Type) where
  key : σ → String
  terminal : σ → Bool

export State (key terminal)

/-- One possible step, or none where it is not enabled. -/
structure Action (σ : Type) where
  name : String
  fn : σ → Option σ

/-- A property of every reachable state, with the message of a failure. -/
structure Invariant (σ : Type) where
  name : String
  fn : σ → Option String

/-- A model to be explored. -/
structure Model (σ : Type) where
  initial : σ
  actions : List (Action σ)
  invariants : List (Invariant σ)
  maxStates : Int := 0
  maxDepth : Int := 0

/-- The action names taken and the states passed through. -/
structure Trace (σ : Type) where
  actions : List String
  states : List σ
  nonempty : states ≠ []

/-- A broken invariant, and the way to it. -/
structure Violation (σ : Type) where
  invariant : String
  detail : String
  trace : Trace σ

/-- What an exploration reports. -/
structure Result (σ : Type) where
  statesExplored : Nat := 0
  maxDepthSeen : Nat := 0
  terminalStates : Nat := 0
  violation : Option (Violation σ) := none
  deadlocks : List (Trace σ) := []
  wedged : List (Trace σ) := []
  reached : List σ := []

/-- The order in which the `range` loops over maps visit the entries. -/
structure Ranges where
  order : Nat → {α : Type} → List α → List α
  perm : ∀ loop {α : Type} (entries : List α), (order loop entries).Perm entries

variable {σ : Type}

namespace Trace

/-- Where a trace ends. -/
def last (t : Trace σ) : σ := t.states.getLast t.nonempty

def extend (t : Trace σ) (name : String) (next : σ) : Trace σ :=
  ⟨t.actions ++ [name], t.states ++ [next], by simp⟩

@[simp] theorem last_extend (t : Trace σ) (name : String) (next : σ) :
    (t.extend name next).last = next := by
  simp [last, extend]

end Trace

/-- Append to the list a map holds under a key. -/
def appendAt (k v : String) : List (String × List String) → List (String × List String)
  | [] => [(k, [v])]
  | (k', vs) :: rest => if k' = k then (k', vs ++ [v]) :: rest else (k', vs) :: appendAt k v rest

/-- How many states may be found. -/
def Model.bound (m : Model σ) : Int := if m.maxStates = 0 then 500000 else m.maxStates

def checkInvariants (m : Model σ) (s : σ) (trace : Trace σ) : Option (Violation σ) :=
  m.invariants.findSome? fun inv => (inv.fn s).map fun err => ⟨inv.name, err, trace⟩

/-- Who has an edge into a state, in the order of the index. -/
def predecessors (ranges : Ranges) (successors : List (String × List String)) (target : String) :
    List String :=
  (ranges.order 1 successors).flatMap fun entry =>
    (entry.2.filter fun other => other = target).map fun _ => entry.1

section Search

variable [State σ]

/-- Shortest first, and by key among traces of one length. -/
def Trace.before (t u : Trace σ) : Prop :=
  t.actions.length < u.actions.length ∨
    t.actions.length = u.actions.length ∧ key t.last ≤ key u.last

instance : DecidableRel (Trace.before (σ := σ)) :=
  fun t u => inferInstanceAs (Decidable (t.actions.length < u.actions.length ∨
    t.actions.length = u.actions.length ∧ key t.last ≤ key u.last))

/-- The states from which no terminal state is reachable. -/
def findWedged (ranges : Ranges) (seen : List (String × Trace σ))
    (successors : List (String × List String)) : Option (List (Trace σ)) := do
  let canFinish := (seen.filter fun entry => terminal entry.2.last).map Prod.fst
  let closed ← Worklist.close (predecessors ranges successors) seen.length
    ⟨ranges.order 2 canFinish, canFinish⟩
  let wedged := (ranges.order 3 seen).filter fun entry => entry.1 ∉ closed
  pure ((wedged.map Prod.snd).insertionSort Trace.before)

/-- The variables of the loop. -/
structure Search (σ : Type) where
  seen : List (String × Trace σ)
  successors : List (String × List String)
  queue : List (Trace σ)
  res : Result σ

def boundDetail (explored : Nat) : String :=
  "explored " ++ toString explored ++ " states without finishing; the model's Key() is probably " ++
    "including a value that always changes (a counter, a timestamp)"

/-- One action in the state at the end of a trace. An early return of the search
is an error here. -/
def visit (m : Model σ) (cur : Trace σ) (s : Search σ × Nat) (action : Action σ) :
    Except (Result σ) (Search σ × Nat) :=
  match action.fn cur.last with
  | none => .ok s
  | some next =>
    -- a self-loop is not progress
    if key next = key cur.last then .ok s
    else
      let successors := appendAt (key cur.last) (key next) s.1.successors
      if s.1.seen.any fun entry => entry.1 = key next then
        .ok ({ s.1 with successors := successors }, s.2 + 1)
      else
        let trace := cur.extend action.name next
        let seen := s.1.seen ++ [(key next, trace)]
        match checkInvariants m next trace with
        | some v => .error { s.1.res with violation := some v, statesExplored := seen.length }
        | none =>
          if seen.length ≥ m.bound then
            .error { s.1.res with
              statesExplored := seen.length
              violation := some ⟨"state-space bound", boundDetail seen.length, trace⟩ }
          else
            .ok ({ s.1 with
              seen := seen
              successors := successors
              queue := s.1.queue ++ [trace] }, s.2 + 1)

def expand (m : Model σ) (cur : Trace σ) (s : Search σ) : Except (Result σ) (Search σ) := do
  let depth := cur.actions.length
  let res := { s.res with
    maxDepthSeen := max s.res.maxDepthSeen depth
    terminalStates := if terminal cur.last then s.res.terminalStates + 1 else s.res.terminalStates }
  if m.maxDepth > 0 ∧ depth ≥ m.maxDepth then return { s with res := res }
  let (s, enabled) ← m.actions.foldlM (visit m cur) ({ s with res := res }, 0)
  if enabled = 0 ∧ !terminal cur.last then
    return { s with res := { s.res with deadlocks := s.res.deadlocks ++ [cur] } }
  return s

def finish (ranges : Ranges) (s : Search σ) : Option (Result σ) := do
  let wedged ← findWedged ranges s.seen s.successors
  pure { s.res with
    statesExplored := s.seen.length
    reached := (ranges.order 0 s.seen).map fun entry => entry.2.last
    wedged := wedged }

/-- The loop, with a bound on the number of turns. -/
def search (ranges : Ranges) (m : Model σ) : Nat → Search σ → Option (Result σ)
  | fuel, s =>
    match s.queue, fuel with
    | [], _ => finish ranges s
    | _ :: _, 0 => none
    | cur :: queue, fuel + 1 =>
      match expand m cur { s with queue := queue } with
      | .error r => some r
      | .ok s => search ranges m fuel s

/-- The search from the initial state, if that is sound. -/
def explore (ranges : Ranges) (m : Model σ) : Option (Result σ) :=
  let trace : Trace σ := ⟨[], [m.initial], List.cons_ne_nil _ _⟩
  match checkInvariants m m.initial trace with
  | some v => some { violation := some v, statesExplored := 1 }
  | none =>
    search ranges m m.bound.toNat
      { seen := [(key m.initial, trace)], successors := [], queue := [trace], res := {} }

end Search

end Souq.ModelCheck
