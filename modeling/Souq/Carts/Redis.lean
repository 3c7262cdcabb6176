import Mathlib.Data.List.Basic
import Souq.Carts.Service
import Souq.Lib.Transition

/-!
# Concurrent cart calls

Any number of calls run against one Redis, command by command in any order. Keys
expire or are deleted at any moment, the catalog and the clock change, and a call
may end with an exception at any point. The state keeps what a statement about
runs needs: the commands each call has executed with the world they ran in, every
write of the compare-and-swap script, and the calls that have ended.
-/

namespace Souq.Carts

open Transact Transition Command Function

/-- A command, and the world it was executed in. -/
structure Executed where
  command : Command
  world : World

/-- A call in progress. The trace has the latest command first. -/
structure Session where
  request : Request
  program : Call Response
  trace : List Executed := []
  /-- Another party changed the user's index since this call read or wrote it. -/
  moved : Bool := false
  /-- Another party changed the cart this call last read or wrote, since then. -/
  disturbed : Bool := false

/-- A call that has ended, with all it has done. -/
structure Ended where
  request : Request
  result : Except CartError Response
  trace : List Executed
  moved : Bool
  disturbed : Bool
  /-- The world when the call ended. -/
  world : World

/-- A write of the compare-and-swap script: what its call had read under that
cart id, what was stored and what is stored now. -/
structure Swap where
  cartId : ID
  seen : Option Entry
  replaced : Option Entry
  written : Entry

/-- Redis, the calls under way and those that have ended. -/
structure State (ι : Type) where
  world : World := {}
  sessions : ι → Option Session := fun _ => none
  swaps : List Swap := []
  ended : List Ended := []

/-- One step of a run. -/
inductive Event (ι : Type) where
  | start (i : ι) (request : Request)
  /-- The next command of a call, or its end. -/
  | run (i : ι)
  /-- The call throws: a connection error, or the process dies. -/
  | abort (i : ι)
  | expire (cartId : ID)
  | expireIndex (userId : ID)
  | stock (sku : ID) (variant : Option Variant)
  | tick (clock : Time)

/-- The user whose index a request works on. -/
def Request.user : Request → Option ID
  | .merge _ userId => some userId
  | _ => none

/-- The cart a call has last read or written. -/
def target : List Executed → Option ID
  | [] => none
  | x :: older =>
    match x.command with
    | .hmget cartId => some cartId
    | .evalsha cartId _ _ => some cartId
    | _ => target older

/-- The cart a call has last found under an id. -/
def seen (cartId : ID) : List Executed → Option Entry
  | [] => none
  | x :: older =>
    if x.command = .hmget cartId then (x.world.carts cartId).or (seen cartId older)
    else seen cartId older

namespace Session

/-- What another party's change means to a call. -/
def observe (s : Session) (before after : World) : Session :=
  { s with
    moved := s.moved || s.request.user.any fun userId =>
      decide (before.userIndex userId ≠ after.userIndex userId)
    disturbed := s.disturbed || (target s.trace).any fun cartId =>
      decide (before.carts cartId ≠ after.carts cartId) }

def exec (s : Session) (w : World) (q : Command) (rest : q.Answer → Call Response) : Session :=
  { s with
    program := rest (q.answer w)
    trace := ⟨q, w⟩ :: s.trace
    moved := match q with
      | .get userId | .set userId _ => s.moved && decide (s.request.user ≠ some userId)
      | _ => s.moved
    disturbed := match q with
      | .hmget _ | .evalsha _ _ _ => false
      | _ => s.disturbed }

def finish (s : Session) (result : Except CartError Response) (w : World) : Ended :=
  ⟨s.request, result, s.trace, s.moved, s.disturbed, w⟩

/-- The entry of a write for the log, when the command is a script that writes. -/
def swapped (s : Session) (w : World) : Command → List Swap
  | .evalsha cartId version payload =>
    if casAllows (w.carts cartId) version then
      [⟨cartId, seen cartId s.trace, w.carts cartId, ⟨payload, nextVersion (w.carts cartId)⟩⟩]
    else []
  | _ => []

end Session

def Command.after (q : Command) (w : World) : World := redis.replay (q.writes w) w

section Script

variable {w : World} {cartId : ID} {version : Nat} {payload : StoredCart}

theorem Command.after_accepted (allowed : casAllows (w.carts cartId) version = true) :
    (evalsha cartId version payload).after w =
      { w with
        carts := update w.carts cartId
          (some ⟨payload, nextVersion (w.carts cartId)⟩) } := by
  simp only [after, writes, allowed, ↓reduceIte]
  rfl

theorem Command.after_refused (refused : casAllows (w.carts cartId) version = false) :
    (evalsha cartId version payload).after w = w := by
  simp only [after, writes, refused, Bool.false_eq_true, ↓reduceIte]
  rfl

end Script

namespace State

variable {ι : Type} [DecidableEq ι]

/-- Replace the world; every call sees what changed. -/
def change (s : State ι) (w : World) : State ι :=
  { s with world := w, sessions := fun j => (s.sessions j).map (·.observe s.world w) }

def set (s : State ι) (i : ι) (session : Option Session) : State ι :=
  { s with sessions := update s.sessions i session }

def run (s : State ι) (i : ι) : State ι :=
  match s.sessions i with
  | none => s
  | some session =>
    match session.program with
    | .done response =>
      { s.set i none with ended := session.finish (.ok response) s.world :: s.ended }
    | .fail error => { s.set i none with ended := session.finish (.error error) s.world :: s.ended }
    | .call q rest =>
      { (s.change (after q s.world)).set i (some (session.exec s.world q rest)) with
        swaps := session.swapped s.world q ++ s.swaps }

def step (s : State ι) : Event ι → State ι
  | .start i request =>
    match s.sessions i with
    | none => s.set i (some { request, program := request.call })
    | some _ => s
  | .run i => s.run i
  | .abort i => s.set i none
  | .expire cartId => s.change { s.world with carts := update s.world.carts cartId none }
  | .expireIndex userId =>
    s.change { s.world with userIndex := update s.world.userIndex userId none }
  | .stock sku variant =>
    s.change { s.world with catalog := update s.world.catalog sku variant }
  | .tick clock => s.change { s.world with clock }

end State

/-- The cart service, from an empty Redis. -/
def carts (ι : Type) [DecidableEq ι] : System (State ι) (Event ι) :=
  .ofFunction {} State.step

theorem stored_of_removed {carts : ID → Option Entry} {cartId other : ID} {e : Entry}
    (found : update carts cartId none other = some e) : carts other = some e := by
  by_cases same : other = cartId
  · subst same
    simp at found
  · rwa [update_of_ne same] at found

theorem State.active_of_set {ι : Type} [DecidableEq ι] {s : State ι} {i j : ι}
    {session : Option Session} {found : Session}
    (active : (s.set i session).sessions j = some found) :
    (j = i ∧ session = some found) ∨ (j ≠ i ∧ s.sessions j = some found) := by
  by_cases same : j = i
  · subst same
    exact .inl ⟨rfl, by simpa [State.set] using active⟩
  · exact .inr ⟨same, by simpa [State.set, same] using active⟩

theorem State.active_of_set_none {ι : Type} [DecidableEq ι] {s : State ι} {i j : ι}
    {found : Session} (active : (s.set i none).sessions j = some found) :
    s.sessions j = some found := by
  rcases active_of_set active with ⟨-, none⟩ | ⟨-, still⟩
  · cases none
  · exact still

/-- What a step can do. -/
inductive Moves {ι : Type} [DecidableEq ι] (s : State ι) : Event ι → State ι → Prop where
  | idle {event : Event ι} : Moves s event s
  | start {i : ι} {request : Request} (free : s.sessions i = none) :
      Moves s (.start i request) (s.set i (some { request, program := request.call }))
  | done {i : ι} {session : Session} {response : Response} (active : s.sessions i = some session)
      (ended : session.program = .done response) :
      Moves s (.run i)
        { s.set i none with ended := session.finish (.ok response) s.world :: s.ended }
  | fail {i : ι} {session : Session} {error : CartError} (active : s.sessions i = some session)
      (ended : session.program = .fail error) :
      Moves s (.run i)
        { s.set i none with ended := session.finish (.error error) s.world :: s.ended }
  | exec {i : ι} {session : Session} {q : Command} {rest : q.Answer → Call Response}
      (active : s.sessions i = some session) (calls : session.program = .call q rest) :
      Moves s (.run i)
        { (s.change (after q s.world)).set i (some (session.exec s.world q rest)) with
          swaps := session.swapped s.world q ++ s.swaps }
  | abort {i : ι} : Moves s (.abort i) (s.set i none)
  | expire {cartId : ID} :
      Moves s (.expire cartId) (s.change { s.world with carts := update s.world.carts cartId none })
  | expireIndex {userId : ID} :
      Moves s (.expireIndex userId)
        (s.change { s.world with userIndex := update s.world.userIndex userId none })
  | outside {event : Event ι} {catalog : ID → Option Variant} {clock : Time} :
      Moves s event (s.change { s.world with catalog, clock })

theorem moves_step {ι : Type} [DecidableEq ι] (s : State ι) (event : Event ι) :
    Moves s event (s.step event) := by
  cases event with
  | start i request =>
    simp only [State.step]
    split
    · next free => exact .start free
    · exact .idle
  | run i =>
    simp only [State.step, State.run]
    split
    · exact .idle
    · next session active =>
        split
        · next response ended => exact .done active ended
        · next error ended => exact .fail active ended
        · next q rest calls => exact .exec active calls
  | abort i => exact .abort
  | expire cartId => exact .expire
  | expireIndex userId => exact .expireIndex
  | stock sku variant => exact .outside
  | tick clock => exact .outside

/-- **One step, call by call.** What is known of the stored carts and of each call holds after
a step, if carts may vanish and others may change the world, a call that starts has it, and
the command that is executed keeps it. -/
theorem holds_step {ι : Type} [DecidableEq ι] {S : World → Prop}
    {P : World → Session → Prop} {s : State ι} {event : Event ι}
    (shrink : ∀ {w w' : World}, S w →
      (∀ cartId e, w'.carts cartId = some e → w.carts cartId = some e) → S w')
    (observe : ∀ {w w' : World} {session : Session}, P w session → P w' (session.observe w w'))
    (start : ∀ i request, event = .start i request → P s.world { request, program := request.call })
    (exec : ∀ i session q rest, event = .run i → s.sessions i = some session →
      session.program = .call q rest →
        S (after q s.world) ∧ P (after q s.world) (session.exec s.world q rest))
    (stored : S s.world) (each : ∀ i session, s.sessions i = some session → P s.world session) :
    S (s.step event).world ∧
      ∀ i session, (s.step event).sessions i = some session → P (s.step event).world session := by
  have moves := moves_step s event
  generalize s.step event = after at moves
  have others : ∀ w i session, (s.sessions i).map (·.observe s.world w) = some session →
      P w session := by
    intro w i session active
    obtain ⟨before, was, rfl⟩ := Option.map_eq_some_iff.mp active
    exact observe (each i before was)
  cases moves with
  | idle => exact ⟨stored, each⟩
  | start free =>
    refine ⟨stored, fun j session active => ?_⟩
    rcases State.active_of_set active with ⟨-, started⟩ | ⟨-, before⟩
    · cases started
      exact start _ _ rfl
    · exact each j session before
  | done | fail | abort =>
    exact ⟨stored, fun j session active => each j session (State.active_of_set_none active)⟩
  | @exec i before q rest busy calls =>
    obtain ⟨stored', goes⟩ := exec i before q rest rfl busy calls
    refine ⟨stored', fun j session active => ?_⟩
    rcases State.active_of_set active with ⟨-, went⟩ | ⟨-, other⟩
    · cases went
      exact goes
    · exact others _ j session other
  | expire => exact ⟨shrink stored fun _ _ found => stored_of_removed found, others _⟩
  | expireIndex | outside => exact ⟨shrink stored fun _ _ found => found, others _⟩

end Souq.Carts
