import Souq.Identity.Login
import Souq.Lib.ReadCommitted

/-!
# Concurrent calls of the identity service

Any number of calls run at the same time, each in its own transaction, statement
by statement in any order. A call may be rolled back at any moment, and the clock
may show anything. Every call draws a number that no other call has drawn.
-/

namespace Souq.Identity

open Transact Transition

/-- A call of the service. -/
inductive Call where
  | login (cmd : LoginCommand)
  | issue (userId : ID) (roles amr : List String) (deviceFingerprint : Option String)
  | refresh (presentedToken : ID) (deviceFingerprint : Option String)
  | revokeByToken (presentedToken : ID) (reason : String)
  | revokeSession (sessionId : ID) (reason : String)
  | revokeAllForUser (userId : ID) (reason : String)
  | changePassword (userId currentSessionId : ID) (currentPassword newPassword : String)
  | completePasswordReset (token : ID) (newPassword : String)
  | begin (userId : ID)
  | confirm (userId : ID) (code : String)
  | disable (userId : ID) (code : String)
  | clearExpiredPending
  | setEnabled (userId : ID) (enabled : Bool)

/-- The transaction of a call; what it returns does not matter to the others. -/
def Call.tx (env : Env) (mint : ID) : Call → Tx Unit
  | .login cmd => (Identity.login env mint cmd).void
  | .issue userId roles amr device => (Identity.issue env mint userId roles amr device).void
  | .refresh presentedToken device => (Identity.refresh env mint presentedToken device).void
  | .revokeByToken presentedToken reason => Identity.revokeByToken env presentedToken reason
  | .revokeSession sessionId reason => Identity.revokeSession sessionId reason
  | .revokeAllForUser userId reason => Identity.revokeAllForUser userId reason
  | .changePassword userId currentSessionId currentPassword newPassword =>
    Identity.changePassword env userId currentSessionId currentPassword newPassword
  | .completePasswordReset token newPassword => Identity.completePasswordReset env token newPassword
  | .begin userId => (Identity.begin mint userId).void
  | .confirm userId code => (Identity.confirm env mint userId code).void
  | .disable userId code => Identity.disable env userId code
  | .clearExpiredPending => Identity.clearExpiredPending.void
  | .setEnabled userId enabled => (Identity.setEnabled userId enabled).void

/-- The tables and transactions, and the next number to be drawn. -/
structure Service (ι : Type) where
  tx : Config dialect ι Failure Unit
  drawn : ID

/-- One step of a run. -/
inductive Turn (ι : Type) where
  | start (i : ι) (call : Call)
  /-- The next statement of a call, or its commit. -/
  | run (i : ι)
  /-- The call is rolled back: an exception, or the process dies. -/
  | abort (i : ι)
  | tick (clock : Time)

namespace Service

variable {ι : Type} [Fintype ι] [DecidableEq ι]

/-- A statement, a commit or a failure of one call. -/
def step (env : Env) (s : Service ι) : Turn ι → Service ι
  | .start i call =>
    match s.tx.sessions i with
    | none =>
      { tx := s.tx.set i (some { program := call.tx env s.drawn, held := [.mint s.drawn] })
        drawn := s.drawn + 1 }
    | some _ => s
  | .run i => { s with tx := s.tx.advance (fun _ _ => none) i }
  | .abort i => { s with tx := s.tx.set i none }
  | .tick clock => { s with tx := { s.tx with db := { s.tx.db with clock := clock } } }

/-- The service with no call in progress and nothing drawn. -/
def idle (db : Database) : Service ι := ⟨Config.idle db, 0⟩

end Service

/-- Runs from given accounts, before any token was issued. -/
def serving (ι : Type) [Fintype ι] [DecidableEq ι] (env : Env) (accounts : Database) :
    System (Service ι) (Turn ι) :=
  .ofFunction (.idle { accounts with tokens := [], ended := [] }) (Service.step env)

/-- What a turn can do. -/
inductive Turns {ι : Type} [Fintype ι] [DecidableEq ι] (env : Env) (s : Service ι) :
    Turn ι → Service ι → Prop where
  | idle {turn : Turn ι} : Turns env s turn s
  | start {i : ι} {call : Call} (free : s.tx.sessions i = none) :
      Turns env s (.start i call)
        { tx := s.tx.set i (some { program := call.tx env s.drawn, held := [.mint s.drawn] })
          drawn := s.drawn + 1 }
  | exec {i : ι} {session : Session dialect Failure Unit} {q : Stmt}
      {rest : q.Answer → Tx Unit} (active : s.tx.sessions i = some session)
      (calls : session.program = .call q rest) (free : ¬ s.tx.Blocked i session q) :
      Turns env s (.run i) { s with tx := s.tx.set i (some (session.exec s.tx.db q rest)) }
  | commit {i : ι} {session : Session dialect Failure Unit} {a : Unit}
      (active : s.tx.sessions i = some session) (finished : session.program = .done a) :
      Turns env s (.run i)
        { s with tx := ⟨session.view s.tx.db, Function.update s.tx.sessions i none⟩ }
  | abort {i : ι} {turn : Turn ι} : Turns env s turn { s with tx := s.tx.set i none }
  | tick {clock : Time} :
      Turns env s (.tick clock) { s with tx := { s.tx with db := { s.tx.db with clock := clock } } }

theorem turns_step {ι : Type} [Fintype ι] [DecidableEq ι] (env : Env) (s : Service ι)
    (turn : Turn ι) : Turns env s turn (s.step env turn) := by
  cases turn with
  | start i call =>
    simp only [Service.step]
    cases free : s.tx.sessions i with
    | none => exact .start free
    | some _ => exact .idle
  | abort i => exact .abort
  | tick clock => exact .tick
  | run i =>
    have advances : Config.Advances (fun _ _ => none) s.tx i
      (s.tx.advance (fun _ _ => none) i) := s.tx.advances i
    simp only [Service.step]
    generalize s.tx.advance (fun _ _ => none) i = after at advances
    cases advances with
    | stays => exact .idle
    | commit active finished => exact .commit active finished
    | retry active failed => exact .abort
    | skip active calls blocked skips => cases skips
    | exec active calls free => exact .exec active calls free

theorem mint_not_mem_keys (q : Stmt) (db : Database) (m : ID) : .mint m ∉ q.keys db := by
  cases q with
  | _ => simp [Stmt.keys]

/-- Rows and ids are held by one session each. -/
structure Exclusive {ι : Type} (s : Service ι) : Prop where
  locks : s.tx.Exclusive
  mints : ∀ i session, s.tx.sessions i = some session → ∀ m, .mint m ∈ session.held → m < s.drawn

namespace Exclusive

variable {ι : Type} [DecidableEq ι] {s : Service ι}

omit [DecidableEq ι] in
theorem idle (db : Database) : Exclusive (Service.idle db : Service ι) :=
  ⟨fun _ _ _ _ _ none => (by cases none), fun _ _ none => (by cases none)⟩

theorem set (exclusive : Exclusive s) {i : ι} {session : Option (Session dialect Failure Unit)}
    (locks : (s.tx.set i session).Exclusive)
    (mints : ∀ own, session = some own → ∀ m, .mint m ∈ own.held → m < s.drawn) :
    Exclusive { s with tx := s.tx.set i session } := by
  refine ⟨locks, fun j other found => ?_⟩
  by_cases same : j = i
  · subst same
    exact mints other (by simpa [Config.set] using found)
  · exact exclusive.mints j other (by simpa [Config.set, same] using found)

theorem drop (exclusive : Exclusive s) (i : ι) : Exclusive { s with tx := s.tx.set i none } :=
  exclusive.set (exclusive.locks.set i none fun _ none => by cases none) fun _ none => by cases none

omit [DecidableEq ι] in
theorem unheld (exclusive : Exclusive s) {j : ι} {other : Session dialect Failure Unit}
    (found : s.tx.sessions j = some other) : .mint s.drawn ∉ other.held :=
  fun held => Nat.lt_irrefl _ (exclusive.mints j other found _ held)

theorem step [Fintype ι] (exclusive : Exclusive s) (env : Env) (turn : Turn ι) :
    Exclusive (s.step env turn) := by
  have turns := turns_step env s turn
  generalize s.step env turn = after at turns
  cases turns with
  | idle => exact exclusive
  | start free =>
    have later : Exclusive { s with drawn := s.drawn + 1 } :=
      ⟨exclusive.locks, fun j other found m member =>
        Nat.lt_succ_of_lt (exclusive.mints j other found m member)⟩
    refine later.set (exclusive.locks.set _ _ ?_) ?_
    · rintro own ⟨⟩ j other - found key member
      rw [List.mem_singleton.mp member]
      exact exclusive.unheld found
    · rintro own ⟨⟩ m member
      cases List.mem_singleton.mp member
      exact Nat.lt_succ_self _
  | exec active calls free =>
    refine exclusive.set (exclusive.locks.exec active free) ?_
    rintro own ⟨⟩ m member
    rcases List.mem_append.mp member with old | new
    · exact exclusive.mints _ _ active m old
    · exact (mint_not_mem_keys _ _ m new).elim
  | commit active finished =>
    obtain ⟨locks, mints⟩ := exclusive.drop _
    exact ⟨locks, mints⟩
  | abort => exact exclusive.drop _
  | tick => exact ⟨exclusive.locks, exclusive.mints⟩

end Exclusive

end Souq.Identity
