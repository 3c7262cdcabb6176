import Souq.Identity.Service

/-!
# Password resets

`requestPasswordReset` marks the tokens it finds as used and then inserts its own.
Between the two, and after a request has looked for tokens, another request may commit
one. Any number of requests and completions run at the same time, each in its own
transaction.
-/

namespace Souq.Identity

open Transact Transition

/-- The statements of a request, besides those of the other calls. -/
inductive Query where
  | stmt (q : Stmt)
  | findIdByEmail (lowerEmail : String)
  /-- The snapshot of the `UPDATE` that invalidates tokens. -/
  | outstanding (userId : ID)
  /-- One row of it. -/
  | retire (userId hash : ID)
  | insertReset (hash userId : ID)

def resetTtl : Time := 30 * 60 * 1000000

def Query.Answer : Query → Type
  | .stmt q => q.Answer
  | .findIdByEmail _ => Option ID
  | .outstanding _ => List ID
  | .retire _ _ => Nat
  | .insertReset _ _ => Bool

def ResetToken.open (r : ResetToken) (userId : ID) : Bool := r.userId == userId && !r.used

/-- The row of the `UPDATE`, where it still matches. -/
def Database.retirable (db : Database) (userId hash : ID) : Option ResetToken :=
  (db.reset hash).filter fun r => r.open userId

/-- The primary and the foreign key of `password_reset_tokens` admit the row. -/
def Database.admitsReset (db : Database) (hash userId : ID) : Bool :=
  (db.reset hash).isNone && (db.user userId).isSome

def Query.answer : (q : Query) → Database → q.Answer
  | .stmt q, db => q.answer db
  | .findIdByEmail lowerEmail, db => (db.users.find? fun u => u.lowerEmail = lowerEmail).map User.id
  | .outstanding userId, db => (db.resets.filter fun r => r.open userId).map ResetToken.tokenHash
  | .retire userId hash, db => (db.retirable userId hash).toList.length
  | .insertReset hash userId, db => db.admitsReset hash userId

def Query.writes : Query → Database → List Write
  | .stmt q, db => q.writes db
  | .retire userId hash, db =>
    updating (db.retirable userId hash) fun r => [.reset { r with used := true }]
  | .insertReset hash userId, db =>
    if db.admitsReset hash userId then
      [.reset { tokenHash := hash, userId, expiresAt := db.clock + resetTtl }]
    else []
  | _, _ => []

def Query.keys : Query → Database → List Key
  | .stmt q, db => q.keys db
  | .retire userId hash, db => locking (db.retirable userId hash) (.reset hash)
  | .insertReset hash _, _ => [.reset hash]
  | _, _ => []

abbrev resetting : Dialect where
  Db := Database
  Stmt := Query
  Answer := Query.Answer
  Write := Write
  Key := Key
  answer := Query.answer
  writes := Query.writes
  put := Write.put
  keys := Query.keys
  skip := fun _ => none

instance (priority := low) : DecidableEq resetting.Key := inferInstanceAs (DecidableEq Key)

/-- What a transaction has done. A request names the tokens that it has found. -/
inductive Outcome where
  | unknown
  | requested (userId : ID) (found : List ID)
  | completed (hash : ID)
  deriving DecidableEq

def query (q : Query) : Program resetting Failure q.Answer := Program.stmt (D := resetting) q

def sent {α : Type} : Tx α → Program resetting Failure α
  | .done a => .done a
  | .fail e => .fail e
  | .call q rest => .call (.stmt q) fun answer => sent (rest answer)

section Calls

variable (env : Env) (mint : ID)

def retireRows (userId : ID) : List ID → Program resetting Failure Unit
  | [] => return ()
  | hash :: hashes => do
    let _ ← query (.retire userId hash)
    retireRows userId hashes

def requestPasswordReset (email : String) : Program resetting Failure Outcome := do
  match ← (query (.findIdByEmail (env.lower email)) : Program resetting Failure (Option ID)) with
  | none => return .unknown
  | some userId =>
    let found : List ID ← query (.outstanding userId)
    retireRows userId found
    let inserted : Bool ← query (.insertReset (env.hash mint) userId)
    if inserted then return .requested userId found else .fail .dataIntegrityViolation

/-- The two halves of a password reset. -/
inductive ResetCall where
  | request (email : String)
  | complete (token : ID) (newPassword : String)

def ResetCall.tx : ResetCall → Program resetting Failure Outcome
  | .request email => requestPasswordReset env mint email
  | .complete token newPassword => do
    sent (completePasswordReset env token newPassword)
    return .completed (env.hash token)

end Calls

/-- The tables and transactions, the next number to be drawn, and what was committed. -/
structure Resets (ι : Type) where
  tx : Config resetting ι Failure Outcome
  drawn : ID
  committed : List Outcome

/-- One step of a run. -/
inductive ResetTurn (ι : Type) where
  | start (i : ι) (call : ResetCall)
  /-- The next statement of a call, or its end. -/
  | run (i : ι)
  | abort (i : ι)
  | tick (clock : Time)

namespace Resets

variable {ι : Type}

/-- What a call commits in its next step. -/
def commits (s : Resets ι) (i : ι) : List Outcome :=
  match s.tx.sessions i with
  | some ⟨.done outcome, _, _⟩ => [outcome]
  | _ => []

variable [Fintype ι] [DecidableEq ι]

/-- A statement, a commit or a failure of one call. -/
def step (env : Env) (s : Resets ι) : ResetTurn ι → Resets ι
  | .start i call =>
    match s.tx.sessions i with
    | none =>
      { s with
        tx := s.tx.set i (some { program := call.tx env s.drawn })
        drawn := s.drawn + 1 }
    | some _ => s
  | .run i =>
    { s with
      tx := s.tx.advance (fun _ _ => none) i
      committed := s.committed ++ s.commits i }
  | .abort i => { s with tx := s.tx.set i none }
  | .tick clock => { s with tx := { s.tx with db := { s.tx.db with clock := clock } } }

/-- No call in progress, on given accounts, before any token was issued. -/
def idle (accounts : Database) : Resets ι := ⟨Config.idle { accounts with resets := [] }, 0, []⟩

end Resets

end Souq.Identity
