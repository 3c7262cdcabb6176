import Souq.Basic
import Souq.Lib.Program
import Souq.Lib.Table

/-!
# The identity-service database

The tables of `identity-service/src/main/resources/db/migration` and the SQL
statements of the login, token, password and two-factor code. Random values and
hashes are only stored and compared, so they are numbers.

An `UPDATE` of several rows is a snapshot of the rows that match, followed by one
statement for each of them: the row is locked, and the condition is checked again
on the version that is current then.
-/

namespace Souq.Identity

open Transact Table

/-- The values of `refresh_tokens.state`. -/
inductive TokenState where
  | active | used | revoked
  deriving DecidableEq

/-- A row of `refresh_tokens`. -/
structure RefreshToken where
  id : ID
  userId : ID
  sessionId : ID
  parentId : Option ID
  tokenHash : ID
  state : TokenState
  deviceFingerprint : Option String
  amr : List String
  expiresAt : Time
  usedAt : Option Time := none
  revokedReason : Option String := none
  deriving DecidableEq

/-- A row of `users` with its rows of `roles`. -/
structure User where
  id : ID
  /-- `lower(email)`, as the unique index has it. -/
  lowerEmail : String := ""
  enabled : Bool := true
  roles : List String := []
  mfaEnabled : Bool := false
  mfaSecret : Option ID := none
  mfaPendingSecret : Option ID := none
  mfaPendingSince : Option Time := none
  deriving DecidableEq

/-- The `CHECK` constraints on the two-factor columns. -/
def User.admissible (row : User) : Bool :=
  row.mfaPendingSecret.isNone == row.mfaPendingSince.isNone &&
    (!row.mfaEnabled || row.mfaSecret.isSome)

/-- A row of `credentials`. -/
structure Credential where
  userId : ID
  passwordHash : String
  previousHashes : List String := []

/-- A row of `password_reset_tokens`. -/
structure ResetToken where
  tokenHash : ID
  userId : ID
  used : Bool := false
  expiresAt : Time
  deriving DecidableEq

/-- A row of `mfa_recovery_codes`. -/
structure RecoveryCode where
  userId : ID
  codeHash : ID
  usedAt : Option Time := none

/-- A row of `login_attempts`. -/
structure LoginAttempt where
  /-- `lower(email)`, as the index has it. -/
  lowerEmail : String
  userId : Option ID
  succeeded : Bool
  failureReason : Option String
  ipAddress : Option ID
  userAgent : Option String
  createdAt : Time

/-- What a revocation is about. -/
inductive Scope where
  | session (sessionId : ID)
  | user (userId : ID)
  /-- Every session of a user but one. -/
  | others (userId keep : ID)
  deriving DecidableEq

/-- The row belongs to a session that the revocation ends. -/
def Scope.names : Scope → RefreshToken → Bool
  | .session sessionId, t => t.sessionId == sessionId
  | .user userId, t => t.userId == userId
  | .others userId keep, t => t.userId == userId && t.sessionId != keep

/-- The `WHERE` clause of the revocation. -/
def Scope.matches (scope : Scope) (t : RefreshToken) : Bool :=
  scope.names t &&
    match scope with
    | .session _ | .user _ => t.state != .revoked
    | .others _ _ => t.state == .active

/-- The proof of a second factor. -/
structure Proof where
  secret : ID
  code : String
  verifiedAt : Time

/-- The tables of the service. -/
structure Database where
  users : List User := []
  credentials : List Credential := []
  tokens : List RefreshToken := []
  resets : List ResetToken := []
  codes : List RecoveryCode := []
  attempts : List LoginAttempt := []
  clock : Time := 0
  /-- The sessions that committed revocations were about. -/
  ended : List ID := []
  /-- The secret that the last committed confirmation of a user had verified. -/
  proven : ID → Option Proof := fun _ => none

namespace Database

def token (db : Database) (id : ID) : Option RefreshToken := find RefreshToken.id db.tokens id

def user (db : Database) (id : ID) : Option User := find User.id db.users id

def credential (db : Database) (userId : ID) : Option Credential :=
  find Credential.userId db.credentials userId

def reset (db : Database) (tokenHash : ID) : Option ResetToken :=
  find ResetToken.tokenHash db.resets tokenHash

def codesOf (db : Database) (userId : ID) : List RecoveryCode :=
  db.codes.filter fun code => code.userId = userId

def code (db : Database) (userId codeHash : ID) : Option RecoveryCode :=
  (db.codesOf userId).find? fun code => code.codeHash = codeHash

end Database

/-- The new version of a row. The last two change no row: they keep what is said
about runs. -/
inductive Write where
  | token (row : RefreshToken)
  | user (row : User)
  | credential (row : Credential)
  | reset (row : ResetToken)
  | code (row : RecoveryCode)
  | noCodes (userId : ID)
  | attempt (row : LoginAttempt)
  | scanned (scope : Scope)
  | proven (userId : ID) (proof : Proof)

def RecoveryCode.key (code : RecoveryCode) : ID × ID := (code.userId, code.codeHash)

def Write.put : Write → Database → Database
  | .token row, db => { db with tokens := upsert RefreshToken.id row db.tokens }
  | .user row, db => { db with users := upsert User.id row db.users }
  | .credential row, db =>
    { db with credentials := upsert Credential.userId row db.credentials }
  | .reset row, db => { db with resets := upsert ResetToken.tokenHash row db.resets }
  | .code row, db => { db with codes := upsert RecoveryCode.key row db.codes }
  | .noCodes userId, db => { db with codes := db.codes.filter fun code => code.userId ≠ userId }
  | .attempt row, db => { db with attempts := db.attempts ++ [row] }
  | .scanned scope, db =>
    { db with ended := db.ended ++ (db.tokens.filter scope.names).map RefreshToken.sessionId }
  | .proven userId proof, db => { db with proven := Function.update db.proven userId (some proof) }

/-- What a refresh reads of a user. -/
structure UserSnapshot where
  id : ID
  roles : List String
  enabled : Bool

/-- What a login reads of a user. -/
structure LoginRow where
  id : ID
  passwordHash : String
  enabled : Bool
  mfaEnabled : Bool
  mfaSecret : Option ID
  roles : List String

/-- A statement of the service. -/
inductive Stmt where
  | now
  | findByTokenHash (hash : ID)
  | insertToken (row : RefreshToken)
  | markUsed (id : ID)
  | loadUserSnapshot (userId : ID)
  /-- The snapshot of a revocation. -/
  | matching (scope : Scope)
  /-- One row of a revocation. -/
  | revokeRow (scope : Scope) (id : ID) (reason : String)
  | currentPasswordHash (userId : ID)
  | previousHashes (userId : ID)
  | replacePassword (userId : ID) (newHash oldHash : String)
  | claimReset (hash : ID)
  | setEnabled (userId : ID) (enabled : Bool)
  | mfaEnabled (userId : ID)
  | setPending (userId secret : ID)
  | pending (userId : ID)
  | clearPending (userId : ID)
  /-- The `UPDATE` of a confirmation that has verified a code. -/
  | enableMfa (userId : ID) (proof : Proof)
  | mfaSecret (userId : ID)
  | disableMfa (userId : ID)
  | deleteCodes (userId : ID)
  | insertCode (userId hash : ID)
  | spendCode (userId hash : ID)
  | countCodes (userId : ID)
  /-- The snapshot of the sweeper. -/
  | expiredPending
  /-- One row of the sweeper. -/
  | clearExpired (userId : ID)
  /-- The failed logins since an instant, by account and by address. -/
  | countFailures (lowerEmail : String) (ip : Option ID) (since : Int)
  | loadForLogin (lowerEmail : String)
  | recordAttempt (lowerEmail : String) (userId : Option ID) (succeeded : Bool)
      (failureReason : Option String) (ip : Option ID) (userAgent : Option String)
  | rehash (userId : ID) (hash : String)

/-- A `Bool` says that no constraint was broken, a number counts rows. -/
def Stmt.Answer : Stmt → Type
  | .now => Time
  | .findByTokenHash _ => Option RefreshToken
  | .insertToken _ | .enableMfa _ _ | .insertCode _ _ => Bool
  | .markUsed _ | .revokeRow _ _ _ | .setEnabled _ _ | .spendCode _ _ | .countCodes _
  | .clearExpired _ => Nat
  | .loadUserSnapshot _ => Option UserSnapshot
  | .matching _ | .expiredPending => List ID
  | .currentPasswordHash _ => Option String
  | .previousHashes _ => List String
  | .claimReset _ => Option ID
  | .mfaEnabled _ => Option Bool
  | .pending _ => Option (ID × Time)
  | .mfaSecret _ => Option (Option ID)
  | .countFailures _ _ _ => Nat × Nat
  | .loadForLogin _ => Option LoginRow
  | .replacePassword _ _ _ | .setPending _ _ | .clearPending _ | .disableMfa _
  | .deleteCodes _ | .recordAttempt .. | .rehash _ _ => Unit

def pendingTtl : Time := 30 * 60 * 1000000

/-- The `WHERE` clause of the sweeper. -/
def User.expired (row : User) (clock : Time) : Bool :=
  row.mfaPendingSecret.isSome &&
    row.mfaPendingSince.any fun since => decide (since + pendingTtl < clock)

/-- The row with a token that is active, for the `UPDATE` that marks it. -/
def Database.active (db : Database) (id : ID) : Option RefreshToken :=
  (db.token id).filter fun t => t.state = .active

def Database.matched (db : Database) (scope : Scope) (id : ID) : Option RefreshToken :=
  (db.token id).filter fun t => scope.matches t

def Database.claimable (db : Database) (hash : ID) : Option ResetToken :=
  (db.reset hash).filter fun r => !r.used && decide (db.clock < r.expiresAt)

def Database.unspent (db : Database) (userId hash : ID) : Option RecoveryCode :=
  (db.code userId hash).filter fun c => c.usedAt.isNone

/-- What the `UPDATE` of a confirmation makes of a user. -/
def User.confirmed (row : User) : User :=
  { row with
    mfaSecret := row.mfaPendingSecret
    mfaEnabled := true
    mfaPendingSecret := none
    mfaPendingSince := none }

/-- How many of the failed logins since an instant have a property. -/
def Database.failures (db : Database) (since : Int) (p : LoginAttempt → Bool) : Nat :=
  db.attempts.countP fun a => p a && !a.succeeded && decide (since < a.createdAt)

def Database.loginRow (db : Database) (lowerEmail : String) : Option LoginRow := do
  let u ← db.users.find? fun u => u.lowerEmail = lowerEmail
  let c ← db.credential u.id
  return ⟨u.id, c.passwordHash, u.enabled, u.mfaEnabled, u.mfaSecret, u.roles⟩

/-- The unique and the foreign keys of `refresh_tokens` admit the row. -/
def Database.admits (db : Database) (row : RefreshToken) : Bool :=
  db.tokens.all (fun t => t.id ≠ row.id ∧ t.tokenHash ≠ row.tokenHash) &&
    (db.user row.userId).isSome && row.parentId.all fun parentId => (db.token parentId).isSome

def Stmt.answer : (q : Stmt) → Database → q.Answer
  | .now, db => db.clock
  | .findByTokenHash hash, db => db.tokens.find? fun t => t.tokenHash = hash
  | .insertToken row, db => db.admits row
  | .markUsed id, db => (db.active id).toList.length
  | .loadUserSnapshot userId, db => (db.user userId).map fun u => ⟨u.id, u.roles, u.enabled⟩
  | .matching scope, db => (db.tokens.filter scope.matches).map RefreshToken.id
  | .revokeRow scope id _, db => (db.matched scope id).toList.length
  | .currentPasswordHash userId, db => (db.credential userId).map Credential.passwordHash
  | .previousHashes userId, db => (db.credential userId).elim [] Credential.previousHashes
  | .replacePassword _ _ _, _ => ()
  | .claimReset hash, db => (db.claimable hash).map ResetToken.userId
  | .setEnabled userId _, db => (db.user userId).toList.length
  | .mfaEnabled userId, db => (db.user userId).map User.mfaEnabled
  | .setPending _ _, _ => ()
  | .pending userId, db =>
    (db.user userId).bind fun u =>
      u.mfaPendingSecret.map fun secret => (secret, u.mfaPendingSince.getD 0)
  | .clearPending _, _ => ()
  | .enableMfa userId _, db => (db.user userId).all fun u => u.confirmed.admissible
  | .mfaSecret userId, db => ((db.user userId).filter fun u => u.mfaEnabled).map User.mfaSecret
  | .disableMfa _, _ => ()
  | .deleteCodes _, _ => ()
  | .insertCode userId hash, db => (db.code userId hash).isNone
  | .spendCode userId hash, db => (db.unspent userId hash).toList.length
  | .countCodes userId, db => (db.codesOf userId).countP fun c => c.usedAt.isNone
  | .expiredPending, db => (db.users.filter fun u => u.expired db.clock).map User.id
  | .clearExpired userId, db => ((db.user userId).filter fun u => u.expired db.clock).toList.length
  | .countFailures lowerEmail ip since, db =>
    (db.failures since fun a => a.lowerEmail = lowerEmail,
      -- an address that is `NULL` equals none
      db.failures since fun a => ip.any fun ip => a.ipAddress = some ip)
  | .loadForLogin lowerEmail, db => db.loginRow lowerEmail
  | .recordAttempt .., _ => ()
  | .rehash _ _, _ => ()

/-- The new version of the row an `UPDATE` finds. -/
def updating {ρ : Type} (found : Option ρ) (write : ρ → List Write) : List Write :=
  found.elim [] write

theorem mem_updating {ρ : Type} {found : Option ρ} {write : ρ → List Write} {w : Write} :
    w ∈ updating found write ↔ ∃ row, found = some row ∧ w ∈ write row := by
  cases found with
  | none => simp [updating]
  | some row => simp [updating]

def Stmt.writes : Stmt → Database → List Write
  | .insertToken row, db => if db.admits row then [.token row] else []
  | .markUsed id, db =>
    updating (db.active id) fun t => [.token { t with state := .used, usedAt := some db.clock }]
  | .matching scope, _ => [.scanned scope]
  | .revokeRow scope id reason, db =>
    updating (db.matched scope id) fun t =>
      [.token { t with state := .revoked, revokedReason := some reason }]
  | .replacePassword userId newHash oldHash, db =>
    updating (db.credential userId) fun c =>
      [.credential { c with
        passwordHash := newHash
        previousHashes := (oldHash :: c.previousHashes).take 5 }]
  | .claimReset hash, db => updating (db.claimable hash) fun r => [.reset { r with used := true }]
  | .setEnabled userId enabled, db =>
    updating (db.user userId) fun u => [.user { u with enabled := enabled }]
  | .setPending userId secret, db =>
    updating (db.user userId) fun u =>
      [.user { u with mfaPendingSecret := some secret, mfaPendingSince := some db.clock }]
  | .clearPending userId, db =>
    updating (db.user userId) fun u =>
      [.user { u with mfaPendingSecret := none, mfaPendingSince := none }]
  | .enableMfa userId proof, db =>
    updating (db.user userId) fun u =>
      if u.confirmed.admissible then [.user u.confirmed, .proven userId proof] else []
  | .disableMfa userId, db =>
    updating (db.user userId) fun u =>
      [.user { u with
        mfaEnabled := false
        mfaSecret := none
        mfaPendingSecret := none
        mfaPendingSince := none }]
  | .deleteCodes userId, _ => [.noCodes userId]
  | .insertCode userId hash, db =>
    if (db.code userId hash).isNone then [.code { userId, codeHash := hash }] else []
  | .spendCode userId hash, db =>
    updating (db.unspent userId hash) fun c => [.code { c with usedAt := some db.clock }]
  | .clearExpired userId, db =>
    updating ((db.user userId).filter fun u => u.expired db.clock) fun u =>
      [.user { u with mfaPendingSecret := none, mfaPendingSince := none }]
  | .recordAttempt lowerEmail userId succeeded failureReason ip userAgent, db =>
    [.attempt ⟨lowerEmail, userId, succeeded, failureReason, ip, userAgent, db.clock⟩]
  | .rehash userId hash, db =>
    updating (db.credential userId) fun c => [.credential { c with passwordHash := hash }]
  | _, _ => []

/-- The name of a row lock. The random value a call has drawn is its own. -/
inductive Key where
  | token (id : ID)
  | hash (tokenHash : ID)
  | user (id : ID)
  | credential (userId : ID)
  | reset (tokenHash : ID)
  | code (userId codeHash : ID)
  | mint (drawn : ID)
  deriving DecidableEq

/-- The row an `UPDATE` locks. -/
def locking {ρ : Type} (found : Option ρ) (key : Key) : List Key := found.elim [] fun _ => [key]

@[simp] theorem mem_locking {ρ : Type} {found : Option ρ} {key other : Key} :
    other ∈ locking found key ↔ found.isSome = true ∧ other = key := by
  cases found with
  | none => simp [locking]
  | some row => simp [locking]

def Stmt.keys : Stmt → Database → List Key
  | .insertToken row, _ => [.token row.id, .hash row.tokenHash]
  | .markUsed id, db => locking (db.active id) (.token id)
  | .revokeRow scope id _, db => locking (db.matched scope id) (.token id)
  | .replacePassword userId _ _, db | .rehash userId _, db =>
    locking (db.credential userId) (.credential userId)
  | .claimReset hash, db => locking (db.claimable hash) (.reset hash)
  | .setEnabled userId _, db | .setPending userId _, db | .clearPending userId, db
  | .enableMfa userId _, db | .disableMfa userId, db => locking (db.user userId) (.user userId)
  | .clearExpired userId, db =>
    locking ((db.user userId).filter fun u => u.expired db.clock) (.user userId)
  | .deleteCodes userId, db => (db.codesOf userId).map fun c => .code userId c.codeHash
  | .insertCode userId hash, _ => [.code userId hash]
  | .spendCode userId hash, db => locking (db.unspent userId hash) (.code userId hash)
  | _, _ => []

/-- The statements against the tables. -/
abbrev dialect : Dialect where
  Db := Database
  Stmt := Stmt
  Answer := Stmt.Answer
  Write := Write
  Key := Key
  answer := Stmt.answer
  writes := Stmt.writes
  put := Write.put
  keys := Stmt.keys
  skip := fun _ => none

instance : DecidableEq dialect.Key := inferInstanceAs (DecidableEq Key)

end Souq.Identity
