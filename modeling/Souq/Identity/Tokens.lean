import Souq.Identity.Store

/-!
# Issuing, rotating and revoking tokens

`TokenService`, `ProfileService` and `MfaService` of the identity service. Every
public method is one transaction: an exception that leaves it rolls everything
back. What a call draws at random is one number, from which its identifiers are
taken.
-/

namespace Souq.Identity

open Transact

/-- What a call throws. -/
inductive Failure where
  | tokenReuse (userId sessionId : ID)
  | invalidToken (message : String)
  | illegalState (message : String)
  | dataIntegrityViolation
  | emptyResult
  | userNotFound (userId : ID)
  | wrongCurrentPassword
  | weakPassword (reasonCode message : String)
  | passwordReused
  | alreadyEnrolled
  | noPendingEnrolment
  | badCode
  | authenticationFailed
  | accountLocked (retryAfter : Int)
  | mfaRequired
  /-- A text that the database does not read as an address. -/
  | invalidAddress
  deriving DecidableEq

/-- The claims of an access token. -/
structure Claims where
  subject : ID
  issuer : String
  audience : List String
  issuedAt : Time
  expiresAt : Time
  jwtId : ID
  roles : List String
  sid : ID
  amr : List String
  scope : List String

/-- The limits of failed logins, and how long they are counted, in microseconds. -/
structure LockoutPolicy where
  maxFailuresPerAccount : Int
  maxFailuresPerIp : Int
  lockoutWindow : Int

/-- What the service is configured with and calls: hashes, the password encoder and
its rules, the signing key and the one-time codes. -/
structure Env where
  issuer : String
  audience : List String
  /-- SHA-256 of a token. -/
  hash : ID → ID
  /-- SHA-256 of a normalised recovery code. -/
  codeHash : String → ID
  /-- The text of a recovery code drawn at random. -/
  recoveryCode : ID → Nat → String
  /-- The signed token, or nothing where signing fails. -/
  sign : Claims → Option String
  verifyPassword : String → String → Bool
  hashPassword : String → String
  needsRehash : String → Bool
  /-- The reason why a password is not accepted, given the earlier hashes. -/
  validatePassword : String → List String → Option (String × String)
  /-- `Totp.verify` at a reading of the clock. -/
  totp : ID → String → Time → Bool
  /-- `lower` of the database. -/
  lower : String → String
  /-- The cast of a text to an address. -/
  inet : String → Option ID
  lockout : LockoutPolicy

def accessTtl : Time := 15 * 60 * 1000000

def refreshTtl : Time := 30 * 24 * 60 * 60 * 1000000

/-- What a client gets to hold. -/
structure TokenPair where
  accessToken : String
  refreshToken : ID
  expiresInSeconds : Nat
  userId : ID
  roles : List String
  deriving DecidableEq

abbrev Tx := Program dialect Failure

def statement (q : Stmt) : Tx q.Answer := Program.stmt (D := dialect) q

def scopesFor (roles : List String) : List String :=
  if "ADMIN" ∈ roles then
    ["orders:read", "orders:write", "catalog:read", "catalog:write",
      "inventory:read", "inventory:write", "users:read", "users:write"]
  else if "OPS" ∈ roles then
    ["orders:read", "orders:write", "inventory:read", "inventory:write", "saga:read"]
  else if "SUPPORT" ∈ roles then ["orders:read", "users:read"]
  else if "MERCHANT" ∈ roles then ["catalog:read", "catalog:write", "orders:read"]
  else ["orders:read", "orders:write", "catalog:read", "cart:write"]

section Tokens

variable (env : Env) (mint : ID)

def signAccessToken (userId : ID) (roles amr : List String) (sessionId : ID) : Tx String := do
  let now : Time ← statement .now
  match env.sign ⟨userId, env.issuer, env.audience, now, now + accessTtl, mint, roles, sessionId,
      amr, scopesFor roles⟩ with
  | some token => return token
  | none => .fail (.illegalState "could not sign the access token")

def newToken (userId sessionId : ID) (parentId : Option ID) (deviceFingerprint : Option String)
    (now : Time) : RefreshToken where
  id := mint
  userId := userId
  sessionId := sessionId
  parentId := parentId
  tokenHash := env.hash mint
  state := .active
  deviceFingerprint := deviceFingerprint
  amr := []
  expiresAt := now + refreshTtl

def mintRefreshToken (userId sessionId : ID) (parentId : Option ID)
    (deviceFingerprint : Option String) : Tx ID := do
  let now : Time ← statement .now
  let inserted : Bool ← statement
    (.insertToken (newToken env mint userId sessionId parentId deviceFingerprint now))
  if inserted then return mint else .fail .dataIntegrityViolation

def issue (userId : ID) (roles amr : List String) (deviceFingerprint : Option String) :
    Tx TokenPair := do
  let access ← signAccessToken env mint userId roles amr mint
  let refresh ← mintRefreshToken env mint userId mint none deviceFingerprint
  return ⟨access, refresh, 900, userId, roles⟩

/-- The rows of a revocation, one after the other, with the number that changed. -/
def revokeRows (scope : Scope) (reason : String) : List ID → Tx Nat
  | [] => return 0
  | id :: ids => do
    let first : Nat ← statement (.revokeRow scope id reason)
    let rest ← revokeRows scope reason ids
    return first + rest

def revoke (scope : Scope) (reason : String) : Tx Nat := do
  revokeRows scope reason (← statement (.matching scope))

def revokeFamily (sessionId : ID) (reason : String) : Tx Nat := revoke (.session sessionId) reason

/-- The rest of a refresh once the presented token has been marked. -/
def renew (stored : RefreshToken) (deviceFingerprint : Option String) :
    Option UserSnapshot → Tx TokenPair
  | none => .fail (.invalidToken "user no longer exists")
  | some user => do
    if !user.enabled then
      let _ ← revokeFamily stored.sessionId "USER_DISABLED"
      .fail (.invalidToken "account is disabled")
    else
      let access ← signAccessToken env mint user.id user.roles stored.amr stored.sessionId
      let next ← mintRefreshToken env mint user.id stored.sessionId (some stored.id)
        deviceFingerprint
      return ⟨access, next, 900, user.id, user.roles⟩

/-- The rest of a refresh once the presented token has been read. -/
def rotate (deviceFingerprint : Option String) : Option RefreshToken → Tx TokenPair
  | none => .fail (.invalidToken "refresh token not recognised")
  | some stored =>
    match stored.state with
    | .used => do
      let _ ← revokeFamily stored.sessionId "REUSE_DETECTED"
      .fail (.tokenReuse stored.userId stored.sessionId)
    | .revoked => .fail (.invalidToken "refresh token has been revoked")
    | .active => do
      let now : Time ← statement .now
      if stored.expiresAt < now then .fail (.invalidToken "refresh token has expired")
      else
        -- how many rows were marked is not looked at
        let _ ← statement (.markUsed stored.id)
        renew env mint stored deviceFingerprint (← statement (.loadUserSnapshot stored.userId))

/-- The presented token is exchanged for the next of its session. -/
def refresh (presentedToken : ID) (deviceFingerprint : Option String) : Tx TokenPair := do
  rotate env mint deviceFingerprint (← statement (.findByTokenHash (env.hash presentedToken)))

end Tokens

def revokeSession (sessionId : ID) (reason : String) : Tx Unit :=
  (revokeFamily sessionId reason).void

def revokeByToken (env : Env) (presentedToken : ID) (reason : String) : Tx Unit := do
  match ← (statement (.findByTokenHash (env.hash presentedToken)) : Tx (Option RefreshToken)) with
  | none => return ()
  | some stored => revokeSession stored.sessionId reason

def revokeAllForUser (userId : ID) (reason : String) : Tx Unit :=
  (revoke (.user userId) reason).void

section Passwords

variable (env : Env)

def applyNewPassword (userId : ID) (newPassword existingHash : String) : Tx Unit := do
  let previous : List String ← statement (.previousHashes userId)
  match env.validatePassword newPassword previous with
  | some (reasonCode, message) => .fail (.weakPassword reasonCode message)
  | none =>
    if env.verifyPassword newPassword existingHash then .fail .passwordReused
    else statement (.replacePassword userId (env.hashPassword newPassword) existingHash)

def currentHash (userId : ID) : Tx String := do
  match ← (statement (.currentPasswordHash userId) : Tx (Option String)) with
  | some hash => return hash
  | none => .fail (.userNotFound userId)

def changePassword (userId currentSessionId : ID) (currentPassword newPassword : String) :
    Tx Unit := do
  let existingHash ← currentHash userId
  if !env.verifyPassword currentPassword existingHash then .fail .wrongCurrentPassword
  else
    applyNewPassword env userId newPassword existingHash
    (revoke (.others userId currentSessionId) "PASSWORD_CHANGED").void

def completePasswordReset (token : ID) (newPassword : String) : Tx Unit := do
  match ← (statement (.claimReset (env.hash token)) : Tx (Option ID)) with
  | none => .fail (.invalidToken "this reset link is no longer valid")
  | some userId =>
    let existingHash ← currentHash userId
    applyNewPassword env userId newPassword existingHash
    revokeAllForUser userId "PASSWORD_RESET"

end Passwords

section Mfa

variable (env : Env) (mint : ID)

def begin (userId : ID) : Tx ID := do
  match ← (statement (.mfaEnabled userId) : Tx (Option Bool)) with
  | none => .fail .emptyResult
  | some true => .fail .alreadyEnrolled
  | some false =>
    let _ ← statement (.setPending userId mint)
    return mint

def insertCodes (userId : ID) : List String → Tx Unit
  | [] => return ()
  | code :: codes => do
    let inserted : Bool ← statement (.insertCode userId (env.codeHash code))
    if inserted then insertCodes userId codes else .fail .dataIntegrityViolation

def issueRecoveryCodes (userId : ID) : Tx (List String) := do
  let _ ← statement (.deleteCodes userId)
  let codes := (List.range 10).map (env.recoveryCode mint)
  insertCodes env userId codes
  return codes

def confirm (userId : ID) (code : String) : Tx (List String) := do
  match ← (statement (.pending userId) : Tx (Option (ID × Time))) with
  | none => .fail .noPendingEnrolment
  | some (secret, since) =>
    let now : Time ← statement .now
    if since + pendingTtl < now then
      let _ ← statement (.clearPending userId)
      .fail .noPendingEnrolment
    else
      let now : Time ← statement .now
      if !env.totp secret code now then .fail .badCode
      else
        let admitted : Bool ← statement (.enableMfa userId ⟨secret, code, now⟩)
        if admitted then issueRecoveryCodes env mint userId else .fail .dataIntegrityViolation

def consumeRecoveryCode (userId : ID) (code : String) : Tx Bool := do
  let spent : Nat ← statement (.spendCode userId (env.codeHash code))
  if spent == 1 then
    let _ ← statement (.countCodes userId)
    return true
  else return false

/-- The rest of `disable` once a code has been accepted. -/
def removeMfa (userId : ID) : Tx Unit := do
  let _ ← statement (.disableMfa userId)
  let _ ← statement (.deleteCodes userId)
  revokeAllForUser userId "MFA_DISABLED"

def disable (userId : ID) (code : String) : Tx Unit := do
  match ← (statement (.mfaSecret userId) : Tx (Option (Option ID))) with
  | none => return ()
  | some secret =>
    let now : Time ← statement .now
    if secret.any fun secret => env.totp secret code now then removeMfa userId
    else if ← consumeRecoveryCode env userId code then removeMfa userId
    else .fail .badCode

def clearRows : List ID → Tx Nat
  | [] => return 0
  | userId :: userIds => do
    let first : Nat ← statement (.clearExpired userId)
    let rest ← clearRows userIds
    return first + rest

def clearExpiredPending : Tx Nat := do
  clearRows (← statement .expiredPending)

end Mfa

def setEnabled (userId : ID) (enabled : Bool) : Tx Nat := statement (.setEnabled userId enabled)

end Souq.Identity
