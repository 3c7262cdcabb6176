import Souq.Identity.Tokens

/-!
# Logging in

`AuthService.login` of the identity service. The lockout is checked first; every way
out records the attempt, and all of them but one throw.
-/

namespace Souq.Identity

open Transact

/-- What a login presents. -/
structure LoginCommand where
  email : String
  password : String
  mfaCode : Option String
  ipAddress : Option String
  userAgent : Option String
  deviceFingerprint : Option String

/-- What a login returns. -/
structure AuthResult where
  tokens : TokenPair
  userId : ID
  roles : List String
  deriving DecidableEq

/-- `Character.isWhitespace`. -/
def isWhitespace (c : Char) : Bool :=
  let n := c.toNat
  (9 ≤ n && n ≤ 13) || (0x1c ≤ n && n ≤ 0x20) || n == 0x1680 || (0x2000 ≤ n && n ≤ 0x2006) ||
    (0x2008 ≤ n && n ≤ 0x200a) || n == 0x2028 || n == 0x2029 || n == 0x205f || n == 0x3000

def isBlank (text : String) : Bool := text.toList.all isWhitespace

section Login

variable (env : Env)

/-- The address of a call, where the database can read it. -/
def LoginCommand.address (cmd : LoginCommand) : Option (Option ID) :=
  match cmd.ipAddress with
  | none => some none
  | some text => (env.inet text).map some

def lockoutRemaining (email : String) (ip : Option ID) : Tx Int := do
  let now : Time ← statement .now
  let counts : Nat × Nat ← statement
    (.countFailures (env.lower email) ip (now - env.lockout.lockoutWindow))
  if env.lockout.maxFailuresPerAccount ≤ counts.1 ∨ env.lockout.maxFailuresPerIp ≤ counts.2 then
    return env.lockout.lockoutWindow
  else return 0

def recordAttempt (cmd : LoginCommand) (ip : Option ID) (userId : Option ID) (succeeded : Bool)
    (reason : Option String) : Tx Unit :=
  statement (.recordAttempt (env.lower cmd.email) userId succeeded reason ip cmd.userAgent)

/-- A way out: the attempt is recorded, and the call throws. -/
def reject {α : Type} (cmd : LoginCommand) (ip : Option ID) (userId : Option ID) (reason : String)
    (failure : Failure) : Tx α := do
  recordAttempt env cmd ip userId false (some reason)
  .fail failure

def welcome (mint : ID) (cmd : LoginCommand) (ip : Option ID) (user : LoginRow)
    (amr : List String) : Tx AuthResult := do
  if env.needsRehash user.passwordHash then
    let _ ← statement (.rehash user.id (env.hashPassword cmd.password))
  recordAttempt env cmd ip (some user.id) true none
  let pair ← issue env mint user.id user.roles amr cmd.deviceFingerprint
  return ⟨pair, user.id, user.roles⟩

def checkMfa (mint : ID) (cmd : LoginCommand) (ip : Option ID) (user : LoginRow) :
    Tx AuthResult := do
  if !user.mfaEnabled then welcome env mint cmd ip user ["pwd"]
  else
    match cmd.mfaCode.filter fun code => !isBlank code with
    | none => reject env cmd ip (some user.id) "MFA_REQUIRED" .mfaRequired
    | some code =>
      let now : Time ← statement .now
      if user.mfaSecret.any fun secret => env.totp secret code now then
        welcome env mint cmd ip user ["pwd", "mfa"]
      else reject env cmd ip (some user.id) "BAD_MFA_CODE" .authenticationFailed

def checkPassword (mint : ID) (cmd : LoginCommand) (ip : Option ID) :
    Option LoginRow → Tx AuthResult
  | none => reject env cmd ip none "NO_SUCH_USER" .authenticationFailed
  | some user =>
    if !env.verifyPassword cmd.password user.passwordHash then
      reject env cmd ip (some user.id) "BAD_PASSWORD" .authenticationFailed
    else if !user.enabled then
      reject env cmd ip (some user.id) "ACCOUNT_DISABLED" .authenticationFailed
    else checkMfa env mint cmd ip user

def login (mint : ID) (cmd : LoginCommand) : Tx AuthResult :=
  match cmd.address env with
  | none => .fail .invalidAddress
  | some ip => do
    let lockout ← lockoutRemaining env cmd.email ip
    if lockout ≠ 0 then reject env cmd ip none "LOCKED_OUT" (.accountLocked lockout)
    else checkPassword env mint cmd ip (← statement (.loadForLogin (env.lower cmd.email)))

end Login

end Souq.Identity
