import Souq.Identity.Service

/-!
# What reuse detection leaves behind

`refresh` revokes the family of a token that comes back and then throws. It is one
transaction, and an exception rolls it back: the revocation goes with it. The same
holds where the user turns out to be disabled.
-/

namespace Souq.Identity

open Transact

/-- A call of `refresh` finds the token of a session that it means to end: the token
was used before, or its user is disabled. -/
def Detects (env : Env) (mint : ID) (db : Database) (presentedToken : ID)
    (deviceFingerprint : Option String) (sessionId : ID) : Prop :=
  ∃ stored, (db.tokens.find? fun t => t.tokenHash = env.hash presentedToken) = some stored ∧
    stored.sessionId = sessionId ∧
    (((refresh env mint presentedToken deviceFingerprint).run db).1 =
        .error (.tokenReuse stored.userId sessionId) ∨
      ((refresh env mint presentedToken deviceFingerprint).run db).1 =
        .error (.invalidToken "account is disabled"))

/-- The tables after some calls, each with the number it has drawn. -/
def afterCalls (env : Env) (calls : List (ID × Call)) (db : Database) : Database :=
  calls.foldl (fun db call => (call.2.tx env call.1).inTx db) db

/-- Every token of the session is revoked, and whatever is called later, no refresh
with a token of the session succeeds. -/
def Burned (env : Env) (db : Database) (sessionId : ID) : Prop :=
  (∀ t ∈ db.tokens, t.sessionId = sessionId → t.state = .revoked) ∧
    ∀ (later : List (ID × Call)) (mint presentedToken : ID) (deviceFingerprint : Option String),
      (∃ t ∈ (afterCalls env later db).tokens,
        t.sessionId = sessionId ∧ t.tokenHash = env.hash presentedToken) →
      ∀ pair, ((refresh env mint presentedToken deviceFingerprint).run
        (afterCalls env later db)).1 ≠ .ok pair

section Refresh

variable {env : Env} {mint : ID} {db : Database} {presentedToken : ID}
  {deviceFingerprint : Option String} {sessionId : ID}

theorem refresh_run : (refresh env mint presentedToken deviceFingerprint).run db =
    (rotate env mint deviceFingerprint
      (db.tokens.find? fun t => t.tokenHash = env.hash presentedToken)).run db := rfl

theorem Detects.inTx (detects : Detects env mint db presentedToken deviceFingerprint sessionId) :
    (refresh env mint presentedToken deviceFingerprint).inTx db = db := by
  obtain ⟨stored, -, -, reused | disabled⟩ := detects
  · exact Program.inTx_of_error (Prod.ext reused rfl)
  · exact Program.inTx_of_error (Prod.ext disabled rfl)

theorem Detects.live (detects : Detects env mint db presentedToken deviceFingerprint sessionId) :
    ∃ t ∈ db.tokens, t.sessionId = sessionId ∧ t.state ≠ .revoked := by
  obtain ⟨stored, found, session, outcome⟩ := detects
  refine ⟨stored, List.mem_of_find?_eq_some found, session, fun revoked => ?_⟩
  have refused : ((refresh env mint presentedToken deviceFingerprint).run db).1 =
      .error (.invalidToken "refresh token has been revoked") := by
    rw [refresh_run, found]
    unfold rotate
    simp only [revoked]
    rfl
  rw [refused] at outcome
  rcases outcome with reused | disabled
  · cases reused
  · revert disabled
    decide

/-- **Reuse detection never burns the family.** Whatever the tables, after a call that
detects reuse or a disabled user the session has a token that is not revoked. -/
theorem refresh_never_burns (env : Env) (mint : ID) (db : Database) (presentedToken : ID)
    (deviceFingerprint : Option String) (sessionId : ID)
    (detects : Detects env mint db presentedToken deviceFingerprint sessionId) :
    ¬ Burned env ((refresh env mint presentedToken deviceFingerprint).inTx db) sessionId := by
  intro burned
  obtain ⟨t, member, session, live⟩ := detects.live
  rw [detects.inTx] at burned
  exact live (burned.1 t member session)

end Refresh

def sampleCodes : List String :=
  ["2K7MQ-WX3RA", "4HPTN-9CEYB", "5DGJV-6SFLZ", "7AXNC-2WMKQ", "8RBTY-3HEPG", "9CVDS-4JFNM",
    "AQ5WK-7XZRT", "BM6YE-8LGHP", "CN9SJ-2DVFA", "DT3KX-5QWCB"]

def sampleEnv : Env where
  issuer := "https://identity.souq.dev"
  audience := ["souq"]
  hash := id
  codeHash := fun code => sampleCodes.idxOf code
  recoveryCode := fun _ n => sampleCodes.getD n ""
  sign := fun _ => some "jwt"
  verifyPassword := fun raw hash => raw == hash
  hashPassword := id
  needsRehash := fun _ => false
  validatePassword := fun _ _ => none
  totp := fun _ code _ => code == "123456"
  lower := id
  inet := fun text => if text = "10.0.0.1" then some 0x0a000001 else none
  lockout := ⟨5, 20, 15 * 60 * 1000000⟩

/-- A login and a refresh: token 1 is used, token 2 is active. -/
def rotated : Database :=
  afterCalls sampleEnv [(1, .issue 7 ["CUSTOMER"] ["pwd"] none), (2, .refresh 1 none)]
    { users := [{ id := 7, roles := ["CUSTOMER"] }] }

theorem rotated_detects : Detects sampleEnv 3 rotated 1 none 1 :=
  ⟨⟨1, 7, 1, none, 1, .used, none, [], refreshTtl, some 0, none⟩, by decide, rfl, .inl (by decide)⟩

theorem rotated_not_burned :
    ¬ Burned sampleEnv ((refresh sampleEnv 3 1 none).inTx rotated) 1 :=
  refresh_never_burns sampleEnv 3 rotated 1 none 1 rotated_detects

/-- The thief's copy of token 1 is detected, and token 2 is exchanged afterwards. -/
theorem reuse_leaves_the_session_alive :
    ((refresh sampleEnv 3 1 none).run rotated).1 = .error (.tokenReuse 7 1) ∧
      ¬ Burned sampleEnv ((refresh sampleEnv 3 1 none).inTx rotated) 1 ∧
      ∃ pair, ((refresh sampleEnv 4 2 none).run ((refresh sampleEnv 3 1 none).inTx rotated)).1 =
        .ok pair := by
  refine ⟨by decide, fun burned => ?_, ⟨"jwt", 4, 900, 7, ["CUSTOMER"]⟩, by decide⟩
  have revoked := burned.1 ⟨2, 7, 1, some 1, 2, .active, none, [], refreshTtl, none, none⟩
    (by decide) rfl
  cases revoked

end Souq.Identity
