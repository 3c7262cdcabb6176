import Souq.Identity.Service

/-!
# What calls send

Of the statements that the calls of the service send, two are sent only with certain
arguments: the insertion of a token, which says nothing about how the user has
authenticated, and the `UPDATE` of a confirmation, which has verified a code.
-/

namespace Souq.Identity

open Transact Program.Only

def Stmt.Lawful (env : Env) : Stmt → Prop
  | .insertToken row => row.amr = []
  | .enableMfa _ proof => env.totp proof.secret proof.code proof.verifiedAt = true
  | _ => True

/-- A transaction sends only such statements. -/
abbrev Lawful {α : Type} (env : Env) (p : Tx α) : Prop :=
  Program.Only (D := dialect) (Stmt.Lawful env) p

section Calls

variable {env : Env} {n : ID} {α β : Type}

theorem lawful_statement {q : Stmt} {f : q.Answer → Tx α} (sends : q.Lawful env)
    (later : ∀ answer, Lawful env (f answer)) : Lawful env (statement q >>= f) :=
  ⟨sends, later⟩

theorem Lawful.void {p : Tx α} (lawful : Lawful env p) : Lawful env p.void :=
  bind lawful fun _ => trivial

variable (userId : ID)

theorem lawful_sign (roles amr : List String) (sessionId : ID) :
    Lawful env (signAccessToken env n userId roles amr sessionId) := by
  refine lawful_statement trivial fun now => ?_
  cases env.sign _ <;> trivial

theorem lawful_mint (sessionId : ID) (parentId : Option ID) (device : Option String) :
    Lawful env (mintRefreshToken env n userId sessionId parentId device) :=
  lawful_statement trivial fun _ => lawful_statement rfl fun _ =>
    ite (fun _ => trivial) trivial

theorem lawful_issue (roles amr : List String) (device : Option String) :
    Lawful env (issue env n userId roles amr device) :=
  (lawful_sign _ _ _ _).bind fun _ => (lawful_mint _ _ _ _).bind fun _ => trivial

theorem lawful_revoke (scope : Scope) (reason : String) :
    Lawful env (revoke scope reason) := by
  refine lawful_statement trivial fun ids => ?_
  induction (ids : List ID) with
  | nil => trivial
  | cons id ids ih => exact lawful_statement trivial fun _ => ih.bind fun _ => trivial

theorem lawful_refresh (presentedToken : ID) (device : Option String) :
    Lawful env (refresh env n presentedToken device) := by
  refine lawful_statement trivial fun found => ?_
  cases found with
  | none => trivial
  | some stored =>
    cases state : stored.state with
    | used =>
      simp only [rotate, state]
      exact (lawful_revoke _ _).bind fun _ => trivial
    | revoked =>
      simp only [rotate, state]
      trivial
    | active =>
      simp only [rotate, state]
      refine lawful_statement trivial fun now => ite (fun _ => trivial) ?_
      refine lawful_statement trivial fun _ => lawful_statement trivial fun user => ?_
      cases user with
      | none => trivial
      | some user =>
        refine ite (fun _ => (lawful_revoke _ _).bind fun _ => trivial) ?_
        exact (lawful_sign _ _ _ _).bind fun _ =>
          (lawful_mint _ _ _ _).bind fun _ => trivial

theorem lawful_applyNewPassword (newPassword existingHash : String) :
    Lawful env (applyNewPassword env userId newPassword existingHash) := by
  refine lawful_statement trivial fun previous => ?_
  cases env.validatePassword newPassword previous with
  | some reason => trivial
  | none => exact ite (fun _ => trivial) ⟨trivial, fun _ => trivial⟩

theorem lawful_currentHash : Lawful env (currentHash userId) := by
  refine lawful_statement trivial fun hash => ?_
  cases hash <;> trivial

theorem lawful_login (cmd : LoginCommand) : Lawful env (login env n cmd) := by
  have rejects : ∀ ip userId reason failure,
      Lawful env (reject env cmd ip userId reason failure : Tx AuthResult) :=
    fun _ _ _ _ => lawful_statement trivial fun _ => trivial
  have welcomes : ∀ ip user amr, Lawful env (welcome env n cmd ip user amr) := by
    intro ip user amr
    have opens : Lawful env (do
        recordAttempt env cmd ip (some user.id) true none
        let pair ← issue env n user.id user.roles amr cmd.deviceFingerprint
        return ⟨pair, user.id, user.roles⟩ : Tx AuthResult) :=
      lawful_statement trivial fun _ => (lawful_issue _ _ _ _).bind fun _ => trivial
    exact ite (fun _ => lawful_statement trivial fun _ => opens) opens
  unfold login
  cases cmd.address env with
  | none => trivial
  | some ip =>
    have counts : Lawful env (lockoutRemaining env cmd.email ip) :=
      lawful_statement trivial fun _ => lawful_statement trivial fun _ =>
        ite (fun _ => trivial) trivial
    refine counts.bind fun lockout => ite (fun _ => rejects _ _ _ _) ?_
    refine lawful_statement trivial fun found => ?_
    cases found with
    | none => exact rejects _ _ _ _
    | some user =>
      refine ite (fun _ => rejects _ _ _ _) (ite (fun _ => rejects _ _ _ _) ?_)
      refine ite (fun _ => welcomes _ _ _) ?_
      cases cmd.mfaCode.filter fun code => !isBlank code with
      | none => exact rejects _ _ _ _
      | some code =>
        exact lawful_statement trivial fun now =>
          ite (fun _ => welcomes _ _ _) (rejects _ _ _ _)

theorem lawful_begin : Lawful env (begin n userId) := by
  refine lawful_statement trivial fun enrolled => ?_
  rcases enrolled with _ | _ | _
  · trivial
  · exact lawful_statement trivial fun _ => trivial
  · trivial

theorem lawful_insertCodes (codes : List String) :
    Lawful env (insertCodes env userId codes) := by
  induction codes with
  | nil => trivial
  | cons code codes ih =>
    exact lawful_statement trivial fun inserted => ite (fun _ => ih) trivial

theorem lawful_confirm (code : String) :
    Lawful env (confirm env n userId code) := by
  refine lawful_statement trivial fun pending => ?_
  rcases pending with _ | ⟨secret, since⟩
  · trivial
  refine lawful_statement trivial fun now => ite (fun _ => ?_) ?_
  · exact lawful_statement trivial fun _ => trivial
  refine lawful_statement trivial fun verifiedAt => ?_
  cases verified : env.totp secret code verifiedAt with
  | false =>
    simp only [Bool.not_false, ↓reduceIte]
    trivial
  | true =>
    simp only [Bool.not_true, Bool.false_eq_true, ↓reduceIte]
    refine lawful_statement verified fun admitted => ite (fun _ => ?_) trivial
    exact lawful_statement trivial fun _ => (lawful_insertCodes _ _).bind fun _ => trivial

theorem lawful_disable (code : String) : Lawful env (disable env userId code) := by
  have removes : Lawful env (removeMfa userId) :=
    lawful_statement trivial fun _ => lawful_statement trivial fun _ =>
      (lawful_revoke _ _).void
  have consumes : Lawful env (consumeRecoveryCode env userId code) :=
    lawful_statement trivial fun _ => ite (fun _ => lawful_statement trivial fun _ =>
      trivial) trivial
  refine lawful_statement trivial fun found => ?_
  cases found with
  | none => trivial
  | some secret =>
    refine lawful_statement trivial fun now => ite (fun _ => removes) ?_
    exact consumes.bind fun consumed => ite (fun _ => removes) trivial

theorem lawful_clearRows (userIds : List ID) : Lawful env (clearRows userIds) := by
  induction userIds with
  | nil => trivial
  | cons userId userIds ih => exact lawful_statement trivial fun _ => ih.bind fun _ => trivial

theorem lawful_tx (call : Call) : Lawful env (call.tx env n) := by
  cases call with
  | login cmd => exact (lawful_login cmd).void
  | issue userId roles amr device => exact (lawful_issue userId roles amr device).void
  | refresh presentedToken device => exact (lawful_refresh presentedToken device).void
  | revokeByToken presentedToken reason =>
    refine lawful_statement trivial fun found => ?_
    cases found with
    | none => trivial
    | some stored => exact (lawful_revoke _ _).void
  | revokeSession | revokeAllForUser => exact (lawful_revoke _ _).void
  | changePassword userId currentSessionId currentPassword newPassword =>
    refine (lawful_currentHash userId).bind fun hash => ite (fun _ => trivial) ?_
    exact (lawful_applyNewPassword _ _ _).bind fun _ => (lawful_revoke _ _).void
  | completePasswordReset token newPassword =>
    refine lawful_statement trivial fun claimed => ?_
    cases claimed with
    | none => trivial
    | some userId =>
      exact (lawful_currentHash userId).bind fun hash =>
        (lawful_applyNewPassword _ _ _).bind fun _ => (lawful_revoke _ _).void
  | begin userId => exact (lawful_begin userId).void
  | confirm userId code => exact (lawful_confirm userId code).void
  | disable userId code => exact lawful_disable userId code
  | clearExpiredPending =>
    exact Lawful.void (lawful_statement trivial fun userIds => lawful_clearRows userIds)
  | setEnabled userId enabled => exact Lawful.void ⟨trivial, fun _ => trivial⟩

end Calls

end Souq.Identity
