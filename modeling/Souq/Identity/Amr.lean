import Souq.Identity.Families
import Souq.Identity.Reuse
import Souq.Identity.Sends

/-!
# How a user has authenticated

The first access token of a session names the methods that the login was made with.
The row of the refresh token does not, so that every later one names none.
-/

namespace Souq.Identity

open Transact Program List

/-- Who a verified token says the caller is. -/
structure Principal where
  userId : ID
  roles : List String
  amr : List String
  sessionId : ID
  tokenId : ID
  deriving DecidableEq

def Principal.hasRole (p : Principal) (role : String) : Bool := p.roles.contains role

/-- Admin surfaces need a privileged role and a login with a second factor. -/
def Principal.isAdmin (p : Principal) : Bool :=
  (p.hasRole "ADMIN" || p.hasRole "OPS") && p.amr.contains "mfa"

def Claims.principal (claims : Claims) : Principal :=
  ⟨claims.subject, claims.roles, claims.amr, claims.sid, claims.jwtId⟩

/-- A token that was signed reads back as its claims. -/
def Reads (env : Env) (read : String → Option Principal) : Prop :=
  ∀ claims token, env.sign claims = some token → read token = some claims.principal

/-- The pairs of a session, from the login to the last refresh so far. Whatever else is
called in between is called as well. -/
inductive Chain (env : Env) (accounts : Database) (amr : List String) :
    Database → List TokenPair → Prop
  | issue {calls : List (ID × Call)} {mint userId : ID} {roles : List String}
      {device : Option String} {pair : TokenPair} {after : Database}
      (ran : (issue env mint userId roles amr device).run
        (afterCalls env calls { accounts with tokens := [] }) = (.ok pair, after)) :
      Chain env accounts amr after [pair]
  | refresh {db : Database} {front : List TokenPair} {pair next : TokenPair} {mint : ID}
      {device : Option String} {after : Database}
      (chain : Chain env accounts amr db (front ++ [pair]))
      (ran : (refresh env mint pair.refreshToken device).run db = (.ok next, after)) :
      Chain env accounts amr after (front ++ [pair, next])
  | other {db : Database} {pairs : List TokenPair} {mint : ID} {call : Call}
      (chain : Chain env accounts amr db pairs) :
      Chain env accounts amr ((call.tx env mint).inTx db) pairs

/-- Every access token of the session names these methods, and the user is an admin with
one where they are with another, as long as the roles are the same. -/
def Survives (read : String → Option Principal) (amr : List String) (pairs : List TokenPair) :
    Prop :=
  (∀ pair ∈ pairs, ∃ p, read pair.accessToken = some p ∧ p.amr = amr) ∧
    ∀ one ∈ pairs, ∀ other ∈ pairs, ∀ p q, read one.accessToken = some p →
      read other.accessToken = some q → (∀ role, role ∈ p.roles ↔ role ∈ q.roles) →
      p.isAdmin = q.isAdmin

theorem Principal.isAdmin_congr {p q : Principal} (roles : ∀ role, role ∈ p.roles ↔ role ∈ q.roles)
    (amr : p.amr = q.amr) : p.isAdmin = q.isAdmin := by
  have same : ∀ role, p.hasRole role = q.hasRole role := fun role =>
    Bool.eq_iff_iff.mpr (by simpa [hasRole] using roles role)
  unfold isAdmin
  rw [same, same, amr]

/-- No row says how its user has authenticated. -/
def Database.Silent (db : Database) : Prop := ∀ t ∈ db.tokens, t.amr = []

section Rows

variable {env : Env} {db : Database}

theorem Database.Silent.replay (silent : db.Silent) {writes : List Write}
    (rows : ∀ row ∈ rowsOf writes, row.amr = []) : (dialect.replay writes db).Silent := by
  intro t member
  rw [tokens_replay] at member
  exact (Table.mem_foldl_upsert member).elim (rows t) (silent t)

/-- **One statement.** -/
theorem Database.Silent.stmt (silent : db.Silent) {q : Stmt} (lawful : q.Lawful env) :
    (dialect.replay (q.writes db) db).Silent := by
  refine silent.replay fun row member => ?_
  cases quiet : q.quiet with
  | true =>
    rw [(Stmt.quiet_writes quiet db).1] at member
    cases member
  | false =>
    -- an `UPDATE` of a token keeps the column
    have updated : ∀ (found : Option RefreshToken) (change : RefreshToken → RefreshToken),
        (∀ t, found = some t → t ∈ db.tokens) → (∀ t, (change t).amr = t.amr) →
        row ∈ rowsOf (updating found fun t => [.token (change t)]) → row.amr = [] := by
      intro found change there same written
      cases found with
      | none => cases written
      | some t =>
        rw [mem_singleton.mp written, same]
        exact silent t (there t rfl)
    cases q with
    | insertToken new =>
      simp only [Stmt.writes] at member
      split at member
      · rw [mem_singleton.mp member]
        exact lawful
      · cases member
    | markUsed id =>
      refine updated (db.active id)
        (fun t => { t with state := .used, usedAt := some db.clock }) (fun t found => ?_)
        (fun t => rfl) member
      exact Table.mem_of_find (Option.filter_eq_some_iff.mp found).1
    | matching scope => cases member
    | revokeRow scope id reason =>
      refine updated (db.matched scope id)
        (fun t => { t with state := .revoked, revokedReason := some reason }) (fun t found => ?_)
        (fun t => rfl) member
      exact Table.mem_of_find (Option.filter_eq_some_iff.mp found).1
    | _ => cases quiet

/-- **One call.** -/
theorem Database.Silent.run {α : Type} (silent : db.Silent) {p : Tx α} (lawful : Lawful env p) :
    (p.run db).2.Silent := by
  induction p generalizing db with
  | done a => exact silent
  | fail e => exact silent
  | call q rest ih => exact ih _ (silent.stmt lawful.1) (lawful.2 _)

theorem Database.Silent.inTx {α : Type} (silent : db.Silent) {p : Tx α} (lawful : Lawful env p) :
    (p.inTx db).Silent := by
  have ran := silent.run lawful
  rcases inTx_cases p db with same | ⟨a, succeeds⟩
  · rwa [same]
  · rwa [succeeds] at ran

theorem Database.Silent.afterCalls (silent : db.Silent) (calls : List (ID × Call)) :
    (afterCalls env calls db).Silent := by
  induction calls generalizing db with
  | nil => exact silent
  | cons call calls ih => exact ih (silent.inTx (lawful_tx call.2))

end Rows

section Tokens

variable {env : Env} {mint : ID} {db after : Database} {device : Option String}

theorem sign_run {userId sessionId : ID} {roles amr : List String} {token : String}
    (ran : (signAccessToken env mint userId roles amr sessionId).run db = (.ok token, after)) :
    ∃ claims, env.sign claims = some token ∧ claims.amr = amr := by
  unfold signAccessToken at ran
  obtain ⟨now, between, -, signs⟩ := run_bind_ok.mp ran
  split at signs
  · rename_i signed
    cases signs
    exact ⟨_, signed, rfl⟩
  · cases signs

theorem issue_run {userId : ID} {roles amr : List String} {pair : TokenPair}
    (ran : (issue env mint userId roles amr device).run db = (.ok pair, after)) :
    ∃ claims, env.sign claims = some pair.accessToken ∧ claims.amr = amr := by
  unfold issue at ran
  obtain ⟨access, between, signs, rest⟩ := run_bind_ok.mp ran
  obtain ⟨refresh, _, -, ends⟩ := run_bind_ok.mp rest
  cases ends
  exact sign_run signs

theorem refresh_ok {presentedToken : ID} {pair : TokenPair} (silent : db.Silent)
    (ran : (refresh env mint presentedToken device).run db = (.ok pair, after)) :
    ∃ claims, env.sign claims = some pair.accessToken ∧ claims.amr = [] := by
  rw [refresh_run] at ran
  cases found : db.tokens.find? fun t => t.tokenHash = env.hash presentedToken with
  | none =>
    rw [found] at ran
    cases ran
  | some stored =>
    have wrote := silent stored (mem_of_find?_eq_some found)
    rw [found] at ran
    cases state : stored.state with
    | used =>
      simp only [rotate, state] at ran
      obtain ⟨_, _, -, fails⟩ := run_bind_ok.mp ran
      cases fails
    | revoked =>
      simp only [rotate, state] at ran
      cases ran
    | active =>
      simp only [rotate, state] at ran
      obtain ⟨now, _, -, live⟩ := run_bind_ok.mp ran
      split at live
      · cases live
      · obtain ⟨_, _, -, reads⟩ := run_bind_ok.mp live
        obtain ⟨user, _, -, renews⟩ := run_bind_ok.mp reads
        cases user with
        | none => cases renews
        | some user =>
          simp only [renew] at renews
          split at renews
          · obtain ⟨_, _, -, fails⟩ := run_bind_ok.mp renews
            cases fails
          · obtain ⟨access, _, signs, rest⟩ := run_bind_ok.mp renews
            obtain ⟨next, _, -, ends⟩ := run_bind_ok.mp rest
            cases ends
            rw [← wrote]
            exact sign_run signs

end Tokens

section Sessions

variable {env : Env} {accounts db : Database} {amr : List String} {pairs : List TokenPair}

theorem Chain.tokens (chain : Chain env accounts amr db pairs) : db.Silent ∧
    ∃ first later, pairs = first :: later ∧
      (∃ claims, env.sign claims = some first.accessToken ∧ claims.amr = amr) ∧
      ∀ pair ∈ later, ∃ claims, env.sign claims = some pair.accessToken ∧ claims.amr = [] := by
  induction chain with
  | @issue calls mint userId roles device pair after ran =>
    have fresh : ({ accounts with tokens := [] } : Database).Silent := fun t member => by
      cases member
    refine ⟨?_, pair, [], rfl, issue_run ran, by simp⟩
    have before : (afterCalls env calls { accounts with tokens := [] }).Silent :=
      fresh.afterCalls calls
    have lawful : Lawful env (Identity.issue env mint userId roles amr device) := lawful_issue ..
    have silent := before.run lawful
    rwa [ran] at silent
  | @refresh db front pair next mint device after chain ran ih =>
    obtain ⟨silent, first, later, same, opened, renewed⟩ := ih
    have lawful : Lawful env (Identity.refresh env mint pair.refreshToken device) :=
      lawful_refresh ..
    have kept := silent.run lawful
    rw [ran] at kept
    refine ⟨kept, first, later ++ [next], ?_, opened, fun other member => ?_⟩
    · rw [← cons_append, ← same, append_assoc]
      rfl
    · rcases mem_append.mp member with old | last
      · exact renewed other old
      · rw [mem_singleton.mp last]
        exact refresh_ok silent ran
  | other chain ih =>
    obtain ⟨silent, rest⟩ := ih
    exact ⟨silent.inTx (lawful_tx _), rest⟩

/-- **How a user has authenticated** survives until the first refresh, and longer only
where there is nothing to survive. -/
theorem survives_iff {read : String → Option Principal} (reads : Reads env read)
    (chain : Chain env accounts amr db pairs) :
    Survives read amr pairs ↔ amr = [] ∨ pairs.length = 1 := by
  obtain ⟨-, first, later, rfl, ⟨claims, signed, named⟩, renewed⟩ := chain.tokens
  have opened : read first.accessToken = some claims.principal := reads claims _ signed
  have after : ∀ pair ∈ later, ∃ p, read pair.accessToken = some p ∧ p.amr = [] := by
    intro pair member
    obtain ⟨other, signs, none⟩ := renewed pair member
    exact ⟨other.principal, reads other _ signs, none⟩
  constructor
  · intro survives
    cases later with
    | nil => exact .inr rfl
    | cons second later =>
      obtain ⟨p, said, kept⟩ := survives.1 second (by simp)
      obtain ⟨q, also, none⟩ := after second mem_cons_self
      cases said.symm.trans also
      exact .inl (kept.symm.trans none)
  · intro nothing
    have all : ∀ pair ∈ first :: later, ∃ p, read pair.accessToken = some p ∧ p.amr = amr := by
      intro pair member
      rcases mem_cons.mp member with rfl | refreshed
      · exact ⟨claims.principal, opened, named⟩
      · rcases nothing with rfl | single
        · exact after pair refreshed
        · obtain rfl : later = [] := length_eq_zero_iff.mp (Nat.succ.inj single)
          cases refreshed
    refine ⟨all, fun one first other second p q said also roles => ?_⟩
    obtain ⟨p', said', named'⟩ := all one first
    obtain ⟨q', also', named''⟩ := all other second
    cases said.symm.trans said'
    cases also.symm.trans also'
    exact Principal.isAdmin_congr roles (named'.trans named''.symm)

end Sessions

/-- What an administrator's first token says, and what the next one does. -/
def adminPrincipal (amr : List String) (tokenId : ID) : Principal := ⟨7, ["ADMIN"], amr, 1, tokenId⟩

/-- Two tokens are ever signed. -/
def adminEnv : Env :=
  { sampleEnv with
    sign := fun claims =>
      if claims.principal = adminPrincipal ["pwd", "mfa"] 1 then some "first"
      else if claims.principal = adminPrincipal [] 2 then some "second"
      else none }

def adminRead (token : String) : Option Principal :=
  if token = "first" then some (adminPrincipal ["pwd", "mfa"] 1)
  else if token = "second" then some (adminPrincipal [] 2)
  else none

theorem admin_reads : Reads adminEnv adminRead := by
  intro claims token signed
  simp only [adminEnv] at signed
  split at signed
  · rename_i same
    cases signed
    rw [same]
    rfl
  · split at signed
    · rename_i same
      cases signed
      rw [same]
      rfl
    · cases signed

theorem admin_chain : ∃ db,
    Chain adminEnv { users := [{ id := 7, roles := ["ADMIN"] }] } ["pwd", "mfa"]
    db [⟨"first", 1, 900, 7, ["ADMIN"]⟩, ⟨"second", 2, 900, 7, ["ADMIN"]⟩] := by
  have opened : Chain adminEnv { users := [{ id := 7, roles := ["ADMIN"] }] } ["pwd", "mfa"]
      ((issue adminEnv 1 7 ["ADMIN"] ["pwd", "mfa"] none).run
        (afterCalls adminEnv [] { users := [{ id := 7, roles := ["ADMIN"] }] })).2
      [⟨"first", 1, 900, 7, ["ADMIN"]⟩] :=
    @Chain.issue _ _ _ [] 1 7 ["ADMIN"] none _ _ (Prod.ext (by decide) rfl)
  exact ⟨_, @Chain.refresh _ _ _ _ [] _ _ 2 none _ opened (Prod.ext (by decide) rfl)⟩

/-- An administrator who has used a second factor is no administrator after a refresh. -/
theorem admin_lost : ∃ db pairs,
    Chain adminEnv { users := [{ id := 7, roles := ["ADMIN"] }] } ["pwd", "mfa"] db pairs ∧
      ¬ Survives adminRead ["pwd", "mfa"] pairs ∧
      pairs.map (fun pair => (adminRead pair.accessToken).map Principal.isAdmin) =
        [some true, some false] := by
  obtain ⟨db, chain⟩ := admin_chain
  refine ⟨db, _, chain, fun survives => ?_, by decide⟩
  obtain ⟨p, said, named⟩ := survives.1 _ (mem_cons_of_mem _ mem_cons_self)
  cases said
  cases named

theorem admin_survives_iff : ∃ db pairs,
    Chain adminEnv { users := [{ id := 7, roles := ["ADMIN"] }] } ["pwd", "mfa"] db pairs ∧
      (Survives adminRead ["pwd", "mfa"] pairs ↔
        (["pwd", "mfa"] : List String) = [] ∨ pairs.length = 1) := by
  obtain ⟨db, chain⟩ := admin_chain
  exact ⟨db, _, chain, survives_iff admin_reads chain⟩

end Souq.Identity
