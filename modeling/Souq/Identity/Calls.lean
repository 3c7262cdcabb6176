import Souq.Identity.Families

/-!
# The calls, stage by stage

Every transaction of the identity service ends in a stage in which it can be
committed. The statements that are not about tokens leave the stage as it is.
-/

namespace Souq.Identity

open Transact List Stmt Option Sound Table

section Statements

variable {strict : Prop} {n : ID} {db : Database} {writes : List Write} {held : List Key}

theorem matched_none {scope : Scope} {id : ID} {t : RefreshToken}
    (gone : (dialect.replay writes db).matched scope id = none) (found : db.token id = some t)
    (live : t.state = .active) (names : scope.names t = true) :
    ∃ row ∈ rowsOf writes, row.id = id := by
  rcases token_replay writes db id with ⟨same, -⟩ | ⟨r, member, named, -⟩
  · have matching : scope.matches t = true := by
      cases scope <;> simp [Scope.matches, names, live]
    rw [Database.matched, same, found, filter_some, if_pos matching] at gone
    cases gone
  · exact ⟨r, member, named⟩

theorem Note.revokeRow {scope : Scope} {id : ID} {ids : List ID} (reason : String)
    (note : Note strict (n, .scanning scope (id :: ids)) db writes held) :
    Note strict (n, .scanning scope ids) db
      (writes ++ (revokeRow scope id reason).writes (dialect.replay writes db))
      (held ++ (revokeRow scope id reason).keys (dialect.replay writes db)) := by
  obtain ⟨own, fresh, ⟨before, after, split, none, first, last⟩, rows, covered⟩ := note
  refine ⟨mem_append_left _ own, fresh, ?_⟩
  cases found : (dialect.replay writes db).matched scope id with
  | none =>
    have nothing : (Stmt.revokeRow scope id reason).writes (dialect.replay writes db) = [] := by
      simp only [Stmt.writes, found, updating, Option.elim_none]
    rw [nothing, append_nil]
    refine ⟨⟨before, after, split, none, first, last⟩, fun row member => ?_, ?_⟩
    · obtain ⟨retired, locked, rest⟩ := rows row member
      exact ⟨retired, mem_append_left _ locked, rest⟩
    · intro strictly other t there live names
      rcases covered strictly other t there live names with todo | written
      · rcases mem_cons.mp todo with rfl | later
        · exact .inr (matched_none found there live names)
        · exact .inl later
      · exact .inr written
  | some t =>
    set row : RefreshToken := { t with state := .revoked, revokedReason := some reason } with rowIs
    have wrote : (Stmt.revokeRow scope id reason).writes (dialect.replay writes db) =
        [.token row] := by
      simp only [Stmt.writes, found, updating, Option.elim_some, rowIs]
    have locks : (Stmt.revokeRow scope id reason).keys (dialect.replay writes db) =
        [.token id] := by
      simp only [Stmt.keys, found, locking, elim_some]
    have seen : (dialect.replay writes db).token id = some t :=
      (filter_eq_some_iff.mp found).1
    have named : t.id = id := key_of_find seen
    -- the row that is revoked continues the committed one
    have continues : ∃ t', db.token id = some t' ∧ Continues t' row := by
      rcases token_replay writes db id with ⟨same, -⟩ | ⟨r, member, rfl, there⟩
      · exact ⟨t, same ▸ seen, rfl, rfl, rfl⟩
      · cases seen.symm.trans there
        obtain ⟨-, -, t', old, same⟩ := rows t member
        exact ⟨t', old, same.sessionId, same.userId, same.parentId⟩
    rw [wrote, locks]
    refine ⟨⟨before, after ++ [.token row], by simp [split], none, first, ?_⟩, ?_, ?_⟩
    · simpa [scansOf, Write.scope] using last
    · intro other member
      rw [rowsOf_append] at member
      rcases mem_append.mp member with old | new
      · obtain ⟨retired, locked, rest⟩ := rows other old
        exact ⟨retired, mem_append_left _ locked, rest⟩
      · obtain rfl : other = row := by simpa [rowsOf, Write.row] using new
        refine ⟨by simp [rowIs], ?_, ?_⟩
        · change Key.token t.id ∈ _
          simp [named]
        · change ∃ t', db.token t.id = some t' ∧ _
          rwa [named]
    · intro strictly other u there live names
      rw [rowsOf_append]
      rcases covered strictly other u there live names with todo | ⟨r, member, same⟩
      · rcases mem_cons.mp todo with rfl | later
        · exact .inr ⟨row, by simp [rowsOf, Write.row], named⟩
        · exact .inl later
      · exact .inr ⟨r, mem_append_left _ member, same⟩

theorem Note.matching (scope : Scope) {stage : Stage}
    (note : Note strict (n, stage) db writes held) (rows : rowsOf writes = [])
    (scans : scansOf writes = []) :
    Note strict (n, .scanning scope ((matching scope).answer (dialect.replay writes db))) db
      (writes ++ (matching scope).writes (dialect.replay writes db))
      (held ++ (matching scope).keys (dialect.replay writes db)) := by
  refine ⟨mem_append_left _ note.own, note.fresh, ⟨writes, [], rfl, rows, scans, rfl⟩, ?_, ?_⟩
  · intro row member
    have none : rowsOf (writes ++ (Stmt.matching scope).writes (dialect.replay writes db)) =
        [] := by
      rw [rowsOf_append, rows]
      rfl
    rw [none] at member
    cases member
  · intro _ id t found live names
    refine .inl ?_
    have matching : scope.matches t = true := by
      cases scope <;> simp [Scope.matches, names, live]
    have member : t ∈ (dialect.replay writes db).tokens := by
      rw [tokens_replay_of_nil rows]
      exact mem_of_find found
    exact mem_map.mpr ⟨t, mem_filter.mpr ⟨member, matching⟩, key_of_find found⟩

theorem known_of_find (inv : Rotating strict db) (rows : rowsOf writes = [])
    {p : RefreshToken → Bool} {stored : RefreshToken}
    (found : (dialect.replay writes db).tokens.find? p = some stored) :
    Known db stored := by
  rw [tokens_replay_of_nil rows] at found
  exact ⟨stored, find_of_mem inv.keys (mem_of_find?_eq_some found), rfl, rfl⟩

theorem Note.markUsed {stored : RefreshToken}
    (note : Note strict (n, .found stored) db writes held) :
    ∃ stage, (stage = .marked stored ∨ stage = .missed stored) ∧ Note strict (n, stage) db
        (writes ++ (markUsed stored.id).writes (dialect.replay writes db))
        (held ++ (markUsed stored.id).keys (dialect.replay writes db)) := by
  obtain ⟨own, fresh, rows, scans, known⟩ := note
  have same : (dialect.replay writes db).token stored.id = db.token stored.id := by
    rw [Database.token, tokens_replay_of_nil rows]
    rfl
  cases found : (dialect.replay writes db).active stored.id with
  | none =>
    have nothing : (Stmt.markUsed stored.id).writes (dialect.replay writes db) = [] := by
      simp only [Stmt.writes, found, updating, Option.elim_none]
    refine ⟨.missed stored, .inr rfl, mem_append_left _ own, fresh, ?_⟩
    rw [nothing, append_nil]
    exact ⟨rows, scans, known⟩
  | some t =>
    obtain ⟨seen, active⟩ := filter_eq_some_iff.mp found
    set row : RefreshToken :=
      { t with state := .used, usedAt := some (dialect.replay writes db).clock } with rowIs
    have wrote : (Stmt.markUsed stored.id).writes (dialect.replay writes db) = [.token row] := by
      simp only [Stmt.writes, found, updating, Option.elim_some, rowIs]
    have locks : (Stmt.markUsed stored.id).keys (dialect.replay writes db) =
        [.token stored.id] := by
      simp only [Stmt.keys, found, locking, elim_some]
    rw [same] at seen
    obtain ⟨u, there, session, user⟩ := known
    cases seen.symm.trans there
    have named : t.id = stored.id := key_of_find seen
    refine ⟨.marked stored, .inl rfl, mem_append_left _ own, fresh, ?_, row, ?_, t, seen,
      session, user, by simpa using active, ?_, named, by simp [rowIs], rfl, rfl, rfl⟩
    · rw [wrote, scansOf_append, scans]
      rfl
    · rw [wrote, rowsOf_append, rows]
      rfl
    · simp [locks]

theorem insertToken_writes (row : RefreshToken) (view : Database) :
    ((insertToken row).answer view = true ∧ (insertToken row).writes view = [.token row]) ∨
      (insertToken row).answer view = false ∧ (insertToken row).writes view = [] := by
  simp only [answer, writes]
  cases view.admits row with
  | true => exact .inl ⟨rfl, rfl⟩
  | false => exact .inr ⟨rfl, rfl⟩

end Statements

section Calls

variable {strict : Prop} {n : ID} {env : Env}

def Committable {α : Type} (n : ID) (r : Except Failure α) (k : ID × Stage) : Prop :=
  ∀ a, r = .ok a → k.1 = n ∧ k.2.Final

variable {α : Type} {p : Tx α} {stage : Stage} {stored : RefreshToken} {device : Option String}

theorem Committable.void {k : ID × Stage} (safe : Safe strict p k (Committable n)) :
    Safe strict p.void k (Committable n) :=
  bind safe (fun _ _ final _ _ => final _ rfl) fun _ _ _ _ failed => by cases failed

variable (userId : ID) (cmd : LoginCommand) (scope : Scope) (ip : Option ID) (code reason : String)

theorem safe_revokeRows (ids : List ID) :
    Safe strict (revokeRows scope reason ids) (n, .scanning scope ids)
      fun _ k => k = (n, .scanning scope []) := by
  induction ids with
  | nil => rfl
  | cons id ids ih =>
    have later : ∀ first, Safe strict
        (revokeRows scope reason ids >>= fun rest => (pure (first + rest) : Tx Nat))
        (n, .scanning scope ids) fun _ k => k = (n, .scanning scope []) :=
      fun _ => bind ih (fun _ _ same => same) fun _ _ same => same
    exact ⟨fun db writes held _ note =>
      ⟨(n, .scanning scope ids), note.revokeRow reason, later _⟩, fun _ skips => by cases skips⟩

theorem safe_revoke
    (clean : ∀ db writes held, Note strict (n, stage) db writes held → rowsOf writes = [] ∧ scansOf
      writes = []) :
    Safe strict (revoke scope reason) (n, stage) fun _ k => k = (n, .scanning scope []) := by
  refine ⟨fun db writes held _ note => ?_, fun _ skips => by cases skips⟩
  obtain ⟨rows, scans⟩ := clean db writes held note
  exact ⟨_, note.matching scope rows scans, safe_revokeRows scope reason _⟩

theorem clean_idle (db : Database) (writes : List Write) (held : List Key)
    (note : Note strict (n, .idle) db writes held) :
    rowsOf writes = [] ∧ scansOf writes = [] := note.stage

theorem clean_found (db : Database) (writes : List Write) (held : List Key)
    (note : Note strict (n, .found stored) db writes held) :
    rowsOf writes = [] ∧ scansOf writes = [] := ⟨note.stage.1, note.stage.2.1⟩

theorem safe_revokeVoid
    (clean : ∀ db writes held, Note strict (n, stage) db writes held → rowsOf writes = [] ∧ scansOf
      writes = []) :
    Safe strict (revoke scope reason).void (n, stage) (Committable n) := by
  refine bind (safe_revoke scope reason clean) (fun _ k same => ?_) fun _ _ _ _ failed => ?_
  · subst same
    exact fun _ _ => ⟨rfl, rfl⟩
  · cases failed

theorem safe_revoke_fail (e : Failure) (stage : Stage) :
    Safe strict (revoke scope reason >>= fun _ => (.fail e : Tx α)) (n, stage) (Committable n) := by
  refine ⟨fun db writes held _ note => ⟨(n, .doomed), ?_, ?_⟩, fun _ skips => by cases skips⟩
  · exact ⟨mem_append_left _ note.own, note.fresh, trivial⟩
  · refine bind (safe_doomed _) (fun _ _ _ _ failed => ?_) fun _ _ _ _ failed => ?_
    · cases failed
    · cases failed

theorem calm_ite {c : Prop} {_ : Decidable c} {q : Tx α} (first : Calm p) (second : Calm q) :
    Calm (if c then p else q) := by
  by_cases holds : c
  · rwa [if_pos holds]
  · rwa [if_neg holds]

theorem safe_ite {c : Prop} {_ : Decidable c} {q : Tx α} {k : ID × Stage}
    {post : Except Failure α → ID × Stage → Prop} (first : Safe strict p k post)
    (second : Safe strict q k post) : Safe strict (if c then p else q) k post := by
  by_cases holds : c
  · rwa [if_pos holds]
  · rwa [if_neg holds]

theorem calm_statement {q : Stmt} {f : q.Answer → Tx α} (quiet : q.quiet = true)
    (later : ∀ answer, Calm (f answer)) : Calm (statement q >>= f) := ⟨quiet, later⟩

theorem calm_sign (roles amr : List String) (sessionId : ID) :
    Calm (signAccessToken env n userId roles amr sessionId) := by
  unfold signAccessToken
  refine calm_statement rfl fun now : Time => ?_
  cases env.sign ⟨userId, env.issuer, env.audience, now, now + accessTtl, n, roles, sessionId, amr,
    scopesFor roles⟩ with
  | none => trivial
  | some token => trivial

theorem safe_mint (stage stage' : Stage) {userId sessionId : ID} {parentId : Option ID}
    (inserts : ∀ db writes held now keys, Note strict (n, stage) db writes held → Note strict (n,
      stage') db (writes ++ [.token (newToken env n userId sessionId parentId device now)]) (held ++
      keys)) :
    Safe strict (mintRefreshToken env n userId sessionId parentId device) (n, stage)
      fun r k => ∀ a, r = .ok a → k = (n, stage') := by
  have ends : ∀ (inserted : Bool) (k : ID × Stage), (inserted = true → k = (n, stage')) →
      Safe strict (if inserted then pure n else .fail .dataIntegrityViolation : Tx ID) k
        fun r k => ∀ a, r = .ok a → k = (n, stage') := by
    intro inserted k final
    cases inserted with
    | true => exact fun _ _ => final rfl
    | false =>
      intro a failed
      cases failed
  refine safe_quiet rfl fun seen => ⟨fun db writes held _ note => ?_, fun _ skips => by cases skips⟩
  set row := newToken env n userId sessionId parentId device seen.clock with rowIs
  rcases insertToken_writes row (dialect.replay writes db) with
    ⟨inserted, wrote⟩ | ⟨refused, nothing⟩
  · have next := inserts db writes held seen.clock
      ((insertToken row).keys (dialect.replay writes db)) note
    rw [← rowIs, ← wrote] at next
    exact ⟨(n, stage'), next, ends _ _ fun _ => rfl⟩
  · have next : Note strict (n, stage) db (writes ++ [])
        (held ++ (insertToken row).keys (dialect.replay writes db)) := note.extend rfl rfl _
    rw [← nothing] at next
    exact ⟨(n, stage), next, ends _ _ fun inserted => by cases refused.symm.trans inserted⟩

theorem safe_issue (roles amr : List String) (device : Option String) :
    Safe strict (issue env n userId roles amr device) (n, .idle) (Committable n) := by
  refine (calm_sign userId roles amr n).then (fun access => ?_) fun _ _ failed => by cases failed
  refine bind (safe_mint .idle .opened fun db writes held now keys note => ?_)
    (fun _ k opens => ?_) fun _ _ _ _ failed => by cases failed
  · obtain ⟨own, fresh, rows, scans⟩ := note
    refine ⟨mem_append_left _ own, fresh, ?_, newToken env n userId n none device now, ?_,
      rfl, rfl, rfl, rfl⟩
    · rw [scansOf_append, scans]
      rfl
    · rw [rowsOf_append, rows]
      rfl
  · cases opens _ rfl
    exact fun _ _ => ⟨rfl, trivial⟩

theorem safe_successor :
    Safe strict (mintRefreshToken env n stored.userId stored.sessionId (some stored.id) device)
      (n, .marked stored) fun r k => ∀ a, r = .ok a → k = (n, .renewed stored) := by
  refine safe_mint _ _ fun db writes held now keys note => ?_
  obtain ⟨own, fresh, scans, row, rows, marked⟩ := note
  refine ⟨mem_append_left _ own, fresh, ?_, row,
    newToken env n stored.userId stored.sessionId (some stored.id) device now, ?_, ?_,
    rfl, rfl, rfl, rfl, rfl⟩
  · rw [scansOf_append, scans]
    rfl
  · rw [rowsOf_append, rows]
    rfl
  · obtain ⟨t, found, session, user, live, locked, rest⟩ := marked
    exact ⟨t, found, session, user, live, mem_append_left _ locked, rest⟩

theorem safe_orphan :
    Safe strict (mintRefreshToken env n stored.userId stored.sessionId (some stored.id) device)
      (n, .missed stored) fun r k => ∀ a, r = .ok a → k = (n, .orphan) := by
  refine safe_mint _ _ fun db writes held now keys note => ?_
  obtain ⟨own, fresh, rows, scans, t, found, -⟩ := note
  refine ⟨mem_append_left _ own, fresh, ?_,
    newToken env n stored.userId stored.sessionId (some stored.id) device now, stored.id, ?_, rfl,
    fun same => ?_⟩
  · rw [scansOf_append, scans]
    rfl
  · rw [rowsOf_append, rows]
    rfl
  · have missing : db.token stored.id = none := same ▸ fresh.token
    rw [missing] at found
    cases found

theorem safe_renew {stage' : Stage}
    (successor : Safe strict (mintRefreshToken env n stored.userId stored.sessionId (some stored.id)
      device) (n, stage) fun r k => ∀ a, r = .ok a → k = (n, stage')) (final : stage'.Final)
    {user : Option UserSnapshot} (named : ∀ u, user = some u → u.id = stored.userId) :
    Safe strict (renew env n stored device user) (n, stage) (Committable n) := by
  cases user with
  | none =>
    intro a failed
    cases failed
  | some user =>
    cases enabled : user.enabled with
    | false =>
      simp only [renew, enabled, Bool.not_false, ↓reduceIte]
      exact safe_revoke_fail _ _ _ _
    | true =>
      simp only [renew, enabled, Bool.not_true, Bool.false_eq_true, ↓reduceIte, named user rfl]
      refine (calm_sign _ _ _ _).then (fun access => ?_) fun _ _ failed => by cases failed
      refine bind successor (fun _ k ends => ?_) fun _ _ _ _ failed => by cases failed
      cases ends _ rfl
      exact fun _ _ => ⟨rfl, final⟩

theorem safe_rotate (stored : RefreshToken) :
    Safe strict (rotate env n device (some stored)) (n, .found stored) (Committable n) := by
  cases state : stored.state with
  | used =>
    simp only [rotate, state]
    exact safe_revoke_fail _ _ _ _
  | revoked =>
    simp only [rotate, state]
    intro a failed
    cases failed
  | active =>
    simp only [rotate, state]
    refine safe_quiet rfl fun seen => ?_
    -- the rest after the marking, with the stage it leads to
    have renews : ∀ stage, (stage = .marked stored ∨ stage = .missed stored) →
        Safe strict (do renew env n stored device (← statement (.loadUserSnapshot stored.userId)))
          (n, stage) (Committable n) := by
      rintro stage marks
      refine safe_quiet rfl fun view => ?_
      have named : ∀ u, (loadUserSnapshot stored.userId).answer view = some u →
          u.id = stored.userId := by
        intro u found
        obtain ⟨row, there, rfl⟩ := map_eq_some_iff.mp found
        have same : row.id = stored.userId := key_of_find there
        exact same
      rcases marks with rfl | rfl
      · exact safe_renew safe_successor trivial named
      · exact safe_renew safe_orphan trivial named
    by_cases expired : stored.expiresAt < seen.clock
    · have ends : Safe strict (.fail (.invalidToken "refresh token has expired") : Tx TokenPair)
          (n, .found stored) (Committable n) := fun _ failed => by cases failed
      change Safe strict (if stored.expiresAt < seen.clock then _ else _) _ _
      rwa [if_pos expired]
    · have marks : Safe strict (do
          let _ ← statement (.markUsed stored.id)
          renew env n stored device (← statement (.loadUserSnapshot stored.userId)))
          (n, .found stored) (Committable n) := by
        refine ⟨fun db writes held _ note => ?_, fun _ skips => by cases skips⟩
        obtain ⟨stage, marked, next⟩ := note.markUsed
        exact ⟨(n, stage), next, renews stage marked⟩
      change Safe strict (if stored.expiresAt < seen.clock then _ else _) _ _
      rwa [if_neg expired]

theorem safe_find {hash : ID} {f : Option RefreshToken → Tx α}
    (none : Safe strict (f none) (n, .idle) (Committable n))
    (some : ∀ stored, Safe strict (f (some stored)) (n, .found stored) (Committable n)) :
    Safe strict (do f (← statement (.findByTokenHash hash))) (n, .idle) (Committable n) := by
  refine ⟨fun db writes held inv note => ?_, fun _ skips => by cases skips⟩
  have next := note.extend (quiet_writes (q := .findByTokenHash hash) rfl _).1
    (quiet_writes (q := .findByTokenHash hash) rfl (dialect.replay writes db)).2
    ((findByTokenHash hash).keys (dialect.replay writes db))
  cases found : (findByTokenHash hash).answer (dialect.replay writes db) with
  | none =>
    refine ⟨(n, .idle), next, ?_⟩
    change Safe strict (f ((findByTokenHash hash).answer (dialect.replay writes db))) _ _
    rwa [found]
  | some stored =>
    refine ⟨(n, .found stored), ⟨next.own, next.fresh, next.stage.1, next.stage.2, ?_⟩, ?_⟩
    · exact known_of_find inv note.stage.1 found
    · change Safe strict (f ((findByTokenHash hash).answer (dialect.replay writes db))) _ _
      rw [found]
      exact some stored

theorem safe_refresh (presentedToken : ID) (device : Option String) :
    Safe strict (refresh env n presentedToken device) (n, .idle) (Committable n) :=
  safe_find (fun _ failed => by cases failed) safe_rotate

theorem safe_revokeByToken (presentedToken : ID) (reason : String) :
    Safe strict (revokeByToken env presentedToken reason) (n, .idle) (Committable n) :=
  safe_find (fun _ _ => ⟨rfl, trivial⟩) fun _ => safe_revokeVoid _ _ clean_found

theorem Calm.idle (calm : Calm p) :
    Safe strict p (n, .idle) (Committable n) :=
  mono calm.safe fun _ _ same _ _ => by
    subst same
    exact ⟨rfl, trivial⟩

theorem calm_currentHash : Calm (currentHash userId) := by
  refine ⟨rfl, fun answer => ?_⟩
  cases answer <;> trivial

theorem calm_applyNewPassword (newPassword existingHash : String) :
    Calm (applyNewPassword env userId newPassword existingHash) := by
  unfold applyNewPassword
  refine calm_statement rfl fun previous => ?_
  cases env.validatePassword newPassword previous with
  | some reason => trivial
  | none =>
    cases env.verifyPassword newPassword existingHash with
    | true => trivial
    | false => exact ⟨rfl, fun _ => trivial⟩

theorem safe_applyNewPassword (newPassword existingHash : String) (scope : Scope)
    (reason : String) :
    Safe strict (do
      applyNewPassword env userId newPassword existingHash
      (revoke scope reason).void) (n, .idle) (Committable n) :=
  (calm_applyNewPassword userId newPassword existingHash).then
    (fun _ => safe_revokeVoid _ _ clean_idle) fun _ _ failed => by cases failed

theorem safe_changePassword (currentSessionId : ID) (currentPassword newPassword : String) :
    Safe strict (changePassword env userId currentSessionId currentPassword newPassword) (n, .idle)
      (Committable n) := by
  refine (calm_currentHash userId).then (fun existingHash => ?_) fun _ _ failed => by cases failed
  cases env.verifyPassword currentPassword existingHash with
  | true => exact safe_applyNewPassword _ _ _ _ _
  | false =>
    intro a failed
    cases failed

theorem safe_completePasswordReset (token : ID) (newPassword : String) :
    Safe strict (completePasswordReset env token newPassword) (n, .idle) (Committable n) := by
  refine safe_quiet rfl fun view => ?_
  cases (claimReset (env.hash token)).answer view with
  | none =>
    intro a failed
    cases failed
  | some userId =>
    exact (calm_currentHash userId).then (fun existingHash => safe_applyNewPassword _ _ _ _ _)
      fun _ _ failed => by cases failed

theorem calm_begin : Calm (begin n userId) := by
  refine ⟨rfl, fun enrolled => ?_⟩
  rcases enrolled with _ | _ | _
  · trivial
  · exact ⟨rfl, fun _ => trivial⟩
  · trivial

theorem calm_insertCodes (codes : List String) :
    Calm (insertCodes env userId codes) := by
  induction codes with
  | nil => trivial
  | cons code codes ih =>
    refine ⟨rfl, fun inserted => ?_⟩
    cases inserted with
    | true => exact ih
    | false => trivial

theorem calm_issueRecoveryCodes : Calm (issueRecoveryCodes env n userId) :=
  ⟨rfl, fun _ => (calm_insertCodes userId _).bind fun _ => trivial⟩

theorem calm_confirm : Calm (confirm env n userId code) := by
  refine calm_statement rfl fun pending => ?_
  rcases pending with _ | ⟨secret, since⟩
  · trivial
  refine calm_statement rfl fun now => calm_ite ?_ ?_
  · exact calm_statement rfl fun _ => trivial
  refine calm_statement rfl fun verifiedAt => calm_ite trivial ?_
  refine calm_statement rfl fun admitted => calm_ite ?_ trivial
  exact calm_issueRecoveryCodes userId

theorem calm_consumeRecoveryCode :
    Calm (consumeRecoveryCode env userId code) := by
  refine calm_statement rfl fun spent => calm_ite ?_ trivial
  exact calm_statement rfl fun _ => trivial

theorem safe_removeMfa :
    Safe strict (removeMfa userId) (n, .idle) (Committable n) :=
  safe_quiet rfl fun _ => safe_quiet rfl fun _ => safe_revokeVoid _ _ clean_idle

theorem safe_disable :
    Safe strict (disable env userId code) (n, .idle) (Committable n) := by
  refine safe_quiet rfl fun view => ?_
  cases (mfaSecret userId).answer view with
  | none => exact fun _ _ => ⟨rfl, trivial⟩
  | some secret =>
    refine safe_quiet rfl fun seen => ?_
    change Safe strict (if secret.any fun secret => env.totp secret code seen.clock then _ else _)
      _ _
    cases secret.any fun secret => env.totp secret code seen.clock with
    | true => exact safe_removeMfa userId
    | false =>
      refine (calm_consumeRecoveryCode userId code).then (fun consumed => ?_)
        fun _ _ failed => by cases failed
      cases consumed with
      | true => exact safe_removeMfa userId
      | false =>
        intro a failed
        cases failed

theorem calm_lockoutRemaining (email : String) (ip : Option ID) :
    Calm (lockoutRemaining env email ip) :=
  calm_statement rfl fun _ => calm_statement rfl fun _ => calm_ite trivial trivial

theorem safe_reject (userId : Option ID) (reason : String) (failure : Failure) :
    Safe strict (reject env cmd ip userId reason failure : Tx α) (n, .idle) (Committable n) :=
  safe_quiet rfl fun _ _ failed => by cases failed

theorem safe_welcome (user : LoginRow) (amr : List String) :
    Safe strict (welcome env n cmd ip user amr) (n, .idle) (Committable n) := by
  have issues : Safe strict (do
      let pair ← issue env n user.id user.roles amr cmd.deviceFingerprint
      return ⟨pair, user.id, user.roles⟩ : Tx AuthResult) (n, .idle) (Committable n) :=
    bind (safe_issue _ _ _ _) (fun _ _ final _ _ => final _ rfl)
      fun _ _ _ _ failed => by cases failed
  have opens : Safe strict (do
      recordAttempt env cmd ip (some user.id) true none
      let pair ← issue env n user.id user.roles amr cmd.deviceFingerprint
      return ⟨pair, user.id, user.roles⟩ : Tx AuthResult) (n, .idle) (Committable n) :=
    safe_quiet rfl fun _ => issues
  cases rehashes : env.needsRehash user.passwordHash with
  | false =>
    simp only [welcome, rehashes]
    exact opens
  | true =>
    simp only [welcome, rehashes]
    exact safe_quiet rfl fun _ => opens

theorem safe_checkMfa (user : LoginRow) :
    Safe strict (checkMfa env n cmd ip user) (n, .idle) (Committable n) := by
  unfold checkMfa
  refine safe_ite (safe_welcome _ _ _ _) ?_
  cases cmd.mfaCode.filter fun code => !isBlank code with
  | none => exact safe_reject _ _ _ _ _
  | some code =>
    refine Calm.then (p := statement .now) ⟨rfl, fun _ => trivial⟩ (fun now => ?_)
      fun _ _ failed => by cases failed
    exact safe_ite (safe_welcome _ _ _ _) (safe_reject _ _ _ _ _)

theorem safe_login :
    Safe strict (login env n cmd) (n, .idle) (Committable n) := by
  unfold login
  cases cmd.address env with
  | none => exact fun _ failed => by cases failed
  | some ip =>
    refine (calm_lockoutRemaining _ _).then (fun lockout => ?_) fun _ _ failed => by cases failed
    refine safe_ite (safe_reject _ _ _ _ _) (safe_quiet rfl fun view => ?_)
    cases (loadForLogin (env.lower cmd.email)).answer view with
    | none => exact safe_reject _ _ _ _ _
    | some user =>
      exact safe_ite (safe_reject _ _ _ _ _)
        (safe_ite (safe_reject _ _ _ _ _) (safe_checkMfa _ _ _))

theorem calm_clearRows (userIds : List ID) : Calm (clearRows userIds) := by
  induction userIds with
  | nil => trivial
  | cons userId userIds ih => exact ⟨rfl, fun _ => ih.bind fun _ => trivial⟩

/-- **Every call can be committed when it returns.** -/
theorem safe_tx (call : Call) : Safe strict (call.tx env n) (n, .idle) (Committable n) := by
  cases call with
  | login cmd => exact Committable.void (safe_login cmd)
  | issue userId roles amr device => exact Committable.void (safe_issue userId roles amr device)
  | refresh presentedToken device => exact Committable.void (safe_refresh presentedToken device)
  | revokeByToken presentedToken reason => exact safe_revokeByToken presentedToken reason
  | revokeSession | revokeAllForUser => exact safe_revokeVoid _ _ clean_idle
  | changePassword userId currentSessionId currentPassword newPassword =>
    exact safe_changePassword userId currentSessionId currentPassword newPassword
  | completePasswordReset token newPassword => exact safe_completePasswordReset token newPassword
  | begin userId => exact Committable.void ((calm_begin userId).idle)
  | confirm userId code => exact Committable.void ((calm_confirm userId code).idle)
  | disable userId code => exact safe_disable userId code
  | clearExpiredPending =>
    have calm : Calm clearExpiredPending := ⟨rfl, fun userIds => calm_clearRows userIds⟩
    exact Committable.void calm.idle
  | setEnabled userId enabled =>
    have calm : Calm (setEnabled userId enabled) := ⟨rfl, fun _ => trivial⟩
    exact Committable.void calm.idle

end Calls

end Souq.Identity
