import Souq.Identity.Service

/-!
# Token families under concurrency

What a transaction of the identity service does to `refresh_tokens` is decided by
how far it has come: it has marked a token it found active, it has inserted the
successor, it has opened a session, or it is going through the rows of a revocation.
Two things go wrong in between. `markUsed` may find its token no longer active, and
nobody looks; and a revocation does not see the tokens that are committed after its
snapshot.
-/

namespace Souq.Identity

open Transact Transition List

def Write.row : Write → Option RefreshToken
  | .token row => some row
  | _ => none

def Write.scope : Write → Option Scope
  | .scanned scope => some scope
  | _ => none

def rowsOf (writes : List Write) : List RefreshToken := writes.filterMap Write.row

/-- The snapshots of revocations among some writes. -/
def scansOf (writes : List Write) : List Scope := writes.filterMap Write.scope

@[simp] theorem rowsOf_append (first second : List Write) :
    rowsOf (first ++ second) = rowsOf first ++ rowsOf second := filterMap_append

@[simp] theorem scansOf_append (first second : List Write) :
    scansOf (first ++ second) = scansOf first ++ scansOf second := filterMap_append

theorem ended_put {w : Write} (other : w.scope = none) (db : Database) :
    (w.put db).ended = db.ended := by
  cases w with
  | scanned scope => cases other
  | _ => rfl

theorem tokens_replay (writes : List Write) (db : Database) :
    (dialect.replay writes db).tokens =
      (rowsOf writes).foldl (fun rows row => Table.upsert RefreshToken.id row rows) db.tokens :=
  Dialect.replay_filterMap (D := dialect) Database.tokens Write.row _
    (fun w _ => by cases w <;> rfl) writes db

theorem tokens_replay_of_nil {writes : List Write} (none : rowsOf writes = []) (db : Database) :
    (dialect.replay writes db).tokens = db.tokens := by
  rw [tokens_replay, none]
  rfl

theorem ended_replay_of_nil {writes : List Write} (none : scansOf writes = []) (db : Database) :
    (dialect.replay writes db).ended = db.ended := by
  induction writes generalizing db with
  | nil => rfl
  | cons w writes ih =>
    cases kind : w.scope with
    | none =>
      have tail : scansOf (w :: writes) = scansOf writes := filterMap_cons_none kind
      rw [Dialect.replay_cons, ih (tail ▸ none)]
      exact ended_put kind db
    | some scope =>
      have tail : scansOf (w :: writes) = scope :: scansOf writes :=
        filterMap_cons_some kind
      rw [tail] at none
      cases none

def Database.sessionsOf (db : Database) (p : RefreshToken → Bool) : List ID :=
  (db.tokens.filter p).map RefreshToken.sessionId

theorem ended_replay_scanned {before after : List Write} {scope : Scope}
    (rows : rowsOf before = []) (first : scansOf before = []) (last : scansOf after = [])
    (db : Database) : (dialect.replay (before ++ .scanned scope :: after) db).ended =
      db.ended ++ db.sessionsOf scope.names := by
  rw [Dialect.replay_append, Dialect.replay_cons, ended_replay_of_nil last]
  change (dialect.replay before db).ended ++
    (((dialect.replay before db).tokens.filter scope.names).map RefreshToken.sessionId) = _
  rw [ended_replay_of_nil first, tokens_replay_of_nil rows]
  rfl

theorem token_replay (writes : List Write) (db : Database) (id : ID) :
    ((dialect.replay writes db).token id = db.token id ∧ ∀ r ∈ rowsOf writes, r.id ≠ id) ∨
      ∃ r ∈ rowsOf writes, r.id = id ∧ (dialect.replay writes db).token id = some r := by
  unfold Database.token
  rw [tokens_replay]
  exact Table.find_foldl_upsert _ _ _

theorem nodup_replay {db : Database} (distinct : (db.tokens.map RefreshToken.id).Nodup)
    (writes : List Write) : ((dialect.replay writes db).tokens.map RefreshToken.id).Nodup := by
  rw [tokens_replay]
  exact Table.nodup_foldl_upsert distinct _

/-- Another version of a row: the session, the user and the predecessor stay. -/
structure Continues (t t' : RefreshToken) : Prop where
  sessionId : t'.sessionId = t.sessionId
  userId : t'.userId = t.userId
  parentId : t'.parentId = t.parentId

theorem Continues.refl (t : RefreshToken) : Continues t t := ⟨rfl, rfl, rfl⟩

theorem Continues.trans {t u v : RefreshToken} (one : Continues t u) (two : Continues u v) :
    Continues t v := by
  constructor
  · exact two.sessionId.trans one.sessionId
  · exact two.userId.trans one.userId
  · exact two.parentId.trans one.parentId

/-- A random number names no token and no session yet. -/
structure Fresh (n : ID) (db : Database) : Prop where
  token : db.token n = none
  session : ∀ id t, db.token id = some t → t.sessionId ≠ n

/-- What holds of the committed tokens: a session has one active token, a token has
one successor and is not active then, and a session has one user. Under a stricter
reading, the sessions that revocations were about have no active token. -/
structure Rotating (strict : Prop) (db : Database) : Prop where
  keys : (db.tokens.map RefreshToken.id).Nodup
  parents : ∀ id t p, db.token id = some t → t.parentId = some p →
    ∃ up, db.token p = some up ∧ up.state ≠ .active
  once : ∀ a b t u p, db.token a = some t → db.token b = some u → t.parentId = some p →
    u.parentId = some p → a = b
  one : ∀ a b t u, db.token a = some t → db.token b = some u → t.sessionId = u.sessionId →
    t.state = .active → u.state = .active → a = b
  owner : ∀ a b t u, db.token a = some t → db.token b = some u → t.sessionId = u.sessionId →
    t.userId = u.userId
  known : ∀ sessionId ∈ db.ended, ∃ id t, db.token id = some t ∧ t.sessionId = sessionId
  final : strict → ∀ id t, db.token id = some t → t.sessionId ∈ db.ended → t.state ≠ .active

/-- A token of a call that marked or revoked it. -/
def Retires (held : List Key) (db db' : Database) (id : ID) : Prop :=
  ∃ t t', db.token id = some t ∧ db'.token id = some t' ∧ .token id ∈ held ∧
    t'.state ≠ .active ∧ Continues t t'

/-- A new token: it opens a session, or it replaces an active one. -/
def Appears (n : ID) (db db' : Database) (new : RefreshToken) : Prop :=
  db'.token n = some new ∧ new.state = .active ∧ ((new.parentId = none ∧ new.sessionId = n) ∨
      ∃ p t t', new.parentId = some p ∧ db.token p = some t ∧ t.state = .active ∧
        new.sessionId = t.sessionId ∧ new.userId = t.userId ∧
        db'.token p = some t' ∧ t'.state ≠ .active)

/-- **What a commit does to the tokens.** -/
structure Commits (n : ID) (held : List Key) (db db' : Database) : Prop where
  fresh : Fresh n db
  rows : ∀ id, db'.token id = db.token id ∨ Retires held db db' id ∨
    id = n ∧ ∃ new, Appears n db db' new

section Commits

variable {n : ID} {held : List Key} {db db' : Database}

variable {id : ID} {t : RefreshToken}

theorem Commits.before (commits : Commits n held db db') {t' : RefreshToken}
    (found : db'.token id = some t') :
    (∃ t, db.token id = some t ∧ Continues t t' ∧ (t'.state = .active → t' = t)) ∨
      id = n ∧ Appears n db db' t' := by
  rcases commits.rows id with same | ⟨t, t'', old, new, -, retired, continues⟩ | ⟨rfl, new, appears⟩
  · exact .inl ⟨t', same ▸ found, .refl t', fun _ => rfl⟩
  · cases found.symm.trans new
    exact .inl ⟨t, old, continues, fun active => (retired active).elim⟩
  · cases found.symm.trans appears.1
    exact .inr ⟨rfl, appears⟩

theorem Commits.after (commits : Commits n held db db') (found : db.token id = some t) :
    ∃ t', db'.token id = some t' ∧ Continues t t' ∧
      (t'.state = .active → t.state = .active) ∧ (.token id ∉ held → t' = t) := by
  rcases commits.rows id with same | ⟨u, t', old, new, locked, retired, continues⟩ | ⟨rfl, -⟩
  · exact ⟨t, same.trans found, .refl t, fun active => active, fun _ => rfl⟩
  · cases found.symm.trans old
    exact ⟨t', new, continues, fun active => (retired active).elim, fun free => (free locked).elim⟩
  · rw [commits.fresh.token] at found
    cases found

theorem Commits.session (commits : Commits n held db db') {new : RefreshToken}
    (appears : Appears n db db' new) (found : db.token id = some t)
    (same : new.sessionId = t.sessionId) : ∃ p u u', new.parentId = some p ∧
      db.token p = some u ∧ u.state = .active ∧ new.sessionId = u.sessionId ∧
      new.userId = u.userId ∧ db'.token p = some u' ∧ u'.state ≠ .active := by
  rcases appears.2.2 with ⟨-, own⟩ | renewed
  · exact (commits.fresh.session id t found (same ▸ own)).elim
  · exact renewed

/-- What a commit adds to the sessions that revocations were about. -/
inductive Ends (strict : Prop) (db db' : Database) : Prop where
  | none (same : db'.ended = db.ended)
  | scanned (scope : Scope) (more : db'.ended = db.ended ++ db.sessionsOf scope.names)
      (old : ∀ id t', db'.token id = some t' → ∃ t, db.token id = some t ∧ Continues t t')
      (silenced : strict → ∀ id t', db'.token id = some t' → scope.names t' = true →
        t'.state ≠ .active)

theorem names_congr {u : RefreshToken} (scope : Scope) (session : t.sessionId = u.sessionId)
    (user : t.userId = u.userId) : scope.names t = scope.names u := by
  cases scope <;> simp only [Scope.names, session, user]

theorem mem_sessionsOf {p : RefreshToken → Bool} {sessionId : ID}
    (keys : (db.tokens.map RefreshToken.id).Nodup) (member : sessionId ∈ db.sessionsOf p) :
    ∃ id t, db.token id = some t ∧ p t = true ∧ t.sessionId = sessionId := by
  obtain ⟨t, filtered, rfl⟩ := mem_map.mp member
  obtain ⟨inside, holds⟩ := mem_filter.mp filtered
  exact ⟨t.id, t, Table.find_of_mem keys inside, holds, rfl⟩

variable {strict : Prop}

theorem Rotating.commit_once (rotating : Rotating strict db) (commits : Commits n held db db')
    (a b : ID) (t u : RefreshToken) (p : ID) (first : db'.token a = some t)
    (second : db'.token b = some u) (parent : t.parentId = some p)
    (parent' : u.parentId = some p) : a = b := by
  -- the predecessor of a new token was active, so it had no successor
  have apart : ∀ id old new, db.token id = some old → old.parentId = some p →
      Appears n db db' new → new.parentId = some p → False := by
    intro id old new found named appears again
    obtain ⟨up, there, retired⟩ := rotating.parents id old p found named
    rcases appears.2.2 with ⟨none, -⟩ | ⟨q, v, -, from', at', live, -⟩
    · rw [none] at again
      cases again
    · cases again.symm.trans from'
      cases there.symm.trans at'
      exact retired live
  rcases commits.before first with ⟨old, found, same, -⟩ | ⟨rfl, new⟩
  · rcases commits.before second with ⟨old', found', same', -⟩ | ⟨rfl, new⟩
    · exact rotating.once a b old old' p found found' (same.parentId ▸ parent)
        (same'.parentId ▸ parent')
    · exact (apart a old u found (same.parentId ▸ parent) new parent').elim
  · rcases commits.before second with ⟨old', found', same', -⟩ | ⟨rfl, -⟩
    · exact (apart b old' t found' (same'.parentId ▸ parent') new parent).elim
    · rfl

theorem Rotating.commit_one (rotating : Rotating strict db) (commits : Commits n held db db')
    (a b : ID) (t u : RefreshToken) (first : db'.token a = some t) (second : db'.token b = some u)
    (session : t.sessionId = u.sessionId) (live : t.state = .active) (live' : u.state = .active) :
    a = b := by
  -- the active token of the session is the one that the new token replaces
  have apart : ∀ id old new, db.token id = some old → db'.token id = some old →
      old.state = .active → Appears n db db' new → new.sessionId = old.sessionId → False := by
    intro id old new found still active appears same
    obtain ⟨p, v, v', -, there, live, session, -, after, retired⟩ :=
      commits.session appears found same
    cases rotating.one p id v old there found (session.symm.trans same) live active
    cases still.symm.trans after
    exact retired active
  rcases commits.before first with ⟨old, found, same, kept⟩ | ⟨rfl, new⟩
  · cases kept live
    rcases commits.before second with ⟨old', found', same', kept'⟩ | ⟨rfl, new⟩
    · cases kept' live'
      exact rotating.one a b t u found found' session live live'
    · exact (apart a t u found first live new session.symm).elim
  · rcases commits.before second with ⟨old', found', same', kept'⟩ | ⟨rfl, -⟩
    · cases kept' live'
      exact (apart b u t found' second live' new session).elim
    · rfl

theorem Rotating.commit_owner (rotating : Rotating strict db) (commits : Commits n held db db')
    (a b : ID) (t u : RefreshToken) (first : db'.token a = some t) (second : db'.token b = some u)
    (session : t.sessionId = u.sessionId) : t.userId = u.userId := by
  have joins : ∀ id old new, db.token id = some old → Appears n db db' new →
      new.sessionId = old.sessionId → new.userId = old.userId := by
    intro id old new found appears same
    obtain ⟨p, v, -, -, there, -, session, user, -⟩ := commits.session appears found same
    exact user.trans (rotating.owner p id v old there found (session.symm.trans same))
  rcases commits.before first with ⟨old, found, same, -⟩ | ⟨rfl, new⟩
  · rcases commits.before second with ⟨old', found', same', -⟩ | ⟨rfl, new⟩
    · rw [same.userId, same'.userId]
      exact rotating.owner a b old old' found found'
        (same.sessionId.symm.trans (session.trans same'.sessionId))
    · rw [same.userId]
      exact (joins a old u found new (session.symm.trans same.sessionId)).symm
  · rcases commits.before second with ⟨old', found', same', -⟩ | ⟨rfl, -⟩
    · rw [same'.userId]
      exact joins b old' t found' new (session.trans same'.sessionId)
    · cases first.symm.trans second
      rfl

/-- A session that a revocation was about keeps no active token. -/
theorem Rotating.commit_final (rotating : Rotating strict db) (commits : Commits n held db db')
    (strictly : strict) (id : ID) (t : RefreshToken) (found : db'.token id = some t)
    (ended : t.sessionId ∈ db.ended) : t.state ≠ .active := by
  intro live
  rcases commits.before found with ⟨old, there, -, kept⟩ | ⟨rfl, appears⟩
  · cases kept live
    exact rotating.final strictly id t there ended live
  · obtain ⟨other, u, there, same⟩ := rotating.known t.sessionId ended
    obtain ⟨p, v, -, -, there', active, session, -⟩ := commits.session appears there same.symm
    exact rotating.final strictly p v there' (session ▸ ended) active

/-- **A commit keeps the families in order.** -/
theorem Rotating.commit (rotating : Rotating strict db) (commits : Commits n held db db')
    (keys : (db'.tokens.map RefreshToken.id).Nodup) (ends : Ends strict db db') :
    Rotating strict db' where
  keys := keys
  parents := by
    intro id t p found parent
    have still : ∀ up, db.token p = some up → up.state ≠ .active →
        ∃ up', db'.token p = some up' ∧ up'.state ≠ .active := by
      intro up there retired
      obtain ⟨up', there', -, back, -⟩ := commits.after there
      exact ⟨up', there', fun active => retired (back active)⟩
    rcases commits.before found with ⟨old, there, same, -⟩ | ⟨rfl, appears⟩
    · obtain ⟨up, above, retired⟩ := rotating.parents id old p there (same.parentId ▸ parent)
      exact still up above retired
    · rcases appears.2.2 with ⟨none, -⟩ | ⟨q, v, v', from', -, -, -, -, after, retired⟩
      · rw [none] at parent
        cases parent
      · cases parent.symm.trans from'
        exact ⟨v', after, retired⟩
  once := rotating.commit_once commits
  one := rotating.commit_one commits
  owner := rotating.commit_owner commits
  known := by
    have still : ∀ sessionId, (∃ id t, db.token id = some t ∧ t.sessionId = sessionId) →
        ∃ id t, db'.token id = some t ∧ t.sessionId = sessionId := by
      rintro sessionId ⟨id, t, found, rfl⟩
      obtain ⟨t', found', same, -⟩ := commits.after found
      exact ⟨id, t', found', same.sessionId⟩
    intro sessionId member
    cases ends with
    | none same => exact still sessionId (rotating.known sessionId (same ▸ member))
    | scanned scope more old silenced =>
      rw [more] at member
      rcases mem_append.mp member with before | named
      · exact still sessionId (rotating.known sessionId before)
      · obtain ⟨id, t, found, -, same⟩ := mem_sessionsOf rotating.keys named
        exact still sessionId ⟨id, t, found, same⟩
  final := by
    intro strictly id t found member
    cases ends with
    | none same => exact rotating.commit_final commits strictly id t found (same ▸ member)
    | scanned scope more old silenced =>
      rw [more] at member
      rcases mem_append.mp member with before | named
      · exact rotating.commit_final commits strictly id t found before
      · obtain ⟨other, u, there, names, same⟩ := mem_sessionsOf rotating.keys named
        obtain ⟨v, before, continues⟩ := old id t found
        have session : t.sessionId = v.sessionId := continues.sessionId
        have user : t.userId = u.userId := continues.userId.trans
          (rotating.owner id other v u before there (session.symm.trans same.symm))
        exact silenced strictly id t found ((names_congr scope same.symm user).trans names)

end Commits

/-- How far a refresh has come. -/
inductive Stage where
  /-- No token was written. -/
  | idle
  /-- A token was read. -/
  | found (stored : RefreshToken)
  /-- The token was marked. -/
  | marked (stored : RefreshToken)
  /-- The token was no longer active and not marked. -/
  | missed (stored : RefreshToken)
  /-- The successor was inserted. -/
  | renewed (stored : RefreshToken)
  /-- The successor of a token that was not marked was inserted. -/
  | orphan
  /-- A session was opened. -/
  | opened
  /-- A revocation goes through rows. -/
  | scanning (scope : Scope) (todo : List ID)
  /-- An exception is on its way. -/
  | doomed

/-- The row of a token that a call has read. -/
def Known (db : Database) (stored : RefreshToken) : Prop :=
  ∃ t, db.token stored.id = some t ∧ t.sessionId = stored.sessionId ∧ t.userId = stored.userId

def Marked (db : Database) (stored : RefreshToken) (held : List Key) (row : RefreshToken) : Prop :=
  ∃ t, db.token stored.id = some t ∧ t.sessionId = stored.sessionId ∧
    t.userId = stored.userId ∧ t.state = .active ∧ .token stored.id ∈ held ∧
    row.id = stored.id ∧ row.state ≠ .active ∧ Continues t row

/-- The rows written so far, and what is known of the rest. -/
def Stage.Holds (strict : Prop) (n : ID) (db : Database) (writes : List Write)
    (held : List Key) : Stage → Prop
  | .idle => rowsOf writes = [] ∧ scansOf writes = []
  | .found stored => rowsOf writes = [] ∧ scansOf writes = [] ∧ Known db stored
  | .missed stored => rowsOf writes = [] ∧ scansOf writes = [] ∧ Known db stored
  | .marked stored => scansOf writes = [] ∧
      ∃ row, rowsOf writes = [row] ∧ Marked db stored held row
  | .renewed stored => scansOf writes = [] ∧
      ∃ row new, rowsOf writes = [row, new] ∧ Marked db stored held row ∧ new.id = n ∧
        new.state = .active ∧ new.parentId = some stored.id ∧
        new.sessionId = stored.sessionId ∧ new.userId = stored.userId
  | .orphan => scansOf writes = [] ∧
      ∃ new p, rowsOf writes = [new] ∧ new.parentId = some p ∧ new.id ≠ p
  | .opened => scansOf writes = [] ∧
      ∃ new, rowsOf writes = [new] ∧ new.id = n ∧ new.state = .active ∧ new.parentId = none ∧
        new.sessionId = n
  | .scanning scope todo =>
    (∃ before after, writes = before ++ .scanned scope :: after ∧ rowsOf before = [] ∧
      scansOf before = [] ∧ scansOf after = []) ∧
    (∀ row ∈ rowsOf writes, row.state ≠ .active ∧ .token row.id ∈ held ∧
      ∃ t, db.token row.id = some t ∧ Continues t row) ∧
    (strict → ∀ id t, db.token id = some t → t.state = .active → scope.names t = true →
      id ∈ todo ∨ ∃ row ∈ rowsOf writes, row.id = id)
  | .doomed => True

/-- What is noted of a transaction: the number it has drawn and how far it has come. -/
structure Note (strict : Prop) (k : ID × Stage) (db : Database) (writes : List Write)
    (held : List Key) : Prop where
  own : .mint k.1 ∈ held
  fresh : Fresh k.1 db
  stage : k.2.Holds strict k.1 db writes held

def Stage.Final : Stage → Prop
  | .marked _ | .missed _ | .doomed => False
  | .scanning _ todo => todo = []
  | _ => True

/-- A transaction inserts the successor of a token that it has not marked. -/
def orphaned (writes : List Write) : Bool :=
  (rowsOf writes).any fun new => new.parentId.any fun p => (rowsOf writes).all fun r => r.id ≠ p

section Stages

variable {strict : Prop} {n : ID} {db : Database} {writes : List Write} {held : List Key}

theorem commits_of_nil (fresh : Fresh n db) (none : rowsOf writes = []) :
    Commits n held db (dialect.replay writes db) := by
  refine ⟨fresh, fun id => .inl ?_⟩
  rw [Database.token, tokens_replay_of_nil none]
  rfl

theorem commits_renewed (fresh : Fresh n db) {stored row new : RefreshToken}
    (rows : rowsOf writes = [row, new]) (marked : Marked db stored held row) (id : new.id = n)
    (active : new.state = .active) (parent : new.parentId = some stored.id)
    (session : new.sessionId = stored.sessionId) (user : new.userId = stored.userId) :
    Commits n held db (dialect.replay writes db) := by
  obtain ⟨t, found, session', user', live, locked, rowId, retired, continues⟩ := marked
  have apart : stored.id ≠ n := by
    intro same
    rw [same, fresh.token] at found
    cases found
  have after : (dialect.replay writes db).token stored.id = some row := by
    rcases token_replay writes db stored.id with ⟨-, others⟩ | ⟨r, member, named, there⟩
    · exact (others row (by simp [rows]) rowId).elim
    · rw [rows] at member
      rcases mem_cons.mp member with rfl | last
      · exact there
      · rw [mem_singleton.mp last] at named
        exact (apart (named.symm.trans id)).elim
  have appears : Appears n db (dialect.replay writes db) new := by
    refine ⟨?_, active, .inr ⟨stored.id, t, row, parent, found, live, ?_, ?_, after, retired⟩⟩
    · rcases token_replay writes db n with ⟨-, others⟩ | ⟨r, member, named, there⟩
      · exact (others new (by simp [rows]) id).elim
      · rw [rows] at member
        rcases mem_cons.mp member with rfl | last
        · exact (apart (rowId.symm.trans named)).elim
        · rwa [mem_singleton.mp last] at there
    · exact session.trans session'.symm
    · exact user.trans user'.symm
  refine ⟨fresh, fun other => ?_⟩
  rcases token_replay writes db other with ⟨same, -⟩ | ⟨r, member, named, there⟩
  · exact .inl same
  · rw [rows] at member
    rcases mem_cons.mp member with rfl | last
    · rw [rowId] at named
      subst named
      exact .inr (.inl ⟨t, r, found, there, locked, retired, continues⟩)
    · rw [mem_singleton.mp last, id] at named
      exact .inr (.inr ⟨named.symm, new, appears⟩)

theorem commits_opened (fresh : Fresh n db) {new : RefreshToken} (rows : rowsOf writes = [new])
    (id : new.id = n) (active : new.state = .active) (parent : new.parentId = none)
    (session : new.sessionId = n) : Commits n held db (dialect.replay writes db) := by
  refine ⟨fresh, fun other => ?_⟩
  rcases token_replay writes db other with ⟨same, -⟩ | ⟨r, member, named, there⟩
  · exact .inl same
  · rw [rows] at member
    cases mem_singleton.mp member
    rw [id] at named
    subst named
    exact .inr (.inr ⟨rfl, new, there, active, .inl ⟨parent, session⟩⟩)

theorem commits_scanning (fresh : Fresh n db)
    (rows : ∀ row ∈ rowsOf writes, row.state ≠ .active ∧ .token row.id ∈ held ∧
      ∃ t, db.token row.id = some t ∧ Continues t row) :
    Commits n held db (dialect.replay writes db) := by
  refine ⟨fresh, fun other => ?_⟩
  rcases token_replay writes db other with ⟨same, -⟩ | ⟨r, member, named, there⟩
  · exact .inl same
  · obtain ⟨retired, locked, t, found, continues⟩ := rows r member
    subst named
    exact .inr (.inl ⟨t, r, found, there, locked, retired, continues⟩)

theorem ends_scanning {scope : Scope}
    (snapshot : ∃ before after, writes = before ++ .scanned scope :: after ∧ rowsOf before = [] ∧
      scansOf before = [] ∧ scansOf after = [])
    (rows : ∀ row ∈ rowsOf writes, row.state ≠ .active ∧ .token row.id ∈ held ∧
      ∃ t, db.token row.id = some t ∧ Continues t row)
    (covered : strict → ∀ id t, db.token id = some t → t.state = .active →
      scope.names t = true → id ∈ [] ∨ ∃ row ∈ rowsOf writes, row.id = id) :
    Ends strict db (dialect.replay writes db) := by
  refine .scanned scope ?_ (fun id t' found => ?_) fun strictly id t' found names live => ?_
  · obtain ⟨before, after, rfl, none, first, last⟩ := snapshot
    exact ended_replay_scanned none first last db
  · rcases token_replay writes db id with ⟨same, -⟩ | ⟨r, member, rfl, there⟩
    · exact ⟨t', same ▸ found, .refl t'⟩
    · cases found.symm.trans there
      exact (rows t' member).2.2
  · rcases token_replay writes db id with ⟨same, others⟩ | ⟨r, member, rfl, there⟩
    · rcases covered strictly id t' (same ▸ found) live names with none | ⟨r, member, named⟩
      · cases none
      · exact others r member named
    · cases found.symm.trans there
      exact (rows t' member).1 live

variable {k : ID × Stage}

/-- **What a transaction commits.** -/
theorem Note.commits (note : Note strict k db writes held) (final : k.2.Final)
    (marked : orphaned writes = false) : Commits k.1 held db (dialect.replay writes db) ∧
      Ends strict db (dialect.replay writes db) := by
  obtain ⟨n, stage⟩ := k
  obtain ⟨-, fresh, stage'⟩ := note
  cases stage with
  | idle => exact ⟨commits_of_nil fresh stage'.1, .none (ended_replay_of_nil stage'.2 db)⟩
  | found stored => exact ⟨commits_of_nil fresh stage'.1, .none (ended_replay_of_nil stage'.2.1 db)⟩
  | marked stored => exact final.elim
  | missed stored => exact final.elim
  | renewed stored =>
    obtain ⟨scans, row, new, rows, mark, id, active, parent, session, user⟩ := stage'
    exact ⟨commits_renewed fresh rows mark id active parent session user,
      .none (ended_replay_of_nil scans db)⟩
  | orphan =>
    obtain ⟨-, new, p, rows, parent, apart⟩ := stage'
    rw [orphaned, rows] at marked
    simp [parent, apart] at marked
  | opened =>
    obtain ⟨scans, new, rows, id, active, parent, session⟩ := stage'
    exact ⟨commits_opened fresh rows id active parent session, .none (ended_replay_of_nil scans db)⟩
  | scanning scope todo =>
    obtain ⟨snapshot, rows, covered⟩ := stage'
    cases final
    exact ⟨commits_scanning fresh rows, ends_scanning snapshot rows covered⟩
  | doomed => exact final.elim

/-- What a transaction has noted survives the commit of another, unless a revocation has
missed a new token. -/
theorem Note.stable (note : Note strict k db writes held) {held' : List Key} {db' : Database}
    (commits : Commits n held' db db') (own : .mint n ∈ held') (apart : ∀ key ∈ held, key ∉ held')
    (seen : strict → ∀ scope ∈ scansOf writes, ∀ new, Appears n db db' new → scope.names new =
      false) : Note strict k db' writes held := by
  obtain ⟨m, stage⟩ := k
  obtain ⟨mine, fresh, stage'⟩ := note
  have different : m ≠ n := fun same => apart _ mine (same ▸ own)
  have known : ∀ stored, Known db stored → Known db' stored := by
    rintro stored ⟨t, found, session, user⟩
    obtain ⟨t', found', same, -⟩ := commits.after found
    exact ⟨t', found', same.sessionId.trans session, same.userId.trans user⟩
  have mark : ∀ stored row, Marked db stored held row → Marked db' stored held row := by
    rintro stored row ⟨t, found, session, user, live, locked, rest⟩
    obtain ⟨t', found', -, -, kept⟩ := commits.after found
    cases kept (apart _ locked)
    exact ⟨t, found', session, user, live, locked, rest⟩
  refine ⟨mine, ⟨?_, fun id t found => ?_⟩, ?_⟩
  · rcases commits.rows m with same | ⟨t, t', found, -⟩ | ⟨same, -⟩
    · exact same.trans fresh.token
    · rw [fresh.token] at found
      cases found
    · exact (different same).elim
  · rcases commits.before found with ⟨old, there, same, -⟩ | ⟨rfl, appears⟩
    · rw [same.sessionId]
      exact fresh.session id old there
    · rcases appears.2.2 with ⟨-, session⟩ | ⟨p, u, -, -, there, -, session, -⟩
      · rw [session]
        exact different.symm
      · rw [session]
        exact fresh.session p u there
  · cases stage with
    | idle => exact stage'
    | found stored => exact ⟨stage'.1, stage'.2.1, known stored stage'.2.2⟩
    | missed stored => exact ⟨stage'.1, stage'.2.1, known stored stage'.2.2⟩
    | marked stored =>
      obtain ⟨scans, row, rows, marked⟩ := stage'
      exact ⟨scans, row, rows, mark stored row marked⟩
    | renewed stored =>
      obtain ⟨scans, row, new, rows, marked, rest⟩ := stage'
      exact ⟨scans, row, new, rows, mark stored row marked, rest⟩
    | orphan => exact stage'
    | opened => exact stage'
    | scanning scope todo =>
      obtain ⟨snapshot, rows, covered⟩ := stage'
      refine ⟨snapshot, fun row member => ?_, fun strictly id t found live names => ?_⟩
      · obtain ⟨retired, locked, t, found, continues⟩ := rows row member
        obtain ⟨t', found', -, -, kept⟩ := commits.after found
        cases kept (apart _ locked)
        exact ⟨retired, locked, t, found', continues⟩
      · rcases commits.before found with ⟨old, there, -, kept⟩ | ⟨rfl, appears⟩
        · cases kept live
          exact covered strictly id t there live names
        · obtain ⟨before, after, rfl, -⟩ := snapshot
          have unseen := seen strictly scope (by simp [scansOf, Write.scope]) t appears
          rw [names] at unseen
          cases unseen
    | doomed => trivial

theorem Note.tick (note : Note strict k db writes held) (clock : Time) :
    Note strict k { db with clock := clock } writes held := by
  obtain ⟨m, stage⟩ := k
  refine ⟨note.own, ⟨note.fresh.token, note.fresh.session⟩, ?_⟩
  have stage' := note.stage
  cases stage <;> exact stage'

theorem Note.extend (note : Note strict k db writes held) {more : List Write}
    (rows : rowsOf more = []) (scans : scansOf more = []) (keys : List Key) :
    Note strict k db (writes ++ more) (held ++ keys) := by
  have same : rowsOf (writes ++ more) = rowsOf writes := by rw [rowsOf_append, rows, append_nil]
  have same' : scansOf (writes ++ more) = scansOf writes := by
    rw [scansOf_append, scans, append_nil]
  have mark : ∀ stored row, Marked db stored held row → Marked db stored (held ++ keys) row := by
    rintro stored row ⟨t, found, session, user, live, locked, rest⟩
    exact ⟨t, found, session, user, live, mem_append_left _ locked, rest⟩
  obtain ⟨m, stage⟩ := k
  obtain ⟨own, fresh, stage'⟩ := note
  refine ⟨mem_append_left _ own, fresh, ?_⟩
  cases stage with
  | idle => exact ⟨same.trans stage'.1, same'.trans stage'.2⟩
  | found | missed => exact ⟨same.trans stage'.1, same'.trans stage'.2.1, stage'.2.2⟩
  | marked stored =>
    obtain ⟨none, row, written, marked⟩ := stage'
    exact ⟨same'.trans none, row, same.trans written, mark stored row marked⟩
  | renewed stored =>
    obtain ⟨none, row, new, written, marked, rest⟩ := stage'
    exact ⟨same'.trans none, row, new, same.trans written, mark stored row marked, rest⟩
  | orphan =>
    obtain ⟨none, new, p, written, rest⟩ := stage'
    exact ⟨same'.trans none, new, p, same.trans written, rest⟩
  | opened =>
    obtain ⟨none, new, written, rest⟩ := stage'
    exact ⟨same'.trans none, new, same.trans written, rest⟩
  | scanning scope todo =>
    obtain ⟨⟨before, after, rfl, none, first, last⟩, written, covered⟩ := stage'
    refine ⟨⟨before, after ++ more, by simp, none, first, ?_⟩, ?_, ?_⟩
    · rw [scansOf_append, last, scans, append_nil]
    · intro row member
      obtain ⟨retired, locked, rest⟩ := written row (same ▸ member)
      exact ⟨retired, mem_append_left _ locked, rest⟩
    · intro strictly id t found live names
      rw [same]
      exact covered strictly id t found live names
  | doomed => trivial

end Stages

def Stmt.quiet : Stmt → Bool
  | .insertToken _ | .markUsed _ | .matching _ | .revokeRow _ _ _ => false
  | _ => true

theorem Stmt.quiet_writes {q : Stmt} (quiet : q.quiet = true) (db : Database) :
    rowsOf (q.writes db) = [] ∧ scansOf (q.writes db) = [] := by
  have updating_nil : ∀ {ρ : Type} (found : Option ρ) (write : ρ → List Write),
      (∀ r, rowsOf (write r) = [] ∧ scansOf (write r) = []) →
        rowsOf (updating found write) = [] ∧ scansOf (updating found write) = [] := by
    intro ρ found write each
    cases found with
    | none => exact ⟨rfl, rfl⟩
    | some r => exact each r
  cases q with
  | insertToken | markUsed | matching | revokeRow => cases quiet
  | enableMfa userId proof =>
    refine updating_nil _ _ fun u => ?_
    split <;> exact ⟨rfl, rfl⟩
  | insertCode userId hash =>
    simp only [Stmt.writes]
    split <;> exact ⟨rfl, rfl⟩
  | replacePassword | claimReset | setEnabled | setPending | clearPending | disableMfa
  | spendCode | clearExpired | rehash => exact updating_nil _ _ fun _ => ⟨rfl, rfl⟩
  | _ => exact ⟨rfl, rfl⟩

/-- A program without statements about tokens. -/
abbrev Calm {α : Type} (p : Tx α) : Prop :=
  Program.Only (D := dialect) (fun q => Stmt.quiet q = true) p

/-- A program that leads from notes to notes, under the invariant of the tokens. -/
abbrev Safe {α : Type} (strict : Prop) (p : Tx α) (k : ID × Stage)
    (post : Except Failure α → ID × Stage → Prop) : Prop :=
  Sound (D := dialect) (Rotating strict) (Note strict) p k post

section Safe

variable {strict : Prop} {n : ID} {α β : Type} {k : ID × Stage}

theorem Calm.safe {p : Tx α} (calm : Calm p) : Safe strict p k fun _ k' => k' = k := by
  induction p with
  | done a => rfl
  | fail e => rfl
  | call q rest ih =>
    refine ⟨fun db writes held _ note => ⟨k, ?_, ih _ (calm.2 _)⟩, fun _ skips => by cases skips⟩
    obtain ⟨rows, scans⟩ := Stmt.quiet_writes calm.1 (dialect.replay writes db)
    exact note.extend rows scans _

theorem safe_quiet {q : Stmt} {rest : q.Answer → Tx α} {post : Except Failure α → ID × Stage → Prop}
    (quiet : q.quiet = true) (later : ∀ db, Safe strict (rest (q.answer db)) k post) :
    Safe strict (.call q rest) k post := by
  refine ⟨fun db writes held _ note => ⟨k, ?_, later _⟩, fun _ skips => by cases skips⟩
  obtain ⟨rows, scans⟩ := Stmt.quiet_writes quiet (dialect.replay writes db)
  exact note.extend rows scans _

theorem Calm.then {p : Tx α} (calm : Calm p) {f : α → Tx β}
    {post : Except Failure β → ID × Stage → Prop}
    (later : ∀ a, Safe strict (f a) k post) (fails : ∀ e, post (.error e) k) :
    Safe strict (p >>= f) k post := by
  refine Sound.bind calm.safe (fun a k' same => ?_) fun e k' same => ?_
  · subst same
    exact later a
  · subst same
    exact fails e

theorem safe_doomed (p : Tx α) : Safe strict p (n, .doomed) fun _ k' => k' = (n, .doomed) := by
  induction p with
  | done a => rfl
  | fail e => rfl
  | call q rest ih =>
    refine ⟨fun db writes held _ note => ⟨(n, .doomed), ?_, ih _⟩, fun _ skips => by cases skips⟩
    exact ⟨mem_append_left _ note.own, note.fresh, trivial⟩

end Safe

end Souq.Identity
