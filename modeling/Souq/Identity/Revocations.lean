import Souq.Identity.Exchanges

/-!
# Revocations are final

A revocation updates the rows of its snapshot. A token that is committed between the
snapshot and the end of the revocation stays active, and so does one that a refresh
inserts which has read its token before. In runs without either, a session that was
revoked never has an active token again.
-/

namespace Souq.Identity

open Transact Transition List Service

theorem ended_replay_mono (writes : List Write) (db : Database) {sessionId : ID}
    (ended : sessionId ∈ db.ended) : sessionId ∈ (dialect.replay writes db).ended := by
  induction writes generalizing db with
  | nil => exact ended
  | cons w writes ih =>
    rw [Dialect.replay_cons]
    refine ih _ ?_
    cases w with
    | scanned scope => exact mem_append_left _ ended
    | _ => exact ended

/-- The sessions that a finished revocation is about have ended with its commit. -/
theorem Note.ended {strict : Prop} {k : ID × Stage} {db : Database} {writes : List Write}
    {held : List Key} (note : Note strict k db writes held)
    (keys : (db.tokens.map RefreshToken.id).Nodup) (final : k.2.Final) {scope : Scope}
    (scans : scope ∈ scansOf writes) {t : RefreshToken}
    (member : t ∈ (dialect.replay writes db).tokens) (names : scope.names t = true) :
    t.sessionId ∈ (dialect.replay writes db).ended := by
  obtain ⟨n, stage⟩ := k
  obtain ⟨-, -, stage'⟩ := note
  cases stage with
  | marked | missed | doomed => exact final.elim
  | idle => simp [stage'.2] at scans
  | found stored => simp [stage'.2.1] at scans
  | renewed | orphan | opened => simp [stage'.1] at scans
  | scanning other todo =>
    obtain ⟨⟨before, after, rfl, none, first, last⟩, rows, -⟩ := stage'
    have only : scansOf (before ++ .scanned other :: after) = [other] := by
      rw [scansOf_append, first]
      exact congrArg (other :: ·) last
    rw [only] at scans
    cases mem_singleton.mp scans
    rw [ended_replay_scanned none first last]
    refine mem_append_right _ ?_
    -- the row was there before, in the same session
    have old : ∃ u, db.token t.id = some u ∧ Continues u t := by
      have found := Table.find_of_mem (nodup_replay keys _) member
      rcases token_replay (before ++ .scanned scope :: after) db t.id with
        ⟨same, -⟩ | ⟨row, written, named, there⟩
      · exact ⟨t, same.symm.trans found, .refl t⟩
      · cases there.symm.trans found
        exact (rows t written).2.2
    obtain ⟨u, found, same⟩ := old
    refine mem_map.mpr ⟨u, mem_filter.mpr ⟨Table.mem_of_find found, ?_⟩, same.sessionId.symm⟩
    rwa [← names_congr scope same.sessionId same.userId]

section Runs

variable {ι : Type} [DecidableEq ι] [Fintype ι] {env : Env} {accounts : Database}
  {ok : Service ι → Turn ι → Prop} {s : Service ι}

theorem ended_step (turn : Turn ι) {sessionId : ID} (ended : sessionId ∈ s.tx.db.ended) :
    sessionId ∈ (s.step env turn).tx.db.ended := by
  have turns := turns_step env s turn
  generalize s.step env turn = after at turns
  cases turns with
  | commit active finished => exact ended_replay_mono _ _ ended
  | _ => exact ended

theorem ended_leads {later : Service ι}
    (leads : ((serving ι env accounts).restrict ok).Leads s later) {sessionId : ID}
    (ended : sessionId ∈ s.tx.db.ended) : sessionId ∈ later.tx.db.ended := by
  induction leads with
  | refl => exact ended
  | tail _ taken ih =>
    obtain ⟨turn, -, rfl⟩ := taken
    exact ended_step turn ih

/-- A turn that lets every revocation see every token of the sessions it is about. -/
def Service.Watched (s : Service ι) (turn : Turn ι) : Prop :=
  s.orphans turn = false ∧ ¬ s.Outruns turn

instance (s : Service ι) (turn : Turn ι) : Decidable (s.Watched turn) :=
  inferInstanceAs (Decidable (_ ∧ _))

/-- **Revocation is final.** In runs in which no refresh commits that has marked no
token, and no active token is committed that a revocation in progress has missed: once
a revocation has committed, no session that it is about has an active token, then and
in every later state. -/
theorem revocation_is_final (env : Env) (accounts : Database) (s later : Service ι) (i : ι)
    (session : Session dialect Failure Unit) (scope : Scope)
    (reached : ((serving ι env accounts).restrict Service.Watched).Reachable s)
    (active : s.tx.sessions i = some session) (finished : session.program = .done ())
    (revokes : scope ∈ scansOf session.writes) (watched : s.Watched (.run i))
    (leads : ((serving ι env accounts).restrict Service.Watched).Leads (s.step env (.run i))
    later) :
    ∀ t ∈ (s.step env (.run i)).tx.db.tokens, scope.names t = true →
      ∀ u ∈ later.tx.db.tokens, u.sessionId = t.sessionId → u.state ≠ .active := by
  intro t member names u there same
  have orderly : ∀ (s : Service ι) turn, s.Watched turn → s.orderly True turn :=
    fun _ _ watched => ⟨watched.1, fun _ => watched.2⟩
  have tidy := tidy_reachable orderly reached
  have commits : (s.step env (.run i)).tx.db = session.view s.tx.db := by
    simp only [step, Config.advance, active, finished]
  have ended : t.sessionId ∈ (s.step env (.run i)).tx.db.ended := by
    obtain ⟨k, note, final⟩ := tidy.kept.finished active finished
    rw [commits] at member ⊢
    exact note.ended tidy.kept.inv.keys final revokes member names
  have rotating := (tidy_reachable orderly ((reached.step ⟨watched, rfl⟩).leads leads)).kept.inv
  refine rotating.final trivial u.id u (Table.find_of_mem rotating.keys there) ?_
  rw [same]
  exact ended_leads leads ended

end Runs

/-- A logout while a refresh of the session has read its token: the refresh marks no
row and dies. -/
def logout : List (Turn Bool) :=
  signIn ++ ([.start true (.refresh 0 none), .run true, .start false (.revokeSession 0 "LOGOUT"),
    .run false, .run false] : List (Turn Bool))

/-- The state in which the logout is about to commit. -/
def loggingOut : Service Bool := logout.foldl (step sampleEnv) (.idle account)

/-- The refresh goes on, and dies at its end. -/
def loggedOut : Service Bool :=
  (List.replicate 6 (Turn.run true) ++ [Turn.abort true]).foldl (step sampleEnv)
    (loggingOut.step sampleEnv (.run false))

theorem loggedOut_leads : ((serving Bool sampleEnv account).restrict Service.Watched).Leads
    (loggingOut.step sampleEnv (.run false)) loggedOut :=
  System.Leads.foldl_restrict (by decide)

/-- The session has an active token before the logout commits, and never again. -/
theorem logged_out_for_good :
    (loggingOut.tx.db.token 0).map RefreshToken.state = some .active ∧
      ∀ t ∈ (loggingOut.step sampleEnv (.run false)).tx.db.tokens,
        (Scope.session 0).names t = true →
        ∀ u ∈ loggedOut.tx.db.tokens, u.sessionId = t.sessionId → u.state ≠ .active := by
  refine ⟨by decide, ?_⟩
  exact revocation_is_final sampleEnv account loggingOut loggedOut false
    ((loggingOut.tx.sessions false).get rfl) (.session 0)
    (System.Reachable.foldl_restrict (by decide)) (Option.some_get _).symm rfl (by decide)
    (by decide) loggedOut_leads

/-- A refresh has inserted the successor when a logout takes its snapshot; the refresh
commits first. -/
def outrun : List (Turn Bool) :=
  signIn ++ .start true (.refresh 0 none) :: (List.replicate 7 (.run true) : List (Turn Bool)) ++
    ([.start false (.revokeSession 0 "LOGOUT"), .run false, .run true, .run false] :
      List (Turn Bool))

/-- After the logout the session has an active token. -/
theorem logout_is_outrun :
    ¬ ∀ (s : Service Bool) (i : Bool) (session : Session dialect Failure Unit) (scope : Scope),
      (serving Bool sampleEnv account).Reachable s → s.tx.sessions i = some session →
      session.program = .done () → scope ∈ scansOf session.writes →
      ∀ t ∈ (s.step sampleEnv (.run i)).tx.db.tokens, scope.names t = true → t.state ≠ .active := by
  intro always
  have holds := always (outrun.foldl (step sampleEnv) (.idle account)) false
    (((outrun.foldl (step sampleEnv) (.idle account)).tx.sessions false).get rfl)
    (.session 0) (System.Reachable.foldl outrun) (Option.some_get _).symm rfl (by decide)
  revert holds
  decide

end Souq.Identity
