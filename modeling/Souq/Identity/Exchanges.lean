import Souq.Identity.Calls
import Souq.Identity.Reuse

/-!
# Exchanges and revocations over whole runs

The families of all sessions stay in order in every run in which no refresh commits
the successor of a token that it has not marked, and revocations are final where no
token is committed that a revocation in progress has missed.
-/

namespace Souq.Identity

open Transact Transition Database Service System.Reachable Table

variable {ι : Type} [DecidableEq ι]

/-- The turn commits a refresh whose `UPDATE` has marked no row: the token was not
active any more. -/
def Service.orphans (s : Service ι) : Turn ι → Bool
  | .run i =>
    match s.tx.sessions i with
    | some ⟨.done _, writes, _⟩ => orphaned writes
    | _ => false
  | _ => false

/-- A revocation in progress is about the token but has taken its snapshot before. -/
def Service.Missed (s : Service ι) (i : ι) (row : RefreshToken) : Prop :=
  ∃ j, j ≠ i ∧ ∃ scope ∈ (s.tx.sessions j).elim [] fun other => scansOf other.writes,
    scope.names row = true

instance [Fintype ι] (s : Service ι) (i : ι) (row : RefreshToken) : Decidable (s.Missed i row) :=
  inferInstanceAs (Decidable (∃ j, j ≠ i ∧ _))

/-- The turn commits an active token that a revocation in progress has missed. -/
def Service.Outruns (s : Service ι) : Turn ι → Prop
  | .run i =>
    match s.tx.sessions i with
    | some ⟨.done _, writes, _⟩ => ∃ row ∈ rowsOf writes, row.state = .active ∧ s.Missed i row
    | _ => False
  | _ => False

instance [Fintype ι] (s : Service ι) (turn : Turn ι) : Decidable (s.Outruns turn) :=
  match turn with
  | .run i =>
    match found : s.tx.sessions i with
    | some ⟨.done _, writes, _⟩ =>
      decidable_of_iff (∃ row ∈ rowsOf writes, row.state = .active ∧ s.Missed i row)
        (by simp only [Service.Outruns, found])
    | none => .isFalse (by simp only [Service.Outruns, found, not_false_eq_true])
    | some ⟨.fail _, _, _⟩ => .isFalse (by simp only [Service.Outruns, found, not_false_eq_true])
    | some ⟨.call _ _, _, _⟩ => .isFalse (by simp only [Service.Outruns, found, not_false_eq_true])
  | .start _ _ | .abort _ | .tick _ => .isFalse id

/-- The turns that keep the families in order, and revocations final. -/
def Service.orderly (strict : Prop) (s : Service ι) (turn : Turn ι) : Prop :=
  s.orphans turn = false ∧ (strict → ¬ s.Outruns turn)

/-- What holds throughout a run: the families are in order, every call is somewhere on
its way, and tokens and sessions are numbers that were drawn. -/
structure Tidy (strict : Prop) (s : Service ι) : Prop where
  kept : s.tx.Kept (Rotating strict) (Note strict) fun _ k => k.2.Final
  exclusive : Exclusive s
  tokens : ∀ id t, s.tx.db.token id = some t → id < s.drawn ∧ t.sessionId < s.drawn

section Steps

variable {strict : Prop} {env : Env} {s : Service ι}

theorem Tidy.start (tidy : Tidy strict s) (i : ι) (call : Call) :
    (s.tx.set i (some { program := call.tx env s.drawn, held := [.mint s.drawn] })).Kept
      (Rotating strict) (Note strict) fun _ k => k.2.Final := by
  have fresh : Fresh s.drawn s.tx.db := by
    refine ⟨?_, fun id t found same => ?_⟩
    · cases found : s.tx.db.token s.drawn with
      | none => rfl
      | some t => exact (Nat.lt_irrefl _ (tidy.tokens _ t found).1).elim
    · have bound := (tidy.tokens id t found).2
      rw [same] at bound
      exact Nat.lt_irrefl _ bound
  refine tidy.kept.set i _ ?_ ?_
  · rintro own ⟨⟩ j other - found key member
    rw [List.mem_singleton.mp member]
    exact tidy.exclusive.unheld found
  · rintro own ⟨⟩
    refine ⟨(s.drawn, .idle), ⟨List.mem_singleton_self _, fresh, rfl, rfl⟩, ?_⟩
    exact Sound.mono (safe_tx call) fun _ _ final a returned => (final a returned).2

omit [DecidableEq ι] in
theorem Tidy.tick (tidy : Tidy strict s) (clock : Time) :
    Config.Kept (Rotating strict) (Note strict) (fun _ k => k.2.Final)
      { s.tx with db := { s.tx.db with clock := clock } } := by
  refine tidy.kept.shift ?_ fun i session k _ note => note.tick clock
  obtain ⟨keys, parents, once, one, owner, known, final⟩ := tidy.kept.inv
  exact ⟨keys, parents, once, one, owner, known, final⟩

variable {i : ι} {session : Session dialect Failure Unit} {a : Unit}

omit [DecidableEq ι] in
theorem Tidy.commits (tidy : Tidy strict s) (active : s.tx.sessions i = some session)
    (finished : session.program = .done a) (marked : s.orphans (.run i) = false) :
    ∃ n, .mint n ∈ session.held ∧ Commits n session.held s.tx.db (session.view s.tx.db) ∧
      Ends strict s.tx.db (session.view s.tx.db) := by
  obtain ⟨k, note, final⟩ := tidy.kept.finished active finished
  have marked' : orphaned session.writes = false := by
    obtain ⟨program, writes, held⟩ := session
    cases finished
    simpa only [orphans, active] using marked
  exact ⟨k.1, note.own, note.commits final marked'⟩

omit [DecidableEq ι] in
theorem Service.outruns_of {j : ι} {other : Session dialect Failure Unit}
    (active : s.tx.sessions i = some session) (finished : session.program = .done a)
    (found : s.tx.sessions j = some other) (different : j ≠ i) {scope : Scope}
    (scans : scope ∈ scansOf other.writes) {row : RefreshToken}
    (member : row ∈ rowsOf session.writes) (live : row.state = .active)
    (names : scope.names row = true) : s.Outruns (.run i) := by
  obtain ⟨program, writes, held⟩ := session
  cases finished
  simp only [Service.Outruns, active]
  refine ⟨row, member, live, j, different, scope, ?_, names⟩
  simpa only [found, Option.elim_some] using scans

theorem Tidy.commit (tidy : Tidy strict s) (active : s.tx.sessions i = some session)
    (finished : session.program = .done a) (orderly : s.orderly strict (.run i)) :
    Config.Kept (Rotating strict) (Note strict) (fun _ k => k.2.Final)
      (⟨session.view s.tx.db, Function.update s.tx.sessions i none⟩ :
        Config dialect ι Failure Unit) := by
  obtain ⟨n, own, commits, ends⟩ := tidy.commits active finished orderly.1
  refine tidy.kept.leave i
    (tidy.kept.inv.commit commits (nodup_replay tidy.kept.inv.keys _) ends) ?_
  intro j other k different found note
  refine note.stable commits own (tidy.kept.apart j i other session different found active) ?_
  intro strictly scope scans new appears
  -- a new token is one of the rows that the call has written
  rcases token_replay session.writes s.tx.db n with ⟨same, -⟩ | ⟨row, member, -, there⟩
  · have missing : (session.view s.tx.db).token n = none := same.trans commits.fresh.token
    cases missing.symm.trans appears.1
  · cases there.symm.trans appears.1
    cases names : scope.names new with
    | false => rfl
    | true =>
      exact (orderly.2 strictly (outruns_of active finished found different scans member
        appears.2.1 names)).elim

omit [DecidableEq ι] in
theorem Tidy.drawn (tidy : Tidy strict s) (active : s.tx.sessions i = some session)
    (finished : session.program = .done a) (marked : s.orphans (.run i) = false) {id : ID}
    {t : RefreshToken} (found : (session.view s.tx.db).token id = some t) :
    id < s.drawn ∧ t.sessionId < s.drawn := by
  obtain ⟨n, own, commits, -⟩ := tidy.commits active finished marked
  have below := tidy.exclusive.mints i session active n own
  rcases commits.before found with ⟨old, there, same, -⟩ | ⟨rfl, appears⟩
  · rw [same.sessionId]
    exact tidy.tokens id old there
  · refine ⟨below, ?_⟩
    rcases appears.2.2 with ⟨-, session⟩ | ⟨p, u, -, -, there, -, session, -⟩
    · exact session ▸ below
    · exact session ▸ (tidy.tokens p u there).2

variable [Fintype ι]

/-- **One turn keeps the families in order.** -/
theorem Tidy.step (tidy : Tidy strict s) (turn : Turn ι) (orderly : s.orderly strict turn) :
    Tidy strict (s.step env turn) := by
  have exclusive := tidy.exclusive.step env turn
  have turns := turns_step env s turn
  generalize s.step env turn = after at turns exclusive
  cases turns with
  | idle => exact tidy
  | start free =>
    refine ⟨tidy.start _ _, exclusive, fun id t found => ?_⟩
    obtain ⟨below, session⟩ := tidy.tokens id t found
    exact ⟨Nat.lt_succ_of_lt below, Nat.lt_succ_of_lt session⟩
  | exec active calls free => exact ⟨tidy.kept.exec active calls free, exclusive, tidy.tokens⟩
  | commit active finished =>
    exact ⟨tidy.commit active finished orderly, exclusive,
      fun id t found => tidy.drawn active finished orderly.1 found⟩
  | abort => exact ⟨tidy.kept.abort _, exclusive, tidy.tokens⟩
  | tick => exact ⟨tidy.tick _, exclusive, tidy.tokens⟩

theorem Tidy.lasts (tidy : Tidy strict s) (turn : Turn ι) (orderly : s.orderly strict turn)
    {id : ID}
    {t : RefreshToken} (found : s.tx.db.token id = some t) :
    ∃ t', (s.step env turn).tx.db.token id = some t' ∧ Continues t t' ∧
      (t'.state = .active → t.state = .active) := by
  have turns := turns_step env s turn
  generalize s.step env turn = after at turns
  cases turns with
  | idle | start | exec | abort | tick => exact ⟨t, found, .refl t, fun active => active⟩
  | commit active finished =>
    obtain ⟨n, -, commits, -⟩ := tidy.commits active finished orderly.1
    obtain ⟨t', found', same, retires, -⟩ := commits.after found
    exact ⟨t', found', same, retires⟩

end Steps

section Runs

variable [Fintype ι] {strict : Prop} {env : Env} {accounts : Database}
  {ok : Service ι → Turn ι → Prop} {s : Service ι}

theorem tidy_reachable (orderly : ∀ s turn, ok s turn → s.orderly strict turn)
    (reached : ((serving ι env accounts).restrict ok).Reachable s) : Tidy strict s := by
  refine reached.invariant ?_ fun s turn t tidy taken => ?_
  · rintro _ rfl
    refine ⟨Config.kept_idle ?_, .idle _, fun id t found => by cases found⟩
    exact ⟨List.nodup_nil, by simp [token], by simp [token],
      by simp [token], by simp [token], by simp, by simp [token]⟩
  · obtain ⟨permitted, rfl⟩ := taken
    exact tidy.step turn (orderly s turn permitted)

theorem ages_leads (orderly : ∀ s turn, ok s turn → s.orderly strict turn)
    (reached : ((serving ι env accounts).restrict ok).Reachable s) {later : Service ι}
    (leads : ((serving ι env accounts).restrict ok).Leads s later) {id : ID} {t : RefreshToken}
    (found : s.tx.db.token id = some t) :
    ∃ t', later.tx.db.token id = some t' ∧ Continues t t' ∧
      (t'.state = .active → t.state = .active) := by
  refine reached.persists (Q := fun s => ∃ t', s.tx.db.token id = some t' ∧ Continues t t' ∧
    (t'.state = .active → t.state = .active)) (fun s turn after reached there taken => ?_)
    ⟨t, found, .refl t, fun active => active⟩ leads
  obtain ⟨permitted, rfl⟩ := taken
  obtain ⟨u, found, same, retires⟩ := there
  obtain ⟨v, found', same', retires'⟩ :=
    (tidy_reachable orderly reached).lasts turn (orderly s turn permitted) found
  exact ⟨v, found', same.trans same', fun active => retires (retires' active)⟩

theorem lasts_leads (orderly : ∀ s turn, ok s turn → s.orderly strict turn)
    (reached : ((serving ι env accounts).restrict ok).Reachable s) {later : Service ι}
    (leads : ((serving ι env accounts).restrict ok).Leads s later) {id : ID} {t : RefreshToken}
    (found : s.tx.db.token id = some t) :
    ∃ t', later.tx.db.token id = some t' ∧ t'.parentId = t.parentId := by
  obtain ⟨t', found', same, -⟩ := ages_leads orderly reached leads found
  exact ⟨t', found', same.parentId⟩

end Runs

/-- A session has at most one active token. -/
def Database.OneLive (db : Database) : Prop :=
  ∀ t ∈ db.tokens, ∀ u ∈ db.tokens, t.sessionId = u.sessionId → t.state = .active →
    u.state = .active → t = u

/-- A token has at most one successor. -/
def Database.ExchangedOnce (db : Database) : Prop :=
  ∀ t ∈ db.tokens, ∀ u ∈ db.tokens, ∀ p ∈ t.parentId, u.parentId = some p → t = u

instance (db : Database) : Decidable db.OneLive :=
  inferInstanceAs (Decidable (∀ t ∈ db.tokens, ∀ u ∈ db.tokens, _))

instance (db : Database) : Decidable db.ExchangedOnce :=
  inferInstanceAs (Decidable (∀ t ∈ db.tokens, ∀ u ∈ db.tokens, _))

theorem Rotating.equal {strict : Prop} {db : Database} (rotating : Rotating strict db)
    {t u : RefreshToken} (first : t ∈ db.tokens) (second : u ∈ db.tokens) (same : t.id = u.id) :
    t = u := List.inj_on_of_nodup_map rotating.keys first second same

/-- **One live token per session.** In every run in which no refresh commits that has
marked no token, every session has at most one active token and every token at most one
successor, and the rows that say so stay. -/
theorem one_live_token [Fintype ι] (env : Env) (accounts : Database) (s : Service ι)
    (reached : ((serving ι env accounts).restrict fun s turn =>
      s.orphans turn = false).Reachable s) :
    s.tx.db.OneLive ∧ s.tx.db.ExchangedOnce ∧
      ∀ later, ((serving ι env accounts).restrict fun s turn => s.orphans turn = false).Leads s
        later → ∀ t ∈ s.tx.db.tokens, ∃ t' ∈ later.tx.db.tokens,
          t'.id = t.id ∧ t'.parentId = t.parentId := by
  have orderly : ∀ (s : Service ι) turn, s.orphans turn = false → s.orderly False turn :=
    fun _ _ marked => ⟨marked, False.elim⟩
  have rotating := (tidy_reachable orderly reached).kept.inv
  have row : ∀ {t}, t ∈ s.tx.db.tokens → s.tx.db.token t.id = some t :=
    find_of_mem rotating.keys
  refine ⟨fun t first u second session live live' => ?_,
    fun t first u second p parent parent' => ?_,
    fun later leads t member => ?_⟩
  · exact rotating.equal first second
      (rotating.one _ _ t u (row first) (row second) session live live')
  · exact rotating.equal first second
      (rotating.once _ _ t u p (row first) (row second) parent parent')
  · obtain ⟨t', found, same⟩ := lasts_leads orderly reached leads (row member)
    exact ⟨t', mem_of_find found, key_of_find found, same⟩

/-- **Tokens age one way.** In every run in which no refresh commits that has marked no token,
the tokens of a session are one user's; a token keeps its session, its user and its
predecessor, and once it was exchanged or revoked it is never active again. -/
theorem tokens_age [Fintype ι] (env : Env) (accounts : Database) (s later : Service ι)
    (reached : ((serving ι env accounts).restrict fun s turn => s.orphans turn = false).Reachable s)
    (leads : ((serving ι env accounts).restrict fun s turn => s.orphans turn = false).Leads s
    later) :
    (∀ t ∈ s.tx.db.tokens, ∀ u ∈ s.tx.db.tokens, t.sessionId = u.sessionId → t.userId = u.userId) ∧
      ∀ t ∈ s.tx.db.tokens, ∃ t' ∈ later.tx.db.tokens,
        t'.id = t.id ∧ Continues t t' ∧ (t.state ≠ .active → t'.state ≠ .active) := by
  have orderly : ∀ (s : Service ι) turn, s.orphans turn = false → s.orderly False turn :=
    fun _ _ marked => ⟨marked, False.elim⟩
  have rotating := (tidy_reachable orderly reached).kept.inv
  have row : ∀ {t}, t ∈ s.tx.db.tokens → s.tx.db.token t.id = some t :=
    find_of_mem rotating.keys
  refine ⟨fun t first u second => rotating.owner _ _ t u (row first) (row second),
    fun t member => ?_⟩
  obtain ⟨t', found, same, retires⟩ := ages_leads orderly reached leads (row member)
  exact ⟨t', mem_of_find found, key_of_find found, same, mt retires⟩

/-- One user, who logs in and gets token 0. -/
def account : Database := { users := [{ id := 7, roles := ["CUSTOMER"] }] }

def signIn : List (Turn Bool) :=
  .start true (.issue 7 ["CUSTOMER"] ["pwd"] none) :: List.replicate 4 (.run true)

/-- Two refreshes of token 0 have both read it as active; the second one has come to its
end when the first one has committed. -/
def race : List (Turn Bool) :=
  signIn ++ ([.start true (.refresh 0 none), .start false (.refresh 0 none), .run true,
      .run false] : List (Turn Bool)) ++
    (List.replicate 7 (.run true) : List (Turn Bool)) ++
    (List.replicate 6 (.run false) : List (Turn Bool))

theorem race_lost :
    let s := (race ++ [Turn.abort false]).foldl (step sampleEnv) (.idle account)
    s.tx.db.OneLive ∧ s.tx.db.ExchangedOnce := by
  have reached : ((serving Bool sampleEnv account).restrict
      fun s turn => s.orphans turn = false).Reachable
      ((race ++ [Turn.abort false]).foldl (step sampleEnv) (.idle account)) :=
    foldl_restrict (by decide)
  have holds := one_live_token sampleEnv account _ reached
  exact ⟨holds.1, holds.2.1⟩

theorem signIn_ages :
    let s := signIn.foldl (step sampleEnv) (.idle account)
    ∀ t ∈ s.tx.db.tokens, ∃ t' ∈ ((Turn.start true (.revokeSession 0 "LOGOUT") ::
        List.replicate 4 (.run true)).foldl (step sampleEnv) s).tx.db.tokens,
      t'.id = t.id ∧ Continues t t' ∧ (t.state ≠ .active → t'.state ≠ .active) :=
  (tokens_age sampleEnv account _ _ (foldl_restrict (by decide))
    (System.Leads.foldl_restrict (by decide))).2

/-- The second refresh commits too: token 0 is exchanged twice, and both successors are
active. -/
theorem race_won_twice :
    ¬ ∀ s, (serving Bool sampleEnv account).Reachable s →
      s.tx.db.OneLive ∧ s.tx.db.ExchangedOnce := by
  intro always
  have holds := always _ (foldl (race ++ [Turn.run false]))
  revert holds
  decide

end Souq.Identity
