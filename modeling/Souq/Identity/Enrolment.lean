import Souq.Identity.Reuse
import Souq.Identity.Sends

/-!
# Enrolling a second factor

`confirm` reads the pending secret, verifies a code against it, and then copies
whatever the column holds when its `UPDATE` runs. A column that was cleared in between
breaks a `CHECK` constraint. A column that was replaced in between does not: the secret
that becomes active is one that no code was verified against.
-/

namespace Souq.Identity

open Transact Transition Table List

/-- A user, with the proof of the confirmation that was last committed. -/
def Database.account (db : Database) (id : ID) : Option User × Option Proof :=
  (db.user id, db.proven id)

def Write.account : Write → Option ID
  | .user row => some row.id
  | .proven userId _ => some userId
  | _ => none

theorem account_put_of_ne {w : Write} {id : ID} (other : w.account ≠ some id) (db : Database) :
    (w.put db).account id = db.account id := by
  cases w with
  | user row =>
    have apart : row.id ≠ id := fun same => other (congrArg some same)
    unfold Database.account Database.user
    rw [Write.put, find_upsert, if_neg apart]
  | proven userId proof =>
    have apart : id ≠ userId := fun same => other (congrArg some same.symm)
    unfold Database.account Database.user
    simp only [Write.put, Function.update_of_ne apart]
  | _ => rfl

theorem account_put_congr {db db' : Database} {id : ID} (same : db.account id = db'.account id)
    (w : Write) : (w.put db).account id = (w.put db').account id := by
  obtain ⟨user, proof⟩ := Prod.mk.inj same
  cases w with
  | user row =>
    refine Prod.ext ?_ proof
    change find User.id (upsert User.id row db.users) id =
      find User.id (upsert User.id row db'.users) id
    rw [find_upsert, find_upsert]
    split
    · rfl
    · exact user
  | proven userId written =>
    refine Prod.ext user ?_
    change Function.update db.proven userId (some written) id =
      Function.update db'.proven userId (some written) id
    rw [Function.update_apply, Function.update_apply, proof]
  | _ => exact same

theorem account_replay_of_ne {writes : List Write} {id : ID}
    (others : ∀ w ∈ writes, w.account ≠ some id) (db : Database) :
    (dialect.replay writes db).account id = db.account id := by
  induction writes generalizing db with
  | nil => rfl
  | cons w writes ih =>
    rw [Dialect.replay_cons, ih fun later member => others later (mem_cons_of_mem w member)]
    exact account_put_of_ne (others w mem_cons_self) db

theorem account_replay_congr (writes : List Write) {db db' : Database} {id : ID}
    (same : db.account id = db'.account id) :
    (dialect.replay writes db).account id = (dialect.replay writes db').account id := by
  induction writes generalizing db db' with
  | nil => exact same
  | cons w writes ih =>
    rw [Dialect.replay_cons, Dialect.replay_cons]
    exact ih (account_put_congr same w)

/-- Where the second factor is on, the secret is the one that a code was verified
against. -/
def Backed (env : Env) (account : Option User × Option Proof) : Prop :=
  ∀ u, account.1 = some u → u.mfaEnabled = true → ∃ proof, account.2 = some proof ∧
    u.mfaSecret = some proof.secret ∧ env.totp proof.secret proof.code proof.verifiedAt = true

/-- Every account is backed, after what a transaction has written, and the transaction
holds the rows of the accounts it has written. -/
structure Covered (env : Env) (db : Database) (writes : List Write) (held : List Key) : Prop where
  backed : ∀ id, Backed env ((dialect.replay writes db).account id)
  locked : ∀ w ∈ writes, ∀ id, w.account = some id → .user id ∈ held

section Covered

variable {env : Env} {db db' : Database} {writes : List Write} {held : List Key}

theorem Covered.stable (covered : Covered env db writes held)
    (inv : ∀ id, Backed env (db'.account id))
    (rely : ∀ id, .user id ∈ held → db.account id = db'.account id) :
    Covered env db' writes held := by
  refine ⟨fun id => ?_, covered.locked⟩
  by_cases touched : ∃ w ∈ writes, w.account = some id
  · obtain ⟨w, member, named⟩ := touched
    rw [← account_replay_congr writes (rely id (covered.locked w member id named))]
    exact covered.backed id
  · have others : ∀ w ∈ writes, w.account ≠ some id :=
      fun w member named => touched ⟨w, member, named⟩
    rw [account_replay_of_ne others]
    exact inv id

theorem Covered.untouched (covered : Covered env db writes held) {id : ID}
    (free : .user id ∉ held) : (dialect.replay writes db).account id = db.account id :=
  account_replay_of_ne (fun w member named => free (covered.locked w member id named)) db

end Covered

def Stmt.Verified (env : Env) : Stmt → Prop
  | .enableMfa _ proof => env.totp proof.secret proof.code proof.verifiedAt = true
  | _ => True

/-- The `UPDATE` of a confirmation finds another secret than its call has read. -/
def Stmt.swaps (view : Database) : Stmt → Bool
  | .enableMfa userId proof =>
    (view.user userId).any fun u => u.mfaPendingSecret.any fun secret => secret ≠ proof.secret
  | _ => false

section Statements

variable {env : Env} {view : Database}

theorem backed_update {userId : ID} {u row : User} (backed : ∀ id, Backed env (view.account id))
    (found : view.user userId = some u) (named : row.id = u.id)
    (quiet : row.mfaEnabled = true → u.mfaEnabled = true ∧ row.mfaSecret = u.mfaSecret) (id : ID) :
    Backed env (((Write.user row).put view).account id) := by
  have key : u.id = userId := key_of_find found
  by_cases same : row.id = id
  · intro v there on
    obtain rfl : row = v := by
      change find User.id (upsert User.id row view.users) id = some v at there
      rw [find_upsert, if_pos same] at there
      exact Option.some.inj there
    obtain ⟨was, secret⟩ := quiet on
    have owner : userId = id := key.symm.trans (named.symm.trans same)
    obtain ⟨proof, proven, held, verified⟩ := backed userId u found was
    rw [owner] at proven
    exact ⟨proof, proven, secret.trans held, verified⟩
  · have other : (Write.user row).account ≠ some id := fun named => same (Option.some.inj named)
    rw [account_put_of_ne other]
    exact backed id

theorem backed_confirmed {userId : ID} {u : User} {proof : Proof}
    (backed : ∀ id, Backed env (view.account id)) (found : view.user userId = some u)
    (verified : env.totp proof.secret proof.code proof.verifiedAt = true)
    (admissible : u.confirmed.admissible = true)
    (kept : (Stmt.enableMfa userId proof).swaps view = false) (id : ID) :
    Backed env ((dialect.replay [.user u.confirmed, .proven userId proof] view).account id) := by
  have key : u.id = userId := key_of_find found
  by_cases same : userId = id
  · intro v there on
    obtain rfl : u.confirmed = v := by
      change find User.id (upsert User.id u.confirmed view.users) id = some v at there
      have named : u.confirmed.id = id := key.trans same
      rw [find_upsert, if_pos named] at there
      exact Option.some.inj there
    refine ⟨proof, ?_, ?_, verified⟩
    · change Function.update view.proven userId (some proof) id = _
      rw [same, Function.update_self]
    · simp only [Stmt.swaps, found, Option.any_some] at kept
      change u.mfaPendingSecret = some proof.secret
      cases pending : u.mfaPendingSecret with
      | none => simp [User.admissible, User.confirmed, pending] at admissible
      | some secret => simpa [pending] using kept
  · rw [account_replay_of_ne]
    · exact backed id
    · simp [Write.account, same, key, User.confirmed]

theorem Stmt.locks_account {q : Stmt} {w : Write} (member : w ∈ q.writes view) {id : ID}
    (named : w.account = some id) : .user id ∈ q.keys view := by
  -- an `UPDATE` of one user
  have update : ∀ {userId} (found : Option User) (change : User → User),
      (∀ u, found = some u → u.id = userId) → w ∈ updating found (fun u => [.user (change u)]) →
      (∀ u, (change u).id = u.id) → .user id ∈ locking found (.user userId) := by
    intro userId found change key member same
    obtain ⟨u, rfl, written⟩ := mem_updating.mp member
    cases mem_singleton.mp written
    have owner : u.id = id := (same u).symm.trans (Option.some.inj named)
    simp [← owner, key u rfl]
  have key : ∀ userId u, view.user userId = some u → u.id = userId :=
    fun userId u found => key_of_find found
  have aside : ∀ {ρ : Type} (found : Option ρ) (write : ρ → Write),
      w ∈ updating found (fun row => [write row]) → (∀ row, (write row).account = none) →
        False := by
    intro ρ found write member other
    obtain ⟨row, -, written⟩ := mem_updating.mp member
    rw [mem_singleton.mp written, other] at named
    cases named
  cases q with
  | setEnabled userId enabled => exact update _ _ (key userId) member fun _ => rfl
  | setPending userId secret => exact update _ _ (key userId) member fun _ => rfl
  | clearPending userId => exact update _ _ (key userId) member fun _ => rfl
  | disableMfa userId => exact update _ _ (key userId) member fun _ => rfl
  | clearExpired userId =>
    refine update _ _ (fun u found => ?_) member fun _ => rfl
    exact key userId u (Option.filter_eq_some_iff.mp found).1
  | enableMfa userId proof =>
    obtain ⟨u, found, written⟩ := mem_updating.mp member
    have owner : u.id = userId := key userId u found
    have same : userId = id := by
      split at written
      · rcases mem_cons.mp written with rfl | last
        · exact owner.symm.trans (Option.some.inj named)
        · cases mem_singleton.mp last
          exact Option.some.inj named
      · cases written
    rw [← same]
    simp [Stmt.keys, found]
  | insertToken | insertCode =>
    simp only [Stmt.writes] at member
    split at member
    · cases mem_singleton.mp member
      cases named
    · cases member
  | markUsed | revokeRow | replacePassword | claimReset | spendCode | rehash =>
    exact (aside _ _ member fun _ => rfl).elim
  | matching | deleteCodes | recordAttempt =>
    cases mem_singleton.mp member
    cases named
  | _ => exact absurd member not_mem_nil

/-- **A statement keeps every account backed**, unless it is a confirmation that finds
another secret. -/
theorem Stmt.backed {q : Stmt} (backed : ∀ id, Backed env (view.account id))
    (verified : q.Verified env) (kept : q.swaps view = false) (id : ID) :
    Backed env ((dialect.replay (q.writes view) view).account id) := by
  have none : .user id ∉ q.keys view →
      Backed env ((dialect.replay (q.writes view) view).account id) := by
    intro free
    rw [account_replay_of_ne fun w member named => free (Stmt.locks_account member named)]
    exact backed id
  -- an `UPDATE` of one user
  have update : ∀ (found : Option User) (change : User → User),
      (∀ u, found = some u → view.user u.id = some u) →
      (∀ u, (change u).id = u.id ∧ ((change u).mfaEnabled = true →
        u.mfaEnabled = true ∧ (change u).mfaSecret = u.mfaSecret)) →
      Backed env ((dialect.replay (updating found fun u => [.user (change u)])
        view).account id) := by
    intro found change there quiet
    cases found with
    | none => exact backed id
    | some u => exact backed_update backed (there u rfl) (quiet u).1 (quiet u).2 id
  have there : ∀ userId u, view.user userId = some u → view.user u.id = some u := by
    intro userId u found
    have key : u.id = userId := key_of_find found
    rwa [key]
  cases q with
  | setEnabled userId enabled => exact update _ _ (there userId) fun u => ⟨rfl, fun on => ⟨on, rfl⟩⟩
  | setPending userId secret => exact update _ _ (there userId) fun u => ⟨rfl, fun on => ⟨on, rfl⟩⟩
  | clearPending userId => exact update _ _ (there userId) fun u => ⟨rfl, fun on => ⟨on, rfl⟩⟩
  | disableMfa userId => exact update _ _ (there userId) fun u => ⟨rfl, fun on => by cases on⟩
  | clearExpired userId =>
    refine update _ _ (fun u found => ?_) fun u => ⟨rfl, fun on => ⟨on, rfl⟩⟩
    exact there userId u (Option.filter_eq_some_iff.mp found).1
  | enableMfa userId proof =>
    simp only [Stmt.writes]
    cases found : view.user userId with
    | none => exact backed id
    | some u =>
      simp only [updating, Option.elim_some]
      cases admissible : u.confirmed.admissible with
      | false => exact backed id
      | true => exact backed_confirmed backed found verified admissible kept id
  | _ => exact none (by simp [Stmt.keys])

end Statements

/-- A transaction confirms only secrets that it has verified a code against. -/
abbrev Verifies {α : Type} (env : Env) (p : Tx α) : Prop :=
  Program.Only (D := dialect) (Stmt.Verified env) p

theorem verifies_tx {env : Env} {n : ID} (call : Call) : Verifies env (call.tx env n) := by
  refine Program.Only.mono (lawful_tx call) fun q lawful => ?_
  cases q with
  | enableMfa userId proof => exact lawful
  | _ => trivial

variable {ι : Type} [DecidableEq ι]

/-- The turn is the `UPDATE` of a confirmation, and the pending secret is not the one that
its call has read and verified. -/
def Service.Swaps (s : Service ι) : Turn ι → Prop
  | .run i =>
    match s.tx.sessions i with
    | some ⟨.call q rest, writes, held⟩ =>
      Stmt.swaps (dialect.replay writes s.tx.db) q = true ∧
        ¬ s.tx.Blocked i ⟨.call q rest, writes, held⟩ q
    | _ => False
  | _ => False

instance [Fintype ι] (s : Service ι) (turn : Turn ι) : Decidable (s.Swaps turn) :=
  match turn with
  | .run i =>
    match found : s.tx.sessions i with
    | some ⟨.call q rest, writes, held⟩ =>
      decidable_of_iff (Stmt.swaps (dialect.replay writes s.tx.db) q = true ∧
        ¬ s.tx.Blocked i ⟨.call q rest, writes, held⟩ q) (by simp only [Service.Swaps, found])
    | none => .isFalse (by simp only [Service.Swaps, found, not_false_eq_true])
    | some ⟨.done _, _, _⟩ => .isFalse (by simp only [Service.Swaps, found, not_false_eq_true])
    | some ⟨.fail _, _, _⟩ => .isFalse (by simp only [Service.Swaps, found, not_false_eq_true])
  | .start _ _ | .abort _ | .tick _ => .isFalse id

/-- What holds throughout a run: the accounts are backed, and every call leaves them so. -/
structure Enrolled (env : Env) (s : Service ι) : Prop where
  exclusive : Exclusive s
  keys : (s.tx.db.users.map User.id).Nodup
  backed : ∀ id, Backed env (s.tx.db.account id)
  covered : ∀ i session, s.tx.sessions i = some session →
    Covered env s.tx.db session.writes session.held ∧ Verifies env session.program

section Steps

variable {env : Env} {s : Service ι}

theorem Enrolled.covered_set (enrolled : Enrolled env s) {i : ι}
    {session : Option (Session dialect Failure Unit)}
    (own : ∀ c, session = some c → Covered env s.tx.db c.writes c.held ∧ Verifies env c.program) :
    ∀ j c, (s.tx.set i session).sessions j = some c →
      Covered env s.tx.db c.writes c.held ∧ Verifies env c.program := by
  intro j c found
  by_cases same : j = i
  · subst same
    exact own c (by simpa [Config.set] using found)
  · exact enrolled.covered j c (by simpa [Config.set, same] using found)

omit [DecidableEq ι] in
theorem Enrolled.covered_exec (enrolled : Enrolled env s) {i : ι}
    {session : Session dialect Failure Unit} {q : Stmt} {rest : q.Answer → Tx Unit}
    (active : s.tx.sessions i = some session) (calls : session.program = .call q rest)
    (kept : q.swaps (session.view s.tx.db) = false) :
    Covered env s.tx.db (session.exec s.tx.db q rest).writes (session.exec s.tx.db q rest).held ∧
      Verifies env (session.exec s.tx.db q rest).program := by
  obtain ⟨⟨backed, locked⟩, verifies⟩ := enrolled.covered i session active
  rw [calls] at verifies
  refine ⟨⟨fun id => ?_, fun w member id named => ?_⟩, verifies.2 _⟩
  · change Backed env ((dialect.replay (session.writes ++ q.writes _) s.tx.db).account id)
    rw [Dialect.replay_append]
    exact Stmt.backed backed verifies.1 kept id
  · rcases mem_append.mp member with old | new
    · exact mem_append_left _ (locked w old id named)
    · exact mem_append_right _ (Stmt.locks_account new named)

theorem users_replay_nodup {db : Database} (keys : (db.users.map User.id).Nodup)
    (writes : List Write) : ((dialect.replay writes db).users.map User.id).Nodup := by
  have keep : ∀ (db : Database) (w : Write), (db.users.map User.id).Nodup →
      ((w.put db).users.map User.id).Nodup := by
    intro db w before
    cases w with
    | user row => exact nodup_upsert before row
    | _ => exact before
  exact @Dialect.replay_keeps dialect (fun db => (db.users.map User.id).Nodup) keep db keys writes

theorem Enrolled.covered_commit (enrolled : Enrolled env s) {i : ι}
    {session : Session dialect Failure Unit} (active : s.tx.sessions i = some session) :
    ∀ j c, Function.update s.tx.sessions i none j = some c →
      Covered env (session.view s.tx.db) c.writes c.held ∧ Verifies env c.program := by
  intro j c found
  have different : j ≠ i := by
    rintro rfl
    rw [Function.update_self] at found
    cases found
  rw [Function.update_of_ne different] at found
  obtain ⟨covered, verifies⟩ := enrolled.covered j c found
  obtain ⟨own, -⟩ := enrolled.covered i session active
  refine ⟨covered.stable own.backed fun id held => ?_, verifies⟩
  exact (own.untouched (enrolled.exclusive.locks j i c session different found active _ held)).symm

/-- **One turn keeps every account backed.** -/
theorem Enrolled.step [Fintype ι] (enrolled : Enrolled env s) (turn : Turn ι)
    (kept : ¬ s.Swaps turn) : Enrolled env (s.step env turn) := by
  have exclusive := enrolled.exclusive.step env turn
  have turns := turns_step env s turn
  generalize s.step env turn = after at turns exclusive
  cases turns with
  | idle => exact enrolled
  | start free =>
    refine ⟨exclusive, enrolled.keys, enrolled.backed, enrolled.covered_set ?_⟩
    rintro c ⟨⟩
    exact ⟨⟨enrolled.backed, fun w member => by cases member⟩, verifies_tx _⟩
  | exec active calls free =>
    refine ⟨exclusive, enrolled.keys, enrolled.backed, enrolled.covered_set ?_⟩
    rintro c ⟨⟩
    refine enrolled.covered_exec active calls ?_
    rename_i i session q rest
    obtain ⟨program, writes, held⟩ := session
    cases calls
    simp only [Service.Swaps, active, not_and, not_not] at kept
    exact Bool.eq_false_iff.mpr fun swaps => free (kept swaps)
  | commit active finished =>
    exact ⟨exclusive, users_replay_nodup enrolled.keys _, (enrolled.covered _ _ active).1.backed,
      enrolled.covered_commit active⟩
  | abort =>
    exact ⟨exclusive, enrolled.keys, enrolled.backed,
      enrolled.covered_set fun _ none => by cases none⟩
  | tick =>
    refine ⟨exclusive, enrolled.keys, enrolled.backed, fun j c found => ?_⟩
    obtain ⟨covered, verifies⟩ := enrolled.covered j c found
    exact ⟨covered.stable enrolled.backed fun _ _ => rfl, verifies⟩

end Steps

/-- Every user whose second factor is on has a secret, and it is the one that the
confirmation that turned it on has verified a code against. -/
def Database.MfaProven (env : Env) (db : Database) : Prop :=
  ∀ u ∈ db.users, u.mfaEnabled = true → ∃ proof, db.proven u.id = some proof ∧
    u.mfaSecret = some proof.secret ∧ env.totp proof.secret proof.code proof.verifiedAt = true

/-- **The second factor is proven.** In every run in which no confirmation finds another
secret than its call has verified, the second factor is on only with a secret that was
proven. -/
theorem mfa_is_proven [Fintype ι] (env : Env) (accounts : Database) (s : Service ι)
    (keys : (accounts.users.map User.id).Nodup) (start : accounts.MfaProven env)
    (reached : ((serving ι env accounts).restrict fun s turn => ¬ s.Swaps turn).Reachable s) :
    s.tx.db.MfaProven env := by
  have enrolled : Enrolled env s := by
    refine reached.invariant ?_ fun s turn t enrolled taken => ?_
    · rintro _ rfl
      refine ⟨.idle _, keys, fun id u found => ?_, fun _ _ none => by cases none⟩
      have member : u ∈ accounts.users := mem_of_find found
      have named : u.id = id := key_of_find found
      rw [← named]
      exact start u member
    · obtain ⟨kept, rfl⟩ := taken
      exact enrolled.step turn kept
  intro u member on
  exact enrolled.backed u.id u (find_of_mem enrolled.keys member) on

/-- One user without a second factor. -/
def unenrolled : Database := { users := [{ id := 7, roles := ["CUSTOMER"] }] }

/-- The user enrols and confirms with a code. -/
def enrolment : List (Turn Bool) :=
  .start true (.begin 7) :: List.replicate 3 (.run true) ++
    .start true (.confirm 7 "123456") :: List.replicate 16 (.run true)

theorem enrolment_proven :
    let s := enrolment.foldl (Service.step sampleEnv) (.idle unenrolled)
    s.tx.db.MfaProven sampleEnv ∧ (s.tx.db.user 7).map User.mfaSecret = some (some 0) := by
  have reached : ((serving Bool sampleEnv unenrolled).restrict
      fun s turn => ¬ s.Swaps turn).Reachable
      (enrolment.foldl (Service.step sampleEnv) (.idle unenrolled)) :=
    System.Reachable.foldl_restrict (by decide)
  exact ⟨mfa_is_proven sampleEnv unenrolled _ (by decide) (by simp [Database.MfaProven, unenrolled])
    reached, by decide⟩

/-- The user enrols again while a confirmation has verified a code against the first
secret. -/
def restarted : List (Turn Bool) :=
  .start true (.begin 7) :: (List.replicate 3 (.run true) : List (Turn Bool)) ++
    .start true (.confirm 7 "123456") :: (List.replicate 3 (.run true) : List (Turn Bool)) ++
    .start false (.begin 7) :: (List.replicate 3 (.run false) : List (Turn Bool)) ++
    (List.replicate 13 (.run true) : List (Turn Bool))

/-- The second secret becomes active, and the code was verified against the first. -/
theorem restarted_unproven :
    ¬ ∀ s, (serving Bool sampleEnv unenrolled).Reachable s → s.tx.db.MfaProven sampleEnv := by
  intro always
  have holds := always _ (System.Reachable.foldl restarted)
  obtain ⟨proof, proven, secret, -⟩ := holds
    ⟨7, "", true, ["CUSTOMER"], true, some 2, none, none⟩ (by decide) rfl
  have verified : ((restarted.foldl (Service.step sampleEnv) (.idle unenrolled)).tx.db.proven 7).map
      Proof.secret = some 0 := by decide
  have first : some 0 = some proof.secret :=
    verified.symm.trans (congrArg (Option.map Proof.secret) proven)
  cases first.trans secret.symm

end Souq.Identity
