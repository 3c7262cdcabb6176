import Souq.Identity.Reuse

/-!
# Whether the lockout counts

A failed login inserts a row into `login_attempts` and throws. The login is one
transaction, so the row goes with the exception, and no failure is ever counted: a
caller is locked out when a limit is not positive, and never otherwise.
-/

namespace Souq.Identity

open Transact List

/-- A call of `login`, when it comes and what it draws. -/
structure LoginCall where
  time : Time
  mint : ID
  cmd : LoginCommand

section Sequence

variable (env : Env)

def LoginCall.at (call : LoginCall) (db : Database) : Database := { db with clock := call.time }

def LoginCall.outcome (call : LoginCall) (db : Database) : Except Failure AuthResult :=
  ((login env call.mint call.cmd).run (call.at db)).1

def LoginCall.after (call : LoginCall) (db : Database) : Database :=
  (login env call.mint call.cmd).inTx (call.at db)

def afterLogins (calls : List LoginCall) (db : Database) : Database :=
  calls.foldl (fun db call => call.after env db) db

/-- The calls of a sequence that end in `AuthenticationFailed`. -/
def rejected : List LoginCall → Database → List LoginCall
  | [], _ => []
  | call :: calls, db =>
    if call.outcome env db = .error .authenticationFailed then
      call :: rejected calls (call.after env db)
    else rejected calls (call.after env db)

def LoginCall.Recent (call next : LoginCall) : Prop :=
  (next.time : Int) - env.lockout.lockoutWindow < call.time ∧ call.time ≤ next.time

instance (call next : LoginCall) : Decidable (call.Recent env next) :=
  inferInstanceAs (Decidable (_ ∧ _))

/-- The failed calls within the window for the e-mail of another call. -/
def failuresOfAccount (calls : List LoginCall) (db : Database) (next : LoginCall) : Nat :=
  (rejected env calls db).countP fun call =>
    call.Recent env next ∧ env.lower call.cmd.email = env.lower next.cmd.email

/-- The failed calls within the window from an address. -/
def failuresOfIp (calls : List LoginCall) (db : Database) (next : LoginCall) (ip : Option ID) :
    Nat :=
  (rejected env calls db).countP fun call =>
    call.Recent env next ∧ ip.isSome ∧ call.cmd.address env = some ip

/-- A call throws `AccountLocked`, whatever the password encoder says. -/
def LocksOut (call : LoginCall) (db : Database) : Prop :=
  ∀ verifyPassword, ∃ retryAfter,
    call.outcome { env with verifyPassword } db = .error (.accountLocked retryAfter)

/-- Whatever accounts there are, after any sequence of logins with too many failures for
an e-mail or an address, the next login for it is locked out. -/
def LockoutCounts : Prop :=
  ∀ (accounts : Database) (calls : List LoginCall) (next : LoginCall) (ip : Option ID),
    accounts.attempts = [] → next.cmd.address env = some ip →
    (env.lockout.maxFailuresPerAccount ≤ failuresOfAccount env calls accounts next ∨
      env.lockout.maxFailuresPerIp ≤ failuresOfIp env calls accounts next ip) →
    LocksOut env next (afterLogins env calls accounts)

end Sequence

/-- Every caller is locked out, without any failure. -/
def LockoutPolicy.Closed (policy : LockoutPolicy) : Prop :=
  (policy.maxFailuresPerAccount ≤ 0 ∨ policy.maxFailuresPerIp ≤ 0) ∧ policy.lockoutWindow ≠ 0

instance (policy : LockoutPolicy) : Decidable policy.Closed := inferInstanceAs (Decidable (_ ∧ _))

def Database.Spotless (db : Database) : Prop := ∀ a ∈ db.attempts, a.succeeded = true

section Recording

variable {env : Env} {db : Database}

/-- A program that leaves only attempts that have succeeded, where it succeeds. -/
abbrev Clean {α : Type} (p : Tx α) : Prop :=
  ∀ db : Database, db.Spotless →
    p.Ensures (fun _ _ => True) db fun _ after => Database.Spotless after

theorem clean_ite {α : Type} {c : Prop} {_ : Decidable c} {p q : Tx α} (first : Clean p)
    (second : Clean q) : Clean (if c then p else q) := by
  by_cases holds : c
  · rwa [if_pos holds]
  · rwa [if_neg holds]

theorem clean_bind {α β : Type} {p : Tx α} {f : α → Tx β} (first : Clean p)
    (second : ∀ a, Clean (f a)) : Clean (p >>= f) := fun db spotless =>
  Program.Ensures.bind ((first db spotless).mono fun a after now => second a after now)

theorem clean_statement {q : Stmt}
    (keeps : ∀ db : Database, db.Spotless → (dialect.replay (q.writes db) db).Spotless) :
    Clean (statement q) := fun db spotless => ⟨trivial, keeps db spotless⟩

theorem clean_now : Clean (statement .now) := clean_statement fun _ spotless => spotless

variable (mint : ID) (cmd : LoginCommand)

theorem clean_sign (userId : ID) (roles amr : List String) (sessionId : ID) :
    Clean (signAccessToken env mint userId roles amr sessionId) := by
  refine clean_bind clean_now fun now => ?_
  cases env.sign _ with
  | some token => exact fun _ spotless => spotless
  | none => exact fun _ _ => trivial

theorem clean_issue (userId : ID) (roles amr : List String) (device : Option String) :
    Clean (issue env mint userId roles amr device) := by
  refine clean_bind (clean_sign _ _ _ _ _) fun access => clean_bind ?_ fun _ _ spotless => spotless
  refine clean_bind clean_now fun now => clean_bind (clean_statement fun db spotless => ?_)
    fun inserted => clean_ite (fun _ spotless => spotless) fun _ _ => trivial
  simp only [Stmt.writes]
  split
  · exact spotless
  · exact spotless

theorem clean_reject {α : Type} (ip : Option ID) (userId : Option ID) (reason : String)
    (failure : Failure) :
    Clean (reject env cmd ip userId reason failure : Tx α) := fun _ _ => ⟨trivial, trivial⟩

theorem clean_welcome (ip : Option ID) (user : LoginRow) (amr : List String) :
    Clean (welcome env mint cmd ip user amr) := by
  have records : Clean (recordAttempt env cmd ip (some user.id) true none) := by
    refine clean_statement fun db spotless a member => ?_
    rcases mem_append.mp member with old | new
    · exact spotless a old
    · rw [mem_singleton.mp new]
  have rehashes : Clean (statement (.rehash user.id (env.hashPassword cmd.password))) := by
    refine clean_statement fun db spotless => ?_
    simp only [Stmt.writes]
    cases db.credential user.id with
    | none => exact spotless
    | some c => exact spotless
  have opens : Clean (do
      recordAttempt env cmd ip (some user.id) true none
      let pair ← issue env mint user.id user.roles amr cmd.deviceFingerprint
      return ⟨pair, user.id, user.roles⟩ : Tx AuthResult) :=
    clean_bind records fun _ => clean_bind (clean_issue _ _ _ _ _) fun _ _ spotless => spotless
  exact clean_ite (clean_bind rehashes fun _ => opens) opens

theorem clean_login : Clean (login env mint cmd) := by
  unfold login
  cases cmd.address env with
  | none => exact fun _ _ => trivial
  | some ip =>
    have checks : Clean (lockoutRemaining env cmd.email ip) :=
      clean_bind clean_now fun now => clean_bind (clean_statement fun _ spotless => spotless)
        fun counts => clean_ite (fun _ spotless => spotless) fun _ spotless => spotless
    refine clean_bind checks fun lockout => clean_ite (clean_reject _ _ _ _ _) ?_
    refine clean_bind (clean_statement fun _ spotless => spotless) fun found => ?_
    cases found with
    | none => exact clean_reject _ _ _ _ _
    | some user =>
      refine clean_ite (clean_reject _ _ _ _ _) (clean_ite (clean_reject _ _ _ _ _) ?_)
      refine clean_ite (clean_welcome _ _ _ _ _) ?_
      cases cmd.mfaCode.filter fun code => !isBlank code with
      | none => exact clean_reject _ _ _ _ _
      | some code =>
        exact clean_bind clean_now fun now =>
          clean_ite (clean_welcome _ _ _ _ _) (clean_reject _ _ _ _ _)

/-- **No login leaves a failure in the table.** -/
theorem Spotless.afterLogins (calls : List LoginCall) (spotless : db.Spotless) :
    (afterLogins env calls db).Spotless := by
  induction calls generalizing db with
  | nil => exact spotless
  | cons call calls ih =>
    have clocked : (call.at db).Spotless := spotless
    exact ih ((clean_login call.mint call.cmd (call.at db) clocked).inTx clocked)

theorem Database.Spotless.failures (spotless : db.Spotless) (since : Int)
    (p : LoginAttempt → Bool) : db.failures since p = 0 := by
  refine countP_eq_zero.mpr fun a member => ?_
  simp [spotless a member]

variable (env) in
theorem login_run {mint : ID} {cmd : LoginCommand} {ip : Option ID}
    (address : cmd.address env = some ip) (spotless : db.Spotless) :
    (login env mint cmd).run db =
      if env.lockout.Closed then
        (reject env cmd ip none "LOCKED_OUT" (.accountLocked env.lockout.lockoutWindow)).run db
      else (checkPassword env mint cmd ip (db.loginRow (env.lower cmd.email))).run db := by
  have remaining : (lockoutRemaining env cmd.email ip).run db =
      (.ok (if env.lockout.maxFailuresPerAccount ≤ 0 ∨ env.lockout.maxFailuresPerIp ≤ 0 then
        env.lockout.lockoutWindow else 0), db) := by
    unfold lockoutRemaining
    change (if env.lockout.maxFailuresPerAccount ≤ ((db.failures _ _ : Nat) : Int) ∨
      env.lockout.maxFailuresPerIp ≤ ((db.failures _ _ : Nat) : Int) then _ else _ :
        Tx Int).run db =
        _
    rw [spotless.failures, spotless.failures, Int.natCast_zero]
    by_cases limited : env.lockout.maxFailuresPerAccount ≤ 0 ∨ env.lockout.maxFailuresPerIp ≤ 0
    · rw [if_pos limited, if_pos limited]
      rfl
    · rw [if_neg limited, if_neg limited]
      rfl
  unfold login
  simp only [address]
  rw [Program.run_bind, remaining]
  by_cases limited : env.lockout.maxFailuresPerAccount ≤ 0 ∨ env.lockout.maxFailuresPerIp ≤ 0
  · by_cases instant : env.lockout.lockoutWindow = 0
    · have open' : ¬ env.lockout.Closed := fun both => both.2 instant
      simp only [limited, instant, open', ne_eq, not_true_eq_false, ↓reduceIte]
      rfl
    · have closed : env.lockout.Closed := ⟨limited, instant⟩
      simp only [limited, instant, closed, ne_eq, not_false_eq_true, ↓reduceIte]
  · have open' : ¬ env.lockout.Closed := fun both => limited both.1
    simp only [limited, open', ne_eq, not_true_eq_false, ↓reduceIte]
    rfl

end Recording

/-- The limits are such that nothing has to be counted: a limit that is not positive and
a window that is not empty lock every caller out; otherwise no failure may be within the
window. -/
def LockoutPolicy.Uncounted (policy : LockoutPolicy) : Prop :=
  policy.lockoutWindow < 0 ∨
    (policy.lockoutWindow = 0 ∧ 0 < policy.maxFailuresPerAccount ∧ 0 < policy.maxFailuresPerIp) ∨
    0 < policy.lockoutWindow ∧ (policy.maxFailuresPerAccount ≤ 0 ∨ policy.maxFailuresPerIp ≤ 0)

section Counting

variable {env : Env}

theorem locksOut_of {call : LoginCall} {db : Database} {ip : Option ID}
    (address : call.cmd.address env = some ip) (spotless : db.Spotless)
    (closed : env.lockout.Closed) : LocksOut env call db := by
  intro verifyPassword
  have clocked : (call.at db).Spotless := spotless
  refine ⟨env.lockout.lockoutWindow, ?_⟩
  unfold LoginCall.outcome
  rw [login_run { env with verifyPassword } address clocked, if_pos closed]
  rfl

theorem not_recent (empty : env.lockout.lockoutWindow ≤ 0) (call next : LoginCall) :
    ¬ call.Recent env next := by
  rintro ⟨since, before⟩
  have : (call.time : Int) ≤ next.time := by exact_mod_cast before
  omega

def stranger : LoginCall := ⟨0, 0, ⟨"nobody@souq.dev", "", none, none, none, none⟩⟩

theorem stranger_rejected (open' : ¬ env.lockout.Closed) :
    stranger.outcome env {} = .error .authenticationFailed ∧ stranger.after env {} = {} := by
  have ran : (login env stranger.mint stranger.cmd).run (stranger.at {}) =
      (checkPassword env stranger.mint stranger.cmd none none).run (stranger.at {}) := by
    rw [login_run env rfl (by simp [LoginCall.at, Database.Spotless]), if_neg open']
    rfl
  refine ⟨?_, ?_⟩
  · unfold LoginCall.outcome
    rw [ran]
    rfl
  · unfold LoginCall.after
    rw [Program.inTx_of_error ran]
    rfl

theorem not_locksOut_stranger (open' : ¬ env.lockout.Closed) : ¬ LocksOut env stranger {} := by
  intro locks
  obtain ⟨retryAfter, locked⟩ := locks env.verifyPassword
  cases locked.symm.trans (stranger_rejected open').1

theorem rejected_strangers (open' : ¬ env.lockout.Closed) (n : Nat) :
    rejected env (List.replicate n stranger) {} = List.replicate n stranger ∧
      afterLogins env (List.replicate n stranger) {} = {} := by
  obtain ⟨outcome, after⟩ := stranger_rejected open'
  induction n with
  | zero => exact ⟨rfl, rfl⟩
  | succ n ih =>
    rw [replicate_succ]
    constructor
    · rw [rejected, if_pos outcome, after, ih.1]
    · rw [afterLogins, foldl_cons, after]
      exact ih.2

theorem LockoutPolicy.Uncounted.counts (uncounted : env.lockout.Uncounted) : LockoutCounts env := by
  intro accounts calls next ip fresh address reached
  have spotless : (afterLogins env calls accounts).Spotless :=
    Spotless.afterLogins calls (by simp [Database.Spotless, fresh])
  -- where the window is empty, a limit that is reached is not positive
  have limited : env.lockout.lockoutWindow ≤ 0 →
      env.lockout.maxFailuresPerAccount ≤ 0 ∨ env.lockout.maxFailuresPerIp ≤ 0 := by
    intro empty
    have none : ∀ p : LoginCall → Prop, ∀ [DecidablePred p],
        (rejected env calls accounts).countP (fun call => call.Recent env next ∧ p call) = 0 := by
      intro p _
      refine countP_eq_zero.mpr fun call _ => ?_
      simp [not_recent empty call next]
    rcases reached with account | ip
    · left
      rw [failuresOfAccount, none] at account
      exact account
    · right
      rw [failuresOfIp, none] at ip
      exact ip
  rcases uncounted with negative | ⟨zero, account, ip⟩ | ⟨positive, small⟩
  · exact locksOut_of address spotless ⟨limited (le_of_lt negative), ne_of_lt negative⟩
  · rcases limited (le_of_eq zero) with small | small <;> omega
  · exact locksOut_of address spotless ⟨small, ne_of_gt positive⟩

/-- **When the lockout counts.** The next login after too many failures is locked out, for
every sequence of logins, exactly where the limits are such that nothing has to be
counted. -/
theorem lockout_counts_iff (env : Env) : LockoutCounts env ↔ env.lockout.Uncounted := by
  refine ⟨fun counts => ?_, fun uncounted => uncounted.counts⟩
  rcases lt_trichotomy env.lockout.lockoutWindow 0 with negative | zero | positive
  · exact .inl negative
  · -- nobody is ever locked out, so a limit that nobody has to reach fails
    have open' : ¬ env.lockout.Closed := fun both => both.2 zero
    have never := not_locksOut_stranger open'
    refine .inr (.inl ⟨zero, ?_, ?_⟩)
    · by_contra small
      exact never (counts {} [] stranger none rfl rfl (.inl (not_lt.mp small)))
    · by_contra small
      exact never (counts {} [] stranger none rfl rfl (.inr (not_lt.mp small)))
  · refine .inr (.inr ⟨positive, ?_⟩)
    by_contra large
    have open' : ¬ env.lockout.Closed := fun both => large both.1
    -- as many failures as the limit asks for
    obtain ⟨rejections, after⟩ := rejected_strangers open' env.lockout.maxFailuresPerAccount.toNat
    refine not_locksOut_stranger open' ?_
    rw [← after]
    refine counts {} _ stranger none rfl rfl (.inl ?_)
    have recent : stranger.Recent env stranger := ⟨by omega, le_refl _⟩
    rw [failuresOfAccount, rejections, countP_replicate, if_pos (by simp [recent])]
    exact Int.self_le_toNat _

end Counting

/-- Five wrong passwords within five microseconds. -/
def guesses : List LoginCall :=
  (List.range 5).map fun n =>
    ⟨n, n, ⟨"lina@souq.dev", "letmein", none, some "10.0.0.1", none, none⟩⟩

def sixth : LoginCall :=
  ⟨5, 5, ⟨"lina@souq.dev", "correct horse", none, some "10.0.0.1", none, none⟩⟩

def lina : Database where
  users := [{ id := 7, lowerEmail := "lina@souq.dev", roles := ["CUSTOMER"] }]
  credentials := [{ userId := 7, passwordHash := "correct horse" }]

/-- With the limits the service is configured with, five failures are followed by a login
that succeeds. -/
theorem sixth_guess_succeeds : ¬ LockoutCounts sampleEnv := by
  intro counts
  obtain ⟨retryAfter, locked⟩ := counts lina guesses sixth (some 0x0a000001) rfl rfl
    (.inl (by decide)) fun raw hash => raw == hash
  have succeeds : sixth.outcome sampleEnv (afterLogins sampleEnv guesses lina) =
      .ok ⟨⟨"jwt", 5, 900, 7, ["CUSTOMER"]⟩, 7, ["CUSTOMER"]⟩ := by decide
  cases locked.symm.trans succeeds

end Souq.Identity
