import Mathlib.Algebra.GroupWithZero.Nat
import Souq.Identity.Enrolment

/-!
# Recovery codes

A recovery code has ten characters. The two requests that could carry one are
validated to carry six digits, and no spelling of the one is the other.
-/

namespace Souq.Identity

open Transact Transition List Program Service String

/-- The alphabet of the codes, without what is easily mistaken. -/
def recoveryAlphabet : List Char := "23456789ABCDEFGHJKLMNPQRSTUVWXYZ".toList

/-- The code of ten draws, with a separator in the middle. -/
def randomRecoveryCode (draws : Fin 10 → Fin 32) : String :=
  ofList ((List.finRange 10).flatMap fun i =>
    (if i = 5 then ['-'] else []) ++ [recoveryAlphabet.getD (draws i) '2'])

/-- Without hyphens and blanks, in capitals. -/
def normalise (toUpperCase : String → String) (code : Option String) : String :=
  code.elim "" fun code =>
    toUpperCase (ofList ((code.toList.filter (· ≠ '-')).filter (· ≠ ' ')))

/-- The codes are drawn, and they are hashed without what is cosmetic. No case mapping
changes a text of digits and capital letters. -/
structure Coding (env : Env) (toUpperCase : String → String) (sha256 : String → ID) : Prop where
  drawn : ∀ mint n, n < 10 → ∃ draws, env.recoveryCode mint n = randomRecoveryCode draws
  hashed : ∀ code, env.codeHash code = sha256 (normalise toUpperCase (some code))
  upper : ∀ text : String, (∀ c ∈ text.toList, c.isDigit = true ∨ c.isUpper = true) →
    toUpperCase text = text

/-- `^[0-9]{6}$`, on a text or nothing. -/
def sixDigits (text : Option String) : Bool :=
  text.all fun text => decide (text.toList.length = 6) && text.toList.all Char.isDigit

/-- No more UTF-16 units than this, on a text or nothing. -/
def sizeAtMost (most : Nat) (text : Option String) : Bool :=
  text.all fun text =>
    decide ((text.toList.map fun c => if c.toNat < 0x10000 then 1 else 2).sum ≤ most)

/-- A text with a character that `trim` leaves. -/
def notBlank (text : Option String) : Bool :=
  text.any fun text => text.toList.any fun c => decide (0x20 < c.toNat)

/-- The body that carries a code. -/
structure CodeRequest where
  code : Option String

def CodeRequest.valid (body : CodeRequest) : Bool := sixDigits body.code

/-- The body of a login. -/
structure LoginRequest where
  email : Option String
  password : Option String
  mfaCode : Option String
  deviceFingerprint : Option String

/-- The constraints on a login, given the one on addresses. -/
def LoginRequest.valid (isEmail : String → Bool) (body : LoginRequest) : Bool :=
  (notBlank body.email && body.email.all isEmail && sizeAtMost 254 body.email) &&
    (notBlank body.password && sizeAtMost 1024 body.password) &&
    sixDigits body.mfaCode && sizeAtMost 128 body.deviceFingerprint

section Controllers

variable (env : Env) (isEmail : String → Bool)

/-- `MfaController.disable`: nothing is run for a request that is not valid. -/
def disableRequest (userId : ID) (body : CodeRequest) (db : Database) :
    Option (Except Failure Unit) :=
  if body.valid then some ((disable env userId (body.code.getD "")).run db).1 else none

/-- `AuthController.login`. -/
def loginRequest (mint : ID) (body : LoginRequest) (ipAddress userAgent : Option String)
    (db : Database) : Option (Except Failure AuthResult) :=
  if body.valid isEmail then
    some ((login env mint ⟨body.email.getD "", body.password.getD "", body.mfaCode, ipAddress,
      userAgent, body.deviceFingerprint⟩).run db).1
  else none

end Controllers

section Shapes

variable {toUpperCase : String → String}

theorem recoveryAlphabet_plain (k : Fin 32) : (recoveryAlphabet.getD k '2').isDigit = true ∨
    (recoveryAlphabet.getD k '2').isUpper = true := by
  revert k
  decide

theorem plain_ne {c : Char} (plain : c.isDigit = true ∨ c.isUpper = true) : c ≠ '-' ∧ c ≠ ' ' := by
  constructor
  · rintro rfl
    revert plain
    decide
  · rintro rfl
    revert plain
    decide

theorem bare_recoveryCode (draws : Fin 10 → Fin 32) :
    ((randomRecoveryCode draws).toList.filter (· ≠ '-')).filter (· ≠ ' ') =
      (List.finRange 10).map fun i => recoveryAlphabet.getD (draws i) '2' := by
  have each : ∀ i : Fin 10, ((((if i = 5 then ['-'] else []) ++
      [recoveryAlphabet.getD (draws i) '2']).filter (· ≠ '-')).filter (· ≠ ' ')) =
        [recoveryAlphabet.getD (draws i) '2'] := by
    intro i
    obtain ⟨dash, blank⟩ := plain_ne (recoveryAlphabet_plain (draws i))
    generalize recoveryAlphabet.getD (draws i) '2' = c at dash blank
    split <;> simp [dash, blank]
  rw [randomRecoveryCode, toList_ofList, filter_flatMap, filter_flatMap]
  simp only [each]
  exact map_eq_flatMap.symm

theorem normalise_digits (upper : ∀ text : String,
      (∀ c ∈ text.toList, c.isDigit = true ∨ c.isUpper = true) → toUpperCase text = text)
    {text : String} (digits : sixDigits (some text) = true) :
    (normalise toUpperCase (some text)).toList.length = 6 := by
  simp only [sixDigits, Option.all_some, Bool.and_eq_true, decide_eq_true_eq, all_eq_true] at digits
  obtain ⟨six, all⟩ := digits
  have bare : (text.toList.filter (· ≠ '-')).filter (· ≠ ' ') = text.toList := by
    rw [filter_filter, filter_eq_self]
    intro c member
    obtain ⟨dash, blank⟩ := plain_ne (.inl (all c member))
    simp [dash, blank]
  simp only [normalise, Option.elim_some]
  rw [bare, ofList_toList, upper text fun c member => .inl (all c member), six]

theorem normalise_recoveryCode (upper : ∀ text : String,
      (∀ c ∈ text.toList, c.isDigit = true ∨ c.isUpper = true) → toUpperCase text = text)
    (draws : Fin 10 → Fin 32) :
    (normalise toUpperCase (some (randomRecoveryCode draws))).toList.length = 10 := by
  simp only [normalise, Option.elim_some]
  rw [bare_recoveryCode, upper]
  · simp
  · intro c member
    rw [toList_ofList] at member
    obtain ⟨i, -, rfl⟩ := mem_map.mp member
    exact recoveryAlphabet_plain (draws i)

end Shapes

/-- A user with a second factor holds a code that `confirm` has returned, unused. -/
structure Holder {ι : Type} [Fintype ι] [DecidableEq ι] (env : Env) (accounts : Database)
    (s : Service ι) (userId : ID) (code : String) : Prop where
  reached : (serving ι env accounts).Reachable s
  enabled : ∃ u, s.tx.db.user userId = some u ∧ u.mfaEnabled = true
  returned : ∃ mint totp db codes after,
    (confirm env mint userId totp).run db = (.ok codes, after) ∧ code ∈ codes
  unused : (s.tx.db.unspent userId (env.codeHash code)).isSome = true

section Recovery

variable {env : Env} {toUpperCase : String → String} {sha256 : String → ID}

theorem mem_confirm {mint userId : ID} {totp code : String} {codes : List String}
    {db after : Database} (ran : (confirm env mint userId totp).run db = (.ok codes, after))
    (member : code ∈ codes) : ∃ n, n < 10 ∧ code = env.recoveryCode mint n := by
  unfold confirm at ran
  obtain ⟨pending, _, -, reads⟩ := run_bind_ok.mp ran
  rcases pending with _ | ⟨secret, since⟩
  · cases reads
  obtain ⟨now, _, -, fresh⟩ := run_bind_ok.mp reads
  split at fresh
  · obtain ⟨_, _, -, fails⟩ := run_bind_ok.mp fresh
    cases fails
  obtain ⟨verifiedAt, _, -, verifies⟩ := run_bind_ok.mp fresh
  split at verifies
  · cases verifies
  obtain ⟨admitted, _, -, issues⟩ := run_bind_ok.mp verifies
  split at issues
  · unfold issueRecoveryCodes at issues
    obtain ⟨_, _, -, inserts⟩ := run_bind_ok.mp issues
    obtain ⟨_, _, -, ends⟩ := run_bind_ok.mp inserts
    cases ends
    obtain ⟨n, drawn, rfl⟩ := mem_map.mp member
    exact ⟨n, mem_range.mp drawn, rfl⟩
  · cases issues

/-- **Recovery codes never get a user back in.** Whatever the spelling, neither a login nor
a request to turn the second factor off gets past validation with it. -/
theorem recovery_code_refused {ι : Type} [Fintype ι] [DecidableEq ι] {accounts : Database}
    {s : Service ι} {userId : ID} {code spelling : String} (coding : Coding env toUpperCase sha256)
    (holder : Holder env accounts s userId code)
    (same : normalise toUpperCase (some spelling) = normalise toUpperCase (some code)) :
    disableRequest env userId ⟨some spelling⟩ s.tx.db = none ∧
      ∀ isEmail mint (body : LoginRequest) ipAddress userAgent, body.mfaCode = some spelling →
        loginRequest env isEmail mint body ipAddress userAgent s.tx.db = none := by
  have invalid : sixDigits (some spelling) = false := by
    obtain ⟨mint, totp, db, codes, after, ran, member⟩ := holder.returned
    obtain ⟨n, small, rfl⟩ := mem_confirm ran member
    obtain ⟨draws, drawn⟩ := coding.drawn mint n small
    rw [drawn] at same
    by_contra digits
    have six := normalise_digits coding.upper (eq_true_of_ne_false digits)
    rw [same, normalise_recoveryCode coding.upper] at six
    cases six
  refine ⟨if_neg ?_, fun isEmail mint body ipAddress userAgent carries => if_neg ?_⟩
  · simp [CodeRequest.valid, invalid]
  · simp [LoginRequest.valid, carries, invalid]

end Recovery

/-- The case mapping of the letters without accents. -/
def asciiUpper (text : String) : String := ofList (text.toList.map Char.toUpper)

theorem asciiUpper_plain (text : String)
    (plain : ∀ c ∈ text.toList, c.isDigit = true ∨ c.isUpper = true) : asciiUpper text = text := by
  have same : text.toList.map Char.toUpper = text.toList := by
    refine (map_congr_left fun c member => ?_).trans (map_id _)
    have range : c.isUpper = decide (c.val ≥ 'A'.val ∧ c.val ≤ 'Z'.val) := rfl
    have plain := plain c member
    simp only [Char.isDigit, range, Bool.and_eq_true, decide_eq_true_eq] at plain
    unfold Char.toUpper
    split
    · grind
    · rfl
  rw [asciiUpper, same, ofList_toList]

def inTurn (n : Nat) (i : Fin 10) : Fin 32 := Fin.ofNat 32 (n + i)

def initialOf (text : String) : ID := (text.toList.headD ' ').toNat

/-- Codes that run through the alphabet, and hashes that tell them apart. -/
def recoveryEnv : Env :=
  { sampleEnv with
    recoveryCode := fun _ n => randomRecoveryCode (inTurn n)
    codeHash := fun code => initialOf (normalise asciiUpper (some code)) }

theorem recoveryEnv_coding : Coding recoveryEnv asciiUpper initialOf where
  drawn := fun _ n _ => ⟨inTurn n, rfl⟩
  hashed := fun code => by simp only [recoveryEnv]
  upper := asciiUpper_plain

def pendingUser : Database :=
  { users := [{ id := 7, mfaPendingSecret := some 0, mfaPendingSince := some 0 }] }

theorem recovery_holder : Holder recoveryEnv unenrolled
    (enrolment.foldl (step recoveryEnv) (.idle unenrolled)) 7 "23456-789AB" where
  reached := System.Reachable.foldl enrolment
  enabled := ⟨⟨7, "", true, ["CUSTOMER"], true, some 0, none, none⟩, by decide +kernel, rfl⟩
  returned := ⟨1, "123456", pendingUser, (List.range 10).map (recoveryEnv.recoveryCode 1), _,
    Prod.ext (by decide +kernel) rfl, by decide +kernel⟩
  unused := by decide +kernel

theorem recovery_spelling :
    normalise asciiUpper (some "23456 789ab") = normalise asciiUpper (some "23456-789AB") := by
  decide +kernel

/-- A code that has just been returned is refused. -/
theorem recovery_refused :
    Holder recoveryEnv unenrolled
        (enrolment.foldl (step recoveryEnv) (.idle unenrolled)) 7 "23456-789AB" ∧
      normalise asciiUpper (some "23456 789ab") = normalise asciiUpper (some "23456-789AB") ∧
      disableRequest recoveryEnv 7 ⟨some "23456 789ab"⟩
        (enrolment.foldl (step recoveryEnv) (.idle unenrolled)).tx.db = none := by
  refine ⟨recovery_holder, recovery_spelling, if_neg ?_⟩
  decide +kernel

theorem recovery_code_refused_sample :
    disableRequest recoveryEnv 7 ⟨some "23456 789ab"⟩
        (enrolment.foldl (step recoveryEnv) (.idle unenrolled)).tx.db = none ∧
      ∀ isEmail mint (body : LoginRequest) ipAddress userAgent, body.mfaCode = some "23456 789ab" →
          loginRequest recoveryEnv isEmail mint body ipAddress userAgent
            (enrolment.foldl (step recoveryEnv) (.idle unenrolled)).tx.db = none :=
  recovery_code_refused recoveryEnv_coding recovery_holder recovery_spelling

end Souq.Identity
