import Mathlib.Data.Fintype.Defs
import Mathlib.Data.Fintype.Sets
import Mathlib.Logic.Function.Basic
import Souq.Basic
import Souq.Lib.Transition

/-!
# Replacing the signing key

`KmsSigningKeyProvider` of the identity service publishes the keys that the other
services verify access tokens with, and `JWKSVerifier` of the order and payment services
caches them for five minutes. A pod publishes the key that it was started with; the
map of retired keys is empty, whatever was started before. Seconds are counted.
-/

namespace Souq.Identity.Rotation

open Transition Function List

/-- What pods and verifiers agree on. -/
structure Realm where
  issuer : String
  audience : List String
  /-- The audience that verifiers expect. -/
  expected : String
  expected_mem : expected = "" ∨ expected ∈ audience
  /-- The name of a key: digits of the SHA-256 of its id. -/
  kidFor : ID → ID
  kidFor_injective : Function.Injective kidFor

/-- A decoded access token, with the key that has signed it. -/
structure Token where
  alg : String
  kid : Option ID
  signedBy : ID
  sub : String
  iss : String
  aud : List String
  iat : Nat
  exp : Nat
  deriving DecidableEq

/-- A pod of the identity service, by the ids of its keys. -/
structure Pod where
  current : ID
  retired : List ID

def Pod.startedWith (kmsKeyId : ID) : Pod := ⟨kmsKeyId, []⟩

abbrev Jwks := List (ID × ID)

def jwks (realm : Realm) (pod : Pod) : Jwks :=
  (realm.kidFor pod.current, pod.current) :: pod.retired.map fun key => (realm.kidFor key, key)

def tokenTtl : Nat := 900

def mint (realm : Realm) (pod : Pod) (user : String) (now : Nat) : Token where
  alg := "RS256"
  kid := some (realm.kidFor pod.current)
  signedBy := pod.current
  sub := "usr_" ++ user
  iss := realm.issuer
  aud := realm.audience
  iat := now
  exp := now + tokenTtl

def cacheTtl : Nat := 300

def leeway : Nat := 60

/-- Why a token is refused. -/
inductive VerifyError where
  | malformed | algorithm | keyUnknown | signature | expired | notYetValid | issuer | audience
  deriving DecidableEq

/-- The keys that a verifier has cached. -/
structure Verifier where
  keys : Jwks := []
  fetchedAt : Option Nat := none

def Verifier.fresh (v : Verifier) (now : Nat) : Bool :=
  v.fetchedAt.any fun at' => decide (now < at' + cacheTtl)

/-- The key of a name, from the cache or from the answer to a fetch; no answer is a fetch
that has failed. -/
def keyFor (v : Verifier) (kid : ID) (now : Nat) (answer : Option Jwks) :
    Except VerifyError ID × Verifier :=
  match v.keys.lookup kid, v.fresh now with
  | some key, true => (.ok key, v)
  | cached, _ =>
    match answer with
    | none =>
      match cached with
      | some key => (.ok key, v)
      | none => (.error .keyUnknown, v)
    | some keys =>
      match keys.lookup kid with
      | some key => (.ok key, { keys := keys, fetchedAt := some now })
      | none => (.error .keyUnknown, { keys := keys, fetchedAt := some now })

def checkClaims (realm : Realm) (key : ID) (token : Token) (now : Nat) :
    Except VerifyError Token :=
  if key ≠ token.signedBy then .error .signature
  else if token.exp = 0 then .error .malformed
  else if token.exp + leeway < now then .error .expired
  else if 0 < token.iat ∧ now + leeway < token.iat then .error .notYetValid
  else if realm.issuer ≠ "" ∧ token.iss ≠ realm.issuer then .error .issuer
  else if token.sub = "" then .error .malformed
  else if realm.expected ≠ "" ∧ realm.expected ∉ token.aud then .error .audience
  else .ok token

def verify (realm : Realm) (v : Verifier) (token : Token) (now : Nat) (answer : Option Jwks) :
    Except VerifyError Token × Verifier :=
  if token.alg ≠ "RS256" then (.error .algorithm, v)
  else
    match token.kid with
    | none => (.error .malformed, v)
    | some kid =>
      match keyFor v kid now answer with
      | (.error e, after) => (.error e, after)
      | (.ok key, after) => (checkClaims realm key token now, after)

/-- The pods, the verifiers and the tokens minted so far. -/
structure World (π ν : Type) where
  pods : π → Option Pod
  verifiers : ν → Verifier := fun _ => {}
  clock : Nat := 0
  minted : List Token := []

/-- One step of a run. -/
inductive Turn (π ν : Type) where
  | stop (p : π)
  /-- A pod is started, or restarted, with a key. -/
  | start (p : π) (kmsKeyId : ID)
  | mint (p : π) (user : String)
  /-- A token is verified; a pod answers if there is a fetch, or the fetch fails. -/
  | verify (v : ν) (token : Token) (answers : Option π)
  /-- A verifier is restarted. -/
  | reset (v : ν)
  | tick (seconds : Nat)

section World

variable {π ν : Type} [DecidableEq π] [DecidableEq ν] (realm : Realm)

def World.step (s : World π ν) : Turn π ν → World π ν
  | .stop p => { s with pods := update s.pods p none }
  | .start p kmsKeyId => { s with pods := update s.pods p (some (.startedWith kmsKeyId)) }
  | .mint p user =>
    let tokens := ((s.pods p).map fun pod => Rotation.mint realm pod user s.clock).toList
    { s with minted := s.minted ++ tokens }
  | .verify v token answers =>
    let answer := (answers.bind s.pods).map (jwks realm)
    let after := (Rotation.verify realm (s.verifiers v) token s.clock answer).2
    { s with verifiers := update s.verifiers v after }
  | .reset v => { s with verifiers := update s.verifiers v {} }
  | .tick seconds => { s with clock := s.clock + seconds }

/-- The runs from pods that sign with the keys given. -/
def rolling (π ν : Type) [DecidableEq π] [DecidableEq ν] (pods : π → Option ID) :
    System (World π ν) (Turn π ν) :=
  .ofFunction { pods := fun p => (pods p).map Pod.startedWith } (World.step realm)

end World

section Properties

variable {π ν : Type} (realm : Realm)

/-- Every token that has not expired is accepted by every verifier, whichever pod answers
its fetch. -/
def World.Accepts (s : World π ν) : Prop :=
  ∀ token ∈ s.minted, s.clock ≤ token.exp → ∀ v p pod, s.pods p = some pod →
    (verify realm (s.verifiers v) token s.clock (some (jwks realm pod))).1 = .ok token

/-- The pods have at most two keys: one change is in progress. -/
def World.OneChange (s : World π ν) : Prop :=
  ∃ old new, ∀ p pod, s.pods p = some pod → pod.current = old ∨ pod.current = new

/-- A pod is started with a key while a token of another key has not expired, or mints
while another pod has another key. -/
def World.Hasty (s : World π ν) : Turn π ν → Prop
  | .start _ kmsKeyId => ∃ token ∈ s.minted, s.clock ≤ token.exp ∧ token.signedBy ≠ kmsKeyId
  | .mint p _ => ∃ q, ∃ pod ∈ (s.pods p).toList, ∃ other ∈ (s.pods q).toList,
      other.current ≠ pod.current
  | _ => False

instance [Fintype π] (s : World π ν) (turn : Turn π ν) : Decidable (s.Hasty turn) :=
  match turn with
  | .start _ kmsKeyId =>
    inferInstanceAs (Decidable (∃ token ∈ s.minted, s.clock ≤ token.exp ∧
      token.signedBy ≠ kmsKeyId))
  | .mint p _ =>
    inferInstanceAs (Decidable (∃ q, ∃ pod ∈ (s.pods p).toList, ∃ other ∈ (s.pods q).toList,
      other.current ≠ pod.current))
  | .stop _ | .verify _ _ _ | .reset _ | .tick _ => .isFalse id

end Properties

section Verification

variable {realm : Realm} {v : Verifier} {token : Token} {now : Nat} {answer : Option Jwks}

def Named (realm : Realm) (keys : Jwks) : Prop := ∀ entry ∈ keys, entry.1 = realm.kidFor entry.2

theorem named_jwks (pod : Pod) : Named realm (jwks realm pod) := by
  intro entry member
  rcases mem_cons.mp member with rfl | retired
  · rfl
  · obtain ⟨key, -, rfl⟩ := mem_map.mp retired
    rfl

theorem Named.lookup {keys : Jwks} (named : Named realm keys) {key found : ID}
    (there : keys.lookup (realm.kidFor key) = some found) : found = key := by
  obtain ⟨before, after, rfl, -⟩ := lookup_eq_some_iff.mp there
  have name := named (realm.kidFor key, found) (by simp)
  exact (realm.kidFor_injective name).symm

theorem lookup_jwks (pod : Pod) :
    (jwks realm pod).lookup (realm.kidFor pod.current) = some pod.current := by
  simp [jwks]

/-- The token is one of the realm's. -/
structure Token.Minted (realm : Realm) (token : Token) (now : Nat) : Prop where
  alg : token.alg = "RS256"
  kid : token.kid = some (realm.kidFor token.signedBy)
  sub : token.sub ≠ ""
  iss : token.iss = realm.issuer
  aud : token.aud = realm.audience
  iat : token.iat ≤ now
  exp : token.exp = token.iat + tokenTtl

theorem minted_mint (pod : Pod) (user : String) (now : Nat) :
    (mint realm pod user now).Minted realm now :=
  ⟨rfl, rfl, by simp [mint], rfl, rfl, le_refl now, rfl⟩

theorem Token.Minted.later (minted : token.Minted realm now) (seconds : Nat) :
    token.Minted realm (now + seconds) :=
  { minted with iat := le_trans minted.iat (Nat.le_add_right now seconds) }

theorem checkClaims_minted (minted : token.Minted realm now) (live : now ≤ token.exp) :
    checkClaims realm token.signedBy token now = .ok token := by
  have issued : token.exp ≠ 0 := by
    rw [minted.exp]
    exact Nat.succ_ne_zero _
  have unexpired : ¬ token.exp + leeway < now := by omega
  have valid : ¬ (0 < token.iat ∧ now + leeway < token.iat) := by
    have := minted.iat
    omega
  have expected : ¬ (realm.expected ≠ "" ∧ realm.expected ∉ token.aud) := by
    rintro ⟨some, missing⟩
    rw [minted.aud] at missing
    rcases realm.expected_mem with none | member
    · exact some none
    · exact missing member
  simp [checkClaims, issued, unexpired, valid, minted.iss, minted.sub, expected]

theorem keyFor_named (named : Named realm v.keys) (now : Nat) (pod : Pod) :
    (keyFor v (realm.kidFor pod.current) now (some (jwks realm pod))).1 = .ok pod.current := by
  unfold keyFor
  cases cached : v.keys.lookup (realm.kidFor pod.current) with
  | none => simp only [lookup_jwks]
  | some key =>
    cases v.fresh now with
    | true => simp only [named.lookup cached]
    | false => simp only [lookup_jwks]

theorem verify_accepts (named : Named realm v.keys) (minted : token.Minted realm now)
    (live : now ≤ token.exp) {pod : Pod} (signer : pod.current = token.signedBy) :
    (verify realm v token now (some (jwks realm pod))).1 = .ok token := by
  have found := keyFor_named named now pod
  unfold verify
  simp only [minted.alg, minted.kid, ← signer, ne_eq, not_true_eq_false, ↓reduceIte]
  cases answered : keyFor v (realm.kidFor pod.current) now (some (jwks realm pod)) with
  | mk outcome after =>
    rw [answered] at found
    cases found
    simp only [signer]
    exact checkClaims_minted minted live

theorem named_verify (named : Named realm v.keys) (answered : ∀ keys, answer = some keys →
    Named realm keys) : Named realm (verify realm v token now answer).2.keys := by
  have looked : ∀ kid, Named realm (keyFor v kid now answer).2.keys := by
    intro kid
    unfold keyFor
    split
    · exact named
    · cases answer with
      | none =>
        simp only
        split
        · exact named
        · exact named
      | some keys =>
        simp only
        split
        · exact answered keys rfl
        · exact answered keys rfl
  unfold verify
  split
  · exact named
  · cases token.kid with
    | none => exact named
    | some kid =>
      have after := looked kid
      cases outcome : keyFor v kid now answer with
      | mk result cache =>
        rw [outcome] at after
        simp only [outcome]
        cases result with
        | error e => exact after
        | ok key => exact after

end Verification

/-- What holds throughout a run: the tokens are as pods mint them, caches hold keys by
their names, and no pod has another key than a token that has not expired. -/
structure Steady {π ν : Type} (realm : Realm) (s : World π ν) : Prop where
  minted : ∀ token ∈ s.minted, token.Minted realm s.clock
  named : ∀ v, Named realm (s.verifiers v).keys
  signer : ∀ token ∈ s.minted, s.clock ≤ token.exp → ∀ p pod, s.pods p = some pod →
    pod.current = token.signedBy

section Steps

variable {π ν : Type} [DecidableEq π] [DecidableEq ν] {realm : Realm} {s : World π ν}

omit [DecidableEq π] in
theorem Steady.named_update (steady : Steady realm s) {v : ν} {after : Verifier}
    (own : Named realm after.keys) (u : ν) :
    Named realm (update s.verifiers v after u).keys := by
  by_cases same : u = v
  · subst same
    rw [update_self]
    exact own
  · rw [update_of_ne same]
    exact steady.named u

/-- **One turn without haste.** -/
theorem Steady.step (steady : Steady realm s) (turn : Turn π ν) (patient : ¬ s.Hasty turn) :
    Steady realm (s.step realm turn) := by
  cases turn with
  | stop p =>
    refine ⟨steady.minted, steady.named, fun token member live q pod found => ?_⟩
    change update s.pods p none q = some pod at found
    by_cases same : q = p
    · rw [same, update_self] at found
      cases found
    · rw [update_of_ne same] at found
      exact steady.signer token member live q pod found
  | start p kmsKeyId =>
    refine ⟨steady.minted, steady.named, fun token member live q pod found => ?_⟩
    change update s.pods p (some (.startedWith kmsKeyId)) q = some pod at found
    by_cases same : q = p
    · rw [same, update_self] at found
      cases found
      by_contra other
      exact patient ⟨token, member, live, fun equal => other equal.symm⟩
    · rw [update_of_ne same] at found
      exact steady.signer token member live q pod found
  | mint p user =>
    cases found : s.pods p with
    | none =>
      have same : s.step realm (.mint p user) = s := by simp [World.step, found]
      rw [same]
      exact steady
    | some pod =>
      have same : s.step realm (.mint p user) =
          { s with minted := s.minted ++ [Rotation.mint realm pod user s.clock] } := by
        simp [World.step, found]
      rw [same]
      refine ⟨fun token member => ?_, steady.named, fun token member live q other there => ?_⟩
      · rcases mem_append.mp member with old | new
        · exact steady.minted token old
        · rw [mem_singleton.mp new]
          exact minted_mint pod user s.clock
      · rcases mem_append.mp member with old | new
        · exact steady.signer token old live q other there
        · rw [mem_singleton.mp new]
          change other.current = pod.current
          by_contra different
          exact patient ⟨q, pod, by simp [found], other, by simpa using there, different⟩
  | verify v token answers =>
    refine ⟨steady.minted, steady.named_update (named_verify (steady.named v) ?_), steady.signer⟩
    intro keys answered
    obtain ⟨pod, -, rfl⟩ := Option.map_eq_some_iff.mp answered
    exact named_jwks pod
  | reset v =>
    refine ⟨steady.minted, steady.named_update (fun entry none => ?_), steady.signer⟩
    cases none
  | tick seconds =>
    refine ⟨fun token member => (steady.minted token member).later seconds, steady.named,
      fun token member live => ?_⟩
    exact steady.signer token member (le_trans (Nat.le_add_right s.clock seconds) live)

theorem steady_reachable {pods : π → Option ID}
    (reached : ((rolling realm π ν pods).restrict fun s turn => ¬ s.Hasty turn).Reachable s) :
    Steady realm s := by
  refine reached.invariant ?_ fun s turn after steady taken => ?_
  · rintro _ rfl
    refine ⟨fun token none => ?_, fun v entry none => ?_, fun token none => ?_⟩
    · cases none
    · cases none
    · cases none
  · obtain ⟨patient, rfl⟩ := taken
    exact steady.step turn patient

end Steps

/-- **Replacing the key rejects no live token**, in every run in which no pod is started
with a key while a token of another key has not expired, and no pod mints while another
pod has another key. -/
theorem rotation_accepts {π ν : Type} [DecidableEq π] [DecidableEq ν] (realm : Realm)
    (pods : π → Option ID) (s : World π ν)
    (reached : ((rolling realm π ν pods).restrict fun s turn => ¬ s.Hasty turn).Reachable s) :
    s.Accepts realm := by
  have steady := steady_reachable reached
  intro token member live v p pod found
  exact verify_accepts (steady.named v) (steady.minted token member) live
    (steady.signer token member live p pod found)

def souq : Realm where
  issuer := "https://auth.souq.dev"
  audience := ["souq-api"]
  expected := "souq-api"
  expected_mem := .inr mem_cons_self
  kidFor := id
  kidFor_injective := injective_id

/-- Both pods have key 1; one mints, and when the token has expired both are restarted
with key 2, and one mints again. -/
def patientRollout : List (Turn Bool Unit) :=
  [.mint true "lina", .tick 901, .start true 2, .start false 2, .mint false "lina"]

theorem patientRollout_accepts :
    (patientRollout.foldl (World.step souq)
      { pods := fun _ : Bool => some (Pod.startedWith 1) }).Accepts souq :=
  rotation_accepts souq (fun _ => some 1) _ (System.Reachable.foldl_restrict (by decide))

/-- One pod mints, and the other one is restarted with a new key. -/
def rollout : List (Turn Bool Unit) := [.mint true "lina", .start false 2]

/-- A verifier that fetches from the new pod does not find the key of the token. -/
theorem rollout_rejects :
    ¬ ∀ s, ((rolling souq Bool Unit fun _ => some 1).restrict
      fun s turn => (s.step souq turn).OneChange).Reachable s → s.Accepts souq := by
  intro always
  have reached : ((rolling souq Bool Unit fun _ => some 1).restrict
      fun s turn => (s.step souq turn).OneChange).Reachable
      (rollout.foldl (World.step souq) { pods := fun _ => some (.startedWith 1) }) := by
    refine System.Reachable.foldl_restrict ⟨⟨1, 2, ?_⟩, ⟨1, 2, ?_⟩, trivial⟩
    · rintro p pod ⟨⟩
      exact .inl rfl
    · intro p pod found
      cases p with
      | false =>
        cases found
        exact .inr rfl
      | true =>
        cases found
        exact .inl rfl
  have accepted := always _ reached (mint souq (.startedWith 1) "lina" 0) (by decide) (by decide) ()
    false (.startedWith 2) rfl
  revert accepted
  decide

end Souq.Identity.Rotation
