import Mathlib.Algebra.Group.Nat.Defs
import Mathlib.Data.Fintype.Defs
import Mathlib.Logic.Function.Basic
import Souq.Lib.Base64
import Souq.Lib.Transition

/-!
# The key cache of the verifier

`JWKSVerifier.keyFor` reads the cached keys under a shared lock, and where that is not
enough it takes a second lock, reads them again and fetches the document. Any number of
calls run at the same time, from one lock operation to the next in any order. Nanoseconds
are counted.
-/

namespace Souq.Orders

open Transition

/-- An entry of the document; the numbers are texts in base64, as bytes. -/
structure Jwk where
  kty : String
  kid : String
  use : String
  n : List UInt8
  e : List UInt8

/-- `rsa.PublicKey`. -/
structure PublicKey where
  n : Nat
  e : Nat

/-- Keys by their names; the first of a name counts. -/
abbrev PublicKeys := List (String × PublicKey)

def bigEndian (bytes : List UInt8) : Nat := bytes.foldl (fun n byte => n * 256 + byte.toNat) 0

/-- No key where the source reports an error. -/
def parseRSAJWK (k : Jwk) : Option PublicKey := do
  let nBytes ← Base64.decode k.n
  let eBytes ← Base64.decode k.e
  if nBytes.length < 256 then none
  else if eBytes.length > 8 then none
  else if bigEndian eBytes < 3 ∨ bigEndian eBytes > 2 ^ 31 then none
  else some ⟨bigEndian nBytes, bigEndian eBytes⟩

/-- The keys that `fetch` takes from a document. -/
def usableKeys (doc : List Jwk) : PublicKeys :=
  doc.foldl (fun parsed k =>
    if k.kty ≠ "RSA" ∨ (k.use ≠ "" ∧ k.use ≠ "sig") then parsed
    else
      match parseRSAJWK k with
      | none => parsed
      | some pub => (k.kid, pub) :: parsed) []

def keysTtl : Nat := 5 * 60 * 1000000000

/-- Where a call of `keyFor` is, by its next lock operation. -/
inductive KeyPhase where
  /-- `v.mu.RLock()` -/
  | called
  /-- `v.mu.RUnlock()` -/
  | looking (key : Option PublicKey) (fresh : Bool)
  /-- `v.refresh.Lock()` -/
  | missed
  /-- `v.mu.RLock()` -/
  | refreshing
  /-- `v.mu.RUnlock()` -/
  | rechecking (key : Option PublicKey) (fresh : Bool)
  /-- The request is in flight; the key is the one that was cached. -/
  | fetching (key : Option PublicKey)
  /-- `v.mu.Lock()` -/
  | fetched
  /-- `v.mu.Unlock()` -/
  | storing
  /-- `v.mu.RLock()` -/
  | stored
  /-- `v.mu.RUnlock()` -/
  | reading (key : Option PublicKey)
  /-- `v.refresh.Unlock()` -/
  | leaving (key : Option PublicKey) (failed : Bool)

/-- The call is between `v.mu.RLock()` and `v.mu.RUnlock()`. -/
def KeyPhase.shares : KeyPhase → Bool
  | .looking _ _ | .rechecking _ _ | .reading _ => true
  | _ => false

/-- The call is between `v.mu.Lock()` and `v.mu.Unlock()`. -/
def KeyPhase.writes : KeyPhase → Bool
  | .storing => true
  | _ => false

/-- The call is between `v.refresh.Lock()` and `v.refresh.Unlock()`. -/
def KeyPhase.refreshes : KeyPhase → Bool
  | .called | .looking _ _ | .missed => false
  | _ => true

/-- The request of the call was sent, and its keys are not stored yet. -/
def KeyPhase.sends : KeyPhase → Bool
  | .fetching _ | .fetched => true
  | _ => false

/-- The next lock operation waits for another call in that phase. -/
def KeyPhase.waitsFor : KeyPhase → KeyPhase → Bool
  | .called, other | .refreshing, other | .stored, other => other.writes
  | .fetched, other => other.shares || other.writes
  | .missed, other => other.refreshes
  | _, _ => false

/-- A call, and how far it has come. -/
structure KeyCall where
  kid : String
  phase : KeyPhase := .called

/-- What a call has returned: no key stands for `ErrKeyUnknown`. -/
structure KeyReply where
  kid : String
  key : Option PublicKey
  /-- Its own fetch has failed. -/
  failed : Bool

/-- The verifier, the calls in progress, and what has happened so far. -/
structure JWKSVerifier (ι : Type) where
  keys : PublicKeys
  fetchedAt : Option Nat
  clock : Nat
  calls : ι → Option KeyCall := fun _ => none
  /-- Requests sent, requests that have failed, and refreshes of the cache. -/
  sent : Nat := 0
  failed : Nat := 0
  refreshed : Nat := 0
  replies : List KeyReply := []

/-- One step of a run. -/
inductive JwksTurn (ι : Type) where
  | keyFor (i : ι) (kid : String)
  /-- The next lock operation of a call. -/
  | run (i : ι)
  /-- The request of a call is answered, or it fails. -/
  | answer (i : ι) (ok : Bool)
  | tick (nanos : Nat)

namespace JWKSVerifier

variable {ι : Type}

def fresh (s : JWKSVerifier ι) : Bool := s.fetchedAt.any fun at' => decide (s.clock < at' + keysTtl)

def later (s : JWKSVerifier ι) (nanos : Nat) : JWKSVerifier ι :=
  { s with clock := s.clock + nanos }

/-- Another call has a lock that the call needs next. -/
def Blocked (s : JWKSVerifier ι) (i : ι) (phase : KeyPhase) : Prop :=
  ∃ j, j ≠ i ∧ ∃ other ∈ s.calls j, phase.waitsFor other.phase = true

variable [DecidableEq ι]

instance [Fintype ι] (s : JWKSVerifier ι) (i : ι) (phase : KeyPhase) :
    Decidable (s.Blocked i phase) :=
  inferInstanceAs (Decidable (∃ j, j ≠ i ∧ ∃ other ∈ s.calls j, phase.waitsFor other.phase = true))

def move (s : JWKSVerifier ι) (i : ι) (kid : String) (phase : KeyPhase) : JWKSVerifier ι :=
  { s with calls := Function.update s.calls i (some { kid, phase }) }

def reply (s : JWKSVerifier ι) (i : ι) (kid : String) (key : Option PublicKey) (failed : Bool) :
    JWKSVerifier ι :=
  { s with
    calls := Function.update s.calls i none
    replies := s.replies ++ [{ kid, key, failed }] }

/-- One lock operation of a call, and what it does until the next. -/
def proceed (doc : List Jwk) (s : JWKSVerifier ι) (i : ι) (kid : String) :
    KeyPhase → JWKSVerifier ι
  | .called => s.move i kid (.looking (s.keys.lookup kid) s.fresh)
  | .looking key fresh =>
    if key.isSome && fresh then s.reply i kid key false else s.move i kid .missed
  | .missed => s.move i kid .refreshing
  | .refreshing => s.move i kid (.rechecking (s.keys.lookup kid) s.fresh)
  | .rechecking key fresh =>
    if key.isSome && fresh then s.move i kid (.leaving key false)
    else { s.move i kid (.fetching key) with sent := s.sent + 1 }
  | .fetching _ => s
  | .fetched =>
    { s.move i kid .storing with
      keys := usableKeys doc
      fetchedAt := some s.clock
      refreshed := s.refreshed + 1 }
  | .storing => s.move i kid .stored
  | .stored => s.move i kid (.reading (s.keys.lookup kid))
  | .reading key => s.move i kid (.leaving key false)
  | .leaving key failed => s.reply i kid key failed

/-- A lock operation, an answer or the time. -/
def step [Fintype ι] (doc : List Jwk) (s : JWKSVerifier ι) : JwksTurn ι → JWKSVerifier ι
  | .keyFor i kid =>
    match s.calls i with
    | none => s.move i kid .called
    | some _ => s
  | .run i =>
    match s.calls i with
    | none => s
    | some call => if s.Blocked i call.phase then s else s.proceed doc i call.kid call.phase
  | .answer i ok =>
    match s.calls i with
    | some ⟨kid, .fetching key⟩ =>
      -- a document without usable keys is a failure as well
      if ok && !(usableKeys doc).isEmpty then s.move i kid .fetched
      else { s.move i kid (.leaving key true) with failed := s.failed + 1 }
    | _ => s
  | .tick nanos => s.later nanos

/-- A verifier that no call uses, with what it has cached. -/
def idle (keys : PublicKeys) (fetchedAt : Option Nat) (clock : Nat) : JWKSVerifier ι :=
  { keys, fetchedAt, clock }

end JWKSVerifier

end Souq.Orders
