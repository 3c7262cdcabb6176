import Souq.Orders.Jwks

/-!
# A stampede costs one fetch

Whoever waits for the refresh lock finds the keys of the document when it gets it, and
needs no request of its own: unless the document does not have the key that it was asked
for. Then it sends another.
-/

namespace Souq.Orders

open Transition Function List JWKSVerifier Nat

def Names (doc : List Jwk) (kid : String) : Prop := ((usableKeys doc).lookup kid).isSome = true

instance (doc : List Jwk) (kid : String) : Decidable (Names doc kid) :=
  inferInstanceAs (Decidable (_ = true))

namespace JWKSVerifier

variable {ι : Type}

/-- The cache was refreshed within its time to live, also after the turn. -/
def Live (s : JWKSVerifier ι) : JwksTurn ι → Prop
  | .tick nanos => 0 < s.refreshed → (s.later nanos).fresh = true
  | _ => True

instance (s : JWKSVerifier ι) : (turn : JwksTurn ι) → Decidable (s.Live turn)
  | .tick _ => inferInstanceAs (Decidable (_ → _))
  | .keyFor _ _ | .run _ | .answer _ _ => .isTrue trivial

/-- All requests have failed but one, and once the cache is refreshed each call whose own
request has not failed has returned a key exactly if the document has one; a key is the
one of the document or the one cached before. -/
structure Collapses (doc : List Jwk) (cached : PublicKeys) (s : JWKSVerifier ι) : Prop where
  one : s.sent ≤ s.failed + 1
  answers : 0 < s.refreshed → ∀ r ∈ s.replies, r.failed = false →
    (r.key.isSome = true ↔ Names doc r.kid)
  genuine : ∀ r ∈ s.replies, r.key = none ∨ r.key = cached.lookup r.kid ∨
    r.key = (usableKeys doc).lookup r.kid

/-- A call has the refresh lock, after a refresh, and looks for a key that the document
does not have; or the cache is refreshed, and a call was served with such a key before. -/
def Escapes (doc : List Jwk) (s : JWKSVerifier ι) : JwksTurn ι → Prop
  | .run i => ∃ call, s.calls i = some call ∧ ¬ s.Blocked i call.phase ∧
      ((∃ key fresh, call.phase = .rechecking key fresh) ∧ 0 < s.refreshed ∧ ¬ Names doc call.kid ∨
        call.phase = .fetched ∧ ∃ r ∈ s.replies, r.failed = false ∧ ¬ Names doc r.kid)
  | _ => False

/-- What is known of a call, by its next lock operation. -/
def Fits (s : JWKSVerifier ι) (kid : String) : KeyPhase → Prop
  | .looking key fresh | .rechecking key fresh =>
    key = s.keys.lookup kid ∧ (0 < s.refreshed → fresh = true)
  | .fetching key => key = s.keys.lookup kid
  | .storing | .stored => 0 < s.refreshed
  | .reading key => key = s.keys.lookup kid ∧ 0 < s.refreshed
  | .leaving key failed =>
    key = s.keys.lookup kid ∧ (failed = false → 0 < s.refreshed ∨ key.isSome = true)
  | .called | .missed | .refreshing | .fetched => True

def owed (call : Option KeyCall) : Nat := if call.any fun c => c.phase.sends then 1 else 0

/-- One refresh at a time, and the keys it brought. -/
structure Sound (doc : List Jwk) (cached : PublicKeys) (s : JWKSVerifier ι) : Prop where
  old : s.refreshed = 0 → s.keys = cached
  new : 0 < s.refreshed → s.keys = usableKeys doc ∧ s.fresh = true
  fits : ∀ i call, s.calls i = some call → s.Fits call.kid call.phase
  alone : ∀ i j call other, s.calls i = some call → s.calls j = some other →
    call.phase.refreshes = true → other.phase.refreshes = true → i = j
  held : ∀ i call, s.calls i = some call → call.phase.refreshes = true →
    s.sent = s.failed + s.refreshed + owed (some call)
  free : (∀ i call, s.calls i = some call → call.phase.refreshes = false) →
    s.sent = s.failed + s.refreshed
  genuine : ∀ r ∈ s.replies, r.key = none ∨ r.key = cached.lookup r.kid ∨
    r.key = (usableKeys doc).lookup r.kid
  served : s.refreshed = 0 → ∀ r ∈ s.replies, r.failed = false → r.key.isSome = true

section Steps

variable {doc : List Jwk} {cached : PublicKeys} {s : JWKSVerifier ι}

theorem sends_refreshes {phase : KeyPhase} (sends : phase.sends = true) : phase.refreshes =
    true := by
  cases phase <;> first | rfl | cases sends

theorem fresh_of_now (now : s.fetchedAt = some s.clock) : s.fresh = true := by
  have positive : 0 < keysTtl := by decide
  rw [fresh, now, Option.any_some]
  exact decide_eq_true (Nat.lt_add_of_pos_right positive)

theorem Sound.lookup (sound : s.Sound doc cached) (kid : String) :
    (s.keys.lookup kid = cached.lookup kid ∨ s.keys.lookup kid = (usableKeys doc).lookup kid) ∧
      (0 < s.refreshed → s.keys.lookup kid = (usableKeys doc).lookup kid) := by
  rcases Nat.eq_zero_or_pos s.refreshed with never | once
  · rw [sound.old never]
    exact ⟨.inl rfl, fun once => (lt_irrefl 0 (never ▸ once)).elim⟩
  · rw [(sound.new once).1]
    exact ⟨.inr rfl, fun _ => rfl⟩

variable {i : ι} {after : Option KeyCall}

theorem Sound.others (sound : s.Sound doc cached) {call : KeyCall} (active : s.calls i = some call)
    (holds : call.phase.refreshes = true) :
    ∀ j other, j ≠ i → s.calls j = some other →
      other.phase.refreshes = false ∧ s.Fits other.kid other.phase := by
  intro j other apart there
  refine ⟨?_, sound.fits j other there⟩
  cases holds' : other.phase.refreshes with
  | false => rfl
  | true => exact (apart (sound.alone j i other call there active holds' holds)).elim

theorem Sound.replied (sound : s.Sound doc cached) {kid : String} {key : Option PublicKey}
    {failed : Bool} (found : key = s.keys.lookup kid)
    (served : failed = false → 0 < s.refreshed ∨ key.isSome = true) :
    (∀ r ∈ s.replies ++ [⟨kid, key, failed⟩], r.key = none ∨ r.key = cached.lookup r.kid ∨
        r.key = (usableKeys doc).lookup r.kid) ∧
      (s.refreshed = 0 → ∀ r ∈ s.replies ++ [⟨kid, key, failed⟩], r.failed = false →
        r.key.isSome = true) := by
  constructor
  · intro r member
    rcases mem_append.mp member with earlier | last
    · exact sound.genuine r earlier
    · rw [mem_singleton.mp last]
      exact .inr (found ▸ (sound.lookup kid).1)
  · intro never r member ok
    rcases mem_append.mp member with earlier | last
    · exact sound.served never r earlier ok
    · rw [mem_singleton.mp last] at ok ⊢
      exact (served ok).resolve_left (never ▸ Nat.lt_irrefl 0)

variable [DecidableEq ι]

theorem Sound.outside (sound : s.Sound doc cached)
    (before : ∀ call, s.calls i = some call → call.phase.refreshes = false)
    (outside : ∀ call, after = some call → call.phase.refreshes = false ∧ s.Fits call.kid
      call.phase) :
    Sound doc cached { s with calls := update s.calls i after } where
  old := sound.old
  new := sound.new
  genuine := sound.genuine
  served := sound.served
  fits := by
    intro j call active
    by_cases same : j = i
    · subst same
      exact (outside call (by simpa using active)).2
    · exact sound.fits j call (by simpa [same] using active)
  alone := by
    intro j k call other active active' holds holds'
    have elsewhere : ∀ l c, update s.calls i after l = some c →
        c.phase.refreshes = true → s.calls l = some c := by
      intro l c there refreshes
      by_cases same : l = i
      · subst same
        cases refreshes.symm.trans (outside c (by simpa using there)).1
      · simpa [same] using there
    exact sound.alone j k call other (elsewhere j call active holds)
      (elsewhere k other active' holds') holds holds'
  held := by
    intro j call active holds
    by_cases same : j = i
    · subst same
      cases holds.symm.trans (outside call (by simpa using active)).1
    · exact sound.held j call (by simpa [same] using active) holds
  free := by
    intro nobody
    refine sound.free fun j call active => ?_
    by_cases same : j = i
    · subst same
      exact before call active
    · exact nobody j call (by simpa [same] using active)

theorem Sound.inside {t : JWKSVerifier ι}
    (others : ∀ j call, j ≠ i → s.calls j = some call → call.phase.refreshes = false ∧ t.Fits
      call.kid call.phase) (calls : t.calls = update s.calls i after)
    (here : ∀ call, after = some call → t.Fits call.kid call.phase)
    (tally : t.sent = t.failed + t.refreshed + owed after) (old : t.refreshed = 0 → t.keys = cached)
    (new : 0 < t.refreshed → t.keys = usableKeys doc ∧ t.fresh = true)
    (genuine : ∀ r ∈ t.replies, r.key = none ∨ r.key = cached.lookup r.kid ∨ r.key = (usableKeys
      doc).lookup r.kid)
    (served : t.refreshed = 0 → ∀ r ∈ t.replies, r.failed = false → r.key.isSome = true) :
    t.Sound doc cached where
  old := old
  new := new
  genuine := genuine
  served := served
  fits := by
    intro j call active
    rw [calls] at active
    by_cases same : j = i
    · subst same
      exact here call (by simpa using active)
    · exact (others j call same (by simpa [same] using active)).2
  alone := by
    have only : ∀ j call, t.calls j = some call → call.phase.refreshes = true → j = i := by
      intro j call active holds
      by_contra other
      rw [calls, update_of_ne other] at active
      cases holds.symm.trans (others j call other active).1
    intro j k call other active active' holds holds'
    exact (only j call active holds).trans (only k other active' holds').symm
  held := by
    intro j call active holds
    rw [calls] at active
    by_cases same : j = i
    · subst same
      obtain rfl : after = some call := by simpa using active
      exact tally
    · rw [update_of_ne same] at active
      cases holds.symm.trans (others j call same active).1
  free := by
    intro nobody
    have none : owed after = 0 := by
      cases after with
      | none => rfl
      | some call =>
        have holds := nobody i call (by rw [calls, update_self])
        cases sends : call.phase.sends with
        | true => cases holds.symm.trans (sends_refreshes sends)
        | false => simp [owed, sends]
    rw [tally, none, add_zero]

theorem Sound.keep (sound : s.Sound doc cached)
    (others : ∀ j call, j ≠ i → s.calls j = some call → call.phase.refreshes = false)
    (here : ∀ call, after = some call → s.Fits call.kid call.phase)
    (tally : s.sent = s.failed + s.refreshed + owed after) :
    Sound doc cached { s with calls := update s.calls i after } :=
  Sound.inside (s := s)
  (fun j call apart there => ⟨others j call apart there, sound.fits j call there⟩)
    rfl here tally sound.old sound.new sound.genuine sound.served

/-- What a turn can do. -/
inductive Turns (doc : List Jwk) (s : JWKSVerifier ι) : JwksTurn ι → JWKSVerifier ι → Prop where
  | idle {turn : JwksTurn ι} (quiet : ¬ s.Escapes doc turn) : Turns doc s turn s
  | keyFor {i : ι} {kid : String} (unused : s.calls i = none) :
      Turns doc s (.keyFor i kid) (s.move i kid .called)
  | run {i : ι} {kid : String} {phase : KeyPhase} (active : s.calls i = some ⟨kid, phase⟩)
      (free : ¬ s.Blocked i phase) : Turns doc s (.run i) (s.proceed doc i kid phase)
  | answered {i : ι} {kid : String} {key : Option PublicKey} {ok : Bool}
      (active : s.calls i = some ⟨kid, .fetching key⟩) :
      Turns doc s (.answer i ok) (s.move i kid .fetched)
  | failed {i : ι} {kid : String} {key : Option PublicKey} {ok : Bool}
      (active : s.calls i = some ⟨kid, .fetching key⟩) :
      Turns doc s (.answer i ok) { s.move i kid (.leaving key true) with failed := s.failed + 1 }
  | tick {nanos : Nat} : Turns doc s (.tick nanos) (s.later nanos)

theorem turns_step [Fintype ι] (doc : List Jwk) (s : JWKSVerifier ι) (turn : JwksTurn ι) :
    Turns doc s turn (s.step doc turn) := by
  cases turn with
  | keyFor i kid =>
    simp only [step]
    cases unused : s.calls i with
    | none => exact .keyFor unused
    | some _ => exact .idle id
  | tick nanos => exact .tick
  | answer i ok =>
    simp only [step]
    split
    · rename_i active
      split
      · exact .answered active
      · exact .failed active
    · exact .idle id
  | run i =>
    simp only [step]
    cases active : s.calls i with
    | none =>
      refine .idle fun ⟨call, active', _⟩ => ?_
      cases active.symm.trans active'
    | some call =>
      by_cases blocked : s.Blocked i call.phase
      · simp only [blocked, ↓reduceIte]
        refine .idle fun ⟨call', active', free, _⟩ => ?_
        cases active.symm.trans active'
        exact free blocked
      · simp only [blocked, ↓reduceIte]
        exact .run active blocked

/-- **One lock operation.** -/
theorem Sound.proceed (sound : s.Sound doc cached) {i : ι} {kid : String} {phase : KeyPhase}
    (active : s.calls i = some ⟨kid, phase⟩) (free : ¬ s.Blocked i phase) :
    (s.proceed doc i kid phase).Sound doc cached := by
  have fits := sound.fits i _ active
  have mine : ∀ {call}, s.calls i = some call → call = ⟨kid, phase⟩ := fun there =>
    Option.some.inj (there.symm.trans active)
  -- the lock is had, and no request is under way
  have tally : phase.refreshes = true → phase.sends = false → s.sent = s.failed + s.refreshed := by
    intro holds still
    have owes := sound.held i _ active holds
    simpa [owed, still] using owes
  have others : phase.refreshes = true → ∀ j call, j ≠ i → s.calls j = some call →
      call.phase.refreshes = false := fun holds j call apart there =>
    (sound.others active holds j call apart there).1
  cases phase with
  | called =>
    refine sound.outside (fun call there => by rw [mine there]; rfl) ?_
    rintro call ⟨⟩
    exact ⟨rfl, rfl, fun once => (sound.new once).2⟩
  | looking key fresh =>
    have before : ∀ call, s.calls i = some call → call.phase.refreshes = false := by
      intro call there
      rw [mine there]
      rfl
    simp only [JWKSVerifier.proceed]
    split
    · rename_i hit
      obtain ⟨some, -⟩ := Bool.and_eq_true_iff.mp hit
      obtain ⟨genuine, served⟩ := @Sound.replied _ _ _ _ sound _ _ false fits.1 fun _ => .inr some
      have ended : Sound doc cached { s with calls := update s.calls i none } :=
        sound.outside before nofun
      exact { ended with genuine, served }
    · refine sound.outside before ?_
      rintro call ⟨⟩
      exact ⟨rfl, trivial⟩
  | missed =>
    have nobody : ∀ j call, j ≠ i → s.calls j = some call → call.phase.refreshes = false := by
      intro j call apart there
      cases holds : call.phase.refreshes with
      | false => rfl
      | true => exact (free ⟨j, apart, call, there, holds⟩).elim
    refine sound.keep nobody (fun call same => by cases same; trivial) ?_
    refine sound.free fun j call there => ?_
    by_cases same : j = i
    · subst same
      rw [mine there]
      rfl
    · exact nobody j call same there
  | refreshing =>
    refine sound.keep (others rfl) ?_ (tally rfl rfl)
    rintro call ⟨⟩
    exact ⟨rfl, fun once => (sound.new once).2⟩
  | rechecking key fresh =>
    simp only [JWKSVerifier.proceed]
    split
    · rename_i hit
      refine sound.keep (others rfl) ?_ (tally rfl rfl)
      rintro call ⟨⟩
      exact ⟨fits.1, fun _ => .inr (Bool.and_eq_true_iff.mp hit).1⟩
    · refine Sound.inside (sound.others active rfl) rfl ?_ ?_ sound.old sound.new sound.genuine
        sound.served
      · rintro call ⟨⟩
        exact fits.1
      · exact congrArg (· + 1) (tally rfl rfl)
  | fetching key => exact sound
  | fetched =>
    have owes := sound.held i _ active rfl
    refine Sound.inside (fun j call apart there => ?_) rfl ?_ ?_ nofun (fun _ => ⟨rfl, ?_⟩)
      sound.genuine nofun
    · -- the others read nothing while the keys are stored
      obtain ⟨outside, -⟩ := sound.others active rfl j call apart there
      refine ⟨outside, ?_⟩
      obtain ⟨other, phase'⟩ := call
      cases phase' with
      | called => trivial
      | missed => trivial
      | looking key fresh => exact (free ⟨j, apart, _, there, rfl⟩).elim
      | _ => cases outside
    · rintro call ⟨⟩
      exact succ_pos _
    · rw [show owed (some ⟨kid, .fetched⟩) = 1 from rfl] at owes
      exact owes
    · exact fresh_of_now rfl
  | storing =>
    refine sound.keep (others rfl) ?_ (tally rfl rfl)
    rintro call ⟨⟩
    exact fits
  | stored =>
    refine sound.keep (others rfl) ?_ (tally rfl rfl)
    rintro call ⟨⟩
    exact ⟨rfl, fits⟩
  | reading key =>
    refine sound.keep (others rfl) ?_ (tally rfl rfl)
    rintro call ⟨⟩
    exact ⟨fits.1, fun _ => .inl fits.2⟩
  | leaving key failed =>
    obtain ⟨genuine, served⟩ := sound.replied fits.1 fits.2
    have ended : Sound doc cached { s with calls := update s.calls i none } :=
      sound.keep (others rfl) nofun (tally rfl rfl)
    exact { ended with genuine, served }

/-- **One turn.** -/
theorem Sound.step [Fintype ι] (sound : s.Sound doc cached) {turn : JwksTurn ι}
    (live : s.Live turn) : (s.step doc turn).Sound doc cached := by
  have turns := turns_step doc s turn
  generalize s.step doc turn = after at turns
  cases turns with
  | idle => exact sound
  | @keyFor i kid unused =>
    refine sound.outside (fun call there => by cases unused.symm.trans there) ?_
    rintro call ⟨⟩
    exact ⟨rfl, trivial⟩
  | run active free => exact sound.proceed active free
  | @answered i kid key ok active =>
    have owes := sound.held i _ active rfl
    refine sound.keep (fun j call apart there => (sound.others active rfl j call apart there).1)
      ?_ owes
    rintro call ⟨⟩
    trivial
  | @failed i kid key ok active =>
    have owes := sound.held i _ active rfl
    refine Sound.inside (sound.others active rfl) rfl ?_ ?_ sound.old sound.new sound.genuine
      sound.served
    · rintro call ⟨⟩
      exact ⟨sound.fits i _ active, nofun⟩
    · change s.sent = s.failed + 1 + s.refreshed + 0
      rw [show owed (some ⟨kid, .fetching key⟩) = 1 from rfl] at owes
      omega
  | tick => exact { sound with new := fun once => ⟨(sound.new once).1, live once⟩ }

omit [DecidableEq ι] in
theorem Sound.answered (sound : s.Sound doc cached) (holds : s.Collapses doc cached)
    {kid : String} {key : Option PublicKey} {failed : Bool} (found : key = s.keys.lookup kid) :
    0 < s.refreshed → ∀ r ∈ s.replies ++ [⟨kid, key, failed⟩], r.failed = false →
      (r.key.isSome = true ↔ Names doc r.kid) := by
  intro once r member ok
  rcases mem_append.mp member with earlier | last
  · exact holds.answers once r earlier ok
  · rw [mem_singleton.mp last, found, (sound.lookup kid).2 once]
    rfl

/-- **One lock operation loses the law** exactly if a call escapes. -/
theorem Sound.proceed_iff (sound : s.Sound doc cached) (holds : s.Collapses doc cached)
    {kid : String} {phase : KeyPhase} (active : s.calls i = some ⟨kid, phase⟩)
    (free : ¬ s.Blocked i phase) :
    (s.proceed doc i kid phase).Collapses doc cached ↔ ¬ s.Escapes doc (.run i) := by
  have after := sound.proceed active free
  have fits := sound.fits i _ active
  have escapes : s.Escapes doc (.run i) ↔
      (∃ key fresh, phase = .rechecking key fresh) ∧ 0 < s.refreshed ∧ ¬ Names doc kid ∨
        phase = .fetched ∧ ∃ r ∈ s.replies, r.failed = false ∧ ¬ Names doc r.kid := by
    constructor
    · intro ⟨call, active', _, escapes⟩
      cases active.symm.trans active'
      exact escapes
    · intro escapes
      exact ⟨_, active, free, escapes⟩
  rw [escapes]
  cases phase with
  | rechecking key fresh =>
    simp only [JWKSVerifier.proceed] at after ⊢
    split
    · rename_i hit
      -- after a refresh the key is the one of the document
      refine iff_of_true ⟨holds.one, holds.answers, holds.genuine⟩ ?_
      rintro (⟨-, once, unnamed⟩ | ⟨same, -⟩)
      · refine unnamed ?_
        rw [Names, ← (sound.lookup kid).2 once, ← fits.1]
        exact (Bool.and_eq_true_iff.mp hit).1
      · cases same
    · rename_i misses
      have sent : s.sent = s.failed + s.refreshed := sound.held i _ active rfl
      constructor
      · rintro second (⟨-, once, -⟩ | ⟨same, -⟩)
        · have more : s.sent + 1 ≤ s.failed + 1 := second.one
          omega
        · cases same
      · intro stays
        have never : s.refreshed = 0 := by
          by_contra some
          have once := Nat.pos_of_ne_zero some
          refine stays (.inl ⟨⟨key, fresh, rfl⟩, once, fun named => misses ?_⟩)
          rw [Names, ← (sound.lookup kid).2 once, ← fits.1] at named
          rw [named, fits.2 once]
          rfl
        refine ⟨?_, holds.answers, holds.genuine⟩
        change s.sent + 1 ≤ s.failed + 1
        omega
  | fetched =>
    have sent : s.sent = s.failed + s.refreshed + 1 := sound.held i _ active rfl
    have never : s.refreshed = 0 := by
      have most := holds.one
      omega
    constructor
    · rintro answers (⟨⟨key, fresh, same⟩, -⟩ | ⟨-, r, member, ok, unnamed⟩)
      · cases same
      · exact unnamed ((answers.answers (succ_pos _) r member ok).mp
          (sound.served never r member ok))
    · intro stays
      refine ⟨holds.one, fun _ r member ok => ?_, holds.genuine⟩
      refine iff_of_true (sound.served never r member ok) ?_
      by_contra unnamed
      exact stays (.inr ⟨rfl, r, member, ok, unnamed⟩)
  | looking key fresh =>
    refine iff_of_true ⟨?_, ?_, after.genuine⟩ ?_
    · simp only [JWKSVerifier.proceed]
      split <;> exact holds.one
    · simp only [JWKSVerifier.proceed]
      split
      · exact sound.answered holds fits.1
      · exact holds.answers
    · rintro (⟨⟨_, _, same⟩, -⟩ | ⟨same, -⟩) <;> cases same
  | leaving key failed =>
    refine iff_of_true ⟨holds.one, sound.answered holds fits.1, after.genuine⟩ ?_
    rintro (⟨⟨_, _, same⟩, -⟩ | ⟨same, -⟩) <;> cases same
  | _ =>
    refine iff_of_true ⟨holds.one, holds.answers, holds.genuine⟩ ?_
    rintro (⟨⟨_, _, same⟩, -⟩ | ⟨same, -⟩) <;> cases same

/-- **One turn loses the law** exactly if a call escapes. -/
theorem Sound.collapses_iff [Fintype ι] (sound : s.Sound doc cached)
    (holds : s.Collapses doc cached) (turn : JwksTurn ι) :
    (s.step doc turn).Collapses doc cached ↔ ¬ s.Escapes doc turn := by
  have turns := turns_step doc s turn
  generalize s.step doc turn = after at turns
  cases turns with
  | idle quiet => exact iff_of_true holds quiet
  | keyFor => exact iff_of_true ⟨holds.one, holds.answers, holds.genuine⟩ id
  | run active free => exact sound.proceed_iff holds active free
  | answered => exact iff_of_true ⟨holds.one, holds.answers, holds.genuine⟩ id
  | failed =>
    exact iff_of_true ⟨le_trans holds.one (le_succ _), holds.answers, holds.genuine⟩ id
  | tick => exact iff_of_true ⟨holds.one, holds.answers, holds.genuine⟩ id

end Steps

theorem sound_idle (doc : List Jwk) (cached : PublicKeys) (fetchedAt : Option Nat) (clock : Nat) :
    (idle cached fetchedAt clock : JWKSVerifier ι).Sound doc cached where
  old := fun _ => rfl
  new := nofun
  fits := nofun
  alone := nofun
  held := nofun
  free := fun _ => rfl
  genuine := nofun
  served := fun _ => nofun

end JWKSVerifier

/-- **A stampede costs one fetch**, and all are answered from the document, throughout a run
exactly if no call of the run escapes. -/
theorem collapses_throughout_iff {ι : Type} [Fintype ι] [DecidableEq ι] (doc : List Jwk)
    (cached : PublicKeys) (fetchedAt : Option Nat) (clock : Nat) (turns : List (JwksTurn ι))
    (live : System.Permits (step doc) JWKSVerifier.Live turns (.idle cached fetchedAt clock)) :
    (∀ front, front <+: turns → (front.foldl (step doc)
        (.idle cached fetchedAt clock)).Collapses doc cached) ↔
      ∀ front turn, front ++ [turn] <+: turns → ¬ (front.foldl (step doc)
        (.idle cached fetchedAt clock)).Escapes doc turn := by
  refine System.Permits.throughout_iff ?_ (fun s turn reached _ holds => ?_) live
  · exact ⟨zero_le _, nofun, nofun⟩
  · have sound : s.Sound doc cached := by
      refine System.Reachable.invariant ?_ ?_ reached
      · rintro s rfl
        exact sound_idle doc cached fetchedAt clock
      · rintro s turn t sound ⟨live, rfl⟩
        exact sound.step live
    exact sound.collapses_iff holds turn

def currentKeys : List Jwk :=
  [{ kty := "RSA", kid := "current", use := "sig",
     n := Base64.encode (List.replicate 256 1), e := Base64.encode [1, 0, 1] }]

/-- Two calls ask for the key of the document: the second finds it in the cache. -/
theorem current_collapses_iff :
    let turns : List (JwksTurn Bool) :=
      [.keyFor true "current", .keyFor false "current", .run true, .run true, .run false,
        .run false, .run true, .run true, .run true, .answer true true, .run true, .tick 1000,
        .run true, .run true, .run true, .run true, .run false, .run false, .run false, .run false]
    (∀ front, front <+: turns → (front.foldl (step currentKeys)
        (.idle [] none 0)).Collapses currentKeys []) ↔
      ∀ front turn, front ++ [turn] <+: turns → ¬ (front.foldl (step currentKeys)
        (.idle [] none 0)).Escapes currentKeys turn :=
  collapses_throughout_iff currentKeys [] none 0 _ (by decide +kernel)

/-- Two calls ask for a key that nobody has: one after the other sends a request. -/
def forgedTurns : List (JwksTurn Bool) :=
  [.keyFor true "forged", .keyFor false "forged", .run true, .run true, .run false, .run false,
    .run true, .run true, .run true, .answer true true, .run true, .run true, .run true, .run true,
    .run true, .run false, .run false, .run false]

theorem forged_refetches : ¬ ∀ front, front <+: forgedTurns →
    (front.foldl (step currentKeys) (.idle [] none 0)).Collapses currentKeys [] := by
  have twice : (forgedTurns.foldl (step currentKeys) (.idle [] none 0)).sent = 2 ∧
      (forgedTurns.foldl (step currentKeys) (.idle [] none 0)).failed = 0 := by
    decide +kernel
  intro holds
  have one := (holds forgedTurns (prefix_refl _)).one
  rw [twice.1, twice.2] at one
  exact absurd one (by decide)

end Souq.Orders
