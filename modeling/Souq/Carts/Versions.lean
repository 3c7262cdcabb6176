import Souq.Carts.Redis

/-!
# Optimistic concurrency of the cart service

A call reads a cart, checks the caller's version and writes under it, and the
script refuses a version other than the stored one. Two things escape it: the
script writes over an absent key whatever the version, and `merge` does not look
at the script's answer. In a run without either, every write replaces exactly the
cart its call had read, and a version of a cart stands for one content only.
-/

namespace Souq.Carts

open Transact Transition Function List Command State

/-- The version of a stored cart; a missing key counts as version 0. -/
def versionOf (current : Option Entry) : Nat := current.elim 0 Entry.version

/-- Every script a call ran found the version the call expected. -/
def Matched (trace : List Executed) : Prop :=
  ∀ x ∈ trace, ∀ cartId version payload, x.command = .evalsha cartId version payload →
    versionOf (x.world.carts cartId) = version

/-- Nothing is lost or resurrected: a call that reports success wrote over the
version it expected, every write replaced exactly what its call had read, so
nothing where the call had read nothing, and a version of a cart was never given
to two contents. -/
structure Kept {ι : Type} (s : State ι) : Prop where
  reported : ∀ e ∈ s.ended, ∀ response, e.result = .ok response → Matched e.trace
  replaced : ∀ w ∈ s.swaps, w.replaced = w.seen
  versions : ∀ w ∈ s.swaps, ∀ w' ∈ s.swaps, w.cartId = w'.cartId →
    w.written.version = w'.written.version → w.written = w'.written

def Request.merging : Request → Bool
  | .merge _ _ => true
  | _ => false

/-- The script is not run on an absent key under a version other than 0, and
`merge` does not run it on another version than it read. -/
def timely {ι : Type} (s : State ι) : Event ι → Bool
  | .run i =>
    match s.sessions i with
    | some ⟨request, .call (.evalsha cartId version _) _, _, _, _⟩ =>
      match s.world.carts cartId with
      | none => version == 0
      | some entry => !request.merging || entry.version == version
    | _ => true
  | _ => true

/-- The call throws, whatever the answers. -/
inductive Rejects : Call Response → Prop where
  | fail {error : CartError} : Rejects (.fail error)
  | call {q : Command} {rest : q.Answer → Call Response}
      (after : ∀ answer, Rejects (rest answer)) : Rejects (.call q rest)

/-- Every script of the call writes a cart under its own id, either one the call
has drawn or one it has read, under the version it read. Only `merge` goes on
when the script refuses. -/
inductive Careful (merging : Bool) : (ID → Option Entry) → List ID → Call Response → Prop where
  | done {known : ID → Option Entry} {fresh : List ID} {response : Response} :
      Careful merging known fresh (.done response)
  | fail {known : ID → Option Entry} {fresh : List ID} {error : CartError} :
      Careful merging known fresh (.fail error)
  | load {known : ID → Option Entry} {fresh : List ID} {cartId : ID}
      {rest : Option Entry → Call Response}
      (after : ∀ answer : Option Entry, (∀ e, answer = some e → e.data.id = cartId) →
        Careful merging (Function.update known cartId (answer.or (known cartId))) fresh
          (rest answer)) :
      Careful merging known fresh (.call (.hmget cartId) rest)
  | insert {known : ID → Option Entry} {fresh : List ID} {cartId : ID} {payload : StoredCart}
      {rest : Int → Call Response} (own : payload.id = cartId) (unread : known cartId = none)
      (drawn : cartId ∈ fresh)
      (after : ∀ answer, Careful merging known (fresh.filter (· ≠ cartId)) (rest answer)) :
      Careful merging known fresh (.call (.evalsha cartId 0 payload) rest)
  | update {known : ID → Option Entry} {fresh : List ID} {cartId : ID} {payload : StoredCart}
      {rest : Int → Call Response} {e : Entry} (own : payload.id = cartId)
      (read : known cartId = some e) (refused : merging = true ∨ Rejects (rest (-1)))
      (after : ∀ answer, Careful merging known fresh (rest answer)) :
      Careful merging known fresh (.call (.evalsha cartId e.version payload) rest)
  | draw {known : ID → Option Entry} {fresh : List ID} {rest : ID → Call Response}
      (after : ∀ id, Careful merging known (id :: fresh) (rest id)) :
      Careful merging known fresh (.call .ulid rest)
  | other {known : ID → Option Entry} {fresh : List ID} {q : Command}
      {rest : q.Answer → Call Response} (quiet : ∀ w, q.writes w = [] ∨ (∃ u c, q = .set u c) ∨
        ∃ c, q = .del c) (silent : ∀ c, q ≠ .hmget c) (still : ∀ c v p, q ≠ .evalsha c v p)
      (after : ∀ answer, Careful merging known fresh (rest answer)) :
      Careful merging known fresh (.call q rest)

section Calls

variable {merging : Bool} {known : ID → Option Entry} {fresh : List ID}

theorem Careful.now {rest : Time → Call Response}
    (after : ∀ now, Careful merging known fresh (rest now)) :
    Careful merging known fresh (.call .now rest) :=
  .other (fun _ => .inl rfl) nofun nofun after

theorem Careful.getVariant {sku : ID} {rest : Option Variant → Call Response}
    (after : ∀ variant, Careful merging known fresh (rest variant)) :
    Careful merging known fresh (.call (.getVariant sku) rest) :=
  .other (fun _ => .inl rfl) nofun nofun after

theorem Careful.get {userId : ID} {rest : Option ID → Call Response}
    (after : ∀ found, Careful merging known fresh (rest found)) :
    Careful merging known fresh (.call (.get userId) rest) :=
  .other (fun _ => .inl rfl) nofun nofun after

variable {cartId : ID}

theorem Careful.set {userId : ID} {rest : Unit → Call Response}
    (after : ∀ answer, Careful merging known fresh (rest answer)) :
    Careful merging known fresh (.call (.set userId cartId) rest) :=
  .other (fun _ => .inr (.inl ⟨_, _, rfl⟩)) nofun nofun after

theorem Careful.del {rest : Unit → Call Response}
    (after : ∀ answer, Careful merging known fresh (rest answer)) :
    Careful merging known fresh (.call (.del cartId) rest) :=
  .other (fun _ => .inr (.inr ⟨_, rfl⟩)) nofun nofun after

theorem careful_create (unread : ∀ id, known id = none) (userId : Option ID)
    (currency countryCode : String) :
    Careful merging known fresh (create userId currency countryCode) := by
  refine .draw fun id => .now fun now => .insert rfl (unread id) mem_cons_self ?_
  intro answer
  cases userId with
  | none => exact .done
  | some userId => exact .set fun _ => .done

theorem careful_store {e : Entry} {cart : StoredCart} (own : cart.id = cartId)
    (read : known cartId = some e) :
    Careful merging known fresh (store cartId e.version cart) := by
  refine .update own read (.inr ?_) fun answer => ?_
  · exact .call fun answer => .fail
  · change Careful merging known fresh (if answer = -1 then _ else _)
    split
    · exact .load fun _ _ => .fail
    · exact .done

theorem careful_loadExpected {expectedVersion : Nat} {body : Entry → Call Response}
    (after : ∀ e : Entry, e.data.id = cartId → Careful merging (update known cartId (some
      e)) fresh (body e)) :
    Careful merging known fresh (loadExpected cartId expectedVersion >>= body) := by
  refine .load fun answer own => ?_
  cases answer with
  | none => exact .fail
  | some e =>
    change Careful merging _ fresh ((if e.version ≠ expectedVersion then _ else _) >>= body)
    split
    · exact .fail
    · exact after e (own e rfl)

theorem careful_addLine (cartId sku : ID) (quantity expectedVersion : Nat) :
    Careful merging known fresh (addLine cartId sku quantity expectedVersion) := by
  refine careful_loadExpected fun e own => .getVariant fun variant => ?_
  cases variant with
  | none => exact .fail
  | some product =>
    change Careful merging _ fresh (if product.status ≠ .active then _ else
      if hasSku e.data.lines sku then _ else if e.data.lines.length ≥ maxLines then _ else _)
    split
    · exact .fail
    · split
      · exact .now fun now => careful_store own (update_self ..)
      · split
        · exact .fail
        · exact .now fun _ => .now fun _ => careful_store own (update_self ..)

theorem careful_updateLine (cartId sku : ID) (quantity expectedVersion : Nat) :
    Careful merging known fresh (updateLine cartId sku quantity expectedVersion) := by
  refine careful_loadExpected fun e own => ?_
  change Careful merging _ fresh (if quantity = 0 then _ else
    if hasSku e.data.lines sku then _ else _)
  split
  · exact .now fun _ => careful_store own (update_self ..)
  · split
    · exact .now fun _ => careful_store own (update_self ..)
    · exact .fail

theorem careful_applyCoupon (cartId : ID) (code : String) (expectedVersion : Nat) :
    Careful merging known fresh (applyCoupon cartId code expectedVersion) :=
  careful_loadExpected fun _ own => .now fun _ => careful_store own (update_self ..)

theorem careful_merge (unread : ∀ id, known id = none) (anonCartId userId : ID) :
    Careful true known fresh (merge anonCartId userId) := by
  have blank : ∀ {known : ID → Option Entry} (id : ID), (∀ other, known other = none) →
      ∀ other, update known id (none.or (known id)) other = none := by
    intro known id unread other
    by_cases same : other = id
    · subst same
      simp [unread]
    · rw [update_of_ne same, unread]
  refine .load fun anon own => .get fun existingId => ?_
  cases existingId with
  | none =>
    cases anon with
    | none => exact careful_create (blank _ unread) ..
    | some anon =>
      obtain rfl := own anon rfl
      exact .update rfl (update_self ..) (.inl rfl) fun _ => .set fun _ => .done
  | some existingId =>
    refine .load fun existing own' => ?_
    cases anon with
    | none =>
      cases existing with
      | none => exact careful_create (blank _ (blank _ unread)) ..
      | some existing => exact .done
    | some anon =>
      obtain rfl := own anon rfl
      cases existing with
      | none =>
        refine .update rfl ?_ (.inl rfl) fun _ => .set fun _ => .done
        by_cases same : anon.data.id = existingId
        · subst same
          simp
        · simp [update_of_ne same]
      | some existing =>
        obtain rfl := own' existing rfl
        exact .now fun _ => .update rfl (update_self ..) (.inl rfl) fun _ => .del fun _ => .done

theorem careful_call (unread : ∀ id, known id = none) (request : Request) :
    Careful request.merging known fresh request.call := by
  cases request with
  | create userId currency countryCode => exact careful_create unread ..
  | addLine cartId sku quantity expectedVersion => exact careful_addLine ..
  | updateLine cartId sku quantity expectedVersion => exact careful_updateLine ..
  | applyCoupon cartId code expectedVersion => exact careful_applyCoupon ..
  | merge anonCartId userId => exact careful_merge unread ..

end Calls

def Written (swaps : List Swap) (cartId : ID) (e : Entry) : Prop :=
  ∃ w ∈ swaps, w.cartId = cartId ∧ w.written = e

/-- The session will send only versions that it has seen. -/
structure Ready (swaps : List Swap) (fresh : List ID) (session : Session) : Prop where
  careful : Careful session.request.merging (fun cartId => seen cartId session.trace) fresh
    session.program
  answered : Matched session.trace ∨ Rejects session.program
  known : ∀ cartId e, seen cartId session.trace = some e → Written swaps cartId e

/-- The invariant of a run without a late script: the stored carts are the
latest contents written, ids drawn and not yet used belong to one call each. -/
structure Consistent {ι : Type} (fresh : ι → List ID) (s : State ι) : Prop where
  ready : ∀ i session, s.sessions i = some session → Ready s.swaps (fresh i) session
  reserved : ∀ i, ∀ id ∈ fresh i, id < s.world.drawn ∧ ∀ w ∈ s.swaps, w.cartId ≠ id
  apart : ∀ i j id, id ∈ fresh i → id ∈ fresh j → i = j
  stored : ∀ cartId e, s.world.carts cartId = some e → e.data.id = cartId ∧
    Written s.swaps cartId e ∧ ∀ w ∈ s.swaps, w.cartId = cartId → w.written.version ≤ e.version
  positive : ∀ w ∈ s.swaps, 0 < w.written.version
  drawn : ∀ w ∈ s.swaps, w.cartId < s.world.drawn
  kept : Kept s

variable {swaps : List Swap}

theorem Ready.observe {fresh : List ID} {session : Session} (ready : Ready swaps fresh session)
    (before after : World) :
    Ready swaps fresh (session.observe before after) :=
  ⟨ready.careful, ready.answered, ready.known⟩

theorem written_cons (swap : Swap) (cartId : ID) (e : Entry) (written : Written swaps cartId e) :
    Written (swap :: swaps) cartId e := by
  obtain ⟨w, listed, rest⟩ := written
  exact ⟨w, mem_cons_of_mem _ listed, rest⟩

theorem Ready.mono {fresh : List ID} {session : Session} (ready : Ready swaps fresh session)
    (swap : Swap) : Ready (swap :: swaps) fresh session where
  careful := ready.careful
  answered := ready.answered
  known := fun cartId e read => written_cons swap cartId e (ready.known cartId e read)

section Steps

variable {ι : Type} {fresh : ι → List ID} {s : State ι}

theorem Consistent.change (holds : Consistent fresh s) {w : World}
    (shrinks : ∀ cartId e, w.carts cartId = some e → s.world.carts cartId = some e)
    (draws : s.world.drawn ≤ w.drawn) : Consistent fresh (s.change w) where
  ready := by
    intro i session active
    obtain ⟨before, was, rfl⟩ := Option.map_eq_some_iff.mp active
    exact (holds.ready i before was).observe _ _
  reserved := fun i id member =>
    ⟨Nat.lt_of_lt_of_le (holds.reserved i id member).1 draws, (holds.reserved i id member).2⟩
  apart := holds.apart
  stored := fun cartId e found => holds.stored cartId e (shrinks cartId e found)
  positive := holds.positive
  drawn := fun w member => Nat.lt_of_lt_of_le (holds.drawn w member) draws
  kept := ⟨holds.kept.reported, holds.kept.replaced, holds.kept.versions⟩

theorem Consistent.set [DecidableEq ι] (holds : Consistent fresh s) (i : ι)
    (session : Option Session)
    (ready : ∀ now, session = some now → Ready s.swaps (fresh i) now) :
    Consistent fresh (s.set i session) where
  ready := by
    intro j now active
    by_cases same : j = i
    · subst same
      exact ready now (by simpa [State.set] using active)
    · exact holds.ready j now (by simpa [State.set, same] using active)
  reserved := holds.reserved
  apart := holds.apart
  stored := holds.stored
  positive := holds.positive
  drawn := holds.drawn
  kept := ⟨holds.kept.reported, holds.kept.replaced, holds.kept.versions⟩

theorem Consistent.finish [DecidableEq ι] (holds : Consistent fresh s) (i : ι) {e : Ended}
    (reported : ∀ response, e.result = .ok response → Matched e.trace) :
    Consistent fresh { s.set i none with ended := e :: s.ended } := by
  have without := holds.set i none nofun
  refine ⟨without.ready, without.reserved, without.apart, without.stored, without.positive,
    without.drawn, ⟨?_, without.kept.replaced, without.kept.versions⟩⟩
  intro other member response ok
  rcases mem_cons.mp member with rfl | earlier
  · exact reported response ok
  · exact holds.kept.reported other earlier response ok

theorem Consistent.write (holds : Consistent fresh s) (swap : Swap)
    (above : ∀ w ∈ s.swaps, w.cartId = swap.cartId → w.written.version < swap.written.version)
    (positive : 0 < swap.written.version) (own : swap.written.data.id = swap.cartId)
    (old : swap.cartId < s.world.drawn) (exact' : swap.replaced = swap.seen)
    (free : ∀ j, swap.cartId ∉ fresh j) :
    Consistent fresh
      { s.change { s.world with
          carts := update s.world.carts swap.cartId (some swap.written) } with
        swaps := swap :: s.swaps } where
  ready := by
    intro i session active
    obtain ⟨before, was, rfl⟩ := Option.map_eq_some_iff.mp active
    exact ((holds.ready i before was).mono swap).observe _ _
  reserved := by
    intro i id member
    refine ⟨(holds.reserved i id member).1, fun w listed => ?_⟩
    rcases mem_cons.mp listed with rfl | earlier
    · rintro rfl
      exact free i member
    · exact (holds.reserved i id member).2 w earlier
  apart := holds.apart
  stored := by
    intro cartId e found
    by_cases same : cartId = swap.cartId
    · subst same
      obtain rfl : swap.written = e := by simpa [State.change] using found
      refine ⟨own, ⟨swap, mem_cons_self, rfl, rfl⟩, fun w listed about => ?_⟩
      rcases mem_cons.mp listed with rfl | earlier
      · exact Nat.le_refl _
      · exact Nat.le_of_lt (above w earlier about)
    · obtain ⟨own', ⟨w, listed, rest⟩, latest⟩ :=
        holds.stored cartId e (by simpa [State.change, same] using found)
      refine ⟨own', ⟨w, mem_cons_of_mem _ listed, rest⟩, fun w' listed' about => ?_⟩
      rcases mem_cons.mp listed' with rfl | earlier
      · exact absurd about.symm same
      · exact latest w' earlier about
  positive := by
    intro w listed
    rcases mem_cons.mp listed with rfl | earlier
    · exact positive
    · exact holds.positive w earlier
  drawn := by
    intro w listed
    rcases mem_cons.mp listed with rfl | earlier
    · exact old
    · exact holds.drawn w earlier
  kept := by
    refine ⟨holds.kept.reported, fun w listed => ?_, fun w listed w' listed' same version => ?_⟩
    · rcases mem_cons.mp listed with rfl | earlier
      · exact exact'
      · exact holds.kept.replaced w earlier
    · rcases mem_cons.mp listed with rfl | earlier
      · rcases mem_cons.mp listed' with rfl | earlier'
        · rfl
        · have := above w' earlier' same.symm
          omega
      · rcases mem_cons.mp listed' with rfl | earlier'
        · have := above w earlier same
          omega
        · exact holds.kept.versions w earlier w' earlier' same version

theorem Consistent.reserve [DecidableEq ι] (holds : Consistent fresh s) (i : ι) (ids : List ID)
    (reserved : ∀ id ∈ ids, id ∈ fresh i ∨ ∀ j, id ∉ fresh j)
    (unused : ∀ id ∈ ids, id < s.world.drawn ∧ ∀ w ∈ s.swaps, w.cartId ≠ id)
    (ready : ∀ session, s.sessions i = some session → Ready s.swaps ids session) :
    Consistent (update fresh i ids) s where
  ready := by
    intro j session active
    by_cases same : j = i
    · subst same
      rw [update_self]
      exact ready session active
    · rw [update_of_ne same]
      exact holds.ready j session active
  reserved := by
    intro j id member
    by_cases same : j = i
    · subst same
      rw [update_self] at member
      exact unused id member
    · rw [update_of_ne same] at member
      exact holds.reserved j id member
  apart := by
    intro j k id left right
    by_cases atJ : j = i
    · by_cases atK : k = i
      · exact atJ.trans atK.symm
      · subst atJ
        rw [update_self] at left
        rw [update_of_ne atK] at right
        rcases reserved id left with mine | nobody
        · exact holds.apart _ _ id mine right
        · exact absurd right (nobody k)
    · rw [update_of_ne atJ] at left
      by_cases atK : k = i
      · subst atK
        rw [update_self] at right
        rcases reserved id right with mine | nobody
        · exact holds.apart _ _ id left mine
        · exact absurd left (nobody j)
      · rw [update_of_ne atK] at right
        exact holds.apart _ _ id left right
  stored := holds.stored
  positive := holds.positive
  drawn := holds.drawn
  kept := holds.kept

theorem seen_load (w : World) (trace : List Executed) (cartId : ID) :
    (fun id => seen id (⟨.hmget cartId, w⟩ :: trace)) = update (fun id => seen id trace) cartId
        ((w.carts cartId).or (seen cartId trace)) := by
  funext id
  by_cases same : id = cartId
  · subst same
    simp [seen]
  · simp [seen, update_of_ne same, Ne.symm same]

variable {q : Command} {session : Session} {i : ι} {cartId : ID}

theorem seen_other (silent : ∀ c, q ≠ .hmget c) (w : World) (trace : List Executed) (cartId : ID) :
    seen cartId (⟨q, w⟩ :: trace) = seen cartId trace := by
  simp [seen, silent cartId]

theorem matched_cons {trace : List Executed} {w : World} (earlier : Matched trace)
    (now : ∀ cartId version payload, q = .evalsha cartId version payload → versionOf (w.carts
      cartId) = version) : Matched (⟨q, w⟩ :: trace) := by
  intro x member
  rcases mem_cons.mp member with rfl | older
  · exact now
  · exact earlier x older

theorem Rejects.rest {rest : q.Answer → Call Response} (rejects : Rejects (.call q rest))
    (answer : q.Answer) : Rejects (rest answer) := by
  cases rejects with
  | call after => exact after answer

theorem answered_rest {rest : q.Answer → Call Response}
    (answered : Matched session.trace ∨ Rejects session.program)
    (calls : session.program = .call q rest) (still : ∀ c v p, q ≠ .evalsha c v p) (w : World) :
    Matched (⟨q, w⟩ :: session.trace) ∨ Rejects (rest (q.answer w)) := by
  rcases answered with matched | rejects
  · exact .inl (matched_cons matched fun c v p same => absurd same (still c v p))
  · rw [calls] at rejects
    exact .inr (rejects.rest _)

theorem Consistent.load (holds : Consistent fresh s) {rest : Option Entry → Call Response}
    (active : s.sessions i = some session) (calls : session.program = .call (.hmget cartId) rest)
    (after : ∀ answer : Option Entry, (∀ e, answer = some e → e.data.id = cartId) → Careful
      session.request.merging (update (fun id => seen id session.trace) cartId (answer.or
      (seen cartId session.trace))) (fresh i) (rest answer)) :
    Ready s.swaps (fresh i) (session.exec s.world (.hmget cartId) rest) where
  careful := by
    change Careful _ (fun id => seen id (⟨.hmget cartId, s.world⟩ :: session.trace)) _ _
    rw [seen_load]
    exact after _ fun e found => (holds.stored cartId e found).1
  answered := answered_rest (holds.ready i session active).answered calls nofun s.world
  known := by
    intro id e found
    change seen id (⟨.hmget cartId, s.world⟩ :: session.trace) = some e at found
    by_cases same : id = cartId
    · subst same
      simp only [seen, ↓reduceIte, Option.or_eq_some_iff] at found
      rcases found with now | ⟨-, earlier⟩
      · exact (holds.stored id e now).2.1
      · exact (holds.ready i session active).known id e earlier
    · simp only [seen, hmget.injEq, Ne.symm same, ↓reduceIte] at found
      exact (holds.ready i session active).known id e found

theorem Consistent.other (holds : Consistent fresh s) {rest : q.Answer → Call Response}
    (active : s.sessions i = some session) (calls : session.program = .call q rest)
    (silent : ∀ c, q ≠ .hmget c) (still : ∀ c v p, q ≠ .evalsha c v p) {ids : List ID}
    (after : Careful session.request.merging (fun id => seen id session.trace) ids (rest (q.answer
      s.world))) :
    Ready s.swaps ids (session.exec s.world q rest) where
  careful := by
    change Careful _ (fun id => seen id (⟨q, s.world⟩ :: session.trace)) _ _
    rw [funext (seen_other silent s.world session.trace)]
    exact after
  answered := answered_rest (holds.ready i session active).answered calls still s.world
  known := by
    intro id e found
    change seen id (⟨q, s.world⟩ :: session.trace) = some e at found
    rw [seen_other silent] at found
    exact (holds.ready i session active).known id e found

theorem swapped_other (still : ∀ c v p, q ≠ .evalsha c v p) (w : World) :
    session.swapped w q = [] := by
  unfold Session.swapped
  split
  · exact absurd rfl (still _ _ _)
  · rfl

theorem Consistent.script (holds : Consistent fresh s) {version : Nat} {payload : StoredCart}
    {rest : Int → Call Response} {swaps : List Swap} {ids : List ID}
    (active : s.sessions i = some session)
    (calls : session.program = .call (.evalsha cartId version payload) rest)
    (grows : ∀ id e, Written s.swaps id e → Written swaps id e)
    (outcome : versionOf (s.world.carts cartId) = version ∨ Rejects (rest (answer (.evalsha
      cartId version payload) s.world)))
    (after : Careful session.request.merging (fun id => seen id session.trace) ids (rest
      (answer (.evalsha cartId version payload) s.world))) :
    Ready swaps ids (session.exec s.world (.evalsha cartId version payload) rest) where
  careful := by
    change Careful _ (fun id => seen id (⟨.evalsha cartId version payload, s.world⟩ ::
      session.trace)) _ _
    rw [funext (seen_other (q := .evalsha cartId version payload) nofun s.world session.trace)]
    exact after
  answered := by
    rcases (holds.ready i session active).answered with matched | rejects
    · rcases outcome with found | refused
      · refine .inl (matched_cons matched ?_)
        rintro c v p ⟨⟩
        exact found
      · exact .inr refused
    · rw [calls] at rejects
      exact .inr (rejects.rest _)
  known := by
    intro id e found
    change seen id (⟨.evalsha cartId version payload, s.world⟩ :: session.trace) = some e at found
    rw [seen_other (q := .evalsha cartId version payload) nofun] at found
    exact grows id e ((holds.ready i session active).known id e found)

theorem State.set_of_change [DecidableEq ι] (s : State ι) (i : ι) (w : World)
    (session : Option Session) :
    ((s.set i none).change w).set i session = (s.change w).set i session := by
  simp only [set, change, mk.injEq, true_and, and_true]
  funext j
  by_cases same : j = i
  · subst same
    simp
  · simp [same]

/-- What an accepted script writes, for the log. -/
def Session.swap (session : Session) (w : World) (cartId : ID) (payload : StoredCart) : Swap :=
  ⟨cartId, seen cartId session.trace, w.carts cartId, ⟨payload, nextVersion (w.carts cartId)⟩⟩

theorem Consistent.swap [DecidableEq ι] (holds : Consistent fresh (s.set i none)) {version : Nat}
    {payload : StoredCart} {rest : Int → Call Response}
    (allowed : casAllows (s.world.carts cartId) version = true)
    (above : ∀ w ∈ s.swaps, w.cartId = cartId → w.written.version < nextVersion (s.world.carts
      cartId)) (own : payload.id = cartId) (below : cartId < s.world.drawn)
    (unchanged : s.world.carts cartId = seen cartId session.trace) (free : ∀ j, cartId ∉ fresh j)
    (ready : Ready (session.swap s.world cartId payload :: s.swaps) (fresh i) (session.exec s.world
      (.evalsha cartId version payload) rest)) :
    Consistent fresh
      { (s.change (after (.evalsha cartId version payload) s.world)).set i
          (some (session.exec s.world (.evalsha cartId version payload) rest)) with
        swaps := session.swapped s.world (.evalsha cartId version payload) ++ s.swaps } := by
  have wrote := holds.write (session.swap s.world cartId payload) above (Nat.succ_pos _) own below
    unchanged free
  have swapped : session.swapped s.world (.evalsha cartId version payload) =
      [session.swap s.world cartId payload] := by
    simp [Session.swapped, allowed, Session.swap]
  have final := wrote.set i (some (session.exec s.world (.evalsha cartId version payload) rest))
    (by rintro now ⟨⟩; exact ready)
  rw [swapped, after_accepted allowed, ← set_of_change]
  exact final

/-- **One command.** A call executes a command that is not late. -/
theorem Consistent.exec [DecidableEq ι] (holds : Consistent fresh s)
    {rest : q.Answer → Call Response} (active : s.sessions i = some session)
    (calls : session.program = .call q rest) (ok : timely s (.run i) = true) :
    ∃ fresh', Consistent fresh'
      { (s.change (after q s.world)).set i (some (session.exec s.world q rest)) with
        swaps := session.swapped s.world q ++ s.swaps } := by
  have ready := holds.ready i session active
  have careful := ready.careful
  rw [calls] at careful
  cases careful with
  | load after =>
    refine ⟨fresh,
      (holds.change (w := s.world) (fun _ _ found => found) (Nat.le_refl _)).set i _ ?_⟩
    rintro now ⟨⟩
    exact holds.load active calls after
  | other quiet silent still after =>
    have shrinks : (∀ cartId e, (Command.after q s.world).carts cartId = some e →
        s.world.carts cartId = some e) ∧ s.world.drawn ≤ (Command.after q s.world).drawn := by
      unfold Command.after
      rcases quiet s.world with none | ⟨u, c, rfl⟩ | ⟨c, rfl⟩
      · rw [none]
        exact ⟨fun _ _ found => found, Nat.le_refl _⟩
      · exact ⟨fun _ _ found => found, Nat.le_refl _⟩
      · exact ⟨fun cartId e found => stored_of_removed found, Nat.le_refl _⟩
    rw [swapped_other still]
    refine ⟨fresh, (holds.change shrinks.1 shrinks.2).set i _ ?_⟩
    rintro now ⟨⟩
    exact holds.other active calls silent still (after _)
  | draw after =>
    have grown := ((holds.set i none nofun).change
      (w := { s.world with drawn := s.world.drawn + 1 })
      (fun _ _ found => found) (Nat.le_succ _)).reserve i (s.world.drawn :: fresh i) ?_ ?_ ?_
    · refine ⟨_, set_of_change s i _ _ ▸ grown.set i _ ?_⟩
      rintro now ⟨⟩
      rw [update_self]
      exact holds.other active calls nofun nofun (after _)
    · intro id member
      rcases mem_cons.mp member with rfl | mine
      · exact .inr fun j other => absurd (holds.reserved j _ other).1 (Nat.lt_irrefl _)
      · exact .inl mine
    · intro id member
      rcases mem_cons.mp member with rfl | mine
      · exact ⟨Nat.lt_succ_self _, fun w listed => Nat.ne_of_lt (holds.drawn w listed)⟩
      · exact ⟨Nat.lt_succ_of_lt (holds.reserved i id mine).1, (holds.reserved i id mine).2⟩
    · intro other present
      simp [State.change, State.set] at present
  | insert own unread drawn after =>
    rename_i cartId payload rest
    obtain ⟨below, unwritten⟩ := holds.reserved i cartId drawn
    have absent : s.world.carts cartId = none := by
      by_contra present
      obtain ⟨e, found⟩ := Option.ne_none_iff_exists'.mp present
      obtain ⟨w, listed, about, -⟩ := (holds.stored cartId e found).2.1
      exact unwritten w listed about
    have released := (holds.set i none nofun).reserve i ((fresh i).filter (· ≠ cartId)) ?_ ?_ ?_
    · have free : ∀ j, cartId ∉ update fresh i ((fresh i).filter (· ≠ cartId)) j := by
        intro j member
        by_cases same : j = i
        · subst same
          simp at member
        · rw [update_of_ne same] at member
          exact same (holds.apart j i cartId member drawn)
      refine ⟨_, released.swap (by rw [absent]; rfl)
        (fun w listed about => absurd about (unwritten w listed)) own below
        (absent.trans unread.symm) free ?_⟩
      rw [update_self]
      exact holds.script active calls (written_cons _) (.inl (by rw [absent]; rfl)) (after _)
    · exact fun id member => .inl (mem_of_mem_filter member)
    · intro id member
      exact holds.reserved i id (mem_of_mem_filter member)
    · intro other present
      simp [State.set] at present
  | update own read refused after =>
    rename_i cartId payload rest e
    obtain ⟨origin, written, about, content⟩ := ready.known cartId e read
    have below : cartId < s.world.drawn := about ▸ holds.drawn origin written
    have free : ∀ j, cartId ∉ fresh j := fun j member =>
      (holds.reserved j cartId member).2 origin written about
    cases found : s.world.carts cartId with
    | none =>
      -- a late script over an absent key: excluded, since no version 0 is ever written
      have zero : e.version = 0 := by
        obtain ⟨request, program, trace, moved, disturbed⟩ := session
        subst calls
        simpa [timely, active, found] using ok
      have := holds.positive origin written
      rw [content] at this
      omega
    | some current =>
      obtain ⟨-, ⟨other, written', about', content'⟩, latest⟩ := holds.stored cartId current found
      by_cases same : current.version = e.version
      · have unchanged : current = e := by
          rw [← content, ← content']
          refine holds.kept.versions other written' origin written (about'.trans about.symm) ?_
          rw [content, content', same]
        subst unchanged
        refine ⟨fresh, (holds.set i none nofun).swap ?_ ?_ own below (found.trans read.symm) free
          ?_⟩
        · simp [found, casAllows]
        · intro w listed about''
          rw [found]
          exact Nat.lt_succ_of_le (latest w listed about'')
        · exact holds.script active calls (written_cons _) (.inl (by rw [found]; rfl)) (after _)
      · have refusal : casAllows (s.world.carts cartId) e.version = false := by
          simp [found, casAllows, same]
        have rejects : Rejects (rest (-1)) := by
          rcases refused with merging | rejects
          · exfalso
            apply same
            obtain ⟨request, program, trace, moved, disturbed⟩ := session
            subst calls
            simpa [timely, active, found, show request.merging = true from merging] using ok
          · exact rejects
        have answer : answer (.evalsha cartId e.version payload) s.world = (-1 : Int) := by
          simp only [answer, refusal, Bool.false_eq_true, ↓reduceIte]
          rfl
        have swapped : session.swapped s.world (.evalsha cartId e.version payload) = [] := by
          simp [Session.swapped, refusal]
        rw [swapped, after_refused refusal]
        refine ⟨fresh, (holds.change (w := s.world) (fun _ _ found => found)
          (Nat.le_refl _)).set i _ ?_⟩
        rintro now ⟨⟩
        refine holds.script active calls (fun _ _ written => written) (.inr ?_) (after _)
        rw [answer]
        exact rejects

/-- **One step** that is not a late script keeps the invariant. -/
theorem Consistent.step [DecidableEq ι] (holds : Consistent fresh s) {event : Event ι}
    (ok : timely s event = true) : ∃ fresh', Consistent fresh' (s.step event) := by
  have moves := moves_step s event
  generalize s.step event = after at moves
  cases moves with
  | idle => exact ⟨fresh, holds⟩
  | @start i request free =>
    have cleared := (holds.set i none (fun _ none => by cases none)).reserve i [] (by simp)
      (by simp) (by simp [State.set])
    have started := cleared.set i (some { request, program := request.call }) ?_
    · exact ⟨_, by simpa [State.set] using started⟩
    · rintro now ⟨⟩
      refine ⟨careful_call (fun _ => rfl) request, .inl ?_, ?_⟩
      · rintro _ ⟨⟩
      · rintro _ _ ⟨⟩
  | @done i session response active ended =>
    refine ⟨fresh, holds.finish i fun _ _ => ?_⟩
    rcases (holds.ready i session active).answered with matched | rejects
    · exact matched
    · rw [ended] at rejects
      cases rejects
  | fail active ended => exact ⟨fresh, holds.finish _ (fun _ ok => by cases ok)⟩
  | exec active calls => exact holds.exec active calls ok
  | abort => exact ⟨fresh, holds.set _ none (fun _ none => by cases none)⟩
  | expire =>
    exact ⟨fresh, holds.change (fun other e found => stored_of_removed found) (Nat.le_refl _)⟩
  | expireIndex | outside => exact ⟨fresh, holds.change (fun _ _ found => found) (Nat.le_refl _)⟩

end Steps

/-- **Cart writes neither lose nor resurrect.** In a run in which no script runs
on an absent key under a version other than 0, and no `merge` runs one on another
version than it read, in every state reached: a call that reported success
replaced the version it expected, every write replaced exactly the cart its call
had read, and no version of a cart was given to two contents. -/
theorem kept_of_timely {ι : Type} [DecidableEq ι] {s : State ι}
    (reached : ((carts ι).restrict fun s event => timely s event = true).Reachable s) : Kept s := by
  have consistent : ∃ fresh, Consistent fresh s := by
    refine System.Reachable.invariant (I := fun s => ∃ fresh, Consistent fresh s) ?_ ?_ reached
    · rintro s rfl
      refine ⟨fun _ => [], ?_, ?_, ?_, ?_, ?_, ?_, ⟨?_, ?_, ?_⟩⟩ <;> intros <;> contradiction
    · rintro s event t ⟨fresh, holds⟩ ⟨ok, rfl⟩
      exact holds.step ok
  obtain ⟨_, holds⟩ := consistent
  exact holds.kept

/-- Cart 0 is created and SKU 7 is in the catalog. -/
def opened : List (Event Bool) :=
  [.start true (.create none "EGP" "EG"), .run true, .run true, .run true, .run true,
    .stock 7 (some ⟨70, 500, .active⟩)]

def addedOnce : List (Event Bool) :=
  opened ++ ([.start true (.addLine 0 7 2 1), .run true, .run true, .run true, .run true, .run true,
    .run true] : List (Event Bool))

theorem kept_after_add :
    Kept (addedOnce.foldl step {}) ∧
      (addedOnce.foldl step {}).swaps.map (·.written.version) = [2, 1] :=
  ⟨kept_of_timely (System.Reachable.foldl_restrict (by decide +kernel)), by decide +kernel⟩

/-- The cart expires between the read and the script of `addLine`. -/
def expiredMeanwhile : List (Event Bool) :=
  opened ++ ([.start true (.addLine 0 7 2 1), .run true, .run true, .run true, .run true, .expire 0,
    .run true, .run true] : List (Event Bool))

/-- `addLine` reports success and the expired cart is back, under version 1 again
with another content. -/
theorem expired_cart_comes_back :
    ¬ Kept (expiredMeanwhile.foldl step {}) := by
  intro kept
  have lost : ∃ w ∈ (expiredMeanwhile.foldl step {}).swaps, w.replaced ≠ w.seen := by
    decide +kernel
  obtain ⟨w, listed, differs⟩ := lost
  exact differs (kept.replaced w listed)

end Souq.Carts
