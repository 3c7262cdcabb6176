import Souq.Carts.Shape

/-!
# Runs of the cart service

That stored carts are well formed survives every step. That a call changes what it names
and nothing else takes that a version of a cart stands for one content, from its creation
on; a script that runs on an absent key under a version other than 0 gives a version
away twice.
-/

namespace Souq.Carts

open Transact Transition Function List Nat Option State

/-- The requests that are sent are admitted by the HTTP schemas. -/
def admits {ι : Type} : Event ι → Bool
  | .start _ request => request.admitted
  | _ => true

/-- The script is not run on an absent key under a version other than 0. -/
def prompt {ι : Type} (s : State ι) : Event ι → Bool
  | .run i =>
    match s.sessions i with
    | some ⟨_, .call (.evalsha cartId version _) _, _, _, _⟩ =>
      (s.world.carts cartId).isSome || version == 0
    | _ => true
  | _ => true

/-- The stored carts are well formed, and the calls in progress keep them so. -/
structure Sheltered {ι : Type} (s : State ι) : Prop where
  sane : s.world.Sane
  modest : ∀ i session, s.sessions i = some session →
    Modest session.request session.trace session.program

section Sheltered

variable {ι : Type} {s : State ι}

theorem World.Sane.shrink {w w' : World} (sane : w.Sane)
    (shrinks : ∀ cartId e, w'.carts cartId = some e → w.carts cartId = some e) : w'.Sane :=
  fun cartId e found => sane cartId e (shrinks cartId e found)

theorem World.Sane.after {w : World} (sane : w.Sane) {q : Command} {request : Request}
    {trace : List Executed} (allowed : q.Allowed request trace) : (q.after w).Sane := by
  cases q with
  | evalsha cartId version payload =>
    obtain ⟨own, wellFormed, -⟩ := allowed
    by_cases allows : casAllows (w.carts cartId) version = true
    · rw [Command.after_accepted allows]
      intro id e found
      simp only at found
      by_cases same : id = cartId
      · subst same
        rw [update_self] at found
        cases found
        exact ⟨own, wellFormed⟩
      · rw [update_of_ne same] at found
        exact sane id e found
    · rw [Command.after_refused (Bool.eq_false_iff.mpr allows)]
      exact sane
  | del cartId => exact sane.shrink fun id e found => stored_of_removed found
  | _ => exact sane

/-- **One step** with an admitted request. -/
theorem Sheltered.step [DecidableEq ι] (sheltered : Sheltered s) {event : Event ι}
    (ok : admits event = true) : Sheltered (s.step event) := by
  have starts : ∀ i request, event = .start i request → Modest request [] request.call := by
    rintro i request rfl
    exact modest_call ok
  have kept := holds_step (P := fun _ session =>
    Modest session.request session.trace session.program) World.Sane.shrink id starts
    (fun i session q rest _ active calls => ?_) sheltered.sane sheltered.modest
  · exact ⟨kept.1, kept.2⟩
  · have modest := sheltered.modest i session active
    rw [calls] at modest
    cases modest with
    | call allowed after => exact ⟨sheltered.sane.after allowed, after _ sheltered.sane⟩

end Sheltered

/-- A version that a call has found is the stored one or an older one, and ids that were
drawn are not used before their call writes. -/
structure Current {ι : Type} (s : State ι) : Prop where
  stored : ∀ cartId cur, s.world.carts cartId = some cur → 0 < cur.version ∧ cartId < s.world.drawn
  found : ∀ i session, s.sessions i = some session → ∀ cartId e, Found session.trace cartId e →
    0 < e.version ∧ cartId < s.world.drawn ∧ ∀ cur, s.world.carts cartId = some cur →
      e.version ≤ cur.version ∧ (e.version = cur.version → e = cur)
  reserved : ∀ i session, s.sessions i = some session → ∀ id, Reserved session.trace id →
    id < s.world.drawn ∧ s.world.carts id = none ∧ ∀ j other, s.sessions j = some other →
      (∀ e, ¬ Found other.trace id e) ∧ (j ≠ i → ¬ Reserved other.trace id)
  confined : ∀ i session, s.sessions i = some session →
    ∀ x ∈ session.trace, x.Confined session.request session.trace
  ended : ∀ e ∈ s.ended, ∀ x ∈ e.trace, x.Confined e.request e.trace

section Traces

variable {q : Command} {w : World} {trace : List Executed} {cartId : ID}

theorem found_cons {e : Entry} (found : Found (⟨q, w⟩ :: trace) cartId e) :
    w.carts cartId = some e ∨ Found trace cartId e := by
  obtain ⟨x, member, command, there⟩ := found
  rcases mem_cons.mp member with rfl | earlier
  · exact .inl there
  · exact .inr ⟨x, earlier, command, there⟩

theorem reserved_cons (reserved : Reserved (⟨q, w⟩ :: trace) cartId) :
    Reserved trace cartId ∨ q = .ulid ∧ w.drawn = cartId := by
  obtain ⟨⟨x, member, command, drawn⟩, unused⟩ := reserved
  rcases mem_cons.mp member with rfl | earlier
  · exact .inr ⟨command, drawn⟩
  · exact .inl ⟨⟨x, earlier, command, drawn⟩, fun y before => unused y (mem_cons_of_mem _ before)⟩

end Traces

section Current

variable {ι : Type} {s : State ι}

variable {w : World} {i : ι} {session : Session} {trace : List Executed} {cartId : ID}
  {version : Nat} {payload : StoredCart}

theorem Current.change (current : Current s)
    (shrinks : ∀ cartId e, w.carts cartId = some e → s.world.carts cartId = some e)
    (draws : s.world.drawn ≤ w.drawn) : Current (s.change w) where
  stored := by
    intro cartId cur there
    obtain ⟨positive, below⟩ := current.stored cartId cur (shrinks cartId cur there)
    exact ⟨positive, lt_of_lt_of_le below draws⟩
  found := by
    intro i session active cartId e found
    obtain ⟨before, was, rfl⟩ := map_eq_some_iff.mp active
    obtain ⟨positive, below, latest⟩ := current.found i before was cartId e found
    exact ⟨positive, lt_of_lt_of_le below draws, fun cur there =>
      latest cur (shrinks cartId cur there)⟩
  reserved := by
    intro i session active id reserved
    obtain ⟨before, was, rfl⟩ := map_eq_some_iff.mp active
    obtain ⟨below, absent, others⟩ := current.reserved i before was id reserved
    refine ⟨lt_of_lt_of_le below draws, ?_, fun j other active' => ?_⟩
    · cases there : w.carts id with
      | none => exact there
      | some e => cases absent.symm.trans (shrinks id e there)
    · obtain ⟨before', was', rfl⟩ := map_eq_some_iff.mp active'
      exact others j before' was'
  confined := by
    intro i session active
    obtain ⟨before, was, rfl⟩ := map_eq_some_iff.mp active
    exact current.confined i before was
  ended := current.ended

theorem Current.fresh [DecidableEq ι] (current : Current s) (i : ι) {session : Option Session}
    (blank : ∀ now, session = some now → now.trace = []) : Current (s.set i session) where
  stored := current.stored
  found := by
    intro j now active cartId e found
    rcases active_of_set active with ⟨-, same⟩ | ⟨-, still⟩
    · obtain ⟨x, member, -⟩ := found
      rw [blank now same] at member
      cases member
    · exact current.found j now still cartId e found
  reserved := by
    intro j now active id reserved
    rcases active_of_set active with ⟨-, same⟩ | ⟨-, still⟩
    · obtain ⟨⟨x, member, -⟩, -⟩ := reserved
      rw [blank now same] at member
      cases member
    · obtain ⟨below, absent, others⟩ := current.reserved j now still id reserved
      refine ⟨below, absent, fun k other active' => ?_⟩
      rcases active_of_set active' with ⟨-, same⟩ | ⟨-, still'⟩
      · refine ⟨fun e ⟨x, member, _⟩ => ?_, fun _ ⟨⟨x, member, _⟩, _⟩ => ?_⟩
        · rw [blank other same] at member
          cases member
        · rw [blank other same] at member
          cases member
      · exact others k other still'
  confined := by
    intro j now active x member
    rcases active_of_set active with ⟨-, same⟩ | ⟨-, still⟩
    · rw [blank now same] at member
      cases member
    · exact current.confined j now still x member
  ended := current.ended

/-- What holds of a call that has executed one more command. -/
structure Extends (s : State ι) (w : World) (i : ι) (trace : List Executed) : Prop where
  found : ∀ cartId e, Found trace cartId e → 0 < e.version ∧ cartId < w.drawn ∧
    ∀ cur, w.carts cartId = some cur → e.version ≤ cur.version ∧ (e.version = cur.version → e = cur)
  reserved : ∀ id, Reserved trace id → id < w.drawn ∧ w.carts id = none ∧
    (∀ e, ¬ Found trace id e) ∧ ∀ j other, j ≠ i → s.sessions j = some other →
      (∀ e, ¬ Found other.trace id e) ∧ ¬ Reserved other.trace id
  apart : ∀ j other id, j ≠ i → s.sessions j = some other → Reserved other.trace id →
    (∀ e, ¬ Found trace id e) ∧ ¬ Reserved trace id

theorem Current.goes [DecidableEq ι] (current : Current s) {now : Session}
    (goes : Extends s s.world i now.trace)
    (confined : ∀ x ∈ now.trace, x.Confined now.request now.trace) :
    Current (s.set i (some now)) where
  stored := current.stored
  found := by
    intro j session active
    rcases active_of_set active with ⟨-, ⟨⟩⟩ | ⟨-, still⟩
    · exact goes.found
    · exact current.found j session still
  reserved := by
    intro j session active id reserved
    rcases active_of_set active with ⟨here, ⟨⟩⟩ | ⟨elsewhere, still⟩
    · obtain ⟨below, absent, unfound, others⟩ := goes.reserved id reserved
      refine ⟨below, absent, fun k other active' => ?_⟩
      rcases active_of_set active' with ⟨there, ⟨⟩⟩ | ⟨apart, still'⟩
      · exact ⟨unfound, fun apart => (apart (there.trans here.symm)).elim⟩
      · obtain ⟨unfound', unreserved⟩ := others k other apart still'
        exact ⟨unfound', fun _ => unreserved⟩
    · obtain ⟨below, absent, others⟩ := current.reserved j session still id reserved
      refine ⟨below, absent, fun k other active' => ?_⟩
      rcases active_of_set active' with ⟨-, ⟨⟩⟩ | ⟨-, still'⟩
      · obtain ⟨unfound, unreserved⟩ := goes.apart j session id elsewhere still reserved
        exact ⟨unfound, fun _ => unreserved⟩
      · exact others k other still'
  confined := by
    intro j session active
    rcases active_of_set active with ⟨-, ⟨⟩⟩ | ⟨-, still⟩
    · exact confined
    · exact current.confined j session still
  ended := current.ended

/-- Any command but an accepted script: what it finds is the stored cart. -/
theorem Current.reads (current : Current s) {q : Command} (active : s.sessions i = some session)
    (shrinks : ∀ cartId e, (q.after s.world).carts cartId = some e → s.world.carts cartId = some e)
    (draws : s.world.drawn ≤ (q.after s.world).drawn)
    (draw : q = .ulid → s.world.drawn < (q.after s.world).drawn) :
    Extends (s.change (q.after s.world)) (q.after s.world) i (⟨q, s.world⟩ :: session.trace) := by
  have sessions : ∀ {j other}, (s.change (q.after s.world)).sessions j = some other →
      ∃ before, s.sessions j = some before ∧ other.trace = before.trace := by
    intro j other there
    obtain ⟨before, was, rfl⟩ := map_eq_some_iff.mp there
    exact ⟨before, was, rfl⟩
  have absent : ∀ {id}, s.world.carts id = none → (q.after s.world).carts id = none := by
    intro id none
    cases there : (q.after s.world).carts id with
    | none => rfl
    | some e => cases none.symm.trans (shrinks id e there)
  -- the id just drawn is above all others
  have above : ∀ {id}, s.world.drawn = id → s.world.carts id = none := by
    intro id drawn
    cases there : s.world.carts id with
    | none => rfl
    | some e => exact absurd (drawn ▸ (current.stored id e there).2) (lt_irrefl _)
  refine ⟨fun cartId e found => ?_, fun id reserved => ?_,
    fun j other id apart there reserved => ?_⟩
  · rcases found_cons found with now | before
    · obtain ⟨positive, below⟩ := current.stored cartId e now
      refine ⟨positive, lt_of_lt_of_le below draws, fun cur there => ?_⟩
      cases (shrinks cartId cur there).symm.trans now
      exact ⟨le_refl _, fun _ => rfl⟩
    · obtain ⟨positive, below, latest⟩ := current.found i session active cartId e before
      exact ⟨positive, lt_of_lt_of_le below draws,
        fun cur there => latest cur (shrinks cartId cur there)⟩
  · rcases reserved_cons reserved with before | ⟨drawing, drawn⟩
    · obtain ⟨below, none, others⟩ := current.reserved i session active id before
      refine ⟨lt_of_lt_of_le below draws, absent none, fun e found => ?_, ?_⟩
      · rcases found_cons found with now | earlier
        · cases none.symm.trans now
        · exact (others i session active).1 e earlier
      · intro j other apart there
        obtain ⟨other, was, same⟩ := sessions there
        rw [same]
        exact ⟨(others j other was).1, (others j other was).2 apart⟩
    · refine ⟨drawn ▸ draw drawing, absent (above drawn), fun e found => ?_, ?_⟩
      · rcases found_cons found with now | earlier
        · cases (above drawn).symm.trans now
        · exact absurd (drawn ▸ (current.found i session active id e earlier).2.1) (lt_irrefl _)
      · intro j other apart there
        obtain ⟨other, was, same⟩ := sessions there
        rw [same]
        refine ⟨fun e found => ?_, fun reserved' => ?_⟩
        · exact absurd (drawn ▸ (current.found j other was id e found).2.1) (lt_irrefl _)
        · exact absurd (drawn ▸ (current.reserved j other was id reserved').1) (lt_irrefl _)
  · obtain ⟨other, was, same⟩ := sessions there
    rw [same] at reserved
    obtain ⟨below, none, others⟩ := current.reserved j other was id reserved
    refine ⟨fun e found => ?_, fun mine => ?_⟩
    · rcases found_cons found with now | earlier
      · cases none.symm.trans now
      · exact (others i session active).1 e earlier
    · rcases reserved_cons mine with before | ⟨-, drawn⟩
      · exact (others i session active).2 apart.symm before
      · exact absurd (drawn ▸ below) (lt_irrefl _)

theorem Current.write (current : Current s) {cartId : ID} {next : Entry}
    (positive : 0 < next.version)
    (below : cartId < s.world.drawn)
    (above : ∀ i session, s.sessions i = some session → ∀ e, Found session.trace cartId e →
      e.version < next.version)
    (unreserved : ∀ i session, s.sessions i = some session → ¬ Reserved session.trace cartId) :
    Current (s.change { s.world with
      carts := update s.world.carts cartId (some next) }) where
  stored := by
    intro id cur there
    change update s.world.carts cartId (some next) id = some cur at there
    by_cases same : id = cartId
    · subst same
      rw [update_self] at there
      cases there
      exact ⟨positive, below⟩
    · rw [update_of_ne same] at there
      exact current.stored id cur there
  found := by
    intro i session active id e found
    obtain ⟨before, was, rfl⟩ := map_eq_some_iff.mp active
    obtain ⟨positive', below', latest⟩ := current.found i before was id e found
    refine ⟨positive', below', fun cur there => ?_⟩
    change update s.world.carts cartId (some next) id = some cur at there
    by_cases same : id = cartId
    · subst same
      rw [update_self] at there
      cases there
      have older := above i before was e found
      exact ⟨Nat.le_of_lt older, fun equal => absurd equal (Nat.ne_of_lt older)⟩
    · rw [update_of_ne same] at there
      exact latest cur there
  reserved := by
    intro i session active id reserved
    obtain ⟨before, was, rfl⟩ := map_eq_some_iff.mp active
    obtain ⟨below', absent, others⟩ := current.reserved i before was id reserved
    refine ⟨below', ?_, fun j other active' => ?_⟩
    · have apart : id ≠ cartId := fun same => unreserved i before was (same ▸ reserved)
      change update s.world.carts cartId (some next) id = none
      rw [update_of_ne apart, absent]
    · obtain ⟨before', was', rfl⟩ := map_eq_some_iff.mp active'
      exact others j before' was'
  confined := by
    intro i session active
    obtain ⟨before, was, rfl⟩ := map_eq_some_iff.mp active
    exact current.confined i before was
  ended := current.ended

theorem found_script {id : ID} {e : Entry}
    (found : Found (⟨.evalsha cartId version payload, w⟩ :: trace) id e) : Found trace id e := by
  obtain ⟨x, member, command, there⟩ := found
  rcases mem_cons.mp member with rfl | earlier
  · cases command
  · exact ⟨x, earlier, command, there⟩

theorem reserved_script {id : ID}
    (reserved : Reserved (⟨.evalsha cartId version payload, w⟩ :: trace) id) :
    Reserved trace id ∧ id ≠ cartId := by
  refine ⟨(reserved_cons reserved).resolve_right (fun ⟨draws, _⟩ => by cases draws), ?_⟩
  rintro rfl
  exact reserved.2 _ mem_cons_self version payload rfl

theorem Current.wrote [DecidableEq ι] (current : Current s) (active : s.sessions i = some session)
    {next : Entry} (above : ∀ e, Found session.trace cartId e → e.version < next.version) :
    Extends ((s.set i none).change { s.world with
        carts := update s.world.carts cartId (some next) })
      { s.world with carts := update s.world.carts cartId (some next) } i
      (⟨.evalsha cartId version payload, s.world⟩ :: session.trace) := by
  have sessions : ∀ {j other}, j ≠ i → ((s.set i none).change { s.world with
      carts := update s.world.carts cartId (some next) }).sessions j = some other →
      ∃ before, s.sessions j = some before ∧ other.trace = before.trace := by
    intro j other apart there
    obtain ⟨before, was, rfl⟩ := map_eq_some_iff.mp there
    exact ⟨before, active_of_set_none was, rfl⟩
  refine ⟨fun id e found => ?_, fun id reserved => ?_, fun j other id apart there reserved => ?_⟩
  · obtain ⟨positive, below, latest⟩ := current.found i session active id e (found_script found)
    refine ⟨positive, below, fun cur there => ?_⟩
    simp only at there
    by_cases same : id = cartId
    · subst same
      rw [update_self] at there
      cases there
      have older := above e (found_script found)
      exact ⟨Nat.le_of_lt older, fun equal => absurd equal (Nat.ne_of_lt older)⟩
    · rw [update_of_ne same] at there
      exact latest cur there
  · obtain ⟨before, apart⟩ := reserved_script reserved
    obtain ⟨below, absent, others⟩ := current.reserved i session active id before
    refine ⟨below, ?_, fun e found => (others i session active).1 e (found_script found), ?_⟩
    · simp only
      rw [update_of_ne apart, absent]
    · intro j other elsewhere there
      obtain ⟨other, was, same⟩ := sessions elsewhere there
      rw [same]
      exact ⟨(others j other was).1, (others j other was).2 elsewhere⟩
  · obtain ⟨other, was, same⟩ := sessions apart there
    rw [same] at reserved
    obtain ⟨-, -, others⟩ := current.reserved j other was id reserved
    exact ⟨fun e found => (others i session active).1 e (found_script found),
      fun mine => (others i session active).2 apart.symm (reserved_script mine).1⟩

theorem Current.script (current : Current s) (active : s.sessions i = some session)
    (allowed : (Command.evalsha cartId version payload).Allowed session.request session.trace)
    (accepted : casAllows (s.world.carts cartId) version = true)
    (ok : (s.world.carts cartId).isSome = true ∨ version = 0) :
    Changes session.request session.trace cartId (s.world.carts cartId)
        (some ⟨payload, nextVersion (s.world.carts cartId)⟩) ∧
      cartId < s.world.drawn ∧
      (∀ j other, s.sessions j = some other → ∀ e, Found other.trace cartId e →
        e.version < nextVersion (s.world.carts cartId)) ∧
      ∀ j other, j ≠ i → s.sessions j = some other → ¬ Reserved other.trace cartId := by
  obtain ⟨-, -, created | ⟨e, found, same, named, alters⟩⟩ := allowed
  · obtain ⟨rfl, reserved, creates, lines, coupons⟩ := created
    obtain ⟨below, absent, others⟩ := current.reserved i session active cartId reserved
    rw [absent]
    exact ⟨.create creates lines coupons, below,
      fun j other there e found => absurd found ((others j other there).1 e),
      fun j other apart there => (others j other there).2 apart⟩
  · obtain ⟨positive, below, latest⟩ := current.found i session active cartId e found
    cases there : s.world.carts cartId with
    | none =>
      -- the version found is above 0
      rw [there] at ok
      rcases ok with present | zero
      · cases present
      · omega
    | some cur =>
      have version' : cur.version = version := by simpa [there, casAllows] using accepted
      have unchanged : e = cur := (latest cur there).2 (same.trans version'.symm)
      subst unchanged
      refine ⟨.alter named alters, below, fun j other active' e' found' => ?_, ?_⟩
      · have older := ((current.found j other active' cartId e' found').2.2 e there).1
        exact lt_succ_of_le older
      · intro j other apart active' reserved
        cases (current.reserved j other active' cartId reserved).2.1.symm.trans there

theorem Executed.Confined.later {request : Request} {x y : Executed}
    (confined : x.Confined request trace) : x.Confined request (y :: trace) :=
  fun cartId => (confined cartId).later

theorem confined_of_reads {request : Request} {q : Command}
    (same : ∀ cartId, (q.after w).carts cartId = w.carts cartId ∨ (∃ userId, request = .merge cartId
      userId) ∧ (q.after w).carts cartId = none) :
    Executed.Confined request trace ⟨q, w⟩ := by
  intro cartId
  rcases same cartId with kept | ⟨⟨userId, merges⟩, gone⟩
  · change Changes request trace cartId (w.carts cartId) ((q.after w).carts cartId)
    rw [kept]
    exact .keep
  · change Changes request trace cartId (w.carts cartId) ((q.after w).carts cartId)
    rw [gone]
    exact .delete merges

/-- **One command** that is prompt. -/
theorem Current.exec [DecidableEq ι] (current : Current s) {i : ι} {session : Session}
    {q : Command} {rest : q.Answer → Call Response} (active : s.sessions i = some session)
    (calls : session.program = .call q rest)
    (allowed : q.Allowed session.request session.trace) (ok : prompt s (.run i) = true) :
    Current ((s.change (q.after s.world)).set i (some (session.exec s.world q rest))) := by
  have earlier : ∀ x ∈ session.trace,
      x.Confined session.request (⟨q, s.world⟩ :: session.trace) := fun x member =>
    (current.confined i session active x member).later
  have goes : (∀ cartId e, (q.after s.world).carts cartId = some e →
        s.world.carts cartId = some e) → s.world.drawn ≤ (q.after s.world).drawn →
      (q = .ulid → s.world.drawn < (q.after s.world).drawn) →
      (∀ cartId, (q.after s.world).carts cartId = s.world.carts cartId ∨
        (∃ userId, session.request = .merge cartId userId) ∧
          (q.after s.world).carts cartId = none) →
      Current ((s.change (q.after s.world)).set i (some (session.exec s.world q rest))) := by
    intro shrinks draws draw same
    refine (current.change shrinks draws).goes (current.reads active shrinks draws draw) ?_
    intro x member
    rcases mem_cons.mp member with rfl | before
    · exact confined_of_reads same
    · exact earlier x before
  cases q with
  | evalsha cartId version payload =>
    cases accepted : casAllows (s.world.carts cartId) version with
    | false =>
      have world := @Command.after_refused _ _ _ payload accepted
      refine goes ?_ ?_ nofun ?_
      · rw [world]
        exact fun _ _ there => there
      · rw [world]
      · rw [world]
        exact fun _ => .inl rfl
    | true =>
      have fine : (s.world.carts cartId).isSome = true ∨ version = 0 := by
        obtain ⟨request, program, trace, moved, disturbed⟩ := session
        subst calls
        simpa [prompt, active] using ok
      obtain ⟨changes, below, above, unreserved⟩ :=
        current.script active allowed accepted fine
      have world := @Command.after_accepted _ _ _ payload accepted
      have others : ∀ {j other}, (s.set i none).sessions j = some other →
          j ≠ i ∧ s.sessions j = some other := by
        intro j other there
        rcases active_of_set there with ⟨-, none⟩ | still
        · cases none
        · exact still
      have cleared : Current (s.set i none) := current.fresh i nofun
      have written := @Current.write _ _ cleared cartId
        ⟨payload, nextVersion (s.world.carts cartId)⟩ (succ_pos _) below
        (fun j other there => above j other (others there).2)
        (fun j other there => unreserved j other (others there).1 (others there).2)
      rw [world, ← set_of_change]
      refine written.goes (current.wrote active (above i session active)) ?_
      intro x member
      rcases mem_cons.mp member with rfl | before
      · intro id
        rw [world]
        simp only
        by_cases same : id = cartId
        · subst same
          rw [update_self]
          exact changes.later
        · rw [update_of_ne same]
          exact .keep
      · exact earlier x before
  | del cartId =>
    refine goes (fun id e found => stored_of_removed found) (le_refl _) nofun fun id => ?_
    by_cases same : id = cartId
    · subst same
      exact .inr ⟨allowed, update_self ..⟩
    · exact .inl (update_of_ne same ..)
  | ulid =>
    exact goes (fun _ _ found => found) (le_succ _) (fun _ => lt_succ_self _) fun _ => .inl rfl
  | _ => exact goes (fun _ _ found => found) (le_refl _) nofun fun _ => .inl rfl

/-- **One step** that is prompt. -/
theorem Current.step [DecidableEq ι] (current : Current s) (sheltered : Sheltered s)
    {event : Event ι} (ok : prompt s event = true) : Current (s.step event) := by
  have moves := moves_step s event
  generalize s.step event = after at moves
  cases moves with
  | idle => exact current
  | start free =>
    refine current.fresh _ ?_
    rintro now ⟨⟩
    rfl
  | @done i session _ active | @fail i session _ active =>
    have cleared : Current (s.set i none) := current.fresh i nofun
    refine ⟨cleared.stored, cleared.found, cleared.reserved, cleared.confined, fun e member => ?_⟩
    rcases mem_cons.mp member with rfl | before
    · exact current.confined i session active
    · exact current.ended e before
  | @exec i session q rest active calls =>
    have modest := sheltered.modest i session active
    rw [calls] at modest
    cases modest with
    | call allowed after =>
      have goes := current.exec active calls allowed ok
      exact ⟨goes.stored, goes.found, goes.reserved, goes.confined, goes.ended⟩
  | abort => exact current.fresh _ nofun
  | expire => exact current.change (fun id e found => stored_of_removed found) (le_refl _)
  | expireIndex | outside => exact current.change (fun _ _ found => found) (le_refl _)

end Current

/-- **Carts are well formed and calls change what they name.** In a run of admitted
requests in which no script runs on an absent key under a version other than 0, in every
state reached: every stored cart has distinct SKUs and coupons and keeps the limits, and
each call that has succeeded changed only the lines and coupons that its request names. -/
theorem shaped_of_prompt {ι : Type} [DecidableEq ι] {s : State ι}
    (reached : ((carts ι).restrict fun s event =>
      admits event = true ∧ prompt s event = true).Reachable s) : Shaped s := by
  have holds : Sheltered s ∧ Current s := by
    refine System.Reachable.invariant (I := fun s => Sheltered s ∧ Current s) ?_ ?_ reached
    · rintro s rfl
      refine ⟨⟨nofun, nofun⟩, nofun, ?_, ?_, ?_, ?_⟩ <;> intros <;> contradiction
    · rintro s event t ⟨sheltered, current⟩ ⟨⟨admitted, ok⟩, rfl⟩
      exact ⟨sheltered.step admitted, current.step sheltered ok⟩
  exact ⟨fun cartId e found => (holds.1.sane cartId e found).2,
    fun e member _ _ => holds.2.ended e member⟩

theorem shaped_after_add :
    Shaped (addedOnce.foldl step {}) ∧ (addedOnce.foldl step {}).ended.map (·.request) =
        [.addLine 0 7 2 1, .create none "EGP" "EG"] :=
  ⟨shaped_of_prompt (System.Reachable.foldl_restrict (by decide +kernel)), by decide +kernel⟩

/-- Two devices add a line to an anonymous cart while a login deletes it. The first script
finds no cart, so the second finds version 1 again. -/
def addedBeside : List (Event Nat) :=
  ([.stock 7 (some ⟨70, 500, .active⟩), .stock 8 (some ⟨80, 900, .active⟩),
      .start 0 (.create none "EGP" "EG")] : List (Event Nat)) ++ List.replicate 4 (.run 0) ++
    ([.start 0 (.create (some 5) "EGP" "EG")] : List (Event Nat)) ++ List.replicate 5 (.run 0) ++
    ([.start 0 (.addLine 0 7 2 1)] : List (Event Nat)) ++ List.replicate 4 (.run 0) ++
    ([.start 1 (.addLine 0 8 1 1)] : List (Event Nat)) ++ List.replicate 4 (.run 1) ++
    ([.start 2 (.merge 0 5)] : List (Event Nat)) ++ List.replicate 7 (.run 2) ++
    ([.run 0, .run 0, .run 1, .run 1] : List (Event Nat))

/-- The second call removes the line of the first. -/
theorem added_line_vanishes : (∀ event ∈ addedBeside, admits event = true) ∧
    ¬ Shaped (addedBeside.foldl step {}) := by
  have vanishes : ∃ e ∈ (addedBeside.foldl step {}).ended, e.request = .addLine 0 8 1 1 ∧
      e.result.toOption.isSome = true ∧ ∃ x ∈ e.trace,
        ((x.world.carts 0).bind fun c => lineOf c.data.lines 7).isSome = true ∧
        (((x.command.after x.world).carts 0).map fun c => lineOf c.data.lines 7) = some none := by
    decide +kernel
  refine ⟨by decide +kernel, fun shaped => ?_⟩
  obtain ⟨e, member, request, succeeded, x, executed, there, gone⟩ := vanishes
  cases result : e.result with
  | error error =>
    rw [result] at succeeded
    cases succeeded
  | ok response =>
    have changes := shaped.changes e member response result x executed 0
    rw [request] at changes
    generalize x.world.carts 0 = before at there changes
    generalize (x.command.after x.world).carts 0 = after at gone changes
    cases changes with
    | keep =>
      cases before with
      | none => cases gone
      | some c =>
        rw [map_some, some.injEq] at gone
        rw [bind_some, gone] at there
        cases there
    | create => cases there
    | delete merges => cases merges
    | alter named alters =>
      have unnamed : ¬ (7 : ID) = 8 := by decide
      have kept := alters.lines 7 unnamed
      rw [map_some, some.injEq, kept] at gone
      rw [bind_some, gone] at there
      cases there

end Souq.Carts
