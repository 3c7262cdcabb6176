import Souq.Lib.ReadCommitted

/-!
# Locks that make interleavings serial

A transaction that reads only rows it has locked, and writes only rows it has
locked, can be thought of as happening at its commit: running it from the start
on the tables committed by then leads to the same answers and the same writes.
A transaction may begin with reads that lock nothing. It then counts from the
statement after them, so that what is left of it has to be offered as well. A
first statement that picks the rows it locks may be replaced by one that names
them.

The main result is `Discipline.serial`: every committed state of concurrent
transactions that keep to the discipline is reached by running transactions one
after another.
-/

namespace Transact

open Transition List Dialect

variable {D : Dialect} {ι ε α β : Type}

namespace Program

/-- A program that cannot succeed, whatever its statements answer. -/
def Doomed (good : D.Stmt → Prop) : Program D ε α → Prop
  | .done _ => False
  | .fail _ => True
  | .call q rest => good q ∧ ∀ answer, (rest answer).Doomed good

variable {good : D.Stmt → Prop}

theorem bind_assoc {γ : Type} (p : Program D ε α) (f : α → Program D ε β)
    (g : β → Program D ε γ) : (p >>= f) >>= g = p >>= fun a => f a >>= g := by
  change (p.bind f).bind g = p.bind fun a => (f a).bind g
  induction p with
  | done a => rfl
  | fail e => rfl
  | call q rest ih => exact congrArg (Program.call q) (funext ih)

variable {p : Program D ε α}

theorem Only.ensures {holds : D.Db → D.Stmt → Prop} (always : ∀ db q, good q → holds db q)
    {db : D.Db} {post : α → D.Db → Prop} (only : p.Only good)
    (ends : ∀ a after, p.run db = (.ok a, after) → post a after) : p.Ensures holds db post := by
  induction p generalizing db with
  | done a => exact ends a db rfl
  | fail e => trivial
  | call q rest ih => exact ⟨always db q only.1, ih _ (only.2 _) ends⟩

theorem Only.doomed_bind {f : α → Program D ε β} (first : p.Only good)
    (second : ∀ a, (f a).Doomed good) : (p >>= f).Doomed good := by
  change (p.bind f).Doomed good
  induction p with
  | done a => exact second a
  | fail e => trivial
  | call q rest ih => exact ⟨first.1, fun answer => ih answer (first.2 answer)⟩

theorem Only.run_leads (leads : D.Db → D.Db → Prop) (refl : ∀ db, leads db db)
    (trans : ∀ {db between after}, leads db between → leads between after → leads db after)
    (each : ∀ db q, good q → leads db (D.replay (D.writes q db) db)) (only : p.Only good)
    (db : D.Db) : leads db (p.run db).2 := by
  induction p generalizing db with
  | done a => exact refl db
  | fail e => exact refl db
  | call q rest ih => exact trans (each db q only.1) (ih _ (only.2 _) _)

theorem Doomed.not_ok (doomed : p.Doomed good) {db after : D.Db} {a : α} :
    p.run db ≠ (.ok a, after) := by
  induction p generalizing db with
  | done b => exact doomed.elim
  | fail e => exact nofun
  | call q rest ih => exact ih _ (doomed.2 _)

theorem Doomed.bind (doomed : p.Doomed good) (f : α → Program D ε β) :
    (p >>= f).Doomed good := by
  change (p.bind f).Doomed good
  induction p with
  | done a => exact doomed.elim
  | fail e => trivial
  | call q rest ih => exact ⟨doomed.1, fun answer => ih answer (doomed.2 answer)⟩

end Program

section Paths

variable (Rely : List D.Key → D.Db → D.Db → Prop) (Owns : List D.Key → D.Db → D.Write → Prop)
  (idle : D.Stmt → Prop)

/-- While the locks are held, nothing others commit changes what a statement of
the transaction did. -/
def Steady (q : D.Stmt) (writes : List D.Write) (held : List D.Key) (db : D.Db) : Prop :=
  ∀ db', Rely (held ++ D.keys q (D.replay writes db)) db db' →
    D.answer q (D.replay writes db') = D.answer q (D.replay writes db) ∧
      D.writes q (D.replay writes db') = D.writes q (D.replay writes db) ∧
      D.keys q (D.replay writes db') = D.keys q (D.replay writes db)

/-- The locks cover row versions that are written one after another. -/
def OwnsAll (held : List D.Key) : D.Db → List D.Write → Prop
  | _, [] => True
  | db, w :: ws => Owns held db w ∧ OwnsAll held (D.put w db) ws

def Quiet (q : D.Stmt) (db : D.Db) : Prop := D.writes q db = [] ∧ D.keys q db = []

/-- A statement in its place of a transaction keeps to the locks. -/
structure Covered (q : D.Stmt) (writes : List D.Write) (held : List D.Key) (db : D.Db) : Prop where
  steady : Steady Rely q writes held db
  owns : OwnsAll Owns (held ++ D.keys q (D.replay writes db)) (D.replay writes db)
    (D.writes q (D.replay writes db))

/-- A transaction, run alone on the tables, gets this far. Its first statement
locks or writes something. -/
inductive Follows (p : Program D ε α) (db : D.Db) :
    Program D ε α → List D.Write → List D.Key → Prop where
  | first {q : D.Stmt} {rest : D.Answer q → Program D ε α} (begins : p = .call q rest)
      (acts : ¬ Quiet q db) (steady : Steady Rely q [] [] db) :
      Follows p db (rest (D.answer q db)) (D.writes q db) (D.keys q db)
  | next {q : D.Stmt} {rest : D.Answer q → Program D ε α} {writes : List D.Write}
      {held : List D.Key} (before : Follows p db (.call q rest) writes held)
      (steady : Steady Rely q writes held db) :
      Follows p db (rest (D.answer q (D.replay writes db)))
        (writes ++ D.writes q (D.replay writes db)) (held ++ D.keys q (D.replay writes db))

/-- The rest of a transaction keeps to the locks, or cannot succeed any more. -/
def Safe (db : D.Db) :
    Program D ε α → List D.Write → List D.Key → (α → List D.Write → List D.Key → Prop) → Prop
  | .done a, writes, held, post => post a writes held
  | .fail _, _, _, _ => True
  | .call q rest, writes, held, post =>
    D.skip q = none ∧ ((rest (D.answer q (D.replay writes db))).Doomed idle ∨
        Covered Rely Owns q writes held db ∧ Safe db (rest (D.answer q (D.replay writes db)))
            (writes ++ D.writes q (D.replay writes db)) (held ++ D.keys q (D.replay writes db))
            post)

variable {Rely Owns idle}

variable {db : D.Db} {q : D.Stmt} {writes : List D.Write} {held : List D.Key}
  {post : α → List D.Write → List D.Key → Prop} {p rest : Program D ε α}

theorem Safe.call {rest : D.Answer q → Program D ε α} {answer : D.Answer q}
    (waits : D.skip q = none) (answers : D.answer q (D.replay writes db) = answer)
    (covered : Covered Rely Owns q writes held db)
    (later : Safe Rely Owns idle db (rest answer) (writes ++ D.writes q (D.replay writes db)) (held
      ++ D.keys q (D.replay writes db)) post) :
    Safe Rely Owns idle db (.call q rest) writes held post := by
  subst answers
  exact ⟨waits, .inr ⟨covered, later⟩⟩

theorem Safe.call_doomed {rest : D.Answer q → Program D ε α} {answer : D.Answer q}
    (waits : D.skip q = none) (answers : D.answer q (D.replay writes db) = answer)
    (doomed : (rest answer).Doomed idle) :
    Safe Rely Owns idle db (.call q rest) writes held post := by
  subst answers
  exact ⟨waits, .inl doomed⟩

theorem Safe.mono {post' : α → List D.Write → List D.Key → Prop}
    (safe : Safe Rely Owns idle db p writes held post)
    (weaker : ∀ a writes held, post a writes held → post' a writes held) :
    Safe Rely Owns idle db p writes held post' := by
  induction p generalizing writes held with
  | done a => exact weaker _ _ _ safe
  | fail e => trivial
  | call q rest ih =>
    obtain ⟨waits, doomed | ⟨covered, later⟩⟩ := safe
    · exact ⟨waits, .inl doomed⟩
    · exact ⟨waits, .inr ⟨covered, ih _ later⟩⟩

theorem Safe.bind {f : α → Program D ε β} {post' : β → List D.Write → List D.Key → Prop}
    (safe : Safe Rely Owns idle db p writes held post)
    (continues : ∀ a writes held, post a writes held → Safe Rely Owns idle db (f a) writes held
      post') :
    Safe Rely Owns idle db (p >>= f) writes held post' := by
  change Safe Rely Owns idle db (p.bind f) writes held post'
  induction p generalizing writes held with
  | done a => exact continues _ _ _ safe
  | fail e => trivial
  | call q rest ih =>
    obtain ⟨waits, doomed | ⟨covered, later⟩⟩ := safe
    · exact ⟨waits, .inl (doomed.bind f)⟩
    · exact ⟨waits, .inr ⟨covered, ih _ later⟩⟩

theorem Safe.void (safe : Safe Rely Owns idle db p writes held fun _ _ _ => True) :
    Safe Rely Owns idle db p.void writes held fun _ _ _ => True :=
  safe.bind fun _ _ _ _ => trivial

theorem Safe.forEach {body : β → Program D ε Unit} {bs : List β}
    {good : List D.Write → List D.Key → Prop}
    (each : ∀ b ∈ bs, ∀ writes held, good writes held → Safe Rely Owns idle db (body b) writes held
      fun _ => good) (start : good writes held) :
    Safe Rely Owns idle db (Program.forEach body bs) writes held fun _ => good := by
  induction bs generalizing writes held with
  | nil => exact start
  | cons b bs ih =>
    rw [Program.forEach_cons]
    exact (each b mem_cons_self writes held start).bind fun _ _ _ still =>
      ih (fun other member => each other (mem_cons_of_mem b member)) still

theorem Follows.opened (follows : Follows Rely p db rest writes held)
    {later : D.Answer q → Program D ε α} (begins : p = .call q later) :
    ¬ Quiet q db ∧ ∀ key ∈ D.keys q db, key ∈ held := by
  induction follows with
  | first begun loud =>
    cases begun.symm.trans begins
    exact ⟨loud, fun key member => member⟩
  | next _ _ ih => exact ⟨ih.1, fun key member => mem_append_left _ (ih.2 key member)⟩

theorem Follows.run (follows : Follows Rely p db rest writes held) :
    p.run db = rest.run (D.replay writes db) := by
  induction follows with
  | first begins => rw [begins]; rfl
  | next _ _ ih => rw [ih, replay_append]; rfl

theorem Follows.ensures {good : D.Db → D.Stmt → Prop} {post : α → D.Db → Prop}
    (follows : Follows Rely p db rest writes held) (ensures : p.Ensures good db post) :
    rest.Ensures good (D.replay writes db) post := by
  induction follows with
  | first begins => subst begins; exact ensures.2
  | next _ _ ih => rw [replay_append]; exact ih.2

end Paths

/-- What the first statement of an offered transaction has to do. Where it takes
locks, the transaction from there on is that of an offered one, and keeps to the
locks. -/
structure Opens (Valid : D.Db → Prop) (Rely : List D.Key → D.Db → D.Db → Prop)
    (Owns : List D.Key → D.Db → D.Write → Prop) (idle : D.Stmt → Prop)
    (offered : Program D ε α → Prop) (q : D.Stmt) (rest : D.Answer q → Program D ε α) : Prop where
  skips : ∀ answer, D.skip q = some answer → offered (rest answer)
  reads : ∀ db, Quiet q db → offered (rest (D.answer q db))
  begins : ∀ db, Valid db → ¬ Quiet q db → (rest (D.answer q db)).Doomed idle ∨
    ∃ p, offered p ∧ Follows Rely p db (rest (D.answer q db)) (D.writes q db) (D.keys q db)
  locks : ∀ db, ¬ Quiet q db → (rest (D.answer q db)).Doomed idle ∨
    OwnsAll Owns (D.keys q db) db (D.writes q db) ∧
      Safe Rely Owns idle db (rest (D.answer q db)) (D.writes q db) (D.keys q db) fun _ _ _ => True

theorem Opens.of_covered {Valid : D.Db → Prop} {Rely : List D.Key → D.Db → D.Db → Prop}
    {Owns : List D.Key → D.Db → D.Write → Prop} {idle : D.Stmt → Prop}
    {offered : Program D ε α → Prop} {q : D.Stmt} {rest : D.Answer q → Program D ε α}
    (offers : offered (.call q rest)) (waits : D.skip q = none)
    (reads : ∀ db answer, D.answer q db = answer → Quiet q db → offered (rest answer))
    (acts : ∀ db answer, D.answer q db = answer → ¬ Quiet q db → (rest answer).Doomed idle ∨
      Covered Rely Owns q [] [] db ∧
        Safe Rely Owns idle db (rest answer) (D.writes q db) (D.keys q db) fun _ _ _ => True) :
    Opens Valid Rely Owns idle offered q rest where
  skips := fun answer skips => by cases waits.symm.trans skips
  reads := fun db quiet => reads db _ rfl quiet
  begins := fun db _ loud => (acts db _ rfl loud).imp_right fun acts =>
    ⟨_, offers, .first rfl loud acts.1.steady⟩
  locks := fun db loud => (acts db _ rfl loud).imp_right fun acts => ⟨acts.1.owns, acts.2⟩

def Program.Opens (Valid : D.Db → Prop) (Rely : List D.Key → D.Db → D.Db → Prop)
    (Owns : List D.Key → D.Db → D.Write → Prop) (idle : D.Stmt → Prop)
    (offered : Program D ε α → Prop) : Program D ε α → Prop
  | .done _ => True
  | .fail _ => True
  | .call q rest => Transact.Opens Valid Rely Owns idle offered q rest

/-- How the transactions of an offer use their locks. `Rely` is what a commit
leaves alone as long as the locks are held, and `Owns` when locks cover a write;
a transaction that cannot succeed any more sends `idle` statements only. -/
structure Discipline (Valid : D.Db → Prop) (Rely : List D.Key → D.Db → D.Db → Prop)
    (Owns : List D.Key → D.Db → D.Write → Prop) (idle : D.Stmt → Prop)
    (offered : Program D ε α → Prop) : Prop where
  valid : ∀ {db}, Valid db → ∀ w, Valid (D.put w db)
  refl : ∀ held db, Rely held db db
  trans : ∀ {held db db' db''}, Rely held db db' → Rely held db' db'' → Rely held db db''
  mono : ∀ {held more db db'}, Rely (held ++ more) db db' → Rely held db db'
  guarantee : ∀ {held others db w}, Owns held db w → (∀ key ∈ others, key ∉ held) →
    Rely others db (D.put w db)
  opens : ∀ p, offered p → p.Opens Valid Rely Owns idle offered

def serial (start : D.Db) (offered : Program D ε α → Prop) : System D.Db (Program D ε α) where
  init := fun db => db = start
  step := fun db p after => offered p ∧ after = p.inTx db

namespace Discipline

variable {Valid : D.Db → Prop} {Rely : List D.Key → D.Db → D.Db → Prop}
  {Owns : List D.Key → D.Db → D.Write → Prop} {idle : D.Stmt → Prop}
  {offered : Program D ε α → Prop}
  (discipline : Discipline Valid Rely Owns idle offered)

include discipline

variable {writes : List D.Write} {held : List D.Key} {db : D.Db}

theorem steady {q : D.Stmt} {db' : D.Db} (steady : Steady Rely q writes held db)
    (rely : Rely (held ++ D.keys q (D.replay writes db)) db db') :
    Steady Rely q writes held db' := by
  obtain ⟨answer, wrote, keys⟩ := steady db' rely
  intro db'' later
  rw [keys] at later
  rw [answer, wrote, keys]
  exact steady db'' (discipline.trans rely later)

theorem ownsAll {others : List D.Key} {ws : List D.Write} (owns : OwnsAll Owns held db ws)
    (apart : ∀ key ∈ others, key ∉ held) :
    Rely others db (D.replay ws db) := by
  induction ws generalizing db with
  | nil => exact discipline.refl others db
  | cons w ws ih => exact discipline.trans (discipline.guarantee owns.1 apart) (ih owns.2)

/-- The locks keep a transaction on its path while others commit. -/
theorem follows {p rest : Program D ε α} {db' : D.Db} (path : Follows Rely p db rest writes held)
    (rely : Rely held db db') : Follows Rely p db' rest writes held := by
  induction path with
  | @first q rest begins acts steady =>
    obtain ⟨answer, writes, keys⟩ := steady db' rely
    simp only [replay_nil] at answer writes keys
    rw [← answer, ← writes, ← keys]
    refine .first begins ?_ (discipline.steady steady rely)
    unfold Quiet
    rwa [writes, keys]
  | @next q rest writes held before steady ih =>
    obtain ⟨answer, wrote, keys⟩ := steady db' rely
    have earlier := ih (discipline.mono rely)
    rw [← answer, ← wrote, ← keys]
    exact .next earlier (discipline.steady steady rely)

/-- A transaction on its path keeps to the locks and has disturbed nobody, or it
cannot succeed any more. -/
theorem safe {p rest : Program D ε α} (offers : offered p)
    (path : Follows Rely p db rest writes held) :
    rest.Doomed idle ∨ Safe Rely Owns idle db rest writes held (fun _ _ _ => True) ∧
      ∀ others, (∀ key ∈ others, key ∉ held) → Rely others db (D.replay writes db) := by
  induction path with
  | @first q rest begins acts steady =>
    subst begins
    obtain doomed | ⟨owns, later⟩ := (discipline.opens _ offers).locks db acts
    · exact .inl doomed
    · exact .inr ⟨later, fun others apart => discipline.ownsAll owns apart⟩
  | @next q rest writes held before steady ih =>
    obtain doomed | ⟨⟨-, doomed | ⟨covered, later⟩⟩, undisturbed⟩ := ih
    · exact .inl (doomed.2 _)
    · exact .inl doomed
    · refine .inr ⟨later, fun others apart => ?_⟩
      rw [replay_append]
      refine discipline.trans (undisturbed others ?_) (discipline.ownsAll covered.owns apart)
      exact fun key member held => apart key member (mem_append_left _ held)

end Discipline

/-- Where a transaction in progress stands. -/
inductive Tracks (Rely : List D.Key → D.Db → D.Db → Prop) (idle : D.Stmt → Prop)
    (offered : Program D ε α → Prop) (db : D.Db) (s : Session D ε α) : Prop where
  | doomed (doomed : s.program.Doomed idle)
  | reading (offers : offered s.program) (writes : s.writes = []) (held : s.held = [])
  | acting (p : Program D ε α) (offers : offered p)
      (path : Follows Rely p db s.program s.writes s.held)

namespace Config

/-- No two transactions hold the same lock. -/
def Apart (c : Config D ι ε α) : Prop :=
  ∀ i j s other, i ≠ j → c.sessions i = some s → c.sessions j = some other →
    ∀ key ∈ s.held, key ∉ other.held

variable [DecidableEq ι] {c : Config D ι ε α} {i : ι}

theorem Apart.set (apart : c.Apart) (session : Option (Session D ε α))
    (free : ∀ s, session = some s → ∀ j other, j ≠ i → c.sessions j = some other →
      ∀ key ∈ s.held, key ∉ other.held) : (c.set i session).Apart := by
  intro j k s other different found found'
  simp only [Config.set, Function.update_apply] at found found'
  split at found <;> split at found'
  · exact (different (by simp [*])).elim
  · exact free s found k other ‹_› found'
  · intro key held held'
    exact free other found' j s ‹_› found key held' held
  · exact apart j k s other different found found'

theorem Apart.exec {s : Session D ε α} {q : D.Stmt} {rest : D.Answer q → Program D ε α}
    (apart : c.Apart) (active : c.sessions i = some s) (free : ¬ c.Blocked i s q) :
    (c.set i (some (s.exec c.db q rest))).Apart := by
  refine apart.set _ ?_
  rintro _ ⟨⟩ j other different found key member held
  rcases mem_append.mp member with old | new
  · exact apart i j s other different.symm active found key old held
  · refine free ⟨j, different, key, new, ?_⟩
    simpa only [heldBy, found, Option.elim_some] using held

end Config

/-- What holds of concurrent transactions that keep to the discipline. -/
structure Config.Serial (Valid : D.Db → Prop) (Rely : List D.Key → D.Db → D.Db → Prop)
    (idle : D.Stmt → Prop)
    (start : D.Db) (offered : Program D ε α → Prop) (c : Config D ι ε α) : Prop where
  valid : Valid c.db
  serial : (serial start offered).Reachable c.db
  apart : c.Apart
  tracks : ∀ i s, c.sessions i = some s → Tracks Rely idle offered c.db s

theorem Config.Serial.set [DecidableEq ι] {Valid : D.Db → Prop}
    {Rely : List D.Key → D.Db → D.Db → Prop}
    {idle : D.Stmt → Prop} {start : D.Db} {offered : Program D ε α → Prop} {c : Config D ι ε α}
    (good : c.Serial Valid Rely idle start offered) (i : ι) (session : Option (Session D ε α))
    (apart : (c.set i session).Apart)
    (tracks : ∀ s, session = some s → Tracks Rely idle offered c.db s) :
    (c.set i session).Serial Valid Rely idle start offered := by
  refine ⟨good.valid, good.serial, apart, fun j s found => ?_⟩
  simp only [Config.set, Function.update_apply] at found
  split at found
  · exact tracks s found
  · exact good.tracks j s found

namespace Discipline

variable {Valid : D.Db → Prop} {Rely : List D.Key → D.Db → D.Db → Prop}
  {Owns : List D.Key → D.Db → D.Write → Prop} {idle : D.Stmt → Prop}
  {offered : Program D ε α → Prop} [DecidableEq ι]
  (discipline : Discipline Valid Rely Owns idle offered)

include discipline

variable {db : D.Db} {s : Session D ε α} {q : D.Stmt} {rest : D.Answer q → Program D ε α} {a : α}

theorem tracks_exec (valid : Valid db) (tracks : Tracks Rely idle offered db s)
    (calls : s.program = .call q rest) : Tracks Rely idle offered db (s.exec db q rest) := by
  cases tracks with
  | doomed doomed =>
    rw [calls] at doomed
    exact .doomed (doomed.2 _)
  | reading offers writes held =>
    rw [calls] at offers
    have view : s.view db = db := by rw [Session.view, writes, Dialect.replay_nil]
    by_cases quiet : Quiet q db
    · refine .reading ?_ ?_ ?_
      · simpa only [Session.exec, view] using (discipline.opens _ offers).reads db quiet
      · simp only [Session.exec, view, writes, quiet.1, append_nil]
      · simp only [Session.exec, view, held, quiet.2, append_nil]
    · obtain doomed | ⟨p, offers, path⟩ := (discipline.opens _ offers).begins db valid quiet
      · exact .doomed (by simpa only [Session.exec, view] using doomed)
      · refine .acting p offers ?_
        simpa only [Session.exec, view, writes, held, nil_append] using path
  | acting p offers path =>
    rw [calls] at path
    obtain doomed | ⟨⟨-, doomed | ⟨covered, -⟩⟩, -⟩ := discipline.safe offers path
    · exact .doomed (doomed.2 _)
    · exact .doomed doomed
    · exact .acting p offers (.next path covered.steady)

theorem tracks_skip {answer : D.Answer q} (tracks : Tracks Rely idle offered db s)
    (calls : s.program = .call q rest) (skips : D.skip q = some answer) :
    Tracks Rely idle offered db { s with program := rest answer } := by
  cases tracks with
  | doomed doomed =>
    rw [calls] at doomed
    exact .doomed (doomed.2 _)
  | reading offers writes held =>
    rw [calls] at offers
    exact .reading ((discipline.opens _ offers).skips answer skips) writes held
  | acting p offers path =>
    rw [calls] at path
    obtain doomed | ⟨⟨waits, -⟩, -⟩ := discipline.safe offers path
    · exact .doomed (doomed.2 _)
    · cases waits.symm.trans skips

theorem tracks_rely {db' : D.Db} (tracks : Tracks Rely idle offered db s)
    (rely : Rely s.held db db') : Tracks Rely idle offered db' s := by
  cases tracks with
  | doomed doomed => exact .doomed doomed
  | reading offers writes held => exact .reading offers writes held
  | acting p offers path => exact .acting p offers (discipline.follows path rely)

/-- A commit is the transaction run at that moment, and disturbs no other. -/
theorem commit (tracks : Tracks Rely idle offered db s) (finished : s.program = .done a) :
    (s.view db = db ∨ ∃ p, offered p ∧ p.run db = (.ok a, s.view db)) ∧
      ∀ others, (∀ key ∈ others, key ∉ s.held) → Rely others db (s.view db) := by
  cases tracks with
  | doomed doomed =>
    rw [finished] at doomed
    exact doomed.elim
  | reading offers writes held =>
    rw [Session.view, writes, Dialect.replay_nil]
    exact ⟨.inl rfl, fun others _ => discipline.refl others db⟩
  | acting p offers path =>
    rw [finished] at path
    obtain doomed | ⟨-, undisturbed⟩ := discipline.safe offers path
    · exact doomed.elim
    · exact ⟨.inr ⟨p, offers, path.run⟩, undisturbed⟩

/-- A transaction that would succeed if it were run now stays on its path. -/
theorem follows_exec {p : Program D ε α} {after : D.Db} (offers : offered p)
    (path : Follows Rely p db s.program s.writes s.held) (succeeds : p.run db = (.ok a, after))
    (calls : s.program = .call q rest) :
    Follows Rely p db (s.exec db q rest).program (s.exec db q rest).writes
      (s.exec db q rest).held := by
  have runs : s.program.run (D.replay s.writes db) = (.ok a, after) :=
    path.run.symm.trans succeeds
  rw [calls] at path runs
  obtain doomed | ⟨⟨-, doomed | ⟨covered, -⟩⟩, -⟩ := discipline.safe offers path
  · exact (doomed.not_ok runs).elim
  · exact (doomed.not_ok runs).elim
  · exact .next path covered.steady

theorem follows_waits {p : Program D ε α} {after : D.Db} (offers : offered p)
    (path : Follows Rely p db s.program s.writes s.held) (succeeds : p.run db = (.ok a, after))
    (calls : s.program = .call q rest) : D.skip q = none := by
  have runs : s.program.run (D.replay s.writes db) = (.ok a, after) :=
    path.run.symm.trans succeeds
  rw [calls] at path runs
  obtain doomed | ⟨⟨waits, -⟩, -⟩ := discipline.safe offers path
  · exact (doomed.not_ok runs).elim
  · exact waits

/-- **Serial equivalence.** Concurrent transactions that keep to the discipline
commit what transactions that run one after another commit. -/
theorem serial {start : D.Db} {c : Config D ι ε α} (base : Valid start)
    (reached : (Config.concurrent start offered).Reachable c) :
    c.Serial Valid Rely idle start offered := by
  refine reached.invariant ?_ ?_
  · rintro _ rfl
    exact ⟨base, .init rfl, fun _ _ _ _ _ => nofun, fun _ _ => nofun⟩
  · intro c i c' good taken
    cases taken with
    | start idle offers =>
      refine good.set i _ (good.apart.set _ ?_) ?_
      · rintro s ⟨⟩ j other - - key member
        cases member
      · rintro s ⟨⟩
        exact .reading offers rfl rfl
    | exec active calls free =>
      refine good.set i _ (good.apart.exec active free) ?_
      rintro s ⟨⟩
      exact discipline.tracks_exec good.valid (good.tracks i _ active) calls
    | @skip s q rest answer active calls blocked skips =>
      refine good.set i _ (good.apart.set _ ?_) ?_
      · rintro _ ⟨⟩ j other different found
        exact good.apart i j s other different.symm active found
      · rintro _ ⟨⟩
        exact discipline.tracks_skip (good.tracks i _ active) calls skips
    | @commit s a active finished =>
      obtain ⟨ran, undisturbed⟩ := discipline.commit (good.tracks i s active) finished
      have serial : (Transact.serial start offered).Reachable (s.view c.db) := by
        rcases ran with same | ⟨p, offers, ran⟩
        · rw [same]
          exact good.serial
        · exact good.serial.step ⟨offers, (Program.inTx_of_ok ran).symm⟩
      have cleared : (c.set i none).Apart := good.apart.set none nofun
      have keep : ∀ db w, Valid db → Valid (D.put w db) := fun _ w valid =>
        discipline.valid valid w
      have valid : Valid (s.view c.db) := replay_keeps keep good.valid s.writes
      refine ⟨valid, serial, cleared, fun j other found => ?_⟩
      simp only [Function.update_apply] at found
      split at found
      · cases found
      · exact discipline.tracks_rely (good.tracks j other found) (undisturbed other.held
          (good.apart j i other s ‹_› found active))
    | abort active => exact good.set i none (good.apart.set none nofun) nofun

end Discipline

theorem Config.reachable_mono [DecidableEq ι] {start : D.Db} {offered wider : Program D ε α → Prop}
    (wide : ∀ p, offered p → wider p) {c : Config D ι ε α}
    (reached : (Config.concurrent start offered).Reachable c) :
    (Config.concurrent start wider).Reachable c := by
  induction reached with
  | init initial => exact .init initial
  | @step s t i _ taken ih =>
    refine ih.step (a := i) ?_
    cases taken with
    | start idle offers => exact Step.start idle (wide _ offers)
    | exec active calls free => exact Step.exec active calls free
    | skip active calls blocked skips => exact Step.skip active calls blocked skips
    | commit active finished => exact Step.commit active finished
    | abort active => exact Step.abort active

end Transact
