import Mathlib.Data.Fintype.Defs
import Mathlib.Data.Fintype.Sets
import Souq.Lib.Program
import Souq.Lib.Transition

/-!
# Concurrent transactions under READ COMMITTED

Any number of transactions interleave statement by statement. A statement sees
the tables as committed at that moment together with the transaction's own
writes, takes its row locks, and waits while another transaction holds one of
them. Locks are kept until the transaction ends.

The proof rule assigns each transaction a note of what it has learned. A note has
to survive what other transactions commit, and every note has to allow a commit.
-/

namespace Transact

open Transition Function List Program

variable {D : Dialect} {ι ε α β : Type}

/-- A transaction in progress. -/
structure Session (D : Dialect) (ε α : Type) where
  program : Program D ε α
  writes : List D.Write := []
  held : List D.Key := []

/-- The committed tables and the transactions in progress. -/
structure Config (D : Dialect) (ι ε α : Type) where
  db : D.Db
  sessions : ι → Option (Session D ε α)

namespace Session

/-- What the next statement of the transaction sees. -/
def view (s : Session D ε α) (db : D.Db) : D.Db := D.replay s.writes db

def exec (s : Session D ε α) (db : D.Db) (q : D.Stmt) (rest : D.Answer q → Program D ε α) :
    Session D ε α where
  program := rest (D.answer q (s.view db))
  writes := s.writes ++ D.writes q (s.view db)
  held := s.held ++ D.keys q (s.view db)

end Session

namespace Config

/-- The row locks held at one place. -/
def heldBy (c : Config D ι ε α) (i : ι) : List D.Key := (c.sessions i).elim [] Session.held

/-- Another transaction holds a row lock the statement needs. -/
def Blocked (c : Config D ι ε α) (i : ι) (s : Session D ε α) (q : D.Stmt) : Prop :=
  ∃ j, j ≠ i ∧ ∃ key ∈ D.keys q (s.view c.db), key ∈ c.heldBy j

variable [DecidableEq ι]

instance [Fintype ι] [DecidableEq D.Key] (c : Config D ι ε α) (i : ι) (s : Session D ε α)
    (q : D.Stmt) : Decidable (c.Blocked i s q) :=
  inferInstanceAs (Decidable (∃ j, j ≠ i ∧ ∃ key ∈ D.keys q (s.view c.db), key ∈ c.heldBy j))

/-- Replace what runs at one place. -/
def set (c : Config D ι ε α) (i : ι) (s : Option (Session D ε α)) : Config D ι ε α :=
  { c with sessions := update c.sessions i s }

/-- One step of one transaction. It may be rolled back at any moment. -/
inductive Step (offered : Program D ε α → Prop) (c : Config D ι ε α) (i : ι) :
    Config D ι ε α → Prop where
  | start {p : Program D ε α} (idle : c.sessions i = none) (offers : offered p) :
      Step offered c i (c.set i (some { program := p }))
  | exec {s : Session D ε α} {q : D.Stmt} {rest : D.Answer q → Program D ε α}
      (active : c.sessions i = some s) (calls : s.program = .call q rest)
      (free : ¬ c.Blocked i s q) : Step offered c i (c.set i (some (s.exec c.db q rest)))
  | skip {s : Session D ε α} {q : D.Stmt} {rest : D.Answer q → Program D ε α}
      {answer : D.Answer q} (active : c.sessions i = some s) (calls : s.program = .call q rest)
      (blocked : c.Blocked i s q) (skips : D.skip q = some answer) :
      Step offered c i (c.set i (some { s with program := rest answer }))
  | commit {s : Session D ε α} {a : α} (active : c.sessions i = some s)
      (finished : s.program = .done a) :
      Step offered c i { db := s.view c.db, sessions := update c.sessions i none }
  | abort {s : Session D ε α} (active : c.sessions i = some s) : Step offered c i (c.set i none)

/-- No session has begun. -/
def idle (db : D.Db) : Config D ι ε α := ⟨db, fun _ => none⟩

/-- Transactions from an offer, on tables that nothing has touched yet. -/
def concurrent (start : D.Db) (offered : Program D ε α → Prop) : System (Config D ι ε α) ι where
  init := fun c => c = idle start
  step := fun c i c' => Step offered c i c'

/-- Let one transaction take its next step. A statement that has to wait changes
nothing; a failed transaction is rolled back and may be tried again. -/
def advance [Fintype ι] [DecidableEq D.Key] (again : ι → ε → Option (Program D ε α))
    (c : Config D ι ε α) (i : ι) : Config D ι ε α :=
  match c.sessions i with
  | none => c
  | some s =>
    match s.program with
    | .done _ => { db := s.view c.db, sessions := update c.sessions i none }
    | .fail e => c.set i ((again i e).map fun p => { program := p })
    | .call q rest =>
      if c.Blocked i s q then
        match D.skip q with
        | some answer => c.set i (some { s with program := rest answer })
        | none => c
      else c.set i (some (s.exec c.db q rest))

/-- What the next step of one transaction can be. -/
inductive Advances (again : ι → ε → Option (Program D ε α)) (c : Config D ι ε α) (i : ι) :
    Config D ι ε α → Prop where
  | stays : Advances again c i c
  | commit {s : Session D ε α} {a : α} (active : c.sessions i = some s)
      (finished : s.program = .done a) :
      Advances again c i { db := s.view c.db, sessions := update c.sessions i none }
  | retry {s : Session D ε α} {e : ε} (active : c.sessions i = some s)
      (failed : s.program = .fail e) :
      Advances again c i (c.set i ((again i e).map fun p => { program := p }))
  | skip {s : Session D ε α} {q : D.Stmt} {rest : D.Answer q → Program D ε α}
      {answer : D.Answer q} (active : c.sessions i = some s) (calls : s.program = .call q rest)
      (blocked : c.Blocked i s q) (skips : D.skip q = some answer) :
      Advances again c i (c.set i (some { s with program := rest answer }))
  | exec {s : Session D ε α} {q : D.Stmt} {rest : D.Answer q → Program D ε α}
      (active : c.sessions i = some s) (calls : s.program = .call q rest)
      (free : ¬ c.Blocked i s q) : Advances again c i (c.set i (some (s.exec c.db q rest)))

section Advance

variable [Fintype ι] [DecidableEq D.Key] {again : ι → ε → Option (Program D ε α)}
  {c : Config D ι ε α} {i : ι} {s : Session D ε α}

theorem advance_idle (idle : c.sessions i = none) : c.advance again i = c := by
  simp only [advance, idle]

theorem advance_done {a : α} (active : c.sessions i = some s) (finished : s.program = .done a) :
    c.advance again i = { db := s.view c.db, sessions := update c.sessions i none } := by
  simp only [advance, active, finished]

theorem advance_call {q : D.Stmt} {rest : D.Answer q → Program D ε α}
    (active : c.sessions i = some s) (calls : s.program = .call q rest)
    (free : ¬ c.Blocked i s q) :
    c.advance again i = c.set i (some (s.exec c.db q rest)) := by
  simp only [advance, active, calls, free, ↓reduceIte]

variable (c i) in
theorem advances : Advances again c i (c.advance again i) := by
  unfold advance
  cases active : c.sessions i with
  | none => exact .stays
  | some s =>
    cases program : s.program with
    | done a =>
      simp only [program]
      exact .commit active program
    | fail e =>
      simp only [program]
      exact .retry active program
    | call q rest =>
      simp only [program]
      split
      case isTrue blocked =>
        cases skips : D.skip q with
        | none => exact .stays
        | some answer => exact .skip active program blocked skips
      case isFalse free => exact .exec active program free

theorem advance_other {j : ι} (different : j ≠ i) :
    (c.advance again i).sessions j = c.sessions j := by
  have advances : Advances again c i (c.advance again i) := c.advances i
  generalize c.advance again i = c' at advances ⊢
  cases advances with
  | stays => rfl
  | commit | retry | skip | exec => exact update_of_ne different ..

variable (again) in
/-- A transaction that is left alone keeps its outcome with every step, until it
is committed. -/
theorem advance_alone {a : α} {after : D.Db} (alone : ∀ j, j ≠ i → c.sessions j = none)
    (active : c.sessions i = some s) (runs : s.program.run (s.view c.db) = (.ok a, after)) :
    (c.advance again i).db = after ∧ (c.advance again i).sessions i = none ∨
      ∃ s', (c.advance again i).sessions i = some s' ∧
        s'.program.run (s'.view (c.advance again i).db) = (.ok a, after) := by
  cases program : s.program with
  | done b =>
    rw [program, run_done] at runs
    rw [advance_done active program]
    exact .inl ⟨congrArg Prod.snd runs, update_self ..⟩
  | fail e =>
    rw [program] at runs
    cases runs
  | call q rest =>
    have free : ¬ c.Blocked i s q := by
      rintro ⟨j, different, key, -, held⟩
      simp only [heldBy, alone j different] at held
      cases held
    rw [advance_call active program free]
    refine .inr ⟨_, update_self .., ?_⟩
    rw [program] at runs
    rwa [Session.view, Session.exec, Dialect.replay_append]

end Advance

def alone (db : D.Db) (i : ι) (s : Session D ε α) : Config D ι ε α := (idle db).set i (some s)

variable {offered : Program D ε α → Prop}

theorem set_set (c : Config D ι ε α) (i : ι) (first second : Option (Session D ε α)) :
    (c.set i first).set i second = c.set i second := by
  simp only [set, update_idem]

variable {start : D.Db}

/-- The executable step is a step of concurrent transactions, or none, or a
rollback and a new start. -/
theorem leads_advance [Fintype ι] [DecidableEq D.Key] {again : ι → ε → Option (Program D ε α)}
    (offers : ∀ i e p, again i e = some p → offered p) (c : Config D ι ε α) (i : ι) :
    (concurrent start offered).Leads c (c.advance again i) := by
  have advances : Advances again c i (c.advance again i) := c.advances i
  generalize c.advance again i = c' at advances ⊢
  cases advances with
  | stays => exact .refl
  | commit active finished => exact .single ⟨i, Step.commit active finished⟩
  | @retry s e active failed =>
    have rolled : (concurrent start offered).Leads c (c.set i none) :=
      .single ⟨i, Step.abort active⟩
    cases retry : again i e with
    | none => exact rolled
    | some p =>
      have begun : Step offered (c.set i none) i ((c.set i none).set i _) :=
        .start (update_self ..) (offers i e p retry)
      rw [set_set] at begun
      exact rolled.tail ⟨i, begun⟩
  | skip active calls blocked skips => exact .single ⟨i, Step.skip active calls blocked skips⟩
  | exec active calls free => exact .single ⟨i, Step.exec active calls free⟩

theorem step_advance [Fintype ι] [DecidableEq D.Key] (c : Config D ι ε α) (i : ι) :
    c.advance (fun _ _ => none) i = c ∨ Step offered c i (c.advance (fun _ _ => none) i) := by
  have advances : Advances (fun _ _ => none) c i (c.advance (fun _ _ => none) i) := c.advances i
  generalize c.advance (fun _ _ => none) i = c' at advances ⊢
  cases advances with
  | stays => exact .inl rfl
  | commit active finished => exact .inr (.commit active finished)
  | retry active failed => exact .inr (.abort active)
  | skip active calls blocked skips => exact .inr (.skip active calls blocked skips)
  | exec active calls free => exact .inr (.exec active calls free)

/-- A schedule that a restriction permits leads on to a state it reaches. -/
theorem reachable_schedule [Fintype ι] [DecidableEq D.Key] {ok : Config D ι ε α → ι → Prop}
    {c : Config D ι ε α} {labels : List ι}
    (reached : ((concurrent start offered).restrict ok).Reachable c)
    (permits : System.Permits (advance fun _ _ => none) ok labels c) :
    ((concurrent start offered).restrict ok).Reachable
      (labels.foldl (advance fun _ _ => none) c) := by
  induction labels generalizing c with
  | nil => exact reached
  | cons i labels ih =>
    refine ih ?_ permits.2
    have next : c.advance (fun _ _ => none) i = c ∨ Step offered c i _ := c.step_advance i
    rcases next with same | taken
    · rwa [same]
    · exact reached.step ⟨permits.1, taken⟩

theorem alone_self (db : D.Db) (i : ι) (s : Session D ε α) :
    (alone db i s).sessions i = some s := update_self ..

theorem alone_set (db : D.Db) (i : ι) (s : Session D ε α) (next : Option (Session D ε α)) :
    (alone db i s).set i next = (idle db).set i next := set_set ..

theorem idle_set (db : D.Db) (i : ι) : (idle db : Config D ι ε α).set i none = idle db := by
  simp only [set, idle, Config.mk.injEq, true_and]
  exact update_eq_self i _

theorem alone_not_blocked (db : D.Db) (i : ι) (s : Session D ε α) (q : D.Stmt) :
    ¬ (alone db i s).Blocked i s q := by
  rintro ⟨j, different, key, -, held⟩
  simp only [heldBy, alone, set, update_of_ne different] at held
  cases held

/-- A transaction in progress that is left alone does what the rest of it does on
what it sees. -/
theorem leads_of_run {db after : D.Db} {a : α} (i : ι) (p : Program D ε α) (writes : List D.Write)
    (held : List D.Key) (runs : p.run (D.replay writes db) = (.ok a, after)) :
    (concurrent start offered).Leads (alone db i ⟨p, writes, held⟩) (idle after) := by
  induction p generalizing writes held with
  | done b =>
    obtain ⟨-, rfl⟩ : b = a ∧ D.replay writes db = after := by simpa using runs
    have last : Step offered (alone db i ⟨.done b, writes, held⟩) i
        ((idle (D.replay writes db)).set i none) := by
      rw [← alone_set _ i ⟨.done b, writes, held⟩]
      exact .commit (alone_self ..) rfl
    exact .single ⟨i, idle_set (D.replay writes db) i ▸ last⟩
  | fail e => cases runs
  | call q rest ih =>
    have next : Step offered (alone db i ⟨.call q rest, writes, held⟩) i _ :=
      .exec (alone_self db i ⟨.call q rest, writes, held⟩) rfl
        (alone_not_blocked db i ⟨.call q rest, writes, held⟩ q)
    rw [alone_set] at next
    exact .head ⟨i, next⟩ (ih _ (writes ++ D.writes q (D.replay writes db))
      (held ++ D.keys q (D.replay writes db)) (by rwa [Dialect.replay_append]))

/-- **Serial runs.** Transactions that do not overlap act as `inTx` says. -/
theorem leads_inTx (db : D.Db) (i : ι) {p : Program D ε α} (offers : offered p) :
    (concurrent start offered).Leads (idle db : Config D ι ε α) (idle (p.inTx db)) := by
  cases result : p.run db with
  | mk r after =>
    cases r with
    | error e =>
      rw [inTx_of_error result]
      exact .refl
    | ok a =>
      rw [inTx_of_ok result]
      have begun : (concurrent start offered).step (idle db) i
          (alone db i { program := p }) := .start rfl offers
      exact .head ⟨i, begun⟩ (leads_of_run i p [] [] result)

theorem reachable_inTx {db : D.Db} (i : ι) {p : Program D ε α} (offers : offered p)
    (reached : (concurrent start offered).Reachable (idle db : Config D ι ε α)) :
    (concurrent start offered).Reachable (idle (p.inTx db) : Config D ι ε α) :=
  reached.leads (leads_inTx db i offers)

end Config

section Rule

variable {K : Type} (Inv : D.Db → Prop) (Rely : List D.Key → D.Db → D.Db → Prop)
  (Note : K → D.Db → List D.Write → List D.Key → Prop)

/-- Every statement of the program leads from a note to a note, and the result
comes with one that meets the postcondition. -/
def Sound : Program D ε α → K → (Except ε α → K → Prop) → Prop
  | .done a, k, post => post (.ok a) k
  | .fail e, k, post => post (.error e) k
  | .call q rest, k, post =>
    (∀ db writes held, Inv db → Note k db writes held →
      ∃ k', Note k' db (writes ++ D.writes q (D.replay writes db))
          (held ++ D.keys q (D.replay writes db)) ∧
        Sound (rest (D.answer q (D.replay writes db))) k' post) ∧
    ∀ answer, D.skip q = some answer → ∃ k',
      (∀ db writes held, Note k db writes held → Note k' db writes held) ∧
        Sound (rest answer) k' post

/-- Notes survive the commits of others, and a commit keeps the invariant and
disturbs the others no more than they rely on. -/
structure Protocol : Prop where
  stable : ∀ k db db' writes held, Inv db' → Note k db writes held → Rely held db db' →
    Note k db' writes held
  commit : ∀ k db writes held, Inv db → Note k db writes held → Inv (D.replay writes db) ∧
      ∀ others, (∀ key ∈ others, key ∉ held) → Rely others db (D.replay writes db)

variable {Inv Rely Note}

variable {p : Program D ε α} {k : K}

/-- What follows a statement may be replaced by what is sound wherever it is. -/
theorem Sound.call {ε' : Type} {q : D.Stmt} {rest : D.Answer q → Program D ε α}
    {rest' : D.Answer q → Program D ε' β} {post : Except ε α → K → Prop}
    {post' : Except ε' β → K → Prop} (sound : Sound Inv Note (.call q rest) k post)
    (each : ∀ answer k, Sound Inv Note (rest answer) k post →
      Sound Inv Note (rest' answer) k post') :
    Sound Inv Note (.call q rest') k post' := by
  refine ⟨fun db writes held inv note => ?_, fun answer skips => ?_⟩
  · obtain ⟨k', note', later⟩ := sound.1 db writes held inv note
    exact ⟨k', note', each _ k' later⟩
  · obtain ⟨k', note', later⟩ := sound.2 answer skips
    exact ⟨k', note', each _ k' later⟩

theorem Sound.mono {post post' : Except ε α → K → Prop} (sound : Sound Inv Note p k post)
    (weaker : ∀ r k, post r k → post' r k) :
    Sound Inv Note p k post' := by
  induction p generalizing k with
  | done a => exact weaker _ _ sound
  | fail e => exact weaker _ _ sound
  | call q rest ih => exact sound.call fun answer _ => ih answer

theorem Sound.bind {f : α → Program D ε β} {post : Except ε α → K → Prop}
    {post' : Except ε β → K → Prop} (sound : Sound Inv Note p k post)
    (continues : ∀ a k, post (.ok a) k → Sound Inv Note (f a) k post')
    (fails : ∀ e k, post (.error e) k → post' (.error e) k) :
    Sound Inv Note (p >>= f) k post' := by
  change Sound Inv Note (p.bind f) k post'
  induction p generalizing k with
  | done a => exact continues _ _ sound
  | fail e => exact fails _ _ sound
  | call q rest ih => exact sound.call fun answer _ => ih answer

theorem Sound.attempt {ε' : Type} {post : Except ε' (Except ε α) → K → Prop}
    (sound : Sound Inv Note p k fun r k => post (.ok r) k) :
    Sound Inv Note p.attempt k post := by
  induction p generalizing k with
  | done a => exact sound
  | fail e => exact sound
  | call q rest ih => exact sound.call fun answer _ => ih answer

theorem Sound.forEach {body : β → Program D ε Unit} {bs : List β} {good : K → Prop}
    (each : ∀ b ∈ bs, ∀ k, good k → Sound Inv Note (body b) k fun _ k' => good k')
    (start : good k) :
    Sound Inv Note (forEach body bs) k fun _ k' => good k' := by
  induction bs generalizing k with
  | nil => exact start
  | cons b bs ih =>
    rw [forEach_cons]
    exact (each b mem_cons_self k start).bind
      (fun _ k' still => ih (fun other member => each other (mem_cons_of_mem b member)) still)
      fun _ _ still => still

/-- As a protocol, where a commit may also rely on what the result of the transaction
comes with. -/
structure Agreement (Inv : D.Db → Prop) (Rely : List D.Key → D.Db → D.Db → Prop)
    (Note : K → D.Db → List D.Write → List D.Key → Prop) (post : α → K → Prop) : Prop where
  stable : ∀ k db db' writes held, Inv db' → Note k db writes held → Rely held db db' →
    Note k db' writes held
  commit : ∀ a k db writes held, Inv db → Note k db writes held → post a k →
    Inv (D.replay writes db) ∧
      ∀ others, (∀ key ∈ others, key ∉ held) → Rely others db (D.replay writes db)

/-- A postcondition of the results; a failure promises nothing. -/
def Promised (post : α → K → Prop) (r : Except ε α) (k : K) : Prop := ∀ a, r = .ok a → post a k

/-- No row lock is held at two places. -/
def Config.Exclusive (c : Config D ι ε α) : Prop :=
  ∀ i j s other, i ≠ j → c.sessions i = some s → c.sessions j = some other →
    ∀ key ∈ s.held, key ∉ other.held

section Exclusive

variable [DecidableEq ι] {c : Config D ι ε α}

theorem Config.Exclusive.set (exclusive : c.Exclusive) (i : ι) (session : Option (Session D ε α))
    (apart : ∀ s, session = some s → ∀ j other, j ≠ i → c.sessions j = some other →
      ∀ key ∈ s.held, key ∉ other.held) : (c.set i session).Exclusive := by
  intro j k s other different found found'
  simp only [Config.set, update_apply] at found found'
  split at found <;> split at found'
  · exact (different (by simp [*])).elim
  · exact apart s found k other ‹_› found'
  · intro key held held'
    exact apart other found' j s ‹_› found key held' held
  · exact exclusive j k s other different found found'

omit [DecidableEq ι] in
theorem Config.Exclusive.taken (exclusive : c.Exclusive) {i : ι} {s : Session D ε α} {q : D.Stmt}
    {rest : D.Answer q → Program D ε α} (active : c.sessions i = some s)
    (free : ¬ c.Blocked i s q) {j : ι} {other : Session D ε α} (different : j ≠ i)
    (found : c.sessions j = some other) {key : D.Key} (member : key ∈ (s.exec c.db q rest).held) :
    key ∉ other.held := by
  intro held
  rcases mem_append.mp member with old | new
  · exact exclusive i j s other different.symm active found key old held
  · refine free ⟨j, different, key, new, ?_⟩
    simpa only [Config.heldBy, found, Option.elim_some] using held

theorem Config.Exclusive.exec (exclusive : c.Exclusive) {i : ι} {s : Session D ε α} {q : D.Stmt}
    {rest : D.Answer q → Program D ε α} (active : c.sessions i = some s)
    (free : ¬ c.Blocked i s q) : (c.set i (some (s.exec c.db q rest))).Exclusive := by
  refine exclusive.set i _ ?_
  rintro _ ⟨⟩ j other different found key member
  exact exclusive.taken active free different found member

end Exclusive

/-- What holds of a configuration throughout a run. -/
structure Config.Kept (Inv : D.Db → Prop) (Note : K → D.Db → List D.Write → List D.Key → Prop)
    (post : α → K → Prop) (c : Config D ι ε α) : Prop where
  inv : Inv c.db
  apart : ∀ i j s other, i ≠ j → c.sessions i = some s → c.sessions j = some other →
    ∀ key ∈ s.held, key ∉ other.held
  sound : ∀ i s, c.sessions i = some s → ∃ k, Note k c.db s.writes s.held ∧
    Sound Inv Note s.program k (Promised post)

/-- What holds of a configuration throughout a run where every note allows a commit. -/
structure Config.Good (Inv : D.Db → Prop) (Note : K → D.Db → List D.Write → List D.Key → Prop)
    (c : Config D ι ε α) : Prop where
  inv : Inv c.db
  apart : ∀ i j s other, i ≠ j → c.sessions i = some s → c.sessions j = some other →
    ∀ key ∈ s.held, key ∉ other.held
  sound : ∀ i s, c.sessions i = some s → ∃ k, Note k c.db s.writes s.held ∧
    Sound Inv Note s.program k fun _ _ => True

theorem Config.kept_idle {post : α → K → Prop} {start : D.Db} (base : Inv start) :
    (Config.idle start : Config D ι ε α).Kept Inv Note post :=
  ⟨base, fun _ _ _ _ _ => nofun, fun _ _ => nofun⟩

namespace Config.Kept

variable [DecidableEq ι] {post : α → K → Prop} {c : Config D ι ε α}

theorem set (kept : c.Kept Inv Note post) (i : ι) (session : Option (Session D ε α))
    (apart : ∀ s, session = some s → ∀ j other, j ≠ i → c.sessions j = some other →
      ∀ key ∈ s.held, key ∉ other.held)
    (sound : ∀ s, session = some s → ∃ k, Note k c.db s.writes s.held ∧
      Sound Inv Note s.program k (Promised post)) : (c.set i session).Kept Inv Note post := by
  have exclusive : c.Exclusive := kept.apart
  refine ⟨kept.inv, exclusive.set i session apart, fun j s found => ?_⟩
  simp only [Config.set, update_apply] at found
  split at found
  · exact sound s found
  · exact kept.sound j s found

theorem start (kept : c.Kept Inv Note post) (i : ι) {p : Program D ε α} {k : K}
    (note : ∀ db, Inv db → Note k db [] []) (sound : Sound Inv Note p k (Promised post)) :
    (c.set i (some { program := p })).Kept Inv Note post := by
  refine kept.set i _ ?_ ?_
  · rintro s ⟨⟩ j other - - key member
    cases member
  · rintro s ⟨⟩
    exact ⟨k, note c.db kept.inv, sound⟩

variable {i : ι} {s : Session D ε α}

theorem exec (kept : c.Kept Inv Note post) {q : D.Stmt} {rest : D.Answer q → Program D ε α}
    (active : c.sessions i = some s) (calls : s.program = .call q rest) (free : ¬ c.Blocked i s q) :
    (c.set i (some (s.exec c.db q rest))).Kept Inv Note post := by
  obtain ⟨k, note, sound⟩ := kept.sound i s active
  rw [calls] at sound
  obtain ⟨k', note', later⟩ := sound.1 c.db s.writes s.held kept.inv note
  have exclusive : c.Exclusive := kept.apart
  refine kept.set i _ ?_ ?_
  · rintro _ ⟨⟩ j other different found key member
    exact exclusive.taken active free different found member
  · rintro _ ⟨⟩
    exact ⟨k', note', later⟩

theorem skip (kept : c.Kept Inv Note post) {q : D.Stmt} {rest : D.Answer q → Program D ε α}
    {answer : D.Answer q} (active : c.sessions i = some s) (calls : s.program = .call q rest)
    (skips : D.skip q = some answer) :
    (c.set i (some { s with program := rest answer })).Kept Inv Note post := by
  obtain ⟨k, note, sound⟩ := kept.sound i s active
  rw [calls] at sound
  obtain ⟨k', weaker, later⟩ := sound.2 answer skips
  refine kept.set i _ ?_ ?_
  · rintro _ ⟨⟩ j other different found
    exact kept.apart i j s other different.symm active found
  · rintro _ ⟨⟩
    exact ⟨k', weaker _ _ _ note, later⟩

omit [DecidableEq ι] in
theorem finished (kept : c.Kept Inv Note post) {a : α} (active : c.sessions i = some s)
    (finished : s.program = .done a) :
    ∃ k, Note k c.db s.writes s.held ∧ post a k := by
  obtain ⟨k, note, sound⟩ := kept.sound i s active
  rw [finished] at sound
  exact ⟨k, note, sound a rfl⟩

omit [DecidableEq ι] in
theorem shift (kept : c.Kept Inv Note post) {db : D.Db} (inv : Inv db)
    (stable : ∀ i s k, c.sessions i = some s → Note k c.db s.writes s.held →
      Note k db s.writes s.held) : Config.Kept Inv Note post { c with db := db } := by
  refine ⟨inv, kept.apart, fun i s active => ?_⟩
  obtain ⟨k, note, sound⟩ := kept.sound i s active
  exact ⟨k, stable i s k active note, sound⟩

theorem leave (kept : c.Kept Inv Note post) (i : ι) {db : D.Db} (inv : Inv db)
    (stable : ∀ j other k, j ≠ i → c.sessions j = some other →
      Note k c.db other.writes other.held → Note k db other.writes other.held) :
    Config.Kept Inv Note post { db := db, sessions := update c.sessions i none } := by
  have others : ∀ j other, update c.sessions i none j = some other →
      j ≠ i ∧ c.sessions j = some other := by
    intro j other found
    rw [update_apply] at found
    split at found
    · cases found
    · exact ⟨‹_›, found⟩
  have ended : (c.set i none).Kept Inv Note post := kept.set i none nofun nofun
  refine ended.shift inv fun j other k found => ?_
  obtain ⟨different, found⟩ := others j other found
  exact stable j other k different found

theorem commit (kept : c.Kept Inv Note post) (agreement : Agreement Inv Rely Note post) {a : α}
    (active : c.sessions i = some s) (finished : s.program = .done a) :
    Config.Kept Inv Note post { db := s.view c.db, sessions := update c.sessions i none } := by
  obtain ⟨k, note, result⟩ := kept.finished active finished
  obtain ⟨inv, rely⟩ := agreement.commit a k c.db s.writes s.held kept.inv note result
  refine kept.leave i inv fun j other k' different found note' => ?_
  exact agreement.stable k' _ _ _ _ inv note'
    (rely other.held (kept.apart j i other s different found active))

theorem abort (kept : c.Kept Inv Note post) (i : ι) : (c.set i none).Kept Inv Note post :=
  kept.set i none nofun nofun

end Config.Kept

variable [DecidableEq ι]

/-- **Rule for concurrent transactions.** If notes follow the protocol and every
offered transaction is sound, the committed tables always meet the invariant. -/
theorem Protocol.good (protocol : Protocol Inv Rely Note) {start : D.Db}
    {offered : Program D ε α → Prop} (base : Inv start)
    (offers : ∀ p, offered p → ∃ k, (∀ db, Inv db → Note k db [] []) ∧
      Sound Inv Note p k fun _ _ => True)
    {c : Config D ι ε α} (reached : (Config.concurrent start offered).Reachable c) :
    c.Good Inv Note := by
  have agreement : Agreement Inv Rely Note fun (_ : α) (_ : K) => True :=
    ⟨protocol.stable, fun _ k db writes held inv note _ =>
      protocol.commit k db writes held inv note⟩
  have kept : c.Kept Inv Note fun _ _ => True := by
    refine reached.invariant ?_ ?_
    · rintro _ rfl
      exact Config.kept_idle base
    · intro c i c' kept taken
      cases taken with
      | start idle offer =>
        obtain ⟨k, note, sound⟩ := offers _ offer
        exact kept.start i note (sound.mono fun _ _ _ _ _ => trivial)
      | exec active calls free => exact kept.exec active calls free
      | skip active calls blocked skips => exact kept.skip active calls skips
      | commit active finished => exact kept.commit agreement active finished
      | abort active => exact kept.abort i
  refine ⟨kept.inv, kept.apart, fun i s active => ?_⟩
  obtain ⟨k, note, sound⟩ := kept.sound i s active
  exact ⟨k, note, sound.mono fun _ _ _ => trivial⟩

/-- Throughout a run the committed tables change as commits change them. -/
theorem Protocol.leads (protocol : Protocol Inv Rely Note) {start : D.Db}
    {offered : Program D ε α → Prop} (base : Inv start)
    (offers : ∀ p, offered p → ∃ k, (∀ db, Inv db → Note k db [] []) ∧
      Sound Inv Note p k fun _ _ => True)
    {c c' : Config D ι ε α} (reached : (Config.concurrent start offered).Reachable c)
    (later : (Config.concurrent start offered).Leads c c') :
    Relation.ReflTransGen (Rely []) c.db c'.db := by
  induction later with
  | refl => exact .refl
  | tail before last ih =>
    obtain ⟨i, taken⟩ := last
    have good := protocol.good base offers (reached.leads before)
    cases taken with
    | commit active finished =>
      obtain ⟨k, note, -⟩ := good.sound i _ active
      exact ih.tail ((protocol.commit k _ _ _ good.inv note).2 [] nofun)
    | start | exec | skip | abort => exact ih

section Typestate

variable (ok : K → D.Stmt → Prop) (next : K → (q : D.Stmt) → D.Answer q → K)

/-- Whatever its statements answer, a program sends only statements that its state allows,
and its result comes with a state that meets the postcondition. -/
def Typestate : Program D ε α → K → (Except ε α → K → Prop) → Prop
  | .done a, k, post => post (.ok a) k
  | .fail e, k, post => post (.error e) k
  | .call q rest, k, post => ok k q ∧ ∀ answer, Typestate (rest answer) (next k q answer) post

variable {ok next}

variable {p : Program D ε α} {k : K} {post : Except ε α → K → Prop}

theorem Typestate.mono {post' : Except ε α → K → Prop} (typed : Typestate ok next p k post)
    (weaker : ∀ r k, post r k → post' r k) :
    Typestate ok next p k post' := by
  induction p generalizing k with
  | done a => exact weaker _ _ typed
  | fail e => exact weaker _ _ typed
  | call q rest ih => exact ⟨typed.1, fun answer => ih answer (typed.2 answer)⟩

theorem Typestate.bind {f : α → Program D ε β} {post' : Except ε β → K → Prop}
    (typed : Typestate ok next p k post)
    (continues : ∀ a k, post (.ok a) k → Typestate ok next (f a) k post')
    (fails : ∀ e k, post (.error e) k → post' (.error e) k) :
    Typestate ok next (p >>= f) k post' := by
  change Typestate ok next (p.bind f) k post'
  induction p generalizing k with
  | done a => exact continues _ _ typed
  | fail e => exact fails _ _ typed
  | call q rest ih => exact ⟨typed.1, fun answer => ih answer (typed.2 answer)⟩

theorem Typestate.attempt {ε' : Type} {post : Except ε' (Except ε α) → K → Prop}
    (typed : Typestate ok next p k fun r k => post (.ok r) k) :
    Typestate ok next p.attempt k post := by
  induction p generalizing k with
  | done a => exact typed
  | fail e => exact typed
  | call q rest ih => exact ⟨typed.1, fun answer => ih answer (typed.2 answer)⟩

theorem Typestate.forEach {body : β → Program D ε Unit} {bs : List β} {good : K → Prop}
    (each : ∀ b ∈ bs, ∀ k, good k → Typestate ok next (body b) k fun _ k' => good k')
    (start : good k) :
    Typestate ok next (forEach body bs) k fun _ k' => good k' := by
  induction bs generalizing k with
  | nil => exact start
  | cons b bs ih =>
    rw [forEach_cons]
    exact (each b mem_cons_self k start).bind
      (fun _ k' still => ih (fun other member => each other (mem_cons_of_mem b member)) still)
      fun _ _ still => still

/-- Where every statement that is allowed leads from the note of a state to the note of the
next one, programs are sound. -/
theorem Typestate.sound
    (step : ∀ k q db writes held, ok k q → Inv db → Note k db writes held → Note (next k q (D.answer
      q (D.replay writes db))) db (writes ++ D.writes q (D.replay writes db)) (held ++ D.keys q
      (D.replay writes db)))
    (skip : ∀ k q answer db writes held, D.skip q = some answer → Note k db writes held → Note (next
      k q answer) db writes held) (typed : Typestate ok next p k post) :
    Sound Inv Note p k post := by
  induction p generalizing k with
  | done a => exact typed
  | fail e => exact typed
  | call q rest ih =>
    refine ⟨fun db writes held inv note => ?_, fun answer skips => ?_⟩
    · exact ⟨_, step k q db writes held typed.1 inv note, ih _ (typed.2 _)⟩
    · exact ⟨_, fun db writes held note => skip k q answer db writes held skips note,
        ih _ (typed.2 answer)⟩

end Typestate

end Rule

/-- **Row locks exclude each other.** No lock is held by two transactions. -/
theorem Config.apart_of_reachable [DecidableEq ι] {start : D.Db} {offered : Program D ε α → Prop}
    {c : Config D ι ε α} (reached : (Config.concurrent start offered).Reachable c) {i j : ι}
    {s other : Session D ε α} (different : i ≠ j) (active : c.sessions i = some s)
    (active' : c.sessions j = some other) {key : D.Key} (held : key ∈ s.held) :
    key ∉ other.held := by
  have protocol : Protocol (D := D) (K := Unit) (fun _ => True) (fun _ _ _ => True)
      (fun _ _ _ _ => True) := ⟨fun _ _ _ _ _ _ _ _ => trivial, fun _ _ _ _ _ _ =>
        ⟨trivial, fun _ _ => trivial⟩⟩
  have sound : ∀ p : Program D ε α, Sound (K := Unit) (fun _ => True) (fun _ _ _ _ => True) p ()
      fun _ _ => True := by
    intro p
    induction p with
    | done a => trivial
    | fail e => trivial
    | call q rest ih =>
      exact ⟨fun _ _ _ _ _ => ⟨(), trivial, ih _⟩, fun _ _ => ⟨(), fun _ _ _ _ => trivial, ih _⟩⟩
  have good := protocol.good trivial (fun p _ => ⟨(), fun _ _ => trivial, sound p⟩) reached
  exact good.apart i j s other different active active' key held

end Transact
