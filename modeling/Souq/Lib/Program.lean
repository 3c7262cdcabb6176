import Mathlib.Logic.Function.Basic

/-!
# Transactions as programs of statements

A transaction is a tree of database statements: each statement returns an
answer, and what the program does next depends on it. A dialect says what every
statement answers, which rows it writes and which row locks it takes. `run`
executes a program alone; `inTx` keeps its writes when it succeeds and discards
them when it fails.
-/

namespace Transact

/-- A database and the statements a service sends to it. -/
structure Dialect where
  /-- The contents of the tables. -/
  Db : Type
  /-- The statements. -/
  Stmt : Type
  /-- What a statement returns. -/
  Answer : Stmt → Type
  /-- The new version of one row. -/
  Write : Type
  /-- The name of a row lock. -/
  Key : Type
  answer : (q : Stmt) → Db → Answer q
  writes : Stmt → Db → List Write
  put : Write → Db → Db
  /-- The rows a statement locks, given what it sees. -/
  keys : Stmt → Db → List Key
  /-- What a statement that skips locked rows answers when they are locked. -/
  skip : (q : Stmt) → Option (Answer q)

/-- Install row versions in the order they were written. -/
def Dialect.replay (D : Dialect) (ws : List D.Write) (db : D.Db) : D.Db :=
  ws.foldl (fun db w => D.put w db) db

@[simp] theorem Dialect.replay_nil (D : Dialect) (db : D.Db) : D.replay [] db = db := rfl

@[simp] theorem Dialect.replay_cons (D : Dialect) (w : D.Write) (ws : List D.Write) (db : D.Db) :
    D.replay (w :: ws) db = D.replay ws (D.put w db) := rfl

@[simp] theorem Dialect.replay_append (D : Dialect) (first second : List D.Write) (db : D.Db) :
    D.replay (first ++ second) db = D.replay second (D.replay first db) :=
  List.foldl_append

theorem Dialect.replay_keeps {D : Dialect} {holds : D.Db → Prop}
    (keep : ∀ db w, holds db → holds (D.put w db)) {db : D.Db} (before : holds db)
    (ws : List D.Write) : holds (D.replay ws db) := by
  induction ws generalizing db with
  | nil => exact before
  | cons w ws ih => exact ih (keep db w before)

theorem Dialect.replay_filterMap {D : Dialect} {α β : Type} (view : D.Db → α)
    (kind : D.Write → Option β) (write : α → β → α)
    (put : ∀ w db, view (D.put w db) = (kind w).elim (view db) (write (view db)))
    (ws : List D.Write) (db : D.Db) :
    view (D.replay ws db) = (ws.filterMap kind).foldl write (view db) := by
  induction ws generalizing db with
  | nil => rfl
  | cons w ws ih =>
    rw [Dialect.replay_cons, ih, put, List.filterMap_cons]
    cases kind w with
    | none => rfl
    | some b => rfl

/-- A transaction body over a dialect. -/
inductive Program (D : Dialect) (ε α : Type) : Type where
  | done (a : α)
  | fail (e : ε)
  | call (q : D.Stmt) (rest : D.Answer q → Program D ε α)

namespace Program

variable {D : Dialect} {ε ε' α β : Type}

/-- Sequential composition. -/
protected def bind : Program D ε α → (α → Program D ε β) → Program D ε β
  | done a, f => f a
  | fail e, _ => fail e
  | call q rest, f => call q fun answer => (rest answer).bind f

instance : Monad (Program D ε) where
  pure := done
  bind := Program.bind

def stmt (q : D.Stmt) : Program D ε (D.Answer q) := call q done

/-- Hand a failure to the caller as a value; the statements before it stay in
the transaction. -/
def attempt : Program D ε α → Program D ε' (Except ε α)
  | done a => done (.ok a)
  | fail e => done (.error e)
  | call q rest => call q fun answer => (rest answer).attempt

def forEach (body : β → Program D ε Unit) : List β → Program D ε Unit
  | [] => done ()
  | b :: bs => do
    body b
    forEach body bs

def void (p : Program D ε α) : Program D ε Unit := p >>= fun _ => pure ()

/-- Execute a program with nothing else running. -/
def run : Program D ε α → D.Db → Except ε α × D.Db
  | done a, db => (.ok a, db)
  | fail e, db => (.error e, db)
  | call q rest, db => (rest (D.answer q db)).run (D.replay (D.writes q db) db)

@[simp] theorem run_done (a : α) (db : D.Db) : (done a : Program D ε α).run db = (.ok a, db) := rfl

@[simp] theorem run_pure (a : α) (db : D.Db) :
    (pure a : Program D ε α).run db = (.ok a, db) := rfl

@[simp] theorem run_fail (e : ε) (db : D.Db) :
    (fail e : Program D ε α).run db = (.error e, db) := rfl

@[simp] theorem run_bind (p : Program D ε α) (f : α → Program D ε β) (db : D.Db) :
    (p >>= f).run db =
      match p.run db with
      | (.ok a, after) => (f a).run after
      | (.error e, after) => (.error e, after) := by
  change (p.bind f).run db = _
  induction p generalizing db with
  | done a => rfl
  | fail e => rfl
  | call q rest ih => exact ih _ _

@[simp] theorem run_attempt (p : Program D ε α) (db : D.Db) :
    (p.attempt : Program D ε' (Except ε α)).run db = (.ok (p.run db).1, (p.run db).2) := by
  induction p generalizing db with
  | done a => rfl
  | fail e => rfl
  | call q rest ih => exact ih _ _

@[simp] theorem forEach_cons (body : β → Program D ε Unit) (b : β) (bs : List β) :
    forEach body (b :: bs) = body b >>= fun _ => forEach body bs := rfl

theorem run_bind_ok {p : Program D ε α} {f : α → Program D ε β} {db after : D.Db} {b : β} :
    (p >>= f).run db = (.ok b, after) ↔
      ∃ a between, p.run db = (.ok a, between) ∧ (f a).run between = (.ok b, after) := by
  rw [run_bind]
  rcases p.run db with ⟨_ | a, between⟩
  · simp
  · constructor
    · exact fun second => ⟨a, between, rfl, second⟩
    · rintro ⟨_, _, first, second⟩
      cases first
      exact second

/-- A program does not change what a function sees of the database. -/
def Keeps {γ : Type} (view : D.Db → γ) (p : Program D ε α) : Prop :=
  ∀ db, view (p.run db).2 = view db

section Keeps

variable {γ : Type} {view : D.Db → γ}

theorem Keeps.of_run {p : Program D ε α} {db after : D.Db} {answer : Except ε α}
    (keeps : Keeps view p) (ran : p.run db = (answer, after)) : view after = view db := by
  rw [← keeps db, ran]

theorem Keeps.comp {δ : Type} {p : Program D ε α} (keeps : Keeps view p) (f : γ → δ) :
    Keeps (fun db => f (view db)) p := fun db => congrArg f (keeps db)

theorem Keeps.pure (a : α) : Keeps view (pure a : Program D ε α) := fun _ => rfl

theorem Keeps.fail (e : ε) : Keeps view (fail e : Program D ε α) := fun _ => rfl

theorem Keeps.stmt {q : D.Stmt} (keeps : ∀ db, view (D.replay (D.writes q db) db) = view db) :
    Keeps view (stmt q : Program D ε (D.Answer q)) := keeps

theorem Keeps.bind {p : Program D ε α} {f : α → Program D ε β} (first : Keeps view p)
    (second : ∀ a, Keeps view (f a)) : Keeps view (p >>= f) := by
  intro db
  rw [run_bind]
  have kept := first db
  rcases ran : p.run db with ⟨_ | a, after⟩ <;> rw [ran] at kept
  · exact kept
  · exact (second a after).trans kept

theorem Keeps.forEach {body : β → Program D ε Unit} (each : ∀ b, Keeps view (body b))
    (bs : List β) : Keeps view (forEach body bs) := by
  induction bs with
  | nil => exact Keeps.pure ()
  | cons b bs ih => exact (each b).bind fun _ => ih

end Keeps

/-- A program relates the database before it to the database after it. -/
def Respects (rel : D.Db → D.Db → Prop) (p : Program D ε α) : Prop :=
  ∀ db, rel db (p.run db).2

section Respects

variable {rel : D.Db → D.Db → Prop}

theorem Respects.pure (refl : ∀ db, rel db db) (a : α) : Respects rel (pure a : Program D ε α) :=
  refl

theorem Respects.fail (refl : ∀ db, rel db db) (e : ε) : Respects rel (fail e : Program D ε α) :=
  refl

theorem Respects.bind (trans : ∀ first second third, rel first second → rel second third →
    rel first third) {p : Program D ε α} {f : α → Program D ε β} (first : Respects rel p)
    (second : ∀ a, Respects rel (f a)) : Respects rel (p >>= f) := by
  intro db
  rw [run_bind]
  have before := first db
  rcases ran : p.run db with ⟨_ | a, after⟩ <;> rw [ran] at before
  · exact before
  · exact trans _ _ _ before (second a after)

theorem Respects.of_run {p : Program D ε α} {db after : D.Db} {answer : Except ε α}
    (respects : Respects rel p) (ran : p.run db = (answer, after)) : rel db after := by
  have related := respects db
  rwa [ran] at related

theorem Respects.of_stmts (refl : ∀ db, rel db db)
    (trans : ∀ first second third, rel first second → rel second third → rel first third)
    (each : ∀ (q : D.Stmt) db, rel db (D.replay (D.writes q db) db)) (p : Program D ε α) :
    Respects rel p := by
  induction p with
  | done a => exact refl
  | fail e => exact refl
  | call q rest ih => exact fun db => trans _ _ _ (each q db) (ih _ _)

end Respects

/-- Every statement a program executes alone meets a condition on the tables it
sees, and when the program succeeds its result and the tables meet the
postcondition. -/
def Ensures (good : D.Db → D.Stmt → Prop) : Program D ε α → D.Db → (α → D.Db → Prop) → Prop
  | done a, db, post => post a db
  | fail _, _, _ => True
  | call q rest, db, post =>
    good db q ∧ (rest (D.answer q db)).Ensures good (D.replay (D.writes q db) db) post

section Ensures

variable {good : D.Db → D.Stmt → Prop} {post post' : α → D.Db → Prop}

theorem Ensures.mono {p : Program D ε α} {db : D.Db} (ensures : p.Ensures good db post)
    (weaker : ∀ a after, post a after → post' a after) : p.Ensures good db post' := by
  induction p generalizing db with
  | done a => exact weaker _ _ ensures
  | fail e => trivial
  | call q rest ih => exact ⟨ensures.1, ih _ ensures.2⟩

theorem Ensures.bind {post : β → D.Db → Prop} {p : Program D ε α} {f : α → Program D ε β}
    {db : D.Db} (ensures : p.Ensures good db fun a after => (f a).Ensures good after post) :
    (p >>= f).Ensures good db post := by
  change (p.bind f).Ensures good db post
  induction p generalizing db with
  | done a => exact ensures
  | fail e => trivial
  | call q rest ih => exact ⟨ensures.1, ih _ ensures.2⟩

theorem Ensures.of_run {p : Program D ε α} {db after : D.Db} {a : α}
    (ensures : p.Ensures good db post) (ran : p.run db = (.ok a, after)) : post a after := by
  induction p generalizing db with
  | done b =>
    cases ran
    exact ensures
  | fail e => cases ran
  | call q rest ih => exact ih _ ensures.2 ran

end Ensures

/-- If every statement a program executes alone meets a condition, then the
postcondition holds when the program succeeds. -/
def Assuming (good : D.Db → D.Stmt → Prop) : Program D ε α → D.Db → (α → D.Db → Prop) → Prop
  | done a, db, post => post a db
  | fail _, _, _ => True
  | call q rest, db, post =>
    good db q → (rest (D.answer q db)).Assuming good (D.replay (D.writes q db) db) post

section Assuming

variable {good : D.Db → D.Stmt → Prop} {post post' : α → D.Db → Prop}

theorem Assuming.mono {p : Program D ε α} {db : D.Db} (assuming : p.Assuming good db post)
    (weaker : ∀ a after, post a after → post' a after) : p.Assuming good db post' := by
  induction p generalizing db with
  | done a => exact weaker _ _ assuming
  | fail e => trivial
  | call q rest ih => exact fun now => ih _ (assuming now)

theorem Assuming.bind {post : β → D.Db → Prop} {p : Program D ε α} {f : α → Program D ε β}
    {db : D.Db} (assuming : p.Assuming good db fun a after => (f a).Assuming good after post) :
    (p >>= f).Assuming good db post := by
  change (p.bind f).Assuming good db post
  induction p generalizing db with
  | done a => exact assuming
  | fail e => trivial
  | call q rest ih => exact fun now => ih _ (assuming now)

theorem Assuming.forEach {holds : D.Db → Prop} {body : β → Program D ε Unit} {bs : List β}
    (each : ∀ b ∈ bs, ∀ db, holds db → (body b).Assuming good db fun _ => holds) {db : D.Db}
    (before : holds db) : (Program.forEach body bs).Assuming good db fun _ => holds := by
  induction bs generalizing db with
  | nil => exact before
  | cons b bs ih =>
    refine Assuming.bind ((each b List.mem_cons_self db before).mono fun _ between now => ?_)
    exact ih (fun other member => each other (List.mem_cons_of_mem b member)) now

theorem Assuming.of_run {p : Program D ε α} {db : D.Db}
    (ends : ∀ a after, p.run db = (.ok a, after) → post a after) : p.Assuming good db post := by
  induction p generalizing db with
  | done a => exact ends a db rfl
  | fail e => trivial
  | call q rest ih => exact fun _ => ih _ ends

theorem Ensures.assuming {p : Program D ε α} {db : D.Db} (ensures : p.Ensures good db post)
    (assuming : p.Assuming good db post') :
    p.Ensures good db fun a after => post a after ∧ post' a after := by
  induction p generalizing db with
  | done a => exact ⟨ensures, assuming⟩
  | fail e => trivial
  | call q rest ih => exact ⟨ensures.1, ih _ ensures.2 (assuming ensures.1)⟩

end Assuming

/-- Every result of a program meets a condition, whatever its statements answer. -/
def Yields (good : α → Prop) : Program D ε α → Prop
  | done a => good a
  | fail _ => True
  | call _ rest => ∀ answer, (rest answer).Yields good

theorem Yields.bind {good : β → Prop} (p : Program D ε α) {f : α → Program D ε β}
    (second : ∀ a, (f a).Yields good) : (p >>= f).Yields good := by
  change (p.bind f).Yields good
  induction p with
  | done a => exact second a
  | fail e => trivial
  | call q rest ih => exact ih

/-- All statements of a program meet a condition. -/
def Only (good : D.Stmt → Prop) : Program D ε α → Prop
  | done _ => True
  | fail _ => True
  | call q rest => good q ∧ ∀ answer, (rest answer).Only good

theorem Only.bind {good : D.Stmt → Prop} {p : Program D ε α} {f : α → Program D ε β}
    (first : p.Only good) (second : ∀ a, (f a).Only good) : (p >>= f).Only good := by
  change (p.bind f).Only good
  induction p with
  | done a => exact second a
  | fail e => trivial
  | call q rest ih => exact ⟨first.1, fun answer => ih answer (first.2 answer)⟩

theorem Only.ite {good : D.Stmt → Prop} {c : Prop} {_ : Decidable c} {p q : Program D ε α}
    (first : c → p.Only good) (second : q.Only good) : (if c then p else q).Only good := by
  by_cases holds : c
  · rw [if_pos holds]
    exact first holds
  · rwa [if_neg holds]

theorem Only.mono {good wider : D.Stmt → Prop} {p : Program D ε α} (only : p.Only good)
    (wide : ∀ q, good q → wider q) : p.Only wider := by
  induction p with
  | done a => trivial
  | fail e => trivial
  | call q rest ih => exact ⟨wide q only.1, fun answer => ih answer (only.2 answer)⟩

theorem Only.forEach {good : D.Stmt → Prop} {body : β → Program D ε Unit}
    (each : ∀ b, (body b).Only good) (bs : List β) : (Program.forEach body bs).Only good := by
  induction bs with
  | nil => trivial
  | cons b bs ih => exact (each b).bind fun _ => ih

/-- A program does not succeed without a statement that meets a condition. -/
def Through (good : D.Stmt → Prop) : Program D ε α → Prop
  | done _ => False
  | fail _ => True
  | call q rest => good q ∨ ∀ answer, (rest answer).Through good

theorem Through.bind {good : D.Stmt → Prop} {p : Program D ε α} (first : p.Through good)
    (f : α → Program D ε β) : (p >>= f).Through good := by
  change (p.bind f).Through good
  induction p with
  | done a => exact first.elim
  | fail e => trivial
  | call q rest ih => exact first.imp_right fun later answer => ih answer (later answer)

theorem Through.after {good : D.Stmt → Prop} (p : Program D ε α) {f : α → Program D ε β}
    (second : ∀ a, (f a).Through good) : (p >>= f).Through good := by
  change (p.bind f).Through good
  induction p with
  | done a => exact second a
  | fail e => trivial
  | call q rest ih => exact .inr ih

/-- Execute a program as a transaction: a failure rolls everything back. -/
def inTx (p : Program D ε α) (db : D.Db) : D.Db :=
  match p.run db with
  | (.ok _, after) => after
  | (.error _, _) => db

theorem inTx_of_ok {p : Program D ε α} {db after : D.Db} {a : α}
    (succeeds : p.run db = (.ok a, after)) : p.inTx db = after := by
  simp only [inTx, succeeds]

theorem inTx_of_error {p : Program D ε α} {db after : D.Db} {e : ε}
    (fails : p.run db = (.error e, after)) : p.inTx db = db := by
  simp only [inTx, fails]

@[simp] theorem inTx_void (p : Program D ε α) (db : D.Db) : p.void.inTx db = p.inTx db := by
  unfold inTx void
  rw [run_bind]
  rcases p.run db with ⟨_ | a, after⟩ <;> rfl

/-- A transaction leaves what its body leaves when it succeeds, and nothing
otherwise. -/
theorem inTx_cases (p : Program D ε α) (db : D.Db) :
    p.inTx db = db ∨ ∃ a, p.run db = (.ok a, p.inTx db) := by
  rcases ran : p.run db with ⟨_ | a, after⟩
  · exact .inl (inTx_of_error ran)
  · exact .inr ⟨a, by rw [inTx_of_ok ran]⟩

theorem inTx_keeps {holds : D.Db → Prop} (keep : ∀ db w, holds db → holds (D.put w db))
    (p : Program D ε α) {db : D.Db} (before : holds db) : holds (p.inTx db) := by
  have ran : holds (p.run db).2 := by
    induction p generalizing db with
    | done a => exact before
    | fail e => exact before
    | call q rest ih => exact ih _ (Dialect.replay_keeps keep before _)
  rcases inTx_cases p db with same | ⟨a, succeeds⟩
  · rwa [same]
  · rwa [succeeds] at ran

theorem Respects.inTx {rel : D.Db → D.Db → Prop} (refl : ∀ db, rel db db) {p : Program D ε α}
    (respects : Respects rel p) (db : D.Db) : rel db (p.inTx db) := by
  rcases inTx_cases p db with same | ⟨a, ran⟩
  · rw [same]
    exact refl db
  · exact respects.of_run ran

theorem Ensures.inTx {good : D.Db → D.Stmt → Prop} {holds : D.Db → Prop} {p : Program D ε α}
    {db : D.Db} (ensures : p.Ensures good db fun _ => holds) (before : holds db) :
    holds (p.inTx db) := by
  rcases inTx_cases p db with same | ⟨a, ran⟩
  · rwa [same]
  · exact ensures.of_run ran

/-- The tables after so many statements of a program, or after all of them. -/
def stopped : Program D ε α → Nat → D.Db → D.Db
  | call q rest, n + 1, db => (rest (D.answer q db)).stopped n (D.replay (D.writes q db) db)
  | _, _, db => db

section Stopped

@[simp] theorem stopped_zero (p : Program D ε α) (db : D.Db) : p.stopped 0 db = db := by
  cases p <;> rfl

theorem stopped_enough (p : Program D ε α) (db : D.Db) :
    ∃ enough, ∀ n, enough ≤ n → p.stopped n db = (p.run db).2 := by
  induction p generalizing db with
  | done | fail => exact ⟨0, fun n _ => by cases n <;> rfl⟩
  | call q rest ih =>
    obtain ⟨enough, ran⟩ := ih (D.answer q db) (D.replay (D.writes q db) db)
    refine ⟨enough + 1, fun n more => ?_⟩
    cases n with
    | zero => exact absurd more (Nat.not_succ_le_zero enough)
    | succ n => exact ran n (Nat.le_of_succ_le_succ more)

theorem stopped_mono {measure : D.Db → Nat}
    (each : ∀ (q : D.Stmt) db, measure db ≤ measure (D.replay (D.writes q db) db))
    (p : Program D ε α) {n m : Nat} (more : n ≤ m) (db : D.Db) :
    measure (p.stopped n db) ≤ measure (p.stopped m db) := by
  induction p generalizing n m db with
  | done | fail => cases n <;> cases m <;> exact Nat.le_refl _
  | call q rest ih =>
    cases m with
    | zero =>
      obtain rfl := Nat.le_zero.mp more
      exact Nat.le_refl _
    | succ m =>
      cases n with
      | zero =>
        have later := ih (D.answer q db) (Nat.zero_le m) (D.replay (D.writes q db) db)
        rw [stopped_zero] at later ⊢
        exact Nat.le_trans (each q db) later
      | succ n => exact ih _ (Nat.le_of_succ_le_succ more) _

theorem stopped_keeps {γ : Type} {view : D.Db → γ} {good : D.Stmt → Prop}
    (each : ∀ q, good q → ∀ db, view (D.replay (D.writes q db) db) = view db)
    {p : Program D ε α} (only : p.Only good) (n : Nat) (db : D.Db) :
    view (p.stopped n db) = view db := by
  induction p generalizing n db with
  | done a => cases n <;> rfl
  | fail e => cases n <;> rfl
  | call q rest ih =>
    cases n with
    | zero => rfl
    | succ n => exact (ih _ (only.2 _) n _).trans (each q only.1 db)

end Stopped

end Program

end Transact
