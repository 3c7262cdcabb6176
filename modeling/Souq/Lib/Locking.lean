import Souq.Lib.Serial

/-!
# Lock orders and deadlock

A transaction waits for another when its next statement needs a row lock that the
other holds. If every transaction asks for locks in ascending order of a rank, the
wait-for graph has no cycle.

`Climbs` is the rule for programs: whatever the statements see, the locks a program
asks for rank above those it holds. A condition on the statements may be assumed;
it then has to hold in the runs that are considered.
-/

namespace Transact

open Transition List

variable {D : Dialect} {ι ε α β : Type} (rank : D.Key → Option Nat)

/-- A lock ranks above all those held that have a rank. -/
def Above (held : List D.Key) (key : D.Key) : Prop :=
  ∀ n, rank key = some n → ∀ other ∈ held, ∀ m, rank other = some m → m < n

/-- Locks that were taken in ascending order, up to those taken again and those one
statement takes together. -/
def Ascending (held : List D.Key) : Prop :=
  ∀ front key back, held = front ++ key :: back → key ∈ front ∨
    ∀ n, rank key = some n → ∀ other ∈ front, ∀ m, rank other = some m → m ≤ n

namespace Config

/-- The next statement of one session needs a row that another one holds. -/
def Waits (c : Config D ι ε α) (i j : ι) : Prop :=
  i ≠ j ∧ ∃ s q rest key, c.sessions i = some s ∧ s.program = .call q rest ∧ D.skip q = none ∧
    key ∈ D.keys q (s.view c.db) ∧ (rank key).isSome ∧ key ∈ c.heldBy j

/-- Whether the next statement of a transaction needs a lock of another. -/
def waiting [DecidableEq D.Key] (c : Config D ι ε α) (i j : ι) : Bool :=
  match c.sessions i with
  | some ⟨.call q _, writes, _⟩ => (D.skip q).isNone &&
      (D.keys q (D.replay writes c.db)).any fun key =>
        (rank key).isSome && decide (key ∈ c.heldBy j)
  | _ => false

variable {rank} in
theorem waits_of_waiting [DecidableEq D.Key] {c : Config D ι ε α} {i j : ι} (different : i ≠ j)
    (waiting : c.waiting rank i j = true) : c.Waits rank i j := by
  unfold Config.waiting at waiting
  split at waiting
  case h_1 q rest writes held active =>
    simp only [Bool.and_eq_true, Option.isNone_iff_eq_none, any_eq_true,
      decide_eq_true_eq] at waiting
    obtain ⟨waits, key, asked, ranked, held⟩ := waiting
    exact ⟨different, _, q, rest, key, active, rfl, waits, asked, ranked, held⟩
  case h_2 => cases waiting

end Config

/-- The locks a program asks for rank above those it holds. -/
def Climbs (assumed : List D.Key → D.Db → D.Stmt → Prop) :
    Program D ε α → List D.Key → (α → List D.Key → Prop) → Prop
  | .done a, held, post => post a held
  | .fail _, _, _ => True
  | .call q rest, held, post =>
    (∀ view, ∀ key ∈ D.keys q view, key ∈ held ∨ Above rank held key) ∧
      (∀ view, assumed held view q →
        Climbs assumed (rest (D.answer q view)) (held ++ D.keys q view) post) ∧
      ∀ answer, D.skip q = some answer → Climbs assumed (rest answer) held post

variable {rank} {assumed : List D.Key → D.Db → D.Stmt → Prop}

namespace Climbs

variable {post post' : α → List D.Key → Prop} {held : List D.Key}

theorem mono {p : Program D ε α} (climbs : Climbs rank assumed p held post)
    (weaker : ∀ a held, post a held → post' a held) : Climbs rank assumed p held post' := by
  induction p generalizing held with
  | done a => exact weaker _ _ climbs
  | fail e => trivial
  | call q rest ih =>
    obtain ⟨above, later, skips⟩ := climbs
    exact ⟨above, fun view now => ih _ (later view now), fun answer skip =>
      ih _ (skips answer skip)⟩

theorem bind {post : β → List D.Key → Prop} {p : Program D ε α} {f : α → Program D ε β}
    (climbs : Climbs rank assumed p held fun a held => Climbs rank assumed (f a) held post) :
    Climbs rank assumed (p >>= f) held post := by
  change Climbs rank assumed (p.bind f) held post
  induction p generalizing held with
  | done a => exact climbs
  | fail e => trivial
  | call q rest ih =>
    obtain ⟨above, later, skips⟩ := climbs
    exact ⟨above, fun view now => ih _ (later view now), fun answer skip =>
      ih _ (skips answer skip)⟩

theorem void {p : Program D ε α} (climbs : Climbs rank assumed p held fun _ _ => True) :
    Climbs rank assumed p.void held fun _ _ => True :=
  bind (climbs.mono fun _ _ _ => trivial)

theorem call {q : D.Stmt} {rest : D.Answer q → Program D ε α} (waits : D.skip q = none)
    (above : ∀ view, ∀ key ∈ D.keys q view, key ∈ held ∨ Above rank held key)
    (later : ∀ view, assumed held view q →
      Climbs rank assumed (rest (D.answer q view)) (held ++ D.keys q view) post) :
    Climbs rank assumed (.call q rest) held post := by
  refine ⟨above, later, fun answer skips => ?_⟩
  cases waits.symm.trans skips

end Climbs

theorem Ascending.nil : Ascending rank ([] : List D.Key) := by
  intro front key back split
  cases front <;> cases split

theorem Ascending.append {held keys : List D.Key} (ascending : Ascending rank held)
    (above : ∀ key ∈ keys, key ∈ held ∨ Above rank held key)
    (level : ∀ first ∈ keys, ∀ second ∈ keys, ∀ n m, rank first = some n → rank second = some m →
      n = m) : Ascending rank (held ++ keys) := by
  intro front key back split
  have beyond : ∀ later, front = held ++ later → keys = later ++ key :: back → key ∈ front ∨
      ∀ n, rank key = some n → ∀ other ∈ front, ∀ m, rank other = some m → m ≤ n := by
    rintro later rfl rfl
    have asked : key ∈ later ++ key :: back := mem_append_right _ mem_cons_self
    rcases above key asked with taken | above
    · exact .inl (mem_append_left _ taken)
    · refine .inr fun n ranked other member m rankedOther => ?_
      rcases mem_append.mp member with old | new
      · exact Nat.le_of_lt (above n ranked other old m rankedOther)
      · exact Nat.le_of_eq (level other (mem_append_left _ new) key asked m n rankedOther ranked)
  rcases append_eq_append_iff.mp split with ⟨later, longer, rest⟩ | ⟨later, shorter, rest⟩
  · exact beyond later longer rest
  · cases later with
    | nil =>
      rw [append_nil] at shorter
      exact beyond [] (by rw [shorter, append_nil]) rest.symm
    | cons first later =>
      cases rest
      exact ascending front key later shorter

namespace Config

variable {c : Config D ι ε α}

def Climbing (rank : D.Key → Option Nat) (assumed : List D.Key → D.Db → D.Stmt → Prop)
    (c : Config D ι ε α) : Prop :=
  ∀ i s, c.sessions i = some s →
    Climbs rank assumed s.program s.held (fun _ _ => True) ∧ Ascending rank s.held

theorem Climbing.set [DecidableEq ι] (climbing : c.Climbing rank assumed) (i : ι)
    (session : Option (Session D ε α))
    (climbs : ∀ s, session = some s →
      Climbs rank assumed s.program s.held (fun _ _ => True) ∧ Ascending rank s.held) :
    (c.set i session).Climbing rank assumed := by
  intro j s found
  simp only [Config.set, Function.update_apply] at found
  split at found
  · exact climbs s found
  · exact climbing j s found

/-- Transactions that climb, climb in every run that meets what they assume. -/
theorem climbing_of_reachable [DecidableEq ι] {start : D.Db} {offered : Program D ε α → Prop}
    {ok : Config D ι ε α → ι → Prop}
    (climbs : ∀ p, offered p → Climbs rank assumed p [] fun _ _ => True)
    (level : ∀ q view, ∀ first ∈ D.keys q view, ∀ second ∈ D.keys q view, ∀ n m,
      rank first = some n → rank second = some m → n = m)
    (assumes : ∀ c i s q rest, ok c i → c.sessions i = some s → s.program = .call q rest →
      assumed s.held (s.view c.db) q)
    (reached : ((concurrent start offered).restrict ok).Reachable c) :
    c.Apart ∧ c.Climbing rank assumed := by
  refine reached.invariant (I := fun c => c.Apart ∧ c.Climbing rank assumed) ?_ ?_
  · rintro _ rfl
    exact ⟨fun _ _ _ _ _ => nofun, fun _ _ => nofun⟩
  · rintro c i c' ⟨apart, climbing⟩ ⟨good, taken⟩
    cases taken with
    | start idle offers =>
      refine ⟨apart.set _ ?_, climbing.set i _ ?_⟩
      · rintro s ⟨⟩ j other - - key member
        cases member
      · rintro s ⟨⟩
        exact ⟨climbs _ offers, .nil⟩
    | @exec s q rest active calls free =>
      refine ⟨apart.exec active free, climbing.set i _ ?_⟩
      rintro _ ⟨⟩
      obtain ⟨climbs, ascending⟩ := climbing i s active
      rw [calls] at climbs
      exact ⟨climbs.2.1 _ (assumes c i s q rest good active calls),
        ascending.append (climbs.1 _) (level q _)⟩
    | @skip s q rest answer active calls blocked skips =>
      refine ⟨apart.set _ ?_, climbing.set i _ ?_⟩
      · rintro _ ⟨⟩ j other different found
        exact apart i j s other different.symm active found
      · rintro _ ⟨⟩
        obtain ⟨climbs, ascending⟩ := climbing i s active
        rw [calls] at climbs
        exact ⟨climbs.2.2 answer skips, ascending⟩
    | commit active finished => exact ⟨apart.set none nofun, climbing.set i none nofun⟩
    | abort active => exact ⟨apart.set none nofun, climbing.set i none nofun⟩

theorem Climbing.above (climbing : c.Climbing rank assumed) (apart : c.Apart) {i j : ι}
    (waits : c.Waits rank i j) :
    ∃ key n, rank key = some n ∧ key ∈ c.heldBy j ∧
      ∀ other ∈ c.heldBy i, ∀ m, rank other = some m → m < n := by
  obtain ⟨different, s, q, rest, key, active, calls, -, asked, ranked, held⟩ := waits
  obtain ⟨n, ranked⟩ := Option.isSome_iff_exists.mp ranked
  obtain ⟨climbs, -⟩ := climbing i s active
  rw [calls] at climbs
  refine ⟨key, n, ranked, held, fun other member m rankedOther => ?_⟩
  simp only [heldBy, active, Option.elim_some] at member
  rcases climbs.1 _ key asked with own | above
  · unfold heldBy at held
    cases found : c.sessions j with
    | none =>
      rw [found] at held
      cases held
    | some other =>
      rw [found] at held
      exact (apart i j s other different active found key own held).elim
  · exact above n ranked other member m rankedOther

/-- **No deadlock.** Transactions that climb never wait for each other in a circle. -/
theorem Climbing.acyclic (climbing : c.Climbing rank assumed) (apart : c.Apart) (i : ι) :
    ¬ Relation.TransGen (c.Waits rank) i i := by
  -- The locks along a path of waits rank higher and higher.
  have path : ∀ {j}, Relation.TransGen (c.Waits rank) i j → ∃ n,
      (∀ other ∈ c.heldBy i, ∀ m, rank other = some m → m < n) ∧
      ∃ key ∈ c.heldBy j, ∃ m, rank key = some m ∧ n ≤ m := by
    intro j waits
    induction waits with
    | single waits =>
      obtain ⟨key, n, ranked, held, above⟩ := climbing.above apart waits
      exact ⟨n, above, key, held, n, ranked, Nat.le_refl n⟩
    | tail _ waits ih =>
      obtain ⟨n, above, key, held, m, ranked, higher⟩ := ih
      obtain ⟨next, k, rankedNext, heldNext, aboveNext⟩ := climbing.above apart waits
      exact ⟨n, above, next, heldNext, k, rankedNext,
        higher.trans (Nat.le_of_lt (aboveNext key held m ranked))⟩
  intro cycle
  obtain ⟨n, above, key, held, m, ranked, higher⟩ := path cycle
  exact Nat.not_lt.mpr higher (above key held m ranked)

end Config

end Transact
