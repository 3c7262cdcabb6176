import Souq.Catalog.Paths

/-!
# Concurrent edits of the category tree

Any number of callers insert and move categories at the same time, statement by
statement in any order. A move checks for a cycle and reads the depth in statements
before the `UPDATE`, and between them the tree may change. The paths stay exact in a
run exactly when every `UPDATE` still finds what its call relied on. Where bound strings
are sent as `varchar`, no move gets as far as its `UPDATE`.
-/

namespace Souq.Catalog

open Transact Transition PathTree Database List

/-- An edit of the tree. -/
inductive Edit where
  | insert (id slug name : String) (parentId : Option String) (position : Int)
  | move (id : String) (newParentId : Option String)

def Edit.call (strings : StringType) : Edit → Call Unit
  | .insert id slug name parentId position => Catalog.insert id slug name parentId position
  | .move id newParentId => Catalog.move strings id newParentId

/-- The database, and the calls of admins under way. -/
structure Console (ι : Type) where
  db : Database := {}
  sessions : ι → Option (Call Unit) := fun _ => none

/-- One step of a run. -/
inductive Turn (ι : Type) where
  | start (i : ι) (edit : Edit)
  /-- The next statement of a call, or its end. -/
  | run (i : ι)
  /-- The call throws: a connection error, or the process dies. -/
  | abort (i : ι)

def Stmt.after (q : Stmt) (db : Database) : Database := dialect.replay (q.writes db) db

namespace Console

variable {ι : Type} [DecidableEq ι]

def set (s : Console ι) (i : ι) (session : Option (Call Unit)) : Console ι :=
  { s with sessions := Function.update s.sessions i session }

/-- A step of one call. Every statement commits on its own. -/
def step (strings : StringType) (s : Console ι) : Turn ι → Console ι
  | .start i edit =>
    match s.sessions i with
    | none => s.set i (some (edit.call strings))
    | some _ => s
  | .run i =>
    match s.sessions i with
    | some (.call q rest) =>
      { s with db := Stmt.after q s.db }.set i (some (rest (Stmt.answer q s.db)))
    | _ => s.set i none
  | .abort i => s.set i none

end Console

/-- The `UPDATE` of a move does not find what its call relied on: the target is in
the subtree by now, or the category is deeper than the call has read, or it is
higher and has children. An `UPDATE` that names the category as its own parent is
refused by the table. -/
def Database.Tears (db : Database) (id slug : String) (parentId : Option String)
    (oldDepth : Nat) : Prop :=
  parentId ≠ some id ∧ ∃ c ∈ db.categories, (parentId = some c.id ∧ slug ∈ c.path) ∨
    c.id = id ∧ (oldDepth < c.path.length ∨
      c.path.length < oldDepth ∧ ∃ d ∈ db.categories, d.parentId = some id)

instance (db : Database) (id slug : String) (parentId : Option String) (oldDepth : Nat) :
    Decidable (db.Tears id slug parentId oldDepth) :=
  inferInstanceAs (Decidable (_ ∧ _))

/-- The next statement is an `UPDATE` that does not find what its call relied on. -/
def Console.Tears {ι : Type} (s : Console ι) : Turn ι → Prop
  | .run i =>
    match s.sessions i with
    | some (.call (.rehang id slug parentId oldDepth) _) => s.db.Tears id slug parentId oldDepth
    | _ => False
  | _ => False

/-- Categories keep their ids and slugs, and none goes. -/
def Grows (db later : Database) : Prop :=
  ∀ c ∈ db.categories, ∃ d ∈ later.categories, d.id = c.id ∧ d.slug = c.slug

theorem Grows.refl (db : Database) : Grows db db := fun c member => ⟨c, member, rfl, rfl⟩

/-- A statement of an edit names categories that are there, and is one that the server
accepts. -/
def Stmt.Founded (strings : StringType) (db : Database) : Stmt → Prop
  | .findById _ | .insert .. => True
  | .rehang id slug parentId _ => strings = .unspecified ∧
      (∃ c ∈ db.categories, c.id = id ∧ c.slug = slug) ∧
      ∀ up, parentId = some up → ∃ c ∈ db.categories, c.id = up
  | .rename .. | .deleteIfEmpty _ => False

variable {strings : StringType} {db : Database} {q : Stmt} {id : String}

theorem Stmt.Founded.grows {later : Database} (founded : q.Founded strings db)
    (grows : Grows db later) : q.Founded strings later := by
  cases q with
  | findById | insert => trivial
  | rename id name position => exact founded
  | deleteIfEmpty id => exact founded
  | rehang id slug parentId oldDepth =>
    obtain ⟨accepted, ⟨c, member, rfl, rfl⟩, target⟩ := founded
    refine ⟨accepted, grows c member, fun up named => ?_⟩
    obtain ⟨d, found, rfl⟩ := target up named
    obtain ⟨e, there, same, -⟩ := grows d found
    exact ⟨e, there, same⟩

theorem Stmt.grows (founded : q.Founded strings db) : Grows db (q.after db) := by
  cases q with
  | findById id => exact Grows.refl db
  | insert id slug name parentId position =>
    unfold Stmt.after Stmt.writes
    by_cases passed : violated (db.inserted id slug name parentId position) = none
    · simp only [passed, ↓reduceIte]
      exact fun c member => ⟨c, mem_append_left _ member, rfl, rfl⟩
    · simp only [passed, ↓reduceIte]
      exact Grows.refl db
  | rename | deleteIfEmpty => exact founded.elim
  | rehang id slug parentId oldDepth =>
    unfold Stmt.after Stmt.writes
    by_cases passed : violated (db.rehung id slug parentId oldDepth) = none
    · simp only [passed, ↓reduceIte]
      intro c member
      refine ⟨_, mem_map_of_mem member, ?_⟩
      split <;> exact ⟨rfl, rfl⟩
    · simp only [passed, ↓reduceIte]
      exact Grows.refl db

theorem Stmt.lawful (founded : q.Founded strings db) (lawful : Lawful db.nodes) :
    Lawful (q.after db).nodes := by
  cases q with
  | findById id => exact lawful
  | insert id slug name parentId position =>
    unfold Stmt.after Stmt.writes
    by_cases passed : violated (db.inserted id slug name parentId position) = none
    · simp only [passed, ↓reduceIte]
      exact violated_eq_none_iff.mp passed
    · simp only [passed, ↓reduceIte]
      exact lawful
  | rename | deleteIfEmpty => exact founded.elim
  | rehang id slug parentId oldDepth =>
    unfold Stmt.after Stmt.writes
    by_cases passed : violated (db.rehung id slug parentId oldDepth) = none
    · simp only [passed, ↓reduceIte]
      exact violated_eq_none_iff.mp passed
    · simp only [passed, ↓reduceIte]
      exact lawful

/-- Every statement a call will execute names categories that are there by then. -/
def Follows (strings : StringType) : Call Unit → Database → Prop
  | .done _, _ => True
  | .fail _, _ => True
  | .call q rest, db => Stmt.Founded strings db q ∧ ∀ later, Grows db later →
      Follows strings (rest (Stmt.answer q later)) (Stmt.after q later)

theorem Follows.grows {call : Call Unit} {later : Database} (follows : Follows strings call db)
    (grows : Grows db later) : Follows strings call later := by
  cases call with
  | done a => trivial
  | fail e => trivial
  | call q rest =>
    refine ⟨follows.1.grows grows, fun last growing => follows.2 last fun c member => ?_⟩
    obtain ⟨d, found, id, slug⟩ := grows c member
    obtain ⟨e, there, id', slug'⟩ := growing d found
    exact ⟨e, there, id'.trans id, slug'.trans slug⟩

theorem follows_refusable (outcome : Except Violation Unit) (db : Database) :
    Follows strings (refusable outcome) db := by
  cases outcome with
  | ok _ => trivial
  | error _ => trivial

theorem follows_rehang {slug : String} {parentId : Option String} {oldDepth : Nat}
    (there : ∃ c ∈ db.categories, c.id = id ∧ c.slug = slug)
    (target : ∀ up, parentId = some up → ∃ c ∈ db.categories, c.id = up) :
    Follows strings (rehang strings id slug parentId oldDepth) db := by
  cases strings with
  | varchar => trivial
  | unspecified => exact ⟨⟨rfl, there, target⟩, fun _ _ => follows_refusable _ _⟩

theorem mem_of_findById {category : Category} (found : db.findById id = some category) :
    ∃ c ∈ db.categories, c.id = id ∧ c.slug = category.slug := by
  rw [findById, Option.map_eq_some_iff] at found
  obtain ⟨c, found, rfl⟩ := found
  exact ⟨c, mem_of_find?_eq_some found, by simpa using find?_some found, rfl⟩

theorem follows_move (id : String) (newParentId : Option String) (db : Database) :
    Follows strings (move strings id newParentId) db := by
  refine ⟨trivial, fun first _ => ?_⟩
  change Follows strings (moveFrom strings id newParentId (first.findById id)) first
  cases found : first.findById id with
  | none => trivial
  | some current =>
    have named := mem_of_findById found
    cases newParentId with
    | none => exact follows_rehang named (by simp)
    | some parentId =>
      refine ⟨trivial, fun second growing => ?_⟩
      change Follows strings (moveTo strings id current parentId (second.findById parentId)) second
      cases read : second.findById parentId with
      | none => trivial
      | some target =>
        obtain ⟨c, member, rfl, same⟩ := named
        obtain ⟨d, kept, id', slug'⟩ := growing c member
        obtain ⟨e, there, up, -⟩ := mem_of_findById read
        by_cases inside : current.slug ∈ target.path
        · simp only [moveTo, inside, ↓reduceIte]
          trivial
        · simp only [moveTo, inside, ↓reduceIte]
          exact follows_rehang ⟨d, kept, id', slug'.trans same⟩
            fun _ named => ⟨e, there, up.trans (Option.some.inj named)⟩

theorem follows_edit (edit : Edit) (db : Database) : Follows strings (edit.call strings) db := by
  cases edit with
  | insert id slug name parentId position => exact ⟨trivial, fun _ _ => follows_refusable _ _⟩
  | move id newParentId => exact follows_move id newParentId db

/-- What holds in every run: the constraints, and that the calls in progress name
categories that are there. -/
structure Founded {ι : Type} (strings : StringType) (s : Console ι) : Prop where
  lawful : Lawful s.db.nodes
  follows : ∀ i call, s.sessions i = some call → Follows strings call s.db

section Turns

variable {ι : Type} [DecidableEq ι] {s : Console ι}

theorem Founded.set (founded : Founded strings s) {i : ι} {session : Option (Call Unit)}
    (own : ∀ call, session = some call → Follows strings call s.db) :
    Founded strings (s.set i session) := by
  refine ⟨founded.lawful, fun j call active => ?_⟩
  by_cases same : j = i
  · subst same
    exact own call (by simpa [Console.set] using active)
  · exact founded.follows j call (by simpa [Console.set, same] using active)

theorem Founded.exec (founded : Founded strings s) {i : ι} {q : Stmt} {rest : q.Answer → Call Unit}
    (active : s.sessions i = some (.call q rest)) :
    Founded strings
      ({ s with db := Stmt.after q s.db }.set i (some (rest (Stmt.answer q s.db)))) := by
  obtain ⟨here, next⟩ := founded.follows i _ active
  have kept : Founded strings { s with db := Stmt.after q s.db } :=
    ⟨Stmt.lawful here founded.lawful,
      fun j call active => (founded.follows j call active).grows (Stmt.grows here)⟩
  refine kept.set fun call same => ?_
  cases same
  exact next s.db (Grows.refl _)

theorem Founded.step (founded : Founded strings s) (turn : Turn ι) :
    Founded strings (s.step strings turn) := by
  have ended : ∀ i, Founded strings (s.set i none) :=
    fun i => founded.set fun _ none => by cases none
  cases turn with
  | start i edit =>
    simp only [Console.step]
    cases s.sessions i with
    | some _ => exact founded
    | none =>
      refine founded.set fun call same => ?_
      cases same
      exact follows_edit edit s.db
  | abort i => exact ended i
  | run i =>
    simp only [Console.step]
    cases active : s.sessions i with
    | none => exact ended i
    | some call =>
      cases call with
      | done a => exact ended i
      | fail e => exact ended i
      | call q rest => exact founded.exec active

theorem founded_reachable {start : Database} (lawful : Lawful start.nodes)
    (reached : (System.ofFunction ({ db := start } : Console ι)
      (Console.step strings)).Reachable s) : Founded strings s :=
  reached.invariant (fun _ begins => begins ▸ ⟨lawful, fun _ _ none => by cases none⟩)
    fun _ turn _ founded taken => taken ▸ founded.step turn

end Turns

/-- **The `UPDATE` of a move.** On a table with exact paths it keeps them exact
exactly when it finds what its call relied on. -/
theorem Sound.rehang_iff (sound : Sound db) {slug : String} {parentId : Option String}
    {oldDepth : Nat} (founded : (Stmt.rehang id slug parentId oldDepth).Founded strings db) :
    Exact ((Stmt.rehang id slug parentId oldDepth).after db).nodes ↔
      ¬ db.Tears id slug parentId oldDepth := by
  obtain ⟨-, ⟨c, member, rfl, rfl⟩, target⟩ := founded
  have root := node_of_mem member
  unfold Stmt.after Stmt.writes
  by_cases self : parentId = some c.id
  · have refused : violated (db.rehung c.id c.slug parentId oldDepth) ≠ none := by
      intro passed
      have lawful := violated_eq_none_iff.mp passed
      rw [nodes_rehung] at lawful
      refine lawful.proper _ (mem_map_of_mem root) ?_
      rw [Node.graft_id]
      exact (Node.graft_parent_self (sound.exact.mem_path root) rfl).trans self
    simp only [refused, ↓reduceIte]
    exact ⟨fun _ tears => tears.1 self, fun _ => sound.exact⟩
  · have lawful : Lawful ((db.rehung c.id c.slug parentId oldDepth).map CategoryRow.node) := by
      rw [nodes_rehung]
      refine sound.lawful.graft c.node self (fun up named => ?_) c.slug
      obtain ⟨d, found, same⟩ := target up named
      exact ⟨d.node, node_of_mem found, same⟩
    simp only [violated_eq_none_iff.mpr lawful, ↓reduceIte]
    change Exact ((db.rehung c.id c.slug parentId oldDepth).map CategoryRow.node) ↔ _
    rw [nodes_rehung]
    refine (sound.exact.graft_iff sound.keyed root (hangs_pathUnder _ sound.lawful target)).trans ?_
    constructor
    · rintro ⟨outside, level⟩ ⟨-, d, found, ⟨named, inside⟩ | ⟨same, moved⟩⟩
      · exact outside d.node (node_of_mem found) named inside
      · cases inj_on_of_nodup_map sound.lawful.nodup found member same
        change c.path.length = oldDepth ∨ c.path.length < oldDepth ∧ _ at level
        rcases moved with deeper | ⟨higher, child, inside, named⟩
        · rcases level with level | ⟨higher, -⟩ <;> omega
        · rcases level with level | ⟨-, childless⟩
          · omega
          · exact childless child.node (node_of_mem inside) named
    · intro fits
      constructor
      · intro above up named inside
        obtain ⟨d, found, rfl⟩ := mem_map.mp up
        exact fits ⟨self, d, found, .inl ⟨named, inside⟩⟩
      · change c.path.length = oldDepth ∨ c.path.length < oldDepth ∧ _
        rcases lt_trichotomy c.path.length oldDepth with higher | level | deeper
        · refine .inr ⟨higher, fun child inside named => ?_⟩
          obtain ⟨d, found, rfl⟩ := mem_map.mp inside
          exact fits ⟨self, c, member, .inr ⟨rfl, .inr ⟨higher, d, found, named⟩⟩⟩
        · exact .inl level
        · exact (fits ⟨self, c, member, .inr ⟨rfl, .inl deeper⟩⟩).elim

theorem Sound.insert (sound : Sound db) (id slug name : String) (parentId : Option String)
    (position : Int) :
    Exact ((Stmt.insert id slug name parentId position).after db).nodes := by
  unfold Stmt.after Stmt.writes
  by_cases passed : violated (db.inserted id slug name parentId position) = none
  · simp only [passed, ↓reduceIte]
    exact sound.inserted (violated_eq_none_iff.mp passed)
  · simp only [passed, ↓reduceIte]
    exact sound.exact

/-- **One turn.** It keeps the paths exact exactly when it is no `UPDATE` that does
not find what its call relied on. -/
theorem Founded.exact_step_iff {ι : Type} [DecidableEq ι] {s : Console ι}
    (founded : Founded strings s) (exact : Exact s.db.nodes) (turn : Turn ι) :
    Exact (s.step strings turn).db.nodes ↔ ¬ s.Tears turn := by
  have sound : Sound s.db := ⟨founded.lawful, exact⟩
  cases turn with
  | start i edit =>
    simp only [Console.step, Console.Tears, not_false_eq_true, iff_true]
    cases s.sessions i with
    | none => exact exact
    | some _ => exact exact
  | abort i => exact ⟨fun _ tears => tears, fun _ => exact⟩
  | run i =>
    simp only [Console.step, Console.Tears]
    cases active : s.sessions i with
    | none => exact ⟨fun _ tears => tears, fun _ => exact⟩
    | some call =>
      cases call with
      | done | fail => exact ⟨fun _ tears => tears, fun _ => exact⟩
      | call q rest =>
        have here := (founded.follows i _ active).1
        cases q with
        | findById id => exact ⟨fun _ tears => tears, fun _ => exact⟩
        | insert id slug name parentId position =>
          exact ⟨fun _ tears => tears, fun _ => sound.insert id slug name parentId position⟩
        | rename | deleteIfEmpty => exact here.elim
        | rehang id slug parentId oldDepth => exact sound.rehang_iff here

/-- No `UPDATE` of a move is executed whose strings are bound as `varchar`. -/
theorem Founded.not_tears {ι : Type} {s : Console ι} (founded : Founded .varchar s)
    (turn : Turn ι) : ¬ s.Tears turn := by
  cases turn with
  | start | abort => exact id
  | run i =>
    simp only [Console.Tears]
    split
    · rename_i active
      obtain ⟨⟨accepted, -⟩, -⟩ := founded.follows i _ active
      cases accepted
    · exact id

/-- **Concurrent edits.** From a table with exact paths, they stay exact and the
parents without a cycle throughout a run exactly when every `UPDATE` of the run finds
what its call relied on. No `UPDATE` is executed where bound strings are a `varchar`. -/
theorem exact_throughout_iff {ι : Type} [DecidableEq ι] (strings : StringType) {start : Database}
    (sound : Sound start) (turns : List (Turn ι)) :
    (∀ front, front <+: turns →
      let db := (front.foldl (Console.step strings) ({ db := start } : Console ι)).db
      Acyclic db.nodes ∧ Exact db.nodes) ↔
    strings = .varchar ∨ ∀ front turn, front ++ [turn] <+: turns →
      ¬ (front.foldl (Console.step strings) ({ db := start } : Console ι)).Tears turn := by
  have holds := System.throughout_iff
    (P := fun s : Console ι => Acyclic s.db.nodes ∧ Exact s.db.nodes) (f := Console.step strings)
    ⟨sound.exact.acyclic sound.keyed, sound.exact⟩ (fun s turn reached holds => by
      have founded := founded_reachable sound.lawful reached
      refine Iff.trans ⟨fun after => after.2, fun exact => ⟨?_, exact⟩⟩
        (founded.exact_step_iff holds.2 turn)
      exact exact.acyclic (founded.step turn).lawful.keyed) turns
  refine holds.trans ⟨.inr, fun either => ?_⟩
  rcases either with rfl | careful
  · exact fun front turn _ =>
      (founded_reachable sound.lawful (System.Reachable.foldl front)).not_tears turn
  · exact careful

/-- Two categories are moved under each other: both cycle checks are made before
either `UPDATE`. -/
def crossing : List (Turn Bool) :=
  [.start true (.insert "1" "audio" "Audio" none 0), .run true, .run true,
    .start true (.insert "2" "video" "Video" none 1), .run true, .run true,
    .start true (.move "1" (some "2")), .start false (.move "2" (some "1")),
    .run true, .run false, .run true, .run false, .run true, .run false]

theorem crossing_categories : (crossing.foldl (Console.step .unspecified) {}).db.categories =
    [⟨"1", "audio", "Audio", some "2", ["video", "audio", "video", "audio"], 0⟩,
      ⟨"2", "video", "Video", some "1", ["video", "audio", "video"], 1⟩] := by
  decide

theorem not_acyclic_crossing :
    ¬ Acyclic (crossing.foldl (Console.step .unspecified) {}).db.nodes := by
  intro acyclic
  rw [nodes, crossing_categories] at acyclic
  refine acyclic "1" (Relation.TransGen.tail (.single (b := "2") ?_) ?_)
  · exact ⟨_, mem_cons_self, rfl, rfl⟩
  · exact ⟨_, mem_cons_of_mem _ mem_cons_self, rfl, rfl⟩

theorem crossing_tears : ∃ front turn, front ++ [turn] <+: crossing ∧
    (front.foldl (Console.step .unspecified) {}).Tears turn := by
  by_contra none
  have holds := (exact_throughout_iff .unspecified sound_empty crossing).mpr
    (.inr fun front turn taken tears => none ⟨front, turn, taken, tears⟩)
  exact not_acyclic_crossing (holds crossing (prefix_refl _)).1

theorem edits_break_the_tree : ¬ ∀ (strings : StringType) (turns : List (Turn Bool)),
    let db := (turns.foldl (Console.step strings) {}).db
    Acyclic db.nodes ∧ Exact db.nodes :=
  fun always => not_acyclic_crossing (always .unspecified crossing).1

end Souq.Catalog
