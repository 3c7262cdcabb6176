import Souq.Catalog.Categories

/-!
# Materialised paths are exact

Calls made one at a time keep every path equal to the parent's path followed by
the category's own slug. The constraints give the ids and slugs one row each, the
cycle check keeps the target of a move outside the subtree, and the depth that the
call has read is the depth the `UPDATE` finds.
-/

namespace Souq.Catalog

open Transact Transition PathTree Database List CategoryRow Node

/-- The rows as a tree. -/
def Database.nodes (db : Database) : List (Node String String) := db.categories.map node

/-- What the constraints of the table say of the tree. -/
structure Lawful (nodes : List (Node String String)) : Prop where
  proper : ∀ node ∈ nodes, node.parent ≠ some node.id
  ids : (nodes.map Node.id).Nodup
  slugs : (nodes.map Node.label).Nodup
  parents : ∀ node ∈ nodes, ∀ parentId, node.parent = some parentId → ∃ up ∈ nodes, up.id = parentId

theorem violated_eq_none_iff {categories : List CategoryRow} :
    violated categories = none ↔ Lawful (categories.map CategoryRow.node) := by
  have ids : (categories.map CategoryRow.node).map Node.id = categories.map CategoryRow.id := by
    rw [map_map]
    rfl
  have slugs : (categories.map CategoryRow.node).map Node.label = categories.map slug := by
    rw [map_map]
    rfl
  unfold violated
  constructor
  · intro passed
    split at passed
    · cases passed
    · rename_i proper
      split at passed
      · cases passed
      · rename_i once
        split at passed
        · cases passed
        · rename_i apart
          split at passed
          · cases passed
          · rename_i parents
            refine ⟨?_, ids ▸ not_not.mp once, slugs ▸ not_not.mp apart, ?_⟩
            · intro node member self
              obtain ⟨c, found, rfl⟩ := mem_map.mp member
              exact proper ⟨c, found, self⟩
            · intro node member parentId named
              obtain ⟨c, found, rfl⟩ := mem_map.mp member
              by_contra missing
              refine parents ⟨c, found, ?_⟩
              rw [show c.parentId = some parentId from named, Option.any_some, all_eq_true]
              intro d inside
              rw [decide_eq_true_eq]
              exact fun same => missing ⟨d.node, mem_map_of_mem inside, same⟩
  · intro lawful
    rw [if_neg, if_neg, if_neg, if_neg]
    · rintro ⟨c, found, dangling⟩
      cases named : c.parentId with
      | none =>
        rw [named] at dangling
        cases dangling
      | some parentId =>
        rw [named, Option.any_some, all_eq_true] at dangling
        obtain ⟨up, there, same⟩ :=
          lawful.parents c.node (mem_map_of_mem found) parentId named
        obtain ⟨d, inside, rfl⟩ := mem_map.mp there
        exact of_decide_eq_true (dangling d inside) same
    · exact not_not.mpr (slugs ▸ lawful.slugs)
    · exact not_not.mpr (ids ▸ lawful.ids)
    · rintro ⟨c, found, self⟩
      exact lawful.proper c.node (mem_map_of_mem found) self

theorem Lawful.keyed {nodes : List (Node String String)} (lawful : Lawful nodes) : Keyed nodes where
  ids := fun _ first _ second same => inj_on_of_nodup_map lawful.ids first second same
  labels := fun _ first _ second same => inj_on_of_nodup_map lawful.slugs first second same

/-- A table that meets its constraints and whose paths are exact. -/
structure Sound (db : Database) : Prop where
  lawful : Lawful db.nodes
  exact : Exact db.nodes

theorem Sound.keyed {db : Database} (sound : Sound db) : Keyed db.nodes := sound.lawful.keyed

section Statements

variable {db : Database} {id slug name : String} {parentId : Option String} {position : Int}

variable {c : CategoryRow}

theorem node_of_mem (member : c ∈ db.categories) : c.node ∈ db.nodes :=
  mem_map_of_mem member

theorem Lawful.nodup (lawful : Lawful db.nodes) : (db.categories.map CategoryRow.id).Nodup := by
  have ids := lawful.ids
  rwa [nodes, map_map] at ids

theorem find_of_lawful (lawful : Lawful db.nodes) (member : c ∈ db.categories) :
    (db.categories.find? fun d => d.id = c.id) = some c := by
  cases found : db.categories.find? fun d => d.id = c.id with
  | none => simpa using find?_eq_none.mp found c member
  | some d =>
    have same : d.id = c.id := by simpa using find?_some found
    rw [inj_on_of_nodup_map lawful.nodup (mem_of_find?_eq_some found) member same]

theorem countP_of_mem (lawful : Lawful db.nodes) (member : c ∈ db.categories) :
    (db.categories.countP fun d => d.id = c.id) = 1 := by
  have once := count_eq_one_of_mem lawful.nodup (mem_map_of_mem member)
  rw [List.count, countP_map] at once
  rw [← once]
  exact countP_congr fun d _ => by simp

theorem pathUnder_eq (lawful : Lawful db.nodes) (member : c ∈ db.categories) :
    db.pathUnder (some c.id) slug = c.path ++ [slug] := by
  simp only [pathUnder, find_of_lawful lawful member, Option.elim_some]

theorem hangs_pathUnder (slug : String) (lawful : Lawful db.nodes)
    (there : ∀ up, parentId = some up → ∃ c ∈ db.categories, c.id = up) :
    Hangs db.nodes parentId slug (db.pathUnder parentId slug) := by
  cases parentId with
  | none => exact .inl ⟨rfl, rfl⟩
  | some up =>
    obtain ⟨c, member, rfl⟩ := there up rfl
    exact .inr ⟨c.node, node_of_mem member, rfl, pathUnder_eq lawful member⟩

theorem nodes_inserted : (db.inserted id slug name parentId position).map node =
    db.nodes ++ [⟨id, slug, parentId, db.pathUnder parentId slug⟩] := by
  simp [inserted, nodes, node]

theorem nodes_rehung {oldDepth : Nat} :
    (db.rehung id slug parentId oldDepth).map node =
      db.nodes.map (graft id slug parentId (db.pathUnder parentId slug) oldDepth) := by
  rw [rehung, nodes, map_map, map_map]
  refine map_congr_left fun c _ => ?_
  by_cases inside : slug ∈ c.path
  · simp only [Function.comp_apply, graft, node, inside, ↓reduceIte]
    rfl
  · simp only [Function.comp_apply, graft, node, inside, ↓reduceIte]

theorem nodes_renamed {given : Option String} {place : Option Int} :
    (db.renamed id given place).map node = db.nodes := by
  rw [renamed, nodes, map_map]
  refine map_congr_left fun c _ => ?_
  simp only [Function.comp_apply, node]
  split <;> rfl

theorem Sound.inserted (sound : Sound db)
    (lawful : Lawful ((db.inserted id slug name parentId position).map node)) :
    Exact ((db.inserted id slug name parentId position).map node) := by
  rw [nodes_inserted] at lawful ⊢
  have there : ∀ up, parentId = some up → ∃ c ∈ db.categories, c.id = up := by
    intro up named
    obtain ⟨node, member, same⟩ :=
      lawful.parents _ (mem_append_right _ mem_cons_self) up named
    rcases mem_append.mp member with old | new
    · obtain ⟨c, found, rfl⟩ := mem_map.mp old
      exact ⟨c, found, same⟩
    · cases mem_singleton.mp new
      cases same
      exact (lawful.proper _ (mem_append_right _ mem_cons_self) named).elim
  intro node member
  rcases mem_append.mp member with old | new
  · rcases sound.exact node old with root | ⟨above, up, named, path⟩
    · exact .inl root
    · exact .inr ⟨above, mem_append_left _ up, named, path⟩
  · cases mem_singleton.mp new
    rcases hangs_pathUnder slug sound.lawful there with root | ⟨above, up, named, path⟩
    · exact .inl root
    · exact .inr ⟨above, mem_append_left _ up, named, path⟩

theorem Lawful.graft {nodes : List (Node String String)} {parent : Option String}
    {head : List String} {depth : Nat} (lawful : Lawful nodes) (root : Node String String)
    (proper : parent ≠ some root.id)
    (there : ∀ up, parent = some up → ∃ above ∈ nodes, above.id = up)
    (label : String) : Lawful (nodes.map (graft root.id label parent head depth)) := by
  have parents : ∀ node ∈ nodes, (node.graft root.id label parent head depth).parent = parent ∧
      node.id = root.id ∨ (node.graft root.id label parent head depth).parent = node.parent := by
    intro node _
    by_cases same : node.id = root.id
    · by_cases inside : label ∈ node.path
      · exact .inl ⟨graft_parent_self inside same, same⟩
      · exact .inr (by rw [graft_outside inside])
    · exact .inr (graft_parent_of_ne same)
  refine ⟨?_, ?_, ?_, ?_⟩
  · intro grafted mapped
    obtain ⟨node, member, rfl⟩ := mem_map.mp mapped
    rw [graft_id]
    rcases parents node member with ⟨moved, same⟩ | kept
    · rwa [moved, same]
    · rw [kept]
      exact lawful.proper node member
  · have same : Node.id ∘ Node.graft root.id label parent head depth = Node.id :=
      funext Node.graft_id
    rw [map_map, same]
    exact lawful.ids
  · have same : Node.label ∘ Node.graft root.id label parent head depth = Node.label :=
      funext Node.graft_label
    rw [map_map, same]
    exact lawful.slugs
  · intro grafted mapped up named
    obtain ⟨node, member, rfl⟩ := mem_map.mp mapped
    obtain ⟨above, found, same⟩ : ∃ above ∈ nodes, above.id = up := by
      rcases parents node member with ⟨moved, -⟩ | kept
      · exact there up (moved ▸ named)
      · exact lawful.parents node member up (kept ▸ named)
    exact ⟨_, mem_map_of_mem found, (graft_id above).trans same⟩

theorem Sound.deleted (sound : Sound db) :
    Sound { db with categories := db.categories.filter fun c => ¬ (c.id = id ∧ db.empty id) } := by
  have fewer : (db.categories.filter fun c => ¬ (c.id = id ∧ db.empty id)).Sublist db.categories :=
    filter_sublist
  have stays : ∀ c ∈ db.categories, ∀ up ∈ db.categories, c.parentId = some up.id →
      up ∈ db.categories.filter fun c => ¬ (c.id = id ∧ db.empty id) := by
    intro c member up above named
    rw [mem_filter, decide_eq_true_eq]
    refine ⟨above, ?_⟩
    rintro ⟨rfl, none⟩
    have childless := (Bool.and_eq_true _ _ ▸ none : _ ∧ _).1
    exact of_decide_eq_true (all_eq_true.mp childless c member) named
  have rows : ∀ node ∈ db.nodes, ∀ up ∈ db.nodes, node.parent = some up.id →
      up ∈ (db.categories.filter fun c => ¬ (c.id = id ∧ db.empty id)).map CategoryRow.node := by
    intro node member up above named
    obtain ⟨c, found, rfl⟩ := mem_map.mp member
    obtain ⟨d, higher, rfl⟩ := mem_map.mp above
    exact mem_map_of_mem (stays c found d higher named)
  have inside : ∀ node ∈ (db.categories.filter fun c => ¬ (c.id = id ∧ db.empty id)).map
      CategoryRow.node, node ∈ db.nodes := (fewer.map CategoryRow.node).subset
  refine ⟨⟨?_, ?_, ?_, ?_⟩, ?_⟩
  · exact fun node member => sound.lawful.proper node (inside node member)
  · exact sound.lawful.ids.sublist ((fewer.map CategoryRow.node).map Node.id)
  · exact sound.lawful.slugs.sublist ((fewer.map node).map label)
  · intro node member up named
    obtain ⟨above, higher, rfl⟩ := sound.lawful.parents node (inside node member) up named
    exact ⟨above, rows node (inside node member) above higher named, rfl⟩
  · intro node member
    rcases sound.exact node (inside node member) with root | ⟨above, higher, named, path⟩
    · exact .inl root
    · exact .inr ⟨above, rows node (inside node member) above higher named, named, path⟩

end Statements

section Calls

variable {db : Database} {id slug name : String} {parentId : Option String} {position : Int}

theorem run_insert : (insert id slug name parentId position).run db =
    match violated (db.inserted id slug name parentId position) with
    | none => (.ok (), { db with categories := db.inserted id slug name parentId position })
    | some constraint => (.error (.dataIntegrityViolation constraint), db) := by
  have ran : (insert id slug name parentId position).run db =
      (refusable (leave (db.inserted id slug name parentId position))).run
        (dialect.replay (Stmt.writes (.insert id slug name parentId position) db) db) := rfl
  rw [ran]
  cases checked : violated (db.inserted id slug name parentId position) with
  | none =>
    simp only [leave, Stmt.writes, checked, ↓reduceIte]
    rfl
  | some constraint =>
    simp only [leave, Stmt.writes, checked, reduceCtorEq, ↓reduceIte]
    rfl

theorem run_rehang {oldDepth : Nat} : (rehang .unspecified id slug parentId oldDepth).run db =
    match violated (db.rehung id slug parentId oldDepth) with
    | none => (.ok (), { db with categories := db.rehung id slug parentId oldDepth })
    | some constraint => (.error (.dataIntegrityViolation constraint), db) := by
  have ran : (rehang .unspecified id slug parentId oldDepth).run db =
      (refusable (leave (db.rehung id slug parentId oldDepth))).run
        (dialect.replay (Stmt.writes (.rehang id slug parentId oldDepth) db) db) := rfl
  rw [ran]
  cases checked : violated (db.rehung id slug parentId oldDepth) with
  | none =>
    simp only [leave, Stmt.writes, checked, ↓reduceIte]
    rfl
  | some constraint =>
    simp only [leave, Stmt.writes, checked, reduceCtorEq, ↓reduceIte]
    rfl

/-- A call of `move` fails exactly where the category or the target is missing or
the target lies in the subtree. -/
def Refused (db : Database) (id : String) (newParentId : Option String) : Prop :=
  (∀ c ∈ db.categories, c.id ≠ id) ∨ ∃ parentId, newParentId = some parentId ∧
    ((∀ c ∈ db.categories, c.id ≠ parentId) ∨ Below db.nodes parentId id)

theorem exists_of_not_missing (missing : ¬ ∀ c ∈ db.categories, c.id ≠ id) :
    ∃ c ∈ db.categories, c.id = id := by
  by_contra none
  exact missing fun c member same => none ⟨c, member, same⟩

theorem findById_eq_none (missing : ∀ c ∈ db.categories, c.id ≠ id) : db.findById id = none := by
  have none : (db.categories.find? fun c => c.id = id) = none :=
    find?_eq_none.mpr fun c member => by simpa using missing c member
  rw [findById, none]
  rfl

theorem findById_eq_some (lawful : Lawful db.nodes) {c : CategoryRow} (member : c ∈ db.categories) :
    db.findById c.id = some (db.category c) := by
  rw [findById, find_of_lawful lawful member]
  rfl

theorem Sound.rehung (sound : Sound db) {c : CategoryRow} (member : c ∈ db.categories)
    (parentId : Option String)
    (there : ∀ up, parentId = some up → ∃ d ∈ db.categories, d.id = up ∧ c.slug ∉ d.path) :
    violated (db.rehung c.id c.slug parentId c.path.length) = none ∧
      Sound { db with categories := db.rehung c.id c.slug parentId c.path.length } := by
  have proper : parentId ≠ some c.node.id := by
    intro self
    obtain ⟨d, found, same, outside⟩ := there c.id self
    have equal := sound.keyed.ids d.node (node_of_mem found) c.node (node_of_mem member) same
    rw [show d.path = c.path from congrArg Node.path equal] at outside
    exact outside (sound.exact.mem_path (node_of_mem member))
  have lawful : Lawful ((db.rehung c.id c.slug parentId c.path.length).map CategoryRow.node) := by
    rw [nodes_rehung]
    refine sound.lawful.graft c.node proper (fun up named => ?_) c.slug
    obtain ⟨d, found, same, -⟩ := there up named
    exact ⟨d.node, node_of_mem found, same⟩
  refine ⟨violated_eq_none_iff.mpr lawful, lawful, ?_⟩
  change Exact ((db.rehung c.id c.slug parentId c.path.length).map node)
  rw [nodes_rehung]
  change Exact (db.nodes.map (graft c.node.id c.node.label parentId
    (db.pathUnder parentId c.node.label) c.node.path.length))
  refine sound.exact.graft sound.keyed (node_of_mem member)
    (hangs_pathUnder _ sound.lawful fun up named => ?_) (fun above up named => ?_) (.inl rfl)
  · obtain ⟨d, found, same, -⟩ := there up named
    exact ⟨d, found, same⟩
  · obtain ⟨d, found, same, outside⟩ := there above.id named
    rwa [← sound.keyed.ids d.node (node_of_mem found) above up same]

/-- **A move.** It is refused and changes nothing, or it rewrites the subtree. -/
theorem run_move (sound : Sound db) (id : String) (newParentId : Option String) :
    (Refused db id newParentId ∧ ∃ e, (move .unspecified id newParentId).run db = (.error e, db)) ∨
      ¬ Refused db id newParentId ∧ ∃ c ∈ db.categories, c.id = id ∧
        (move .unspecified id newParentId).run db =
          (.ok (), { db with categories := db.rehung id c.slug newParentId c.path.length }) ∧
        Sound { db with categories := db.rehung id c.slug newParentId c.path.length } := by
  have ran : (move .unspecified id newParentId).run db =
      (moveFrom .unspecified id newParentId (db.findById id)).run db := rfl
  rw [ran]
  by_cases missing : ∀ c ∈ db.categories, c.id ≠ id
  · rw [findById_eq_none missing]
    exact .inl ⟨.inl missing, noCategory id, rfl⟩
  · obtain ⟨c, member, rfl⟩ := exists_of_not_missing missing
    rw [findById_eq_some sound.lawful member]
    cases newParentId with
    | none =>
      obtain ⟨passed, after⟩ := sound.rehung member none (by simp)
      refine .inr ⟨?_, c, member, rfl, ?_, after⟩
      · rintro (absent | ⟨_, some, -⟩)
        · exact missing absent
        · cases some
      · exact run_rehang.trans (by simp only [category, passed])
    | some parentId =>
      have targeted : (moveFrom .unspecified c.id (some parentId) (some (db.category c))).run db =
          (moveTo .unspecified c.id (db.category c) parentId (db.findById parentId)).run db := rfl
      rw [targeted]
      by_cases absent : ∀ d ∈ db.categories, d.id ≠ parentId
      · rw [findById_eq_none absent]
        exact .inl ⟨.inr ⟨parentId, rfl, .inl absent⟩, noCategory parentId, rfl⟩
      · obtain ⟨d, found, rfl⟩ := exists_of_not_missing absent
        rw [findById_eq_some sound.lawful found]
        have subtree := sound.exact.mem_path_iff sound.keyed (node_of_mem found)
          (node_of_mem member)
        by_cases inside : c.slug ∈ d.path
        · refine .inl ⟨.inr ⟨d.id, rfl, .inr (subtree.mp inside)⟩, cycle c.id d.id, ?_⟩
          simp only [moveTo, category, inside, ↓reduceIte]
          rfl
        · obtain ⟨passed, after⟩ := sound.rehung member (some d.id)
            fun up named => ⟨d, found, Option.some.inj named, inside⟩
          refine .inr ⟨?_, c, member, rfl, ?_, after⟩
          · rintro (none | ⟨_, same, none | below⟩)
            · exact missing none
            · cases same
              exact absent none
            · cases same
              exact inside (subtree.mpr below)
          · simp only [moveTo, category, inside, ↓reduceIte]
            exact run_rehang.trans (by simp only [passed])

/-- **One call.** -/
theorem Sound.after (sound : Sound db) (request : Request) :
    Sound (request.after .unspecified db) := by
  cases request with
  | insert id slug name parentId position =>
    simp only [Request.after, run_insert]
    cases checked : violated (db.inserted id slug name parentId position) with
    | none =>
      have lawful := violated_eq_none_iff.mp checked
      exact ⟨lawful, sound.inserted lawful⟩
    | some constraint => exact sound
  | rename id name position =>
    have same : (Request.after .unspecified db (.rename id name position)).nodes = db.nodes :=
      nodes_renamed
    exact ⟨same ▸ sound.lawful, same ▸ sound.exact⟩
  | move id newParentId =>
    simp only [Request.after]
    rcases run_move sound id newParentId with ⟨-, e, ran⟩ | ⟨-, c, -, -, ran, after⟩
    · rw [ran]
      exact sound
    · rw [ran]
      exact after
  | deleteIfEmpty id => exact sound.deleted

theorem after_of_failed (sound : Sound db) {request : Request}
    (failed : request.Failed .unspecified db) : request.after .unspecified db = db := by
  cases request with
  | insert id slug name parentId position =>
    simp only [Request.Failed, Request.after, run_insert] at *
    cases checked : violated (db.inserted id slug name parentId position) with
    | none => simp only [checked, ne_eq, not_true_eq_false] at failed
    | some constraint => rfl
  | rename id name position =>
    have none : (db.categories.countP fun c => c.id = id) = 0 := Except.ok.inj failed
    have kept : db.renamed id name position = db.categories := by
      rw [renamed]
      refine (map_congr_left fun c member => ?_).trans (map_id _)
      have other : c.id ≠ id := by simpa using countP_eq_zero.mp none c member
      rw [if_neg other, id_eq]
    change { db with categories := db.renamed id name position } = db
    rw [kept]
  | move id newParentId =>
    simp only [Request.Failed, Request.after] at *
    rcases run_move sound id newParentId with ⟨-, e, ran⟩ | ⟨-, c, -, -, ran, -⟩
    · rw [ran]
    · rw [ran] at failed
      exact (failed rfl).elim
  | deleteIfEmpty id =>
    have count : ((db.categories.countP fun c => c.id = id ∧ db.empty id) == 1) = false :=
      Except.ok.inj failed
    -- an id names at most one row, so a count other than one is zero
    have kept : (db.categories.filter fun c => ¬ (c.id = id ∧ db.empty id)) = db.categories := by
      refine filter_eq_self.mpr fun c member => ?_
      rw [decide_eq_true_eq]
      rintro ⟨rfl, none⟩
      have one := countP_of_mem sound.lawful member
      simp only [none, and_true, one] at count
      cases count
    change { db with categories := db.categories.filter fun c => ¬ (c.id = id ∧ db.empty id) } = db
    rw [kept]

theorem Sound.step (sound : Sound db) (event : Event) : Sound (db.step .unspecified event) := by
  cases event with
  | call request => exact sound.after request
  | products rows => exact ⟨sound.lawful, sound.exact⟩

theorem sound_empty : Sound {} :=
  ⟨⟨by simp [nodes], nodup_nil, nodup_nil, by simp [nodes]⟩, by simp [nodes, Exact]⟩

theorem sound_foldl (events : List Event) : Sound (events.foldl (step .unspecified) {}) :=
  (System.Reachable.foldl events).invariant (fun _ start => start ▸ sound_empty)
    fun _ event _ sound taken => taken ▸ sound.step event

theorem Sound.mem_subtree (sound : Sound db) {category : Category} :
    category ∈ db.subtree slug ↔ ∃ c ∈ db.categories, category = db.category c ∧
      ∃ root ∈ db.categories, root.slug = slug ∧ Below db.nodes c.id root.id := by
  rw [subtree, (perm_insertionSort _ _).mem_iff]
  simp only [mem_map, mem_filter, decide_eq_true_eq]
  constructor
  · rintro ⟨c, ⟨member, inside⟩, rfl⟩
    obtain ⟨root, there, same, below, -⟩ := sound.exact.above (node_of_mem member) inside
    obtain ⟨d, found, rfl⟩ := mem_map.mp there
    exact ⟨c, member, rfl, d, found, same, below⟩
  · rintro ⟨c, member, rfl, root, found, rfl, below⟩
    exact ⟨c, ⟨member, (sound.exact.mem_path_iff sound.keyed (node_of_mem member)
      (node_of_mem found)).mpr below⟩, rfl⟩

theorem Sound.nodup_subtree (sound : Sound db) (slug : String) :
    ((db.subtree slug).map fun category => category.id).Nodup := by
  rw [subtree, ((perm_insertionSort _ _).map _).nodup_iff, map_map]
  exact sound.lawful.nodup.sublist (filter_sublist.map CategoryRow.id)

/-- The parents have no cycle, every path is the parent's path and the own slug, a subtree
query returns the subtree, a move fails exactly when it is refused, and a failed call
changes nothing. -/
structure Kept (strings : StringType) (db : Database) : Prop where
  acyclic : Acyclic db.nodes
  exact : Exact db.nodes
  subtree : ∀ slug, ∃ found, db.findSubtree strings slug = .ok found ∧
    (found.map fun category => category.id).Nodup ∧ ∀ category, category ∈ found ↔
      ∃ c ∈ db.categories, category = db.category c ∧
        ∃ root ∈ db.categories, root.slug = slug ∧ Below db.nodes c.id root.id
  refused : ∀ id newParentId, ((move strings id newParentId).run db).1 ≠ .ok () ↔
    Refused db id newParentId
  failed : ∀ request : Request, request.Failed strings db → request.after strings db = db

/-- **Exact paths.** After any sequence of calls all of it is kept exactly when the driver
sends bound strings without a type. -/
theorem paths_exact_iff (strings : StringType) (events : List Event) :
    Kept strings (events.foldl (step strings) {}) ↔ strings = .unspecified := by
  cases strings with
  | varchar =>
    refine iff_of_false (fun kept => ?_) (by decide)
    obtain ⟨found, answered, -⟩ := kept.subtree ""
    cases answered
  | unspecified =>
    refine iff_of_true ?_ rfl
    have sound := sound_foldl events
    refine ⟨sound.exact.acyclic sound.keyed, sound.exact, fun slug => ?_, fun id newParentId => ?_,
      fun request => after_of_failed sound⟩
    · exact ⟨_, rfl, sound.nodup_subtree slug, fun category => sound.mem_subtree⟩
    · rcases run_move sound id newParentId with ⟨refused, e, ran⟩ | ⟨allowed, c, -, -, ran, -⟩
      · rw [ran]
        exact ⟨fun _ => refused, fun _ => by simp⟩
      · rw [ran]
        exact ⟨fun failed => (failed rfl).elim, fun refused => (allowed refused).elim⟩

/-- Two categories, whose subtrees cannot be read and which cannot be moved. -/
def shelved : List Event :=
  [.call (.insert "1" "electronics" "Electronics" none 0),
    .call (.insert "2" "audio" "Audio" none 1)]

theorem subtree_unread : ¬ ∀ (strings : StringType) (events : List Event),
    Kept strings (events.foldl (step strings) {}) := by
  intro kept
  obtain ⟨found, answered, -⟩ := (kept .varchar shelved).subtree "electronics"
  cases answered

end Calls

end Souq.Catalog
