import Mathlib.Data.List.Basic
import Mathlib.Logic.Relation

/-!
# Trees with materialised paths

Every node names its parent and carries the labels from the root down to itself.
Where each path is the parent's path and the node's own label, the parents have no
cycle and a label lies on a path exactly when its node is above. Hanging a subtree
under another node rewrites one prefix, and the paths stay exact under one
condition.
-/

namespace PathTree

open List Relation.ReflTransGen

variable {κ σ : Type}

/-- A row of the tree, with its path written out. -/
structure Node (κ σ : Type) where
  id : κ
  label : σ
  parent : Option κ
  path : List σ

def Parent (nodes : List (Node κ σ)) (child above : κ) : Prop :=
  ∃ node ∈ nodes, node.id = child ∧ node.parent = some above

/-- No node is above itself. -/
def Acyclic (nodes : List (Node κ σ)) : Prop := ∀ a, ¬ Relation.TransGen (Parent nodes) a a

def Below (nodes : List (Node κ σ)) : κ → κ → Prop := Relation.ReflTransGen (Parent nodes)

/-- A root's path is its label, every other node's path is its parent's path
followed by its own label. -/
def Exact (nodes : List (Node κ σ)) : Prop :=
  ∀ node ∈ nodes, (node.parent = none ∧ node.path = [node.label]) ∨
    ∃ above ∈ nodes, node.parent = some above.id ∧ node.path = above.path ++ [node.label]

/-- Ids and labels tell nodes apart. -/
structure Keyed (nodes : List (Node κ σ)) : Prop where
  ids : ∀ a ∈ nodes, ∀ b ∈ nodes, a.id = b.id → a = b
  labels : ∀ a ∈ nodes, ∀ b ∈ nodes, a.label = b.label → a = b

section Exact

variable {nodes : List (Node κ σ)}

variable {node : Node κ σ}

theorem Exact.mem_path (exact : Exact nodes) (member : node ∈ nodes) :
    node.label ∈ node.path := by
  rcases exact node member with ⟨-, path⟩ | ⟨above, -, -, path⟩
  · simp [path]
  · simp [path]

theorem Exact.parent (exact : Exact nodes) (member : node ∈ nodes) {above : κ}
    (named : node.parent = some above) :
    ∃ up ∈ nodes, up.id = above ∧ node.path = up.path ++ [node.label] := by
  rcases exact node member with ⟨root, -⟩ | ⟨up, there, parent, path⟩
  · rw [root] at named
    cases named
  · rw [parent] at named
    exact ⟨up, there, Option.some.inj named, path⟩

/-- **Exact paths have no cycle.** The paths get shorter on the way up. -/
theorem Exact.acyclic (exact : Exact nodes) (keyed : Keyed nodes) : Acyclic nodes := by
  have shorter : ∀ a b, Relation.TransGen (Parent nodes) a b → ∃ x ∈ nodes, ∃ y ∈ nodes,
      x.id = a ∧ y.id = b ∧ y.path.length < x.path.length := by
    intro a b steps
    induction steps with
    | single step =>
      obtain ⟨node, member, rfl, named⟩ := step
      obtain ⟨up, there, rfl, path⟩ := exact.parent member named
      exact ⟨node, member, up, there, rfl, rfl, by simp [path]⟩
    | tail _ step ih =>
      obtain ⟨x, inside, y, also, from', rfl, less⟩ := ih
      obtain ⟨node, member, same, named⟩ := step
      obtain ⟨up, there, rfl, path⟩ := exact.parent member named
      cases keyed.ids node member y also same
      refine ⟨x, inside, up, there, from', rfl, Nat.lt_trans ?_ less⟩
      simp [path]
  intro a cycle
  obtain ⟨x, inside, y, also, start, stop, less⟩ := shorter a a cycle
  cases keyed.ids x inside y also (start.trans stop.symm)
  exact Nat.lt_irrefl _ less

/-- **The path decides the subtree.** A label on the path belongs to a node above,
whose own path is a prefix. -/
theorem Exact.above (exact : Exact nodes) (member : node ∈ nodes) {label : σ}
    (on : label ∈ node.path) :
    ∃ root ∈ nodes, root.label = label ∧ Below nodes node.id root.id ∧ root.path <+: node.path := by
  induction depth : node.path.length using Nat.strongRecOn generalizing node with
  | _ n ih =>
    subst depth
    have own : label = node.label → ∃ root ∈ nodes, root.label = label ∧
        Below nodes node.id root.id ∧ root.path <+: node.path := fun same =>
      ⟨node, member, same.symm, refl, prefix_refl _⟩
    rcases exact node member with ⟨-, path⟩ | ⟨up, there, named, path⟩
    · rw [path] at on
      exact own (mem_singleton.mp on)
    · rw [path] at on
      rcases mem_append.mp on with higher | last
      · obtain ⟨root, found, same, below, front⟩ :=
          ih up.path.length (by simp [path]) there higher rfl
        refine ⟨root, found, same, below.head ⟨node, member, rfl, named⟩, ?_⟩
        rw [path]
        exact front.trans (prefix_append _ _)
      · exact own (mem_singleton.mp last)

theorem Exact.extends_path (exact : Exact nodes) (keyed : Keyed nodes) {root : Node κ σ}
    (member : node ∈ nodes) (there : root ∈ nodes) (on : root.label ∈ node.path) :
    root.path <+: node.path := by
  obtain ⟨other, found, same, -, front⟩ := exact.above member on
  cases keyed.labels other found root there same
  exact front

theorem Exact.mem_path_iff (exact : Exact nodes) (keyed : Keyed nodes) {root : Node κ σ}
    (member : node ∈ nodes) (there : root ∈ nodes) :
    root.label ∈ node.path ↔ Below nodes node.id root.id := by
  constructor
  · intro on
    obtain ⟨other, found, same, below, -⟩ := exact.above member on
    cases keyed.labels other found root there same
    exact below
  · intro below
    -- every node on the way up has the label on its path
    have on : ∀ a, Below nodes a root.id → ∀ node ∈ nodes, node.id = a →
        root.label ∈ node.path := by
      intro a below
      induction below using head_induction_on with
      | refl =>
        intro node member same
        cases keyed.ids node member root there same
        exact exact.mem_path member
      | head step _ ih =>
        obtain ⟨child, inside, rfl, named⟩ := step
        intro node member same
        cases keyed.ids node member child inside same
        obtain ⟨up, higher, rfl, path⟩ := exact.parent inside named
        rw [path]
        exact mem_append_left _ (ih up higher rfl)
    exact on node.id below node member rfl

end Exact

section Graft

variable [DecidableEq κ] [DecidableEq σ]

/-- Rewrite what a node has on its path down to a depth, where a label is on the
path; the node with a given id gets a new parent. -/
def Node.graft (id : κ) (label : σ) (parent : Option κ) (head : List σ) (depth : Nat)
    (node : Node κ σ) : Node κ σ :=
  if label ∈ node.path then
    { node with
      path := head ++ node.path.drop depth
      parent := if node.id = id then parent else node.parent }
  else node

variable {nodes : List (Node κ σ)} {id : κ} {label : σ} {parent : Option κ} {head : List σ}
  {depth : Nat}

@[simp] theorem Node.graft_id (node : Node κ σ) :
    (node.graft id label parent head depth).id = node.id := by
  unfold graft
  split <;> rfl

@[simp] theorem Node.graft_label (node : Node κ σ) :
    (node.graft id label parent head depth).label = node.label := by
  unfold graft
  split <;> rfl

variable {node : Node κ σ}

theorem Node.graft_outside (outside : label ∉ node.path) :
    node.graft id label parent head depth = node := if_neg outside

theorem Node.graft_path (inside : label ∈ node.path) :
    (node.graft id label parent head depth).path = head ++ node.path.drop depth := by
  rw [graft, if_pos inside]

theorem Node.graft_parent_self (inside : label ∈ node.path) (same : node.id = id) :
    (node.graft id label parent head depth).parent = parent := by
  rw [graft, if_pos inside]
  exact if_pos same

theorem Node.graft_parent_of_ne (other : node.id ≠ id) :
    (node.graft id label parent head depth).parent = node.parent := by
  by_cases inside : label ∈ node.path
  · rw [graft, if_pos inside]
    exact if_neg other
  · rw [graft_outside inside]

theorem Keyed.graft (keyed : Keyed nodes) :
    Keyed (nodes.map (Node.graft id label parent head depth)) := by
  constructor
  · intro a first b second same
    obtain ⟨x, inside, rfl⟩ := mem_map.mp first
    obtain ⟨y, also, rfl⟩ := mem_map.mp second
    rw [keyed.ids x inside y also (by simpa using same)]
  · intro a first b second same
    obtain ⟨x, inside, rfl⟩ := mem_map.mp first
    obtain ⟨y, also, rfl⟩ := mem_map.mp second
    rw [keyed.labels x inside y also (by simpa using same)]

/-- The new parent, where there is one, and the prefix it gives. -/
def Hangs (nodes : List (Node κ σ)) (parent : Option κ) (label : σ) (head : List σ) : Prop :=
  (parent = none ∧ head = [label]) ∨
    ∃ above ∈ nodes, parent = some above.id ∧ head = above.path ++ [label]

variable {root : Node κ σ}

/-- Under a node outside the subtree, with the subtree's old depth, the paths stay
exact. A node without children may also have been deeper before. -/
theorem Exact.graft (exact : Exact nodes) (keyed : Keyed nodes) (there : root ∈ nodes)
    (hangs : Hangs nodes parent root.label head)
    (outside : ∀ above ∈ nodes, parent = some above.id → root.label ∉ above.path)
    (level : root.path.length = depth ∨
      root.path.length < depth ∧ ∀ node ∈ nodes, node.parent ≠ some root.id) :
    Exact (nodes.map (Node.graft root.id root.label parent head depth)) := by
  have put : ∀ node ∈ nodes, node.graft root.id root.label parent head depth ∈
      nodes.map (Node.graft root.id root.label parent head depth) :=
    fun node member => mem_map_of_mem member
  have short : root.path.drop depth = [] := drop_eq_nil_of_le (by omega)
  intro grafted mapped
  obtain ⟨node, member, rfl⟩ := mem_map.mp mapped
  by_cases inside : root.label ∈ node.path
  · by_cases same : node.id = root.id
    · cases keyed.ids node member root there same
      rw [Node.graft_path inside, Node.graft_parent_self inside rfl, short, append_nil,
        Node.graft_label]
      rcases hangs with ⟨none, path⟩ | ⟨above, up, named, path⟩
      · exact .inl ⟨none, path⟩
      · refine .inr ⟨_, put above up, ?_, ?_⟩
        · rw [Node.graft_id, named]
        · rw [Node.graft_outside (outside above up named), path]
    · -- the parent is in the subtree too, so both lose the same prefix
      have different : node.label ≠ root.label := fun equal =>
        same (congrArg Node.id (keyed.labels node member root there equal))
      rw [Node.graft_path inside, Node.graft_parent_of_ne same, Node.graft_label]
      rcases exact node member with ⟨-, path⟩ | ⟨above, up, named, path⟩
      · rw [path] at inside
        exact (different (mem_singleton.mp inside).symm).elim
      · have higher : root.label ∈ above.path := by
          rw [path] at inside
          rcases mem_append.mp inside with old | last
          · exact old
          · exact (different (mem_singleton.mp last).symm).elim
        have front := (exact.extends_path keyed up there higher).length_le
        refine .inr ⟨_, put above up, by rw [Node.graft_id, named], ?_⟩
        rcases level with level | ⟨deeper, childless⟩
        · rw [Node.graft_path higher, path, drop_append_of_le_length (by omega), append_assoc]
        · -- without children the subtree is the node alone
          have onway : ∀ a b, Relation.ReflTransGen (Parent nodes) a b → b = root.id →
              a = root.id := by
            intro a b below stop
            induction below using head_induction_on with
            | refl => exact stop
            | head step _ ih =>
              obtain ⟨child, within, -, leads⟩ := step
              rw [ih] at leads
              exact (childless child within leads).elim
          exact (same (onway _ _ ((exact.mem_path_iff keyed member there).mp inside) rfl)).elim
  · rw [Node.graft_outside inside]
    rcases exact node member with ⟨root, path⟩ | ⟨above, up, named, path⟩
    · exact .inl ⟨root, path⟩
    · have apart : root.label ∉ above.path := fun on =>
        inside (path ▸ mem_append_left _ on)
      refine .inr ⟨_, put above up, by rw [Node.graft_id, named], ?_⟩
      rw [Node.graft_outside apart, path]

theorem not_acyclic_graft (exact : Exact nodes) (keyed : Keyed nodes) (there : root ∈ nodes)
    {above : Node κ σ} (up : above ∈ nodes) (named : parent = some above.id)
    (inside : root.label ∈ above.path) :
    ¬ Acyclic (nodes.map (Node.graft root.id root.label parent head depth)) := by
  intro acyclic
  have kept : ∀ a, Below nodes a root.id →
      Below (nodes.map (Node.graft root.id root.label parent head depth)) a root.id := by
    intro a below
    induction below using head_induction_on with
    | refl => exact refl
    | head step _ ih =>
      obtain ⟨child, within, rfl, leads⟩ := step
      by_cases same : child.id = root.id
      · rw [same]
        exact refl
      · refine ih.head ⟨_, mem_map_of_mem within, Node.graft_id _, ?_⟩
        rw [Node.graft_parent_of_ne same, leads]
  have back := kept above.id ((exact.mem_path_iff keyed up there).mp inside)
  refine acyclic root.id (Relation.TransGen.head' ⟨_, mem_map_of_mem there,
    Node.graft_id _, ?_⟩ back)
  rw [Node.graft_parent_self (exact.mem_path there) rfl, named]

/-- **Grafting.** It keeps the paths exact exactly when the new parent is outside the
subtree and the depth is the subtree's, or a larger one for a node without
children. -/
theorem Exact.graft_iff (exact : Exact nodes) (keyed : Keyed nodes) (there : root ∈ nodes)
    (hangs : Hangs nodes parent root.label head) :
    Exact (nodes.map (Node.graft root.id root.label parent head depth)) ↔
      (∀ above ∈ nodes, parent = some above.id → root.label ∉ above.path) ∧
      (root.path.length = depth ∨
        root.path.length < depth ∧ ∀ node ∈ nodes, node.parent ≠ some root.id) := by
  refine ⟨fun after => ?_, fun fits => exact.graft keyed there hangs fits.1 fits.2⟩
  have outside : ∀ above ∈ nodes, parent = some above.id → root.label ∉ above.path :=
    fun above up named inside =>
      not_acyclic_graft exact keyed there up named inside (after.acyclic keyed.graft)
  refine ⟨outside, ?_⟩
  have own := exact.mem_path there
  -- the path of the root of the subtree is the new prefix
  have start : head ++ root.path.drop depth = head := by
    have placed := after _ (mem_map_of_mem there)
    rw [Node.graft_path own, Node.graft_parent_self own rfl, Node.graft_label] at placed
    rcases hangs with ⟨none, path⟩ | ⟨above, up, named, path⟩
    · rcases placed with ⟨-, is⟩ | ⟨_, _, some, -⟩
      · rw [is, path]
      · rw [none] at some
        cases some
    · rcases placed with ⟨none, -⟩ | ⟨other, also, same, is⟩
      · rw [named] at none
        cases none
      · obtain ⟨y, inside, rfl⟩ := mem_map.mp also
        rw [named, Node.graft_id, Option.some.injEq] at same
        cases keyed.ids above up y inside same
        rw [Node.graft_outside (outside above up named)] at is
        rw [is, path]
  have shallow : root.path.length ≤ depth := by
    have empty : root.path.drop depth = [] :=
      append_cancel_left (start.trans (append_nil _).symm)
    exact drop_eq_nil_iff.mp empty
  rcases Nat.eq_or_lt_of_le shallow with level | deeper
  · exact .inl level
  · refine .inr ⟨deeper, fun child member named => ?_⟩
    -- a child's path would have to be longer than the prefix
    obtain ⟨up, above, same, path⟩ := exact.parent member named
    cases keyed.ids up above root there same
    have inside : root.label ∈ child.path := path ▸ mem_append_left _ own
    have different : child.id ≠ root.id := by
      intro equal
      have longer := congrArg List.length path
      rw [keyed.ids child member root there equal] at longer
      simp at longer
    have placed := after _ (mem_map_of_mem member)
    rw [Node.graft_parent_of_ne different, Node.graft_path inside, named] at placed
    have gone : child.path.drop depth = [] := by
      rw [path]
      exact drop_eq_nil_of_le (by simpa [Nat.succ_le_iff] using deeper)
    rcases placed with ⟨none, -⟩ | ⟨other, also, parent, is⟩
    · cases none
    · obtain ⟨y, within, rfl⟩ := mem_map.mp also
      rw [Node.graft_id, Option.some.injEq] at parent
      cases keyed.ids root there y within parent
      rw [Node.graft_path own, start, gone, append_nil] at is
      simpa using congrArg List.length is

end Graft

end PathTree
