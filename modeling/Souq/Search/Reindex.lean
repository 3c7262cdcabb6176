import Souq.Lib.Transition
import Souq.Search.Index

/-!
# Moving the alias to a new index

`reindex_into` of search-service creates the new index, starts the copy and moves the alias. The
call that starts the copy returns at once (`wait_for_completion=False`), so the alias may move at
any moment of the copy. `invisible_iff` says at which moments nobody notices.
-/

namespace Souq.Search

open Transition Option Stored

/-- The copy task of the cluster, with what a search of the old index saw when it started. -/
structure CopyTask where
  snapshot : String → Option Stored
  copied : List String := []

/-- The call that `reindex_into` makes next. -/
inductive Awaits where
  | create
  | reindex
  | updateAliases
  | nothing
  deriving DecidableEq

/-- The old index, the new one and the copy task. -/
structure Cluster where
  old : Index
  new : Index := {}
  task : Option CopyTask := none
  next : Awaits := .create

/-- One step of a run. -/
inductive Move where
  /-- The next call of `reindex_into` returns. -/
  | call
  /-- The task copies a document. -/
  | copy (id : String)
  | handle (message : Message)
  | refreshOld
  | refreshNew

namespace Cluster

def reindexInto (s : Cluster) : Cluster :=
  match s.next with
  | .create => { s with new := {}, next := .reindex }
  | .reindex => { s with task := some { snapshot := s.old.searchable }, next := .updateAliases }
  | .updateAliases => { s with next := .nothing }
  | .nothing => s

/-- A document is copied as the snapshot has it, over whatever the new index holds. -/
def copy (s : Cluster) (task : CopyTask) (id : String) : Cluster :=
  match task.snapshot id with
  | some found =>
    if id ∈ task.copied then s
    else { s with
      new := s.new.index id found.doc
      task := some { task with copied := id :: task.copied } }
  | none => s

/-- A message is handled on the index that the alias names. -/
def handle (s : Cluster) (message : Message) : Cluster :=
  if s.next = .nothing then { s with new := (handleMessage message s.new).toOption.getD s.new }
  else { s with old := (handleMessage message s.old).toOption.getD s.old }

def step (s : Cluster) : Move → Cluster
  | .call => s.reindexInto
  | .copy id => (s.task.map fun task => s.copy task id).getD s
  | .handle message => s.handle message
  | .refreshOld => { s with old := s.old.refresh }
  | .refreshNew => { s with new := s.new.refresh }

/-- The new index holds the documents of the old one and no others. -/
def Alike (s : Cluster) : Prop :=
  ∀ id, (s.new.docs id).map doc = (s.old.docs id).map doc

/-- The copy has gone through every document of the old index, and nothing that it copied was
written or deleted since its snapshot. -/
structure CaughtUp (s : Cluster) (task : CopyTask) : Prop where
  whole : ∀ id, s.old.docs id ≠ none → id ∈ task.copied
  still : ∀ id ∈ task.copied, (s.old.docs id).map doc = (task.snapshot id).map doc

/-- The new index holds what the task has copied. -/
def Holds (s : Cluster) (task : CopyTask) : Prop :=
  ∀ id, (s.new.docs id).map doc =
    if id ∈ task.copied then (task.snapshot id).map doc else none

def Tracks (s : Cluster) : Prop :=
  match s.next with
  | .create => s.task = none
  | .reindex => s.task = none ∧ ∀ id, s.new.docs id = none
  | .updateAliases => ∃ task, s.task = some task ∧ s.Holds task
  | .nothing => True

/-- This move takes the alias to the new index. -/
def Flips (s : Cluster) : Move → Prop
  | .call => s.next = .updateAliases
  | _ => False

variable {s : Cluster} {task : CopyTask}

theorem Holds.alike_iff (holds : s.Holds task) : s.Alike ↔ s.CaughtUp task := by
  constructor
  · intro alike
    refine ⟨fun id present => ?_, fun id copied => ?_⟩
    · by_contra missing
      have empty := holds id
      rw [if_neg missing, alike id, map_eq_none_iff] at empty
      exact present empty
    · have kept := holds id
      rwa [if_pos copied, alike id] at kept
  · intro caught id
    rw [holds id]
    by_cases copied : id ∈ task.copied
    · rw [if_pos copied, caught.still id copied]
    · have absent : s.old.docs id = none := by
        by_contra present
        exact copied (caught.whole id present)
      rw [if_neg copied, absent, map_none]

theorem Holds.copy (holds : s.Holds task) (present : s.task = some task) (id : String) :
    ∃ after, (s.copy task id).task = some after ∧ (s.copy task id).Holds after := by
  unfold Cluster.copy
  split
  · rename_i found searched
    split
    · exact ⟨task, present, holds⟩
    · refine ⟨_, rfl, fun other => ?_⟩
      by_cases same : other = id
      · subst same
        simp [Index.index, searched]
      · simp only [Index.index, Function.update_of_ne same, List.mem_cons, same, false_or]
        exact holds other
  · exact ⟨task, present, holds⟩

theorem next_copy (id : String) : (s.copy task id).next = s.next := by
  unfold copy
  split
  · split <;> rfl
  · rfl

theorem Tracks.reindexInto (tracks : s.Tracks) : s.reindexInto.Tracks := by
  unfold Cluster.reindexInto
  unfold Tracks at tracks
  cases next : s.next with
  | create =>
    rw [next] at tracks
    exact ⟨tracks, fun _ => rfl⟩
  | reindex =>
    rw [next] at tracks
    refine ⟨_, rfl, fun id => ?_⟩
    change (s.new.docs id).map doc = none
    rw [tracks.2 id, map_none]
  | updateAliases => trivial
  | nothing => simp only [Tracks, next]

theorem Tracks.step (tracks : s.Tracks) (move : Move) : (s.step move).Tracks := by
  cases move with
  | call => exact tracks.reindexInto
  | copy id =>
    cases present : s.task with
    | none => simpa only [Cluster.step, present, map_none, getD_none] using tracks
    | some task =>
      simp only [Cluster.step, present, map_some, getD_some]
      unfold Tracks at tracks ⊢
      rw [next_copy]
      cases next : s.next with
      | create => simp [next, present] at tracks
      | reindex => simp [next, present] at tracks
      | nothing => trivial
      | updateAliases =>
        rw [next] at tracks
        obtain ⟨_, same, holds⟩ := tracks
        obtain rfl := some.inj (present.symm.trans same)
        exact holds.copy present id
  | handle message =>
    simp only [Cluster.step, handle]
    split
    · rename_i moved
      simp only [Tracks, moved]
    · exact tracks
  | refreshOld => exact tracks
  | refreshNew => exact tracks

/-- The cluster after some moves, the old index under the alias at first. -/
def after (old : Index) (moves : List Move) : Cluster := moves.foldl step { old := old }

theorem tracks_after (old : Index) (moves : List Move) : (after old moves).Tracks := by
  refine (System.Reachable.foldl moves).invariant (I := Tracks) ?_ ?_
  · rintro _ rfl
    rfl
  · rintro s move _ tracks rfl
    exact tracks.step move

/-- Whenever the alias moves, the new index holds what the old one does. -/
def Invisible (old : Index) (moves : List Move) : Prop :=
  ∀ front move, front ++ [move] <+: moves → (after old front).Flips move →
    (after old (front ++ [move])).Alike

theorem Flips.alike_iff {move : Move} (flips : s.Flips move) (tracks : s.Tracks) :
    (s.step move).Alike ↔ ∃ task, s.task = some task ∧ s.CaughtUp task := by
  cases move with
  | call =>
    have next : s.next = .updateAliases := flips
    unfold Tracks at tracks
    rw [next] at tracks
    obtain ⟨task, present, holds⟩ := tracks
    simp only [Cluster.step, Cluster.reindexInto, next, present, some.injEq, exists_eq_left']
    exact holds.alike_iff
  | copy | handle | refreshOld | refreshNew => exact flips.elim

/-- **Reindexing is invisible** in a run exactly when the copy has caught up whenever the alias
moves. -/
theorem invisible_iff (old : Index) (moves : List Move) :
    Invisible old moves ↔ ∀ front move, front ++ [move] <+: moves → (after old front).Flips move →
        ∃ task, (after old front).task = some task ∧ (after old front).CaughtUp task := by
  refine forall₃_congr fun front move _ => forall_congr' fun flips => ?_
  rw [after, List.foldl_append]
  exact flips.alike_iff (tracks_after old front)

/-- Where nothing is copied between the two calls, nobody notices exactly when the old index is
empty. -/
theorem at_once_iff (next : s.next = .reindex) (tracks : s.Tracks) :
    ((s.step .call).step .call).Alike ↔ ∀ id, s.old.docs id = none := by
  unfold Tracks at tracks
  rw [next] at tracks
  simp only [Cluster.step, Cluster.reindexInto, next, Alike, tracks.2, map_none,
    eq_comm (a := none), map_eq_none_iff]

end Cluster

/-- An index with one document. -/
def stocked : Index :=
  (((buildDocument { productId := some "prd_1", sku := some "sku_1" } 0).map
    (({} : Index).index "prd_1")).toOption.getD {}).refresh

/-- The three calls one after the other move the alias to an empty index. -/
theorem stocked_vanishes : ¬ ∀ old moves, Cluster.Invisible old moves := by
  intro holds
  have alike := holds stocked [.call, .call, .call] [.call, .call] .call (List.prefix_refl _) rfl
  have empty := (Cluster.at_once_iff rfl (Cluster.tracks_after stocked [.call])).mp alike "prd_1"
  cases empty

end Souq.Search
