import Mathlib.Data.List.Nodup
import Mathlib.Data.List.Perm.Subperm
import Mathlib.Logic.Relation

/-!
# Worklist closure

A frontier is emptied one element at a time. Each element's neighbours that are
not marked yet are marked and join the frontier at its end. The elements marked
in the end are those the elements marked at the start lead to.
-/

namespace Worklist

open List

variable {κ : Type} [DecidableEq κ]

/-- What is still to visit, and what was found. -/
structure State (κ : Type) where
  frontier : List κ
  marked : List κ

/-- Mark an element and queue it, unless it is marked. -/
def State.add (s : State κ) (k : κ) : State κ :=
  if k ∈ s.marked then s else ⟨s.frontier ++ [k], s.marked ++ [k]⟩

/-- Empty the frontier, with a bound on the number of rounds. -/
def close (next : κ → List κ) : Nat → State κ → Option (List κ)
  | fuel, s =>
    match s.frontier, fuel with
    | [], _ => some s.marked
    | _ :: _, 0 => none
    | k :: frontier, fuel + 1 =>
      close next fuel ((next k).foldl State.add { s with frontier := frontier })

def Leads (next : κ → List κ) : κ → κ → Prop :=
  Relation.ReflTransGen fun a b => b ∈ next a

/-- What is new among some elements is marked and queued once. -/
theorem foldl_add (found : List κ) (s : State κ) :
    ∃ new, found.foldl State.add s = ⟨s.frontier ++ new, s.marked ++ new⟩ ∧ new.Nodup ∧
      (∀ k ∈ new, k ∈ found ∧ k ∉ s.marked) ∧ ∀ k ∈ found, k ∈ s.marked ++ new := by
  induction found generalizing s with
  | nil => exact ⟨[], by simp⟩
  | cons first found ih =>
    obtain ⟨new, result, distinct, fresh, all⟩ := ih (s.add first)
    rw [foldl_cons, result]
    by_cases marked : first ∈ s.marked
    · rw [State.add, if_pos marked] at *
      refine ⟨new, rfl, distinct, fun k member => ?_, fun k member => ?_⟩
      · exact ⟨mem_cons_of_mem _ (fresh k member).1, (fresh k member).2⟩
      · rcases mem_cons.mp member with rfl | later
        · exact mem_append_left _ marked
        · exact all k later
    · rw [State.add, if_neg marked] at *
      simp only [append_assoc, singleton_append] at *
      refine ⟨first :: new, rfl, nodup_cons.mpr ⟨fun again => ?_, distinct⟩,
        fun k member => ?_, fun k member => ?_⟩
      · exact (fresh first again).2 (mem_append_right _ mem_cons_self)
      · rcases mem_cons.mp member with rfl | later
        · exact ⟨mem_cons_self, marked⟩
        · exact ⟨mem_cons_of_mem _ (fresh k later).1,
            fun old => (fresh k later).2 (mem_append_left _ old)⟩
      · rcases mem_cons.mp member with rfl | later
        · exact mem_append_right _ mem_cons_self
        · exact all k later

/-- What holds while the frontier is emptied. -/
structure Closing (next : κ → List κ) (start : List κ) (s : State κ) : Prop where
  queued : ∀ k ∈ s.frontier, k ∈ s.marked
  closed : ∀ k ∈ s.marked, k ∉ s.frontier → ∀ n ∈ next k, n ∈ s.marked
  started : ∀ k ∈ start, k ∈ s.marked
  reached : ∀ k ∈ s.marked, ∃ a ∈ start, Leads next a k

variable {next : κ → List κ} {start : List κ}

/-- **One round.** -/
theorem Closing.round {k : κ} {frontier marked : List κ}
    (closing : Closing next start ⟨k :: frontier, marked⟩) :
    Closing next start ((next k).foldl State.add ⟨frontier, marked⟩) := by
  obtain ⟨new, result, -, fresh, all⟩ := foldl_add (next k) ⟨frontier, marked⟩
  rw [result]
  have taken : k ∈ marked := closing.queued k mem_cons_self
  refine ⟨fun other member => ?_, fun other member unqueued n neighbour => ?_, fun a first => ?_,
    fun other member => ?_⟩
  · rcases mem_append.mp member with old | added
    · exact mem_append_left _ (closing.queued other (mem_cons_of_mem _ old))
    · exact mem_append_right _ added
  · by_cases same : other = k
    · exact all n (same ▸ neighbour)
    · rcases mem_append.mp member with old | added
      · refine mem_append_left _ (closing.closed other old (fun waiting => ?_) n neighbour)
        rcases mem_cons.mp waiting with first | later
        · exact same first
        · exact unqueued (mem_append_left _ later)
      · exact (unqueued (mem_append_right _ added)).elim
  · exact mem_append_left _ (closing.started a first)
  · rcases mem_append.mp member with old | added
    · exact closing.reached other old
    · obtain ⟨a, first, leads⟩ := closing.reached k taken
      exact ⟨a, first, leads.tail (fresh other added).1⟩

omit [DecidableEq κ] in
theorem Closing.mem_iff {marked : List κ} (closing : Closing next start ⟨[], marked⟩) {k : κ} :
    k ∈ marked ↔ ∃ a ∈ start, Leads next a k := by
  refine ⟨closing.reached k, ?_⟩
  rintro ⟨a, first, leads⟩
  induction leads with
  | refl => exact closing.started a first
  | tail _ last ih => exact closing.closed _ ih not_mem_nil _ last

/-- **The closure.** Started on what is marked, the search ends with what that
leads to. -/
theorem Closing.mem_close {fuel : Nat} {s : State κ} {result : List κ}
    (closing : Closing next start s) (closes : close next fuel s = some result) {k : κ} :
    k ∈ result ↔ ∃ a ∈ start, Leads next a k := by
  induction fuel generalizing s with
  | zero =>
    obtain ⟨frontier, marked⟩ := s
    cases frontier with
    | nil =>
      cases closes
      exact closing.mem_iff
    | cons first frontier => cases closes
  | succ fuel ih =>
    obtain ⟨frontier, marked⟩ := s
    cases frontier with
    | nil =>
      cases closes
      exact closing.mem_iff
    | cons first frontier => exact ih closing.round closes

/-- **Enough rounds.** Within a list that the neighbours never leave, the search
ends after as many rounds as elements are queued or still unmarked. -/
theorem exists_close {all : List κ} (inside : ∀ k ∈ all, ∀ n ∈ next k, n ∈ all) {fuel : Nat}
    {s : State κ} (queued : ∀ k ∈ s.frontier, k ∈ all) (marked : ∀ k ∈ s.marked, k ∈ all)
    (distinct : s.marked.Nodup)
    (enough : s.frontier.length + (all.length - s.marked.length) ≤ fuel) :
    ∃ result, close next fuel s = some result := by
  induction fuel generalizing s with
  | zero =>
    obtain ⟨frontier, done⟩ := s
    cases frontier with
    | nil => exact ⟨done, rfl⟩
    | cons first frontier =>
      simp only [length_cons] at enough
      omega
  | succ fuel ih =>
    obtain ⟨frontier, done⟩ := s
    cases frontier with
    | nil => exact ⟨done, rfl⟩
    | cons first frontier =>
      obtain ⟨new, result, once, fresh, -⟩ := foldl_add (next first) ⟨frontier, done⟩
      have found : ∀ k ∈ new, k ∈ all := fun k member =>
        inside first (queued first mem_cons_self) k (fresh k member).1
      have apart : (done ++ new).Nodup :=
        distinct.append once fun k old added => (fresh k added).2 old
      have within : ∀ k ∈ done ++ new, k ∈ all := by
        intro k member
        rcases mem_append.mp member with old | added
        · exact marked k old
        · exact found k added
      have room : (done ++ new).length ≤ all.length := (apart.subperm within).length_le
      change ∃ result, close next fuel ((next first).foldl State.add ⟨frontier, done⟩) = _
      rw [result]
      refine ih (fun k member => ?_) within apart ?_
      · rcases mem_append.mp member with old | added
        · exact queued k (mem_cons_of_mem _ old)
        · exact found k added
      · simp only [length_append, length_cons] at enough room ⊢
        omega

end Worklist
