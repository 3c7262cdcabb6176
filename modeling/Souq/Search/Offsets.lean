import Souq.Lib.Partition
import Souq.Lib.Transition

/-!
# The offsets of the search indexer

`run_indexer` of search-service takes one message after another from the partitions of
the catalogue and the inventory topic. A message that was handled is followed by
`commit()`, which commits the position of the consumer on every partition. A message
whose handling has raised an exception is left uncommitted, but the position has moved
past it, and it is delivered again only after a restart.

`lossless_throughout_iff` has the exact condition on the steps of a run: a commit loses
what has failed before it.
-/

namespace Souq.Search

open Transition Function List

/-- Where the loop of `run_indexer` is. -/
inductive Phase (π : Type) where
  | polling
  | handling (partition : π) (offset : Nat)
  | committing
  /-- The second after a failure. -/
  | sleeping
  deriving DecidableEq

/-- The partitions with the offsets of the consumer group, and the consumer. -/
structure Indexer (π μ : Type) where
  partitions : π → EventLog μ := fun _ => {}
  phase : Phase π := .polling
  /-- The messages that `handle_message` has returned for. -/
  handled : List (π × Nat) := []
  /-- The messages for which it has raised an exception. -/
  failed : List (π × Nat) := []

/-- One step of a run. -/
inductive Action (π μ : Type) where
  | produce (partition : π) (message : μ)
  /-- The consumer yields the next message of a partition. -/
  | fetch (partition : π)
  | handle (raises : Bool)
  | commit (raises : Bool)
  | wake
  /-- The task is cancelled or the process dies, and a new consumer is started. -/
  | restart

namespace Indexer

variable {π μ : Type} [DecidableEq π]

def fetch (s : Indexer π μ) (partition : π) : Indexer π μ :=
  match s.phase, (s.partitions partition).next with
  | .polling, some _ =>
    { s with
      partitions := Function.update s.partitions partition (s.partitions partition).advance
      phase := .handling partition (s.partitions partition).position }
  | _, _ => s

def handle (s : Indexer π μ) (raises : Bool) : Indexer π μ :=
  match s.phase with
  | .handling partition offset =>
    if raises then { s with failed := (partition, offset) :: s.failed, phase := .sleeping }
    else { s with handled := (partition, offset) :: s.handled, phase := .committing }
  | _ => s

def commit (s : Indexer π μ) (raises : Bool) : Indexer π μ :=
  match s.phase with
  | .committing =>
    if raises then { s with phase := .sleeping }
    else
      { s with
        partitions := fun partition => (s.partitions partition).commitPosition
        phase := .polling }
  | _ => s

def wake (s : Indexer π μ) : Indexer π μ :=
  match s.phase with
  | .sleeping => { s with phase := .polling }
  | _ => s

def step (s : Indexer π μ) : Action π μ → Indexer π μ
  | .produce partition message =>
    { s with
      partitions := Function.update s.partitions partition
        ((s.partitions partition).produce message) }
  | .fetch partition => s.fetch partition
  | .handle raises => s.handle raises
  | .commit raises => s.commit raises
  | .wake => s.wake
  | .restart =>
    { s with partitions := fun partition => (s.partitions partition).restart, phase := .polling }

end Indexer

variable {π μ : Type} [DecidableEq π]

/-- The indexer on topics that are empty at first. -/
def indexing (π μ : Type) [DecidableEq π] : System (Indexer π μ) (Action π μ) :=
  .ofFunction {} Indexer.step

namespace Indexer

/-- Every message below the committed offset of its partition was handled without an
exception. -/
def Kept (s : Indexer π μ) : Prop :=
  ∀ partition offset message, offset < (s.partitions partition).committed →
    (s.partitions partition).log[offset]? = some message → (partition, offset) ∈ s.handled

/-- A commit that covers a message which has failed and was never handled. -/
def loses (s : Indexer π μ) : Action π μ → Bool
  | .commit false =>
    decide (s.phase = .committing) && s.failed.any fun message =>
      decide (message.2 < (s.partitions message.1).position) && !s.handled.contains message
  | _ => false

def Accounts (s : Indexer π μ) : Prop :=
  ∀ partition, (s.partitions partition).Reads
    (fun offset _ => (partition, offset) ∈ s.handled ∨ (partition, offset) ∈ s.failed)
    fun offset => s.phase = .handling partition offset

variable {s : Indexer π μ}

omit [DecidableEq π] in
theorem Accounts.next {s' : Indexer π μ} (accounts : s.Accounts)
    (partitions : s'.partitions = s.partitions)
    (handled : ∀ message ∈ s.handled, message ∈ s'.handled)
    (failed : ∀ message ∈ s.failed, message ∈ s'.failed)
    (caught : ∀ partition offset, s.phase = .handling partition offset →
      (partition, offset) ∈ s'.handled ∨ (partition, offset) ∈ s'.failed) : s'.Accounts := by
  intro partition
  rw [partitions]
  refine (accounts partition).mono ?_ fun offset _ _ _ _ behind =>
    .inl (caught partition offset behind)
  exact fun offset _ => Or.imp (handled _) (failed _)

theorem Accounts.produce (accounts : s.Accounts) (partition : π) (message : μ) :
    (s.step (.produce partition message)).Accounts := by
  intro other
  by_cases same : other = partition
  · subst same
    simp only [step, update_self]
    exact (accounts other).produce message
  · simp only [step, update_of_ne same]
    exact accounts other

theorem Accounts.fetch (accounts : s.Accounts) (partition : π) :
    (s.fetch partition).Accounts := by
  unfold Indexer.fetch
  split
  · rename_i message polling found
    intro other
    by_cases same : other = partition
    · subst same
      simp only [update_self]
      refine (accounts other).advance found (fun offset behind => ?_) rfl
      rw [polling] at behind
      cases behind
    · simp only [update_of_ne same]
      refine (accounts other).mono (fun _ _ => id) fun offset _ _ _ _ behind => ?_
      rw [polling] at behind
      cases behind
  · exact accounts

omit [DecidableEq π] in
theorem Accounts.handle (accounts : s.Accounts) (raises : Bool) : (s.handle raises).Accounts := by
  unfold Indexer.handle
  split
  · rename_i partition offset handling
    cases raises with
    | true =>
      refine accounts.next rfl (fun _ => id) (fun _ => mem_cons_of_mem _) ?_
      intro other k behind
      cases handling.symm.trans behind
      exact .inr mem_cons_self
    | false =>
      refine accounts.next rfl (fun _ => mem_cons_of_mem _) (fun _ => id) ?_
      intro other k behind
      cases handling.symm.trans behind
      exact .inl mem_cons_self
  · exact accounts

omit [DecidableEq π] in
theorem Accounts.commit (accounts : s.Accounts) (raises : Bool) : (s.commit raises).Accounts := by
  unfold Indexer.commit
  split
  · rename_i committing
    have idle : ∀ partition offset, s.phase ≠ .handling partition offset := by
      intro partition offset behind
      cases committing.symm.trans behind
    cases raises with
    | true =>
      exact accounts.next rfl (fun _ => id) (fun _ => id) fun partition offset behind =>
        (idle partition offset behind).elim
    | false =>
      intro partition
      have settled := (accounts partition).commitPosition fun offset _ _ _ _ behind =>
        (idle partition offset behind).elim
      exact settled.mono (fun _ _ => id) fun offset _ _ _ _ behind =>
        (idle partition offset behind).elim
  · exact accounts

omit [DecidableEq π] in
theorem Accounts.wake (accounts : s.Accounts) : s.wake.Accounts := by
  unfold Indexer.wake
  split
  · rename_i sleeping
    refine accounts.next rfl (fun _ => id) (fun _ => id) fun partition offset behind => ?_
    cases sleeping.symm.trans behind
  · exact accounts

theorem Accounts.step (accounts : s.Accounts) (action : Action π μ) : (s.step action).Accounts := by
  cases action with
  | produce partition message => exact accounts.produce partition message
  | fetch partition => exact accounts.fetch partition
  | handle raises => exact accounts.handle raises
  | commit raises => exact accounts.commit raises
  | wake => exact accounts.wake
  | restart => exact fun partition => (accounts partition).restart

theorem accounts_of_reachable (reached : (indexing π μ).Reachable s) : s.Accounts := by
  refine reached.invariant ?_ ?_
  · rintro _ rfl partition
    exact .nil rfl rfl
  · rintro s action _ accounts rfl
    exact accounts.step action

omit [DecidableEq π] in
theorem Kept.mono {s' : Indexer π μ} (kept : s.Kept)
    (committed : ∀ p, (s'.partitions p).committed = (s.partitions p).committed)
    (log : ∀ p offset, offset < (s.partitions p).committed →
      (s'.partitions p).log[offset]? = (s.partitions p).log[offset]?)
    (handled : ∀ message ∈ s.handled, message ∈ s'.handled) : s'.Kept := by
  intro p offset message acked found
  rw [committed p] at acked
  rw [log p offset acked] at found
  exact handled _ (kept p offset message acked found)

theorem Kept.produce (accounts : s.Accounts) (kept : s.Kept) (partition : π) (message : μ) :
    (s.step (.produce partition message)).Kept := by
  refine kept.mono (fun other => ?_) (fun other offset acked => ?_) fun _ => id
  · by_cases same : other = partition
    · subst same
      simp [step, EventLog.produce]
    · simp only [step, update_of_ne same]
  · by_cases same : other = partition
    · subst same
      have reads := accounts other
      simp only [step, update_self, EventLog.produce]
      exact getElem?_append_left (Nat.lt_of_lt_of_le acked (Nat.le_trans reads.order reads.within))
    · simp only [step, update_of_ne same]

theorem Kept.fetch (kept : s.Kept) (partition : π) : (s.fetch partition).Kept := by
  unfold Indexer.fetch
  split
  · refine kept.mono (fun other => ?_) (fun other offset _ => ?_) fun _ => id
    all_goals
      by_cases same : other = partition
      · subst same
        simp [EventLog.advance]
      · simp only [update_of_ne same]
  · exact kept

omit [DecidableEq π] in
theorem Kept.handle (kept : s.Kept) (raises : Bool) : (s.handle raises).Kept := by
  unfold Indexer.handle
  split
  · cases raises with
    | true => exact kept
    | false => exact kept.mono (fun _ => rfl) (fun _ _ _ => rfl) fun _ => mem_cons_of_mem _
  · exact kept

/-- **A commit.** It covers only messages that were handled exactly when it covers none
that has failed and was never handled. -/
theorem Accounts.kept_commit_iff (accounts : s.Accounts) (committing : s.phase = .committing) :
    (s.commit false).Kept ↔ ¬ s.loses (.commit false) = true := by
  have covers : (s.commit false).Kept ↔ ∀ p offset message,
      offset < (s.partitions p).position → (s.partitions p).log[offset]? = some message →
        (p, offset) ∈ s.failed → (p, offset) ∈ s.handled := by
    have partition : ∀ p, _ := fun p =>
      (accounts p).position_iff fun offset _ _ _ behind => by
        cases committing.symm.trans behind
    simp only [Indexer.commit, committing, Kept]
    exact forall_congr' partition
  rw [covers]
  simp only [loses, committing, decide_true, Bool.true_and, any_eq_true, Bool.and_eq_true,
    decide_eq_true_eq, Bool.not_eq_true', contains_eq_mem, decide_eq_false_iff_not]
  constructor
  · rintro all ⟨⟨p, offset⟩, failed, read, missed⟩
    have inside : offset < (s.partitions p).log.length :=
      Nat.lt_of_lt_of_le read (accounts p).within
    exact missed (all p offset _ read (getElem?_eq_getElem inside) failed)
  · intro safe p offset message read _ failed
    by_contra missed
    exact safe ⟨(p, offset), failed, read, missed⟩

theorem Accounts.kept_step_iff (accounts : s.Accounts) (kept : s.Kept) (action : Action π μ) :
    (s.step action).Kept ↔ ¬ s.loses action = true := by
  have harmless : s.loses action = false → (s.step action).Kept →
      ((s.step action).Kept ↔ ¬ s.loses action = true) := by
    intro safe after
    exact ⟨fun _ => by simp [safe], fun _ => after⟩
  cases action with
  | produce partition message => exact harmless rfl (kept.produce accounts partition message)
  | fetch partition => exact harmless rfl (kept.fetch partition)
  | handle raises => exact harmless rfl (kept.handle raises)
  | wake =>
    refine harmless rfl ?_
    simp only [Indexer.step, Indexer.wake]
    split
    · exact kept
    · exact kept
  | restart => exact harmless rfl kept
  | commit raises =>
    by_cases committing : s.phase = .committing
    · cases raises with
      | false => exact accounts.kept_commit_iff committing
      | true =>
        refine harmless rfl ?_
        simp only [Indexer.step, Indexer.commit, committing]
        exact kept
    · have stays : s.commit raises = s := by
        unfold Indexer.commit
        split
        · contradiction
        · rfl
      refine harmless ?_ (by rwa [Indexer.step, stays])
      cases raises with
      | true => rfl
      | false => simp [loses, committing]

end Indexer

/-- **No message is dropped** exactly in the runs that never commit past a message which has
failed and was never handled. -/
theorem lossless_throughout_iff (actions : List (Action π μ)) :
    (∀ front, front <+: actions → (front.foldl Indexer.step {}).Kept) ↔
      ∀ front action, front ++ [action] <+: actions →
        (front.foldl Indexer.step {}).loses action = false := by
  have sharp : ∀ (s : Indexer π μ) action, (indexing π μ).Reachable s → s.Kept →
      ((s.step action).Kept ↔ ¬ s.loses action = true) := fun s action reached kept =>
    (Indexer.accounts_of_reachable reached).kept_step_iff kept action
  have iff := System.throughout_iff (P := Indexer.Kept)
    (fun _ _ _ acked => (Nat.not_lt_zero _ acked).elim) sharp actions
  simp only [Bool.not_eq_true] at iff
  exact iff

/-- The first message of a partition fails, and the second one is handled. -/
def overtaken : List (Action Unit String) :=
  [.produce () "first", .produce () "second", .fetch (), .handle true, .wake, .fetch (),
    .handle false, .commit false]

theorem overtaken_drops_first : ¬ ∀ (s : Indexer Unit String), (indexing Unit String).Reachable s →
    s.Kept := by
  intro holds
  have handled := holds _ (.foldl overtaken) () 0 "first" (by decide) rfl
  have only : (overtaken.foldl Indexer.step {}).handled = [((), 1)] := rfl
  rw [only] at handled
  simp at handled

end Souq.Search
