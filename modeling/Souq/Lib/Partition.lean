import Mathlib.Data.List.Basic

/-!
# A partition and its reader

A partition is a log that grows at its end. Its reader fetches one message after
another and acknowledges by offset: committing an offset acknowledges every message
up to it. After a restart the reader goes on from the committed offset, so what was
read and not committed is delivered again.

`Reads` is the reader's account: acknowledged messages are done, and messages read
since the restart are done or known to be behind. Committing keeps it as long as
nothing up to the offset is behind.
-/

universe u

/-- A log, the offset that is committed and the offset that is read next. -/
structure EventLog (μ : Type u) where
  log : List μ := []
  committed : Nat := 0
  position : Nat := 0

namespace EventLog

open List

variable {μ : Type u}

def produce (p : EventLog μ) (m : μ) : EventLog μ := { p with log := p.log ++ [m] }

def next (p : EventLog μ) : Option μ := p.log[p.position]?

def advance (p : EventLog μ) : EventLog μ := { p with position := p.position + 1 }

def commit (p : EventLog μ) (offset : Nat) : EventLog μ := { p with committed := offset + 1 }

def commitPosition (p : EventLog μ) : EventLog μ := { p with committed := p.position }

def restart (p : EventLog μ) : EventLog μ := { p with position := p.committed }

def Holds (p : EventLog μ) (offset : Nat) (m : μ) : Prop :=
  offset + 1 = p.position ∧ p.log[offset]? = some m

theorem getElem?_produce {p : EventLog μ} {k : Nat} {m : μ} (found : p.log[k]? = some m)
    (other : μ) : (p.produce other).log[k]? = some m := by
  obtain ⟨inside, -⟩ := List.getElem?_eq_some_iff.mp found
  exact (getElem?_append_left inside).trans found

theorem Holds.produce {p : EventLog μ} {offset : Nat} {m : μ} (holds : p.Holds offset m)
    (other : μ) : (p.produce other).Holds offset m :=
  ⟨holds.1, getElem?_produce holds.2 other⟩

/-- What was read is done or still at hand. -/
structure Reads (done : Nat → μ → Prop) (behind : Nat → Prop) (p : EventLog μ) : Prop where
  acked : ∀ k m, k < p.committed → p.log[k]? = some m → done k m
  read : ∀ k m, p.committed ≤ k → k < p.position → p.log[k]? = some m → done k m ∨ behind k
  order : p.committed ≤ p.position
  within : p.position ≤ p.log.length

namespace Reads

variable {done done' : Nat → μ → Prop} {behind behind' : Nat → Prop} {p : EventLog μ}

theorem nil (start : p.committed = 0) (begin : p.position = 0) : Reads done behind p := by
  refine ⟨fun k _ acked => ?_, fun k _ _ read => ?_, ?_, ?_⟩
  all_goals omega

theorem mono (reads : Reads done behind p) (more : ∀ k m, done k m → done' k m)
    (caught : ∀ k m, p.committed ≤ k → k < p.position → p.log[k]? = some m → behind k →
      done' k m ∨ behind' k) : Reads done' behind' p where
  acked := fun k m acked found => more k m (reads.acked k m acked found)
  read := fun k m committed read found =>
    (reads.read k m committed read found).elim (fun done => .inl (more k m done))
      (caught k m committed read found)
  order := reads.order
  within := reads.within

theorem produce (reads : Reads done behind p) (m : μ) : Reads done behind (p.produce m) := by
  have same : ∀ k, k < p.position → (p.log ++ [m])[k]? = p.log[k]? := fun k read =>
    getElem?_append_left (Nat.lt_of_lt_of_le read reads.within)
  refine ⟨fun k other acked found => ?_, fun k other committed read found => ?_, reads.order, ?_⟩
  · rw [EventLog.produce, same k (Nat.lt_of_lt_of_le acked reads.order)] at found
    exact reads.acked k other acked found
  · rw [EventLog.produce, same k read] at found
    exact reads.read k other committed read found
  · simp only [EventLog.produce, length_append]
    exact Nat.le_add_right_of_le reads.within

theorem advance (reads : Reads done behind p) {m : μ} (found : p.next = some m)
    (still : ∀ k, behind k → behind' k) (taken : behind' p.position) :
    Reads done behind' p.advance := by
  obtain ⟨inside, -⟩ := List.getElem?_eq_some_iff.mp found
  refine ⟨reads.acked, fun k other committed read found => ?_, Nat.le_succ_of_le reads.order,
    inside⟩
  rcases Nat.lt_succ_iff_lt_or_eq.mp read with earlier | rfl
  · exact (reads.read k other committed earlier found).imp_right (still k)
  · exact .inr taken

/-- **Cumulative commits.** An offset may be committed when nothing up to it is
behind. -/
theorem commit (reads : Reads done behind p) {offset : Nat} (inside : offset < p.position)
    (clear : ∀ k m, p.committed ≤ k → k ≤ offset → p.log[k]? = some m → behind k → done k m) :
    Reads done behind (p.commit offset) where
  acked := by
    intro k m acked found
    have upTo : k ≤ offset := Nat.lt_succ_iff.mp acked
    by_cases before : k < p.committed
    · exact reads.acked k m before found
    · have committed := Nat.not_lt.mp before
      exact (reads.read k m committed (Nat.lt_of_le_of_lt upTo inside) found).elim id
        (clear k m committed upTo found)
  read := by
    intro k m committed read found
    by_cases before : k < p.committed
    · exact .inl (reads.acked k m before found)
    · exact reads.read k m (Nat.not_lt.mp before) read found
  order := inside
  within := reads.within

/-- The message at hand is done, and its offset is committed, or the commit fails. -/
theorem ack {offset : Nat} (reads : Reads done (fun k => some offset = some k) p) {m : μ}
    (held : p.Holds offset m) (known : done offset m) (fails : Bool) :
    Reads done behind' (if fails then p else p.commit offset) := by
  have returned : ∀ k other, p.log[k]? = some other → some offset = some k → done k other := by
    rintro k other here ⟨⟩
    cases held.2.symm.trans here
    exact known
  cases fails with
  | true =>
    exact reads.mono (fun _ _ => id) fun k other _ _ here behind =>
      .inl (returned k other here behind)
  | false =>
    have committed := reads.commit (Nat.lt_of_succ_le (Nat.le_of_eq held.1))
      fun k other _ _ here behind => returned k other here behind
    exact committed.mono (fun _ _ => id) fun k other _ _ here behind =>
      .inl (returned k other here behind)

/-- **Exact condition for a commit.** When what was read is done or lost, everything up to
an offset is done exactly when what was lost up to it is. -/
theorem upTo_iff {lost : Nat → Prop} {offset : Nat}
    (reads : Reads (fun k m => done k m ∨ lost k) (fun k => some offset = some k) p)
    (acked : ∀ k m, k < p.committed → p.log[k]? = some m → done k m) {m : μ}
    (held : p.Holds offset m) (known : done offset m ∨ lost offset) :
    (∀ k m, k < (p.commit offset).committed → p.log[k]? = some m → done k m) ↔
      ∀ k m, k ≤ offset → p.log[k]? = some m → lost k → done k m := by
  constructor
  · intro all k m upTo found _
    exact all k m (Nat.lt_succ_of_le upTo) found
  · intro recovered k other before found
    have upTo : k ≤ offset := Nat.lt_succ_iff.mp before
    by_cases early : k < p.committed
    · exact acked k other early found
    · have read : k < p.position :=
        Nat.lt_of_le_of_lt upTo (Nat.lt_of_succ_le (Nat.le_of_eq held.1))
      rcases reads.read k other (Nat.not_lt.mp early) read found with done | ⟨⟨⟩⟩
      · exact done.elim id (recovered k other upTo found)
      · cases held.2.symm.trans found
        exact known.elim id (recovered offset m upTo found)

theorem commitPosition (reads : Reads done behind p)
    (clear : ∀ k m, p.committed ≤ k → k < p.position → p.log[k]? = some m → behind k → done k m) :
    Reads done behind p.commitPosition where
  acked := by
    intro k m read found
    by_cases before : k < p.committed
    · exact reads.acked k m before found
    · have committed := Nat.not_lt.mp before
      exact (reads.read k m committed read found).elim id (clear k m committed read found)
  read := fun _ _ committed read => (Nat.not_lt.mpr committed read).elim
  order := Nat.le_refl _
  within := reads.within

/-- **Exact condition for a commit of the position.** When what was read is done or lost,
all of it is done exactly when what was lost is. -/
theorem position_iff {lost : Nat → Prop}
    (reads : Reads (fun k m => done k m ∨ lost k) behind p)
    (clear : ∀ k m, k < p.position → p.log[k]? = some m → behind k → done k m ∨ lost k) :
    (∀ k m, k < p.commitPosition.committed → p.log[k]? = some m → done k m) ↔
      ∀ k m, k < p.position → p.log[k]? = some m → lost k → done k m := by
  constructor
  · intro all k m read found _
    exact all k m read found
  · intro recovered k m read found
    have known : done k m ∨ lost k := by
      by_cases early : k < p.committed
      · exact reads.acked k m early found
      · exact (reads.read k m (Nat.not_lt.mp early) read found).elim id (clear k m read found)
    exact known.elim id (recovered k m read found)

theorem restart (reads : Reads done behind p) : Reads done behind' p.restart where
  acked := reads.acked
  read := fun _ _ committed read => (Nat.not_lt.mpr committed read).elim
  order := Nat.le_refl _
  within := Nat.le_trans reads.order reads.within

end Reads

end EventLog
