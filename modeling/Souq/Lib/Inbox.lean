import Mathlib.Data.List.Basic

/-!
# Messages that wait to be processed

A consumer remembers the keys of the messages it has processed. Of a list of
messages that only grows, those of a kind that are still to be processed are
counted: processing one uses it up, and no other step adds to the count but a new
message. So does a message that is at work and done.
-/

namespace Inbox

open List

universe u v

variable {κ : Type u} {μ : Type v} [DecidableEq κ] (key : μ → κ) (kind : μ → Bool)

def waiting (processed : List κ) (messages : List μ) : Nat :=
  messages.countP fun m => kind m && decide (key m ∉ processed)

theorem waiting_append (processed : List κ) (first second : List μ) :
    waiting key kind processed (first ++ second) =
      waiting key kind processed first + waiting key kind processed second :=
  countP_append

theorem waiting_le (processed : List κ) (messages : List μ) :
    waiting key kind processed messages ≤ messages.countP kind := by
  apply countP_mono_left
  intro m _ both
  exact (Bool.and_eq_true_iff.mp both).1

theorem waiting_processed_le (processed more : List κ) (messages : List μ) :
    waiting key kind (processed ++ more) messages ≤ waiting key kind processed messages := by
  apply countP_mono_left
  intro m _ both
  simp only [Bool.and_eq_true, decide_eq_true_eq, mem_append, not_or] at both ⊢
  exact ⟨both.1, both.2.1⟩

variable {key kind}

theorem waiting_processed_lt {processed : List κ} {messages : List μ} {m : μ}
    (member : m ∈ messages) (of : kind m = true) (new : key m ∉ processed) :
    waiting key kind (processed ++ [key m]) messages < waiting key kind processed messages := by
  obtain ⟨front, back, rfl⟩ := append_of_mem member
  have before := waiting_processed_le key kind processed [key m] front
  have behind := waiting_processed_le key kind processed [key m] back
  have used : waiting key kind (processed ++ [key m]) [m] = 0 := by simp [waiting]
  have waits : waiting key kind processed [m] = 1 := by simp [waiting, of, new]
  have split : front ++ m :: back = front ++ ([m] ++ back) := rfl
  rw [split]
  simp only [waiting_append, used, waits]
  omega

theorem countP_erase [DecidableEq μ] {working : List μ} {m : μ} (member : m ∈ working)
    (kind : μ → Bool) :
    working.countP kind = (working.erase m).countP kind + if kind m then 1 else 0 := by
  rw [(perm_cons_erase member).countP_eq, countP_cons]

end Inbox
