import Mathlib.Data.List.Induction
import Mathlib.Data.Nat.ModEq
import Mathlib.Tactic.Ring

/-!
# Regrouping digits through a machine word

A stream of binary digits arrives in groups of one width and leaves in groups of another. In
between they stand in the low bits of a 32-bit word that is never cleared, so what is above
them is left over from earlier groups.
-/

namespace Regroup

open List Nat

/-- The number that digits of `w` bits stand for, the most significant first. -/
def value (w : Nat) (digits : List Nat) : Nat := digits.foldl (fun v d => v * 2 ^ w + d) 0

variable {w total count bits : Nat} {digits others : List Nat} {buffer : BitVec 32}

@[simp] theorem value_concat (digits : List Nat) (d : Nat) :
    value w (digits ++ [d]) = value w digits * 2 ^ w + d :=
  foldl_append ..

/-- As many digits of the same value are the same. -/
theorem value_inj (bound : ∀ d ∈ digits, d < 2 ^ w) (bound' : ∀ d ∈ others, d < 2 ^ w)
    (long : digits.length = others.length) (same : value w digits = value w others) :
    digits = others := by
  induction digits using List.reverseRecOn generalizing others with
  | nil => exact (length_eq_zero_iff.mp long.symm).symm
  | append_singleton digits d ih =>
    rcases eq_nil_or_concat others with rfl | ⟨others, e, rfl⟩
    · simp at long
    · rw [concat_eq_append] at *
      simp only [forall_mem_append, forall_mem_singleton] at bound bound'
      simp only [length_append, length_singleton, add_right_cancel_iff] at long
      rw [value_concat, value_concat] at same
      have last := congrArg (· % 2 ^ w) same
      have front := congrArg (· / 2 ^ w) same
      have room : 0 < 2 ^ w := Nat.two_pow_pos w
      simp only [Nat.mul_add_mod', Nat.mod_eq_of_lt bound.2, Nat.mod_eq_of_lt bound'.2] at last
      simp only [Nat.mul_comm _ (2 ^ w), Nat.mul_add_div room, Nat.div_eq_of_lt bound.2,
        Nat.div_eq_of_lt bound'.2, Nat.add_zero] at front
      rw [ih bound.1 bound'.1 long front, last]

/-- Of `count` binary digits of the number `total` the last ones are in the word, and the others
have left in groups of `w`. -/
structure Pending (total count w : Nat) (out : List Nat) (buffer : BitVec 32) (bits : Nat) :
    Prop where
  length : w * out.length + bits = count
  value : value w out * 2 ^ bits + buffer.toNat % 2 ^ bits = total

theorem Pending.start : Pending 0 0 w [] 0 0 := ⟨rfl, rfl⟩

/-- The word is shifted by a group, whatever falls off at its top. -/
theorem Pending.push (pending : Pending total count w digits buffer bits) {i d : Nat}
    (group : d < 2 ^ i) (fits : bits + i ≤ 32) :
    Pending (total * 2 ^ i + d) (count + i) w digits (buffer <<< i ||| BitVec.ofNat 32 d)
      (bits + i) := by
  obtain ⟨length, value⟩ := pending
  refine ⟨by omega, ?_⟩
  have small : d < 2 ^ 32 := group.trans_le (Nat.pow_le_pow_right (by decide) (by omega))
  have word : (buffer <<< i ||| BitVec.ofNat 32 d).toNat % 2 ^ (bits + i) =
      (buffer.toNat % 2 ^ bits) * 2 ^ i + d := by
    have divides : 2 ^ (bits + i) ∣ 2 ^ 32 := Nat.pow_dvd_pow 2 fits
    rw [BitVec.toNat_or, BitVec.toNat_shiftLeft, BitVec.toNat_ofNat, Nat.mod_eq_of_lt small,
      or_mod_two_pow, mod_mod_of_dvd _ divides, shiftLeft_eq, pow_add,
      Nat.mul_mod_mul_right, ← Nat.pow_add, Nat.mod_eq_of_lt
        (group.trans_le (Nat.pow_le_pow_right (by decide) (Nat.le_add_left i bits))),
      Nat.mul_comm, Nat.two_pow_add_eq_or_of_lt group]
  rw [word, ← value, Nat.pow_add]
  ring

/-- The upper of the pending bits leave the word, which stays as it is. -/
theorem Pending.pop (pending : Pending total count w digits buffer bits) (enough : w ≤ bits)
    (fits : bits ≤ 32) :
    Pending total count w (digits ++ [(buffer.sshiftRight (bits - w)).toNat % 2 ^ w]) buffer
      (bits - w) := by
  obtain ⟨length, value⟩ := pending
  refine ⟨?_, ?_⟩
  · rw [length_append, length_singleton, Nat.mul_add]
    omega
  obtain ⟨k, rfl⟩ := Nat.exists_eq_add_of_le enough
  -- the sign bits that come in from above are not among the lowest ones
  have low : (buffer.sshiftRight (w + k - w)).toNat % 2 ^ w = buffer.toNat / 2 ^ k % 2 ^ w := by
    rw [Nat.add_sub_cancel_left, ← Nat.shiftRight_eq_div_pow]
    apply eq_of_testBit_eq
    intro i
    simp only [testBit_mod_two_pow, testBit_shiftRight]
    by_cases below : i < w
    · have inside : k + i < 32 := by omega
      simp only [below, decide_true, Bool.true_and]
      rw [← BitVec.getLsbD, BitVec.getLsbD_sshiftRight, if_pos inside]
      simp only [show ¬ 32 ≤ i by omega, decide_false, Bool.not_false, Bool.true_and,
        BitVec.getLsbD]
    · simp [below]
  rw [low, value_concat, ← value, Nat.add_sub_cancel_left, Nat.pow_add, Nat.mul_comm (2 ^ w),
    Nat.mod_mul]
  ring

end Regroup
