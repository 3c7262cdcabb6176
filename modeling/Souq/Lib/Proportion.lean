import Mathlib.Algebra.BigOperators.Group.List.Basic
import Mathlib.Algebra.Order.Ring.Int

/-!
# Proportional parts

An amount divided in proportion to some weights, every part rounded down. The parts never
come to more than the amount, and a part compares with its weight as the amount does with
the whole.
-/

namespace Proportion

/-- The parts of an amount in proportion to some weights, rounded down. -/
def parts (amount whole : Int) (weights : List Int) : List Int :=
  weights.map fun weight => (amount * weight).tdiv whole

variable {amount whole : Int}

theorem parts_nonneg (positive : 0 ≤ amount) (divides : 0 < whole) {weights : List Int}
    (weighed : ∀ weight ∈ weights, 0 ≤ weight) : ∀ part ∈ parts amount whole weights, 0 ≤ part := by
  intro part member
  obtain ⟨weight, listed, rfl⟩ := List.mem_map.mp member
  exact Int.tdiv_nonneg (Int.mul_nonneg positive (weighed weight listed)) divides.le

theorem mul_sum_parts_le (positive : 0 ≤ amount) (divides : 0 < whole) {weights : List Int}
    (weighed : ∀ weight ∈ weights, 0 ≤ weight) :
    whole * (parts amount whole weights).sum ≤ amount * weights.sum := by
  induction weights with
  | nil => simp [parts]
  | cons weight weights ih =>
    obtain ⟨first, others⟩ := List.forall_mem_cons.mp weighed
    have tail := ih others
    have product : 0 ≤ amount * weight := Int.mul_nonneg positive first
    have head : whole * (amount * weight).tdiv whole ≤ amount * weight := by
      rw [Int.tdiv_eq_ediv_of_nonneg product]
      exact Int.mul_ediv_self_le divides.ne'
    simp only [parts, List.map_cons, List.sum_cons, Int.mul_add] at tail ⊢
    exact add_le_add head tail

theorem sum_parts_le (positive : 0 ≤ amount) (divides : 0 < whole) {weights : List Int}
    (weighed : ∀ weight ∈ weights, 0 ≤ weight) (within : weights.sum ≤ whole) :
    (parts amount whole weights).sum ≤ amount := by
  have scaled := mul_sum_parts_le positive divides weighed
  have bound : amount * weights.sum ≤ amount * whole :=
    Int.mul_le_mul_of_nonneg_left within positive
  rw [Int.mul_comm amount whole] at bound
  exact Int.le_of_mul_le_mul_left (scaled.trans bound) divides

theorem part_le_weight (below : amount ≤ whole) (divides : 0 < whole) {weight : Int}
    (weighed : 0 ≤ weight) (positive : 0 ≤ amount) : (amount * weight).tdiv whole ≤ weight := by
  rw [Int.tdiv_eq_ediv_of_nonneg (Int.mul_nonneg positive weighed)]
  apply Int.ediv_le_of_le_mul divides
  rw [Int.mul_comm weight whole]
  exact Int.mul_le_mul_of_nonneg_right below weighed

theorem weight_le_part (above : whole ≤ amount) (divides : 0 < whole) {weight : Int}
    (weighed : 0 ≤ weight) (positive : 0 ≤ amount) : weight ≤ (amount * weight).tdiv whole := by
  rw [Int.tdiv_eq_ediv_of_nonneg (Int.mul_nonneg positive weighed)]
  apply Int.le_ediv_of_mul_le divides
  rw [Int.mul_comm weight whole]
  exact Int.mul_le_mul_of_nonneg_right above weighed

end Proportion
