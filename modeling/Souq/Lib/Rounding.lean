import Mathlib.Algebra.Order.Field.Rat
import Mathlib.Data.Rat.Floor
import Mathlib.Tactic.Linarith

/-!
# Rounding a quotient

To the nearest integer, and of two that are as near to the one farther from zero; and to
the nearest number of 53 binary digits, which is what a floating-point operation returns.
-/

namespace Rounding

/-- The greatest power of two that is not above a positive number. -/
def exponent (x : ℚ) : ℤ :=
  let k : ℤ := (x.num.toNat.log2 : ℤ) - (x.den.log2 : ℤ)
  if (2 : ℚ) ^ k ≤ x then k else k - 1

/-- The nearest number with 53 binary digits, the even one of two: what an operation on
floating-point numbers makes of its exact result. -/
def nearest (x : ℚ) : ℚ :=
  let ulp : ℚ := 2 ^ (exponent x - 52)
  let digits : ℤ := ⌊x / ulp⌋
  let rest := x / ulp - digits
  (if rest < 1 / 2 ∨ rest = 1 / 2 ∧ digits % 2 = 0 then digits else digits + 1) * ulp

variable {d n m q p r : Int}

/-- `n / d` is rounded to `q`, up only where it is positive at a tie, and down only where it
is negative. -/
structure HalfAway (d n q : Int) : Prop where
  floor : -d ≤ 2 * (n - d * q)
  ceiling : 2 * (n - d * q) ≤ d
  down : 2 * (n - d * q) = d → n < 0
  up : 2 * (n - d * q) = -d → 0 < n

theorem HalfAway.neg (rounds : HalfAway d n q) : HalfAway d (-n) (-q) := by
  obtain ⟨floor, ceiling, down, up⟩ := rounds
  have mirror : d * -q = -(d * q) := Int.mul_neg d q
  exact ⟨by omega, by omega, fun tie => by omega, fun tie => by omega⟩

theorem HalfAway.mono (positive : 0 < d) (first : HalfAway d n q) (second : HalfAway d m p)
    (le : n ≤ m) : q ≤ p := by
  by_contra above
  -- one more is too much, unless both are at the same tie
  have apart : d * (p + 1) ≤ d * q := Int.mul_le_mul_of_nonneg_left (by omega) positive.le
  have more : d * (p + 1) = d * p + d := by rw [Int.mul_add, Int.mul_one]
  have low := first.floor
  have high := second.ceiling
  have negative := second.down (by omega)
  have up := first.up (by omega)
  omega

theorem HalfAway.unique (positive : 0 < d) (first : HalfAway d n q) (second : HalfAway d n p) :
    q = p :=
  le_antisymm (first.mono positive second le_rfl) (second.mono positive first le_rfl)

theorem halfAway_mul (positive : 0 < d) (q : Int) : HalfAway d (d * q) q :=
  ⟨by omega, by omega, fun tie => by omega, fun tie => by omega⟩

/-- A sum is rounded as its parts are, or by one more or less. -/
theorem HalfAway.add (positive : 0 < d) (left : HalfAway d n q) (right : HalfAway d m p)
    (sum : HalfAway d (n + m) r) : -1 ≤ r - q - p ∧ r - q - p ≤ 1 := by
  have spread : d * (r - q - p) = d * r - d * q - d * p := by rw [Int.mul_sub, Int.mul_sub]
  have := left.floor
  have := left.ceiling
  have := right.floor
  have := right.ceiling
  have := sum.floor
  have := sum.ceiling
  constructor
  · have low : d * -2 < d * (r - q - p) := by omega
    have := lt_of_mul_lt_mul_left low positive.le
    omega
  · have high : d * (r - q - p) < d * 2 := by omega
    have := lt_of_mul_lt_mul_left high positive.le
    omega

/-- Half of the divisor is added on the side of the number, and the division truncates. -/
theorem halfAway_tdiv {h : Int} (positive : 0 < h) :
    HalfAway (2 * h) n (if n ≥ 0 then (n + h).tdiv (2 * h) else (n - h).tdiv (2 * h)) := by
  have upward (n : Int) (side : 0 ≤ n) : HalfAway (2 * h) n ((n + h).tdiv (2 * h)) := by
    rw [Int.tdiv_eq_ediv_of_nonneg (by omega)]
    have whole := Int.mul_ediv_add_emod (n + h) (2 * h)
    have floor := Int.emod_nonneg (n + h) (show 2 * h ≠ 0 by omega)
    have ceiling := Int.emod_lt_of_pos (n + h) (show 0 < 2 * h by omega)
    refine ⟨by omega, by omega, fun tie => by omega, fun tie => ?_⟩
    rcases side.lt_or_eq with above | zero
    · exact above
    · have none : (n + h) / (2 * h) = 0 := Int.ediv_eq_zero_of_lt (by omega) (by omega)
      rw [none] at tie
      omega
  split
  · next side => exact upward n side
  · next side =>
    have mirror := (upward (-n) (by omega)).neg
    rwa [← Int.neg_tdiv, Int.neg_neg, Int.neg_add, Int.neg_neg, ← Int.sub_eq_add_neg] at mirror

end Rounding
