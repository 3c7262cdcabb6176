import Souq.Lib.Rounding
import Souq.Pricing.Machine

/-!
# What a basis-point rate comes to

The clamp begins where a product with a rate of at most 100% and the half that is added to
it could leave 64 bits. Up to there the rate is rounded exactly, and the clamp itself is
not below anything that is rounded.
-/

namespace Souq.Pricing

open Checked Rounding

variable {amount bp : Int}

theorem applyBp_within (floor : -kMaxSafe ≤ amount) (ceiling : amount ≤ kMaxSafe) :
    HalfAway 10000 (amount * bp) (applyBp amount bp) := by
  unfold applyBp
  rw [if_neg (by omega)]
  exact halfAway_tdiv (h := 5000) (by decide)

theorem applyBp_beyond (beyond : kMaxSafe < amount) : applyBp amount bp = kMaxSafe := by
  have positive : 0 < amount := lt_trans (by decide) beyond
  unfold applyBp
  rw [if_pos (.inl beyond), if_pos positive]

theorem applyBp_neg (floor : -kMaxSafe ≤ amount) (ceiling : amount ≤ kMaxSafe) :
    applyBp (-amount) bp = -applyBp amount bp := by
  have mirrored : HalfAway 10000 (-(amount * bp)) (-applyBp amount bp) :=
    (applyBp_within floor ceiling).neg
  rw [← Int.neg_mul] at mirrored
  exact (applyBp_within (by omega) (by omega)).unique (by decide) mirrored

theorem applyBp_between (rate : 0 ≤ bp) (whole : bp ≤ 10000) (positive : 0 ≤ amount) :
    0 ≤ applyBp amount bp ∧ applyBp amount bp ≤ amount := by
  rcases le_or_gt amount kMaxSafe with ceiling | beyond
  · have rounds : HalfAway 10000 (amount * bp) (applyBp amount bp) :=
      applyBp_within (le_trans (by decide) positive) ceiling
    have floor : 0 ≤ amount * bp := Int.mul_nonneg positive rate
    have top : amount * bp ≤ 10000 * amount := by
      rw [Int.mul_comm 10000]
      exact Int.mul_le_mul_of_nonneg_left whole positive
    exact ⟨(halfAway_mul (by decide) 0).mono (by decide) rounds (by omega),
      rounds.mono (by decide) (halfAway_mul (by decide) amount) top⟩
  · rw [applyBp_beyond beyond]
    exact ⟨by decide, beyond.le⟩

theorem applyBp_mono {more : Int} (rate : 0 ≤ bp) (whole : bp ≤ 10000) (positive : 0 ≤ amount)
    (le : amount ≤ more) : applyBp amount bp ≤ applyBp more bp := by
  rcases le_or_gt more kMaxSafe with ceiling | beyond
  · have floor : -kMaxSafe ≤ amount := le_trans (by decide) positive
    exact (applyBp_within floor (le.trans ceiling)).mono (by decide)
      (applyBp_within (floor.trans le) ceiling) (Int.mul_le_mul_of_nonneg_right le rate)
  · rw [applyBp_beyond beyond]
    rcases le_or_gt amount kMaxSafe with within | also
    · exact (applyBp_between rate whole positive).2.trans within
    · exact (applyBp_beyond also).le

/-- The rate is rounded exactly up to the clamp, no operation overflows, and across the clamp
the rate of an amount grows with it and is a part of it. -/
theorem applyBp_half_up (bp : Int) (rate : 0 ≤ bp) (whole : bp ≤ 10000) :
    (∀ amount, |amount| ≤ 922337203685477 → Machine.applyBp amount bp = some (applyBp amount bp) ∧
      HalfAway 10000 (amount * bp) (applyBp amount bp) ∧
      applyBp (-amount) bp = -applyBp amount bp) ∧
    (∀ a b, 0 ≤ a → a ≤ b → applyBp a bp ≤ applyBp b bp) ∧
    (∀ a, 0 ≤ a → 0 ≤ applyBp a bp ∧ applyBp a bp ≤ a) ∧
    ∀ a b, 0 ≤ a → 0 ≤ b → a + b ≤ 922337203685477 →
      |applyBp (a + b) bp - applyBp a bp - applyBp b bp| ≤ 1 := by
  refine ⟨fun amount bound => ?_, fun _ _ => applyBp_mono rate whole,
    fun _ => applyBp_between rate whole, fun a b left right bound => ?_⟩
  · obtain ⟨floor, ceiling⟩ := abs_le.mp bound
    exact ⟨(Machine.guards_applyBp amount bp _).mpr ⟨Machine.bpFits_of_rate rate whole amount, rfl⟩,
      applyBp_within floor ceiling, applyBp_neg floor ceiling⟩
  · have floor : (-kMaxSafe : Int) ≤ 0 := by decide
    have both : HalfAway 10000 ((a + b) * bp) (applyBp (a + b) bp) :=
      applyBp_within (by omega) bound
    rw [Int.add_mul] at both
    exact abs_le.mpr ((applyBp_within (by omega) (by unfold kMaxSafe; omega)).add (by decide)
      (applyBp_within (by omega) (by unfold kMaxSafe; omega)) both)

theorem applyBp_vat : Machine.applyBp 999 1900 = some 190 ∧
    Machine.applyBp (-999) 1900 = some (-190) ∧
    applyBp 922337203685477 1900 ≤ applyBp 922337203685478 1900 := by
  have vat := applyBp_half_up 1900 (by decide) (by decide)
  exact ⟨(vat.1 999 (by decide)).1, (vat.1 (-999) (by decide)).1,
    vat.2.1 _ _ (by decide) (by decide)⟩

end Souq.Pricing
