import Mathlib.Algebra.Order.Floor.Ring
import Mathlib.Algebra.Order.Field.Basic
import Mathlib.Order.Bounds.Basic

/-!
# Budgets

Whole units of a fixed cost are bought out of a budget. The floor of the quotient is the
greatest number of them that it pays for, and several budgets at once pay for the least of
their floors.
-/
namespace Binbot.Data

variable {K : Type} [Field K] [LinearOrder K]

/-- The numbers of units that a budget pays for. -/
def affordable (cost budget : K) : Set ℤ := {n | 0 ≤ n ∧ n * cost ≤ budget}

variable [IsStrictOrderedRing K]

/-- A lower cost and a larger budget pay for at least as many. -/
theorem affordable_subset {cost budget cost' budget' : K} (cheaper : cost' ≤ cost)
    (more : budget ≤ budget') : affordable cost budget ⊆ affordable cost' budget' := by
  rintro n ⟨nonneg, paid⟩
  refine ⟨nonneg, ?_⟩
  calc (n : K) * cost' ≤ n * cost := mul_le_mul_of_nonneg_left cheaper (by exact_mod_cast nonneg)
    _ ≤ budget := paid
    _ ≤ budget' := more

variable [FloorRing K] {cost budget : K}

theorem le_floor_div_iff (positive : 0 < cost) {n : ℤ} :
    n ≤ ⌊budget / cost⌋ ↔ n * cost ≤ budget := by
  rw [Int.le_floor, le_div_iff₀ positive]

theorem floor_div_nonneg (positive : 0 < cost) (nonneg : 0 ≤ budget) : 0 ≤ ⌊budget / cost⌋ :=
  Int.floor_nonneg.mpr (div_nonneg nonneg positive.le)

theorem isGreatest_affordable (positive : 0 < cost) (nonneg : 0 ≤ budget) :
    IsGreatest (affordable cost budget) (max ⌊budget / cost⌋ 0) := by
  rw [max_eq_left (floor_div_nonneg positive nonneg)]
  constructor
  · exact ⟨floor_div_nonneg positive nonneg, (le_floor_div_iff positive).mp le_rfl⟩
  · rintro n ⟨-, paid⟩
    exact (le_floor_div_iff positive).mpr paid

/-- Two budgets that are both to last. -/
theorem isGreatest_affordable_inter {cost' budget' : K} (positive : 0 < cost)
    (positive' : 0 < cost') (nonneg : 0 ≤ budget) (nonneg' : 0 ≤ budget') :
    IsGreatest (affordable cost budget ∩ affordable cost' budget')
      (max (min ⌊budget / cost⌋ ⌊budget' / cost'⌋) 0) := by
  have least := le_min (floor_div_nonneg positive nonneg) (floor_div_nonneg positive' nonneg')
  rw [max_eq_left least]
  constructor
  · constructor
    · exact ⟨least, (le_floor_div_iff positive).mp (min_le_left _ _)⟩
    · exact ⟨least, (le_floor_div_iff positive').mp (min_le_right _ _)⟩
  · rintro n ⟨⟨-, paid⟩, -, paid'⟩
    exact le_min ((le_floor_div_iff positive).mpr paid) ((le_floor_div_iff positive').mpr paid')

end Binbot.Data
