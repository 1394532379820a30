import Binbot.Data.Budget
import Binbot.Risk.PositionSizing
import Mathlib.Algebra.Order.Floor.Ring
import Mathlib.Algebra.Order.Field.Rat
import Mathlib.Data.Rat.Floor
import Mathlib.Tactic.Linarith
import Mathlib.Tactic.NormNum
import Mathlib.Tactic.Positivity

/-!
# Position sizes

A size is the greatest number of contracts that every cap allows. Each cap is a budget out of
which contracts are paid, so that better inputs allow all that worse ones do, and the size
never goes down, whichever of the caps binds.
-/
namespace Binbot.PositionSizes

open Data

variable {K : Type} [Field K] [LinearOrder K] [IsStrictOrderedRing K]

-- ═══════════════════════════════════════════════════════════════
-- Kelly sizing
-- ═══════════════════════════════════════════════════════════════

/-- The numbers of contracts within the capped Kelly fraction of the equity. -/
def kellyAllowed (inputs : KellyInputs K) : Set ℤ :=
  {n | 0 ≤ n ∧ n * inputs.price * inputs.contractMultiplier ≤
    min (max (inputs.winProbability - (1 - inputs.winProbability) / inputs.winLossRatio) 0 *
      inputs.kellyFractionCap) inputs.maxKellyLeverage * inputs.accountEquity}

/-- Nothing that a size should grow with is larger, nothing that it should shrink with is
smaller. -/
structure KellyBelow (low high : KellyInputs K) : Prop where
  winProbability : low.winProbability ≤ high.winProbability
  winLossRatio : low.winLossRatio ≤ high.winLossRatio
  accountEquity : low.accountEquity ≤ high.accountEquity
  kellyFractionCap : low.kellyFractionCap ≤ high.kellyFractionCap
  maxKellyLeverage : low.maxKellyLeverage ≤ high.maxKellyLeverage
  price : high.price ≤ low.price
  contractMultiplier : high.contractMultiplier ≤ low.contractMultiplier

omit [IsStrictOrderedRing K] in
theorem kellyAllowed_eq (inputs : KellyInputs K) : kellyAllowed inputs =
    affordable (inputs.price * inputs.contractMultiplier)
      (inputs.fraction * inputs.accountEquity) := by
  simp only [kellyAllowed, affordable, KellyInputs.fraction, mul_assoc]

theorem fraction_nonneg {inputs : KellyInputs K} (cap : 0 ≤ inputs.kellyFractionCap)
    (leverage : 0 ≤ inputs.maxKellyLeverage) : 0 ≤ inputs.fraction :=
  le_min (mul_nonneg (le_max_right _ _) cap) leverage

/-- The edge grows with the probability of a win and with what a win is worth. -/
theorem edge_le_edge {p p' b b' : K} (ratio : 0 < b) (uncertain : p < 1) (likelier : p ≤ p')
    (better : b ≤ b') : p - (1 - p) / b ≤ p' - (1 - p') / b' := by
  have lost : (1 - p') / b' ≤ (1 - p) / b := by
    apply div_le_div₀
    · linarith
    · linarith
    · exact ratio
    · exact better
  linarith

theorem fraction_le_fraction {low high : KellyInputs K} (accepted : low.Accepted)
    (cap : 0 ≤ low.kellyFractionCap) (below : KellyBelow low high) :
    low.fraction ≤ high.fraction := by
  have edge := edge_le_edge accepted.ratio accepted.uncertain below.winProbability
    below.winLossRatio
  -- with the edge clamped at zero, a larger cap cannot make the product smaller
  have clamped := max_le_max_right 0 edge
  exact min_le_min (mul_le_mul clamped below.kellyFractionCap cap (le_max_right _ _))
    below.maxKellyLeverage

theorem kellyAllowed_subset {low high : KellyInputs K} (acceptedLow : low.Accepted)
    (acceptedHigh : high.Accepted) (cap : 0 ≤ low.kellyFractionCap)
    (leverage : 0 ≤ low.maxKellyLeverage) (below : KellyBelow low high) :
    kellyAllowed low ⊆ kellyAllowed high := by
  have cheaper := mul_le_mul below.price below.contractMultiplier acceptedHigh.multiplier.le
    acceptedLow.price.le
  have fraction := fraction_le_fraction acceptedLow cap below
  have more := mul_le_mul fraction below.accountEquity acceptedLow.equity.le
    ((fraction_nonneg cap leverage).trans fraction)
  rw [kellyAllowed_eq, kellyAllowed_eq]
  exact affordable_subset cheaper more

-- ═══════════════════════════════════════════════════════════════
-- Target volatility
-- ═══════════════════════════════════════════════════════════════

/-- The numbers of contracts within the leverage and within the target volatility. -/
def volatilityAllowed (inputs : TargetVolatilityInputs K) : Set ℤ :=
  {n | 0 ≤ n ∧
    n * inputs.price * inputs.contractMultiplier ≤ inputs.maxLeverage * inputs.accountEquity ∧
    n * inputs.price * inputs.contractMultiplier * inputs.instrumentAnnualVolatilityPct ≤
      inputs.accountEquity * inputs.targetAnnualVolatilityPct}

structure VolatilityBelow (low high : TargetVolatilityInputs K) : Prop where
  accountEquity : low.accountEquity ≤ high.accountEquity
  targetAnnualVolatilityPct : low.targetAnnualVolatilityPct ≤ high.targetAnnualVolatilityPct
  maxLeverage : low.maxLeverage ≤ high.maxLeverage
  instrumentAnnualVolatilityPct :
    high.instrumentAnnualVolatilityPct ≤ low.instrumentAnnualVolatilityPct
  price : high.price ≤ low.price
  contractMultiplier : high.contractMultiplier ≤ low.contractMultiplier

/-- Percentages on both sides cancel. -/
theorem volatilityAllowed_eq (inputs : TargetVolatilityInputs K) : volatilityAllowed inputs =
    affordable
      (inputs.price * inputs.contractMultiplier * (inputs.instrumentAnnualVolatilityPct / 100))
      (inputs.accountEquity * (inputs.targetAnnualVolatilityPct / 100)) ∩
    affordable (inputs.price * inputs.contractMultiplier)
      (inputs.accountEquity * inputs.maxLeverage) := by
  -- the code divides both volatilities by 100
  have percent : ∀ x y : K, x / 100 ≤ y / 100 ↔ x ≤ y :=
    fun x y => div_le_div_iff_of_pos_right (by norm_num)
  ext n
  simp only [volatilityAllowed, affordable, Set.mem_inter_iff, Set.mem_ofPred_eq, ← mul_div_assoc,
    ← mul_assoc, percent, mul_comm inputs.accountEquity inputs.maxLeverage]
  tauto

theorem volatilityAllowed_subset {low high : TargetVolatilityInputs K}
    (acceptedLow : low.Accepted) (acceptedHigh : high.Accepted)
    (target : 0 ≤ low.targetAnnualVolatilityPct) (leverage : 0 ≤ low.maxLeverage)
    (below : VolatilityBelow low high) : volatilityAllowed low ⊆ volatilityAllowed high := by
  have cheaper := mul_le_mul below.price below.contractMultiplier acceptedHigh.multiplier.le
    acceptedLow.price.le
  have calmer := mul_le_mul cheaper
    (div_le_div_of_nonneg_right below.instrumentAnnualVolatilityPct (by norm_num : (0 : K) ≤ 100))
    (div_nonneg acceptedHigh.volatility.le (by norm_num))
    (mul_pos acceptedLow.price acceptedLow.multiplier).le
  have richer := mul_le_mul below.accountEquity
    (div_le_div_of_nonneg_right below.targetAnnualVolatilityPct (by norm_num : (0 : K) ≤ 100))
    (div_nonneg target (by norm_num)) acceptedHigh.equity.le
  have stronger := mul_le_mul below.accountEquity below.maxLeverage leverage
    acceptedHigh.equity.le
  rw [volatilityAllowed_eq, volatilityAllowed_eq]
  exact Set.inter_subset_inter (affordable_subset calmer richer)
    (affordable_subset cheaper stronger)

-- ═══════════════════════════════════════════════════════════════
-- The sizes
-- ═══════════════════════════════════════════════════════════════

variable [FloorRing K]

theorem kelly_isGreatest {inputs : KellyInputs K} (accepted : inputs.Accepted)
    (cap : 0 ≤ inputs.kellyFractionCap) (leverage : 0 ≤ inputs.maxKellyLeverage) :
    ∃ size, kellyPositionSize inputs = .ok size ∧ IsGreatest (kellyAllowed inputs) size := by
  refine ⟨_, accepted.size, ?_⟩
  rw [kellyAllowed_eq]
  apply isGreatest_affordable
  · exact mul_pos accepted.price accepted.multiplier
  · exact mul_nonneg (fraction_nonneg cap leverage) accepted.equity.le

theorem volatility_isGreatest {inputs : TargetVolatilityInputs K} (accepted : inputs.Accepted)
    (target : 0 ≤ inputs.targetAnnualVolatilityPct) (leverage : 0 ≤ inputs.maxLeverage) :
    ∃ size, targetVolatilityPositionSize inputs = .ok size ∧
      IsGreatest (volatilityAllowed inputs) size := by
  refine ⟨_, accepted.size, ?_⟩
  have notional := mul_pos accepted.price accepted.multiplier
  rw [volatilityAllowed_eq]
  apply isGreatest_affordable_inter
  · exact mul_pos notional (div_pos accepted.volatility (by norm_num))
  · exact notional
  · exact mul_nonneg accepted.equity.le (div_nonneg target (by norm_num))
  · exact mul_nonneg accepted.equity.le leverage

/-- There is only one size to return. -/
theorem greatest_of_eq_ok {sized : Except String ℤ} {allowed : Set ℤ} {size : ℤ}
    (greatest : ∃ n, sized = .ok n ∧ IsGreatest allowed n) (returned : sized = .ok size) :
    IsGreatest allowed size := by
  obtain ⟨n, same, greatest⟩ := greatest
  obtain rfl : size = n := Except.ok.inj (returned.symm.trans same)
  exact greatest

/-- Both functions return the greatest size within their caps, and a size never goes down as
the equity, a cap or the edge grows or the price or the multiplier shrinks. -/
theorem sizes_greatest_and_monotone :
    (∀ inputs : KellyInputs K, inputs.Accepted → 0 ≤ inputs.kellyFractionCap →
      0 ≤ inputs.maxKellyLeverage →
      ∃ size, kellyPositionSize inputs = .ok size ∧ IsGreatest (kellyAllowed inputs) size) ∧
    (∀ inputs : TargetVolatilityInputs K, inputs.Accepted →
      0 ≤ inputs.targetAnnualVolatilityPct → 0 ≤ inputs.maxLeverage →
      ∃ size, targetVolatilityPositionSize inputs = .ok size ∧
        IsGreatest (volatilityAllowed inputs) size) ∧
    (∀ (low high : KellyInputs K) (less more : ℤ), kellyPositionSize low = .ok less →
      kellyPositionSize high = .ok more → 0 ≤ low.kellyFractionCap → 0 ≤ low.maxKellyLeverage →
      KellyBelow low high → less ≤ more) ∧
    ∀ (low high : TargetVolatilityInputs K) (less more : ℤ),
      targetVolatilityPositionSize low = .ok less → targetVolatilityPositionSize high = .ok more →
      0 ≤ low.targetAnnualVolatilityPct → 0 ≤ low.maxLeverage →
      VolatilityBelow low high → less ≤ more := by
  refine ⟨fun _ => kelly_isGreatest, fun _ => volatility_isGreatest, ?_, ?_⟩
  -- what the lower inputs allow, the higher ones allow, and so do their greatest sizes compare
  · intro low high less more returned returned' cap leverage below
    have acceptedLow := kellyPositionSize_eq_ok_iff.mp ⟨less, returned⟩
    have acceptedHigh := kellyPositionSize_eq_ok_iff.mp ⟨more, returned'⟩
    have sized := kelly_isGreatest acceptedLow cap leverage
    have sized' := kelly_isGreatest acceptedHigh (cap.trans below.kellyFractionCap)
      (leverage.trans below.maxKellyLeverage)
    have wider := kellyAllowed_subset acceptedLow acceptedHigh cap leverage below
    exact (greatest_of_eq_ok sized returned).mono (greatest_of_eq_ok sized' returned') wider
  · intro low high less more returned returned' target leverage below
    have acceptedLow := targetVolatilityPositionSize_eq_ok_iff.mp ⟨less, returned⟩
    have acceptedHigh := targetVolatilityPositionSize_eq_ok_iff.mp ⟨more, returned'⟩
    have sized := volatility_isGreatest acceptedLow target leverage
    have sized' := volatility_isGreatest acceptedHigh
      (target.trans below.targetAnnualVolatilityPct) (leverage.trans below.maxLeverage)
    have wider := volatilityAllowed_subset acceptedLow acceptedHigh target leverage below
    exact (greatest_of_eq_ok sized returned).mono (greatest_of_eq_ok sized' returned') wider

/-- A strong edge that its caps hold back, and a leverage that binds before the volatility. -/
theorem sizes_greatest_and_monotone_capped :
    let kelly : KellyInputs ℚ :=
      { winProbability := 65 / 100, winLossRatio := 3 / 2, accountEquity := 1000000
        price := 100, contractMultiplier := 1 }
    let volatility : TargetVolatilityInputs ℚ :=
      { accountEquity := 100000, targetAnnualVolatilityPct := 50
        instrumentAnnualVolatilityPct := 10, price := 45, contractMultiplier := 50
        maxLeverage := 1 }
    IsGreatest (kellyAllowed kelly) 2083 ∧ IsGreatest (volatilityAllowed volatility) 44 := by
  intro kelly volatility
  obtain ⟨kellySize, volatilitySize, -, -⟩ := sizes_greatest_and_monotone (K := ℚ)
  have size : kellyPositionSize kelly = .ok 2083 := by decide +kernel
  have size' : targetVolatilityPositionSize volatility = .ok 44 := by decide +kernel
  have accepted := kellyPositionSize_eq_ok_iff.mp ⟨2083, size⟩
  have accepted' := targetVolatilityPositionSize_eq_ok_iff.mp ⟨44, size'⟩
  constructor
  · have greatest := kellySize kelly accepted (by norm_num [kelly]) (by norm_num [kelly])
    exact greatest_of_eq_ok greatest size
  · have greatest := volatilitySize volatility accepted' (by norm_num [volatility])
      (by norm_num [volatility])
    exact greatest_of_eq_ok greatest size'

end Binbot.PositionSizes
