import Mathlib.Algebra.Order.Floor.Ring
import Mathlib.Algebra.Order.Field.Basic

/-!
# Position sizing (`risk/position_sizing.py`)

The keyword arguments of each function are a structure with the defaults of the source. The
arithmetic is exact.
-/
namespace Binbot

variable {K : Type} [Field K] [LinearOrder K] [FloorRing K]

structure KellyInputs (K : Type) [Field K] where
  winProbability : K
  /-- Average win by average loss. -/
  winLossRatio : K
  accountEquity : K
  price : K
  contractMultiplier : K
  kellyFractionCap : K := 1 / 2
  maxKellyLeverage : K := 1

/-- `kelly_position_size`. -/
def kellyPositionSize (inputs : KellyInputs K) : Except String ℤ :=
  if ¬(0 < inputs.winProbability ∧ inputs.winProbability < 1) then
    .error "win_probability must be in (0, 1)"
  else if inputs.winLossRatio ≤ 0 then .error "win_loss_ratio must be positive"
  else if inputs.price ≤ 0 ∨ inputs.contractMultiplier ≤ 0 ∨ inputs.accountEquity ≤ 0 then
    .error "price, contract_multiplier, account_equity must be positive"
  else
    let rawKelly := inputs.winProbability - (1 - inputs.winProbability) / inputs.winLossRatio
    -- never size a negative-edge bet
    let rawKelly := max rawKelly 0
    let fraction := min (rawKelly * inputs.kellyFractionCap) inputs.maxKellyLeverage
    let notionalTarget := fraction * inputs.accountEquity
    let contractNotional := inputs.price * inputs.contractMultiplier
    .ok (max ⌊notionalTarget / contractNotional⌋ 0)

structure TargetVolatilityInputs (K : Type) [Field K] where
  accountEquity : K
  targetAnnualVolatilityPct : K
  instrumentAnnualVolatilityPct : K
  price : K
  contractMultiplier : K
  maxLeverage : K := 4

/-- `target_volatility_position_size`. -/
def targetVolatilityPositionSize (inputs : TargetVolatilityInputs K) : Except String ℤ :=
  if inputs.instrumentAnnualVolatilityPct ≤ 0 then
    .error "instrument_annual_volatility_pct must be positive"
  else if inputs.price ≤ 0 ∨ inputs.contractMultiplier ≤ 0 ∨ inputs.accountEquity ≤ 0 then
    .error "price, contract_multiplier, account_equity must be positive"
  else
    let targetDollarVol := inputs.accountEquity * (inputs.targetAnnualVolatilityPct / 100)
    let contractNotional := inputs.price * inputs.contractMultiplier
    let contractDollarVol := contractNotional * (inputs.instrumentAnnualVolatilityPct / 100)
    let contracts := ⌊targetDollarVol / contractDollarVol⌋
    let maxContractsByLeverage := ⌊inputs.accountEquity * inputs.maxLeverage / contractNotional⌋
    .ok (max (min contracts maxContractsByLeverage) 0)

/-! ### What the functions accept -/

/-- The inputs that pass the checks of `kelly_position_size`. -/
structure KellyInputs.Accepted (inputs : KellyInputs K) : Prop where
  possible : 0 < inputs.winProbability
  uncertain : inputs.winProbability < 1
  ratio : 0 < inputs.winLossRatio
  price : 0 < inputs.price
  multiplier : 0 < inputs.contractMultiplier
  equity : 0 < inputs.accountEquity

/-- The inputs that pass the checks of `target_volatility_position_size`. -/
structure TargetVolatilityInputs.Accepted (inputs : TargetVolatilityInputs K) : Prop where
  volatility : 0 < inputs.instrumentAnnualVolatilityPct
  price : 0 < inputs.price
  multiplier : 0 < inputs.contractMultiplier
  equity : 0 < inputs.accountEquity

/-- The capped Kelly fraction. -/
def KellyInputs.fraction (inputs : KellyInputs K) : K :=
  min (max (inputs.winProbability - (1 - inputs.winProbability) / inputs.winLossRatio) 0 *
    inputs.kellyFractionCap) inputs.maxKellyLeverage

theorem KellyInputs.Accepted.size {inputs : KellyInputs K} (accepted : inputs.Accepted) :
    kellyPositionSize inputs = .ok (max ⌊inputs.fraction * inputs.accountEquity /
      (inputs.price * inputs.contractMultiplier)⌋ 0) := by
  obtain ⟨possible, uncertain, ratio, price, multiplier, equity⟩ := accepted
  simp [kellyPositionSize, KellyInputs.fraction, possible, uncertain, ratio.not_ge,
    price.not_ge, multiplier.not_ge, equity.not_ge]

/-- A size comes back exactly for accepted inputs. -/
theorem kellyPositionSize_eq_ok_iff {inputs : KellyInputs K} :
    (∃ size, kellyPositionSize inputs = .ok size) ↔ inputs.Accepted := by
  constructor
  · rintro ⟨size, returned⟩
    simp only [kellyPositionSize] at returned
    split at returned
    next => cases returned
    next likely =>
      split at returned
      next => cases returned
      next ratio =>
        split at returned
        next => cases returned
        next amounts =>
          simp only [not_or, not_le] at amounts
          simp only [not_not] at likely
          exact ⟨likely.1, likely.2, not_le.mp ratio, amounts.1, amounts.2.1, amounts.2.2⟩
  · exact fun accepted => ⟨_, accepted.size⟩

theorem TargetVolatilityInputs.Accepted.size {inputs : TargetVolatilityInputs K}
    (accepted : inputs.Accepted) : targetVolatilityPositionSize inputs =
      .ok (max (min
        ⌊inputs.accountEquity * (inputs.targetAnnualVolatilityPct / 100) /
          (inputs.price * inputs.contractMultiplier *
            (inputs.instrumentAnnualVolatilityPct / 100))⌋
        ⌊inputs.accountEquity * inputs.maxLeverage /
          (inputs.price * inputs.contractMultiplier)⌋) 0) := by
  obtain ⟨volatility, price, multiplier, equity⟩ := accepted
  simp [targetVolatilityPositionSize, volatility.not_ge, price.not_ge, multiplier.not_ge,
    equity.not_ge]

theorem targetVolatilityPositionSize_eq_ok_iff {inputs : TargetVolatilityInputs K} :
    (∃ size, targetVolatilityPositionSize inputs = .ok size) ↔ inputs.Accepted := by
  constructor
  · rintro ⟨size, returned⟩
    simp only [targetVolatilityPositionSize] at returned
    split at returned
    next => cases returned
    next volatility =>
      split at returned
      next => cases returned
      next amounts =>
        simp only [not_or, not_le] at amounts
        exact ⟨not_le.mp volatility, amounts.1, amounts.2.1, amounts.2.2⟩
  · exact fun accepted => ⟨_, accepted.size⟩

end Binbot
