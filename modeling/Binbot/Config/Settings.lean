import Binbot.Execution.PositionMonitor

/-!
# Scanner settings (`config/settings.py`)

The settings that the validators read, with their defaults. A settings object exists only
once every validator has let its values through.
-/
namespace Binbot

open Data

structure ScannerStrategySettings where
  maxOpenPositions : ℤ := 4
  leverage : ℤ := 15
  marginEquityPct : ℚ := 5
  stopLossEquityPct : ℚ := 25
  trailingProfitArmRoiPct : ℚ := 30
  trailingProfitBaseRoiPct : ℚ := 20
  trailingProfitStepRoiPct : ℚ := 2
  trailingProfitStepIncrementRoiPct : ℚ := 5
  trailingProfitHardCapRoiPct : ℚ := 80
  deriving DecidableEq

/-- A validator: the value itself, or the text of a `ValueError`. -/
def validator {α : Type} (accepts : α → Prop) [DecidablePred accepts] (message : String) (v : α) :
    Except String α :=
  if accepts v then .ok v else .error message

theorem validator_ok {α : Type} {accepts : α → Prop} [DecidablePred accepts] {message : String}
    {v w : α} : validator accepts message v = .ok w ↔ accepts v ∧ v = w := by
  rw [validator]
  split
  next passes => simp [passes]
  next fails => simp [fails]

namespace ScannerStrategySettings

/-! ### Field validators -/

def validateLeverage : ℤ → Except String ℤ :=
  validator (fun v => 1 ≤ v ∧ v ≤ 125) "leverage must be in [1, 125]"

def validateMaxPositions : ℤ → Except String ℤ :=
  validator (fun v => ¬ v < 1) "max_open_positions must be at least 1"

/-- Of both percentages of the equity. -/
def validateEquityPct : ℚ → Except String ℚ :=
  validator (fun v => 0 < v ∧ v ≤ 100)
    "margin_equity_pct and stop_loss_equity_pct must be in (0, 100]"

def validateStepIncrement : ℚ → Except String ℚ :=
  validator (fun v => ¬ v ≤ 0) "trailing_profit_step_increment_roi_pct must be positive"

/-! ### Model validators -/

def validateTrailingBaseBelowArm :
    ScannerStrategySettings → Except String ScannerStrategySettings :=
  validator (fun s => ¬ s.trailingProfitBaseRoiPct > s.trailingProfitArmRoiPct)
    "trailing_profit_base_roi_pct must not exceed trailing_profit_arm_roi_pct"

def validateHardCapAboveArm : ScannerStrategySettings → Except String ScannerStrategySettings :=
  validator (fun s => ¬ s.trailingProfitHardCapRoiPct ≤ s.trailingProfitArmRoiPct)
    "trailing_profit_hard_cap_roi_pct must exceed trailing_profit_arm_roi_pct"

/-- The error of one field, under its name. -/
def fieldError {α : Type} (field : String) : Except String α → Option (String × String)
  | .ok _ => none
  | .error message => some (field, message)

variable (s : ScannerStrategySettings)

/-- The errors of the fields, in the order of the fields. -/
def fieldErrors : List (String × String) :=
  [fieldError "max_open_positions" (validateMaxPositions s.maxOpenPositions),
    fieldError "leverage" (validateLeverage s.leverage),
    fieldError "margin_equity_pct" (validateEquityPct s.marginEquityPct),
    fieldError "stop_loss_equity_pct" (validateEquityPct s.stopLossEquityPct),
    fieldError "trailing_profit_step_increment_roi_pct"
      (validateStepIncrement s.trailingProfitStepIncrementRoiPct)].filterMap id

/-- The settings object. Every field is validated, and the model only if all of them pass. -/
def validated : Except (List (String × String)) ScannerStrategySettings :=
  if s.fieldErrors ≠ [] then .error s.fieldErrors
  else match validateTrailingBaseBelowArm s with
    | .error message => .error [("", message)]
    | .ok s => match validateHardCapAboveArm s with
      | .error message => .error [("", message)]
      | .ok s => .ok s

/-- What the validators let through. -/
structure Accepted : Prop where
  maxOpenPositions : 1 ≤ s.maxOpenPositions
  leverage : 1 ≤ s.leverage ∧ s.leverage ≤ 125
  marginEquityPct : 0 < s.marginEquityPct ∧ s.marginEquityPct ≤ 100
  stopLossEquityPct : 0 < s.stopLossEquityPct ∧ s.stopLossEquityPct ≤ 100
  increment : 0 < s.trailingProfitStepIncrementRoiPct
  base_le : s.trailingProfitBaseRoiPct ≤ s.trailingProfitArmRoiPct
  arm_lt : s.trailingProfitArmRoiPct < s.trailingProfitHardCapRoiPct

variable {s}

theorem fieldError_eq_none {α : Type} {field : String} {verdict : Except String α} :
    fieldError field verdict = none ↔ ∃ v, verdict = .ok v := by
  cases verdict <;> simp [fieldError]

theorem fieldErrors_eq_nil : s.fieldErrors = [] ↔
    1 ≤ s.maxOpenPositions ∧ (1 ≤ s.leverage ∧ s.leverage ≤ 125) ∧
      (0 < s.marginEquityPct ∧ s.marginEquityPct ≤ 100) ∧
      (0 < s.stopLossEquityPct ∧ s.stopLossEquityPct ≤ 100) ∧
      0 < s.trailingProfitStepIncrementRoiPct := by
  simp [fieldErrors, List.filterMap_eq_nil_iff, fieldError_eq_none, validateMaxPositions,
    validateLeverage, validateEquityPct, validateStepIncrement, validator_ok]

/-- A settings object has the values it was given, and they pass every check. -/
theorem validated_ok {t : ScannerStrategySettings} :
    s.validated = .ok t ↔ s.Accepted ∧ s = t := by
  rw [validated]
  by_cases fields : s.fieldErrors = []
  · rw [if_neg (not_not.mpr fields), validateTrailingBaseBelowArm, validator]
    rw [fieldErrors_eq_nil] at fields
    obtain ⟨positions, leverage, margin, stopLoss, increment⟩ := fields
    by_cases base : s.trailingProfitBaseRoiPct ≤ s.trailingProfitArmRoiPct
    · rw [if_pos (not_lt.mpr base)]
      dsimp only
      rw [validateHardCapAboveArm, validator]
      by_cases cap : s.trailingProfitArmRoiPct < s.trailingProfitHardCapRoiPct
      · rw [if_pos (not_le.mpr cap)]
        simp only [Except.ok.injEq]
        exact ⟨fun same => ⟨⟨positions, leverage, margin, stopLoss, increment, base, cap⟩, same⟩,
          fun both => both.2⟩
      · rw [if_neg (not_not.mpr (not_lt.mp cap))]
        exact ⟨by rintro ⟨⟩, fun both => absurd both.1.arm_lt cap⟩
    · rw [if_neg (not_not.mpr (not_le.mp base))]
      exact ⟨by rintro ⟨⟩, fun both => absurd both.1.base_le base⟩
  · rw [if_pos fields]
    refine ⟨by rintro ⟨⟩, fun both => absurd ?_ fields⟩
    have accepted := both.1
    exact fieldErrors_eq_nil.mpr ⟨accepted.maxOpenPositions, accepted.leverage,
      accepted.marginEquityPct, accepted.stopLossEquityPct, accepted.increment⟩

/-- The defaults pass their own checks. -/
example : ({} : ScannerStrategySettings).validated = .ok {} := by decide +kernel

/-- The thresholds that the live scanner gives to its position monitor. -/
def trailing (s : ScannerStrategySettings) (accepted : s.Accepted) : TrailingProfit where
  armPct := s.trailingProfitArmRoiPct
  basePct := s.trailingProfitBaseRoiPct
  stepPct := s.trailingProfitStepRoiPct
  stepIncrementPct := s.trailingProfitStepIncrementRoiPct
  hardCapPct := s.trailingProfitHardCapRoiPct
  increment_pos := accepted.increment

end ScannerStrategySettings

end Binbot
