import Binbot.Config.Settings
import Binbot.Data.Binary64
import Mathlib.Algebra.Order.Archimedean.Basic

/-!
# The level of the trailing stop

The level is a staircase over the peak. It only rises, and stays at or below the peak, exactly
if a step is not negative and no larger than the increment of the peak that it takes. The
validators of the settings ask for neither. In doubles it still only rises, and stays at or below
the peak as far as the base is below the arming level by the error of the rounding.
-/
namespace Binbot

open Data

namespace TrailingProfit

variable (t : TrailingProfit)

/-- Every peak counts with the steps it has completed. -/
def completedSteps (peakRoiPct : ℚ) : ℤ := ⌊(peakRoiPct - t.armPct) / t.stepIncrementPct⌋

/-- The least peak of so many steps. -/
def peakOf (steps : ℕ) : ℚ := t.armPct + steps * t.stepIncrementPct

theorem stopLevel_eq (peakRoiPct : ℚ) :
    t.stopLevel peakRoiPct = t.basePct + t.completedSteps peakRoiPct * t.stepPct := rfl

theorem completedSteps_mono {p p' : ℚ} (rises : p ≤ p') :
    t.completedSteps p ≤ t.completedSteps p' := by
  apply Int.floor_le_floor
  exact div_le_div_of_nonneg_right (sub_le_sub_right rises _) t.increment_pos.le

theorem completedSteps_nonneg {p : ℚ} (armed : t.armPct ≤ p) : 0 ≤ t.completedSteps p :=
  Int.floor_nonneg.mpr (div_nonneg (sub_nonneg.mpr armed) t.increment_pos.le)

/-- The completed steps fit under the peak. -/
theorem peak_ge (p : ℚ) : t.armPct + t.completedSteps p * t.stepIncrementPct ≤ p := by
  have steps := (le_div_iff₀ t.increment_pos).mp (Int.floor_le ((p - t.armPct) / t.stepIncrementPct))
  rw [completedSteps]
  linarith

theorem armPct_le_peakOf (steps : ℕ) : t.armPct ≤ t.peakOf steps := by
  have increment := t.increment_pos
  rw [peakOf]
  exact le_add_of_nonneg_right (by positivity)

theorem stopLevel_peakOf (steps : ℕ) :
    t.stopLevel (t.peakOf steps) = t.basePct + steps * t.stepPct := by
  have completed : t.completedSteps (t.peakOf steps) = steps := by
    rw [completedSteps, peakOf, add_sub_cancel_left, mul_div_cancel_right₀ _ t.increment_pos.ne']
    exact Int.floor_natCast steps
  rw [stopLevel_eq, completed, Int.cast_natCast]

/-- The level is monotone over the armed peaks exactly if a step is not negative. -/
theorem stopLevel_monotone_iff :
    (∀ p p', t.armPct ≤ p → p ≤ p' → t.stopLevel p ≤ t.stopLevel p') ↔ 0 ≤ t.stepPct := by
  constructor
  · intro monotone
    -- from the arming to the first step
    have increment := t.increment_pos
    have first := monotone (t.peakOf 0) (t.peakOf 1) (t.armPct_le_peakOf 0) (by simp [peakOf]; linarith)
    rw [stopLevel_peakOf, stopLevel_peakOf] at first
    push_cast at first
    linarith
  · intro step p p' _ rises
    rw [stopLevel_eq, stopLevel_eq]
    have steps : (t.completedSteps p : ℚ) ≤ t.completedSteps p' := by
      exact_mod_cast t.completedSteps_mono rises
    have risen := mul_le_mul_of_nonneg_right steps step
    linarith

/-- Where the stop arms at or below the arming peak, it never passes the peak exactly if a step
is no larger than its increment. -/
theorem stopLevel_le_iff (base_le : t.basePct ≤ t.armPct) :
    (∀ p, t.armPct ≤ p → t.stopLevel p ≤ p) ↔ t.stepPct ≤ t.stepIncrementPct := by
  constructor
  · intro below
    by_contra larger
    rw [not_le, ← sub_pos] at larger
    -- each step gains on the peak, until it has made up for the distance at the arming
    obtain ⟨steps, enough⟩ := exists_nat_gt ((t.armPct - t.basePct) / (t.stepPct - t.stepIncrementPct))
    rw [div_lt_iff₀ larger] at enough
    have level := below (t.peakOf steps) (t.armPct_le_peakOf steps)
    rw [stopLevel_peakOf, peakOf] at level
    linarith
  · intro small p armed
    have steps : (0 : ℚ) ≤ t.completedSteps p := by exact_mod_cast t.completedSteps_nonneg armed
    have risen := mul_le_mul_of_nonneg_left small steps
    have under := t.peak_ge p
    rw [stopLevel_eq]
    linarith

/-! ### Rounded levels -/

section Rounded

variable {t} {r : Rounding} {p p' : ℚ}

/-- However it is rounded, the level rises with the peak. -/
theorem stopLevelIn_mono (step : 0 ≤ t.stepPct) (rises : p ≤ p') :
    t.stopLevelIn r p ≤ t.stopLevelIn r p' := by
  have distance : r.sub p t.armPct ≤ r.sub p' t.armPct := r.mono (sub_le_sub_right rises _)
  have quotient : r.div (r.sub p t.armPct) t.stepIncrementPct ≤
      r.div (r.sub p' t.armPct) t.stepIncrementPct :=
    r.mono (div_le_div_of_nonneg_right distance t.increment_pos.le)
  have steps : r ⌊r.div (r.sub p t.armPct) t.stepIncrementPct⌋ ≤
      r ⌊r.div (r.sub p' t.armPct) t.stepIncrementPct⌋ :=
    r.mono (by exact_mod_cast Int.floor_le_floor quotient)
  have risen := r.mono (mul_le_mul_of_nonneg_right steps step)
  exact r.mono (add_le_add_right risen _)

/-- The settings are doubles. -/
structure Representable (t : TrailingProfit) : Prop where
  arm : Rounding.binary64.Holds t.armPct
  base : Rounding.binary64.Holds t.basePct
  step : Rounding.binary64.Holds t.stepPct

/-- What the steps add, is rounded four times. -/
theorem risen_le (settings : t.Representable) (peak : Rounding.binary64.Holds p)
    (armed : t.armPct ≤ p) (step : 0 ≤ t.stepPct) (small : t.stepPct ≤ t.stepIncrementPct) :
    let r := Rounding.binary64
    let steps := ⌊r.div (r.sub p t.armPct) t.stepIncrementPct⌋
    r.mul (r steps) t.stepPct ≤ (p - t.armPct) * (1 + unitRoundoff) ^ 4 := by
  intro r steps
  have roundoff := unitRoundoff_pos
  have increment := t.increment_pos
  have distance : r.sub p t.armPct ≤ (p - t.armPct) * (1 + unitRoundoff) :=
    Rounding.binary64_le ((Rounding.onGrid_of_holds peak).sub (Rounding.onGrid_of_holds settings.arm))
      (sub_nonneg.mpr armed)
  have far : 0 ≤ r.sub p t.armPct := Rounding.nonneg (sub_nonneg.mpr armed)
  have completed : (steps : ℚ) ≤
      (p - t.armPct) * (1 + unitRoundoff) ^ 2 / t.stepIncrementPct := by
    calc (steps : ℚ) ≤ r.sub p t.armPct / t.stepIncrementPct * (1 + unitRoundoff) :=
          Rounding.floor_binary64_le (div_nonneg far increment.le)
      _ ≤ (p - t.armPct) * (1 + unitRoundoff) / t.stepIncrementPct * (1 + unitRoundoff) := by
          gcongr
      _ = (p - t.armPct) * (1 + unitRoundoff) ^ 2 / t.stepIncrementPct := by ring
  have some_ : 0 ≤ steps := Int.floor_nonneg.mpr (Rounding.nonneg (div_nonneg far increment.le))
  obtain ⟨n, whole⟩ := Int.eq_ofNat_of_zero_le some_
  have counted : r steps ≤ steps * (1 + unitRoundoff) := by
    apply Rounding.binary64_le
    · rw [whole]
      exact BinaryFormat.onGrid_natCast n (by decide)
    · exact_mod_cast some_
  -- a number of steps is a whole number, which keeps the product on the grid
  have product : BinaryFormat.OnGrid (-1074) (r steps * t.stepPct) := by
    obtain ⟨m, value⟩ := doubles.round_intCast_onGrid steps
    rw [zpow_zero, mul_one] at value
    rw [show r steps = m from value]
    exact (Rounding.onGrid_of_holds settings.step).intCast_mul m
  have counts : 0 ≤ r steps := Rounding.nonneg (by exact_mod_cast some_)
  calc r.mul (r steps) t.stepPct
      ≤ r steps * t.stepPct * (1 + unitRoundoff) :=
        Rounding.binary64_le product (mul_nonneg counts step)
    _ ≤ (p - t.armPct) * (1 + unitRoundoff) ^ 2 / t.stepIncrementPct * (1 + unitRoundoff) *
          t.stepIncrementPct * (1 + unitRoundoff) := by
        gcongr
        exact counted.trans (mul_le_mul_of_nonneg_right completed (by linarith))
    _ = (p - t.armPct) * (1 + unitRoundoff) ^ 4 := by
        field_simp

/-- In doubles the level does not pass a peak up to which the rounding makes up for no more than
the base is below the arming level. -/
theorem stopLevel_binary64_le (settings : t.Representable) (peak : Rounding.binary64.Holds p)
    (armed : t.armPct ≤ p) (step : 0 ≤ t.stepPct) (small : t.stepPct ≤ t.stepIncrementPct)
    (slack : (p - t.armPct) * ((1 + unitRoundoff) ^ 4 - 1) ≤ t.armPct - t.basePct) :
    t.stopLevelIn .binary64 p ≤ p := by
  have risen := risen_le settings peak armed step small
  apply peak.ge
  calc _ ≤ t.basePct + (p - t.armPct) * (1 + unitRoundoff) ^ 4 := add_le_add_right risen _
    _ ≤ p := by linarith

end Rounded

end TrailingProfit

namespace ScannerStrategySettings

/-- Over all armed peaks the level only rises, and stays at or below the peak. -/
structure Ratchets (r : Rounding) (t : TrailingProfit) : Prop where
  monotone : ∀ p p', r.Holds p → r.Holds p' → t.armPct ≤ p → p ≤ p' →
    t.stopLevelIn r p ≤ t.stopLevelIn r p'
  below : ∀ p, r.Holds p → t.armPct ≤ p → t.stopLevelIn r p ≤ p

/-- In exact arithmetic, the trailing stop of settings that pass the validators ratchets exactly if
its step is neither negative nor larger than the increment. With such a step the level rises with
the peak however it is rounded, and in doubles it stays at or below each peak up to which the base
is below the arming level by the error of the rounding. -/
theorem trailing_ratchets_iff (s : ScannerStrategySettings) (valid : s.validated = .ok s) :
    let t := s.trailing (validated_ok.mp valid).1
    (Ratchets .exact t ↔ 0 ≤ s.trailingProfitStepRoiPct ∧
      s.trailingProfitStepRoiPct ≤ s.trailingProfitStepIncrementRoiPct) ∧
    (0 ≤ s.trailingProfitStepRoiPct → ∀ r : Rounding, ∀ p p', t.armPct ≤ p → p ≤ p' →
      t.stopLevelIn r p ≤ t.stopLevelIn r p') ∧
    (0 ≤ s.trailingProfitStepRoiPct →
      s.trailingProfitStepRoiPct ≤ s.trailingProfitStepIncrementRoiPct → t.Representable →
      ∀ p, Rounding.binary64.Holds p → t.armPct ≤ p →
        (p - t.armPct) * ((1 + unitRoundoff) ^ 4 - 1) ≤ t.armPct - t.basePct →
        t.stopLevelIn .binary64 p ≤ p) := by
  intro t
  have accepted := (validated_ok.mp valid).1
  have rises := t.stopLevel_monotone_iff
  have below := t.stopLevel_le_iff accepted.base_le
  refine ⟨?_, ?_, ?_⟩
  · constructor
    · rintro ⟨monotone, under⟩
      constructor
      · exact rises.mp fun p p' => monotone p p' (Rounding.exact_holds p) (Rounding.exact_holds p')
      · exact below.mp fun p => under p (Rounding.exact_holds p)
    · rintro ⟨step, small⟩
      exact ⟨fun p p' _ _ => rises.mpr step p p', fun p _ => below.mpr small p⟩
  · intro step r p p' _ higher
    exact TrailingProfit.stopLevelIn_mono (t := t) step higher
  · intro step small settings p peak armed slack
    exact TrailingProfit.stopLevel_binary64_le settings peak armed step small slack

/-- The defaults but for the step. -/
def withStep (stepPct : ℚ) : ScannerStrategySettings := { trailingProfitStepRoiPct := stepPct }

theorem withStep_valid (stepPct : ℚ) : (withStep stepPct).validated = .ok (withStep stepPct) := by
  refine validated_ok.mpr ⟨?_, rfl⟩
  constructor <;> norm_num [withStep]

/-- With the default settings the level stays at or below a peak of 45 in doubles. -/
theorem defaults_ratchet :
    Ratchets .exact ((withStep 2).trailing (validated_ok.mp (withStep_valid 2)).1) ∧
      ((withStep 2).trailing (validated_ok.mp (withStep_valid 2)).1).stopLevelIn .binary64 45 ≤
        45 := by
  obtain ⟨exactly, -, rounded⟩ := trailing_ratchets_iff (withStep 2) (withStep_valid 2)
  refine ⟨exactly.mpr (by decide +kernel), ?_⟩
  refine rounded (by decide +kernel) (by decide +kernel) ⟨?_, ?_, ?_⟩ 45 ?_ ?_ ?_
  all_goals decide +kernel

/-- With steps of ten for every five of the peak, the level at a peak of 45 is 50. -/
theorem steep_steps_pass_peak :
    ¬ ∀ (s : ScannerStrategySettings) (valid : s.validated = .ok s),
      Ratchets .binary64 (s.trailing (validated_ok.mp valid).1) := by
  intro claim
  have below := (claim (withStep 10) (withStep_valid 10)).below 45
  revert below
  decide +kernel

end ScannerStrategySettings

end Binbot
