import Binbot.Data.Rounding
import Mathlib.Algebra.Order.Field.Power
import Mathlib.Data.Int.Log
import Mathlib.Data.Rat.Floor
import Mathlib.Tactic.FieldSimp
import Mathlib.Tactic.Linarith
import Mathlib.Tactic.Positivity
import Mathlib.Tactic.Ring

/-!
# Double precision

Rounding to the nearest number of a binary format, to the even one of two. A format has so many
bits of precision, fewer below its least exponent, and no greatest exponent: numbers that are too
large for the machine's format are left out.
-/
namespace Binbot.Data

/-! ### To the nearest integer -/

def roundEven (x : ℚ) : ℤ :=
  if x - ⌊x⌋ < 1 / 2 then ⌊x⌋
  else if 1 / 2 < x - ⌊x⌋ then ⌊x⌋ + 1
  else ⌊x⌋ + ⌊x⌋ % 2

section RoundEven

variable {x y : ℚ} {n : ℤ}

@[simp] theorem roundEven_intCast (n : ℤ) : roundEven n = n := by simp [roundEven]

theorem floor_le_roundEven (x : ℚ) : ⌊x⌋ ≤ roundEven x := by
  have parity := Int.emod_nonneg ⌊x⌋ two_ne_zero
  unfold roundEven
  split
  · exact le_rfl
  · split
    · omega
    · omega

theorem roundEven_le_floor (x : ℚ) : roundEven x ≤ ⌊x⌋ + 1 := by
  have parity := Int.emod_lt_of_pos ⌊x⌋ two_pos
  unfold roundEven
  split
  · omega
  · split
    · exact le_rfl
    · omega

theorem roundEven_mono (le : x ≤ y) : roundEven x ≤ roundEven y := by
  rcases (Int.floor_le_floor le).eq_or_lt with same | less
  · -- between the same two integers the nearer one can only change upwards
    have parity := Int.emod_nonneg ⌊y⌋ two_ne_zero
    have parity' := Int.emod_lt_of_pos ⌊y⌋ two_pos
    unfold roundEven
    rw [same]
    have further : x - ⌊y⌋ ≤ y - ⌊y⌋ := sub_le_sub_right le _
    split
    · split
      · exact le_rfl
      · split <;> omega
    next low =>
      rw [if_neg (fun near => low (further.trans_lt near))]
      split
      next high =>
        rw [if_pos (high.trans_le further)]
      · split <;> omega
  · calc roundEven x ≤ ⌊x⌋ + 1 := roundEven_le_floor x
      _ ≤ ⌊y⌋ := less
      _ ≤ roundEven y := floor_le_roundEven y

theorem roundEven_error (x : ℚ) : |(roundEven x : ℚ) - x| ≤ 1 / 2 := by
  have low := Int.floor_le x
  have high := Int.lt_floor_add_one x
  unfold roundEven
  split
  next near =>
    rw [abs_of_nonpos (by linarith)]
    linarith
  next =>
    split
    next near =>
      push_cast
      rw [abs_of_nonneg (by linarith)]
      linarith
    next between =>
      -- at a midpoint both neighbours are equally far
      have half : x - ⌊x⌋ = 1 / 2 := by linarith
      rcases Int.emod_two_eq_zero_or_one ⌊x⌋ with even | odd
      · rw [even, add_zero, abs_of_nonpos (by linarith)]
        linarith
      · rw [odd]
        push_cast
        rw [abs_of_nonneg (by linarith)]
        linarith

theorem roundEven_neg (x : ℚ) : roundEven (-x) = -roundEven x := by
  have low := Int.floor_le x
  have high := Int.lt_floor_add_one x
  rcases low.eq_or_lt with whole | strict
  · rw [← whole, ← Int.cast_neg, roundEven_intCast, roundEven_intCast]
  · have floor : ⌊-x⌋ = -⌊x⌋ - 1 := by
      rw [Int.floor_eq_iff]
      push_cast
      constructor <;> linarith
    unfold roundEven
    rw [floor]
    push_cast
    -- the distance from below has become the distance from above
    have distance : -x - (-(⌊x⌋ : ℚ) - 1) = 1 - (x - ⌊x⌋) := by ring
    rw [distance]
    rcases lt_trichotomy (x - ⌊x⌋) (1 / 2) with near | middle | far
    · rw [if_neg (by linarith), if_pos (by linarith), if_pos near]
      ring
    · rw [if_neg (by linarith), if_neg (by linarith), if_neg (by linarith), if_neg (by linarith)]
      omega
    · rw [if_pos (by linarith), if_neg (by linarith), if_pos far]
      ring

end RoundEven

/-! ### In a binary format -/

structure BinaryFormat where
  precision : ℕ
  minExponent : ℤ
  precision_pos : 0 < precision
  minExponent_nonpos : minExponent ≤ 0

namespace BinaryFormat

variable (f : BinaryFormat)

/-- The exponent of the last bit that the format has for a number of this size. -/
def exponent (x : ℚ) : ℤ := max (Int.log 2 |x| + 1 - f.precision) f.minExponent

def unit (x : ℚ) : ℚ := 2 ^ f.exponent x

def round (x : ℚ) : ℚ := roundEven (x / f.unit x) * f.unit x

/-- A multiple of this power of two. -/
def OnGrid (k : ℤ) (x : ℚ) : Prop := ∃ n : ℤ, x = n * 2 ^ k

section Grid

variable {j k : ℤ} {x y : ℚ}

theorem OnGrid.finer (on : OnGrid k x) (le : j ≤ k) : OnGrid j x := by
  obtain ⟨n, rfl⟩ := on
  obtain ⟨more, same⟩ := Int.eq_ofNat_of_zero_le (sub_nonneg.mpr le)
  have power : (2 : ℚ) ^ k = 2 ^ more * 2 ^ j := by
    rw [← zpow_natCast, ← zpow_add₀ two_ne_zero]
    congr 1
    omega
  refine ⟨n * 2 ^ more, ?_⟩
  rw [power]
  push_cast
  ring

theorem onGrid_pow (le : j ≤ k) : OnGrid j ((2 : ℚ) ^ k) :=
  OnGrid.finer ⟨1, by rw [Int.cast_one, one_mul]⟩ le

theorem onGrid_natCast (n : ℕ) (le : k ≤ 0) : OnGrid k (n : ℚ) :=
  OnGrid.finer ⟨n, by rw [zpow_zero, mul_one, Int.cast_natCast]⟩ le

theorem OnGrid.neg (on : OnGrid k x) : OnGrid k (-x) := by
  obtain ⟨n, rfl⟩ := on
  exact ⟨-n, by push_cast; ring⟩

theorem OnGrid.add (on : OnGrid k x) (on' : OnGrid k y) : OnGrid k (x + y) := by
  obtain ⟨m, rfl⟩ := on
  obtain ⟨n, rfl⟩ := on'
  exact ⟨m + n, by push_cast; ring⟩

theorem OnGrid.sub (on : OnGrid k x) (on' : OnGrid k y) : OnGrid k (x - y) := by
  rw [sub_eq_add_neg]
  exact on.add on'.neg

theorem OnGrid.intCast_mul (on : OnGrid k x) (n : ℤ) : OnGrid k (n * x) := by
  obtain ⟨m, rfl⟩ := on
  exact ⟨n * m, by push_cast; ring⟩

/-- The least positive number of a grid is its step. -/
theorem OnGrid.pow_le (on : OnGrid k x) (positive : 0 < x) : (2 : ℚ) ^ k ≤ x := by
  obtain ⟨n, rfl⟩ := on
  have step : (0 : ℚ) < 2 ^ k := by positivity
  have some_ : (0 : ℚ) < n := (mul_pos_iff_of_pos_right step).mp positive
  have one_le : (1 : ℚ) ≤ n := by exact_mod_cast Int.cast_pos.mp some_
  exact le_mul_of_one_le_left step.le one_le

end Grid

variable {f} {x y bound : ℚ} {k : ℤ}

theorem unit_pos (f : BinaryFormat) (x : ℚ) : 0 < f.unit x := by
  unfold unit
  positivity

@[simp] theorem exponent_neg (f : BinaryFormat) (x : ℚ) : f.exponent (-x) = f.exponent x := by
  rw [exponent, abs_neg, exponent]

theorem round_neg (f : BinaryFormat) (x : ℚ) : f.round (-x) = -f.round x := by
  rw [round, round, unit, unit, exponent_neg, neg_div, roundEven_neg]
  push_cast
  ring

/-- The result is on the grid of the number it comes from. -/
theorem round_onGrid (f : BinaryFormat) (x : ℚ) : OnGrid (f.exponent x) (f.round x) :=
  ⟨roundEven (x / f.unit x), rfl⟩

/-- A number on its own grid is not rounded. -/
theorem round_of_onGrid (on : OnGrid (f.exponent x) x) : f.round x = x := by
  obtain ⟨n, same⟩ := on
  have whole : x / f.unit x = n := by
    rw [div_eq_iff (f.unit_pos x).ne']
    exact same
  rw [round, whole, roundEven_intCast]
  exact same.symm

/-- No bound on the number's grid is passed. -/
theorem round_le_of_onGrid (on : OnGrid (f.exponent x) bound) (le : x ≤ bound) :
    f.round x ≤ bound := by
  obtain ⟨n, rfl⟩ := on
  have scaled : x / f.unit x ≤ n := (div_le_iff₀ (f.unit_pos x)).mpr le
  have rounded : roundEven (x / f.unit x) ≤ n := by
    rw [← roundEven_intCast n]
    exact roundEven_mono scaled
  exact mul_le_mul_of_nonneg_right (by exact_mod_cast rounded) (f.unit_pos x).le

theorem le_round_of_onGrid (on : OnGrid (f.exponent x) bound) (le : bound ≤ x) :
    bound ≤ f.round x := by
  have reversed : f.round (-x) ≤ -bound :=
    round_le_of_onGrid (by rw [exponent_neg]; exact on.neg) (neg_le_neg le)
  rw [round_neg] at reversed
  exact neg_le_neg_iff.mp reversed

theorem exponent_pow_le (f : BinaryFormat) (least : f.minExponent ≤ k) :
    f.exponent ((2 : ℚ) ^ k) ≤ k := by
  have size : |(2 : ℚ) ^ k| = 2 ^ k := abs_of_pos (by positivity)
  have bits : (1 : ℤ) ≤ f.precision := by exact_mod_cast f.precision_pos
  have log : Int.log 2 ((2 : ℚ) ^ k) = k := Int.log_zpow (R := ℚ) one_lt_two k
  rw [exponent, size, log, max_le_iff]
  constructor
  · omega
  · exact least

theorem round_pow (f : BinaryFormat) (least : f.minExponent ≤ k) :
    f.round ((2 : ℚ) ^ k) = 2 ^ k :=
  round_of_onGrid (onGrid_pow (f.exponent_pow_le least))

@[simp] theorem round_zero (f : BinaryFormat) : f.round 0 = 0 :=
  round_of_onGrid ⟨0, by rw [Int.cast_zero, zero_mul]⟩

theorem round_nonneg (f : BinaryFormat) (sign : 0 ≤ x) : 0 ≤ f.round x :=
  le_round_of_onGrid ⟨0, by rw [Int.cast_zero, zero_mul]⟩ sign

theorem exponent_mono (f : BinaryFormat) (positive : 0 < x) (le : x ≤ y) :
    f.exponent x ≤ f.exponent y := by
  have logs : Int.log 2 x ≤ Int.log 2 y := Int.log_mono_right positive le
  rw [exponent, exponent, abs_of_pos positive, abs_of_pos (positive.trans_le le)]
  exact max_le_max_right _ (by omega)

theorem round_mono_pos (f : BinaryFormat) (positive : 0 < x) (le : x ≤ y) :
    f.round x ≤ f.round y := by
  have positive' := positive.trans_le le
  rcases (f.exponent_mono positive le).eq_or_lt with same | coarser
  · -- on one grid it is the rounding to integers
    have units : f.unit x = f.unit y := by rw [unit, same, unit]
    rw [round, round, units]
    have scaled : x / f.unit y ≤ y / f.unit y :=
      div_le_div_of_nonneg_right le (f.unit_pos y).le
    exact mul_le_mul_of_nonneg_right (by exact_mod_cast roundEven_mono scaled) (f.unit_pos y).le
  · -- a power of two lies between them, on both grids
    have bits : (1 : ℤ) ≤ f.precision := by exact_mod_cast f.precision_pos
    have above : (2 : ℚ) ^ Int.log 2 y ≤ y := Int.zpow_log_le_self one_lt_two positive'
    have before : x < (2 : ℚ) ^ (Int.log 2 x + 1) := Int.lt_zpow_succ_log_self one_lt_two x
    have grid : f.exponent y ≤ Int.log 2 y ∧ Int.log 2 x < Int.log 2 y := by
      rw [exponent, exponent, abs_of_pos positive, abs_of_pos positive'] at coarser
      rw [exponent, abs_of_pos positive']
      omega
    have below : x ≤ (2 : ℚ) ^ Int.log 2 y :=
      before.le.trans (zpow_le_zpow_right₀ one_le_two grid.2)
    calc f.round x ≤ 2 ^ Int.log 2 y :=
          round_le_of_onGrid (onGrid_pow (coarser.le.trans grid.1)) below
      _ ≤ f.round y := le_round_of_onGrid (onGrid_pow grid.1) above

theorem round_mono (f : BinaryFormat) : Monotone f.round := by
  intro x y le
  rcases lt_or_ge 0 x with positive | nonpositive
  · exact f.round_mono_pos positive le
  · rcases lt_or_ge y 0 with negative | nonnegative
    · have reversed := f.round_mono_pos (neg_pos.mpr negative) (neg_le_neg le)
      rw [round_neg, round_neg] at reversed
      exact neg_le_neg_iff.mp reversed
    · have low := f.round_nonneg (neg_nonneg.mpr nonpositive)
      rw [round_neg] at low
      exact (neg_nonneg.mp low).trans (f.round_nonneg nonnegative)

theorem round_idem_pos (f : BinaryFormat) (positive : 0 < x) :
    f.round (f.round x) = f.round x := by
  rcases (f.round_nonneg positive.le).eq_or_lt with none | some_
  · rw [← none, round_zero]
  · have bits : (1 : ℤ) ≤ f.precision := by exact_mod_cast f.precision_pos
    -- the result is at most the next power of two
    have bounded : f.round x ≤ (2 : ℚ) ^ max (Int.log 2 x + 1) f.minExponent := by
      apply round_le_of_onGrid
      · apply onGrid_pow
        rw [exponent, abs_of_pos positive]
        omega
      · calc x ≤ (2 : ℚ) ^ (Int.log 2 x + 1) := (Int.lt_zpow_succ_log_self one_lt_two x).le
          _ ≤ 2 ^ max (Int.log 2 x + 1) f.minExponent :=
            zpow_le_zpow_right₀ one_le_two (le_max_left _ _)
    rcases bounded.eq_or_lt with reached | within
    · rw [reached]
      exact f.round_pow (le_max_right _ _)
    · -- below it, the result has no coarser grid than the number
      have least : (2 : ℚ) ^ f.exponent x ≤ f.round x := (f.round_onGrid x).pow_le some_
      have smallest : (2 : ℚ) ^ f.minExponent ≤ f.round x :=
        (zpow_le_zpow_right₀ one_le_two (le_max_right _ _)).trans least
      have sized : Int.log 2 (f.round x) < max (Int.log 2 x + 1) f.minExponent := by
        rw [← zpow_lt_zpow_iff_right₀ (one_lt_two : (1 : ℚ) < 2)]
        exact (Int.zpow_log_le_self one_lt_two some_).trans_lt within
      have normal : f.minExponent < max (Int.log 2 x + 1) f.minExponent := by
        rw [← zpow_lt_zpow_iff_right₀ (one_lt_two : (1 : ℚ) < 2)]
        exact smallest.trans_lt within
      apply round_of_onGrid
      apply (f.round_onGrid x).finer
      rw [exponent, exponent, abs_of_pos some_, abs_of_pos positive]
      omega

theorem round_idem (f : BinaryFormat) (x : ℚ) : f.round (f.round x) = f.round x := by
  rcases lt_trichotomy x 0 with negative | rfl | positive
  · have reversed := f.round_idem_pos (neg_pos.mpr negative)
    rw [round_neg, round_neg] at reversed
    exact neg_injective reversed
  · rw [round_zero, round_zero]
  · exact f.round_idem_pos positive

theorem round_natCast (f : BinaryFormat) {n : ℕ} (small : n ≤ 2 ^ f.precision) :
    f.round n = n := by
  have least := f.minExponent_nonpos
  rcases small.eq_or_lt with rfl | less
  · have power := f.round_pow (k := f.precision) (by omega)
    rw [zpow_natCast] at power
    exact_mod_cast power
  · rcases Nat.eq_zero_or_pos n with rfl | positive
    · rw [Nat.cast_zero, round_zero]
    · have positive' : (0 : ℚ) < n := by exact_mod_cast positive
      have sized : Int.log 2 (n : ℚ) < f.precision := by
        rw [← zpow_lt_zpow_iff_right₀ (one_lt_two : (1 : ℚ) < 2), zpow_natCast]
        calc (2 : ℚ) ^ Int.log 2 (n : ℚ) ≤ n := Int.zpow_log_le_self one_lt_two positive'
          _ < 2 ^ f.precision := by exact_mod_cast less
      apply round_of_onGrid
      apply onGrid_natCast
      rw [exponent, abs_of_pos positive']
      omega

/-- A whole number is rounded to a whole number. -/
theorem round_intCast_onGrid (f : BinaryFormat) (n : ℤ) : OnGrid 0 (f.round n) := by
  have whole : OnGrid 0 (n : ℚ) := ⟨n, by rw [zpow_zero, mul_one]⟩
  rcases le_total 0 (f.exponent n) with coarse | fine
  · exact (f.round_onGrid n).finer coarse
  · rw [round_of_onGrid (whole.finer fine)]
    exact whole

/-! ### The error -/

theorem round_error (f : BinaryFormat) (x : ℚ) : |f.round x - x| ≤ f.unit x / 2 := by
  have positive := f.unit_pos x
  have scaled : f.round x - x = (roundEven (x / f.unit x) - x / f.unit x) * f.unit x := by
    rw [round, sub_mul, div_mul_cancel₀ _ positive.ne']
  rw [scaled, abs_mul, abs_of_pos positive]
  have half := mul_le_mul_of_nonneg_right (roundEven_error (x / f.unit x)) positive.le
  linarith

/-- The error is relative to the number, if it is not below the least normal one. -/
theorem round_error_normal (f : BinaryFormat) (x : ℚ)
    (normal : f.minExponent ≤ Int.log 2 |x| + 1 - f.precision) (some_ : x ≠ 0) :
    |f.round x - x| ≤ |x| * 2 ^ (-(f.precision : ℤ)) := by
  have size : (2 : ℚ) ^ Int.log 2 |x| ≤ |x| :=
    Int.zpow_log_le_self one_lt_two (abs_pos.mpr some_)
  have half : f.unit x / 2 = 2 ^ Int.log 2 |x| * 2 ^ (-(f.precision : ℤ)) := by
    rw [unit, exponent, max_eq_left normal, ← zpow_add₀ two_ne_zero,
      show (2 : ℚ) ^ (Int.log 2 |x| + 1 - f.precision) / 2 =
        2 ^ (Int.log 2 |x| + 1 - f.precision) * 2 ^ (-1 : ℤ) by norm_num [div_eq_mul_inv],
      ← zpow_add₀ two_ne_zero]
    congr 1
    omega
  calc |f.round x - x| ≤ f.unit x / 2 := f.round_error x
    _ = 2 ^ Int.log 2 |x| * 2 ^ (-(f.precision : ℤ)) := half
    _ ≤ |x| * 2 ^ (-(f.precision : ℤ)) :=
      mul_le_mul_of_nonneg_right size (by positivity)

/-- Sums and differences of the format's numbers lose no more than that, however small. -/
theorem round_error_onGrid (f : BinaryFormat) (on : OnGrid f.minExponent x) :
    |f.round x - x| ≤ |x| * 2 ^ (-(f.precision : ℤ)) := by
  by_cases normal : f.minExponent ≤ Int.log 2 |x| + 1 - f.precision ∧ x ≠ 0
  · exact f.round_error_normal x normal.1 normal.2
  · have whole : f.round x = x := by
      apply round_of_onGrid
      rcases not_and_or.mp normal with small | zero
      · rw [exponent, max_eq_right (not_le.mp small).le]
        exact on
      · rw [not_not.mp zero]
        exact ⟨0, by rw [Int.cast_zero, zero_mul]⟩
    rw [whole, sub_self, abs_zero]
    positivity

theorem holds_onGrid (f : BinaryFormat) (holds : f.round x = x) : OnGrid f.minExponent x := by
  rw [← holds]
  exact (f.round_onGrid x).finer (le_max_right _ _)

end BinaryFormat

/-! ### Doubles -/

def doubles : BinaryFormat where
  precision := 53
  minExponent := -1074
  precision_pos := by norm_num
  minExponent_nonpos := by norm_num

/-- Double precision arithmetic. -/
def Rounding.binary64 : Rounding where
  round := doubles.round
  mono := doubles.round_mono
  idem := doubles.round_idem
  neg := doubles.round_neg
  natCast _ small := doubles.round_natCast small

/-- The relative error of a rounding. -/
def unitRoundoff : ℚ := 2 ^ (-53 : ℤ)

theorem unitRoundoff_pos : 0 < unitRoundoff := by
  unfold unitRoundoff
  positivity

namespace Rounding

open BinaryFormat

variable {x y : ℚ}

theorem onGrid_of_holds (holds : binary64.Holds x) : OnGrid (-1074) x := doubles.holds_onGrid holds

theorem binary64_le (on : OnGrid (-1074) x) (sign : 0 ≤ x) :
    binary64 x ≤ x * (1 + unitRoundoff) := by
  have error : |binary64 x - x| ≤ |x| * unitRoundoff := doubles.round_error_onGrid on
  rw [abs_of_nonneg sign] at error
  have above := (le_abs_self _).trans error
  linarith

/-- The floor of a quotient is no further off, however small the quotient is. -/
theorem floor_binary64_le (sign : 0 ≤ x) : (⌊binary64 x⌋ : ℚ) ≤ x * (1 + unitRoundoff) := by
  have roundoff := unitRoundoff_pos
  rcases lt_or_ge x (1 / 2) with small | large
  · -- what is below one half is rounded to no more than that
    have half : binary64.Holds (1 / 2) := by
      have power := doubles.round_pow (k := -1) (by decide)
      norm_num at power
      exact power
    have below : binary64 x ≤ 1 / 2 := half.ge small.le
    have none_ : ⌊binary64 x⌋ = 0 := by
      rw [Int.floor_eq_zero_iff, Set.mem_Ico]
      exact ⟨nonneg sign, by linarith⟩
    rw [none_, Int.cast_zero]
    positivity
  · have positive : 0 < x := by linarith
    have log : -1 ≤ Int.log 2 x := by
      rw [← Int.zpow_le_iff_le_log one_lt_two positive]
      norm_num
      exact large
    have error : |binary64 x - x| ≤ |x| * unitRoundoff := by
      apply doubles.round_error_normal x _ positive.ne'
      rw [abs_of_pos positive]
      change (-1074 : ℤ) ≤ Int.log 2 x + 1 - (53 : ℕ)
      omega
    rw [abs_of_pos positive] at error
    have above := (le_abs_self _).trans error
    have floor := Int.floor_le (binary64 x)
    linarith

end Rounding

/-- The double that is written `0.1`, and a sum that is not on the grid. -/
example : Rounding.binary64 (1 / 10) = 3602879701896397 / 2 ^ 55 ∧
    Rounding.binary64.add (2 ^ 53) 1 = 2 ^ 53 ∧
    Rounding.binary64 (2 ^ (-1075 : ℤ)) = 0 := by decide +kernel

end Binbot.Data
