import Mathlib.Data.Rat.Floor
import Mathlib.Tactic.Linarith
import Mathlib.Tactic.FieldSimp
import Mathlib.Tactic.Ring

/-! Decimal rounding and fixed-point text, over exact rationals. -/
namespace Binbot.Data

/-- Round to the nearest integer, ties to even. -/
def roundHalfEven (x : ℚ) : ℤ :=
  let low := ⌊x⌋
  if x - low < 1 / 2 then low
  else if 1 / 2 < x - low then low + 1
  else if low % 2 = 0 then low else low + 1

/-- `round(x, digits)`. -/
def roundTo (x : ℚ) (digits : ℕ) : ℚ := roundHalfEven (x * 10 ^ digits) / 10 ^ digits

@[simp] theorem roundHalfEven_intCast (n : ℤ) : roundHalfEven (n : ℚ) = n := by
  simp [roundHalfEven]

/-- Rounding leaves a number that already has that many decimals. -/
theorem roundTo_of_grid (x : ℚ) (digits : ℕ) (n : ℤ) (grid : x * 10 ^ digits = n) :
    roundTo x digits = x := by
  have positive : (10 : ℚ) ^ digits ≠ 0 := by positivity
  rw [roundTo, grid, roundHalfEven_intCast, ← grid]
  field_simp

/-- `int(x)`: toward zero. -/
def truncate (x : ℚ) : ℤ := if x < 0 then ⌈x⌉ else ⌊x⌋

private def padLeft (width : ℕ) (text : String) : String :=
  String.ofList (List.replicate (width - text.length) '0') ++ text

/-- `format(x, ".{digits}f")`. -/
def fixed (digits : ℕ) (x : ℚ) : String :=
  let scaled := (roundHalfEven (|x| * 10 ^ digits)).toNat
  let sign := if x < 0 then "-" else ""
  let whole := toString (scaled / 10 ^ digits)
  if digits = 0 then sign ++ whole
  else sign ++ whole ++ "." ++ padLeft digits (toString (scaled % 10 ^ digits))

/-- `format(x, "+.{digits}f")`. -/
def signed (digits : ℕ) (x : ℚ) : String :=
  if x < 0 then fixed digits x else "+" ++ fixed digits x

/-- The shortest decimal text, as `str` of a float writes it between 10^-4 and 10^16. -/
def shortest (x : ℚ) : String :=
  fixed (((List.range' 1 16).find? fun digits => roundTo x digits = x).getD 17) x

example : fixed 2 (-251) = "-251.00" ∧ shortest (5 / 2) = "2.5" := by decide +kernel

end Binbot.Data
