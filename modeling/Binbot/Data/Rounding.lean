import Mathlib.Algebra.BigOperators.Group.List.Basic
import Mathlib.Algebra.Order.Field.Rat
import Mathlib.Data.List.Induction
import Mathlib.Order.Monotone.Basic

/-!
# Rounded arithmetic

Each operation of a floating-point arithmetic is the exact operation with its result rounded. What
can be said of such results in general comes from two properties of the rounding: it respects the
order, and a number that is a result already stays as it is.
-/
namespace Binbot.Data

structure Rounding where
  round : ℚ → ℚ
  mono : Monotone round
  idem : ∀ x, round (round x) = round x
  neg : ∀ x, round (-x) = -round x
  natCast : ∀ n : ℕ, n ≤ 2 ^ 53 → round n = n

namespace Rounding

instance : CoeFun Rounding fun _ => ℚ → ℚ := ⟨round⟩

/-- Exact arithmetic. -/
def exact : Rounding where
  round := id
  mono := monotone_id
  idem _ := rfl
  neg _ := rfl
  natCast _ _ := rfl

variable (r : Rounding)

def add (x y : ℚ) : ℚ := r (x + y)

def sub (x y : ℚ) : ℚ := r (x - y)

def mul (x y : ℚ) : ℚ := r (x * y)

def div (x y : ℚ) : ℚ := r (x / y)

/-- The numbers are added up from the first to the last. -/
def sum (xs : List ℚ) : ℚ := xs.foldl r.add 0

/-- Rounding leaves the number as it is. -/
def Holds (x : ℚ) : Prop := r x = x

instance (x : ℚ) : Decidable (r.Holds x) := inferInstanceAs (Decidable (_ = _))

@[simp] theorem exact_apply (x : ℚ) : exact x = x := rfl

@[simp] theorem exact_add (x y : ℚ) : exact.add x y = x + y := rfl

@[simp] theorem exact_sub (x y : ℚ) : exact.sub x y = x - y := rfl

@[simp] theorem exact_mul (x y : ℚ) : exact.mul x y = x * y := rfl

@[simp] theorem exact_div (x y : ℚ) : exact.div x y = x / y := rfl

theorem exact_holds (x : ℚ) : exact.Holds x := rfl

variable {r} {x y bound : ℚ}

theorem holds_natCast {n : ℕ} (small : n ≤ 2 ^ 53) : r.Holds n := r.natCast n small

variable (r) in
@[simp] theorem map_zero : r 0 = 0 := by exact_mod_cast r.natCast 0 (Nat.zero_le _)

theorem Holds.le (holds : r.Holds bound) (le : bound ≤ x) : bound ≤ r x :=
  calc bound = r bound := holds.symm
    _ ≤ r x := r.mono le

theorem Holds.ge (holds : r.Holds bound) (le : x ≤ bound) : r x ≤ bound :=
  calc r x ≤ r bound := r.mono le
    _ = bound := holds

theorem nonneg (sign : 0 ≤ x) : 0 ≤ r x := Holds.le r.map_zero sign

theorem nonneg_mul (left : 0 ≤ x) (right : 0 ≤ y) : 0 ≤ r.mul x y := nonneg (mul_nonneg left right)

theorem nonpos (sign : x ≤ 0) : r x ≤ 0 := Holds.ge r.map_zero sign

/-- What is added changes a number in its own direction, if it changes it at all. -/
theorem Holds.le_add (holds : r.Holds x) (sign : 0 ≤ y) : x ≤ r.add x y :=
  holds.le (le_add_of_nonneg_right sign)

theorem Holds.add_le (holds : r.Holds x) (sign : y ≤ 0) : r.add x y ≤ x :=
  holds.ge (add_le_of_nonpos_right sign)

@[simp] theorem sum_nil (r : Rounding) : r.sum [] = 0 := rfl

@[simp] theorem sum_concat (r : Rounding) (xs : List ℚ) (x : ℚ) :
    r.sum (xs ++ [x]) = r.add (r.sum xs) x := by
  simp [sum]

theorem exact_sum (xs : List ℚ) : exact.sum xs = xs.sum := List.sum_eq_foldl.symm

theorem sum_nonneg {xs : List ℚ} (signs : ∀ x ∈ xs, 0 ≤ x) : 0 ≤ r.sum xs := by
  induction xs using List.reverseRecOn with
  | nil => exact le_rfl
  | append_singleton before x ih =>
    rw [List.forall_mem_append, List.forall_mem_singleton] at signs
    rw [sum_concat]
    exact nonneg (add_nonneg (ih signs.1) signs.2)

theorem Holds.eq (holds : r.Holds x) : r x = x := holds

/-- Two charges in a row leave a number as it is exactly when each of them does. -/
theorem Holds.add_add_le_iff {z : ℚ} (holds : r.Holds x) (left : 0 ≤ y) (right : 0 ≤ z) :
    r.add (r.add x y) z ≤ x ↔ r.add x y = x ∧ r.add x z = x := by
  have first : x ≤ r.add x y := holds.le_add left
  have second : r.add x y ≤ r.add (r.add x y) z := Holds.le_add (r.idem _) right
  constructor
  · intro kept
    have same : r.add x y = x := le_antisymm (second.trans kept) first
    rw [same] at kept
    exact ⟨same, le_antisymm kept (holds.le_add right)⟩
  · rintro ⟨same, same'⟩
    rw [same, same']

theorem Holds.le_add_add_iff {z : ℚ} (holds : r.Holds x) (left : y ≤ 0) (right : z ≤ 0) :
    x ≤ r.add (r.add x y) z ↔ r.add x y = x ∧ r.add x z = x := by
  have first : r.add x y ≤ x := holds.add_le left
  have second : r.add (r.add x y) z ≤ r.add x y := Holds.add_le (r.idem _) right
  constructor
  · intro kept
    have same : r.add x y = x := le_antisymm first (kept.trans second)
    rw [same] at kept
    exact ⟨same, le_antisymm (holds.add_le right) kept⟩
  · rintro ⟨same, same'⟩
    rw [same, same']

end Rounding

end Binbot.Data
