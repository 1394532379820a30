import Binbot.Execution.OrderManager
import Mathlib.Algebra.Order.BigOperators.Group.List
import Mathlib.Tactic.Linarith

/-!
# Slippage statistics (`execution/slippage.py`)

The samples are recorded by the order manager, fill by fill.
-/
namespace Binbot

open Data

structure SlippageStats where
  symbol : Symbol
  fillCount : ℕ
  totalQuantity : ℤ
  meanSlippage : ℚ
  worstSlippage : ℚ
  totalSlippageCost : ℚ
  deriving DecidableEq

namespace SlippageTracker

/-- `max(slippages, key=abs)`: the first one of the greatest size. -/
def worst (first : ℚ) (rest : List ℚ) : ℚ :=
  rest.foldl (fun worst s => if |s| > |worst| then s else worst) first

def totalQuantity (records : List (ℤ × ℚ)) : ℤ := (records.map Prod.fst).sum

def weightedCost (records : List (ℤ × ℚ)) : ℚ := (records.map fun r => (r.1 : ℚ) * r.2).sum

variable (records : Dict Symbol (List (ℤ × ℚ)))

def stats (symbol : Symbol) : Option SlippageStats :=
  match records.getD symbol [] with
  | [] => none
  | first :: rest => some
      { symbol := symbol
        fillCount := (first :: rest).length
        totalQuantity := totalQuantity (first :: rest)
        meanSlippage := ((first :: rest).map Prod.snd).sum / (first :: rest).length
        worstSlippage := worst first.2 (rest.map Prod.snd)
        totalSlippageCost := weightedCost (first :: rest) }

@[simp] theorem totalQuantity_concat (samples : List (ℤ × ℚ)) (sample : ℤ × ℚ) :
    totalQuantity (samples ++ [sample]) = totalQuantity samples + sample.1 := by
  simp [totalQuantity]

@[simp] theorem weightedCost_concat (samples : List (ℤ × ℚ)) (sample : ℤ × ℚ) :
    weightedCost (samples ++ [sample]) = weightedCost samples + sample.1 * sample.2 := by
  simp [weightedCost]

/-- The worst one is among them, and none is larger. -/
theorem worst_spec (first : ℚ) (rest : List ℚ) :
    worst first rest ∈ first :: rest ∧ ∀ s ∈ first :: rest, |s| ≤ |worst first rest| := by
  induction rest generalizing first with
  | nil => simp [worst]
  | cons next rest ih =>
    rw [worst, List.foldl_cons]
    split
    next larger =>
      obtain ⟨member, bound⟩ := ih next
      refine ⟨List.mem_cons_of_mem _ member, fun s listed => ?_⟩
      rcases List.mem_cons.mp listed with rfl | later
      · exact larger.le.trans (bound next List.mem_cons_self)
      · exact bound s later
    next smaller =>
      obtain ⟨member, bound⟩ := ih first
      constructor
      · rcases List.mem_cons.mp member with same | later
        · rw [worst] at same
          rw [same]
          exact List.mem_cons_self
        · exact List.mem_cons_of_mem _ (List.mem_cons_of_mem _ later)
      · intro s listed
        rcases List.mem_cons.mp listed with rfl | listed
        · exact bound s List.mem_cons_self
        · rcases List.mem_cons.mp listed with rfl | later
          · exact (not_lt.mp smaller).trans (bound first List.mem_cons_self)
          · exact bound s (List.mem_cons_of_mem _ later)

/-- No sum is further from zero than its number of terms allows. -/
theorem abs_sum_le {bound : ℚ} {samples : List ℚ} (each : ∀ s ∈ samples, |s| ≤ bound) :
    |samples.sum| ≤ samples.length * bound := by
  induction samples with
  | nil => simp
  | cons s rest ih =>
    obtain ⟨first, later⟩ := List.forall_mem_cons.mp each
    have tail := ih later
    have step := abs_add_le s rest.sum
    rw [List.sum_cons, List.length_cons]
    push_cast
    linarith

/-- The mean is no further from zero than the worst fill. -/
theorem stats_mean_le_worst {symbol : Symbol} {s : SlippageStats}
    (found : stats records symbol = some s) : |s.meanSlippage| ≤ |s.worstSlippage| := by
  rw [stats] at found
  split at found
  · cases found
  next first rest _ =>
    cases found
    obtain ⟨-, bound⟩ := worst_spec first.2 (rest.map Prod.snd)
    have total := abs_sum_le bound
    have positive : (0 : ℚ) < ((first :: rest).length : ℚ) := by
      rw [List.length_cons]
      positivity
    rw [List.map_cons, abs_div, abs_of_pos positive, div_le_iff₀ positive]
    rw [List.length_cons, List.length_map, mul_comm] at total
    exact total

/-- The figures of a symbol are those of its samples, and there are none without samples. -/
theorem stats_totals (symbol : Symbol) :
    totalQuantity (records.getD symbol []) = ((stats records symbol).map (·.totalQuantity)).getD 0 ∧
      weightedCost (records.getD symbol []) =
        ((stats records symbol).map (·.totalSlippageCost)).getD 0 := by
  rw [stats]
  cases records.getD symbol [] with
  | nil => exact ⟨rfl, rfl⟩
  | cons first rest => exact ⟨rfl, rfl⟩

end SlippageTracker

end Binbot
