import Binbot.Data.Dict
import Mathlib.Algebra.BigOperators.Group.List.Basic
import Mathlib.Data.Rat.Defs
import Mathlib.Tactic.Ring

/-! Sums over the entries of a dictionary, and what an assignment does to them. -/
namespace Binbot.Data.Dict

variable {κ V : Type}

/-- The sum of a weight over the entries. -/
def sum (d : Dict κ V) (weight : κ → V → ℚ) : ℚ := (d.entries.map fun e => weight e.1 e.2).sum

@[simp] theorem sum_empty (weight : κ → V → ℚ) : (empty : Dict κ V).sum weight = 0 := rfl

variable [DecidableEq κ]

/-- What the entry of a key weighs, if there is one. -/
def weightAt (d : Dict κ V) (key : κ) (weight : κ → V → ℚ) : ℚ :=
  ((d.get? key).map (weight key)).getD 0

omit [DecidableEq κ] in
private theorem sum_congr_absent {key : κ} {xs : List (κ × V)} (absent : key ∉ xs.map Prod.fst)
    {weight weight' : κ → V → ℚ} (same : ∀ k ≠ key, ∀ v, weight' k v = weight k v) :
    (xs.map fun e => weight' e.1 e.2).sum = (xs.map fun e => weight e.1 e.2).sum := by
  congr 1
  apply List.map_congr_left
  rintro ⟨k, v⟩ member
  apply same
  rintro rfl
  exact absent (List.mem_map_of_mem (f := Prod.fst) member)

private theorem sum_assign (key : κ) (value : V) (xs : List (κ × V))
    (unique : (xs.map Prod.fst).Nodup) {weight weight' : κ → V → ℚ}
    (same : ∀ k ≠ key, ∀ v, weight' k v = weight k v) :
    ((assign key value xs).map fun e => weight' e.1 e.2).sum =
      (xs.map fun e => weight e.1 e.2).sum - ((lookup key xs).map (weight key)).getD 0 +
        weight' key value := by
  induction xs with
  | nil => simp [assign, lookup]
  | cons x rest ih =>
    obtain ⟨k, v⟩ := x
    rw [List.map_cons, List.nodup_cons] at unique
    by_cases here : k = key
    · subst here
      simp only [assign, if_true, List.map_cons, List.sum_cons, lookup, Option.map_some,
        Option.getD_some, sum_congr_absent unique.1 same]
      ring
    · simp only [assign, if_neg here, List.map_cons, List.sum_cons, lookup, ih unique.2,
        same k here]
      ring

private theorem sum_filter (key : κ) (xs : List (κ × V)) (unique : (xs.map Prod.fst).Nodup)
    (weight : κ → V → ℚ) :
    ((xs.filter fun e => e.1 ≠ key).map fun e => weight e.1 e.2).sum =
      (xs.map fun e => weight e.1 e.2).sum - ((lookup key xs).map (weight key)).getD 0 := by
  induction xs with
  | nil => simp [lookup]
  | cons x rest ih =>
    obtain ⟨k, v⟩ := x
    rw [List.map_cons, List.nodup_cons] at unique
    by_cases here : k = key
    · subst here
      have gone : lookup k rest = none := (lookup_eq_none k rest).mpr unique.1
      rw [List.filter_cons_of_neg (by simp), ih unique.2, gone]
      simp [lookup]
    · rw [List.filter_cons_of_pos (by simp [here])]
      simp only [List.map_cons, List.sum_cons, ih unique.2, lookup, if_neg here]
      ring

/-- An assignment replaces one term of the sum. The weight may change at its key. -/
theorem sum_set (d : Dict κ V) (key : κ) (value : V) {weight weight' : κ → V → ℚ}
    (same : ∀ k ≠ key, ∀ v, weight' k v = weight k v) :
    (d.set key value).sum weight' = d.sum weight - d.weightAt key weight + weight' key value :=
  sum_assign key value d.entries d.nodup same

theorem sum_erase (d : Dict κ V) (key : κ) (weight : κ → V → ℚ) :
    (d.erase key).sum weight = d.sum weight - d.weightAt key weight :=
  sum_filter key d.entries d.nodup weight

end Binbot.Data.Dict
