import Mathlib.Data.List.Induction

/-!
# The newest entries

The latest entries of a growing sequence, the newest of them first. They can be kept up to
date one entry at a time, and read off any window of the sequence that is not shorter.
-/
namespace Binbot.Data

variable {α : Type} {n m : ℕ} {entries other : List α}

/-- At most `n` entries, newest first, of a sequence that has its newest entry last. -/
def newest (n : ℕ) (entries : List α) : List α := entries.reverse.take n

@[simp] theorem newest_nil (n : ℕ) : newest n ([] : List α) = [] := by simp [newest]

theorem newest_eq_nil (some_ : n ≠ 0) : newest n entries = [] ↔ entries = [] := by
  simp [newest, some_]

@[simp] theorem newest_concat (n : ℕ) (entries : List α) (entry : α) :
    newest n (entries ++ [entry]) = (entry :: newest n entries).take n := by
  cases n with
  | zero => simp [newest]
  | succ n => simp [newest, List.take_take]

/-- Sequences that look alike go on to look alike. -/
theorem newest_append_congr (same : newest n entries = newest n other) (more : List α) :
    newest n (entries ++ more) = newest n (other ++ more) := by
  induction more using List.reverseRecOn with
  | nil => simpa using same
  | append_singleton before entry ih =>
    rw [← List.append_assoc, ← List.append_assoc, newest_concat, newest_concat, ih]

/-- Entries that come one after the other are put in front, and the oldest ones give way. -/
theorem newest_append (n : ℕ) (entries more : List α) :
    newest n (entries ++ more) =
      more.foldl (fun shown entry => (entry :: shown).take n) (newest n entries) := by
  induction more using List.reverseRecOn with
  | nil => simp
  | append_singleton before entry ih =>
    rw [← List.append_assoc, newest_concat, ih, List.foldl_append, List.foldl_cons, List.foldl_nil]

/-- A window that is not shorter shows them all. -/
theorem newest_drop (room : n ≤ m) (entries : List α) :
    newest n (entries.drop (entries.length - m)) = newest n entries := by
  rw [newest, newest, List.reverse_drop, List.take_take]
  -- where nothing is dropped, the window is all there is
  rcases Nat.le_total m entries.length with long | short
  · rw [Nat.sub_sub_self long, Nat.min_eq_left room]
  · rw [Nat.sub_eq_zero_of_le short, Nat.sub_zero]
    rcases Nat.le_total n entries.length with enough | few
    · rw [Nat.min_eq_left enough]
    · rw [Nat.min_eq_right few, List.take_of_length_le (by simp),
        List.take_of_length_le (by simpa using few)]

end Binbot.Data
