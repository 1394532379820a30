import Mathlib.Data.List.Induction
import Mathlib.Order.Lattice

/-!
# Series

Entries in ascending order of a key, the latest of them last. A new entry takes the place of
the latest one of its own key, and the oldest one gives way when there is no room.
-/
namespace Binbot.Data

variable {α κ : Type} [LinearOrder κ]

def Ascending (key : α → κ) (entries : List α) : Prop :=
  entries.Pairwise fun a b => key a < key b

instance (key : α → κ) (entries : List α) : Decidable (Ascending key entries) :=
  inferInstanceAs (Decidable (entries.Pairwise _))

/-- The series with one more entry, and room for `cap` of them. -/
def recordLast (key : α → κ) (cap : ℕ) (entries : List α) (entry : α) : List α :=
  if entries.getLast?.map key = some (key entry) then entries.dropLast ++ [entry]
  else if cap < (entries ++ [entry]).length then (entries ++ [entry]).tail
  else entries ++ [entry]

section

variable {key : α → κ} {entries : List α} {entry : α} {cap : ℕ}

theorem Ascending.nil : Ascending key ([] : List α) := List.Pairwise.nil

theorem Ascending.sublist {fewer : List α} (ascending : Ascending key entries)
    (sub : fewer.Sublist entries) : Ascending key fewer := List.Pairwise.sublist sub ascending

/-- Every entry comes before the last one, or is the last one. -/
theorem Ascending.le_last {before : List α} {last : α} (ascending : Ascending key (before ++ [last]))
    {other : α} (member : other ∈ before ++ [last]) : key other ≤ key last := by
  rcases List.mem_append.mp member with earlier | same
  · exact ((List.pairwise_append.mp ascending).2.2 other earlier last List.mem_cons_self).le
  · rw [List.mem_singleton.mp same]

theorem ascending_concat : Ascending key (entries ++ [entry]) ↔
    Ascending key entries ∧ ∀ other ∈ entries, key other < key entry := by
  rw [Ascending, List.pairwise_append]
  simp only [List.pairwise_singleton, List.mem_singleton, forall_eq, true_and]
  rfl

/-- It is enough to look at the last entry. -/
theorem ascending_concat_iff (ascending : Ascending key entries) :
    Ascending key (entries ++ [entry]) ↔ ∀ last ∈ entries.getLast?, key last < key entry := by
  rw [ascending_concat, and_iff_right ascending]
  constructor
  · exact fun all last found => all last (List.mem_of_getLast? found)
  · intro after
    cases entries using List.reverseRecOn with
    | nil => simp
    | append_singleton before last =>
      have latest := after last (by simp)
      exact fun other member => (ascending.le_last member).trans_lt latest

/-- The oldest entry does not matter for what comes after the last one. -/
theorem ascending_tail_concat (ascending : Ascending key entries) (several : 2 ≤ entries.length) :
    Ascending key (entries ++ [entry]).tail ↔ Ascending key (entries ++ [entry]) := by
  cases entries with
  | nil => simp at several
  | cons first later =>
    cases later with
    | nil => simp at several
    | cons second rest =>
      have fewer : Ascending key (second :: rest) := ascending.sublist (List.sublist_cons_self _ _)
      rw [ascending_concat_iff ascending, List.getLast?_cons_cons]
      exact ascending_concat_iff fewer

/-- A series stays one exactly when the new entry is not earlier than its last. -/
theorem ascending_recordLast_iff (ascending : Ascending key entries) (room : 2 ≤ cap) :
    Ascending key (recordLast key cap entries entry) ↔
      ∀ last ∈ entries.getLast?, key last ≤ key entry := by
  rw [recordLast]
  split
  next same =>
    -- the last entry is replaced by one of its own key
    cases entries using List.reverseRecOn with
    | nil => cases same
    | append_singleton before last =>
      rw [List.getLast?_concat, Option.map_some, Option.some.injEq] at same
      rw [List.dropLast_concat, List.getLast?_concat, ascending_concat, ← same]
      constructor
      · rintro - other found
        cases found
        exact le_rfl
      · exact fun _ => ascending_concat.mp ascending
  next other =>
    have strict : Ascending key (entries ++ [entry]) ↔
        ∀ last ∈ entries.getLast?, key last ≤ key entry := by
      rw [ascending_concat_iff ascending]
      refine forall_congr' fun last => forall_congr' fun found => ?_
      have different : key last ≠ key entry := by
        intro same
        rw [Option.mem_def.mp found, Option.map_some, same] at other
        exact other rfl
      exact ⟨le_of_lt, fun le => lt_of_le_of_ne le different⟩
    split
    next full =>
      rw [List.length_append, List.length_singleton] at full
      rw [ascending_tail_concat ascending (by omega), strict]
    next => exact strict

theorem length_recordLast (bounded : entries.length ≤ cap) (room : 1 ≤ cap) :
    (recordLast key cap entries entry).length ≤ cap := by
  rw [recordLast]
  split
  · rw [List.length_append, List.length_dropLast, List.length_singleton]
    omega
  · split
    · rw [List.length_tail, List.length_append, List.length_singleton]
      omega
    · omega

end

end Binbot.Data
