import Mathlib.Data.List.Sort

/-! Sorting a list whose elements fall into those that go first and those that go last: each
part is sorted on its own. -/
namespace Binbot.Data

variable {α : Type} {r : α → α → Prop} [DecidableRel r]

/-- An element that goes before all of the second part is inserted into the first. -/
theorem orderedInsert_append_left {a : α} (first : List α) {last : List α}
    (before : ∀ b ∈ last, r a b) :
    (first ++ last).orderedInsert r a = first.orderedInsert r a ++ last := by
  induction first with
  | nil =>
    cases last with
    | nil => rfl
    | cons b bs => simp [before b List.mem_cons_self]
  | cons x xs ih =>
    by_cases here : r a x
    · simp [here]
    · simp [here, ih]

/-- One that goes after all of the first part is inserted into the second. -/
theorem orderedInsert_append_right {a : α} {first : List α} (last : List α)
    (after : ∀ b ∈ first, ¬ r a b) :
    (first ++ last).orderedInsert r a = first ++ last.orderedInsert r a := by
  induction first with
  | nil => rfl
  | cons x xs ih =>
    obtain ⟨here, rest⟩ := List.forall_mem_cons.mp after
    simp [here, ih rest]

theorem insertionSort_cut (p : α → Bool) (xs : List α)
    (apart : ∀ a ∈ xs, ∀ b ∈ xs, p a = true → p b = false → r a b ∧ ¬ r b a) :
    xs.insertionSort r =
      (xs.filter p).insertionSort r ++ (xs.filter fun a => !p a).insertionSort r := by
  induction xs with
  | nil => rfl
  | cons x xs ih =>
    have rest := ih fun a aMember b bMember =>
      apart a (List.mem_cons_of_mem _ aMember) b (List.mem_cons_of_mem _ bMember)
    rw [List.insertionSort_cons, rest]
    cases side : p x with
    | true =>
      have before : ∀ b ∈ (xs.filter fun a => !p a).insertionSort r, r x b := by
        intro b member
        simp only [List.mem_insertionSort, List.mem_filter, Bool.not_eq_true'] at member
        exact (apart x List.mem_cons_self b (List.mem_cons_of_mem _ member.1) side member.2).1
      simp [side, orderedInsert_append_left _ before]
    | false =>
      have after : ∀ b ∈ (xs.filter p).insertionSort r, ¬ r x b := by
        intro b member
        simp only [List.mem_insertionSort, List.mem_filter] at member
        exact (apart b (List.mem_cons_of_mem _ member.1) x List.mem_cons_self member.2 side).2
      simp [side, orderedInsert_append_right _ after]

end Binbot.Data
