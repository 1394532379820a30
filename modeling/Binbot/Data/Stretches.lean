import Mathlib.Data.List.SplitBy

/-!
# Stretches

A sequence falls into stretches of neighbours that are related. A stretch is over once an
element follows that does not belong to it. Here the sequence grows by one element at a time.
-/
namespace Binbot.Data

variable {α : Type}

/-- The stretches that are over, each with the element that ended it. -/
def ended : List (List α) → List (List α × α)
  | stretch :: next :: later => (next.head?.map (stretch, ·)).toList ++ ended (next :: later)
  | _ => []

def overStretches (related : α → α → Bool) (entries : List α) : List (List α × α) :=
  ended (entries.splitBy related)

/-- The stretch that the sequence is in. -/
def latest (related : α → α → Bool) (entries : List α) : List α :=
  ((entries.splitBy related).getLast?).getD []

section

variable {related : α → α → Bool} {entries last : List α} {before : List (List α)} {entry : α}

variable (related) in
/-- What is in no stretch yet is empty. -/
theorem exists_split (some_ : entries ≠ []) :
    ∃ before last, entries.splitBy related = before ++ [last] ∧ last ≠ [] ∧
      latest related entries = last ∧ entries.getLast? = last.getLast? := by
  have stretches : entries.splitBy related ≠ [] := List.splitBy_ne_nil.mpr some_
  obtain ⟨before, last, split⟩ := (entries.splitBy related).eq_nil_or_concat'.resolve_left stretches
  have nonempty : last ≠ [] :=
    List.ne_nil_of_mem_splitBy (r := related) (l := entries) (by simp [split])
  refine ⟨before, last, split, nonempty, ?_, ?_⟩
  · rw [latest, split, List.getLast?_concat, Option.getD_some]
  · obtain ⟨final, found⟩ :=
      Option.ne_none_iff_exists'.mp (mt List.getLast?_eq_none_iff.mp nonempty)
    rw [← List.flatten_splitBy related entries, split, List.flatten_append, List.getLast?_append,
      List.flatten_singleton, found, Option.some_or]

theorem getLast?_latest (related : α → α → Bool) (entries : List α) :
    (latest related entries).getLast? = entries.getLast? := by
  by_cases none : entries = []
  · rw [none]
    rfl
  · obtain ⟨before, last, -, -, same, final⟩ := exists_split related none
    rw [same, final]

/-! ### An element that is apart -/

/-- An element that is not related to the last one starts a stretch. -/
theorem splitBy_starts (apart : ∀ final ∈ entries.getLast?, related final entry = false) :
    (entries ++ [entry]).splitBy related = entries.splitBy related ++ [[entry]] :=
  List.splitBy_append_cons [] apart

theorem ended_starts (before : List (List α)) (last : List α) (entry : α) :
    ended (before ++ [last] ++ [[entry]]) = ended (before ++ [last]) ++ [(last, entry)] := by
  induction before with
  | nil => rfl
  | cons stretch rest ih =>
    cases rest with
    | nil => simp [ended]
    | cons next later =>
      simp only [List.cons_append, ended, List.append_assoc] at ih ⊢
      rw [ih]

theorem latest_starts (apart : ∀ final ∈ entries.getLast?, related final entry = false) :
    latest related (entries ++ [entry]) = [entry] := by
  rw [latest, splitBy_starts apart, List.getLast?_concat, Option.getD_some]

/-- It ends the stretch before it. -/
theorem overStretches_starts (some_ : entries ≠ [])
    (apart : ∀ final ∈ entries.getLast?, related final entry = false) :
    overStretches related (entries ++ [entry]) =
      overStretches related entries ++ [(latest related entries, entry)] := by
  obtain ⟨before, last, split, -, same, -⟩ := exists_split related some_
  rw [overStretches, splitBy_starts apart, split, ended_starts, overStretches, split, same]

/-! ### An element that goes on -/

/-- An element that is related to the last one goes on with its stretch. -/
theorem splitBy_continues (split : entries.splitBy related = before ++ [last])
    (joined : ∀ final ∈ last.getLast?, related final entry = true) :
    (entries ++ [entry]).splitBy related = before ++ [last ++ [entry]] := by
  obtain ⟨whole, nonempty, chains, apart⟩ := List.splitBy_eq_iff.mp split
  have some_ : last ≠ [] := fun none => nonempty (by simp [none])
  refine List.splitBy_eq_iff.mpr ⟨?_, ?_, ?_, ?_⟩
  · rw [whole]
    simp
  · intro none
    rcases List.mem_append.mp none with earlier | here
    · exact nonempty (List.mem_append_left _ earlier)
    · simp at here
  · intro stretch member
    rcases List.mem_append.mp member with earlier | here
    · exact chains stretch (List.mem_append_left _ earlier)
    · rw [List.mem_singleton.mp here, List.isChain_append]
      refine ⟨chains last (by simp), List.isChain_singleton _, ?_⟩
      rintro final found _ ⟨⟩
      exact joined final found
  · -- the last stretch still starts where it did
    rw [List.isChain_append] at apart ⊢
    refine ⟨apart.1, List.isChain_singleton _, ?_⟩
    rintro stretch found _ ⟨⟩
    obtain ⟨ends, starts, away⟩ := apart.2.2 stretch found last rfl
    exact ⟨ends, by simp, by rwa [List.head_append_of_ne_nil some_]⟩

theorem ended_continues (before : List (List α)) (some_ : last ≠ []) (entry : α) :
    ended (before ++ [last ++ [entry]]) = ended (before ++ [last]) := by
  induction before with
  | nil => rfl
  | cons stretch rest ih =>
    cases rest with
    | nil =>
      obtain ⟨first, more, rfl⟩ := List.exists_cons_of_ne_nil some_
      rfl
    | cons next later =>
      simp only [List.cons_append, ended] at ih ⊢
      rw [ih]

/-- It ends nothing. -/
theorem stretches_continue (some_ : entries ≠ [])
    (joined : ∀ final ∈ entries.getLast?, related final entry = true) :
    latest related (entries ++ [entry]) = latest related entries ++ [entry] ∧
      overStretches related (entries ++ [entry]) = overStretches related entries := by
  obtain ⟨before, last, split, nonempty, same, final⟩ := exists_split related some_
  have continued := splitBy_continues split (fun x found => joined x (final ▸ found))
  constructor
  · rw [latest, continued, List.getLast?_concat, Option.getD_some, same]
  · rw [overStretches, continued, ended_continues before nonempty, overStretches, split]

end

end Binbot.Data
