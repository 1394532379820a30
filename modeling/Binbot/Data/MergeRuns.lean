import Mathlib.Data.List.Induction
import Mathlib.Order.Lattice

/-!
# Merging runs

Neighbours of one key are merged, one entry after the other. Nothing is assumed of the order
of the entries; where their keys ascend, each key has one merged entry at the end.
-/
namespace Binbot.Data

variable {α β κ μ : Type}

/-- The merged entries with one more: it is merged into the last one of its own key. -/
def mergeLast [DecidableEq κ] (key : α → κ) (merge : α → α → α) (merged : List α) (entry : α) :
    List α :=
  match merged.getLast? with
  | none => [entry]
  | some last =>
    if key last = key entry then merged.dropLast ++ [merge last entry] else merged ++ [entry]

def mergeRuns [DecidableEq κ] (key : α → κ) (merge : α → α → α) (entries : List α) : List α :=
  entries.foldl (mergeLast key merge) []

/-- All entries in one. -/
def mergeAll (merge : α → α → α) : List α → Option α
  | [] => none
  | first :: rest => some (rest.foldl merge first)

theorem mergeAll_concat (merge : α → α → α) (before : List α) (entry : α) :
    mergeAll merge (before ++ [entry]) =
      some (((mergeAll merge before).map (merge · entry)).getD entry) := by
  cases before with
  | nil => rfl
  | cons first rest => simp [mergeAll]

/-- Merging keeps the key, and does not depend on where one begins. -/
structure Merges (key : α → κ) (merge : α → α → α) : Prop where
  keeps : ∀ {a b}, key a = key b → key (merge a b) = key a
  assoc : ∀ {a b c}, key a = key b → key b = key c → merge (merge a b) c = merge a (merge b c)

section Runs

variable [DecidableEq κ] [DecidableEq μ] {key : α → κ} {merge : α → α → α}
variable {entries merged : List α} {last entry : α}

@[simp] theorem mergeLast_nil (key : α → κ) (merge : α → α → α) (entry : α) :
    mergeLast key merge [] entry = [entry] := rfl

theorem mergeLast_same (same : key last = key entry) :
    mergeLast key merge (merged ++ [last]) entry = merged ++ [merge last entry] := by
  rw [mergeLast, List.getLast?_concat]
  dsimp only
  rw [if_pos same, List.dropLast_concat]

theorem mergeLast_other (other : key last ≠ key entry) :
    mergeLast key merge (merged ++ [last]) entry = merged ++ [last] ++ [entry] := by
  rw [mergeLast, List.getLast?_concat]
  exact if_neg other

@[simp] theorem mergeRuns_nil (key : α → κ) (merge : α → α → α) : mergeRuns key merge [] = [] := rfl

@[simp] theorem mergeRuns_concat (entries : List α) (entry : α) :
    mergeRuns key merge (entries ++ [entry]) =
      mergeLast key merge (mergeRuns key merge entries) entry := by
  simp [mergeRuns]

/-- What merging keeps and all entries have, the merged entries have. -/
theorem mergeRuns_forall {p : α → Prop} (keeps : ∀ {a b}, p a → p b → p (merge a b))
    (all : ∀ entry ∈ entries, p entry) : ∀ one ∈ mergeRuns key merge entries, p one := by
  induction entries using List.reverseRecOn with
  | nil => simp
  | append_singleton before entry ih =>
    have ih := ih fun other held => all other (by simp [held])
    have new : p entry := all entry (by simp)
    -- The entry joins the last run, or is a run of its own.
    rw [mergeRuns_concat]
    cases merged_eq : mergeRuns key merge before using List.reverseRecOn with
    | nil => simpa using new
    | append_singleton merged last =>
      rw [merged_eq] at ih
      have merged_all : ∀ one ∈ merged, p one := fun one held => ih one (by simp [held])
      by_cases joins : key last = key entry
      · rw [mergeLast_same joins]
        simpa [or_imp, forall_and] using ⟨merged_all, keeps (ih last (by simp)) new⟩
      · rw [mergeLast_other joins]
        simpa [or_imp, forall_and, new] using ih

/-! ### Merging in two stages -/

/-- An entry of the same key as the one before it may be merged with that one first. -/
theorem mergeLast_mergeLast (merges : Merges key merge) {a b : α} (same : key a = key b)
    (merged : List α) :
    mergeLast key merge (mergeLast key merge merged a) b =
      mergeLast key merge merged (merge a b) := by
  cases merged using List.reverseRecOn with
  | nil =>
    rw [mergeLast_nil, ← List.nil_append [a], mergeLast_same same]
    rfl
  | append_singleton before last =>
    by_cases joins : key last = key a
    · -- Merging keeps keys, so that `b` joins what `a` has joined.
      have joined : key (merge last a) = key b := (merges.keeps joins).trans (joins.trans same)
      have whole : key last = key (merge a b) := joins.trans (merges.keeps same).symm
      rw [mergeLast_same joins, mergeLast_same joined, mergeLast_same whole,
        merges.assoc joins same]
    · have apart : key last ≠ key (merge a b) := by
        rw [merges.keeps same]
        exact joins
      rw [mergeLast_other joins, mergeLast_same same, mergeLast_other apart]

variable {key' : β → μ} {merge' : β → β → β} {f : α → β}

/-- To merge by a coarser key, one may merge by a finer one before. -/
theorem mergeRuns_mergeRuns (merges : Merges key' merge')
    (coarser : ∀ {a b}, key a = key b → key' (f a) = key' (f b))
    (maps : ∀ {a b}, key a = key b → f (merge a b) = merge' (f a) (f b)) (entries : List α) :
    mergeRuns key' merge' ((mergeRuns key merge entries).map f) =
      mergeRuns key' merge' (entries.map f) := by
  induction entries using List.reverseRecOn with
  | nil => rfl
  | append_singleton before entry ih =>
    rw [mergeRuns_concat, List.map_append, List.map_singleton, mergeRuns_concat, ← ih]
    cases mergeRuns key merge before using List.reverseRecOn with
    | nil => rfl
    | append_singleton merged last =>
      by_cases joins : key last = key entry
      · -- A run that grows by the finer key also grows by the coarser one.
        rw [mergeLast_same joins]
        simp only [List.map_append, List.map_singleton, mergeRuns_concat]
        rw [maps joins, mergeLast_mergeLast merges (coarser joins)]
      · rw [mergeLast_other joins]
        simp only [List.map_append, List.map_singleton, mergeRuns_concat]

/-- Where the keys say the same of the entries there can be, merging comes out the same. -/
theorem map_mergeRuns {p : α → Prop} (keeps : ∀ {a b}, p a → p b → p (merge a b))
    (same : ∀ {a b}, p a → p b → (key a = key b ↔ key' (f a) = key' (f b)))
    (maps : ∀ {a b}, key a = key b → f (merge a b) = merge' (f a) (f b))
    (all : ∀ entry ∈ entries, p entry) :
    (mergeRuns key merge entries).map f = mergeRuns key' merge' (entries.map f) := by
  induction entries using List.reverseRecOn with
  | nil => rfl
  | append_singleton before entry ih =>
    have before_all : ∀ other ∈ before, p other := fun other held => all other (by simp [held])
    have merged_all : ∀ one ∈ mergeRuns key merge before, p one := mergeRuns_forall keeps before_all
    rw [mergeRuns_concat, List.map_append, List.map_singleton, mergeRuns_concat, ← ih before_all]
    cases merged_eq : mergeRuns key merge before using List.reverseRecOn with
    | nil => rfl
    | append_singleton merged last =>
      have same := same (merged_all last (by simp [merged_eq])) (all entry (by simp))
      rw [List.map_append, List.map_singleton]
      by_cases joins : key last = key entry
      · rw [mergeLast_same joins, mergeLast_same (same.mp joins), List.map_append,
          List.map_singleton, maps joins]
      · rw [mergeLast_other joins, mergeLast_other (mt same.mpr joins), List.map_append,
          List.map_append, List.map_singleton, List.map_singleton]

end Runs

section Ascending

variable [LinearOrder κ] {key : α → κ} {merge : α → α → α} {before entries : List α} {entry : α}

/-- The keys merged are the keys there were. -/
theorem mem_keys_mergeRuns (merges : Merges key merge) (entries : List α) (k : κ) :
    k ∈ (mergeRuns key merge entries).map key ↔ k ∈ entries.map key := by
  induction entries using List.reverseRecOn with
  | nil => rfl
  | append_singleton before entry ih =>
    rw [mergeRuns_concat, List.map_append, List.mem_append, ← ih]
    cases mergeRuns key merge before using List.reverseRecOn with
    | nil => simp
    | append_singleton merged last =>
      by_cases joins : key last = key entry
      · simp [mergeLast_same joins, merges.keeps joins, joins]
      · simp [mergeLast_other joins, or_assoc]

/-- The last run is the one of the last entry. -/
theorem mergeRuns_last (merges : Merges key merge) (before : List α) (entry : α) :
    ∃ merged last, mergeRuns key merge (before ++ [entry]) = merged ++ [last] ∧
      key last = key entry := by
  rw [mergeRuns_concat]
  cases mergeRuns key merge before using List.reverseRecOn with
  | nil => exact ⟨[], entry, rfl, rfl⟩
  | append_singleton merged last =>
    by_cases joins : key last = key entry
    · exact ⟨merged, merge last entry, mergeLast_same joins, (merges.keeps joins).trans joins⟩
    · exact ⟨merged ++ [last], entry, mergeLast_other joins, rfl⟩

/-- With ascending keys an entry joins the last run, or its key is above all others. -/
theorem mergeRuns_concat_cases (merges : Merges key merge)
    (ascending : (before ++ [entry]).Pairwise (key · ≤ key ·)) :
    (∃ merged last, mergeRuns key merge before = merged ++ [last] ∧ key last = key entry ∧
      mergeRuns key merge (before ++ [entry]) = merged ++ [merge last entry]) ∨
    ((∀ other ∈ before, key other < key entry) ∧
      mergeRuns key merge (before ++ [entry]) = mergeRuns key merge before ++ [entry]) := by
  rw [List.pairwise_append] at ascending
  obtain ⟨ascending, -, below⟩ := ascending
  rw [mergeRuns_concat]
  cases before using List.reverseRecOn with
  | nil => exact .inr ⟨by simp, rfl⟩
  | append_singleton earlier previous =>
    obtain ⟨merged, last, merged_eq, last_key⟩ := mergeRuns_last merges earlier previous
    rw [merged_eq]
    by_cases joins : key last = key entry
    · exact .inl ⟨merged, last, rfl, joins, mergeLast_same joins⟩
    · -- The last run has the key of the entry before, which is the largest so far.
      have less : key previous < key entry :=
        lt_of_le_of_ne (below _ (by simp) _ (by simp)) (last_key ▸ joins)
      refine .inr ⟨fun other held => ?_, mergeLast_other joins⟩
      rcases List.mem_append.mp held with held | held
      · rw [List.pairwise_append] at ascending
        exact lt_of_le_of_lt (ascending.2.2 other held previous (by simp)) less
      · exact List.mem_singleton.mp held ▸ less

theorem mergeRuns_ascending (merges : Merges key merge)
    (ascending : entries.Pairwise (key · ≤ key ·)) :
    ((mergeRuns key merge entries).map key).Pairwise (· < ·) := by
  induction entries using List.reverseRecOn with
  | nil => exact List.Pairwise.nil
  | append_singleton before entry ih =>
    have ih := ih (List.pairwise_append.mp ascending).1
    rcases mergeRuns_concat_cases merges ascending with
      ⟨merged, last, merged_eq, joins, now⟩ | ⟨above, now⟩
    · -- The merged entry has the key of the last one, so the keys are the same.
      rw [merged_eq] at ih
      rw [now]
      simpa [merges.keeps joins] using ih
    · rw [now, List.map_append, List.pairwise_append]
      refine ⟨ih, by simp, fun k listed new_key is_new => ?_⟩
      obtain rfl : new_key = key entry := by simpa using is_new
      obtain ⟨other, held, rfl⟩ := List.mem_map.mp ((mem_keys_mergeRuns merges before k).mp listed)
      exact above other held

/-- The runs before the last one have smaller keys. -/
theorem mergeRuns_below_last (merges : Merges key merge)
    (ascending : entries.Pairwise (key · ≤ key ·)) {merged : List α} {last one : α}
    (merged_eq : mergeRuns key merge entries = merged ++ [last]) (earlier : one ∈ merged) :
    key one < key last := by
  have sorted := mergeRuns_ascending merges ascending
  rw [merged_eq, List.map_append, List.pairwise_append] at sorted
  exact sorted.2.2 _ (List.mem_map_of_mem earlier) _ (by simp)

theorem filter_key_concat_other {k : κ} (other : key entry ≠ k) :
    (before ++ [entry]).filter (key · = k) = before.filter (key · = k) := by
  simp [other]

theorem filter_key_concat_new (above : ∀ other ∈ before, key other < key entry) :
    (before ++ [entry]).filter (key · = key entry) = [entry] := by
  simpa using fun other held => (above other held).ne

/-- With ascending keys a merged entry is all entries of its key in one. -/
theorem mergeRuns_covers (merges : Merges key merge)
    (ascending : entries.Pairwise (key · ≤ key ·)) {one : α}
    (merged_one : one ∈ mergeRuns key merge entries) :
    mergeAll merge (entries.filter (key · = key one)) = some one := by
  induction entries using List.reverseRecOn generalizing one with
  | nil => cases merged_one
  | append_singleton before entry ih =>
    have before_ascending := (List.pairwise_append.mp ascending).1
    have ih := fun one => @ih before_ascending one
    rcases mergeRuns_concat_cases merges ascending with
      ⟨merged, last, merged_eq, joins, now⟩ | ⟨above, now⟩
    · rw [merged_eq] at ih
      rcases List.mem_append.mp (now ▸ merged_one) with earlier | is_last
      · -- An earlier run has nothing to do with the new entry.
        have less := mergeRuns_below_last merges before_ascending merged_eq earlier
        rw [filter_key_concat_other (joins ▸ less.ne')]
        exact ih one (by simp [earlier])
      · obtain rfl := List.mem_singleton.mp is_last
        have held := ih last (by simp)
        rw [joins] at held
        simp [merges.keeps joins, joins, mergeAll_concat, held]
    · rcases List.mem_append.mp (now ▸ merged_one) with earlier | is_new
      · obtain ⟨other, held, known⟩ := List.mem_map.mp
          ((mem_keys_mergeRuns merges before _).mp (List.mem_map_of_mem earlier))
        rw [filter_key_concat_other (known ▸ (above other held).ne')]
        exact ih one earlier
      · obtain rfl := List.mem_singleton.mp is_new
        rw [filter_key_concat_new above]
        rfl

/-- Where no key is below `k`, the entries of `k` come first. -/
theorem filter_least_append {k : κ} (ascending : entries.Pairwise (key · ≤ key ·))
    (least : ∀ entry ∈ entries, k ≤ key entry) :
    entries.filter (key · = k) ++ entries.filter (key · ≠ k) = entries := by
  induction entries with
  | nil => rfl
  | cons first rest ih =>
    obtain ⟨above, ascending⟩ := List.pairwise_cons.mp ascending
    by_cases here : key first = k
    · -- The first entry is of `k`, and the rest is ordered in the same way.
      have ih := ih ascending fun entry held => least entry (by simp [held])
      simpa [here] using ih
    · -- All that follows is above `k` too.
      have less : k < key first := lt_of_le_of_ne (least first (by simp)) (Ne.symm here)
      have none_left : ∀ entry ∈ first :: rest, key entry ≠ k := by
        intro entry held
        rcases List.mem_cons.mp held with rfl | held
        · exact here
        · exact (less.trans_le (above entry held)).ne'
      rw [List.filter_eq_nil_iff.mpr (by simpa using none_left),
        List.filter_eq_self.mpr (by simpa using none_left), List.nil_append]

/-- Key by key the entries are there again, none left out and none twice. -/
theorem flatMap_filter_key {keys : List κ} (sorted : keys.Pairwise (· < ·))
    (ascending : entries.Pairwise (key · ≤ key ·)) (covered : ∀ entry ∈ entries, key entry ∈ keys) :
    keys.flatMap (fun k => entries.filter (key · = k)) = entries := by
  induction keys generalizing entries with
  | nil =>
    have none_left : entries = [] := by simpa [List.eq_nil_iff_forall_not_mem] using covered
    simp [none_left]
  | cons k rest ih =>
    obtain ⟨below, sorted⟩ := List.pairwise_cons.mp sorted
    have least : ∀ entry ∈ entries, k ≤ key entry := by
      intro entry held
      rcases List.mem_cons.mp (covered entry held) with same | later
      · exact same.ge
      · exact (below _ later).le
    have ih := ih sorted (ascending.sublist (List.filter_sublist (p := (key · ≠ k)))) <| by
      intro entry held
      obtain ⟨held, other⟩ := List.mem_filter.mp held
      exact (List.mem_cons.mp (covered entry held)).resolve_left (by simpa using other)
    -- The later keys find the same entries among those that are left.
    have same : ∀ later ∈ rest,
        (entries.filter (key · ≠ k)).filter (key · = later) = entries.filter (key · = later) := by
      intro later held
      have apart := (below later held).ne'
      rw [List.filter_filter]
      refine List.filter_congr fun entry _ => ?_
      by_cases here : key entry = later
      · simp [here, apart]
      · simp [here]
    rw [List.flatMap_def, List.map_congr_left same, ← List.flatMap_def] at ih
    rw [List.flatMap_cons, ih, filter_least_append ascending least]

end Ascending

end Binbot.Data
