import Mathlib.Algebra.Order.Field.Basic
import Mathlib.Order.Bounds.Basic
import Mathlib.Tactic.Linarith

/-!
# Peaks

The greatest entry of a sequence up to each of its positions. Of all earlier entries it is the
one from which a later one has fallen the furthest, as a fraction of where it fell from.
-/
namespace Binbot.Data

section

variable {α : Type} [LinearOrder α]

/-- The running maximum. -/
def peaks : List α → List α
  | [] => []
  | first :: rest => rest.scanl max first

/-- The entries up to a position. -/
def upTo (entries : List α) (j : ℕ) : Set α := {x | ∃ i ≤ j, entries[i]? = some x}

@[simp] theorem length_peaks (entries : List α) : (peaks entries).length = entries.length := by
  cases entries with
  | nil => rfl
  | cons first rest => simp [peaks]

omit [LinearOrder α] in
theorem mem_upTo_iff {entries : List α} {j : ℕ} {x : α} :
    x ∈ upTo entries j ↔ x ∈ entries.take (j + 1) := by
  rw [List.mem_iff_getElem?]
  constructor
  · rintro ⟨i, le, found⟩
    exact ⟨i, by rw [List.getElem?_take_of_lt (by omega), found]⟩
  · rintro ⟨i, found⟩
    have inside : i < j + 1 := by
      by_contra beyond
      rw [List.getElem?_take_eq_none (by omega)] at found
      cases found
    rw [List.getElem?_take_of_lt inside] at found
    exact ⟨i, by omega, found⟩

theorem getElem?_peaks {entries : List α} {j : ℕ} (inside : j < entries.length) :
    (peaks entries)[j]? = (entries.take (j + 1)).max? := by
  cases entries with
  | nil => simp at inside
  | cons first rest =>
    rw [peaks, List.getElem?_scanl, if_pos (by simpa [Nat.lt_succ_iff] using inside),
      List.take_succ_cons, List.max?_cons']

/-- A peak is the greatest entry up to its position. -/
theorem isGreatest_of_getElem?_peaks {entries : List α} {j : ℕ} {peak : α}
    (found : (peaks entries)[j]? = some peak) : IsGreatest (upTo entries j) peak := by
  have inside : j < entries.length := by
    obtain ⟨inside, -⟩ := List.getElem?_eq_some_iff.mp found
    simpa using inside
  rw [getElem?_peaks inside, List.max?_eq_some_iff] at found
  constructor
  · exact mem_upTo_iff.mpr found.1
  · intro x member
    exact found.2 x (mem_upTo_iff.mp member)

/-- An entry is below its peak exactly when some earlier entry is above it. -/
theorem lt_peak_iff {entries : List α} {j : ℕ} {y peak : α} (here : entries[j]? = some y)
    (found : (peaks entries)[j]? = some peak) :
    y < peak ↔ ∃ i < j, ∃ x, entries[i]? = some x ∧ y < x := by
  have greatest := isGreatest_of_getElem?_peaks found
  constructor
  · intro below
    -- the peak is reached somewhere, and not here
    obtain ⟨i, le, reached⟩ := greatest.1
    have earlier : i ≠ j := by
      rintro rfl
      rw [here] at reached
      cases reached
      exact lt_irrefl _ below
    exact ⟨i, by omega, peak, reached, below⟩
  · rintro ⟨i, before, x, reached, above⟩
    exact above.trans_le (greatest.2 ⟨i, before.le, reached⟩)

end

section

variable {K : Type} [Field K]

/-- What is lost from `x` to `y`, as a fraction of `x`. -/
def decline (x y : K) : K := (y - x) / x

/-- The declines from an entry to a later one, or to itself. -/
def declines (entries : List K) : Set K :=
  {d | ∃ (i j : ℕ) (x y : K),
    i ≤ j ∧ entries[i]? = some x ∧ entries[j]? = some y ∧ d = decline x y}

theorem decline_eq {x : K} (some_ : x ≠ 0) (y : K) : decline x y = y / x - 1 := by
  rw [decline, sub_div, div_self some_]

@[simp] theorem decline_self (x : K) : decline x x = 0 := by
  rw [decline, sub_self, zero_div]

variable [LinearOrder K]

/-- At each position, the decline from the peak. -/
def declinesFromPeak (entries : List K) : List K :=
  List.zipWith (fun y peak => decline peak y) entries (peaks entries)

theorem mem_declinesFromPeak {entries : List K} {d : K} : d ∈ declinesFromPeak entries ↔
    ∃ (j : ℕ) (y peak : K),
      entries[j]? = some y ∧ (peaks entries)[j]? = some peak ∧ d = decline peak y := by
  simp only [List.mem_iff_getElem?, declinesFromPeak, List.getElem?_zipWith_eq_some]
  constructor
  · rintro ⟨j, y, peak, here, found, rfl⟩
    exact ⟨j, y, peak, here, found, rfl⟩
  · rintro ⟨j, y, peak, here, found, rfl⟩
    exact ⟨j, y, peak, here, found, rfl⟩

/-- A decline from a peak is a decline. -/
theorem declinesFromPeak_subset {entries : List K} {d : K} (member : d ∈ declinesFromPeak entries) :
    d ∈ declines entries := by
  obtain ⟨j, y, peak, here, found, rfl⟩ := mem_declinesFromPeak.mp member
  obtain ⟨i, le, reached⟩ := (isGreatest_of_getElem?_peaks found).1
  exact ⟨i, j, peak, y, le, reached, here, rfl⟩

variable [IsStrictOrderedRing K]

theorem neg_one_lt_decline {x y : K} (hx : 0 < x) (hy : 0 < y) : -1 < decline x y := by
  have positive : 0 < y / x := div_pos hy hx
  rw [decline_eq hx.ne']
  linarith

theorem decline_neg_iff {x y : K} (hx : 0 < x) : decline x y < 0 ↔ y < x := by
  rw [decline, div_lt_iff₀ hx, zero_mul, sub_neg]

/-- The higher it falls from, the more is lost. -/
theorem decline_le_decline {x peak y : K} (hx : 0 < x) (hy : 0 < y) (le : x ≤ peak) :
    decline peak y ≤ decline x y := by
  have less : y / peak ≤ y / x := div_le_div_of_nonneg_left hy.le hx le
  rw [decline_eq hx.ne', decline_eq (hx.trans_le le).ne']
  linarith

/-- No decline is worse than the one from the peak to the same entry. -/
theorem exists_declinesFromPeak_le {entries : List K} (positive : ∀ e ∈ entries, 0 < e) {d : K}
    (member : d ∈ declines entries) : ∃ worst ∈ declinesFromPeak entries, worst ≤ d := by
  obtain ⟨i, j, x, y, le, reached, here, rfl⟩ := member
  have inside : j < (peaks entries).length := by
    rw [length_peaks]
    exact (List.getElem?_eq_some_iff.mp here).1
  have found : (peaks entries)[j]? = some (peaks entries)[j] := List.getElem?_eq_getElem inside
  refine ⟨decline (peaks entries)[j] y, mem_declinesFromPeak.mpr ⟨j, y, _, here, found, rfl⟩, ?_⟩
  apply decline_le_decline
  · exact positive x (List.mem_of_getElem? reached)
  · exact positive y (List.mem_of_getElem? here)
  · exact (isGreatest_of_getElem?_peaks found).2 ⟨i, le, reached⟩

/-- The least decline from a peak is the least decline. -/
theorem isLeast_declines {entries : List K} (positive : ∀ e ∈ entries, 0 < e) {worst : K}
    (least : (declinesFromPeak entries).min? = some worst) : IsLeast (declines entries) worst := by
  obtain ⟨member, below⟩ := List.min?_eq_some_iff.mp least
  refine ⟨declinesFromPeak_subset member, fun d other => ?_⟩
  obtain ⟨lower, found, le⟩ := exists_declinesFromPeak_le positive other
  exact (below lower found).trans le

/-- The least of all declines is a loss of less than everything, and it is no loss exactly
when the entries never fall. -/
theorem least_decline {entries : List K} (positive : ∀ e ∈ entries, 0 < e) {worst : K}
    (least : IsLeast (declines entries) worst) :
    -1 < worst ∧ worst ≤ 0 ∧ (worst = 0 ↔ entries.Pairwise (· ≤ ·)) := by
  obtain ⟨⟨i, j, x, y, le, reached, here, rfl⟩, below⟩ := least
  have hx := positive x (List.mem_of_getElem? reached)
  have nonpos : decline x y ≤ 0 :=
    below ⟨i, i, x, x, le_rfl, reached, reached, (decline_self x).symm⟩
  refine ⟨neg_one_lt_decline hx (positive y (List.mem_of_getElem? here)), nonpos, ?_⟩
  rw [List.pairwise_iff_getElem]
  constructor
  · intro none a b insideA insideB before
    -- from a higher entry to a lower one there is a decline below the least
    by_contra falls
    have lower : decline entries[a] entries[b] < 0 :=
      (decline_neg_iff (positive _ (List.getElem_mem insideA))).mpr (not_le.mp falls)
    have worse := below ⟨a, b, _, _, before.le, List.getElem?_eq_getElem insideA,
      List.getElem?_eq_getElem insideB, rfl⟩
    rw [none] at worse
    exact absurd lower (not_lt.mpr worse)
  · intro rises
    -- the least decline is from one entry to another, and entries do not fall
    obtain ⟨insideI, rfl⟩ := List.getElem?_eq_some_iff.mp reached
    obtain ⟨insideJ, rfl⟩ := List.getElem?_eq_some_iff.mp here
    have up : entries[i] ≤ entries[j] := by
      rcases le.lt_or_eq with before | rfl
      · exact rises i j insideI insideJ before
      · exact le_rfl
    exact le_antisymm nonpos (not_lt.mp (mt (decline_neg_iff hx).mp (not_lt.mpr up)))

end

end Binbot.Data
