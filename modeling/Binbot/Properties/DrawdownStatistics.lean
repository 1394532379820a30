import Binbot.Backtest.Performance
import Binbot.Data.Blocks
import Binbot.Data.Peaks

/-!
# The drawdown statistics of a report

One pass over the equity curve keeps a running maximum and two counters. Its figures are the
worst decline between any two points of the curve, and the greatest number of bars in a row
that lie below some earlier one.

Strategy:
1. The running maximum is the peak up to each point, so the series holds the declines from it.
2. A point is below the running maximum exactly when an earlier point is above it.
3. The two counters are those of the blocks of such points.
-/
namespace Binbot.DrawdownStatistics

open Data Performance

-- ═══════════════════════════════════════════════════════════════
-- The running maximum
-- ═══════════════════════════════════════════════════════════════

theorem runningMax_eq_peaks (equity : List ℚ) : runningMax equity = peaks equity := by
  cases equity <;> rfl

theorem drawdowns_eq_declines (equity : List ℚ) : drawdowns equity = declinesFromPeak equity := by
  rw [drawdowns, runningMax_eq_peaks, declinesFromPeak]
  rfl

theorem drawdowns_ne_nil {equity : List ℚ} (some_ : equity ≠ []) : drawdowns equity ≠ [] := by
  obtain ⟨first, rest, rfl⟩ := List.exists_cons_of_ne_nil some_
  cases rest <;> simp [drawdowns, runningMax]

/-- The minimum of the series is the worst decline of the curve. -/
theorem isLeast_maxDrawdown {equity : List ℚ} (some_ : equity ≠ [])
    (positive : ∀ e ∈ equity, 0 < e) : IsLeast (declines equity) (drawdownSeries equity).2.1 := by
  -- the series has an entry, so that the default of `min` is not used
  obtain ⟨worst, least⟩ : ∃ worst, (drawdowns equity).min? = some worst :=
    Option.ne_none_iff_exists'.mp (mt List.min?_eq_none_iff.mp (drawdowns_ne_nil some_))
  have found : (drawdownSeries equity).2.1 = worst := by
    simp [drawdownSeries, least]
  rw [found]
  rw [drawdowns_eq_declines] at least
  exact isLeast_declines positive least

-- ═══════════════════════════════════════════════════════════════
-- The bars below it
-- ═══════════════════════════════════════════════════════════════

/-- Some earlier point of the curve is above this one. -/
def Under (equity : List ℚ) (j : ℕ) : Prop :=
  ∃ i < j, ∃ x y, equity[i]? = some x ∧ equity[j]? = some y ∧ y < x

/-- `length` bars in a row from `start` on, each of them below some earlier one. -/
def UnderFor (equity : List ℚ) (start length : ℕ) : Prop :=
  start + length ≤ equity.length ∧ ∀ j, start ≤ j → j < start + length → Under equity j

/-- The marks that the counters of `_drawdown_series` go by. -/
def belowMarks (equity : List ℚ) : List Bool :=
  List.zipWith (fun point peak => decide (point < peak)) equity (peaks equity)

theorem length_belowMarks (equity : List ℚ) : (belowMarks equity).length = equity.length := by
  simp [belowMarks]

theorem belowMarks_iff {equity : List ℚ} {j : ℕ} :
    (belowMarks equity)[j]? = some true ↔ Under equity j := by
  rw [belowMarks, List.getElem?_zipWith_eq_some]
  constructor
  · rintro ⟨y, peak, here, found, below⟩
    obtain ⟨i, before, x, reached, above⟩ := (lt_peak_iff here found).mp (of_decide_eq_true below)
    exact ⟨i, before, x, y, reached, here, above⟩
  · rintro ⟨i, before, x, y, reached, here, above⟩
    obtain ⟨inside, -⟩ := List.getElem?_eq_some_iff.mp here
    rw [← length_peaks] at inside
    have found := List.getElem?_eq_getElem inside
    refine ⟨y, _, here, found, decide_eq_true ?_⟩
    exact (lt_peak_iff here found).mpr ⟨i, before, x, reached, above⟩

theorem block_belowMarks_iff {equity : List ℚ} {start length : ℕ} :
    Block (belowMarks equity) start length ↔ UnderFor equity start length := by
  constructor
  · rintro ⟨inside, marked⟩
    rw [length_belowMarks] at inside
    exact ⟨inside, fun j after before => belowMarks_iff.mp (marked j after before)⟩
  · rintro ⟨inside, under⟩
    rw [← length_belowMarks] at inside
    exact ⟨inside, fun j after before => belowMarks_iff.mpr (under j after before)⟩

theorem stretch_eq_countBlock : stretch = countBlock := rfl

/-- The reported duration is the greatest number of bars in a row that are under water. -/
theorem isGreatest_duration (equity : List ℚ) :
    IsGreatest {length | ∃ start, UnderFor equity start length} (drawdownSeries equity).2.2 := by
  have counted := (foldl_countBlock (belowMarks equity)).2
  simp only [blockLengths, block_belowMarks_iff] at counted
  rw [drawdownSeries, runningMax_eq_peaks, stretch_eq_countBlock]
  exact counted

-- ═══════════════════════════════════════════════════════════════
-- The report
-- ═══════════════════════════════════════════════════════════════

/-- A report has the figures of the series. -/
theorem report_drawdown {equity : List ℚ} (several : 2 ≤ equity.length)
    (trades : List TradeRecord) : ∃ report, computePerformanceReport equity trades = .ok report ∧
      report.maxDrawdownPct = |(drawdownSeries equity).2.1| * 100 ∧
      report.maxDrawdownDurationBars = (drawdownSeries equity).2.2 := by
  match equity with
  | [] | [_] => simp at several
  | _ :: _ :: _ => exact ⟨_, rfl, rfl, rfl⟩

/-- The maximum drawdown is the least of `(e_j - e_i) / e_i` over all `i ≤ j`, it is above -1
and at most 0, and it is 0 exactly for a curve that never falls. The duration is the greatest
number of bars in a row that each lie below some earlier one. The report of a curve with
enough points shows both. -/
theorem drawdown_statistics (equity : List ℚ) (some_ : equity ≠ [])
    (positive : ∀ e ∈ equity, 0 < e) :
    IsLeast {d | ∃ (i j : ℕ) (x y : ℚ),
        i ≤ j ∧ equity[i]? = some x ∧ equity[j]? = some y ∧ d = (y - x) / x}
      (drawdownSeries equity).2.1 ∧
    (-1 < (drawdownSeries equity).2.1 ∧ (drawdownSeries equity).2.1 ≤ 0) ∧
    ((drawdownSeries equity).2.1 = 0 ↔ equity.Pairwise (· ≤ ·)) ∧
    IsGreatest {length | ∃ start, UnderFor equity start length} (drawdownSeries equity).2.2 ∧
    (2 ≤ equity.length → ∀ trades, ∃ report,
      computePerformanceReport equity trades = .ok report ∧
      report.maxDrawdownPct = |(drawdownSeries equity).2.1| * 100 ∧
      report.maxDrawdownDurationBars = (drawdownSeries equity).2.2) := by
  have least := isLeast_maxDrawdown some_ positive
  obtain ⟨above, nonpos, none⟩ := least_decline positive least
  exact ⟨least, ⟨above, nonpos⟩, none, isGreatest_duration equity, report_drawdown⟩

/-- Down from 120 to 90, twice below the peak, and up to a new one. -/
theorem drawdown_statistics_recovered :
    (drawdownSeries [100, 120, 90, 110, 130]).2.1 = -1 / 4 ∧
      (drawdownSeries [100, 120, 90, 110, 130]).2.2 = 2 ∧
      IsLeast {d | ∃ (i j : ℕ) (x y : ℚ), i ≤ j ∧
        ([100, 120, 90, 110, 130] : List ℚ)[i]? = some x ∧
        ([100, 120, 90, 110, 130] : List ℚ)[j]? = some y ∧ d = (y - x) / x} (-1 / 4) := by
  have shown : (drawdownSeries [100, 120, 90, 110, 130]).2.1 = -1 / 4 ∧
      (drawdownSeries [100, 120, 90, 110, 130]).2.2 = 2 := by decide +kernel
  refine ⟨shown.1, shown.2, ?_⟩
  rw [← shown.1]
  exact (drawdown_statistics [100, 120, 90, 110, 130] (by simp) (by norm_num)).1

end Binbot.DrawdownStatistics
