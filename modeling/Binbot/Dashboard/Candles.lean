import Binbot.Data.MergeRuns
import Binbot.Server.CandleCache
import Mathlib.Data.Rat.Floor

/-!
# Candles of a timeframe (`dashboard/lib/candles.ts`)

The server sends one-minute candles only; a chart of any other timeframe resamples them in
the browser.
-/
namespace Binbot

open Data

/-- A candle as the browser has it. -/
@[ext]
structure ChartCandle where
  symbol : Symbol
  time : ℚ
  open_ : ℚ
  high : ℚ
  low : ℚ
  close : ℚ
  volume : ℚ
  deriving DecidableEq

/-- The server sends a candle with its symbol. -/
def ChartCandle.ofCandle (symbol : Symbol) (candle : Candle) : ChartCandle where
  symbol := symbol
  time := candle.time
  open_ := candle.open_
  high := candle.high
  low := candle.low
  close := candle.close
  volume := candle.volume

def ChartCandle.ofBar (event : BarEvent) : ChartCandle := .ofCandle event.symbol (.ofBar event)

/-- `Math.floor(candle.time / bucketSeconds) * bucketSeconds`. -/
def bucketTime (bucketSeconds time : ℚ) : ℚ := ⌊time / bucketSeconds⌋ * bucketSeconds

/-- One turn of the loop: the candle goes into the last bucket or opens one. -/
def pushCandle (bucketSeconds : ℚ) (buckets : List ChartCandle) (candle : ChartCandle) :
    List ChartCandle :=
  let bucketTime := bucketTime bucketSeconds candle.time
  let opened := { candle with time := bucketTime }
  match buckets.getLast? with
  | none => buckets ++ [opened]
  | some last =>
    if last.time = bucketTime then
      buckets.dropLast ++
        [{ last with
            high := max last.high candle.high
            low := min last.low candle.low
            close := candle.close
            volume := last.volume + candle.volume }]
    else
      buckets ++ [opened]

def resampleCandles (candles : List ChartCandle) (bucketSeconds : ℚ) : List ChartCandle :=
  if bucketSeconds ≤ 60 ∨ candles = [] then candles
  else candles.foldl (pushCandle bucketSeconds) []

/-! ### Resampling merges runs -/

namespace ChartCandle

def merge (candle later : ChartCandle) : ChartCandle :=
  { candle with
    high := max candle.high later.high
    low := min candle.low later.low
    close := later.close
    volume := candle.volume + later.volume }

def rebucket (bucketSeconds : ℚ) (candle : ChartCandle) : ChartCandle :=
  { candle with time := bucketTime bucketSeconds candle.time }

theorem merges : Merges ChartCandle.time merge where
  keeps _ := rfl
  assoc _ _ := by simp [merge, max_assoc, min_assoc, add_assoc]

theorem rebucket_merge (bucketSeconds : ℚ) (candle later : ChartCandle) :
    (candle.merge later).rebucket bucketSeconds =
      (candle.rebucket bucketSeconds).merge (later.rebucket bucketSeconds) := rfl

end ChartCandle

theorem pushCandle_eq (bucketSeconds : ℚ) (buckets : List ChartCandle) (candle : ChartCandle) :
    pushCandle bucketSeconds buckets candle =
      mergeLast ChartCandle.time ChartCandle.merge buckets (candle.rebucket bucketSeconds) := by
  cases buckets using List.reverseRecOn with
  | nil => rfl
  | append_singleton before last =>
    simp [pushCandle, mergeLast, ChartCandle.rebucket, ChartCandle.merge]

/-- From the second minute on, resampling is merging by the bucket's time. -/
theorem resampleCandles_eq {bucketSeconds : ℚ} (large : 60 < bucketSeconds)
    (candles : List ChartCandle) :
    resampleCandles candles bucketSeconds =
      mergeRuns ChartCandle.time ChartCandle.merge
        (candles.map (ChartCandle.rebucket bucketSeconds)) := by
  rw [resampleCandles]
  split
  case isTrue same =>
    have empty := same.resolve_left large.not_ge
    simp [empty]
  case isFalse =>
    rw [mergeRuns, List.foldl_map]
    simp only [← pushCandle_eq]

/-- A bucket lies in the bucket of any multiple of its length. -/
theorem bucketTime_bucketTime {bucketSeconds larger : ℚ} (positive : 0 < bucketSeconds)
    (larger_positive : 0 < larger) (divides : ∃ n : ℤ, larger = n * bucketSeconds) (time : ℚ) :
    bucketTime larger (bucketTime bucketSeconds time) = bucketTime larger time := by
  obtain ⟨n, rfl⟩ := divides
  have n_nonneg : 0 ≤ n := by
    have : (0 : ℚ) < n := pos_of_mul_pos_left larger_positive positive.le
    exact_mod_cast this.le
  have fine : bucketTime bucketSeconds time / (n * bucketSeconds) =
      (⌊time / bucketSeconds⌋ : ℚ) / n := by
    rw [bucketTime, mul_div_mul_right _ _ positive.ne']
  have coarse : time / (n * bucketSeconds) = time / bucketSeconds / n := by
    rw [mul_comm, div_mul_eq_div_div]
  -- Whole buckets are counted either way, and a floor of a quotient of a floor is one floor.
  have same : ⌊bucketTime bucketSeconds time / (n * bucketSeconds)⌋ =
      ⌊time / (n * bucketSeconds)⌋ := by
    rw [fine, coarse, Int.floor_div_cast_of_nonneg n_nonneg,
      Int.floor_div_cast_of_nonneg n_nonneg, Int.floor_intCast]
  rw [bucketTime, same, ← bucketTime]

end Binbot
