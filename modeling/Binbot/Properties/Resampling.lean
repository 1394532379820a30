import Binbot.Dashboard.Candles
import Binbot.Feeds.BarAggregator

/-!
# Resampling commutes with aggregation

The server buckets ticks into one-minute bars, the browser buckets these candles again. Both
merge neighbours of one bucket, so the stages in between leave no trace: the induction is the
library's (`mergeRuns_mergeRuns`), and what is left is arithmetic of buckets.
-/
namespace Binbot.Resampling

open Data BarAggregator

theorem resample_resample {bucketSeconds larger : ℚ} (positive : 0 < bucketSeconds)
    (large : 60 < larger) (divides : ∃ n : ℤ, larger = n * bucketSeconds)
    (candles : List ChartCandle) :
    resampleCandles (resampleCandles candles bucketSeconds) larger =
      resampleCandles candles larger := by
  rcases le_or_gt bucketSeconds 60 with minute | longer
  · -- Nothing is resampled to a minute or less.
    rw [resampleCandles.eq_def candles bucketSeconds, if_pos (.inl minute)]
  · have rebuckets (candle : ChartCandle) :
        (candle.rebucket bucketSeconds).rebucket larger = candle.rebucket larger := by
      simp only [ChartCandle.rebucket]
      rw [bucketTime_bucketTime positive (by linarith) divides]
    rw [resampleCandles_eq large, resampleCandles_eq longer, resampleCandles_eq large,
      mergeRuns_mergeRuns ChartCandle.merges, List.map_map]
    · exact congrArg _ (List.map_congr_left fun candle _ => rebuckets candle)
    · intro candle later same
      simp only [ChartCandle.rebucket, same]
    · intro candle later _
      exact ChartCandle.rebucket_merge larger candle later

/-- The candle the browser gets of a bar, open or completed. -/
def candleOf (timeframeS : ℤ) (bar : OpenBar) : ChartCandle :=
  .ofBar (finalize timeframeS bar).toBarEvent

theorem candleOf_merge (timeframeS : ℤ) (bar later : OpenBar) :
    candleOf timeframeS (bar.merge later) =
      (candleOf timeframeS bar).merge (candleOf timeframeS later) := rfl

/-- Bars begin at whole seconds. -/
theorem seconds_bucketStart (timeframeS : ℤ) (ts : Timestamp) :
    (bucketStart timeframeS ts).seconds = ⌊(ts : ℚ) / 1000000 / timeframeS⌋ * timeframeS :=
  Int.mul_tdiv_cancel _ (by decide)

theorem candleOf_ofTick_time (timeframeS : ℤ) (tick : TickEvent) :
    (candleOf timeframeS (.ofTick timeframeS tick)).time =
      bucketTime timeframeS ((tick.ts : ℚ) / 1000000) := by
  have seconds := seconds_bucketStart timeframeS tick.ts
  show (((bucketStart timeframeS tick.ts).seconds : ℤ) : ℚ) = _
  rw [seconds, bucketTime]
  push_cast
  rfl

/-- Bars of whole seconds are apart if and only if their candles are. -/
theorem candleOf_time_eq {timeframeS : ℤ} {bar later : OpenBar}
    (whole : 1000000 ∣ bar.bucketStart) (later_whole : 1000000 ∣ later.bucketStart) :
    bar.bucketStart = later.bucketStart ↔
      (candleOf timeframeS bar).time = (candleOf timeframeS later).time := by
  obtain ⟨start, known⟩ := whole
  obtain ⟨later_start, later_known⟩ := later_whole
  have seconds (bar : OpenBar) (start : ℤ) (known : bar.bucketStart = 1000000 * start) :
      (candleOf timeframeS bar).time = start := by
    show ((Timestamp.seconds bar.bucketStart : ℤ) : ℚ) = start
    rw [known, Timestamp.seconds, Int.mul_tdiv_cancel_left _ (by decide)]
  rw [seconds bar start known, seconds later later_start later_known, known, later_known,
    Int.cast_inj, Int.mul_eq_mul_left_iff (by decide)]

/-- The candles of a symbol's bars are its ticks' candles, merged by their time. -/
theorem map_candleOf_barsOf (timeframeS : ℤ) (symbol : Symbol) (ticks : List TickEvent) :
    (barsOf timeframeS symbol ticks).map (candleOf timeframeS) =
      mergeRuns ChartCandle.time ChartCandle.merge
        (((ticks.filter (·.symbol = symbol)).map (.ofTick timeframeS)).map
          (candleOf timeframeS)) := by
  apply map_mergeRuns (p := fun bar => (1000000 : ℤ) ∣ bar.bucketStart)
  · intro bar later whole _
    exact whole
  · exact candleOf_time_eq
  · intro bar later _
    exact candleOf_merge timeframeS bar later
  · intro bar held
    obtain ⟨tick, -, rfl⟩ := List.mem_map.mp held
    exact Int.dvd_mul_left _ _

/-- A tick's one-minute candle lies in the tick's larger bucket. -/
theorem rebucket_candleOf {n : ℤ} (positive : 0 < n) (tick : TickEvent) :
    (candleOf 60 (.ofTick 60 tick)).rebucket ((60 * n : ℤ) : ℚ) =
      candleOf (60 * n) (.ofTick (60 * n) tick) := by
  have larger : (0 : ℚ) < ((60 * n : ℤ) : ℚ) := by
    exact_mod_cast mul_pos (by decide : (0 : ℤ) < 60) positive
  have divides : ∃ m : ℤ, ((60 * n : ℤ) : ℚ) = m * (60 : ℤ) := ⟨n, by push_cast; ring⟩
  have times : ((candleOf 60 (.ofTick 60 tick)).rebucket ((60 * n : ℤ) : ℚ)).time =
      (candleOf (60 * n) (.ofTick (60 * n) tick)).time := by
    rw [ChartCandle.rebucket, candleOf_ofTick_time, candleOf_ofTick_time,
      bucketTime_bucketTime (by norm_num) larger divides]
  exact ChartCandle.ext rfl times rfl rfl rfl rfl rfl

theorem resample_session {n : ℤ} (large : 60 < 60 * n) {ticks : List TickEvent}
    {symbols : List Symbol} (flushed : ∀ tick ∈ ticks, tick.symbol ∈ symbols) (symbol : Symbol) :
    resampleCandles
        (((session 60 ticks symbols).filter (·.symbol = symbol)).map (.ofBar ·.toBarEvent))
        ((60 * n : ℤ) : ℚ) =
      ((session (60 * n) ticks symbols).filter (·.symbol = symbol)).map (.ofBar ·.toBarEvent) := by
  have candles (timeframeS : ℤ) :
      ((session timeframeS ticks symbols).filter (·.symbol = symbol)).map (.ofBar ·.toBarEvent) =
        (barsOf timeframeS symbol ticks).map (candleOf timeframeS) := by
    rw [session_barsOf timeframeS flushed, List.map_map]
    rfl
  -- Both sides are one merge of the ticks' own candles, by the larger bucket.
  rw [candles, candles, map_candleOf_barsOf, map_candleOf_barsOf,
    resampleCandles_eq (by exact_mod_cast large), mergeRuns_mergeRuns ChartCandle.merges]
  · rw [List.map_map, List.map_map, List.map_map]
    refine congrArg _ (List.map_congr_left fun tick _ => ?_)
    exact rebucket_candleOf (by omega) tick
  · intro candle later same
    simp only [ChartCandle.rebucket, same]
  · intro candle later _
    exact ChartCandle.rebucket_merge _ candle later

theorem resampling_commutes :
    (∀ (candles : List ChartCandle) (bucketSeconds larger : ℚ), 60 < bucketSeconds →
      60 < larger → (∃ n : ℤ, larger = n * bucketSeconds) →
      resampleCandles (resampleCandles candles bucketSeconds) larger =
        resampleCandles candles larger) ∧
    ∀ (ticks : List TickEvent) (symbols : List Symbol),
      (∀ tick ∈ ticks, tick.symbol ∈ symbols) → ∀ (symbol : Symbol) (n : ℤ), 60 < 60 * n →
      resampleCandles
          (((session 60 ticks symbols).filter (·.symbol = symbol)).map (.ofBar ·.toBarEvent))
          ((60 * n : ℤ) : ℚ) =
        ((session (60 * n) ticks symbols).filter (·.symbol = symbol)).map
          (.ofBar ·.toBarEvent) := by
  refine ⟨fun candles bucketSeconds larger longer large divides => ?_,
    fun ticks symbols flushed symbol n large => ?_⟩
  · exact resample_resample (by linarith) large divides candles
  · exact resample_session large flushed symbol

/-- Three minutes, out of order. -/
def shuffledCandles : List ChartCandle :=
  [⟨"BTCUSDT", 60, 10, 12, 9, 11, 3⟩, ⟨"BTCUSDT", 240, 8, 9, 7, 8, 1⟩,
    ⟨"BTCUSDT", 180, 11, 11, 8, 8, 2⟩]

def minuteTicks : List TickEvent :=
  [⟨60000000, "BTCUSDT", 0, 0, 100, 2⟩, ⟨61000000, "ETHUSDT", 9, 11, 0, 0⟩,
    ⟨150000000, "BTCUSDT", 0, 0, 110, 1⟩, ⟨300000000, "BTCUSDT", 0, 0, 90, 4⟩]

theorem shuffledCandles_commute :
    resampleCandles (resampleCandles shuffledCandles 120) 240 =
        resampleCandles shuffledCandles 240 ∧
      resampleCandles
          (((session 60 minuteTicks ["BTCUSDT", "ETHUSDT"]).filter (·.symbol = "BTCUSDT")).map
            (.ofBar ·.toBarEvent))
          ((60 * 5 : ℤ) : ℚ) =
        ((session (60 * 5) minuteTicks ["BTCUSDT", "ETHUSDT"]).filter (·.symbol = "BTCUSDT")).map
          (.ofBar ·.toBarEvent) :=
  ⟨resampling_commutes.1 shuffledCandles 120 240 (by norm_num) (by norm_num) ⟨2, by norm_num⟩,
    resampling_commutes.2 minuteTicks ["BTCUSDT", "ETHUSDT"] (by decide) "BTCUSDT" 5 (by decide)⟩

end Binbot.Resampling
