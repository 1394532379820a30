import Binbot.Dashboard.Candles
import Binbot.Data.Dict
import Mathlib.Data.List.DropRight

/-!
# The candle chart (`dashboard/components/dashboard/candlestick-chart.tsx`)

The store keeps the minute candles of every symbol. A chart is given those of one symbol, and
each of its effects resamples them and brings the series up to date: by one call of `update`
where only the newest bucket seems to be new, and by `setData` otherwise.
-/
namespace Binbot

open Data

/-- What the series holds of a bucket. -/
structure ChartPoint where
  time : ℚ
  open_ : ℚ
  high : ℚ
  low : ℚ
  close : ℚ
  deriving DecidableEq

def ChartCandle.point (candle : ChartCandle) : ChartPoint where
  time := candle.time
  open_ := candle.open_
  high := candle.high
  low := candle.low
  close := candle.close

/-- What the component relies on of `update`: a point takes the place of the last one if it
has its time, and follows it if it is later. `setData` replaces the series. -/
structure SeriesLibrary where
  update : List ChartPoint → ChartPoint → List ChartPoint
  update_same : ∀ before last point, point.time = last.time →
    update (before ++ [last]) point = before ++ [point]
  update_later : ∀ before last point, last.time < point.time →
    update (before ++ [last]) point = before ++ [last] ++ [point]

/-! ### The store (`dashboard/store/useTradingStore.ts`) -/

/-- `MAX_CANDLES_PER_SYMBOL`. -/
def maxCandlesPerSymbol : ℕ := 1600

abbrev CandlesBySymbol := Dict Symbol (List ChartCandle)

namespace CandlesBySymbol

variable (candlesBySymbol : CandlesBySymbol)

def candles (symbol : Symbol) : List ChartCandle := candlesBySymbol.getD symbol []

/-- `pushCandle`. -/
def pushCandle (candle : ChartCandle) : CandlesBySymbol :=
  let existing := candlesBySymbol.candles candle.symbol
  let updated :=
    if existing.getLast?.map (·.time) = some candle.time then existing.dropLast ++ [candle]
    else (existing ++ [candle]).rtake maxCandlesPerSymbol
  candlesBySymbol.set candle.symbol updated

theorem candles_pushCandle (candle : ChartCandle) :
    (candlesBySymbol.pushCandle candle).candles candle.symbol =
      if (candlesBySymbol.candles candle.symbol).getLast?.map (·.time) = some candle.time then
        (candlesBySymbol.candles candle.symbol).dropLast ++ [candle]
      else (candlesBySymbol.candles candle.symbol ++ [candle]).rtake maxCandlesPerSymbol := by
  simp [pushCandle, candles, Dict.getD]

theorem candles_pushCandle_other {candle : ChartCandle} {symbol : Symbol}
    (other : candle.symbol ≠ symbol) :
    (candlesBySymbol.pushCandle candle).candles symbol = candlesBySymbol.candles symbol := by
  simp only [pushCandle, candles, Dict.getD, Dict.get?_set_ne _ _ other.symm]

/-- With room for it, a candle takes the place of the last one of its minute or follows it. -/
theorem candles_pushCandle_room (candle : ChartCandle)
    (room : (candlesBySymbol.candles candle.symbol).length < maxCandlesPerSymbol) :
    (∃ before last, candlesBySymbol.candles candle.symbol = before ++ [last] ∧
      last.time = candle.time ∧
      (candlesBySymbol.pushCandle candle).candles candle.symbol = before ++ [candle]) ∨
    ((candlesBySymbol.candles candle.symbol).getLast?.map (·.time) ≠ some candle.time ∧
      (candlesBySymbol.pushCandle candle).candles candle.symbol =
        candlesBySymbol.candles candle.symbol ++ [candle]) := by
  rw [candles_pushCandle]
  split
  next same =>
    obtain ⟨last, newest, time⟩ := Option.map_eq_some_iff.mp same
    exact .inl ⟨_, last, (List.dropLast_append_getLast? last newest).symm, time, rfl⟩
  next other =>
    refine .inr ⟨other, ?_⟩
    rw [List.rtake_eq_reverse_take_reverse, List.take_of_length_le, List.reverse_reverse]
    simpa [Nat.succ_le_iff] using room

/-- `setCandlesBackfill`. -/
def setCandlesBackfill (symbol : Symbol) (candles : List ChartCandle) : CandlesBySymbol :=
  candlesBySymbol.set symbol (candles.rtake maxCandlesPerSymbol)

end CandlesBySymbol

/-! ### The effect -/

structure CandleChart where
  series : List ChartPoint := []
  prevRendered : List ChartCandle := []
  prevTimeframe : ℚ
  deriving DecidableEq

namespace CandleChart

variable (chart : CandleChart) (resampled : List ChartCandle) (timeframeSeconds : ℚ)

/-- The newest bucket was updated in place. -/
def isSameBarUpdate : Prop :=
  chart.prevTimeframe = timeframeSeconds ∧ resampled.length = chart.prevRendered.length ∧
    chart.prevRendered.getLast?.map (·.time) = resampled.getLast?.map (·.time)

/-- Exactly one new bucket was appended. -/
def isSingleNewBar : Prop :=
  chart.prevTimeframe = timeframeSeconds ∧ resampled.length = chart.prevRendered.length + 1 ∧
    resampled.head?.map (·.time) = chart.prevRendered.head?.map (·.time)

instance : Decidable (chart.isSameBarUpdate resampled timeframeSeconds) :=
  inferInstanceAs (Decidable (_ ∧ _ ∧ _))

instance : Decidable (chart.isSingleNewBar resampled timeframeSeconds) :=
  inferInstanceAs (Decidable (_ ∧ _ ∧ _))

/-- What `useEffect` does when the candles or the timeframe have changed. -/
def effect (library : SeriesLibrary) (candles : List ChartCandle) : CandleChart :=
  let resampled := resampleCandles candles timeframeSeconds
  match resampled.getLast? with
  | none => chart
  | some last =>
    { series :=
        if chart.isSameBarUpdate resampled timeframeSeconds ∨
            chart.isSingleNewBar resampled timeframeSeconds then
          library.update chart.series last.point
        else resampled.map ChartCandle.point
      prevRendered := resampled
      prevTimeframe := timeframeSeconds }

end CandleChart

/-! ### A tab with a chart -/

structure ChartTab where
  candlesBySymbol : CandlesBySymbol
  chart : CandleChart
  /-- The candles and the timeframe that the latest effect was for. -/
  given : Option (List ChartCandle × ℚ) := none

inductive ChartAct where
  | pushCandle (candle : ChartCandle)
  | candlesBackfill (symbol : Symbol) (candles : List ChartCandle)
  /-- The chart is rendered, after any number of changes of the store. -/
  | effect (timeframeSeconds : ℚ)

namespace ChartTab

def step (library : SeriesLibrary) (symbol : Symbol) (tab : ChartTab) : ChartAct → Option ChartTab
  | .pushCandle candle =>
    some { tab with candlesBySymbol := tab.candlesBySymbol.pushCandle candle }
  | .candlesBackfill of_ candles =>
    some { tab with candlesBySymbol := tab.candlesBySymbol.setCandlesBackfill of_ candles }
  | .effect timeframeSeconds =>
    let candles := tab.candlesBySymbol.candles symbol
    some
      { tab with
        chart := tab.chart.effect timeframeSeconds library candles
        given := some (candles, timeframeSeconds) }

/-- The chart has just been mounted. -/
def mounted (candlesBySymbol : CandlesBySymbol) (timeframeSeconds : ℚ) : ChartTab where
  candlesBySymbol := candlesBySymbol
  chart := { prevTimeframe := timeframeSeconds }

end ChartTab

end Binbot
