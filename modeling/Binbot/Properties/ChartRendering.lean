import Binbot.Dashboard.CandleChart
import Binbot.Machine.Run

/-!
# Incremental rendering

The chart takes its short path by two lengths and two times. That path draws the last bucket
only, so the series is what `setData` would have installed exactly as long as the buckets
before it are the ones that are there already. Several candles between two effects, the cap
of the store and a backfill can each change an earlier bucket and leave those lengths and
times as they are.

Strategy:
1. One effect: what each of its four ways makes of a series that was right.
2. The condition on the state before an effect, and that a right series afterwards needs it.
3. One candle more than last time, with room for it, meets the condition.
4. Runs, by the rule of the machine, and those of a live stream among them.
-/
namespace Binbot.ChartRendering

open Data Machine

-- ═══════════════════════════════════════════════════════════════
-- What should be shown
-- ═══════════════════════════════════════════════════════════════

/-- What `setData` installs. -/
def fullRender (candles : List ChartCandle) (timeframeSeconds : ℚ) : List ChartPoint :=
  (resampleCandles candles timeframeSeconds).map ChartCandle.point

/-- The series holds exactly what the latest effect was to show. -/
def Faithful (tab : ChartTab) : Prop :=
  ∀ shown ∈ tab.given, tab.chart.series = fullRender shown.1 shown.2

instance (tab : ChartTab) : Decidable (Faithful tab) :=
  inferInstanceAs (Decidable (∀ shown ∈ tab.given, _))

/-- The short path is right for these buckets: where it is taken, all buckets before the last
one are shown already. -/
structure Covered (chart : CandleChart) (resampled : List ChartCandle) (timeframeSeconds : ℚ) :
    Prop where
  nothing : resampled = [] → chart.prevRendered = []
  sameBar : chart.isSameBarUpdate resampled timeframeSeconds →
    resampled.dropLast.map ChartCandle.point =
      chart.prevRendered.dropLast.map ChartCandle.point
  newBar : chart.isSingleNewBar resampled timeframeSeconds →
    (∀ prevLast ∈ chart.prevRendered.getLast?, ∀ last ∈ resampled.getLast?,
      prevLast.time < last.time) ∧
    resampled.dropLast.map ChartCandle.point = chart.prevRendered.map ChartCandle.point

instance (chart : CandleChart) (resampled : List ChartCandle) (timeframeSeconds : ℚ) :
    Decidable (Covered chart resampled timeframeSeconds) :=
  decidable_of_iff
    ((resampled = [] → chart.prevRendered = []) ∧
      (chart.isSameBarUpdate resampled timeframeSeconds →
        resampled.dropLast.map ChartCandle.point =
          chart.prevRendered.dropLast.map ChartCandle.point) ∧
      (chart.isSingleNewBar resampled timeframeSeconds →
        (∀ prevLast ∈ chart.prevRendered.getLast?, ∀ last ∈ resampled.getLast?,
          prevLast.time < last.time) ∧
        resampled.dropLast.map ChartCandle.point = chart.prevRendered.map ChartCandle.point))
    ⟨fun ⟨nothing, sameBar, newBar⟩ => ⟨nothing, sameBar, newBar⟩,
      fun ⟨nothing, sameBar, newBar⟩ => ⟨nothing, sameBar, newBar⟩⟩

/-- A single new bucket is not earlier than the last one shown. -/
def Forward (chart : CandleChart) (resampled : List ChartCandle) (timeframeSeconds : ℚ) : Prop :=
  chart.isSingleNewBar resampled timeframeSeconds →
    ∀ prevLast ∈ chart.prevRendered.getLast?, ∀ last ∈ resampled.getLast?,
      prevLast.time ≤ last.time

/-- A condition on the buckets that an effect is about to show. -/
def AtEffects (condition : CandleChart → List ChartCandle → ℚ → Prop) (symbol : Symbol)
    (tab : ChartTab) : ChartAct → Prop
  | .effect timeframeSeconds => condition tab.chart
      (resampleCandles (tab.candlesBySymbol.candles symbol) timeframeSeconds) timeframeSeconds
  | _ => True

instance (condition : CandleChart → List ChartCandle → ℚ → Prop)
    [∀ chart resampled timeframeSeconds, Decidable (condition chart resampled timeframeSeconds)]
    (symbol : Symbol) (tab : ChartTab) :
    (act : ChartAct) → Decidable (AtEffects condition symbol tab act)
  | .effect _ => inferInstanceAs (Decidable (condition _ _ _))
  | .pushCandle _ => .isTrue trivial
  | .candlesBackfill _ _ => .isTrue trivial

-- ═══════════════════════════════════════════════════════════════
-- One effect
-- ═══════════════════════════════════════════════════════════════

section

variable {library : SeriesLibrary} {chart : CandleChart} {candles : List ChartCandle}
variable {timeframeSeconds : ℚ}

theorem effect_nothing (none : resampleCandles candles timeframeSeconds = []) :
    chart.effect timeframeSeconds library candles = chart := by
  simp [CandleChart.effect, none]

theorem effect_some {before : List ChartCandle} {last : ChartCandle}
    (resampled : resampleCandles candles timeframeSeconds = before ++ [last]) :
    chart.effect timeframeSeconds library candles =
      { series :=
          if chart.isSameBarUpdate (before ++ [last]) timeframeSeconds ∨
              chart.isSingleNewBar (before ++ [last]) timeframeSeconds then
            library.update chart.series last.point
          else (before ++ [last]).map ChartCandle.point
        prevRendered := before ++ [last]
        prevTimeframe := timeframeSeconds } := by
  simp only [CandleChart.effect, resampled, List.getLast?_concat]

/-- An update in place. -/
theorem update_sameBar {before : List ChartCandle} {last : ChartCandle}
    (shown : chart.series = chart.prevRendered.map ChartCandle.point)
    (same : chart.isSameBarUpdate (before ++ [last]) timeframeSeconds) :
    library.update chart.series last.point =
      chart.prevRendered.dropLast.map ChartCandle.point ++ [last.point] := by
  obtain ⟨-, -, times⟩ := same
  cases prev : chart.prevRendered using List.reverseRecOn with
  | nil => simp [prev] at times
  | append_singleton earlier prevLast =>
    have time : last.point.time = prevLast.point.time := by
      simpa [prev, ChartCandle.point, eq_comm] using times
    rw [shown, prev, List.map_append, List.map_singleton, library.update_same _ _ _ time,
      List.dropLast_concat]

/-- A new bucket starts no series. -/
theorem prevRendered_ne_nil {before : List ChartCandle} {last : ChartCandle}
    (single : chart.isSingleNewBar (before ++ [last]) timeframeSeconds) :
    ∃ earlier prevLast, chart.prevRendered = earlier ++ [prevLast] := by
  obtain ⟨-, -, first⟩ := single
  cases prev : chart.prevRendered using List.reverseRecOn with
  | nil => simp [prev] at first
  | append_singleton earlier prevLast => exact ⟨earlier, prevLast, rfl⟩

theorem update_newBar {earlier : List ChartCandle} {prevLast last : ChartCandle}
    (shown : chart.series = chart.prevRendered.map ChartCandle.point)
    (prev : chart.prevRendered = earlier ++ [prevLast]) (later : prevLast.time < last.time) :
    library.update chart.series last.point =
      chart.prevRendered.map ChartCandle.point ++ [last.point] := by
  rw [shown, prev, List.map_append, List.map_singleton]
  exact library.update_later _ _ _ later

/-- An effect that is covered shows what a full rendering would. -/
theorem effect_series (library : SeriesLibrary)
    (shown : chart.series = chart.prevRendered.map ChartCandle.point)
    (covered : Covered chart (resampleCandles candles timeframeSeconds) timeframeSeconds) :
    (chart.effect timeframeSeconds library candles).series =
      fullRender candles timeframeSeconds := by
  cases resampled : resampleCandles candles timeframeSeconds using List.reverseRecOn with
  | nil =>
    rw [effect_nothing resampled, shown, covered.nothing resampled, fullRender, resampled]
  | append_singleton before last =>
    rw [resampled] at covered
    rw [effect_some resampled, fullRender, resampled]
    dsimp only
    split
    -- on the short path only the last bucket is drawn
    next short =>
      rcases short with same | single
      · have earlier := covered.sameBar same
        rw [update_sameBar shown same, ← earlier, List.dropLast_concat, List.map_append,
          List.map_singleton]
      · obtain ⟨earlier, prevLast, prev⟩ := prevRendered_ne_nil single
        obtain ⟨later, kept⟩ := covered.newBar single
        rw [update_newBar shown prev (later prevLast (by simp [prev]) last (by simp)), ← kept,
          List.dropLast_concat, List.map_append, List.map_singleton]
    next => rfl

/-- A right series after the effect means that it was covered. -/
theorem covered_of_effect (shown : chart.series = chart.prevRendered.map ChartCandle.point)
    (forward : Forward chart (resampleCandles candles timeframeSeconds) timeframeSeconds)
    (right : (chart.effect timeframeSeconds library candles).series =
      fullRender candles timeframeSeconds) :
    Covered chart (resampleCandles candles timeframeSeconds) timeframeSeconds := by
  cases resampled : resampleCandles candles timeframeSeconds using List.reverseRecOn with
  | nil =>
    rw [effect_nothing resampled, shown, fullRender, resampled, List.map_nil,
      List.map_eq_nil_iff] at right
    -- the old series is right only if it is empty
    constructor
    · exact fun _ => right
    · intro
      simp [right]
    · rintro ⟨-, length, -⟩
      simp at length
  | append_singleton before last =>
    rw [resampled] at forward
    rw [effect_some resampled, fullRender, resampled] at right
    dsimp only at right
    constructor
    · simp
    · intro same
      -- the earlier points are those of before, and they are right
      rw [if_pos (.inl same), update_sameBar shown same, List.map_append,
        List.map_singleton] at right
      rw [List.dropLast_concat]
      exact (List.append_left_inj _).mp right.symm
    · intro single
      obtain ⟨earlier, prevLast, prev⟩ := prevRendered_ne_nil single
      have notEarlier := forward single prevLast (by simp [prev]) last (by simp)
      rw [if_pos (.inr single), List.map_append, List.map_singleton] at right
      rcases notEarlier.lt_or_eq with later | same
      · rw [update_newBar shown prev later] at right
        rw [List.dropLast_concat, prev]
        refine ⟨?_, (List.append_left_inj _).mp (prev ▸ right).symm⟩
        simp [later]
      · -- the point has replaced one, and the series is too short
        have replaced : library.update chart.series last.point =
            earlier.map ChartCandle.point ++ [last.point] := by
          rw [shown, prev, List.map_append, List.map_singleton]
          exact library.update_same _ _ _ same.symm
        have lengths := congrArg List.length (replaced.symm.trans right)
        have one := single.2.1
        simp [prev] at lengths one
        omega

theorem effect_prevRendered :
    (resampleCandles candles timeframeSeconds = [] ∧
      chart.effect timeframeSeconds library candles = chart) ∨
    (chart.effect timeframeSeconds library candles).prevRendered =
      resampleCandles candles timeframeSeconds := by
  cases resampled : resampleCandles candles timeframeSeconds using List.reverseRecOn with
  | nil => exact .inl ⟨rfl, effect_nothing resampled⟩
  | append_singleton before last =>
    rw [effect_some resampled]
    exact .inr rfl

end

-- ═══════════════════════════════════════════════════════════════
-- One candle at a time
-- ═══════════════════════════════════════════════════════════════

/-- Only the last bucket has changed, or one has been opened after it. -/
inductive Grown (shown : List ChartCandle) : List ChartCandle → Prop where
  | inPlace (before : List ChartCandle) (last changed : ChartCandle)
    (was : shown = before ++ [last]) : Grown shown (before ++ [changed])
  | opened (last : ChartCandle) (later : ∀ prevLast ∈ shown.getLast?, prevLast.time < last.time) :
    Grown shown (shown ++ [last])

theorem Grown.covered {chart : CandleChart} {resampled : List ChartCandle} {timeframeSeconds : ℚ}
    (grown : Grown chart.prevRendered resampled) : Covered chart resampled timeframeSeconds := by
  cases grown with
  | inPlace before last changed was =>
    constructor
    · simp
    · intro
      simp [was]
    · rintro ⟨-, length, -⟩
      simp [was] at length
  | opened last later =>
    constructor
    · simp
    · rintro ⟨-, length, -⟩
      simp at length
    · intro
      simpa using later

theorem bucketTime_mono {bucketSeconds : ℚ} (positive : 0 < bucketSeconds) {time later : ℚ}
    (le : time ≤ later) : bucketTime bucketSeconds time ≤ bucketTime bucketSeconds later := by
  have floors : ⌊time / bucketSeconds⌋ ≤ ⌊later / bucketSeconds⌋ :=
    Int.floor_le_floor (div_le_div_of_nonneg_right le positive.le)
  exact mul_le_mul_of_nonneg_right (by exact_mod_cast floors) positive.le

section

variable {bucketSeconds : ℚ} {before candles : List ChartCandle} {last candle : ChartCandle}

/-- A newer state of the last minute changes its bucket only. -/
theorem grown_of_same (same : last.time = candle.time) :
    Grown (resampleCandles (before ++ [last]) bucketSeconds)
      (resampleCandles (before ++ [candle]) bucketSeconds) := by
  by_cases small : bucketSeconds ≤ 60
  · simp only [resampleCandles, small, true_or, if_true]
    exact .inPlace before last candle rfl
  · rw [not_le] at small
    have bucket : (last.rebucket bucketSeconds).time = (candle.rebucket bucketSeconds).time := by
      simp only [ChartCandle.rebucket, same]
    -- both states of the minute go where the buckets before it lead them
    simp only [resampleCandles_eq small, List.map_append, List.map_singleton, mergeRuns_concat]
    cases mergeRuns ChartCandle.time ChartCandle.merge (before.map (·.rebucket bucketSeconds))
      using List.reverseRecOn with
    | nil => exact .inPlace [] _ _ rfl
    | append_singleton merged bar =>
      by_cases joins : bar.time = (candle.rebucket bucketSeconds).time
      · rw [mergeLast_same joins, mergeLast_same (joins.trans bucket.symm)]
        exact .inPlace merged _ _ rfl
      · rw [mergeLast_other joins, mergeLast_other fun old => joins (old.trans bucket)]
        exact .inPlace (merged ++ [bar]) _ _ rfl

/-- The next minute goes into the last bucket or opens one. -/
theorem grown_of_later (later : ∀ last ∈ candles.getLast?, last.time < candle.time) :
    Grown (resampleCandles candles bucketSeconds)
      (resampleCandles (candles ++ [candle]) bucketSeconds) := by
  by_cases small : bucketSeconds ≤ 60
  · simp only [resampleCandles, small, true_or, if_true]
    exact .opened candle later
  · rw [not_le] at small
    simp only [resampleCandles_eq small, List.map_append, List.map_singleton, mergeRuns_concat]
    cases candles using List.reverseRecOn with
    | nil => exact .opened _ (by simp)
    | append_singleton before last =>
      obtain ⟨merged, bar, merged_eq, time⟩ := mergeRuns_last ChartCandle.merges
        (before.map (·.rebucket bucketSeconds)) (last.rebucket bucketSeconds)
      rw [List.map_append, List.map_singleton, merged_eq]
      by_cases joins : bar.time = (candle.rebucket bucketSeconds).time
      · rw [mergeLast_same joins]
        exact .inPlace merged _ _ rfl
      · -- the bucket's time is that of the last minute's bucket
        rw [mergeLast_other joins]
        refine .opened _ fun prevLast shown => ?_
        obtain rfl : bar = prevLast := by simpa using shown
        refine lt_of_le_of_ne ?_ joins
        rw [time]
        exact bucketTime_mono (by linarith) (later last (by simp)).le

end

/-- One candle of the newest minute or of a later one, with room for it, is covered. -/
theorem covered_of_pushCandle {chart : CandleChart} {candlesBySymbol : CandlesBySymbol}
    {candle : ChartCandle} {timeframeSeconds : ℚ}
    (shown : chart.prevRendered =
      resampleCandles (candlesBySymbol.candles candle.symbol) timeframeSeconds)
    (inOrder : ∀ last ∈ (candlesBySymbol.candles candle.symbol).getLast?,
      last.time ≤ candle.time)
    (room : (candlesBySymbol.candles candle.symbol).length < maxCandlesPerSymbol) :
    Covered chart
      (resampleCandles ((candlesBySymbol.pushCandle candle).candles candle.symbol)
        timeframeSeconds) timeframeSeconds := by
  apply Grown.covered
  rw [shown]
  rcases candlesBySymbol.candles_pushCandle_room candle room with
    ⟨before, last, known, same, pushed⟩ | ⟨other, pushed⟩
  · rw [known, pushed]
    exact grown_of_same same
  · rw [pushed]
    refine grown_of_later fun last newest => lt_of_le_of_ne (inOrder last newest) fun same => ?_
    exact other (Option.map_eq_some_iff.mpr ⟨last, newest, same⟩)

section

variable {library : SeriesLibrary} {symbol : Symbol} {tab next : ChartTab} {act : ChartAct}

/-- The series shows what the chart remembers, and that is right. -/
structure UpToDate (tab : ChartTab) : Prop where
  shown : tab.chart.series = tab.chart.prevRendered.map ChartCandle.point
  faithful : Faithful tab

theorem UpToDate.step (held : UpToDate tab) (covered : AtEffects Covered symbol tab act)
    (moved : ChartTab.step library symbol tab act = some next) : UpToDate next := by
  obtain ⟨shown, faithful⟩ := held
  cases act with
  | pushCandle candle =>
    cases moved
    exact ⟨shown, faithful⟩
  | candlesBackfill of_ candles =>
    cases moved
    exact ⟨shown, faithful⟩
  | effect timeframeSeconds =>
    cases moved
    have series := effect_series library shown covered
    constructor
    · rcases effect_prevRendered with ⟨-, same⟩ | remembered
      · dsimp only
        rw [same, shown]
      · dsimp only
        rw [series, remembered, fullRender]
    · rintro _ ⟨⟩
      exact series

theorem UpToDate.covered (held : UpToDate tab) (forward : AtEffects Forward symbol tab act)
    (moved : ChartTab.step library symbol tab act = some next) (faithful : Faithful next) :
    AtEffects Covered symbol tab act := by
  cases act with
  | pushCandle candle => trivial
  | candlesBackfill of_ candles => trivial
  | effect timeframeSeconds =>
    cases moved
    exact covered_of_effect held.shown forward (faithful _ rfl)

theorem upToDate_mounted (store : CandlesBySymbol) (timeframeSeconds : ℚ) :
    UpToDate (.mounted store timeframeSeconds) :=
  ⟨rfl, by simp [Faithful, ChartTab.mounted]⟩

theorem UpToDate.always (held : UpToDate tab) {acts : List ChartAct}
    (meets : Meets (ChartTab.step library symbol) (AtEffects Covered symbol) tab acts) :
    Always (ChartTab.step library symbol) Faithful tab acts :=
  meets.always UpToDate Faithful (fun _ held => held.faithful) (fun _ _ _ => UpToDate.step) _ acts
    held

/-- In every run whose effects are all covered, the series is always what a full rendering
would show. Where no single new bucket is earlier than the last one, no other run is. -/
theorem chart_faithful (library : SeriesLibrary) (symbol : Symbol) (store : CandlesBySymbol)
    (timeframeSeconds : ℚ) (acts : List ChartAct) :
    (Meets (ChartTab.step library symbol) (AtEffects Covered symbol)
        (.mounted store timeframeSeconds) acts →
      Always (ChartTab.step library symbol) Faithful (.mounted store timeframeSeconds) acts) ∧
    (Meets (ChartTab.step library symbol) (AtEffects Forward symbol)
        (.mounted store timeframeSeconds) acts →
      Always (ChartTab.step library symbol) Faithful (.mounted store timeframeSeconds) acts →
      Meets (ChartTab.step library symbol) (AtEffects Covered symbol)
        (.mounted store timeframeSeconds) acts) := by
  have initial := upToDate_mounted store timeframeSeconds
  constructor
  · exact initial.always
  · apply Meets.of_always UpToDate Faithful (fun _ _ _ => UpToDate.step)
      (fun _ _ _ => UpToDate.covered) _ _ acts initial
    intro tab act stuck
    cases act <;> cases stuck

end

-- ═══════════════════════════════════════════════════════════════
-- Runs on a library that refuses earlier points
-- ═══════════════════════════════════════════════════════════════

/-- Only the last point is ever touched. -/
def lastPointLibrary : SeriesLibrary where
  update series point :=
    match series.getLast? with
    | none => [point]
    | some last =>
      if point.time = last.time then series.dropLast ++ [point]
      else if last.time < point.time then series ++ [point]
      else series
  update_same before last point same := by simp [same]
  update_later before last point later := by simp [later, later.ne']

/-- A minute in which the price stays where it is. -/
def flatCandle (time price : ℚ) : ChartCandle where
  symbol := "ES"
  time := time
  open_ := price
  high := price
  low := price
  close := price
  volume := 1

/-- Two minutes between two effects: the first still belongs to the bucket that is shown, and
only the new bucket is drawn. -/
def twoMinutesAtOnce : List ChartAct :=
  [.pushCandle (flatCandle 180 100), .effect 300, .pushCandle (flatCandle 240 105),
    .pushCandle (flatCandle 300 106), .effect 300]

/-- The tab was away for the end of a minute, and the backfill brings it with the next one. -/
def minuteMissed : List ChartAct :=
  [.pushCandle (flatCandle 60 100), .effect 60,
    .candlesBackfill "ES" [flatCandle 60 105, flatCandle 120 106], .effect 60]

/-- The same minutes, each with an effect of its own. -/
def oneMinuteAtATime : List ChartAct :=
  [.pushCandle (flatCandle 180 100), .effect 300, .pushCandle (flatCandle 240 105), .effect 300,
    .pushCandle (flatCandle 300 106), .effect 300, .effect 60]

theorem chart_faithful_one_at_a_time :
    Always (ChartTab.step lastPointLibrary "ES") Faithful (.mounted .empty 300)
      oneMinuteAtATime := by
  have covered : Meets (ChartTab.step lastPointLibrary "ES") (AtEffects Covered "ES")
      (.mounted .empty 300) oneMinuteAtATime := by decide +kernel
  exact (chart_faithful lastPointLibrary "ES" .empty 300 oneMinuteAtATime).1 covered

theorem chart_faithful_counterexample :
    ¬ Always (ChartTab.step lastPointLibrary "ES") Faithful (.mounted .empty 300)
        twoMinutesAtOnce ∧
      ¬ Always (ChartTab.step lastPointLibrary "ES") Faithful (.mounted .empty 60)
        minuteMissed := by
  constructor
  · intro always
    obtain ⟨last, reached, wrong⟩ : ∃ last, run (ChartTab.step lastPointLibrary "ES")
        (.mounted .empty 300) twoMinutesAtOnce = some last ∧ ¬ Faithful last :=
      ⟨_, rfl, by decide +kernel⟩
    exact wrong (always.reached reached)
  · intro always
    obtain ⟨last, reached, wrong⟩ : ∃ last, run (ChartTab.step lastPointLibrary "ES")
        (.mounted .empty 60) minuteMissed = some last ∧ ¬ Faithful last :=
      ⟨_, rfl, by decide +kernel⟩
    exact wrong (always.reached reached)

-- ═══════════════════════════════════════════════════════════════
-- A live stream
-- ═══════════════════════════════════════════════════════════════

section

variable {library : SeriesLibrary} {symbol : Symbol} {chart : CandleChart} {tab : ChartTab}
variable {candle : ChartCandle} {timeframeSeconds : ℚ}

/-- After each candle come effects, each at the timeframe chosen then. -/
def liveActs (stream : List (ChartCandle × List ℚ)) : List ChartAct :=
  stream.flatMap fun entry => .pushCandle entry.1 :: entry.2.map .effect

/-- The candles of the stream that are this symbol's. -/
def liveCandles (symbol : Symbol) (stream : List (ChartCandle × List ℚ)) : List ChartCandle :=
  (stream.map Prod.fst).filter (·.symbol = symbol)

/-- The latest effect was for the candles that the store has now. -/
def Current (symbol : Symbol) (tab : ChartTab) : Prop :=
  tab.chart.prevRendered =
    resampleCandles (tab.candlesBySymbol.candles symbol) tab.chart.prevTimeframe

theorem resampleCandles_eq_nil {candles : List ChartCandle} :
    resampleCandles candles timeframeSeconds = [] ↔ candles = [] := by
  by_cases small : timeframeSeconds ≤ 60
  · simp only [resampleCandles, small, true_or, if_true]
  · rw [resampleCandles_eq (not_le.mp small)]
    cases candles using List.reverseRecOn with
    | nil => simp
    | append_singleton before last =>
      obtain ⟨merged, bar, merged_eq, -⟩ := mergeRuns_last ChartCandle.merges
        (before.map (·.rebucket timeframeSeconds)) (last.rebucket timeframeSeconds)
      rw [List.map_append, List.map_singleton, merged_eq]
      simp

/-- After a change of the timeframe everything is drawn. -/
theorem covered_of_switch {resampled : List ChartCandle}
    (nothing : resampled = [] → chart.prevRendered = [])
    (switched : chart.prevTimeframe ≠ timeframeSeconds) :
    Covered chart resampled timeframeSeconds :=
  ⟨nothing, fun same => absurd same.1 switched, fun single => absurd single.1 switched⟩

theorem covered_of_unchanged : Covered chart chart.prevRendered timeframeSeconds := by
  constructor
  · exact id
  · exact fun _ => rfl
  · rintro ⟨-, length, -⟩
    simp at length

theorem Current.nothing (current : Current symbol tab)
    (room : candle.symbol = symbol →
      (tab.candlesBySymbol.candles symbol).length < maxCandlesPerSymbol)
    (none : (tab.candlesBySymbol.pushCandle candle).candles symbol = []) :
    tab.chart.prevRendered = [] := by
  by_cases own : candle.symbol = symbol
  · -- the candle itself is there
    subst own
    rcases tab.candlesBySymbol.candles_pushCandle_room candle (room rfl) with
      ⟨before, last, -, -, pushed⟩ | ⟨-, pushed⟩
    all_goals simp [pushed] at none
  · rw [CandlesBySymbol.candles_pushCandle_other _ own] at none
    rw [current, none, resampleCandles_eq_nil]

/-- The effect after a candle is covered. -/
theorem Current.covered (current : Current symbol tab)
    (inOrder : candle.symbol = symbol → ∀ last ∈ (tab.candlesBySymbol.candles symbol).getLast?,
      last.time ≤ candle.time)
    (room : candle.symbol = symbol →
      (tab.candlesBySymbol.candles symbol).length < maxCandlesPerSymbol) :
    Covered tab.chart
      (resampleCandles ((tab.candlesBySymbol.pushCandle candle).candles symbol) timeframeSeconds)
      timeframeSeconds := by
  by_cases same : tab.chart.prevTimeframe = timeframeSeconds
  · subst same
    by_cases own : candle.symbol = symbol
    · subst own
      exact covered_of_pushCandle current (inOrder rfl) (room rfl)
    · rw [CandlesBySymbol.candles_pushCandle_other _ own, ← current]
      exact covered_of_unchanged
  · refine covered_of_switch (fun none => ?_) same
    exact current.nothing room (resampleCandles_eq_nil.mp none)

/-- An effect leaves the chart with what the store has. -/
theorem current_effect {candles : List ChartCandle}
    (nothing : candles = [] → chart.prevRendered = []) :
    (chart.effect timeframeSeconds library candles).prevRendered =
      resampleCandles candles (chart.effect timeframeSeconds library candles).prevTimeframe := by
  cases resampled : resampleCandles candles timeframeSeconds using List.reverseRecOn with
  | nil =>
    have none := resampleCandles_eq_nil.mp resampled
    rw [effect_nothing resampled, nothing none, none]
    exact (resampleCandles_eq_nil.mpr rfl).symm
  | append_singleton before last =>
    rw [effect_some resampled]
    exact resampled.symm

/-- A symbol's candles in the store and those to come are in order, there is room for all, and each
to come is rendered. -/
structure Fits (symbol : Symbol) (store : CandlesBySymbol)
    (stream : List (ChartCandle × List ℚ)) : Prop where
  inOrder : (store.candles symbol ++ liveCandles symbol stream).Pairwise (·.time ≤ ·.time)
  room : (store.candles symbol ++ liveCandles symbol stream).length ≤ maxCandlesPerSymbol
  rendered : ∀ entry ∈ stream, entry.1.symbol = symbol → entry.2 ≠ []

theorem Fits.pushed {store : CandlesBySymbol} {stream : List (ChartCandle × List ℚ)}
    {entry : ChartCandle × List ℚ} (fits : Fits symbol store (entry :: stream)) :
    Fits symbol (store.pushCandle entry.1) stream := by
  have rendered : ∀ other ∈ stream, other.1.symbol = symbol → other.2 ≠ [] :=
    fun other later => fits.rendered other (List.mem_cons_of_mem _ later)
  by_cases own : entry.1.symbol = symbol
  · subst own
    have live : liveCandles entry.1.symbol (entry :: stream) =
        entry.1 :: liveCandles entry.1.symbol stream := by simp [liveCandles]
    obtain ⟨inOrder, room, -⟩ := fits
    rw [live] at inOrder room
    have now : (store.candles entry.1.symbol).length < maxCandlesPerSymbol := by
      rw [List.length_append, List.length_cons] at room
      omega
    -- nothing is there afterwards that was not there before or to come
    have sublist : List.Sublist
        ((store.pushCandle entry.1).candles entry.1.symbol ++ liveCandles entry.1.symbol stream)
        (store.candles entry.1.symbol ++ entry.1 :: liveCandles entry.1.symbol stream) := by
      rcases store.candles_pushCandle_room entry.1 now with
        ⟨before, last, known, -, pushed⟩ | ⟨-, pushed⟩
      · rw [known, pushed, List.append_assoc, List.append_assoc]
        exact (List.sublist_cons_self _ _).append_left before
      · rw [pushed, List.append_assoc]
        exact .refl _
    exact ⟨inOrder.sublist sublist, sublist.length_le.trans room, rendered⟩
  · have live : liveCandles symbol (entry :: stream) = liveCandles symbol stream := by
      simp [liveCandles, own]
    obtain ⟨inOrder, room, -⟩ := fits
    rw [live] at inOrder room
    rw [← CandlesBySymbol.candles_pushCandle_other store own] at inOrder room
    exact ⟨inOrder, room, rendered⟩

/-- An effect that finds no new candle is covered. -/
theorem Current.covered_again (current : Current symbol tab) :
    Covered tab.chart (resampleCandles (tab.candlesBySymbol.candles symbol) timeframeSeconds)
      timeframeSeconds := by
  by_cases same : tab.chart.prevTimeframe = timeframeSeconds
  · rw [← same, ← current]
    exact covered_of_unchanged
  · refine covered_of_switch (fun none => ?_) same
    rw [current, resampleCandles_eq_nil.mp none]
    exact resampleCandles_eq_nil.mpr rfl

theorem Current.meets_effects (current : Current symbol tab) (timeframes : List ℚ)
    {acts : List ChartAct}
    (rest : ∀ next : ChartTab, Current symbol next → next.candlesBySymbol = tab.candlesBySymbol →
      Meets (ChartTab.step library symbol) (AtEffects Covered symbol) next acts) :
    Meets (ChartTab.step library symbol) (AtEffects Covered symbol) tab
      (timeframes.map .effect ++ acts) := by
  induction timeframes generalizing tab with
  | nil => exact rest tab current rfl
  | cons timeframe timeframes ih =>
    refine ⟨current.covered_again, ?_⟩
    rintro _ ⟨⟩
    refine ih (current_effect fun none => ?_) rest
    rw [current, none]
    exact resampleCandles_eq_nil.mpr rfl

theorem Current.meets {stream : List (ChartCandle × List ℚ)} (current : Current symbol tab)
    (fits : Fits symbol tab.candlesBySymbol stream) :
    Meets (ChartTab.step library symbol) (AtEffects Covered symbol) tab (liveActs stream) := by
  induction stream generalizing tab with
  | nil => trivial
  | cons entry stream ih =>
    have room : entry.1.symbol = symbol →
        (tab.candlesBySymbol.candles symbol).length < maxCandlesPerSymbol := by
      rintro rfl
      have all := fits.room
      simp [liveCandles] at all
      omega
    have inOrder : entry.1.symbol = symbol →
        ∀ last ∈ (tab.candlesBySymbol.candles symbol).getLast?, last.time ≤ entry.1.time := by
      rintro rfl last newest
      refine (List.pairwise_append.mp fits.inOrder).2.2 last (List.mem_of_getLast? newest) _ ?_
      simp [liveCandles]
    refine ⟨trivial, ?_⟩
    rintro _ ⟨⟩
    cases effects : entry.2 with
    | nil =>
      -- a candle of another symbol, which nothing is rendered for
      have other : entry.1.symbol ≠ symbol := fun own =>
        fits.rendered entry List.mem_cons_self own effects
      refine ih ?_ fits.pushed
      rw [Current, CandlesBySymbol.candles_pushCandle_other _ other]
      exact current
    | cons timeframe timeframes =>
      refine ⟨current.covered inOrder room, ?_⟩
      rintro _ ⟨⟩
      apply Current.meets_effects
      · exact current_effect (current.nothing room)
      intro next now same
      exact ih now (same ▸ fits.pushed)

end

end Binbot.ChartRendering
