import Binbot.Data.Binary64
import Binbot.Feeds.BarAggregator
import Mathlib.Algebra.BigOperators.Group.List.Lemmas
import Mathlib.Algebra.Order.BigOperators.Group.List
import Mathlib.Order.Bounds.Basic
import Mathlib.Tactic.Linarith

/-!
# Bars partition the ticks

Bars are closed late, by the next tick of their symbol, and symbols interleave. A symbol's
bars are still those that grouping its own ticks by bucket gives, whatever the rounding of the
sums. The mean of a bucket lies between its prices in exact arithmetic; rounded, it need not.

Strategy:
1. The bars of a session are the runs of a bucket in the symbol's ticks (`sessionIn_runsOf`)
2. Ordered ticks have one run a bucket (`mergeRuns_ascending`, `mergeRuns_covers`)
3. The bar of a run has its prices, its volume and its mean (`Merged`)
-/
namespace Binbot.BarPartition

open Data BarAggregator

-- ═══════════════════════════════════════════════════════════════
-- One bucket
-- ═══════════════════════════════════════════════════════════════

variable {r : Rounding} {timeframeS : ℤ}

/-- A bar says of the ticks of a bucket what it should. -/
structure Summarises (r : Rounding) (timeframeS : ℤ) (bar : CompletedBar)
    (bucket : List TickEvent) : Prop where
  timeframe : bar.timeframeS = timeframeS
  opens : bucket.head?.map (TickEvent.priceIn r) = some bar.open_
  closes : bucket.getLast?.map (TickEvent.priceIn r) = some bar.close
  highest : IsGreatest {price | price ∈ bucket.map (TickEvent.priceIn r)} bar.high
  lowest : IsLeast {price | price ∈ bucket.map (TickEvent.priceIn r)} bar.low
  volume : bar.volume = r.sum (bucket.map fun tick => r tick.lastSize)
  mean : bar.vwap =
    if bar.volume = 0 then bar.close
    else r.div (r.sum (bucket.map fun tick => r.mul (tick.priceIn r) (r tick.lastSize))) bar.volume
  openWithin : bar.open_ ∈ Set.Icc bar.low bar.high
  closeWithin : bar.close ∈ Set.Icc bar.low bar.high

/-- What the open bar holds after the ticks of a bucket. -/
structure Merged (r : Rounding) (bar : OpenBar) (bucket : List TickEvent) : Prop where
  opens : bucket.head?.map (TickEvent.priceIn r) = some bar.open_
  closes : bucket.getLast?.map (TickEvent.priceIn r) = some bar.close
  highest : IsGreatest {price | price ∈ bucket.map (TickEvent.priceIn r)} bar.high
  lowest : IsLeast {price | price ∈ bucket.map (TickEvent.priceIn r)} bar.low
  volume : bar.volume = r.sum (bucket.map fun tick => r tick.size)
  dollarVolume : bar.dollarVolume =
    r.sum (bucket.map fun tick => r.mul (tick.priceIn r) (r tick.size))

theorem Merged.single (r : Rounding) (timeframeS : ℤ) (tick : TickEvent) :
    Merged r ((TickRun.single tick).bar r timeframeS) [tick] := by
  have taken_ : (TickRun.single tick).bar r timeframeS =
      taken r (openedIn r timeframeS tick) tick := rfl
  rw [taken_]
  constructor <;> simp [taken, openedIn, OpenBar.updateIn, Rounding.sum]

theorem Merged.concat {bar : OpenBar} {bucket : List TickEvent} (merged : Merged r bar bucket)
    (tick : TickEvent) : Merged r (taken r bar tick) (bucket ++ [tick]) := by
  obtain ⟨opens, closes, highest, lowest, volume, dollarVolume⟩ := merged
  have prices : {price | price ∈ (bucket ++ [tick]).map (TickEvent.priceIn r)} =
      insert (tick.priceIn r) {price | price ∈ bucket.map (TickEvent.priceIn r)} := by
    ext price
    simp [or_comm]
  have some_tick : bucket ≠ [] := by
    rintro rfl
    simp at opens
  constructor
  · rw [List.head?_append_of_ne_nil _ some_tick]
    exact opens
  · simp [taken, OpenBar.updateIn]
  · rw [prices, taken, OpenBar.updateIn, max_comm]
    exact highest.insert _
  · rw [prices, taken, OpenBar.updateIn, min_comm]
    exact lowest.insert _
  · simp [taken, OpenBar.updateIn, volume]
  · simp [taken, OpenBar.updateIn, dollarVolume]

theorem bar_merged (r : Rounding) (timeframeS : ℤ) (run : TickRun) :
    Merged r (run.bar r timeframeS) run.ticks := by
  obtain ⟨first, rest⟩ := run
  induction rest using List.reverseRecOn with
  | nil => exact Merged.single r timeframeS first
  | append_singleton before tick ih =>
    have longer : (⟨first, before ++ [tick]⟩ : TickRun) =
        (⟨first, before⟩ : TickRun).merge (TickRun.single tick) := rfl
    rw [longer, TickRun.bar_merge_single]
    exact ih.concat tick

theorem Merged.within {bar : OpenBar} {bucket : List TickEvent} (merged : Merged r bar bucket) :
    ∀ tick ∈ bucket, tick.priceIn r ∈ Set.Icc bar.low bar.high := fun _ held =>
  ⟨merged.lowest.2 (List.mem_map_of_mem held), merged.highest.2 (List.mem_map_of_mem held)⟩

theorem Merged.closeWithin {bar : OpenBar} {bucket : List TickEvent}
    (merged : Merged r bar bucket) : bar.close ∈ Set.Icc bar.low bar.high := by
  obtain ⟨last, is_last, close⟩ := Option.map_eq_some_iff.mp merged.closes
  exact close ▸ merged.within last (List.mem_of_getLast? is_last)

theorem size_nonneg (tick : TickEvent) : 0 ≤ tick.size := by
  unfold TickEvent.size
  split <;> omega

theorem Merged.volume_nonneg {bar : OpenBar} {bucket : List TickEvent}
    (merged : Merged r bar bucket) : 0 ≤ bar.volume := by
  rw [merged.volume]
  apply Rounding.sum_nonneg
  intro size listed
  obtain ⟨tick, -, rfl⟩ := List.mem_map.mp listed
  exact Rounding.nonneg (by exact_mod_cast size_nonneg tick)

theorem Merged.summarises {bar : OpenBar} {bucket : List TickEvent}
    (merged : Merged r bar bucket) (sizes : ∀ tick ∈ bucket, 0 ≤ tick.lastSize) :
    Summarises r timeframeS (finalizeIn r timeframeS bar) bucket := by
  have open_within : bar.open_ ∈ Set.Icc bar.low bar.high := by
    obtain ⟨first, is_first, open_⟩ := Option.map_eq_some_iff.mp merged.opens
    exact open_ ▸ merged.within first (List.mem_of_head? is_first)
  -- Sizes that are not negative are taken as they are.
  have size_eq : ∀ tick ∈ bucket, tick.size = tick.lastSize := by
    intro tick held
    have := sizes tick held
    unfold TickEvent.size
    split <;> omega
  constructor
  · rfl
  · exact merged.opens
  · exact merged.closes
  · exact merged.highest
  · exact merged.lowest
  · exact merged.volume.trans (congrArg r.sum
      (List.map_congr_left fun tick held => by rw [size_eq tick held]))
  · have same : (bucket.map fun tick => r.mul (tick.priceIn r) (r tick.size)) =
        bucket.map fun tick => r.mul (tick.priceIn r) (r tick.lastSize) :=
      List.map_congr_left fun tick held => by rw [size_eq tick held]
    rcases merged.volume_nonneg.eq_or_lt with none_traded | traded
    · simp [finalizeIn, OpenBar.vwapIn, ← none_traded]
    · simp [finalizeIn, OpenBar.vwapIn, traded, traded.ne', merged.dollarVolume, same]
  · exact open_within
  · exact merged.closeWithin

/-! ### The mean -/

/-- A mean weighted by sizes lies where the prices lie. -/
theorem sum_weighted_bounds {bucket : List TickEvent} {low high : ℚ}
    (within : ∀ tick ∈ bucket, tick.priceIn .exact ∈ Set.Icc low high) :
    low * (bucket.map fun tick => (tick.size : ℚ)).sum ≤
        (bucket.map fun tick => tick.priceIn .exact * (tick.size : ℚ)).sum ∧
      (bucket.map fun tick => tick.priceIn .exact * (tick.size : ℚ)).sum ≤
        high * (bucket.map fun tick => (tick.size : ℚ)).sum := by
  induction bucket with
  | nil => simp
  | cons tick rest ih =>
    obtain ⟨above, below⟩ := ih fun other held => within other (by simp [held])
    obtain ⟨least, most⟩ := within tick (by simp)
    have size_nonneg : (0 : ℚ) ≤ tick.size := by exact_mod_cast size_nonneg tick
    have := mul_le_mul_of_nonneg_right least size_nonneg
    have := mul_le_mul_of_nonneg_right most size_nonneg
    simp only [List.map_cons, List.sum_cons, mul_add]
    constructor <;> linarith

theorem Merged.vwapWithin {bar : OpenBar} {bucket : List TickEvent}
    (merged : Merged .exact bar bucket) : bar.vwapIn .exact ∈ Set.Icc bar.low bar.high := by
  rcases merged.volume_nonneg.eq_or_lt with none_traded | traded
  · have untraded : bar.vwapIn .exact = bar.close := if_neg none_traded.not_lt
    rw [untraded]
    exact merged.closeWithin
  · obtain ⟨above, below⟩ := sum_weighted_bounds merged.within
    have volume := merged.volume
    have dollarVolume := merged.dollarVolume
    -- without rounding both sums are the bucket's
    rw [Rounding.exact_sum] at volume dollarVolume
    simp only [Rounding.exact_apply, Rounding.exact_mul] at volume dollarVolume
    rw [← volume, ← dollarVolume] at above below
    have mean : bar.vwapIn .exact = bar.dollarVolume / bar.volume := if_pos traded
    rw [mean, Set.mem_Icc, le_div_iff₀ traded, div_le_iff₀ traded]
    exact ⟨above, below⟩

-- ═══════════════════════════════════════════════════════════════
-- All buckets
-- ═══════════════════════════════════════════════════════════════

/-- The bars of a symbol are its own ticks, bucket by bucket. -/
structure Partition (r : Rounding) (timeframeS : ℤ) (own : List TickEvent)
    (bars : List CompletedBar) : Prop where
  ascending : (bars.map (·.ts)).Pairwise (· < ·)
  buckets : ∀ start,
    start ∈ bars.map (·.ts) ↔ ∃ tick ∈ own, bucketStart timeframeS tick.ts = start
  summarises : ∀ bar ∈ bars,
    Summarises r timeframeS bar (own.filter (bucketStart timeframeS ·.ts = bar.ts))
  whole : bars.flatMap (fun bar => own.filter (bucketStart timeframeS ·.ts = bar.ts)) = own

/-- All ticks of a bucket in one run. -/
theorem mergeAll_single (ticks : List TickEvent) :
    ∀ run, mergeAll TickRun.merge (ticks.map TickRun.single) = some run → run.ticks = ticks := by
  induction ticks using List.reverseRecOn with
  | nil => simp [mergeAll]
  | append_singleton before tick ih =>
    intro run whole
    rw [List.map_append, List.map_singleton, mergeAll_concat] at whole
    cases earlier : mergeAll TickRun.merge (before.map TickRun.single) with
    | none =>
      -- Only the empty bucket has no run.
      have none_before : before = [] := by
        cases before with
        | nil => rfl
        | cons first rest => simp [mergeAll] at earlier
      subst none_before
      obtain rfl : TickRun.single tick = run := by simpa [mergeAll] using whole
      rfl
    | some before_run =>
      obtain rfl : before_run.merge (TickRun.single tick) = run := by simpa [earlier] using whole
      rw [TickRun.merge_ticks, ih before_run earlier]
      rfl

theorem runsOf_partition (r : Rounding) (nonzero : timeframeS ≠ 0) {symbol : Symbol}
    {ticks : List TickEvent}
    (ordered : (ticks.filter (·.symbol = symbol)).Pairwise (·.ts ≤ ·.ts))
    (sizes : ∀ tick ∈ ticks, tick.symbol = symbol → 0 ≤ tick.lastSize) :
    Partition r timeframeS (ticks.filter (·.symbol = symbol))
      ((runsOf timeframeS symbol ticks).map
        fun run => finalizeIn r timeframeS (run.bar r timeframeS)) := by
  have sizes : ∀ tick ∈ ticks.filter (·.symbol = symbol), 0 ≤ tick.lastSize := fun tick own =>
    sizes tick (List.mem_filter.mp own).1 (by simpa using (List.mem_filter.mp own).2)
  unfold runsOf
  generalize ticks.filter (·.symbol = symbol) = own at ordered sizes ⊢
  have by_bucket : own.Pairwise
      (bucketStart timeframeS ·.ts ≤ bucketStart timeframeS ·.ts) :=
    ordered.imp fun earlier => bucketStart_mono nonzero earlier
  have ascending : (own.map TickRun.single).Pairwise
      (TickRun.bucket timeframeS · ≤ TickRun.bucket timeframeS ·) := by
    rw [List.pairwise_map]
    exact by_bucket
  have starts (runs : List TickRun) :
      (runs.map fun run => finalizeIn r timeframeS (run.bar r timeframeS)).map (·.ts) =
        runs.map (TickRun.bucket timeframeS) := by
    rw [List.map_map]
    exact List.map_congr_left fun run _ => run.bar_bucketStart
  have merges := TickRun.merges timeframeS
  have keys := mem_keys_mergeRuns merges (own.map TickRun.single)
  constructor
  · -- Ordered ticks come bucket by bucket, so that no bucket has two runs.
    rw [starts]
    exact mergeRuns_ascending merges ascending
  · intro start
    rw [starts, keys, List.map_map, List.mem_map]
    rfl
  · -- Its run is everything that the bucket has.
    intro bar emitted
    obtain ⟨run, held, rfl⟩ := List.mem_map.mp emitted
    have covers := mergeRuns_covers merges ascending held
    rw [List.filter_map] at covers
    have whole := mergeAll_single _ run covers
    have bucket : (finalizeIn r timeframeS (run.bar r timeframeS)).ts = run.bucket timeframeS :=
      run.bar_bucketStart
    rw [bucket]
    have merged := bar_merged r timeframeS run
    rw [whole] at merged
    exact merged.summarises fun tick held => sizes tick (List.mem_filter.mp held).1
  · -- The buckets in their order make up all of the ticks.
    rw [List.flatMap_map]
    have sorted := mergeRuns_ascending merges ascending
    have covered : ∀ tick ∈ own, bucketStart timeframeS tick.ts ∈
        (mergeRuns (TickRun.bucket timeframeS) TickRun.merge (own.map TickRun.single)).map
          (TickRun.bucket timeframeS) := by
      intro tick held
      rw [keys, List.map_map]
      exact List.mem_map_of_mem (f := TickRun.bucket timeframeS ∘ TickRun.single) held
    have whole := flatMap_filter_key sorted by_bucket covered
    rw [List.flatMap_map] at whole
    have bucket (run : TickRun) : (finalizeIn r timeframeS (run.bar r timeframeS)).ts =
        run.bucket timeframeS := run.bar_bucketStart
    simp only [bucket]
    exact whole

/-- Whatever ticks of other symbols come in between, in whatever order the symbols are flushed at
the end, and however the sums are rounded. In exact arithmetic each mean lies between its lowest
and its highest price. -/
theorem session_partitions_ticks (timeframeS : ℤ) (nonzero : timeframeS ≠ 0)
    (ticks : List TickEvent) (symbols : List Symbol)
    (flushed : ∀ tick ∈ ticks, tick.symbol ∈ symbols) (symbol : Symbol)
    (ordered : (ticks.filter (·.symbol = symbol)).Pairwise (·.ts ≤ ·.ts))
    (sizes : ∀ tick ∈ ticks, tick.symbol = symbol → 0 ≤ tick.lastSize) :
    (∀ r : Rounding,
      Partition r timeframeS (ticks.filter (·.symbol = symbol))
          ((sessionIn r timeframeS ticks symbols).filter (·.symbol = symbol)) ∧
        (sessionIn r timeframeS ticks symbols).filter (·.symbol = symbol) =
          sessionIn r timeframeS (ticks.filter (·.symbol = symbol)) [symbol]) ∧
    ∀ bar ∈ (sessionIn .exact timeframeS ticks symbols).filter (·.symbol = symbol),
      bar.vwap ∈ Set.Icc bar.low bar.high := by
  constructor
  · intro r
    rw [sessionIn_runsOf r timeframeS flushed]
    refine ⟨runsOf_partition r nonzero ordered sizes, ?_⟩
    have own : ∀ tick ∈ ticks.filter (·.symbol = symbol), tick.symbol = symbol := by simp
    rw [sessionIn_own r timeframeS symbol own, runsOf_own]
  · intro bar emitted
    rw [sessionIn_runsOf .exact timeframeS flushed] at emitted
    obtain ⟨run, -, rfl⟩ := List.mem_map.mp emitted
    exact (bar_merged .exact timeframeS run).vwapWithin

/-- Two symbols in turn; the second tick of the first one leaves a minute out. -/
def sampleTicks : List TickEvent :=
  [⟨60000000, "BTCUSDT", 0, 0, 100, 2⟩, ⟨61000000, "ETHUSDT", 9, 11, 0, 0⟩,
    ⟨90000000, "BTCUSDT", 0, 0, 110, 1⟩, ⟨180000000, "BTCUSDT", 0, 0, 90, 0⟩]

theorem sampleTicks_partitioned :
    Partition .binary64 60 (sampleTicks.filter (·.symbol = "BTCUSDT"))
        ((sessionIn .binary64 60 sampleTicks ["ETHUSDT", "BTCUSDT"]).filter
          (·.symbol = "BTCUSDT")) ∧
      (sessionIn .binary64 60 sampleTicks ["ETHUSDT", "BTCUSDT"]).filter (·.symbol = "BTCUSDT") =
        sessionIn .binary64 60 (sampleTicks.filter (·.symbol = "BTCUSDT")) ["BTCUSDT"] :=
  (session_partitions_ticks 60 (by decide) sampleTicks ["ETHUSDT", "BTCUSDT"] (by decide) "BTCUSDT"
    (by decide) (by decide)).1 .binary64

/-- One trade of three at the double 0.1: their mean is rounded to a number above 0.1. -/
theorem mean_above_high_in_doubles :
    ¬ ∀ (timeframeS : ℤ) (ticks : List TickEvent) (symbols : List Symbol), timeframeS ≠ 0 →
      (∀ tick ∈ ticks, tick.symbol ∈ symbols) → ticks.Pairwise (·.ts ≤ ·.ts) →
      (∀ tick ∈ ticks, 0 ≤ tick.lastSize) →
      ∀ bar ∈ sessionIn .binary64 timeframeS ticks symbols,
        bar.vwap ∈ Set.Icc bar.low bar.high := by
  intro claim
  have within := claim 60 [⟨60000000, "BTCUSDT", 0, 0, Rounding.binary64 (1 / 10), 3⟩] ["BTCUSDT"]
    (by decide) (by decide) (by simp) (by simp)
  have above : ∀ bar ∈ sessionIn .binary64 60
      [⟨60000000, "BTCUSDT", 0, 0, Rounding.binary64 (1 / 10), 3⟩] ["BTCUSDT"],
      bar.high < bar.vwap := by
    decide +kernel
  have some_ : sessionIn .binary64 60
      [⟨60000000, "BTCUSDT", 0, 0, Rounding.binary64 (1 / 10), 3⟩] ["BTCUSDT"] ≠ [] := by
    decide +kernel
  obtain ⟨bar, emitted⟩ := List.exists_mem_of_ne_nil _ some_
  exact absurd (within bar emitted).2 (not_le.mpr (above bar emitted))

end Binbot.BarPartition
