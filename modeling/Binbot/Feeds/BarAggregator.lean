import Binbot.Core.Events
import Binbot.Data.Dict
import Binbot.Data.MergeRuns
import Binbot.Data.Rounding
import Mathlib.Algebra.Order.Floor.Ring
import Mathlib.Data.Rat.Floor
import Mathlib.Tactic.Ring

/-!
# Bars from ticks (`data/bar_aggregator.py`)

Every symbol has at most one open bar. It takes the ticks of its bucket; the first tick of
another bucket closes it, and so does a flush.
-/
namespace Binbot

open Data

/-- The middle of the book, where there is one. -/
def TickEvent.midIn (r : Rounding) (tick : TickEvent) : ℚ :=
  if 0 < tick.bid ∧ 0 < tick.ask then r.div (r.add tick.bid tick.ask) 2 else tick.last

def TickEvent.priceIn (r : Rounding) (tick : TickEvent) : ℚ :=
  if 0 < tick.last then tick.last else tick.midIn r

def TickEvent.size (tick : TickEvent) : ℤ := if 0 < tick.lastSize then tick.lastSize else 0

structure OpenBar where
  bucketStart : Timestamp
  symbol : Symbol
  open_ : ℚ
  high : ℚ
  low : ℚ
  close : ℚ
  volume : ℚ := 0
  dollarVolume : ℚ := 0
  deriving DecidableEq

namespace OpenBar

def updateIn (r : Rounding) (bar : OpenBar) (price size : ℚ) : OpenBar :=
  { bar with
    high := max bar.high price
    low := min bar.low price
    close := price
    volume := r.add bar.volume size
    dollarVolume := r.add bar.dollarVolume (r.mul price size) }

def vwapIn (r : Rounding) (bar : OpenBar) : ℚ :=
  if 0 < bar.volume then r.div bar.dollarVolume bar.volume else bar.close

end OpenBar

/-- A bar event with the fields that only the aggregator fills. -/
structure CompletedBar extends BarEvent where
  timeframeS : ℤ
  vwap : ℚ
  deriving DecidableEq

structure BarAggregator where
  timeframeS : ℤ
  openBars : Dict Symbol OpenBar := .empty

namespace BarAggregator

/-- `floor(epoch / timeframe_s) * timeframe_s`, in microseconds. -/
def bucketStart (timeframeS : ℤ) (ts : Timestamp) : Timestamp :=
  ⌊(ts : ℚ) / 1000000 / timeframeS⌋ * timeframeS * 1000000

def finalizeIn (r : Rounding) (timeframeS : ℤ) (bar : OpenBar) : CompletedBar where
  ts := bar.bucketStart
  symbol := bar.symbol
  timeframeS := timeframeS
  open_ := bar.open_
  high := bar.high
  low := bar.low
  close := bar.close
  volume := bar.volume
  vwap := bar.vwapIn r

/-- The bar a tick opens. -/
def openedIn (r : Rounding) (timeframeS : ℤ) (tick : TickEvent) : OpenBar where
  bucketStart := bucketStart timeframeS tick.ts
  symbol := tick.symbol
  open_ := tick.priceIn r
  high := tick.priceIn r
  low := tick.priceIn r
  close := tick.priceIn r

/-- The open bar takes a tick. -/
def taken (r : Rounding) (bar : OpenBar) (tick : TickEvent) : OpenBar :=
  bar.updateIn r (tick.priceIn r) (r tick.size)

def onTickIn (r : Rounding) (m : BarAggregator) (tick : TickEvent) :
    BarAggregator × Option CompletedBar :=
  let keep (bar : OpenBar) : BarAggregator :=
    { m with openBars := m.openBars.set tick.symbol (taken r bar tick) }
  match m.openBars.get? tick.symbol with
  | none => (keep (openedIn r m.timeframeS tick), none)
  | some bar =>
    if bar.bucketStart ≠ bucketStart m.timeframeS tick.ts then
      (keep (openedIn r m.timeframeS tick), some (finalizeIn r m.timeframeS bar))
    else
      (keep bar, none)

/-- Closes the open bar, at a session's end for example. -/
def flushIn (r : Rounding) (m : BarAggregator) (symbol : Symbol) :
    BarAggregator × Option CompletedBar :=
  ({ m with openBars := m.openBars.erase symbol },
    (m.openBars.get? symbol).map (finalizeIn r m.timeframeS))

/-- The ticks of a session, and the bars they complete. -/
def onTicksIn (r : Rounding) (timeframeS : ℤ) (ticks : List TickEvent) :
    BarAggregator × List CompletedBar :=
  ticks.foldl
    (fun session tick =>
      ((session.1.onTickIn r tick).1, session.2 ++ (session.1.onTickIn r tick).2.toList))
    ({ timeframeS := timeframeS }, [])

def flushAllIn (r : Rounding) (m : BarAggregator) : List Symbol → List CompletedBar
  | [] => []
  | symbol :: rest => (m.flushIn r symbol).2.toList ++ (m.flushIn r symbol).1.flushAllIn r rest

/-- The bars of a session that ends with a flush of these symbols. -/
def sessionIn (r : Rounding) (timeframeS : ℤ) (ticks : List TickEvent) (symbols : List Symbol) :
    List CompletedBar :=
  (onTicksIn r timeframeS ticks).2 ++ (onTicksIn r timeframeS ticks).1.flushAllIn r symbols

/-! ### In exact arithmetic -/

def finalize (timeframeS : ℤ) (bar : OpenBar) : CompletedBar := finalizeIn .exact timeframeS bar

def session (timeframeS : ℤ) (ticks : List TickEvent) (symbols : List Symbol) :
    List CompletedBar :=
  sessionIn .exact timeframeS ticks symbols

/-! ### Runs of a bucket -/

/-- Ticks in a row. -/
structure TickRun where
  first : TickEvent
  rest : List TickEvent

namespace TickRun

def single (tick : TickEvent) : TickRun := ⟨tick, []⟩

def ticks (run : TickRun) : List TickEvent := run.first :: run.rest

/-- A later run put behind an earlier one. -/
def merge (run later : TickRun) : TickRun := ⟨run.first, run.rest ++ later.ticks⟩

def bucket (timeframeS : ℤ) (run : TickRun) : Timestamp := bucketStart timeframeS run.first.ts

/-- The bar of a run. -/
def bar (r : Rounding) (timeframeS : ℤ) (run : TickRun) : OpenBar :=
  run.ticks.foldl (taken r) (openedIn r timeframeS run.first)

theorem merge_assoc (run later last : TickRun) :
    (run.merge later).merge last = run.merge (later.merge last) := by
  simp [merge, ticks]

theorem merges (timeframeS : ℤ) : Merges (bucket timeframeS) merge where
  keeps _ := rfl
  assoc _ _ := merge_assoc _ _ _

@[simp] theorem merge_ticks (run later : TickRun) :
    (run.merge later).ticks = run.ticks ++ later.ticks := rfl

variable {r : Rounding} {timeframeS : ℤ}

theorem bar_merge_single (run : TickRun) (tick : TickEvent) :
    (run.merge (single tick)).bar r timeframeS = taken r (run.bar r timeframeS) tick := by
  rw [bar, merge_ticks, List.foldl_append]
  rfl

/-- The ticks of a run change neither the bucket nor the symbol of its bar. -/
theorem foldl_taken (bar : OpenBar) (ticks : List TickEvent) :
    (ticks.foldl (taken r) bar).bucketStart = bar.bucketStart ∧
      (ticks.foldl (taken r) bar).symbol = bar.symbol := by
  induction ticks generalizing bar with
  | nil => exact ⟨rfl, rfl⟩
  | cons tick rest ih => exact ih (taken r bar tick)

@[simp] theorem bar_bucketStart (run : TickRun) :
    (run.bar r timeframeS).bucketStart = run.bucket timeframeS := (foldl_taken _ _).1

@[simp] theorem bar_symbol (run : TickRun) :
    (run.bar r timeframeS).symbol = run.first.symbol := (foldl_taken _ _).2

end TickRun

/-! ### The bars of one symbol -/

section Session

variable {r : Rounding} {timeframeS : ℤ} {symbol : Symbol}

/-- The runs of a bucket in a symbol's own ticks, the open one at the end. -/
def runsOf (timeframeS : ℤ) (symbol : Symbol) (ticks : List TickEvent) : List TickRun :=
  mergeRuns (TickRun.bucket timeframeS) TickRun.merge
    ((ticks.filter (·.symbol = symbol)).map TickRun.single)

theorem runsOf_concat_other {tick : TickEvent} (other : tick.symbol ≠ symbol)
    (before : List TickEvent) :
    runsOf timeframeS symbol (before ++ [tick]) = runsOf timeframeS symbol before := by
  simp [runsOf, other]

theorem runsOf_concat_own {tick : TickEvent} (own : tick.symbol = symbol)
    (before : List TickEvent) :
    runsOf timeframeS symbol (before ++ [tick]) =
      mergeLast (TickRun.bucket timeframeS) TickRun.merge (runsOf timeframeS symbol before)
        (TickRun.single tick) := by
  simp [runsOf, own]

theorem onTicksIn_concat (before : List TickEvent) (tick : TickEvent) :
    onTicksIn r timeframeS (before ++ [tick]) =
      (((onTicksIn r timeframeS before).1.onTickIn r tick).1,
        (onTicksIn r timeframeS before).2 ++
          ((onTicksIn r timeframeS before).1.onTickIn r tick).2.toList) := by
  simp [onTicksIn]

/-- What one tick does: it opens a bar, joins the open one, or closes that and opens another. -/
theorem onTickIn_cases (r : Rounding) (m : BarAggregator) (tick : TickEvent) :
    (m.openBars.get? tick.symbol = none ∧
      m.onTickIn r tick =
        ({ m with
            openBars := m.openBars.set tick.symbol
              ((TickRun.single tick).bar r m.timeframeS) }, none)) ∨
    (∃ bar, m.openBars.get? tick.symbol = some bar ∧
      bar.bucketStart = bucketStart m.timeframeS tick.ts ∧
      m.onTickIn r tick =
        ({ m with openBars := m.openBars.set tick.symbol (taken r bar tick) }, none)) ∨
    (∃ bar, m.openBars.get? tick.symbol = some bar ∧
      bar.bucketStart ≠ bucketStart m.timeframeS tick.ts ∧
      m.onTickIn r tick =
        ({ m with
            openBars := m.openBars.set tick.symbol
              ((TickRun.single tick).bar r m.timeframeS) },
          some (finalizeIn r m.timeframeS bar))) := by
  cases found : m.openBars.get? tick.symbol with
  | none =>
    left
    simp only [onTickIn, found]
    exact ⟨trivial, rfl⟩
  | some bar =>
    -- An open bar takes the ticks of its own bucket only, earlier or later.
    by_cases same : bar.bucketStart = bucketStart m.timeframeS tick.ts
    · refine .inr (.inl ⟨bar, rfl, same, ?_⟩)
      simp [onTickIn, found, same]
    · refine .inr (.inr ⟨bar, rfl, same, ?_⟩)
      simp only [onTickIn, found, if_pos same]
      rfl

@[simp] theorem onTickIn_timeframeS (m : BarAggregator) (tick : TickEvent) :
    (m.onTickIn r tick).1.timeframeS = m.timeframeS := by
  obtain ⟨-, now⟩ | ⟨bar, -, -, now⟩ | ⟨bar, -, -, now⟩ := onTickIn_cases r m tick <;> rw [now]

/-- A tick of another symbol leaves this one's bar as it is. -/
theorem onTickIn_other (m : BarAggregator) {tick : TickEvent} (other : tick.symbol ≠ symbol) :
    (m.onTickIn r tick).1.openBars.get? symbol = m.openBars.get? symbol := by
  obtain ⟨-, now⟩ | ⟨bar, -, -, now⟩ | ⟨bar, -, -, now⟩ := onTickIn_cases r m tick <;>
    rw [now] <;> exact Dict.get?_set_ne _ _ other.symm

@[simp] theorem onTicksIn_timeframeS (timeframeS : ℤ) (ticks : List TickEvent) :
    (onTicksIn r timeframeS ticks).1.timeframeS = timeframeS := by
  induction ticks using List.reverseRecOn with
  | nil => rfl
  | append_singleton before tick ih => rw [onTicksIn_concat, onTickIn_timeframeS, ih]

theorem runsOf_symbol (timeframeS : ℤ) (symbol : Symbol) (ticks : List TickEvent) :
    ∀ run ∈ runsOf timeframeS symbol ticks, run.first.symbol = symbol := by
  apply mergeRuns_forall (p := fun run : TickRun => run.first.symbol = symbol)
  · intro run later own _
    exact own
  · intro run held
    obtain ⟨tick, own, rfl⟩ := List.mem_map.mp held
    exact of_decide_eq_true (List.mem_filter.mp own).2

/-- What a symbol's ticks have completed, and what they have left open. -/
theorem onTicksIn_runsOf (r : Rounding) (timeframeS : ℤ) (ticks : List TickEvent)
    (symbol : Symbol) :
    (onTicksIn r timeframeS ticks).1.openBars.get? symbol =
        (runsOf timeframeS symbol ticks).getLast?.map (TickRun.bar r timeframeS) ∧
      (onTicksIn r timeframeS ticks).2.filter (·.symbol = symbol) =
        (runsOf timeframeS symbol ticks).dropLast.map
          fun run => finalizeIn r timeframeS (run.bar r timeframeS) := by
  induction ticks using List.reverseRecOn generalizing symbol with
  | nil => exact ⟨rfl, rfl⟩
  | append_singleton before tick ih =>
    have timeframe := onTicksIn_timeframeS (r := r) timeframeS before
    have named : ∀ bar, (onTicksIn r timeframeS before).1.openBars.get? tick.symbol = some bar →
        bar.symbol = tick.symbol := by
      intro bar found
      rw [(ih tick.symbol).1] at found
      obtain ⟨run, last, rfl⟩ := Option.map_eq_some_iff.mp found
      rw [TickRun.bar_symbol]
      exact runsOf_symbol timeframeS tick.symbol before run (List.mem_of_getLast? last)
    rw [onTicksIn_concat]
    obtain ⟨kept, completed⟩ := ih symbol
    generalize onTicksIn r timeframeS before = ticked at *
    obtain ⟨m, bars⟩ := ticked
    by_cases own : tick.symbol = symbol
    · -- The open bar, if there is one, is that of the last run of the symbol's ticks.
      subst own
      rw [runsOf_concat_own rfl]
      obtain rfl : m.timeframeS = timeframeS := timeframe
      cases runs : runsOf m.timeframeS tick.symbol before using List.reverseRecOn with
      | nil =>
        obtain ⟨-, now⟩ | ⟨bar, found, -⟩ | ⟨bar, found, -⟩ := onTickIn_cases r m tick
        · simpa [now, runs] using completed
        all_goals simp [found, runs] at kept
      | append_singleton earlier last =>
        obtain ⟨found, -⟩ | ⟨bar, found, same, now⟩ | ⟨bar, found, apart, now⟩ :=
          onTickIn_cases r m tick
        · simp [found, runs] at kept
        · obtain rfl : bar = last.bar r m.timeframeS := by simpa [found, runs] using kept
          rw [TickRun.bar_bucketStart] at same
          have joins : last.bucket m.timeframeS = (TickRun.single tick).bucket m.timeframeS := same
          rw [mergeLast_same joins]
          simp [now, runs, completed, TickRun.bar_merge_single]
        · obtain rfl : bar = last.bar r m.timeframeS := by simpa [found, runs] using kept
          rw [TickRun.bar_bucketStart] at apart
          have other : last.bucket m.timeframeS ≠ (TickRun.single tick).bucket m.timeframeS := apart
          rw [mergeLast_other other]
          have symbol := named _ found
          rw [TickRun.bar_symbol] at symbol
          simp [now, runs, completed, finalizeIn, symbol]
    · -- Whatever the tick completes, its symbol is another one.
      rw [runsOf_concat_other own, onTickIn_other m own, List.filter_append, kept, completed]
      refine ⟨rfl, ?_⟩
      obtain ⟨-, now⟩ | ⟨bar, -, -, now⟩ | ⟨bar, found, -, now⟩ := onTickIn_cases r m tick
      · simp [now]
      · simp [now]
      · simp [now, finalizeIn, named bar found, own]

theorem onTicksIn_openBar_symbol (ticks : List TickEvent) {bar : OpenBar}
    (found : (onTicksIn r timeframeS ticks).1.openBars.get? symbol = some bar) :
    bar.symbol = symbol := by
  rw [(onTicksIn_runsOf r timeframeS ticks symbol).1] at found
  obtain ⟨run, last, rfl⟩ := Option.map_eq_some_iff.mp found
  rw [TickRun.bar_symbol]
  exact runsOf_symbol timeframeS symbol ticks run (List.mem_of_getLast? last)

theorem get?_flushIn (m : BarAggregator) (first symbol : Symbol) :
    (m.flushIn r first).1.openBars.get? symbol =
      if symbol = first then none else m.openBars.get? symbol := Dict.get?_erase _ _ _

/-- However often a symbol is flushed, its open bar is closed once. -/
theorem flushAllIn_own (m : BarAggregator) (symbol : Symbol)
    (named : ∀ other bar, m.openBars.get? other = some bar → bar.symbol = other)
    (symbols : List Symbol) :
    (m.flushAllIn r symbols).filter (·.symbol = symbol) =
      if symbol ∈ symbols then (m.openBars.get? symbol).toList.map (finalizeIn r m.timeframeS)
      else [] := by
  induction symbols generalizing m with
  | nil => simp [flushAllIn]
  | cons first rest ih =>
    have named_rest : ∀ other bar, (m.flushIn r first).1.openBars.get? other = some bar →
        bar.symbol = other := by
      intro other bar found
      rw [get?_flushIn] at found
      split at found
      · cases found
      · exact named other bar found
    rw [flushAllIn, List.filter_append, ih _ named_rest, get?_flushIn]
    by_cases here : symbol = first
    · -- Its bar is gone with this flush, and the later ones find none.
      subst here
      cases found : m.openBars.get? symbol with
      | none => simp [flushIn, found]
      | some bar => simp [flushIn, found, finalizeIn, named symbol bar found]
    · have dropped : (m.flushIn r first).2.toList.filter (·.symbol = symbol) = [] := by
        cases found : m.openBars.get? first with
        | none => simp [flushIn, found]
        | some bar => simp [flushIn, found, finalizeIn, named first bar found, Ne.symm here]
      rw [dropped]
      simp [here, flushIn]

theorem runsOf_eq_nil {ticks : List TickEvent} (none_own : ∀ tick ∈ ticks, tick.symbol ≠ symbol) :
    runsOf timeframeS symbol ticks = [] := by
  have own : ticks.filter (·.symbol = symbol) = [] := by
    simpa [List.filter_eq_nil_iff] using none_own
  simp [runsOf, own]

/-- A session that ends with a flush makes of a symbol's ticks one bar for each run of a bucket. -/
theorem sessionIn_runsOf (r : Rounding) (timeframeS : ℤ) {ticks : List TickEvent}
    {symbols : List Symbol} (flushed : ∀ tick ∈ ticks, tick.symbol ∈ symbols) (symbol : Symbol) :
    (sessionIn r timeframeS ticks symbols).filter (·.symbol = symbol) =
      (runsOf timeframeS symbol ticks).map
        fun run => finalizeIn r timeframeS (run.bar r timeframeS) := by
  obtain ⟨kept, completed⟩ := onTicksIn_runsOf r timeframeS ticks symbol
  have closed := flushAllIn_own (r := r) (onTicksIn r timeframeS ticks).1 symbol
    (fun other bar found => onTicksIn_openBar_symbol ticks found) symbols
  rw [sessionIn, List.filter_append, completed, closed, onTicksIn_timeframeS, kept]
  by_cases listed : symbol ∈ symbols
  · -- What is completed and what is flushed are all runs but the last one, and the last one.
    rw [if_pos listed]
    cases runsOf timeframeS symbol ticks using List.reverseRecOn with
    | nil => rfl
    | append_singleton earlier last => simp
  · -- A symbol that nobody flushes has had no tick.
    have none_own : ∀ tick ∈ ticks, tick.symbol ≠ symbol := fun tick held same =>
      listed (same ▸ flushed tick held)
    simp [runsOf_eq_nil none_own]

theorem runsOf_own (timeframeS : ℤ) (symbol : Symbol) (ticks : List TickEvent) :
    runsOf timeframeS symbol (ticks.filter (·.symbol = symbol)) =
      runsOf timeframeS symbol ticks := by simp [runsOf, List.filter_filter]

/-- All bars of a session are bars of the symbols it had ticks of. -/
theorem sessionIn_symbols {ticks : List TickEvent} {symbols : List Symbol}
    (flushed : ∀ tick ∈ ticks, tick.symbol ∈ symbols) {bar : CompletedBar}
    (emitted : bar ∈ sessionIn r timeframeS ticks symbols) :
    ∃ tick ∈ ticks, tick.symbol = bar.symbol := by
  have own : bar ∈ (sessionIn r timeframeS ticks symbols).filter (·.symbol = bar.symbol) := by
    simpa using emitted
  rw [sessionIn_runsOf r timeframeS flushed] at own
  by_contra none_own
  push Not at none_own
  rw [runsOf_eq_nil none_own] at own
  simp at own

/-- A session of one symbol. -/
theorem sessionIn_own (r : Rounding) (timeframeS : ℤ) (symbol : Symbol) {ticks : List TickEvent}
    (own : ∀ tick ∈ ticks, tick.symbol = symbol) :
    sessionIn r timeframeS ticks [symbol] =
      (runsOf timeframeS symbol ticks).map
        fun run => finalizeIn r timeframeS (run.bar r timeframeS) := by
  have flushed : ∀ tick ∈ ticks, tick.symbol ∈ [symbol] := by simpa using own
  rw [← sessionIn_runsOf r timeframeS flushed symbol, eq_comm, List.filter_eq_self]
  intro bar emitted
  obtain ⟨tick, held, same⟩ := sessionIn_symbols flushed emitted
  simp [← same, own tick held]

end Session

/-! ### Exact bars are merged -/

end BarAggregator

namespace OpenBar

open BarAggregator

/-- A later bar of the same bucket put behind an earlier one. -/
def merge (bar later : OpenBar) : OpenBar :=
  { bar with
    high := max bar.high later.high
    low := min bar.low later.low
    close := later.close
    volume := bar.volume + later.volume
    dollarVolume := bar.dollarVolume + later.dollarVolume }

/-- The bar of one tick. -/
def ofTick (timeframeS : ℤ) (tick : TickEvent) : OpenBar :=
  (TickRun.single tick).bar .exact timeframeS

theorem merges : Merges OpenBar.bucketStart merge where
  keeps _ := rfl
  assoc _ _ := by simp [merge, max_assoc, min_assoc, add_assoc]

theorem taken_eq_merge (bar : OpenBar) (timeframeS : ℤ) (tick : TickEvent) :
    taken .exact bar tick = bar.merge (ofTick timeframeS tick) := by
  simp [ofTick, TickRun.single, TickRun.bar, TickRun.ticks, taken, openedIn, updateIn, merge]

theorem bar_merge (timeframeS : ℤ) (run later : TickRun) :
    (run.merge later).bar .exact timeframeS =
      (run.bar .exact timeframeS).merge (later.bar .exact timeframeS) := by
  obtain ⟨first, rest⟩ := later
  induction rest using List.reverseRecOn with
  | nil =>
    rw [← TickRun.single, TickRun.bar_merge_single]
    exact taken_eq_merge _ timeframeS first
  | append_singleton before tick ih =>
    -- the last tick may be taken before or after the merge
    have split : (⟨first, before ++ [tick]⟩ : TickRun) =
        (⟨first, before⟩ : TickRun).merge (TickRun.single tick) := rfl
    rw [split, ← TickRun.merge_assoc, TickRun.bar_merge_single,
      TickRun.bar_merge_single, ih, taken_eq_merge _ timeframeS, taken_eq_merge _ timeframeS]
    simp [merge, max_assoc, min_assoc, add_assoc]

end OpenBar

namespace BarAggregator

/-- The bars of a symbol's own ticks, the open one at the end. -/
def barsOf (timeframeS : ℤ) (symbol : Symbol) (ticks : List TickEvent) : List OpenBar :=
  mergeRuns OpenBar.bucketStart OpenBar.merge
    ((ticks.filter (·.symbol = symbol)).map (OpenBar.ofTick timeframeS))

theorem map_bar_runsOf (timeframeS : ℤ) (symbol : Symbol) (ticks : List TickEvent) :
    (runsOf timeframeS symbol ticks).map (TickRun.bar .exact timeframeS) =
      barsOf timeframeS symbol ticks := by
  have merged (runs : List TickRun) :
      (mergeRuns (TickRun.bucket timeframeS) TickRun.merge runs).map
          (TickRun.bar .exact timeframeS) =
        mergeRuns OpenBar.bucketStart OpenBar.merge (runs.map (TickRun.bar .exact timeframeS)) := by
    apply map_mergeRuns (p := fun _ => True)
    · exact fun _ _ => trivial
    · intro run later _ _
      rw [TickRun.bar_bucketStart, TickRun.bar_bucketStart]
    · intro run later _
      exact OpenBar.bar_merge timeframeS run later
    · exact fun _ _ => trivial
  rw [runsOf, merged, List.map_map]
  rfl

theorem session_barsOf (timeframeS : ℤ) {ticks : List TickEvent} {symbols : List Symbol}
    (flushed : ∀ tick ∈ ticks, tick.symbol ∈ symbols) (symbol : Symbol) :
    (session timeframeS ticks symbols).filter (·.symbol = symbol) =
      (barsOf timeframeS symbol ticks).map (finalize timeframeS) := by
  rw [session, sessionIn_runsOf .exact timeframeS flushed, ← map_bar_runsOf, List.map_map]
  rfl

/-- A later tick is not in an earlier bucket. -/
theorem bucketStart_mono {timeframeS : ℤ} (nonzero : timeframeS ≠ 0) {earlier later : Timestamp}
    (ordered : earlier ≤ later) : bucketStart timeframeS earlier ≤ bucketStart timeframeS later := by
  have seconds : (earlier : ℚ) / 1000000 ≤ (later : ℚ) / 1000000 :=
    div_le_div_of_nonneg_right (Int.cast_le.mpr ordered) (Nat.ofNat_nonneg 1000000)
  unfold bucketStart
  refine mul_le_mul_of_nonneg_right ?_ (Nat.ofNat_nonneg 1000000)
  rcases lt_or_gt_of_ne nonzero with negative | positive
  · have below : (timeframeS : ℚ) ≤ 0 := Int.cast_nonpos.mpr negative.le
    exact mul_le_mul_of_nonpos_right
      (Int.floor_le_floor (div_le_div_of_nonpos_of_le below seconds)) negative.le
  · have above : (0 : ℚ) ≤ timeframeS := Int.cast_nonneg_iff.mpr positive.le
    exact mul_le_mul_of_nonneg_right
      (Int.floor_le_floor (div_le_div_of_nonneg_right seconds above)) positive.le

end BarAggregator

end Binbot
