import Binbot.Machine.Run
import Binbot.Server.CandleCache

/-!
# The order of cached candles

A cache is seeded by a fetch that the first charted bar triggers, and that bar is appended
afterwards. By then its minute is over and the history holds the next one too, so that the
order of a cache is a matter of where the history ends.
-/
namespace Binbot

open Async Data

namespace CandleState

variable {m : CandleState} {symbol other : Symbol}

/-- Every cache is in ascending order of time and has room for its candles. -/
def Chronological (m : CandleState) : Prop := ∀ symbol,
  Ascending Candle.time (m.cache symbol) ∧ (m.cache symbol).length ≤ maxCandlesPerSymbolCache

theorem cache_seeded (candles : List Candle) : (m.seeded symbol candles).cache other =
    if other = symbol then candles.drop (candles.length - maxCandlesPerSymbolCache)
    else m.cache other := by
  rw [cache, seeded, Dict.getD, Dict.get?_set]
  by_cases here : other = symbol
  · rw [if_pos here, if_pos here, Option.getD_some]
  · rw [if_neg here, if_neg here, cache, Dict.getD]

theorem cache_recorded (candle : Candle) : (m.recorded symbol candle).cache other =
    if other = symbol then
      recordLast Candle.time maxCandlesPerSymbolCache (m.cache symbol) candle
    else m.cache other := by
  rw [cache, recorded, Dict.getD, Dict.get?_set]
  by_cases here : other = symbol
  · rw [if_pos here, if_pos here, Option.getD_some]
  · rw [if_neg here, if_neg here, cache, Dict.getD]

/-- One cache has changed. -/
theorem Chronological.replace (held : Chronological m) {n : CandleState} {candles : List Candle}
    (cache : ∀ other, n.cache other = if other = symbol then candles else m.cache other)
    (ascending : Ascending Candle.time candles)
    (bounded : candles.length ≤ maxCandlesPerSymbolCache) : Chronological n := by
  intro other
  rw [cache]
  split
  · exact ⟨ascending, bounded⟩
  · exact held other

theorem Chronological.seeded (held : Chronological m) {candles : List Candle}
    (ascending : Ascending Candle.time candles) : Chronological (m.seeded symbol candles) := by
  apply held.replace fun other => cache_seeded candles
  · exact ascending.sublist (List.drop_sublist _ _)
  · rw [List.length_drop]
    omega

/-- A candle is in order exactly when none that is cached is later. -/
theorem Chronological.recorded_iff (held : Chronological m) (candle : Candle) :
    Chronological (m.recorded symbol candle) ↔
      ∀ last ∈ (m.cache symbol).getLast?, last.time ≤ candle.time := by
  have exact_ : Ascending Candle.time
      (recordLast Candle.time maxCandlesPerSymbolCache (m.cache symbol) candle) ↔
        ∀ last ∈ (m.cache symbol).getLast?, last.time ≤ candle.time :=
    ascending_recordLast_iff (held symbol).1 (by decide)
  constructor
  · intro after
    rw [← exact_]
    have ordered := (after symbol).1
    rwa [cache_recorded, if_pos rfl] at ordered
  · intro latest
    apply held.replace fun other => cache_recorded candle
    · exact exact_.mpr latest
    · exact length_recordLast (held symbol).2 (by decide)

end CandleState

namespace CandleDesk

variable {desk : CandleDesk} {d e : CandleMemory}

/-- The bars of the symbol are charted. -/
def Wanted (desk : CandleDesk) (d : CandleMemory) (symbol : Symbol) : Prop :=
  symbol = desk.chartSymbol ∨ ∃ trades ∈ d.openTrades, trades.contains symbol = true

instance (desk : CandleDesk) (d : CandleMemory) (symbol : Symbol) :
    Decidable (Wanted desk d symbol) :=
  inferInstanceAs (Decidable (_ ∨ ∃ trades ∈ (_ : Option _), _))

/-- A charted bar of the symbol fetches its history. -/
def Due (desk : CandleDesk) (d : CandleMemory) (symbol : Symbol) : Prop :=
  desk.provides = true ∧ symbol ∉ d.candles.backfilledSymbols

instance (desk : CandleDesk) (d : CandleMemory) (symbol : Symbol) :
    Decidable (Due desk d symbol) := inferInstanceAs (Decidable (_ ∧ ¬ _))

/-- The caches once `_backfill_candles_once` is through, and how it ends. -/
def backfilled (desk : CandleDesk) (d : CandleMemory) (symbol : Symbol) (replies : CandleReplies) :
    CandleState × Except String Unit :=
  if Due desk d symbol then
    match replies.klines with
    | .error _ => (d.candles.marked symbol, .ok ())
    | .ok history =>
      if history.candles = [] then (d.candles.marked symbol, .ok ())
      else ((d.candles.marked symbol).seeded symbol history.candles, replies.backfilled)
  else (d.candles, .ok ())

theorem exec_backfillCandlesOnce (symbol : Symbol) (replies : CandleReplies) :
    (desk.feed.backfillCandlesOnce symbol).exec (fun w q => (replies.answer q, w)) () d =
      ⟨(backfilled desk d symbol replies).2, (),
        { d with candles := (backfilled desk d symbol replies).1 }⟩ := by
  rw [backfilled, CandleFeed.backfillCandlesOnce, feed]
  cases provides : desk.provides with
  | false =>
    have undue : ¬ Due desk d symbol := fun due => by cases provides.symm.trans due.1
    rw [if_neg undue]
    rfl
  | true =>
    by_cases before : symbol ∈ d.candles.backfilledSymbols
    · have undue : ¬ Due desk d symbol := fun due => due.2 before
      rw [if_neg undue]
      have known : symbol ∈ (Part.view d : CandleState).backfilledSymbols := before
      simp only [if_true, Coro.exec_bind, Coro.exec_view, Coro.Outcome.andThen_ok, if_pos known,
        Coro.exec_pure]
    · have due : Due desk d symbol := ⟨provides, before⟩
      rw [if_pos due]
      have unknown : symbol ∉ (Part.view d : CandleState).backfilledSymbols := before
      simp only [if_true, Coro.exec_bind, Coro.exec_view, Coro.Outcome.andThen_ok, if_neg unknown,
        Coro.exec_update, Coro.exec_tryCatch, Coro.exec_request, CandleReplies.answer]
      cases replies.klines with
      | error e => rfl
      | ok history =>
        simp only [Except.map, Coro.Outcome.orElse_ok, Coro.Outcome.andThen_ok]
        split
        · rfl
        · simp only [Coro.exec_bind, Coro.exec_update, Coro.Outcome.andThen_ok, Coro.exec_request]
          rfl

theorem exec_wantsChartFor (symbol : Symbol) (replies : CandleReplies) :
    (desk.feed.wantsChartFor symbol).exec (fun w q => (replies.answer q, w)) () d =
      ⟨.ok (decide (Wanted desk d symbol)), (), d⟩ := by
  rw [CandleFeed.wantsChartFor]
  by_cases chart : symbol = desk.feed.chartSymbol
  · have wanted : Wanted desk d symbol := .inl chart
    rw [if_pos chart, decide_eq_true wanted, Coro.exec_pure]
  · have trades : desk.feed.openTrades = (Coro.view : Coro CandleMemory candleSig _) := rfl
    rw [if_neg chart, trades, Coro.exec_bind, Coro.exec_view, Coro.Outcome.andThen_ok]
    have only : Wanted desk d symbol ↔ ∃ trades ∈ d.openTrades, trades.contains symbol = true :=
      or_iff_right chart
    have read : (Part.view d : Option (Dict Symbol OpenTrade)) = d.openTrades := rfl
    rw [read]
    cases tracked : d.openTrades with
    | none => simp [only, tracked]
    | some open_ => simp [only, tracked]

/-- A charted bar is recorded unless the bridge fails to send the history. -/
theorem step_bar (event : BarEvent) (replies : CandleReplies) :
    step desk d (.bar event replies) = some
      (if Wanted desk d event.symbol then
        match (backfilled desk d event.symbol replies).2 with
        | .ok _ => { d with candles :=
            (backfilled desk d event.symbol replies).1.recorded event.symbol (.ofBar event) }
        | .error _ => { d with candles := (backfilled desk d event.symbol replies).1 }
      else d) := by
  rw [step, CandleFeed.onBarEvent, Coro.exec_bind, exec_wantsChartFor, Coro.Outcome.andThen_ok]
  by_cases wanted : Wanted desk d event.symbol
  · rw [decide_eq_true wanted, if_pos rfl, if_pos wanted, Coro.exec_bind,
      exec_backfillCandlesOnce]
    cases (backfilled desk d event.symbol replies).2 with
    | error e => rfl
    | ok _ =>
      simp only [Coro.Outcome.andThen_ok, Coro.exec_bind, Coro.exec_update]
      change some (Coro.exec _ (Coro.request (S := candleSig) (.broadcast _)) _ _).memory = _
      rw [Coro.exec_request]
      rfl
  · rw [decide_eq_false wanted, if_neg Bool.false_ne_true, if_neg wanted, Coro.exec_pure]

/-- At every charted bar, neither a cached candle of the symbol is later than the bar nor one
of the history that is fetched for it. -/
def InOrder (desk : CandleDesk) (d : CandleMemory) : Act → Prop
  | .trades _ => True
  | .bar event replies => Wanted desk d event.symbol →
    (∀ last ∈ (d.candles.cache event.symbol).getLast?, last.time ≤ event.ts.seconds) ∧
      (Due desk d event.symbol → replies.backfilled = .ok () →
        ∀ history, replies.klines = .ok history →
          ∀ last ∈ history.candles.getLast?, last.time ≤ event.ts.seconds)

/-- A cache is empty until the history of its symbol has been asked for. -/
structure Inv (desk : CandleDesk) (d : CandleMemory) : Prop where
  chronological : d.candles.Chronological
  empty : ∀ symbol, Due desk d symbol → d.candles.cache symbol = []

/-- What the bar finds in its cache when it is recorded. -/
theorem backfilled_cases (held : Inv desk d) (symbol : Symbol) (replies : CandleReplies)
    (t : ℤ) :
    (backfilled desk d symbol replies).1.Chronological ∧
      ((backfilled desk d symbol replies).2 = .ok () →
        ((∀ last ∈ ((backfilled desk d symbol replies).1.cache symbol).getLast?, last.time ≤ t) ↔
          (∀ last ∈ (d.candles.cache symbol).getLast?, last.time ≤ t) ∧
            (Due desk d symbol → replies.backfilled = .ok () → ∀ history,
              replies.klines = .ok history → ∀ last ∈ history.candles.getLast?, last.time ≤ t))) := by
  have marked : (d.candles.marked symbol).Chronological := held.chronological
  rw [backfilled]
  split
  next due =>
    have empty := held.empty symbol due
    have still : (d.candles.marked symbol).cache symbol = [] := empty
    cases fetched : replies.klines with
    | error e => exact ⟨marked, fun _ => by simp [still, empty]⟩
    | ok history =>
      dsimp only
      split
      next nothing =>
        refine ⟨marked, fun _ => ?_⟩
        simp [still, empty, nothing]
      next some_ =>
        refine ⟨marked.seeded history.ascending, fun told => ?_⟩
        -- the history ends with the candle that it ended with when it was fetched
        have shorter : ¬ history.candles.length ≤
            history.candles.length - maxCandlesPerSymbolCache := by
          have long := List.length_pos_iff.mpr some_
          have room : 0 < maxCandlesPerSymbolCache := by decide
          omega
        dsimp only at told ⊢
        rw [CandleState.cache_seeded, if_pos rfl, List.getLast?_drop, if_neg shorter, empty]
        simp [due, told]
  next undue =>
    refine ⟨held.chronological, fun _ => ?_⟩
    simp [undue]

theorem backfilled_error {symbol : Symbol} {replies : CandleReplies} {message : String}
    (failed : (backfilled desk d symbol replies).2 = .error message) :
    Due desk d symbol ∧ replies.backfilled = .error message := by
  rw [backfilled] at failed
  split at failed
  next due =>
    cases fetched : replies.klines with
    | error e =>
      rw [fetched] at failed
      cases failed
    | ok history =>
      rw [fetched] at failed
      dsimp only at failed
      split at failed
      · cases failed
      · exact ⟨due, failed⟩
  next => cases failed

/-- After the fetch only another symbol's may be due, whose cache has not changed. -/
theorem backfilled_due {symbol other : Symbol} {replies : CandleReplies}
    (due : Due desk { d with candles := (backfilled desk d symbol replies).1 } other) :
    other ≠ symbol ∧ Due desk d other ∧
      (backfilled desk d symbol replies).1.cache other = d.candles.cache other := by
  obtain ⟨provides, unasked⟩ := due
  dsimp only at unasked
  rw [backfilled] at unasked ⊢
  split at unasked
  next asked =>
    have marked : other ∉ (d.candles.marked symbol).backfilledSymbols →
        other ≠ symbol ∧ Due desk d other := by
      intro unasked
      rw [CandleState.marked, List.mem_cons, not_or] at unasked
      exact ⟨unasked.1, provides, unasked.2⟩
    rw [if_pos asked]
    cases fetched : replies.klines with
    | error e =>
      rw [fetched] at unasked
      obtain ⟨elsewhere, due⟩ := marked unasked
      exact ⟨elsewhere, due, rfl⟩
    | ok history =>
      rw [fetched] at unasked
      dsimp only at unasked ⊢
      split at unasked
      next nothing =>
        rw [if_pos nothing]
        obtain ⟨elsewhere, due⟩ := marked unasked
        exact ⟨elsewhere, due, rfl⟩
      next some_ =>
        rw [if_neg some_]
        obtain ⟨elsewhere, due⟩ := marked unasked
        refine ⟨elsewhere, due, ?_⟩
        rw [CandleState.cache_seeded, if_neg elsewhere]
        rfl
  next undue =>
    rw [if_neg undue]
    refine ⟨?_, ⟨provides, unasked⟩, rfl⟩
    rintro rfl
    exact undue ⟨provides, unasked⟩

theorem Inv.changed (held : Inv desk d) {symbol : Symbol} {replies : CandleReplies}
    {n : CandleState} (chronological : n.Chronological)
    (asked : n.backfilledSymbols = (backfilled desk d symbol replies).1.backfilledSymbols)
    (cache : ∀ other, other ≠ symbol →
      n.cache other = (backfilled desk d symbol replies).1.cache other) :
    Inv desk { d with candles := n } := by
  refine ⟨chronological, fun other due => ?_⟩
  have before : Due desk { d with candles := (backfilled desk d symbol replies).1 } other :=
    ⟨due.1, asked ▸ due.2⟩
  obtain ⟨elsewhere, due, same⟩ := backfilled_due before
  exact ((cache other elsewhere).trans same).trans (held.empty other due)

/-- A bar in order leaves the caches in order, and any other does not. -/
theorem bar_iff (held : Inv desk d) {event : BarEvent} {replies : CandleReplies}
    (moved : step desk d (.bar event replies) = some e) :
    (e.candles.Chronological ↔ InOrder desk d (.bar event replies)) ∧
      (e.candles.Chronological → Inv desk e) := by
  rw [step_bar, Option.some.injEq] at moved
  subst moved
  rw [InOrder]
  by_cases wanted : Wanted desk d event.symbol
  · rw [if_pos wanted, imp_iff_right wanted]
    obtain ⟨chronological, found⟩ :=
      backfilled_cases held event.symbol replies event.ts.seconds
    cases told : (backfilled desk d event.symbol replies).2 with
    | error message =>
      -- the bar is lost with the broadcast of the history, and the cache was empty before
      obtain ⟨due, failed⟩ := backfilled_error told
      have empty := held.empty event.symbol due
      refine ⟨?_, fun _ => held.changed chronological rfl fun _ _ => rfl⟩
      dsimp only
      simp [chronological, empty, failed]
    | ok _ =>
      dsimp only
      rw [chronological.recorded_iff, ← found told]
      refine ⟨Iff.rfl, fun after => held.changed ?_ rfl ?_⟩
      · exact (chronological.recorded_iff _).mpr after
      · intro other elsewhere
        rw [CandleState.cache_recorded, if_neg elsewhere]
  · rw [if_neg wanted]
    refine ⟨?_, fun _ => held⟩
    simp [wanted, held.chronological]

/-- No bar has been charted yet. -/
def started (openTrades : Option (Dict Symbol OpenTrade)) : CandleMemory where
  openTrades := openTrades

theorem started_inv (openTrades : Option (Dict Symbol OpenTrade)) : Inv desk (started openTrades) :=
  ⟨fun _ => ⟨.nil, Nat.zero_le _⟩, fun _ _ => rfl⟩

/-- Over a run the caches stay in order exactly when no charted bar comes behind a candle that
is cached, or that is fetched for it. -/
theorem caches_chronological_iff (desk : CandleDesk) (openTrades : Option (Dict Symbol OpenTrade))
    (acts : List Act) :
    Machine.Meets (step desk) (InOrder desk) (started openTrades) acts ↔
      Machine.Always (step desk) (fun d => d.candles.Chronological) (started openTrades) acts := by
  apply Machine.meets_iff_always (Inv desk)
  · exact fun d held => held.chronological
  · intro d act e held inOrder moved
    cases act with
    | bar event replies => exact (bar_iff held moved).2 ((bar_iff held moved).1.mpr inOrder)
    | trades openTrades =>
      cases moved
      exact ⟨held.chronological, held.empty⟩
  · intro d act e held moved chronological
    cases act with
    | bar event replies => exact (bar_iff held moved).1.mp chronological
    | trades openTrades => trivial
  · intro d act idle
    cases act with
    | bar event replies => cases idle
    | trades openTrades => cases idle
  · exact started_inv openTrades

/-! ## The first bar of a symbol -/

/-- Each bar of a symbol is later than the ones before it. -/
def BarsAscend (acts : List Act) : Prop := ∀ symbol,
  (acts.filterMap fun act =>
    match act with
    | .bar event _ => if event.symbol = symbol then some event.ts else none
    | .trades _ => none).Pairwise (· < ·)

/-- Two minutes and the one that is under way. -/
def threeMinutes : History where
  candles := markPriceKlines [⟨0, 100, 101, 99, 100⟩, ⟨60000, 100, 102, 100, 101⟩,
    ⟨120000, 101, 101, 101, 101⟩]
  ascending := by decide

def secondMinute : BarEvent := ⟨60000000, "BTCUSDT", 100, 102, 100, 101, 5⟩

theorem first_bar_behind :
    ¬ ∀ (desk : CandleDesk) (openTrades : Option (Dict Symbol OpenTrade)) (acts : List Act),
      BarsAscend acts →
        Machine.Always (step desk) (fun d => d.candles.Chronological) (started openTrades) acts := by
  intro claim
  have always := claim ⟨"BTCUSDT", true⟩ none [.bar secondMinute ⟨.ok threeMinutes, .ok (), .ok ()⟩]
    fun symbol => by
      dsimp only [List.filterMap]
      split
      · exact List.Pairwise.nil
      · exact List.pairwise_singleton _ _
  have ordered := (always.reached rfl "BTCUSDT").1
  revert ordered
  decide +kernel

end CandleDesk

end Binbot
