import Binbot.Async.Coroutine
import Binbot.Core.Events
import Binbot.Data.Dict
import Binbot.Data.Series
import Binbot.Execution.TradeTracker

/-!
# Candle caches of the dashboard (`server/dashboard_bridge.py`)

What the bridge does with a bar: it keeps the latest candles of every charted symbol for the
tabs that connect later, starts each cache with the symbol's recent history, and tells the
tabs that are there.
-/
namespace Binbot

open Async Data

/-- Its time is in seconds. -/
structure Candle where
  time : ℤ
  open_ : ℚ
  high : ℚ
  low : ℚ
  close : ℚ
  volume : ℚ
  deriving DecidableEq

/-- `int(ts.timestamp())`. -/
def Timestamp.seconds (ts : Timestamp) : ℤ := Int.tdiv ts 1000000

def Candle.ofBar (event : BarEvent) : Candle where
  time := event.ts.seconds
  open_ := event.open_
  high := event.high
  low := event.low
  close := event.close
  volume := event.volume

/-- A row of the exchange's mark-price klines; its open time is in milliseconds. -/
structure KlineRow where
  openTime : ℤ
  open_ : ℚ
  high : ℚ
  low : ℚ
  close : ℚ
  deriving DecidableEq

/-- What `get_mark_price_klines` makes of the rows. Such klines carry no volume. -/
def markPriceKlines (rows : List KlineRow) : List Candle :=
  rows.map fun row =>
    { time := Int.tdiv row.openTime 1000
      open_ := row.open_
      high := row.high
      low := row.low
      close := row.close
      volume := 0 }

/-- `_MAX_CANDLES_PER_SYMBOL_CACHE`. -/
def maxCandlesPerSymbolCache : ℕ := 1600

structure CandleState where
  candlesBySymbol : Dict Symbol (List Candle) := .empty
  backfilledSymbols : List Symbol := []

inductive CandleMessage where
  | candle (symbol : Symbol) (candle : Candle)
  | candlesBackfill (symbol : Symbol) (candles : List Candle)
  deriving DecidableEq

namespace CandleState

variable (m : CandleState) (symbol : Symbol)

def cache : List Candle := m.candlesBySymbol.getD symbol []

/-- The cache starts with the latest of the candles that were fetched. -/
def seeded (candles : List Candle) : CandleState :=
  { m with
    candlesBySymbol :=
      m.candlesBySymbol.set symbol (candles.drop (candles.length - maxCandlesPerSymbolCache)) }

def recorded (candle : Candle) : CandleState :=
  { m with
    candlesBySymbol := m.candlesBySymbol.set symbol
      (recordLast Candle.time maxCandlesPerSymbolCache (m.cache symbol) candle) }

def marked : CandleState := { m with backfilledSymbols := symbol :: m.backfilledSymbols }

end CandleState

structure CandleFeed (σ : Type) (S : Sig) where
  chartSymbol : Symbol
  /-- The tracker's open trades, if there is a tracker. -/
  openTrades : Coro σ S (Option (Dict Symbol OpenTrade))
  historicalKlinesProvider : Option (Symbol → ℕ → Coro σ S (List Candle))
  broadcast : CandleMessage → Coro σ S Unit

namespace CandleFeed

variable {σ : Type} {S : Sig} (self : CandleFeed σ S)

def wantsChartFor (symbol : Symbol) : Coro σ S Bool := do
  if symbol = self.chartSymbol then pure true
  else do
    match ← self.openTrades with
    | none => pure false
    | some trades => pure (trades.contains symbol)

variable [Part σ CandleState]

def backfillCandlesOnce (symbol : Symbol) : Coro σ S Unit :=
  match self.historicalKlinesProvider with
  | none => pure ()
  | some provider => do
    let m : CandleState ← Coro.view
    if symbol ∈ m.backfilledSymbols then pure ()
    else do
      Coro.update fun m : CandleState => m.marked symbol
      let candles ← tryCatch (provider symbol maxCandlesPerSymbolCache) fun _ => pure []
      if candles = [] then pure ()
      else do
        Coro.update fun m : CandleState => m.seeded symbol candles
        self.broadcast (.candlesBackfill symbol candles)

/-- The `BarEvent` branch of `_on_event`. -/
def onBarEvent (event : BarEvent) : Coro σ S Unit := do
  if ← self.wantsChartFor event.symbol then do
    self.backfillCandlesOnce event.symbol
    let candle := Candle.ofBar event
    Coro.update fun m : CandleState => m.recorded event.symbol candle
    self.broadcast (.candle event.symbol candle)
  else pure ()

end CandleFeed

/-! ## One bar after the other -/

inductive CandleRequest where
  | klines (symbol : Symbol) (limit : ℕ)
  | broadcast (message : CandleMessage)
  deriving DecidableEq

abbrev CandleRequest.Reply : CandleRequest → Type
  | .klines _ _ => List Candle
  | .broadcast _ => Unit

abbrev candleSig : Sig := ⟨CandleRequest, CandleRequest.Reply⟩

structure CandleMemory where
  candles : CandleState := {}
  openTrades : Option (Dict Symbol OpenTrade) := none

instance : Part CandleMemory CandleState where
  view := CandleMemory.candles
  set d m := { d with candles := m }
  view_set _ _ := rfl
  set_set _ _ _ := rfl

instance : Part CandleMemory (Option (Dict Symbol OpenTrade)) where
  view := CandleMemory.openTrades
  set d trades := { d with openTrades := trades }
  view_set _ _ := rfl
  set_set _ _ _ := rfl

/-- What a provider answers with is in ascending order of time. -/
structure History where
  candles : List Candle
  ascending : Ascending Candle.time candles

/-- How the calls end that a bar leads to. -/
structure CandleReplies where
  klines : Except String History
  backfilled : Except String Unit := .ok ()
  sent : Except String Unit := .ok ()

def CandleReplies.answer (replies : CandleReplies) :
    (q : CandleRequest) → Answer candleSig q
  | .klines _ _ => replies.klines.map History.candles
  | .broadcast (.candlesBackfill _ _) => replies.backfilled
  | .broadcast (.candle _ _) => replies.sent

/-- The bridge of a bot, with a provider or without. -/
structure CandleDesk where
  chartSymbol : Symbol
  provides : Bool

namespace CandleDesk

variable (desk : CandleDesk)

def feed : CandleFeed CandleMemory candleSig where
  chartSymbol := desk.chartSymbol
  openTrades := Coro.view
  historicalKlinesProvider :=
    if desk.provides then
      some fun symbol limit => Coro.request (S := candleSig) (.klines symbol limit)
    else none
  broadcast message := Coro.request (S := candleSig) (.broadcast message)

/-- The dispatcher hands over the bars in turn. Between them fills change the open trades. -/
inductive Act where
  | bar (event : BarEvent) (replies : CandleReplies)
  | trades (openTrades : Dict Symbol OpenTrade)

def step (d : CandleMemory) : Act → Option CandleMemory
  | .bar event replies =>
    some ((desk.feed.onBarEvent event).exec (fun w q => (replies.answer q, w)) () d).memory
  | .trades openTrades => some { d with openTrades := d.openTrades.map fun _ => openTrades }

end CandleDesk

end Binbot
