import Binbot.Core.Events
import Binbot.Data.Decimal
import Binbot.Data.Dict
import Binbot.Data.SlidingWindow
import Binbot.Server.CandleCache

/-!
# Rolling windows of the universe feed (`data/binance_universe_feed.py`)

One stream brings the mark price and the funding rate of all symbols. The feed keeps the
latest samples of each symbol, seeds them from klines, and answers how far price and funding
have moved over a window.
-/
namespace Binbot

open Data

abbrev Sample : Type := Timestamp × ℚ

/-- An item of a mark-price message. -/
structure MarkPrice where
  symbol : Symbol
  price : ℚ
  fundingRate : ℚ
  deriving DecidableEq

/-- The windows are in microseconds. -/
structure BinanceUniverseFeed where
  priceWindow : ℤ
  fundingWindow : ℤ
  priceHistory : Dict Symbol (List Sample) := .empty
  fundingHistory : Dict Symbol (List Sample) := .empty
  latestPrice : Dict Symbol ℚ := .empty

/-- `_append_trimmed` -/
def appendTrimmed (history : List Sample) (ts : Timestamp) (value : ℚ) (window : ℤ) :
    List Sample :=
  (history ++ [(ts, value)]).dropWhile fun sample => sample.1 < ts - window

/-- `window * 0.9`, in whole microseconds as durations are. -/
def nineTenths (window : ℤ) : ℤ := roundHalfEven (window * (9 / 10))

namespace BinanceUniverseFeed

variable (feed : BinanceUniverseFeed) (symbol : Symbol)

def prices : List Sample := feed.priceHistory.getD symbol []

def fundings : List Sample := feed.fundingHistory.getD symbol []

def appendPrice (ts : Timestamp) (price : ℚ) : BinanceUniverseFeed :=
  { feed with
    priceHistory :=
      feed.priceHistory.set symbol (appendTrimmed (feed.prices symbol) ts price feed.priceWindow) }

def appendFunding (ts : Timestamp) (rate : ℚ) : BinanceUniverseFeed :=
  { feed with
    fundingHistory :=
      feed.fundingHistory.set symbol
        (appendTrimmed (feed.fundings symbol) ts rate feed.fundingWindow) }

/-- `backfill_one` with the klines it has fetched; their open times are in milliseconds. -/
def backfillOne (priceKlines fundingKlines : List KlineRow) : BinanceUniverseFeed :=
  let priced := priceKlines.foldl
    (fun feed row => feed.appendPrice symbol (row.openTime * 1000) row.close) feed
  let latest :=
    match priceKlines.getLast? with
    | none => priced
    | some row => { priced with latestPrice := priced.latestPrice.set symbol row.close }
  fundingKlines.foldl
    (fun feed row => feed.appendFunding symbol (row.openTime * 1000) row.close) latest

/-- One item of a message, and the tick that is published for it. -/
def handleItem (now : Timestamp) (item : MarkPrice) : BinanceUniverseFeed × TickEvent :=
  let appended :=
    (feed.appendPrice item.symbol now item.price).appendFunding item.symbol now item.fundingRate
  ({ appended with latestPrice := appended.latestPrice.set item.symbol item.price },
    { ts := now
      symbol := item.symbol
      bid := item.price
      ask := item.price
      last := item.price
      lastSize := 0 })

/-- How far the price has moved over the window, in percent. -/
def priceChangePct : Option ℚ :=
  let history := feed.prices symbol
  if history.length < 2 then none
  else
    match history.head?, history.getLast? with
    | some oldest, some latest =>
      if latest.1 - oldest.1 < nineTenths feed.priceWindow ∨ oldest.2 = 0 then none
      else some ((latest.2 - oldest.2) / oldest.2 * 100)
    | _, _ => none

/-- The funding rate now and at the start of the window. -/
def fundingTrend : Option (ℚ × ℚ) :=
  let history := feed.fundings symbol
  if history.length < 2 then none
  else
    match history.head?, history.getLast? with
    | some oldest, some latest =>
      if latest.1 - oldest.1 < nineTenths feed.fundingWindow then none
      else some (latest.2, oldest.2)
    | _, _ => none

end BinanceUniverseFeed

/-- What fills the histories. Publishing a tick waits for its handlers, so other tasks run
between the items of a message. An item that does not parse is skipped. -/
inductive FeedAct where
  | backfill (symbol : Symbol) (priceKlines fundingKlines : List KlineRow)
  | item (now : Timestamp) (item : Option MarkPrice)

namespace FeedAct

def apply (feed : BinanceUniverseFeed) : FeedAct → BinanceUniverseFeed
  | backfill symbol priceKlines fundingKlines => feed.backfillOne symbol priceKlines fundingKlines
  | item _ none => feed
  | item now (some mark) => (feed.handleItem now mark).1

/-- The symbol whose history it fills. -/
def symbol? : FeedAct → Option Symbol
  | backfill symbol _ _ => some symbol
  | item _ mark => mark.map MarkPrice.symbol

/-- The price samples it appends. -/
def prices : FeedAct → List Sample
  | backfill _ priceKlines _ => priceKlines.map fun row => (row.openTime * 1000, row.close)
  | item _ none => []
  | item now (some mark) => [(now, mark.price)]

def fundings : FeedAct → List Sample
  | backfill _ _ fundingKlines => fundingKlines.map fun row => (row.openTime * 1000, row.close)
  | item _ none => []
  | item now (some mark) => [(now, mark.fundingRate)]

end FeedAct

/-! ### What an act appends -/

/-- These samples have come to a symbol's histories, and nothing to those of the others. -/
structure Appends (symbol : Symbol) (prices fundings : List Sample) (feed next : BinanceUniverseFeed) :
    Prop where
  priceWindow : next.priceWindow = feed.priceWindow
  fundingWindow : next.fundingWindow = feed.fundingWindow
  prices : ∀ other, next.prices other =
    if other = symbol then
      prices.foldl (SlidingWindow.pushTrimmed feed.priceWindow Prod.fst) (feed.prices other)
    else feed.prices other
  fundings : ∀ other, next.fundings other =
    if other = symbol then
      fundings.foldl (SlidingWindow.pushTrimmed feed.fundingWindow Prod.fst) (feed.fundings other)
    else feed.fundings other

namespace Appends

variable {symbol : Symbol} {feed next last : BinanceUniverseFeed}
variable {prices prices' fundings fundings' : List Sample}

theorem refl (symbol : Symbol) (feed : BinanceUniverseFeed) : Appends symbol [] [] feed feed where
  priceWindow := rfl
  fundingWindow := rfl
  prices other := by simp
  fundings other := by simp

theorem trans (first : Appends symbol prices fundings feed next)
    (second : Appends symbol prices' fundings' next last) :
    Appends symbol (prices ++ prices') (fundings ++ fundings') feed last where
  priceWindow := second.priceWindow.trans first.priceWindow
  fundingWindow := second.fundingWindow.trans first.fundingWindow
  prices other := by
    rw [second.prices, first.prices, first.priceWindow, List.foldl_append]
    split <;> rfl
  fundings other := by
    rw [second.fundings, first.fundings, first.fundingWindow, List.foldl_append]
    split <;> rfl

theorem price (symbol : Symbol) (feed : BinanceUniverseFeed) (ts : Timestamp) (price : ℚ) :
    Appends symbol [(ts, price)] [] feed (feed.appendPrice symbol ts price) where
  priceWindow := rfl
  fundingWindow := rfl
  prices other := by
    rw [BinanceUniverseFeed.prices, Dict.getD, BinanceUniverseFeed.appendPrice, Dict.get?_set]
    split
    next same =>
      subst same
      rfl
    next => rfl
  fundings other := by simp [BinanceUniverseFeed.fundings, BinanceUniverseFeed.appendPrice]

theorem funding (symbol : Symbol) (feed : BinanceUniverseFeed) (ts : Timestamp) (rate : ℚ) :
    Appends symbol [] [(ts, rate)] feed (feed.appendFunding symbol ts rate) where
  priceWindow := rfl
  fundingWindow := rfl
  prices other := by simp [BinanceUniverseFeed.prices, BinanceUniverseFeed.appendFunding]
  fundings other := by
    rw [BinanceUniverseFeed.fundings, Dict.getD, BinanceUniverseFeed.appendFunding, Dict.get?_set]
    split
    next same =>
      subst same
      rfl
    next => rfl

/-- The latest price is not part of the histories. -/
theorem latest (appends : Appends symbol prices fundings feed next) (latest : Dict Symbol ℚ) :
    Appends symbol prices fundings feed { next with latestPrice := latest } := by
  obtain ⟨priceWindow, fundingWindow, prices, fundings⟩ := appends
  exact ⟨priceWindow, fundingWindow, prices, fundings⟩

theorem priceKlines (rows : List KlineRow) (symbol : Symbol) (feed : BinanceUniverseFeed) :
    Appends symbol (rows.map fun row => (row.openTime * 1000, row.close)) [] feed
      (rows.foldl (fun feed row => feed.appendPrice symbol (row.openTime * 1000) row.close)
        feed) := by
  induction rows generalizing feed with
  | nil => exact refl symbol feed
  | cons row rest ih => exact (price symbol feed _ _).trans (ih _)

theorem fundingKlines (rows : List KlineRow) (symbol : Symbol) (feed : BinanceUniverseFeed) :
    Appends symbol [] (rows.map fun row => (row.openTime * 1000, row.close)) feed
      (rows.foldl (fun feed row => feed.appendFunding symbol (row.openTime * 1000) row.close)
        feed) := by
  induction rows generalizing feed with
  | nil => exact refl symbol feed
  | cons row rest ih => exact (funding symbol feed _ _).trans (ih _)

theorem backfillOne (feed : BinanceUniverseFeed) (symbol : Symbol) (prices fundings : List KlineRow) :
    Appends symbol (prices.map fun row => (row.openTime * 1000, row.close))
      (fundings.map fun row => (row.openTime * 1000, row.close)) feed
      (feed.backfillOne symbol prices fundings) := by
  have priced := priceKlines prices symbol feed
  unfold BinanceUniverseFeed.backfillOne
  cases prices.getLast? with
  | none => simpa using priced.trans (fundingKlines fundings symbol _)
  | some row =>
    simpa using (priced.latest _).trans (fundingKlines fundings symbol _)

theorem handleItem (feed : BinanceUniverseFeed) (now : Timestamp) (item : MarkPrice) :
    Appends item.symbol [(now, item.price)] [(now, item.fundingRate)] feed
      (feed.handleItem now item).1 :=
  ((price item.symbol feed now item.price).trans (funding item.symbol _ now item.fundingRate)).latest
    _

end Appends

namespace FeedAct

/-- A symbol's history grows by the act's samples if the act is about that symbol. -/
theorem apply_appends (feed : BinanceUniverseFeed) (act : FeedAct) {symbol : Symbol}
    (own : act.symbol? = some symbol) :
    Appends symbol act.prices act.fundings feed (act.apply feed) := by
  cases act with
  | backfill filled prices fundings =>
    cases own
    exact Appends.backfillOne feed symbol prices fundings
  | item now mark =>
    cases mark with
    | none => cases own
    | some mark =>
      cases own
      exact Appends.handleItem feed now mark

theorem apply_other (feed : BinanceUniverseFeed) (act : FeedAct) {symbol : Symbol}
    (other : act.symbol? ≠ some symbol) :
    (act.apply feed).prices symbol = feed.prices symbol ∧
      (act.apply feed).fundings symbol = feed.fundings symbol := by
  cases about : act.symbol? with
  | none =>
    cases act with
    | backfill filled prices fundings => cases about
    | item now mark =>
      obtain rfl : mark = none := by simpa [symbol?] using about
      exact ⟨rfl, rfl⟩
  | some filled =>
    have appends := apply_appends feed act about
    have apart : symbol ≠ filled := by
      rintro rfl
      exact other about
    rw [appends.prices, appends.fundings, if_neg apart, if_neg apart]
    exact ⟨rfl, rfl⟩

theorem apply_windows (feed : BinanceUniverseFeed) (act : FeedAct) :
    (act.apply feed).priceWindow = feed.priceWindow ∧
      (act.apply feed).fundingWindow = feed.fundingWindow := by
  cases act with
  | backfill symbol prices fundings =>
    have appends := Appends.backfillOne feed symbol prices fundings
    exact ⟨appends.priceWindow, appends.fundingWindow⟩
  | item now mark => cases mark <;> exact ⟨rfl, rfl⟩

end FeedAct

end Binbot
