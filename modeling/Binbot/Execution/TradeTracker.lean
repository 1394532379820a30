import Binbot.Core.Events
import Binbot.Data.Dict

/-!
# Trade tracker (`execution/trade_tracker.py`)

Rebuilds round trips from fills: a fill against the open trade closes it, any
other fill opens or extends one.
-/
namespace Binbot

open Data

structure ClosedTrade where
  symbol : Symbol
  side : OrderSide
  entryTs : Timestamp
  exitTs : Timestamp
  quantity : ℤ
  entryPrice : ℚ
  exitPrice : ℚ
  pnl : ℚ
  deriving DecidableEq

structure OpenTrade where
  entryTs : Timestamp
  side : OrderSide
  quantity : ℤ
  avgEntryPrice : ℚ
  exitNotional : ℚ := 0
  exitQuantity : ℤ := 0
  realizedPnl : ℚ := 0
  deriving DecidableEq

/-- The signed quantity of an open trade. -/
def OpenTrade.signed (trade : OpenTrade) : ℤ := trade.quantity * trade.side.sign

structure TradeTracker where
  openTrades : Dict Symbol OpenTrade := .empty
  closedTrades : List ClosedTrade := []

namespace TradeTracker

variable (self : TradeTracker)

/-- The trade a first fill opens. -/
def opened (event : ExecutionEvent) : OpenTrade where
  entryTs := event.ts
  side := if event.signedFill > 0 then .buy else .sell
  quantity := |event.signedFill|
  avgEntryPrice := event.fillPrice
  realizedPnl := -event.commission

/-- Scaling in: the entry price is the average over both. -/
def extended (trade : OpenTrade) (event : ExecutionEvent) : OpenTrade :=
  let total := trade.quantity + |event.signedFill|
  { trade with
    avgEntryPrice :=
      (trade.avgEntryPrice * trade.quantity + event.fillPrice * ((|event.signedFill| : ℤ) : ℚ)) /
        total
    quantity := total
    realizedPnl := trade.realizedPnl - event.commission }

/-- A closing fill, of at most what is held. -/
def reduced (multiplier : ℚ) (trade : OpenTrade) (event : ExecutionEvent) : OpenTrade :=
  let closing := min |event.signedFill| trade.quantity
  { trade with
    realizedPnl := trade.realizedPnl +
      trade.side.sign * (event.fillPrice - trade.avgEntryPrice) * closing * multiplier -
      event.commission
    exitNotional := trade.exitNotional + event.fillPrice * closing
    exitQuantity := trade.exitQuantity + closing
    quantity := trade.quantity - closing }

def record (symbol : Symbol) (trade : OpenTrade) (event : ExecutionEvent) : ClosedTrade where
  symbol := symbol
  side := trade.side
  entryTs := trade.entryTs
  exitTs := event.ts
  quantity := trade.exitQuantity
  entryPrice := trade.avgEntryPrice
  exitPrice :=
    if trade.exitQuantity = 0 then event.fillPrice else trade.exitNotional / trade.exitQuantity
  pnl := trade.realizedPnl

/-- `on_execution`, with the symbol's contract multiplier. -/
def onExecution (multiplier : ℚ) (event : ExecutionEvent) : TradeTracker × Option ClosedTrade :=
  match self.openTrades.get? event.symbol with
  | none =>
    if event.signedFill = 0 then (self, none)
    else ({ self with openTrades := self.openTrades.set event.symbol (opened event) }, none)
  | some trade =>
    -- an empty fill counts as a sale here
    if event.signedFill > 0 ↔ trade.signed > 0 then
      ({ self with openTrades := self.openTrades.set event.symbol (extended trade event) }, none)
    else
      let left := reduced multiplier trade event
      if left.quantity > 0 then
        ({ self with openTrades := self.openTrades.set event.symbol left }, none)
      else
        let closed := record event.symbol left event
        ({ openTrades := self.openTrades.erase event.symbol
           closedTrades := self.closedTrades ++ [closed] }, some closed)

/-- The tracker's net quantity in a symbol. -/
def net (symbol : Symbol) : ℤ := ((self.openTrades.get? symbol).map OpenTrade.signed).getD 0

end TradeTracker

end Binbot
