import Binbot.Backtest.Performance
import Binbot.Data.Decimal
import Binbot.Data.DictSum
import Binbot.Data.Rounding
import Binbot.Execution.OrderManager
import Mathlib.Data.List.DropRight

/-!
# Market simulator (`backtest/market_simulator.py`)

A broker whose orders wait until a bar of their symbol fills them. Money is exact, but for the
price of one fill, which is also given as it is rounded; the square root and the logarithm of the
impact model are parameters.
-/
namespace Binbot

open Async Data

/-- The running round trip of a symbol. -/
structure SimulatedTrade where
  entryTs : Timestamp
  side : OrderSide
  peakQuantity : ℤ
  pnl : ℚ := 0
  deriving DecidableEq

/-- The trade after a fill that leaves `newPosition`. -/
def SimulatedTrade.charged (trade : SimulatedTrade) (newPosition : ℤ) (commission profit : ℚ) :
    SimulatedTrade :=
  { trade with
    peakQuantity := max trade.peakQuantity |newPosition|
    pnl := trade.pnl - commission + profit }

/-- The record of a trade that is over. -/
def SimulatedTrade.recorded (trade : SimulatedTrade) (symbol : Symbol) (exitTs : Timestamp) :
    TradeRecord where
  symbol := symbol
  side := trade.side
  entryTs := trade.entryTs
  exitTs := exitTs
  quantity := trade.peakQuantity
  pnl := trade.pnl

structure MarketImpactParams where
  impactCoefficient : ℚ := 1 / 10
  spreadCaptureFraction : ℚ := 1 / 2
  maxParticipationRate : ℚ := 1 / 10

/-- `math.sqrt`, where it is called on a number that is not negative, and `math.log`
of a positive number. -/
structure RealFunctions where
  sqrt : ℚ → ℚ
  log : ℚ → ℚ

structure PendingOrder where
  request : BrokerOrderRequest
  expectedPrice : ℚ
  remainingQty : ℤ
  barsAlive : ℕ := 0
  deriving DecidableEq

structure SimulatorState where
  equity : ℚ
  positions : Dict Symbol ℤ := .empty
  avgEntryPrice : Dict Symbol ℚ := .empty
  pendingOrders : Dict Symbol (List PendingOrder) := .empty
  lastBar : Dict Symbol BarEvent := .empty
  /-- The last 20 volumes, and the last 20 log returns. -/
  volumeHistory : Dict Symbol (List ℚ) := .empty
  returnHistory : Dict Symbol (List ℚ) := .empty
  eventQueue : List BrokerEvent := []
  fills : List ExecutionEvent := []
  openTrades : Dict Symbol SimulatedTrade := .empty
  trades : List TradeRecord := []

namespace SimulatorState

variable (m : SimulatorState)

def position (symbol : Symbol) : ℤ := m.positions.getD symbol 0

def averageEntry (symbol : Symbol) : ℚ := m.avgEntryPrice.getD symbol 0

def put (event : BrokerEvent) : SimulatorState := { m with eventQueue := m.eventQueue ++ [event] }

/-- The trade of the symbol is over. -/
def finalizeTrade (symbol : Symbol) (exitTs : Timestamp) : SimulatorState :=
  match m.openTrades.get? symbol with
  | none => m
  | some trade =>
    { m with
      openTrades := m.openTrades.erase symbol
      trades := m.trades ++ [trade.recorded symbol exitTs] }

/-- The entry that `place_order` makes. -/
def pendingOrder (request : BrokerOrderRequest) : PendingOrder where
  request := request
  expectedPrice := ((m.lastBar.get? request.symbol).map (·.close)).getD 0
  remainingQty := request.quantity

def placeOrder (request : BrokerOrderRequest) : SimulatorState :=
  let waiting := m.pendingOrders.getD request.symbol []
  let placed := { m with
    pendingOrders := m.pendingOrders.set request.symbol (waiting ++ [m.pendingOrder request]) }
  placed.put (.ack ⟨request.orderId, request.symbol, .acknowledged, none⟩)

def cancelOrder (orderId : OrderId) : SimulatorState :=
  { m with
    pendingOrders := m.pendingOrders.keys.foldl (fun pending symbol =>
      pending.set symbol ((pending.getD symbol []).filter (·.request.orderId ≠ orderId)))
      m.pendingOrders }

def cancelAll : SimulatorState := { m with pendingOrders := .empty }

end SimulatorState

structure MarketSimulatorBroker where
  contractMultipliers : Dict Symbol ℚ := .empty
  impact : MarketImpactParams := {}
  commissionPerContract : ℚ := 9 / 4
  maths : RealFunctions

/-- The position passes through zero. -/
def isFlip (prevPosition newPosition : ℤ) : Prop :=
  prevPosition ≠ 0 ∧ newPosition ≠ 0 ∧ ¬ (prevPosition > 0 ↔ newPosition > 0)

instance (prevPosition newPosition : ℤ) : Decidable (isFlip prevPosition newPosition) :=
  inferInstanceAs (Decidable (_ ∧ _ ∧ ¬ (_ ↔ _)))

/-- The profit on the part of a fill that closes existing exposure. -/
def closingPnl (prevPosition signedQty : ℤ) (fillPrice entry multiplier : ℚ) : ℚ :=
  if prevPosition ≠ 0 ∧ ¬ (prevPosition > 0 ↔ signedQty > 0) then
    (if prevPosition > 0 then 1 else -1) * (fillPrice - entry) *
      ((min |signedQty| |prevPosition| : ℤ) : ℚ) * multiplier
  else 0

/-- The average entry price after a fill. -/
def averageAfter (prevPosition signedQty : ℤ) (fillPrice average : ℚ) : ℚ :=
  -- a flip starts the surviving exposure at this fill's price
  if isFlip prevPosition (prevPosition + signedQty) then fillPrice
  else if prevPosition + signedQty = 0 then 0
  else if prevPosition ≥ 0 ∧ signedQty > 0 ∨ prevPosition ≤ 0 ∧ signedQty < 0 then
    let totalQty := |prevPosition| + |signedQty|
    if totalQty = 0 then fillPrice
    else (average * ((|prevPosition| : ℤ) : ℚ) + fillPrice * ((|signedQty| : ℤ) : ℚ)) / totalQty
  else average

namespace MarketSimulatorBroker

variable (self : MarketSimulatorBroker)

def multiplier (symbol : Symbol) : ℚ := self.contractMultipliers.getD symbol 1

/-- `_update_history`: `math.log` raises when the close is not positive. -/
def updateHistory (m : SimulatorState) (bar : BarEvent) : Except String SimulatorState :=
  let volumes := (m.volumeHistory.getD bar.symbol [] ++ [bar.volume]).rtake 20
  let counted := { m with volumeHistory := m.volumeHistory.set bar.symbol volumes }
  match m.lastBar.get? bar.symbol with
  | none => .ok counted
  | some prev =>
    if prev.close > 0 then
      if bar.close / prev.close ≤ 0 then .error "math domain error"
      else
        let logReturn := self.maths.log (bar.close / prev.close)
        let returns := (m.returnHistory.getD bar.symbol [] ++ [logReturn]).rtake 20
        .ok { counted with returnHistory := m.returnHistory.set bar.symbol returns }
    else .ok counted

def realizedVolPct (m : SimulatorState) (symbol : Symbol) : ℚ :=
  let returns := m.returnHistory.getD symbol []
  if returns.length < 2 then 1
  else
    let mean : ℚ := returns.sum / returns.length
    let variance : ℚ := (returns.map fun r => (r - mean) ^ 2).sum / ((returns.length : ℚ) - 1)
    self.maths.sqrt variance * self.maths.sqrt 252 * 100

/-- `sqrt_market_impact_bps`. -/
def sqrtMarketImpactBpsIn (r : Rounding) (quantity : ℤ) (barVolume realizedVolPct : ℚ) : ℚ :=
  if barVolume ≤ 0 then 0
  else
    let participation := r.div (r quantity) barVolume
    r.mul (r.mul self.impact.impactCoefficient (r.div realizedVolPct 100))
      (self.maths.sqrt (max participation 0))

def sqrtMarketImpactBps (quantity : ℤ) (barVolume realizedVolPct : ℚ) : ℚ :=
  self.sqrtMarketImpactBpsIn .exact quantity barVolume realizedVolPct

theorem sqrtMarketImpactBps_eq (quantity : ℤ) (barVolume realizedVolPct : ℚ) :
    self.sqrtMarketImpactBps quantity barVolume realizedVolPct =
      if barVolume ≤ 0 then 0
      else self.impact.impactCoefficient * (realizedVolPct / 100) *
        self.maths.sqrt (max (quantity / barVolume) 0) := rfl

def determineFillQuantity (pending : PendingOrder) (bar : BarEvent) : ℤ :=
  let participation := truncate (bar.volume * self.impact.maxParticipationRate)
  match pending.request.orderType with
  | .market => min pending.remainingQty (max participation pending.remainingQty)
  | .limit | .stopLimit =>
    let limit := pending.request.limitPrice.getD 0
    if bar.low ≤ limit ∧ limit ≤ bar.high then min pending.remainingQty (max participation 1)
    else 0
  -- the whole rest, at the close
  | .stop | .marketOnClose => pending.remainingQty

/-- The price that the costs are added to. A limit price of zero counts as none. -/
def referencePrice (request : BrokerOrderRequest) (bar : BarEvent) : ℚ :=
  match request.orderType with
  | .limit => if request.limitPrice.getD 0 = 0 then bar.close else request.limitPrice.getD 0
  | _ => bar.open_

/-- The share of the bar's range that is added to a price, on the order's side. -/
def spreadCostIn (r : Rounding) (request : BrokerOrderRequest) (bar : BarEvent) : ℚ :=
  let barRange := max (r.sub bar.high bar.low) (r (1 / 1000000000))
  r.mul (r.mul barRange self.impact.spreadCaptureFraction) request.side.sign

def impactCostIn (r : Rounding) (realizedVolPct : ℚ) (request : BrokerOrderRequest)
    (bar : BarEvent) (fillQty : ℤ) : ℚ :=
  let impactBps := self.sqrtMarketImpactBpsIn r fillQty (max bar.volume 1) realizedVolPct
  r.mul (r.mul (referencePrice request bar) impactBps) request.side.sign

/-- The price of a fill at this volatility. -/
def fillPriceIn (r : Rounding) (realizedVolPct : ℚ) (request : BrokerOrderRequest)
    (bar : BarEvent) (fillQty : ℤ) : ℚ :=
  r.add (r.add (referencePrice request bar) (self.spreadCostIn r request bar))
    (self.impactCostIn r realizedVolPct request bar fillQty)

def computeFillPrice (m : SimulatorState) (pending : PendingOrder) (bar : BarEvent)
    (fillQty : ℤ) : ℚ :=
  self.fillPriceIn .exact (self.realizedVolPct m bar.symbol) pending.request bar fillQty

theorem computeFillPrice_eq (m : SimulatorState) (pending : PendingOrder) (bar : BarEvent)
    (fillQty : ℤ) :
    self.computeFillPrice m pending bar fillQty =
      referencePrice pending.request bar +
        max (bar.high - bar.low) (1 / 1000000000) * self.impact.spreadCaptureFraction *
          pending.request.side.sign +
        referencePrice pending.request bar * self.sqrtMarketImpactBps fillQty (max bar.volume 1)
          (self.realizedVolPct m bar.symbol) * pending.request.side.sign := rfl

/-- What a fill is reported as. -/
def execution (pending : PendingOrder) (fillQty : ℤ) (fillPrice : ℚ) (bar : BarEvent) :
    ExecutionEvent where
  ts := bar.ts
  orderId := pending.request.orderId
  symbol := bar.symbol
  side := pending.request.side
  fillQuantity := fillQty
  fillPrice := fillPrice
  cumulativeQuantity := pending.request.quantity - pending.remainingQty + fillQty
  remainingQuantity := pending.remainingQty - fillQty
  commission := self.commissionPerContract * fillQty
  liquidity := if pending.request.orderType = .market then .taker else .maker
  expectedPrice := some pending.expectedPrice

/-- A new round trip at this bar. -/
def newTrade (position : ℤ) (bar : BarEvent) : SimulatedTrade where
  entryTs := bar.ts
  side := if position > 0 then .buy else .sell
  peakQuantity := |position|

/-- The trades of the symbol after a fill: opened when it leaves flat, charged with the
commission and credited with the closing profit, finished at flat, split at a flip. -/
def applyToTrade (m : SimulatorState) (prevPosition newPosition : ℤ) (commission profit : ℚ)
    (bar : BarEvent) : SimulatorState :=
  let opened :=
    if prevPosition = 0 ∧ newPosition ≠ 0 then
      m.openTrades.set bar.symbol (newTrade newPosition bar)
    else m.openTrades
  let charged := match opened.get? bar.symbol with
    | none => opened
    | some trade => opened.set bar.symbol (trade.charged newPosition commission profit)
  let m := { m with openTrades := charged }
  if newPosition = 0 ∧ prevPosition ≠ 0 then m.finalizeTrade bar.symbol bar.ts
  else if isFlip prevPosition newPosition then
    let finished := m.finalizeTrade bar.symbol bar.ts
    { finished with openTrades := finished.openTrades.set bar.symbol (newTrade newPosition bar) }
  else m

/-- `_apply_fill`. The realized profit is folded into the equity at once. -/
def applyFill (m : SimulatorState) (pending : PendingOrder) (fillQty : ℤ) (fillPrice : ℚ)
    (bar : BarEvent) : SimulatorState :=
  let signedQty := fillQty * pending.request.side.sign
  let commission := self.commissionPerContract * fillQty
  let prevPosition := m.position bar.symbol
  let average := m.averageEntry bar.symbol
  let profit := closingPnl prevPosition signedQty fillPrice average (self.multiplier bar.symbol)
  let traded := applyToTrade m prevPosition (prevPosition + signedQty) commission profit bar
  let event := self.execution pending fillQty fillPrice bar
  { traded with
    avgEntryPrice :=
      m.avgEntryPrice.set bar.symbol (averageAfter prevPosition signedQty fillPrice average)
    positions := m.positions.set bar.symbol (prevPosition + signedQty)
    equity := m.equity + (profit - commission)
    fills := m.fills ++ [event]
    eventQueue := m.eventQueue ++ [.execution event] }

/-- One order against a bar: the state, and what is carried forward of the order. -/
def resolveOrder (m : SimulatorState) (bar : BarEvent) (pending : PendingOrder) :
    SimulatorState × Option PendingOrder :=
  let fillQty := self.determineFillQuantity pending bar
  let filled :=
    if fillQty > 0 then
      self.applyFill m pending fillQty (self.computeFillPrice m pending bar fillQty) bar
    else m
  let left := pending.remainingQty - fillQty
  if left ≤ 0 then (filled, none)
  else if pending.request.timeInForce = .ioc ∨ pending.request.timeInForce = .fok then
    -- an unfilled remainder is cancelled
    (filled, none)
  else (filled, some { pending with remainingQty := left, barsAlive := pending.barsAlive + 1 })

/-- The orders of a symbol one after the other. -/
def resolveOrders (bar : BarEvent) :
    SimulatorState → List PendingOrder → SimulatorState × List PendingOrder
  | m, [] => (m, [])
  | m, pending :: rest =>
    let resolved := self.resolveOrder m bar pending
    let others := resolveOrders bar resolved.1 rest
    (others.1, resolved.2.toList ++ others.2)

def resolvePendingOrders (m : SimulatorState) (bar : BarEvent) : SimulatorState :=
  let resolved := self.resolveOrders bar m (m.pendingOrders.getD bar.symbol [])
  { resolved.1 with pendingOrders := resolved.1.pendingOrders.set bar.symbol resolved.2 }

def processBar (m : SimulatorState) (bar : BarEvent) : Except String SimulatorState := do
  let counted ← self.updateHistory m bar
  let resolved := self.resolvePendingOrders counted bar
  pure { resolved with lastBar := resolved.lastBar.set bar.symbol bar }

/-- The simulator behind the common contract; no call of it suspends. -/
def toInterface {σ : Type} {S : Sig} [Part σ SimulatorState] : BrokerInterface σ S where
  placeOrder request := Coro.update fun m : SimulatorState => m.placeOrder request
  cancelOrder orderId := Coro.update fun m : SimulatorState => m.cancelOrder orderId
  cancelAll := Coro.update fun m : SimulatorState => m.cancelAll
  getAccountEquity := do
    let m : SimulatorState ← Coro.view
    pure m.equity
  getPositions := do
    let m : SimulatorState ← Coro.view
    pure m.positions
  -- ample margin is assumed
  getMarginUsage := pure ⟨0, 0⟩
  reconcileState := do
    let m : SimulatorState ← Coro.view
    pure m.positions

end MarketSimulatorBroker

end Binbot
