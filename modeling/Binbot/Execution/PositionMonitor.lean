import Binbot.Async.Coroutine
import Binbot.Core.Events
import Binbot.Data.Decimal
import Binbot.Data.Dict
import Binbot.Data.Rounding
import Mathlib.Data.Finset.Basic
import Mathlib.Data.Finset.Insert

/-!
# Position monitor (`execution/position_monitor.py`)

One poll reads the open positions, records a stop-loss for each symbol newly
seen, closes what has reached an exit, and forgets the symbols that left.
-/
namespace Binbot

open Async Data

/-- The exchange's id of a native stop. -/
abbrev StopId : Type := ℕ

inductive CloseReason where
  | stopLoss (unrealizedPnl stopLossUsdt : ℚ)
  | profitCap (roiPct hardCapPct : ℚ)
  | trailingProfit (roiPct trailLevelPct peakRoiPct : ℚ)
  deriving DecidableEq

def CloseReason.text : CloseReason → String
  | .stopLoss pnl stop => s!"STOP-LOSS: {fixed 2 pnl} USDT <= -{fixed 0 stop} USDT"
  | .profitCap roi cap => s!"PROFIT-CAP: {fixed 2 roi}% ROI >= cap {fixed 0 cap}%"
  | .trailingProfit roi trail peak =>
    s!"TRAILING-PROFIT: {fixed 2 roi}% ROI <= trail {fixed 2 trail}% (peak {fixed 2 peak}%)"

/-- Exit thresholds in ROI percent. Settings reject a step increment that is not positive. -/
structure TrailingProfit where
  armPct : ℚ
  basePct : ℚ
  stepPct : ℚ
  stepIncrementPct : ℚ
  hardCapPct : ℚ
  increment_pos : 0 < stepIncrementPct

/-- The trailing stop ROI% for the peak profit reached so far. -/
def TrailingProfit.stopLevelIn (r : Rounding) (t : TrailingProfit) (peakRoiPct : ℚ) : ℚ :=
  let steps := ⌊r.div (r.sub peakRoiPct t.armPct) t.stepIncrementPct⌋
  r.add t.basePct (r.mul (r steps) t.stepPct)

def TrailingProfit.stopLevel (t : TrailingProfit) (peakRoiPct : ℚ) : ℚ :=
  t.stopLevelIn .exact peakRoiPct

/-- The exit a position has reached, first match wins. -/
def TrailingProfit.exitReason (t : TrailingProfit) (pnl stopLossUsdt roi peak : ℚ) :
    Option CloseReason :=
  if pnl ≤ -stopLossUsdt then some (.stopLoss pnl stopLossUsdt)
  else if roi ≥ t.hardCapPct then some (.profitCap roi t.hardCapPct)
  else if peak ≥ t.armPct then
    if roi ≤ t.stopLevel peak then some (.trailingProfit roi (t.stopLevel peak) peak) else none
  else none

structure MonitorState where
  positions : Dict Symbol ℤ
  closing : Finset Symbol
  nativeStopOrderId : Dict Symbol StopId
  peakRoiPct : Dict Symbol ℚ
  positionStopLossUsdt : Dict Symbol ℚ

def MonitorState.initial : MonitorState := ⟨.empty, ∅, .empty, .empty, .empty⟩

/-- What the monitor asks of the broker adapter. -/
structure MonitorBroker (σ : Type) (S : Sig) where
  getPositionDetails : Coro σ S (List PositionDetail)
  getAccountEquity : Coro σ S ℚ
  placeStopLoss : (symbol : Symbol) → (isLong : Bool) → (entryPrice : ℚ) → (quantityLots : ℤ) →
    (maxLossUsdt : ℚ) → Coro σ S (Option StopId)
  cancelStopLoss : Symbol → StopId → Coro σ S Unit

structure PositionMonitor (σ : Type) (S : Sig) where
  broker : MonitorBroker σ S
  submit : SignalEvent → Option ℚ → Coro σ S Unit
  stopLossEquityPct : ℚ
  leverage : ℚ
  stepSizeLookup : Symbol → Coro σ S ℚ
  trailing : TrailingProfit
  onCloseEvent : Option (Symbol → CloseReason → Coro σ S Unit) := none
  priceLookup : Option (Symbol → Coro σ S (Option ℚ)) := none

/-- The market order that closes the signed position `qty`. -/
def closeSignal (strategyId : String) (symbol : Symbol) (qty : ℤ) : SignalEvent where
  symbol := symbol
  strategyId := strategyId
  side := .closing qty
  targetQuantity := |qty|
  orderType := .market
  timeInForce := .day

namespace PositionMonitor

variable {σ : Type} {S : Sig} [Part σ MonitorState]

def marginUsdt (leverage stepSize : ℚ) (detail : PositionDetail) : ℚ :=
  if leverage > 0 then detail.quantity * stepSize * detail.entryPrice / leverage else 0

def roiPct (leverage stepSize : ℚ) (detail : PositionDetail) : ℚ :=
  if marginUsdt leverage stepSize detail > 0 then
    detail.unrealizedPnl / marginUsdt leverage stepSize detail * 100
  else 0

def armNativeStop (self : PositionMonitor σ S) (detail : PositionDetail) (maxLossUsdt : ℚ) :
    Coro σ S Unit := do
  let orderId ← self.broker.placeStopLoss detail.symbol (detail.side = .buy) detail.entryPrice
    detail.quantity maxLossUsdt
  match orderId with
  | some id => Coro.update fun m : MonitorState =>
      { m with nativeStopOrderId := m.nativeStopOrderId.set detail.symbol id }
  | none => pure ()

def disarmNativeStop (self : PositionMonitor σ S) (symbol : Symbol) : Coro σ S Unit := do
  let m : MonitorState ← Coro.view
  Coro.update fun m : MonitorState =>
    { m with nativeStopOrderId := m.nativeStopOrderId.erase symbol }
  match m.nativeStopOrderId.get? symbol with
  | some id => self.broker.cancelStopLoss symbol id
  | none => pure ()

def closePosition (self : PositionMonitor σ S) (symbol : Symbol) (qty : ℤ) (reason : CloseReason) :
    Coro σ S Unit := do
  Coro.update fun m : MonitorState => { m with closing := insert symbol m.closing }
  match self.onCloseEvent with
  | some callback => callback symbol reason
  | none => pure ()
  let expectedPrice ← match self.priceLookup with
    | some lookup => lookup symbol
    | none => pure none
  self.submit (closeSignal "position-monitor" symbol qty) expectedPrice

/-- Freeze the stop-loss of a symbol newly seen and arm its native stop. -/
def recordEntry (self : PositionMonitor σ S) (detail : PositionDetail) : Coro σ S Unit := do
  let equity ← self.broker.getAccountEquity
  let maxLossUsdt := equity * self.stopLossEquityPct / 100
  Coro.update fun m : MonitorState =>
    { m with positionStopLossUsdt := m.positionStopLossUsdt.set detail.symbol maxLossUsdt }
  self.armNativeStop detail maxLossUsdt

/-- Ratchet the peak and apply the exit thresholds. -/
def judge (self : PositionMonitor σ S) (detail : PositionDetail) : Coro σ S Unit := do
  let m : MonitorState ← Coro.view
  let stopLossUsdt := m.positionStopLossUsdt.getD detail.symbol 0
  let stepSize ← self.stepSizeLookup detail.symbol
  let roi := roiPct self.leverage stepSize detail
  let peak := max (m.peakRoiPct.getD detail.symbol roi) roi
  Coro.update fun m : MonitorState => { m with peakRoiPct := m.peakRoiPct.set detail.symbol peak }
  match self.trailing.exitReason detail.unrealizedPnl stopLossUsdt roi peak with
  | none => pure ()
  | some reason =>
    match m.positions.get? detail.symbol with
    | some qty => self.closePosition detail.symbol qty reason
    | none => throw "KeyError"

/-- One pass of the loop over the snapshot. -/
def checkDetail (self : PositionMonitor σ S) (previous : List Symbol) (detail : PositionDetail) :
    Coro σ S Unit := do
  let m : MonitorState ← Coro.view
  if detail.symbol ∈ m.closing then pure ()
  else do
    if detail.symbol ∈ previous then pure () else self.recordEntry detail
    self.judge detail

/-- Forget a symbol that left the book. -/
def forget (self : PositionMonitor σ S) (symbol : Symbol) : Coro σ S Unit := do
  self.disarmNativeStop symbol
  Coro.update fun m : MonitorState =>
    { m with
      peakRoiPct := m.peakRoiPct.erase symbol
      positionStopLossUsdt := m.positionStopLossUsdt.erase symbol }

/-- `self._closing &= current_symbols` and the new `self._positions`. -/
def MonitorState.reread (m : MonitorState) (details : List PositionDetail) : MonitorState :=
  { m with
    closing := m.closing.filter fun symbol => symbol ∈ details.map (·.symbol)
    positions := Dict.ofList (details.map fun d => (d.symbol, d.signedQuantity)) }

/-- `_check_once`. The symbols that left are forgotten in book order, where the
source iterates a set. -/
def checkOnce (self : PositionMonitor σ S) : Coro σ S Unit := do
  let details ← self.broker.getPositionDetails
  let m : MonitorState ← Coro.view
  Coro.update fun m : MonitorState => MonitorState.reread m details
  Coro.forEach (self.checkDetail m.positions.keys) details
  Coro.forEach self.forget
    (m.positions.keys.filter fun symbol => symbol ∉ details.map (·.symbol))

end PositionMonitor

end Binbot
