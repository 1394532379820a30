import Binbot.Data.Decimal
import Binbot.Execution.OrderManager
import Binbot.Execution.TradeTracker

/-!
# Dashboard bridge (`server/dashboard_bridge.py`)

The last listener on the bus: it forwards order events to the dashboard's
clients and feeds the fills to the trade tracker.
-/
namespace Binbot

open Async Data

inductive AuditLevel where
  | info
  | signal
  | fill
  | risk
  | error
  deriving DecidableEq, Repr

inductive AuditSource where
  | operator
  | riskEngine
  | circuitBreaker
  | positionMonitor
  | orderManager
  | tradeTracker
  deriving DecidableEq, Repr

structure AuditEntry where
  level : AuditLevel
  source : AuditSource
  message : String
  deriving DecidableEq

/-- The payloads of an order event. -/
inductive DashboardMessage where
  | order (managed : ManagedOrder)
  | executionMarker (event : ExecutionEvent)
  | closedTrade (trade : ClosedTrade)
  deriving DecidableEq

/-- `_close_reasons`: why a position is being closed, until its closing is announced. -/
structure CloseReasons where
  bySymbol : Dict Symbol String

def closedLabel (reason : String) : String :=
  if reason.startsWith "STOP-LOSS" then "🔴 *STOP-LOSS HIT*"
  else if reason.startsWith "PROFIT-CAP" then "🟢 *PROFIT CAP HIT*"
  else if reason.startsWith "TRAILING-PROFIT" then "🟢 *TRAILING-PROFIT HIT*"
  else "⚪ *Position closed*"

structure DashboardBridge (σ : Type) (S : Sig) where
  broadcast : DashboardMessage → Coro σ S Unit
  pushAudit : AuditEntry → Coro σ S Unit
  notifier : Option (String → Coro σ S Unit)
  /-- The tracker's contract multipliers. -/
  multiplierLookup : Symbol → Coro σ S ℚ

namespace DashboardBridge

variable {σ : Type} {S : Sig}
variable [Part σ ManagerState] [Part σ TradeTracker] [Part σ CloseReasons]
variable (self : DashboardBridge σ S)

section Announce

omit [Part σ ManagerState] [Part σ TradeTracker]

omit [Part σ CloseReasons] in
def announceOpened (event : ExecutionEvent) : Coro σ S Unit :=
  match self.notifier with
  | none => pure ()
  | some send => send (s!"🟢 *Opened* {event.side.text} `{event.symbol}`\n" ++
      s!"Qty: {event.fillQuantity}  Entry: {shortest event.fillPrice}")

def announceClosed (closed : ClosedTrade) : Coro σ S Unit := do
  self.broadcast (.closedTrade closed)
  self.pushAudit ⟨if closed.pnl ≥ 0 then .fill else .risk, .tradeTracker,
    s!"CLOSED {closed.symbol} {closed.side.text} — P&L {signed 2 closed.pnl} USDT"⟩
  match self.notifier with
  | none => pure ()
  | some send => do
    let reasons : CloseReasons ← Coro.view
    Coro.update fun r : CloseReasons => { r with bySymbol := r.bySymbol.erase closed.symbol }
    let label := closedLabel (reasons.bySymbol.getD closed.symbol "")
    send (s!"{label}: `{closed.symbol}`\n" ++
      s!"P&L: *{signed 2 closed.pnl} USDT*\n" ++
      s!"Entry {shortest closed.entryPrice} → Exit {shortest closed.exitPrice}\n" ++
      s!"Duration: {(closed.exitTs - closed.entryTs) / 60000000}m")

end Announce

/-- `_handle_order_event`. -/
def handleOrderEvent (event : BrokerEvent) : Coro σ S Unit := do
  let m : ManagerState ← Coro.view
  match m.orders.get? event.orderId with
  | none => pure ()
  | some managed => do
    self.broadcast (.order managed)
    match event with
    | .execution fill => do
      self.broadcast (.executionMarker fill)
      self.pushAudit ⟨.fill, .orderManager,
        s!"FILLED {fill.side.text} {fill.fillQuantity} {fill.symbol} @ {shortest fill.fillPrice}"⟩
      let multiplier ← self.multiplierLookup fill.symbol
      let before : TradeTracker ← Coro.view
      let result := before.onExecution multiplier fill
      Coro.update fun _ : TradeTracker => result.1
      Coro.onlyIf (!before.openTrades.contains fill.symbol && result.1.openTrades.contains fill.symbol)
        (self.announceOpened fill)
      match result.2 with
      | some closed => self.announceClosed closed
      | none => pure ()
    | _ => pure ()

omit [Part σ ManagerState] [Part σ TradeTracker] in
/-- `note_close_reason`. -/
def noteCloseReason (symbol : Symbol) (reason : String) : Coro σ S Unit :=
  Coro.update fun r : CloseReasons => { r with bySymbol := r.bySymbol.set symbol reason }

end DashboardBridge

end Binbot
