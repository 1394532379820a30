import Binbot.Async.Scheduler
import Binbot.Risk.CircuitBreaker
import Binbot.Risk.Margin
import Binbot.Server.DashboardClients

/-!
# Running figures of the dashboard (`server/dashboard_bridge.py`)

Every other second the bridge asks the broker for the account and tells its clients of it:
the connection, the figures, a point of the equity curve, the risk limits and the open trades.
-/
namespace Binbot

open Async Data

structure KpiFigures where
  portfolioValue : ℚ
  realizedPnl : ℚ
  unrealizedPnl : ℚ
  marginUsedUsd : ℚ
  marginLimitUsd : ℚ
  deriving DecidableEq

structure EquityPoint where
  time : ℤ
  equity : ℚ
  drawdownPct : ℚ
  deriving DecidableEq

structure RiskFigures where
  maxDailyLossUsd : ℚ
  dailyLossUsedUsd : ℚ
  maxPositionContracts : ℤ
  positionContractsUsed : ℤ
  strategyPaused : Bool
  circuitBreakerHalted : Bool
  haltReason : Option String
  deriving DecidableEq

structure OpenTradeRow where
  symbol : Symbol
  side : OrderSide
  quantity : ℤ
  entryPrice : ℚ
  markPrice : ℚ
  unrealizedPnl : ℚ
  openedAt : Option ℤ
  deriving DecidableEq

inductive KpiMessage where
  /-- Whether the broker is connected; the rest of the payload is constant. -/
  | status (connected : Bool)
  | kpis (figures : KpiFigures)
  | equityPoint (point : EquityPoint)
  | risk (figures : RiskFigures)
  | openTrades (rows : List OpenTradeRow)
  deriving DecidableEq

/-- What the loop reads of other tasks. -/
structure KpiSurroundings where
  now : Timestamp
  connected : Bool
  strategyPaused : Bool
  breaker : DrawdownCircuitBreaker
  tracker : TradeTracker
  desk : ClientState

/-- The baseline of the equity curve is the loop's own. -/
structure KpiMemory where
  startingEquity : Option ℚ := none
  around : KpiSurroundings

inductive KpiRequest where
  | accountEquity
  | marginUsage
  | positionDetails
  | positions
  | broadcast (message : KpiMessage)
  deriving DecidableEq

abbrev KpiRequest.Reply : KpiRequest → Type
  | .accountEquity => ℚ
  | .marginUsage => MarginUse
  | .positionDetails => List PositionDetail
  | .positions => Dict Symbol ℤ
  | .broadcast _ => Unit

abbrev kpiSig : Sig := ⟨KpiRequest, KpiRequest.Reply⟩

/-- The limits the bridge was given, and whether it has a provider of position details. -/
structure KpiLoop where
  maxDailyLossUsd : ℚ
  maxPositionContracts : ℤ
  provides : Bool

namespace KpiLoop

def ask (q : KpiRequest) : Coro KpiMemory kpiSig q.Reply := Coro.request (S := kpiSig) q

def broadcast (message : KpiMessage) : Coro KpiMemory kpiSig Unit := ask (.broadcast message)

/-- The drawdown from the higher of the first equity and the latest one, in percent. -/
def drawdownPct (equity startingEquity : ℚ) : ℚ :=
  let peakEquity := max equity startingEquity
  if peakEquity = 0 then 0 else (equity - peakEquity) / peakEquity * 100

variable (self : KpiLoop)

/-- The unrealized P&L and the contracts of the open positions. -/
def exposure : Coro KpiMemory kpiSig (ℚ × ℤ) :=
  if self.provides then do
    let details : List PositionDetail ← ask .positionDetails
    pure ((details.map (·.unrealizedPnl)).sum, (details.map (|·.quantity|)).sum)
  else do
    let positions : Dict Symbol ℤ ← ask .positions
    pure (0, (positions.entries.map (|·.2|)).sum)

/-- `_push_status_and_kpis` -/
def pushStatusAndKpis : Coro KpiMemory kpiSig Unit := do
  let equity : ℚ ← ask .accountEquity
  Coro.update fun m : KpiMemory =>
    { m with startingEquity := some (m.startingEquity.getD equity) }
  let margin : MarginUse ← ask .marginUsage
  let (unrealizedPnl, contractsUsed) ← self.exposure
  let m : KpiMemory ← Coro.view
  let realizedPnl := (m.around.desk.closedTradesRecent.map (·.pnl)).sum
  let totalPnl := realizedPnl + unrealizedPnl
  broadcast (.status m.around.connected)
  broadcast (.kpis
    { portfolioValue := equity
      realizedPnl := realizedPnl
      unrealizedPnl := unrealizedPnl
      marginUsedUsd := margin.initial
      marginLimitUsd := equity })
  let m : KpiMemory ← Coro.view
  broadcast (.equityPoint
    { time := m.around.now.seconds
      equity := equity
      drawdownPct := drawdownPct equity (m.startingEquity.getD equity) })
  let m : KpiMemory ← Coro.view
  broadcast (.risk
    { maxDailyLossUsd := self.maxDailyLossUsd
      dailyLossUsedUsd := max 0 (-totalPnl)
      maxPositionContracts := self.maxPositionContracts
      positionContractsUsed := contractsUsed
      strategyPaused := m.around.strategyPaused
      circuitBreakerHalted := m.around.breaker.isHalted
      haltReason :=
        if m.around.breaker.haltReason = "" then none else some m.around.breaker.haltReason })

/-- `_push_open_trades` -/
def pushOpenTrades : Coro KpiMemory kpiSig Unit :=
  if self.provides then do
    let details : List PositionDetail ← ask .positionDetails
    let m : KpiMemory ← Coro.view
    broadcast (.openTrades (details.map fun d =>
      { symbol := d.symbol
        side := d.side
        quantity := d.quantity
        entryPrice := d.entryPrice
        markPrice := d.markPrice
        unrealizedPnl := d.unrealizedPnl
        openedAt := (m.around.tracker.openTrades.get? d.symbol).map (Int.tdiv ·.entryTs 1000) }))
  else pure ()

/-- One turn of `_kpi_loop`, up to its sleep. -/
def pass : Coro KpiMemory kpiSig Unit :=
  tryCatch (do
    self.pushStatusAndKpis
    self.pushOpenTrades) fun _ => pure ()

/-- An account has some equity. -/
def Sound : (q : KpiRequest) → Answer kpiSig q → Prop
  | .accountEquity, .ok equity => 0 < equity
  | _, _ => True

instance decidableSound : (q : KpiRequest) → (r : Answer kpiSig q) → Decidable (Sound q r)
  | .accountEquity, .ok equity => inferInstanceAs (Decidable (0 < equity))
  | .accountEquity, .error _ => .isTrue trivial
  | .marginUsage, _ => .isTrue trivial
  | .positionDetails, _ => .isTrue trivial
  | .positions, _ => .isTrue trivial
  | .broadcast _, _ => .isTrue trivial

/-- The loop among the other tasks. They change at any moment what it reads; each of its
calls may also raise. -/
def system : System Unit Unit ((q : KpiRequest) → Answer kpiSig q) KpiSurroundings KpiMemory Unit
    kpiSig where
  body _ _ := some self.pass
  serve _ choice q := if Sound q (choice q) then some (choice q, ()) else none
  drift m _ around := some ({ m with around }, ())

/-- A bridge that has made no pass yet. -/
def started (around : KpiSurroundings) : World Unit KpiMemory Unit kpiSig where
  memory := { around := around }
  outside := ()
  task _ := ⟨.idle, []⟩

end KpiLoop

end Binbot
