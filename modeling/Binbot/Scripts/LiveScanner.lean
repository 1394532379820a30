import Binbot.Execution.PositionMonitor
import Binbot.Server.DashboardBridge
import Binbot.Utils.StateRecovery

/-!
# Live scanner wiring (`scripts/run_live_binance_scanner.py`)

The closures of `main`: the signal handler, the dashboard commands and one turn
of the monitor loop. Each is a program over whatever memory holds the risk
engine, the clock, the snapshot file and the scanner's own variables.
-/
namespace Binbot

open Async Data

/-- What `main` and the strategy keep besides the risk engine. -/
structure ScannerState where
  isPaused : Bool
  lastPrice : Dict Symbol ℚ
  /-- The universe feed's latest prices. -/
  feed : Dict Symbol ℚ

/-- What an operator's flatten uses. -/
structure FlattenPorts (σ : Type) (S : Sig) where
  broker : BrokerInterface σ S
  submit : SignalEvent → (expectedPrice : Option ℚ) → Coro σ S Unit
  pushAudit : AuditEntry → Coro σ S Unit

structure LiveScanner (σ : Type) (S : Sig) (F : Type) extends FlattenPorts σ S where
  getStepSize : Symbol → ℚ
  ensureSymbolReady : Symbol → Coro σ S Unit
  cancelAll : Coro σ S Unit
  notify : String → Coro σ S Unit
  recovery : StateRecoveryService σ S F
  leverage : ℚ

section

variable {σ : Type} {S : Sig} [Part σ ScannerState]

def FlattenPorts.flattenAllPositions (self : FlattenPorts σ S) : Coro σ S Unit := do
  let positions ← self.broker.getPositions
  let openPositions := positions.entries.filter fun e => e.2 ≠ 0
  if openPositions.isEmpty then
    self.pushAudit ⟨.risk, .operator, "Flatten requested: no open positions to close"⟩
  else do
    self.pushAudit ⟨.risk, .operator,
      s!"FLATTEN: closing {openPositions.length} position(s) at market"⟩
    Coro.forEach (fun e => do
      let m : ScannerState ← Coro.view
      self.submit (closeSignal "operator-flatten" e.1 e.2) (m.feed.get? e.1)) openPositions

end

namespace LiveScanner

variable {σ : Type} {S : Sig} {F : Type}
variable [Part σ RiskEngine] [Part σ (StateFile F)] [Part σ Clock] [Part σ ScannerState]
variable (self : LiveScanner σ S F)

section Control

omit [Part σ RiskEngine] [Part σ (StateFile F)] [Part σ Clock]

def doPause : Coro σ S Unit := Coro.update fun m : ScannerState => { m with isPaused := true }

def doResume : Coro σ S Unit := Coro.update fun m : ScannerState => { m with isPaused := false }

end Control

section Halt

omit [Part σ Clock]

def engageKillSwitch : Coro σ S Unit := do
  doPause
  self.cancelAll
  Coro.update fun e : RiskEngine =>
    { e with circuitBreaker := e.circuitBreaker.forceHalt "Manual kill switch via dashboard" }
  self.recovery.persist
  self.pushAudit ⟨.error, .operator,
    "KILL SWITCH engaged via dashboard: cancelled all working orders and halted new entries " ++
    "(existing open positions are still watched for stop-loss/take-profit)"⟩

end Halt

def resetKillSwitch : Coro σ S Unit := do
  let equity ← self.broker.getAccountEquity
  let clock : Clock ← Coro.view
  Coro.update fun e : RiskEngine =>
    { e with circuitBreaker := e.circuitBreaker.resetSession equity clock.now.date }
  doResume
  self.recovery.persist
  self.pushAudit ⟨.info, .operator, "Kill switch reset via dashboard: trading loop re-armed"⟩

section Signal

omit [Part σ (StateFile F)]

/-- `sum(abs(qty) * last_price.get(sym, 0.0) * broker.get_step_size(sym) ...)` -/
def grossExposureUsd (lastPrice : Dict Symbol ℚ) (positions : Dict Symbol ℤ) : ℚ :=
  (positions.entries.map fun e => |(e.2 : ℚ)| * lastPrice.getD e.1 0 * self.getStepSize e.1).sum

/-- `check_order` on the shared engine. -/
def checkOrder (signal : SignalEvent) (account : AccountState) : Coro σ S RiskCheckResult := do
  let engine : RiskEngine ← Coro.view
  let clock : Clock ← Coro.view
  let checked := engine.checkOrder signal account clock.monotonic
  Coro.update fun _ : RiskEngine => checked.2
  pure checked.1

def onSignal (signal : SignalEvent) : Coro σ S Unit := do
  let accountEquity ← self.broker.getAccountEquity
  let positions ← self.broker.getPositions
  let seen : ScannerState ← Coro.view
  let gross := self.grossExposureUsd seen.lastPrice positions
  let margin ← self.broker.getMarginUsage
  let result ← checkOrder signal
    { accountEquity := accountEquity, grossExposureUsd := gross, marginUsed := margin }
  if result.passed then do
    self.pushAudit ⟨.risk, .riskEngine, "pre-trade checks passed"⟩
    -- only now, right before submitting, is the symbol configured on the exchange
    self.ensureSymbolReady signal.symbol
    let m : ScannerState ← Coro.view
    self.submit signal (m.lastPrice.get? signal.symbol)
  else
    self.pushAudit ⟨.risk, .riskEngine, s!"REJECTED [{result.code.text}] {result.message}"⟩

end Signal

section Monitor

omit [Part σ ScannerState]

/-- `circuit_breaker.update`: whether this reading tripped the breaker. -/
def updateBreaker (equity : ℚ) : Coro σ S Bool := do
  let engine : RiskEngine ← Coro.view
  let clock : Clock ← Coro.view
  let updated := engine.circuitBreaker.update equity clock.now
  Coro.update fun e : RiskEngine => { e with circuitBreaker := updated.1 }
  match updated.2 with
  | .ok tripped => pure tripped
  | .error e => throw e

def consumeAutoResetFlag : Coro σ S Bool := do
  let engine : RiskEngine ← Coro.view
  let consumed := engine.circuitBreaker.consumeAutoResetFlag
  Coro.update fun e : RiskEngine => { e with circuitBreaker := consumed.2 }
  pure consumed.1

/-- One turn of `monitor_loop`; whatever it raises is logged and dropped. -/
def monitorTurn : Coro σ S Unit :=
  tryCatch (do
    let equity ← self.broker.getAccountEquity
    let positions ← self.broker.getPositions
    Coro.update fun e : RiskEngine => e.updatePositions positions
    let tripped ← updateBreaker equity
    Coro.onlyIf tripped self.cancelAll
    let resumed ← consumeAutoResetFlag
    Coro.onlyIf resumed do
      self.pushAudit ⟨.info, .circuitBreaker,
        "New trading day: daily drawdown limit auto-reset, trading resumed"⟩
      self.notify
        "🟢 *New trading day* — daily drawdown limit reset automatically, trading resumed"
    self.recovery.persist)
    fun _ => pure ()

end Monitor

/-- `refresh_margin_schedule` and the two price books; the bars built from the
tick do not come back to the risk engine. -/
def onTick (symbol : Symbol) (mid : ℚ) (engine : RiskEngine) (m : ScannerState) :
    RiskEngine × ScannerState :=
  let perLotMargin := mid * self.getStepSize symbol / max self.leverage 1
  ({ engine.updateMarketState symbol mid with
      marginCalculator := engine.marginCalculator.setRequirement
        { symbol := symbol
          initialMarginPerContract := perLotMargin
          maintenanceMarginPerContract := perLotMargin * (4 / 5) } },
    { m with lastPrice := m.lastPrice.set symbol mid })

end LiveScanner

end Binbot
