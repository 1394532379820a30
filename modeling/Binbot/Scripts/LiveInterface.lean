import Binbot.Async.Scheduler
import Binbot.Scripts.LiveScanner

/-!
# The running scanner

One process: the main task (recovery, then monitor turns), the bus's dispatcher
handling one signal at a time, and any number of dashboard clients giving
commands. They share the process memory and interleave at suspension points;
ticks, feed updates and the clock come in between.
-/
namespace Binbot

open Async Data

inductive LiveReq where
  | accountEquity
  | positions
  | marginUsage
  | pushAudit (entry : AuditEntry)
  | notify (text : String)
  | ensureSymbolReady (symbol : Symbol)
  | submit (signal : SignalEvent) (expectedPrice : Option ℚ)
  | placeOrder (request : BrokerOrderRequest)
  | cancelOrder (orderId : OrderId)
  | cancelAll
  deriving DecidableEq

abbrev LiveReq.Reply : LiveReq → Type
  | .accountEquity => ℚ
  | .positions => Dict Symbol ℤ
  | .marginUsage => MarginUse
  | _ => Unit

abbrev liveSig : Sig := ⟨LiveReq, LiveReq.Reply⟩

/-- The memory of the process. -/
structure Process (F : Type) where
  riskEngine : RiskEngine
  clock : Clock
  stateFile : StateFile F
  scanner : ScannerState

namespace Process

variable {F : Type}

instance : Part (Process F) RiskEngine where
  view := riskEngine
  set p e := { p with riskEngine := e }
  view_set _ _ := rfl
  set_set _ _ _ := rfl

instance : Part (Process F) Clock where
  view := clock
  set p c := { p with clock := c }
  view_set _ _ := rfl
  set_set _ _ _ := rfl

instance : Part (Process F) (StateFile F) where
  view := stateFile
  set p f := { p with stateFile := f }
  view_set _ _ := rfl
  set_set _ _ _ := rfl

instance : Part (Process F) ScannerState where
  view := scanner
  set p s := { p with scanner := s }
  view_set _ _ := rfl
  set_set _ _ _ := rfl

variable (p : Process F)

@[simp] theorem view_riskEngine : (Part.view p : RiskEngine) = p.riskEngine := rfl
@[simp] theorem view_clock : (Part.view p : Clock) = p.clock := rfl
@[simp] theorem view_stateFile : (Part.view p : StateFile F) = p.stateFile := rfl
@[simp] theorem view_scanner : (Part.view p : ScannerState) = p.scanner := rfl

@[simp] theorem set_riskEngine (e : RiskEngine) :
    Part.set p e = { p with riskEngine := e } := rfl
@[simp] theorem set_clock (c : Clock) : Part.set p c = { p with clock := c } := rfl
@[simp] theorem set_stateFile (f : StateFile F) :
    Part.set p f = { p with stateFile := f } := rfl
@[simp] theorem set_scanner (s : ScannerState) : Part.set p s = { p with scanner := s } := rfl

/-- The recorded position of a symbol. -/
def recorded (s : Symbol) : ℤ := p.riskEngine.positions.getD s 0

/-- Whether the circuit breaker is halted. -/
def halted : Bool := p.riskEngine.circuitBreaker.isHalted

end Process

/-- The settings of a deployment. -/
structure LiveParams (F : Type) where
  getStepSize : Symbol → ℚ
  leverage : ℚ
  format : SnapshotFormat F
  environmentId : String

inductive LiveTask where
  | main
  | signals
  | client (connection : ℕ)
  deriving DecidableEq

inductive LiveCommand where
  | recover
  | monitorTurn
  | signal (event : SignalEvent)
  | pause
  | resume
  | flatten
  | killSwitch
  | resetKillSwitch

/-- What moves without any of the tasks. -/
inductive LiveMove where
  | tick (symbol : Symbol) (mid : ℚ)
  | feed (symbol : Symbol) (price : ℚ)
  | clock (clock : Clock)

/-- An outside that may answer anything, or raise, at every request. -/
abbrev LiveReply : Type := (q : LiveReq) → Answer liveSig q

def liveBroker {F : Type} : BrokerInterface (Process F) liveSig where
  placeOrder request := Coro.request (S := liveSig) (.placeOrder request)
  cancelOrder orderId := Coro.request (S := liveSig) (.cancelOrder orderId)
  cancelAll := Coro.request (S := liveSig) .cancelAll
  getAccountEquity := Coro.request (S := liveSig) .accountEquity
  getPositions := Coro.request (S := liveSig) .positions
  getMarginUsage := Coro.request (S := liveSig) .marginUsage
  -- the adapter's reconcile_state is get_positions and a log line
  reconcileState := Coro.request (S := liveSig) .positions

namespace LiveParams

variable {F : Type} (p : LiveParams F)

def scanner : LiveScanner (Process F) liveSig F where
  broker := liveBroker
  getStepSize := p.getStepSize
  ensureSymbolReady symbol := Coro.request (S := liveSig) (.ensureSymbolReady symbol)
  submit signal price := Coro.request (S := liveSig) (.submit signal price)
  cancelAll := Coro.request (S := liveSig) .cancelAll
  pushAudit entry := Coro.request (S := liveSig) (.pushAudit entry)
  notify text := Coro.request (S := liveSig) (.notify text)
  recovery := ⟨liveBroker, p.format, p.environmentId⟩
  leverage := p.leverage

/-- The program a task runs on a command. -/
def body : LiveTask → LiveCommand → Option (Coro (Process F) liveSig Unit)
  | .main, .recover => some do let _ ← p.scanner.recovery.recover
  | .main, .monitorTurn => some p.scanner.monitorTurn
  | .signals, .signal event => some (p.scanner.onSignal event)
  | .client _, .pause => some LiveScanner.doPause
  | .client _, .resume => some LiveScanner.doResume
  | .client _, .flatten => some p.scanner.flattenAllPositions
  | .client _, .killSwitch => some p.scanner.engageKillSwitch
  | .client _, .resetKillSwitch => some p.scanner.resetKillSwitch
  | _, _ => none

def drift (m : Process F) : LiveMove → Process F
  | .tick symbol mid =>
    let ticked := p.scanner.onTick symbol mid m.riskEngine m.scanner
    { m with riskEngine := ticked.1, scanner := ticked.2 }
  | .feed symbol price =>
    { m with scanner := { m.scanner with feed := m.scanner.feed.set symbol price } }
  | .clock clock => { m with clock := clock }

def live : System LiveTask LiveCommand LiveReply LiveMove (Process F) Unit liveSig where
  body := p.body
  serve _ choice q := some (choice q, ())
  drift m _ move := some (p.drift m move, ())

abbrev LiveWorld (F : Type) : Type := World LiveTask (Process F) Unit liveSig

abbrev LiveLabel : Type := Label LiveTask LiveCommand LiveReply LiveMove

/-- A fresh process: no task has run. -/
def start (memory : Process F) : LiveWorld F where
  memory := memory
  outside := ()
  task _ := ⟨.idle, []⟩

/-- Lots of 0.001, tenfold leverage, and a state file that holds the snapshot itself. -/
def demo : LiveParams SessionSnapshot where
  getStepSize _ := 1 / 1000
  leverage := 10
  format := ⟨id, fun snapshot => .ok (some snapshot)⟩
  environmentId := "testnet:0"

def demoProcess : Process SessionSnapshot where
  riskEngine :=
    { maxContractsPerOrder := 10
      maxContractsPerSymbol := 10
      maxPositionNotionalUsd := 100000
      maxGrossLeverage := 5
      circuitBreaker := ⟨5, 1, 0, 1, false, "", false, by decide +kernel, by decide +kernel⟩
      marginCalculator := { schedule := .ofList [("BTCUSDT", ⟨"BTCUSDT", 100, 80⟩)] }
      rateLimiter := { maxPerSecond := 5, maxPerMinute := 60 }
      prices := .ofList [("BTCUSDT", 50000)] }
  clock := ⟨0, 0⟩
  stateFile := ⟨none⟩
  scanner := ⟨false, .ofList [("BTCUSDT", 50000)], .empty⟩

/-- An outside that raises nothing: an account of 10000 with these positions. -/
def quiet (positions : Dict Symbol ℤ) : LiveReply
  | .accountEquity => .ok (10000 : ℚ)
  | .positions => .ok positions
  | .marginUsage => .ok (⟨0, 0⟩ : MarginUse)
  | .pushAudit _ => .ok ()
  | .notify _ => .ok ()
  | .ensureSymbolReady _ => .ok ()
  | .submit _ _ => .ok ()
  | .placeOrder _ => .ok ()
  | .cancelOrder _ => .ok ()
  | .cancelAll => .ok ()

/-- The next `n` requests of a task, each answered and delivered at once. -/
def exchanged (task : LiveTask) (reply : LiveReply) (n : ℕ) : List LiveLabel :=
  (List.replicate n [.serve task reply, .resume task]).flatten

end LiveParams

end Binbot
