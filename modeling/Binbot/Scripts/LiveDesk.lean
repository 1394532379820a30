import Binbot.Execution.Exchange
import Binbot.Scripts.LiveScanner

/-!
# The order path of the running scanner

The objects that `main` wires together between a decision and the exchange: the
position monitor, the operator's flatten, the order manager, the adapter, the
event bus, the dashboard bridge and the trade tracker, over one memory.
-/
namespace Binbot

open Async Data

structure Desk where
  monitor : MonitorState
  manager : ManagerState
  broker : BrokerState
  uuids : Uuids
  bus : EventBus
  tracker : TradeTracker
  reasons : CloseReasons
  scanner : ScannerState
  clock : Clock

namespace Desk

instance : Part Desk MonitorState where
  view := monitor
  set d m := { d with monitor := m }
  view_set _ _ := rfl
  set_set _ _ _ := rfl

instance : Part Desk ManagerState where
  view := manager
  set d m := { d with manager := m }
  view_set _ _ := rfl
  set_set _ _ _ := rfl

instance : Part Desk BrokerState where
  view := broker
  set d m := { d with broker := m }
  view_set _ _ := rfl
  set_set _ _ _ := rfl

instance : Part Desk Uuids where
  view := uuids
  set d u := { d with uuids := u }
  view_set _ _ := rfl
  set_set _ _ _ := rfl

instance : Part Desk EventBus where
  view := bus
  set d b := { d with bus := b }
  view_set _ _ := rfl
  set_set _ _ _ := rfl

instance : Part Desk TradeTracker where
  view := tracker
  set d t := { d with tracker := t }
  view_set _ _ := rfl
  set_set _ _ _ := rfl

instance : Part Desk CloseReasons where
  view := reasons
  set d r := { d with reasons := r }
  view_set _ _ := rfl
  set_set _ _ _ := rfl

instance : Part Desk ScannerState where
  view := scanner
  set d s := { d with scanner := s }
  view_set _ _ := rfl
  set_set _ _ _ := rfl

instance : Part Desk Clock where
  view := clock
  set d c := { d with clock := c }
  view_set _ _ := rfl
  set_set _ _ _ := rfl

end Desk

/-- The settings of the scanner that its order path reads. -/
structure DeskParams where
  symbols : List Symbol
  leverage : ℕ
  marginType : MarginType
  stopLossEquityPct : ℚ
  trailing : TrailingProfit
  /-- Whether Telegram is configured. -/
  notifies : Bool

namespace DeskParams

variable (p : DeskParams)

def pushAudit (entry : AuditEntry) : Coro Desk wireSig Unit :=
  Coro.request (S := wireSig) (.pushAudit entry)

def broker : BinanceFuturesBroker Desk wireSig where
  client := wireClient Desk
  symbols := p.symbols
  leverage := p.leverage
  marginType := p.marginType
  now := do
    let clock : Clock ← Coro.view
    pure clock.now

/-- An order is sent over the wire. -/
theorem broker_createOrder (params : OrderParams) : p.broker.client.createOrder params =
    Coro.request (S := wireSig) (.createOrder params) := rfl

def orderManager : OrderLifecycleManager Desk wireSig := ⟨p.broker.toInterface⟩

def submit (signal : SignalEvent) (expectedPrice : Option ℚ) : Coro Desk wireSig Unit := do
  let _ ← p.orderManager.submit signal expectedPrice

def bridge : DashboardBridge Desk wireSig where
  broadcast message := Coro.request (S := wireSig) (.broadcast message)
  pushAudit := pushAudit
  notifier := if p.notifies then some fun text => Coro.request (S := wireSig) (.notify text) else none
  multiplierLookup := BinanceFuturesBroker.getStepSize

/-- What is sent to a notifier is a request. -/
theorem bridge_notifier {send : String → Coro Desk wireSig Unit}
    (found : p.bridge.notifier = some send) :
    send = fun text => Coro.request (S := wireSig) (.notify text) := by
  simp only [bridge] at found
  split at found
  · exact (Option.some.inj found).symm
  · cases found

/-- `on_position_close`. -/
def onPositionClose (symbol : Symbol) (reason : CloseReason) : Coro Desk wireSig Unit := do
  DashboardBridge.noteCloseReason symbol reason.text
  pushAudit ⟨.risk, .positionMonitor, s!"{symbol}: {reason.text}"⟩

def latestPrice (symbol : Symbol) : Coro Desk wireSig (Option ℚ) := do
  let m : ScannerState ← Coro.view
  pure (m.feed.get? symbol)

def positionMonitor : PositionMonitor Desk wireSig where
  broker := p.broker.toMonitorBroker
  submit := p.submit
  stopLossEquityPct := p.stopLossEquityPct
  leverage := p.leverage
  stepSizeLookup := BinanceFuturesBroker.getStepSize
  trailing := p.trailing
  onCloseEvent := some onPositionClose
  priceLookup := some latestPrice

def flatten : FlattenPorts Desk wireSig where
  broker := p.broker.toInterface
  submit := p.submit
  pushAudit := pushAudit

/-- A small deployment: no symbols at construction, as the scanner has it. -/
def demoDesk : DeskParams where
  symbols := []
  leverage := 10
  marginType := .isolated
  stopLossEquityPct := 5
  trailing := ⟨20, 10, 5, 10, 100, by decide +kernel⟩
  notifies := false

end DeskParams

/-- A process that has loaded the filters of these symbols and done nothing else. -/
def Desk.fresh (rules : ExchangeRules) (symbols : List Symbol) : Desk where
  monitor := .initial
  manager := {}
  broker := { filters := .ofList (symbols.map fun symbol => (symbol, rules.spec symbol)) }
  uuids := ⟨0⟩
  bus := {}
  tracker := {}
  reasons := ⟨.empty⟩
  scanner := ⟨false, .empty, .empty⟩
  clock := ⟨0, 0⟩

theorem Desk.fresh_loaded {rules : ExchangeRules} {symbols : List Symbol} {s : Symbol}
    {filt : SymbolFilters} (known : (Desk.fresh rules symbols).broker.filters.get? s = some filt) :
    filt = rules.spec s := by
  simp only [Desk.fresh, Dict.get?_ofList] at known
  have member := Dict.mem_of_lookup known
  rw [List.mem_reverse, List.mem_map] at member
  obtain ⟨symbol, -, same⟩ := member
  cases same
  rfl

/-! ## The desk against the exchange -/

/-- One state for both ends of the wire. -/
structure DeskState where
  desk : Desk
  exchange : Exchange

namespace DeskState

/-- Run a program that nothing interrupts, against an exchange that serves all of its
requests alike. -/
def alone {α : Type} (rules : ExchangeRules) (c : Coro Desk wireSig α) (service : Service)
    (s : DeskState) : DeskState :=
  let outcome := c.exec (fun x q => x.serve rules service q) s.exchange s.desk
  ⟨outcome.memory, outcome.outside⟩

end DeskState

/-- One turn of `_consume_broker_events`; what a handler raises is logged. -/
def OrderLifecycleManager.consumeOne : Coro Desk wireSig Unit := do
  let broker : BrokerState ← Coro.view
  match broker.eventQueue with
  | [] => pure ()
  | event :: rest => do
    Coro.update fun m : BrokerState => { m with eventQueue := rest }
    tryCatch (OrderLifecycleManager.handleBrokerEvent event) fun _ => pure ()

end Binbot
