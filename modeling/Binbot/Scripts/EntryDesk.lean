import Binbot.Execution.MonitorInterface
import Binbot.Execution.StopDesk
import Binbot.Scripts.LiveInterface
import Binbot.Strategies.FundingMomentumScanner

/-!
# The scanner's entries

The dispatcher of the bus hands bars to the strategy and signals to the signal handler,
one event at a time; the position monitor polls in a task of its own. The exchange fills,
ends and closes whatever it likes in between.
-/
namespace Binbot

open Async Data

/-- What the dispatcher's handlers await, and what a poll awaits. -/
inductive EntryReq where
  | live (q : LiveReq)
  | monitor (q : MonitorReq)
  deriving DecidableEq

abbrev EntryReq.Reply : EntryReq → Type
  | .live q => q.Reply
  | .monitor q => q.Reply

abbrev entrySig : Sig := ⟨EntryReq, EntryReq.Reply⟩

/-- An accepted entry order that may still fill. -/
structure EntryOrder where
  id : ℕ
  symbol : Symbol
  deriving DecidableEq

structure EntryMarket where
  positions : Dict Symbol HeldPosition := .empty
  entries : List EntryOrder := []
  nextId : ℕ := 0

namespace EntryMarket

variable (x : EntryMarket)

/-- The symbols with an open position or an entry order in flight. -/
def live : Finset Symbol := x.positions.keys.toFinset ∪ (x.entries.map (·.symbol)).toFinset

/-- `get_position_details`. The filters of all symbols are loaded at startup. -/
def details (marks : Symbol → ℚ × ℚ) : List PositionDetail :=
  x.positions.entries.map fun (symbol, held) => held.detail symbol (marks symbol)

def accept (symbol : Symbol) : EntryMarket :=
  { x with entries := x.entries ++ [⟨x.nextId, symbol⟩], nextId := x.nextId + 1 }

end EntryMarket

/-- What the outside decides about one request: whether the exchange accepts the order, and
what the call returns or raises. -/
structure EntryService where
  acts : Bool := true
  reply : (q : EntryReq) → Answer entrySig q
  marks : Symbol → ℚ × ℚ := fun _ => (0, 0)

/-- The handlers' orders are entries. A poll that is answered is told the open positions. -/
def EntryMarket.serve (x : EntryMarket) (service : EntryService) :
    (q : EntryReq) → Answer entrySig q × EntryMarket
  | .live (.submit signal expectedPrice) =>
    (service.reply (.live (.submit signal expectedPrice)),
      if service.acts then x.accept signal.symbol else x)
  | .monitor .positionDetails =>
    (match service.reply (.monitor .positionDetails) with
      | .error e => .error e
      | .ok _ => .ok (x.details service.marks), x)
  | q => (service.reply q, x)

/-- What happens without the two tasks. -/
inductive EntryMove where
  /-- An entry order fills, in part or to its end. -/
  | fill (id : ℕ) (held : HeldPosition) (whole : Bool)
  /-- An entry order is rejected, cancelled or expires. -/
  | finish (id : ℕ)
  /-- An open position is reduced, by whatever closes it. -/
  | reduce (symbol : Symbol) (held : HeldPosition)
  | close (symbol : Symbol)
  /-- Somebody else publishes; signals come from the strategy. -/
  | publish (event : BusEvent)
  | feed (feed : UniverseFeed)
  | clock (clock : Clock)
  | engine (engine : RiskEngine)
  | scanner (scanner : ScannerState)

/-- The memory of the process. -/
structure EntryProcess where
  riskEngine : RiskEngine
  clock : Clock
  scanner : ScannerState
  feed : UniverseFeed := {}
  bus : EventBus := {}
  monitor : MonitorState := .initial
  pending : PendingEntries := {}

namespace EntryProcess

instance : Part EntryProcess RiskEngine where
  view := riskEngine
  set p e := { p with riskEngine := e }
  view_set _ _ := rfl
  set_set _ _ _ := rfl

instance : Part EntryProcess Clock where
  view := clock
  set p c := { p with clock := c }
  view_set _ _ := rfl
  set_set _ _ _ := rfl

instance : Part EntryProcess ScannerState where
  view := scanner
  set p s := { p with scanner := s }
  view_set _ _ := rfl
  set_set _ _ _ := rfl

instance : Part EntryProcess UniverseFeed where
  view := feed
  set p f := { p with feed := f }
  view_set _ _ := rfl
  set_set _ _ _ := rfl

instance : Part EntryProcess EventBus where
  view := bus
  set p b := { p with bus := b }
  view_set _ _ := rfl
  set_set _ _ _ := rfl

instance : Part EntryProcess MonitorState where
  view := monitor
  set p m := { p with monitor := m }
  view_set _ _ := rfl
  set_set _ _ _ := rfl

instance : Part EntryProcess PendingEntries where
  view := pending
  set p m := { p with pending := m }
  view_set _ _ := rfl
  set_set _ _ _ := rfl

variable (m : EntryProcess)

/-- The entries pending after the prune that a bar starts with. -/
def pruned : PendingEntries := m.pending.pruned m.clock.monotonic m.monitor.positions

/-- What the gate counts. -/
def seen : Finset Symbol := m.pruned.openSymbols m.monitor.positions

/-- The symbols of the signals that the bus has yet to hand on. -/
def queued : List Symbol := m.bus.queue.filterMap fun
  | .signal signal => some signal.symbol
  | _ => none

end EntryProcess

structure EntryParams where
  scannerParams : ScannerParams
  symbols : List Symbol
  getStepSize : Symbol → ℚ
  leverage : ℚ
  monitor : MonitorParams

inductive EntryTask where
  | dispatcher
  | monitor
  deriving DecidableEq

inductive EntryCommand where
  /-- One event of the bus, once the handlers before these have returned or raised. -/
  | dispatch (earlier : Except String Unit)
  | poll (latestPrice : Symbol → Option ℚ)

def entryBroker : BrokerInterface EntryProcess entrySig where
  placeOrder request := Coro.request (S := entrySig) (.live (.placeOrder request))
  cancelOrder orderId := Coro.request (S := entrySig) (.live (.cancelOrder orderId))
  cancelAll := Coro.request (S := entrySig) (.live .cancelAll)
  getAccountEquity := Coro.request (S := entrySig) (.live .accountEquity)
  getPositions := Coro.request (S := entrySig) (.live .positions)
  getMarginUsage := Coro.request (S := entrySig) (.live .marginUsage)
  reconcileState := Coro.request (S := entrySig) (.live .positions)

namespace EntryParams

variable (p : EntryParams)

def strategy : FundingMomentumScanner EntryProcess entrySig where
  strategyId := "funding-momentum-scanner"
  symbols := p.symbols
  params := p.scannerParams
  stepSizeLookup := p.getStepSize
  equityLookup := entryBroker.getAccountEquity

/-- The closures of `main`; the snapshot file is not looked at here. -/
def main : LiveScanner EntryProcess entrySig Unit where
  broker := entryBroker
  getStepSize := p.getStepSize
  ensureSymbolReady symbol := Coro.request (S := entrySig) (.live (.ensureSymbolReady symbol))
  submit signal price := Coro.request (S := entrySig) (.live (.submit signal price))
  cancelAll := Coro.request (S := entrySig) (.live .cancelAll)
  pushAudit entry := Coro.request (S := entrySig) (.live (.pushAudit entry))
  notify text := Coro.request (S := entrySig) (.live (.notify text))
  recovery := ⟨entryBroker, ⟨fun _ => (), fun _ => .ok none⟩, ""⟩
  leverage := p.leverage

/-- What the dispatcher does with an event; neither handler takes the other kinds. -/
def handle (earlier : Except String Unit) (event : BusEvent) : Coro EntryProcess entrySig Unit :=
  match earlier, event with
  | .error e, _ => throw e
  | .ok _, .bar bar => p.strategy.dispatchBar bar
  | .ok _, .signal signal => p.main.onSignal signal
  | .ok _, _ => pure ()

/-- One turn of `_dispatch_loop`. What a handler raises is logged. -/
def dispatch (earlier : Except String Unit) : Coro EntryProcess entrySig Unit := do
  let bus : EventBus ← Coro.view
  match bus.queue with
  | [] => pure ()
  | event :: rest => do
    Coro.update fun bus : EventBus => { bus with queue := rest }
    tryCatch (p.handle earlier event) fun _ => pure ()

/-- One turn of the monitor's `_loop`. -/
def poll (latestPrice : Symbol → Option ℚ) : Coro EntryProcess entrySig Unit :=
  (p.monitor.monitor latestPrice).checkOnce.within EntryReq.monitor fun _ r => r

def entryBody : EntryTask → EntryCommand → Option (Coro EntryProcess entrySig Unit)
  | .dispatcher, .dispatch earlier => some (p.dispatch earlier)
  | .monitor, .poll latestPrice => some (p.poll latestPrice)
  | _, _ => none

end EntryParams

def entryDrift (m : EntryProcess) (x : EntryMarket) :
    EntryMove → Option (EntryProcess × EntryMarket)
  | .fill id held whole =>
    (x.entries.find? (·.id = id)).map fun order =>
      (m, { x with
        positions := x.positions.set order.symbol held
        entries := if whole then x.entries.filter (·.id ≠ id) else x.entries })
  | .finish id => some (m, { x with entries := x.entries.filter (·.id ≠ id) })
  | .reduce symbol held =>
    if x.positions.contains symbol then
      some (m, { x with positions := x.positions.set symbol held })
    else none
  | .close symbol => some (m, { x with positions := x.positions.erase symbol })
  | .publish (.signal _) => none
  | .publish event => some ({ m with bus := m.bus.publish event }, x)
  | .feed feed => some ({ m with feed := feed }, x)
  | .clock clock => some ({ m with clock := clock }, x)
  | .engine engine => some ({ m with riskEngine := engine }, x)
  | .scanner scanner => some ({ m with scanner := scanner }, x)

def entrySystem (p : EntryParams) :
    System EntryTask EntryCommand EntryService EntryMove EntryProcess EntryMarket entrySig where
  body := p.entryBody
  serve x service q := some (x.serve service q)
  drift := entryDrift

abbrev EntryWorld : Type := World EntryTask EntryProcess EntryMarket entrySig

abbrev EntryLabel : Type := Label EntryTask EntryCommand EntryService EntryMove

/-- The process and the exchange. -/
structure EntryDesk where
  world : EntryWorld
  /-- The event that the dispatcher has taken last. -/
  hand : Option BusEvent := none

namespace EntryDesk

/-- A process that starts while these positions are open. -/
def started (engine : RiskEngine) (clock : Clock) (scanner : ScannerState)
    (positions : Dict Symbol HeldPosition) : EntryDesk where
  world :=
    { memory := { riskEngine := engine, clock := clock, scanner := scanner }
      outside := { positions := positions }
      task := fun _ => ⟨.idle, []⟩ }

/-- The event in the dispatcher's hands after a step. -/
def handAfter (d : EntryDesk) : EntryLabel → Option BusEvent
  | .start .dispatcher _ => d.world.memory.bus.queue.head?
  | _ => d.hand

def step (p : EntryParams) (d : EntryDesk) (label : EntryLabel) : Option EntryDesk :=
  ((entrySystem p).step d.world label).map fun world =>
    { world := world, hand := d.handAfter label }

end EntryDesk

end Binbot
