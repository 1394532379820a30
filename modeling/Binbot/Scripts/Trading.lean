import Binbot.Async.Scheduler
import Binbot.Scripts.LiveDesk

/-!
# The order path as tasks

The adapter's stream loop, the order manager's consumer, the dispatcher of the bus and
any number of callers share one desk and take turns at their suspension points. The
exchange moves whenever it likes, and the process may die and start again.
-/
namespace Binbot

open Async Data

inductive TradingTask where
  /-- Whoever submits and cancels. -/
  | caller (n : ℕ)
  | stream
  | consumer
  | dispatcher
  deriving DecidableEq, Repr

inductive TradingCommand where
  | submit (signal : SignalEvent) (expectedPrice : Option ℚ)
  | submitOco (signals : List SignalEvent)
  | cancel (id : OrderId)
  | cancelAll
  | placeStopLoss (symbol : Symbol) (isLong : Bool) (entryPrice : ℚ) (quantityLots : ℤ)
      (maxLossUsdt : ℚ)
  | cancelStopLoss (symbol : Symbol) (id : StopId)
  /-- One message of the user stream. -/
  | receive
  /-- One event of the adapter. -/
  | consume
  /-- One event of the bus, once the handlers before the bridge's have returned or raised. -/
  | dispatch (earlier : Except String Unit)

/-- What happens without any of the tasks. -/
inductive TradingMove where
  | exchange (m : Exchange.Move)
  /-- The filters of a symbol are loaded, as the exchange publishes them. -/
  | load (symbol : Symbol)
  /-- A feed or a strategy publishes an event. -/
  | publish (event : BusEvent)
  | clock (clock : Clock)

namespace DeskParams

variable (p : DeskParams)

/-- One turn of the stream loop. -/
def receive : Coro Desk wireSig Unit := do
  let message ← Coro.request (S := wireSig) .streamRecv
  p.broker.handleUserStreamMessage message

/-- What the dispatcher does with an event; the bridge shows the other kinds to its clients. -/
def handle (earlier : Except String Unit) (event : BusEvent) : Coro Desk wireSig Unit :=
  match earlier, event with
  | .error e, _ => throw e
  | .ok _, .order event => p.bridge.handleOrderEvent event
  | .ok _, _ => pure ()

/-- One turn of `_dispatch_loop`. What a handler raises is logged. -/
def dispatch (earlier : Except String Unit) : Coro Desk wireSig Unit := do
  let bus : EventBus ← Coro.view
  match bus.queue with
  | [] => pure ()
  | event :: rest => do
    Coro.update fun bus : EventBus => { bus with queue := rest }
    tryCatch (p.handle earlier event) fun _ => pure ()

def tradingBody : TradingTask → TradingCommand → Option (Coro Desk wireSig Unit)
  | .caller _, .submit signal expectedPrice => some (p.submit signal expectedPrice)
  | .caller _, .submitOco signals => some (do let _ ← p.orderManager.submitOco signals)
  | .caller _, .cancel id => some (p.orderManager.cancel id)
  | .caller _, .cancelAll => some p.orderManager.cancelAll
  | .caller _, .placeStopLoss symbol isLong entryPrice quantityLots maxLossUsdt =>
    some (do
      let _ ← p.broker.placeStopLoss symbol isLong entryPrice quantityLots maxLossUsdt)
  | .caller _, .cancelStopLoss symbol id => some (p.broker.cancelStopLoss symbol id)
  | .stream, .receive => some p.receive
  | .consumer, .consume => some OrderLifecycleManager.consumeOne
  | .dispatcher, .dispatch earlier => some (p.dispatch earlier)
  | _, _ => none

end DeskParams

def tradingDrift (rules : ExchangeRules) (d : Desk) (x : Exchange) :
    TradingMove → Option (Desk × Exchange)
  | .exchange m => (x.move rules m).map fun y => (d, y)
  | .load symbol =>
    some ({ d with broker :=
      { d.broker with filters := d.broker.filters.set symbol (rules.spec symbol) } }, x)
  -- order events come from the order manager alone
  | .publish (.order _) => none
  | .publish event => some ({ d with bus := d.bus.publish event }, x)
  | .clock clock => some ({ d with clock := clock }, x)

def tradingSystem (p : DeskParams) (rules : ExchangeRules) :
    System TradingTask TradingCommand Service TradingMove Desk Exchange wireSig where
  body := p.tradingBody
  serve x service q := some (x.serve rules service q)
  drift := tradingDrift rules

abbrev TradingWorld : Type := World TradingTask Desk Exchange wireSig

abbrev TradingLabel : Type := Label TradingTask TradingCommand Service TradingMove

/-- The process and the exchange. -/
structure Trading where
  world : TradingWorld
  /-- The event that the dispatcher has taken last. -/
  event : Option BusEvent := none
  /-- The orders that worked at the exchange when the process started. -/
  strays : List OrderId

namespace Trading

variable (rules : ExchangeRules)

/-- A process that starts with these filters. What the stream held is lost. -/
def started (symbols : List Symbol) (uuids : Uuids) (clock : Clock) (x : Exchange) : Trading where
  world :=
    { memory := { Desk.fresh rules symbols with uuids := uuids, clock := clock }
      outside := { x with stream := [] }
      task := fun _ => ⟨.idle, []⟩ }
  strays := (x.orders.filter (·.standing = .working)).map (·.id)

inductive Act where
  | task (label : TradingLabel)
  | restart (symbols : List Symbol)

/-- The event in the dispatcher's hands after a step. -/
def eventAfter (t : Trading) : TradingLabel → Option BusEvent
  | .start .dispatcher _ => t.world.memory.bus.queue.head?
  | _ => t.event

def step (p : DeskParams) (t : Trading) : Act → Option Trading
  | .task label =>
    ((tradingSystem p rules).step t.world label).map fun world =>
      { t with world := world, event := t.eventAfter label }
  | .restart symbols =>
    some (started rules symbols t.world.memory.uuids t.world.memory.clock t.world.outside)

end Trading

end Binbot
