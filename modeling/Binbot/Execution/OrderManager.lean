import Binbot.Async.Coroutine
import Binbot.Core.EventBus
import Binbot.Data.Dict
import Binbot.Data.Rounding
import Binbot.Risk.Margin

/-!
# Order lifecycle manager (`execution/order_manager.py`)

Every order is recorded before the broker (`execution/broker_interface.py`) hears of it, and
every broker event that names a recorded order updates it and goes on to the event bus.
-/
namespace Binbot

open Async Data

/-- The calls every adapter must answer. Each may suspend, and each may raise. -/
structure BrokerInterface (σ : Type) (S : Sig) where
  placeOrder : BrokerOrderRequest → Coro σ S Unit
  cancelOrder : OrderId → Coro σ S Unit
  cancelAll : Coro σ S Unit
  getAccountEquity : Coro σ S ℚ
  getPositions : Coro σ S (Dict Symbol ℤ)
  getMarginUsage : Coro σ S MarginUse
  reconcileState : Coro σ S (Dict Symbol ℤ)

structure ManagedOrder where
  orderId : OrderId
  symbol : Symbol
  side : OrderSide
  quantity : ℤ
  orderType : OrderType
  limitPrice : Option ℚ
  timeInForce : TimeInForce
  expectedPrice : Option ℚ
  ocaGroup : Option String
  status : OrderStatus
  filledQuantity : ℤ
  remainingQuantity : ℤ
  avgFillPrice : ℚ
  rejectReason : String
  deriving DecidableEq

/-- The uuids drawn so far; they stay distinct over restarts. -/
structure Uuids where
  drawn : ℕ
  deriving DecidableEq

structure ManagerState where
  orders : Dict OrderId ManagedOrder := .empty
  /-- `SlippageTracker._records`: fill quantity and slippage of each measured fill. -/
  slippage : Dict Symbol (List (ℤ × ℚ)) := .empty

/-- A new record, as `ManagedOrder.__post_init__` leaves it. -/
def ManagedOrder.ofSignal (orderId : OrderId) (signal : SignalEvent)
    (expectedPrice : Option ℚ) : ManagedOrder where
  orderId := orderId
  symbol := signal.symbol
  side := signal.side
  quantity := |signal.targetQuantity|
  orderType := signal.orderType
  limitPrice := signal.limitPrice
  timeInForce := signal.timeInForce
  expectedPrice := expectedPrice
  ocaGroup := signal.ocaGroup
  status := .submitted
  filledQuantity := 0
  remainingQuantity := |signal.targetQuantity|
  avgFillPrice := 0
  rejectReason := ""

def ManagedOrder.request (order : ManagedOrder) : BrokerOrderRequest where
  orderId := order.orderId
  symbol := order.symbol
  side := order.side
  quantity := order.quantity
  orderType := order.orderType
  limitPrice := order.limitPrice
  timeInForce := order.timeInForce
  ocaGroup := order.ocaGroup

/-- The record after a fill. -/
def ManagedOrder.filledByIn (r : Rounding) (order : ManagedOrder) (event : ExecutionEvent) :
    ManagedOrder :=
  let prevNotional := r.mul order.avgFillPrice (r order.filledQuantity)
  let newNotional := r.add prevNotional (r.mul event.fillPrice (r event.fillQuantity))
  { order with
    filledQuantity := event.cumulativeQuantity
    remainingQuantity := event.remainingQuantity
    avgFillPrice :=
      if event.cumulativeQuantity = 0 then 0 else r.div newNotional (r event.cumulativeQuantity)
    status := if event.remainingQuantity = 0 then .filled else .partiallyFilled }

def ManagedOrder.filledBy (order : ManagedOrder) (event : ExecutionEvent) : ManagedOrder :=
  order.filledByIn .exact event

theorem ManagedOrder.filledBy_eq (order : ManagedOrder) (event : ExecutionEvent) :
    order.filledBy event = { order with
      filledQuantity := event.cumulativeQuantity
      remainingQuantity := event.remainingQuantity
      avgFillPrice :=
        if event.cumulativeQuantity = 0 then 0
        else (order.avgFillPrice * order.filledQuantity + event.fillPrice * event.fillQuantity) /
          event.cumulativeQuantity
      status := if event.remainingQuantity = 0 then .filled else .partiallyFilled } := rfl

/-- The record after a broker event, and the event as it is republished. -/
def ManagedOrder.after (order : ManagedOrder) : BrokerEvent → ManagedOrder × BrokerEvent
  | .ack event => ({ order with status := event.status }, .ack event)
  | .reject event =>
    ({ order with status := .rejected, rejectReason := event.reason }, .reject event)
  | .execution event =>
    (order.filledBy event, .execution { event with expectedPrice := order.expectedPrice })

/-- `SlippageTracker.record`. -/
def recordSlippage (records : Dict Symbol (List (ℤ × ℚ))) (event : ExecutionEvent) :
    Dict Symbol (List (ℤ × ℚ)) :=
  match event.slippage with
  | none => records
  | some slippage => records.set event.symbol
      (records.getD event.symbol [] ++ [(event.fillQuantity, slippage)])

namespace ManagerState

variable (self : ManagerState)

def getOrder (orderId : OrderId) : Option ManagedOrder := self.orders.get? orderId

def openOrders : List ManagedOrder :=
  (self.orders.entries.map Prod.snd).filter fun order => !order.status.isTerminal

/-- The records and samples after an event, and what is published of it. -/
def handleEvent (event : BrokerEvent) : ManagerState × Option BrokerEvent :=
  match self.orders.get? event.orderId with
  | none => (self, none)
  | some order =>
    let updated := order.after event
    ({ orders := self.orders.set event.orderId updated.1
       slippage := match updated.2 with
         | .execution fill => recordSlippage self.slippage fill
         | _ => self.slippage }, some updated.2)

/-- The manager forgets no order. -/
theorem handleEvent_keys (event : BrokerEvent) :
    ∀ id ∈ self.orders.keys, id ∈ (self.handleEvent event).1.orders.keys := by
  intro id member
  rw [handleEvent]
  split
  · exact member
  · exact (Dict.mem_keys_set _ _ _ _).mpr (Or.inr member)

end ManagerState

structure OrderLifecycleManager (σ : Type) (S : Sig) where
  broker : BrokerInterface σ S

namespace OrderLifecycleManager

variable {σ : Type} {S : Sig} [Part σ ManagerState] [Part σ Uuids] [Part σ EventBus]
variable (self : OrderLifecycleManager σ S)

omit [Part σ ManagerState] [Part σ EventBus] in
def uuid4 : Coro σ S OrderId := do
  let uuids : Uuids ← Coro.view
  Coro.update fun u : Uuids => { u with drawn := u.drawn + 1 }
  pure (.hex uuids.drawn)

section Submit

omit [Part σ EventBus]

def submit (signal : SignalEvent) (expectedPrice : Option ℚ) : Coro σ S OrderId := do
  let orderId ← uuid4
  let managed := ManagedOrder.ofSignal orderId signal expectedPrice
  Coro.update fun m : ManagerState => { m with orders := m.orders.set orderId managed }
  self.broker.placeOrder managed.request
  pure orderId

/-- One leg after the other; a leg that raises ends the batch. -/
def submitLegs : List SignalEvent → Coro σ S (List OrderId)
  | [] => pure []
  | signal :: rest => do
    let first ← self.submit signal none
    let others ← submitLegs rest
    pure (first :: others)

def submitOco (signals : List SignalEvent) : Coro σ S (List OrderId) := do
  if signals.length < 2 then throw "OCO group requires at least 2 signals"
  else do
    let group ← uuid4
    let name := match group with
      | .hex draw => s!"oca-{draw}"
      | .native symbol ms => s!"oca-{symbol}-{ms}"
      | .counted id => s!"oca-{id}"
    self.submitLegs (signals.map fun s => { s with ocaGroup := some name })

end Submit

section Cancel

omit [Part σ Uuids] [Part σ EventBus]

def cancel (orderId : OrderId) : Coro σ S Unit := do
  let m : ManagerState ← Coro.view
  match m.orders.get? orderId with
  | none => pure ()
  | some order => do
    Coro.update fun m : ManagerState =>
      { m with orders := m.orders.set orderId { order with status := .cancelPending } }
    self.broker.cancelOrder orderId

omit [Part σ ManagerState] in
def cancelAll : Coro σ S Unit := self.broker.cancelAll

end Cancel

omit [Part σ Uuids] in
/-- `_handle_broker_event`: no awaited call of it suspends. -/
def handleBrokerEvent (event : BrokerEvent) : Coro σ S Unit := do
  let m : ManagerState ← Coro.view
  let handled := m.handleEvent event
  Coro.update fun _ : ManagerState => handled.1
  match handled.2 with
  | none => pure ()
  | some published => Coro.update fun bus : EventBus => bus.publish (.order published)

end OrderLifecycleManager

end Binbot
