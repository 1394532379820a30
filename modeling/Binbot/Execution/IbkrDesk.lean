import Binbot.Execution.IbkrBroker
import Binbot.Execution.ManagerCalls

/-!
# The order manager over the IBKR adapter

Of the calls only `place_order` suspends, while the contract of its symbol is qualified;
meanwhile the other calls, the callbacks of the client and the consumer of the events go
on. An act is one such piece between two suspensions.
-/
namespace Binbot

open Async Data

structure IbkrMemory where
  manager : ManagerState := {}
  uuids : Uuids := ⟨0⟩
  bus : EventBus := {}
  ibkr : IbkrState := {}

namespace IbkrMemory

instance : Part IbkrMemory ManagerState where
  view := manager
  set d m := { d with manager := m }
  view_set _ _ := rfl
  set_set _ _ _ := rfl

instance : Part IbkrMemory Uuids where
  view := uuids
  set d u := { d with uuids := u }
  view_set _ _ := rfl
  set_set _ _ _ := rfl

instance : Part IbkrMemory EventBus where
  view := bus
  set d b := { d with bus := b }
  view_set _ _ := rfl
  set_set _ _ _ := rfl

instance : Part IbkrMemory IbkrState where
  view := ibkr
  set d m := { d with ibkr := m }
  view_set _ _ := rfl
  set_set _ _ _ := rfl

@[simp] theorem view_manager (s : IbkrMemory) : (Part.view s : ManagerState) = s.manager := rfl

@[simp] theorem view_ibkr (s : IbkrMemory) : (Part.view s : IbkrState) = s.ibkr := rfl

end IbkrMemory

structure IbkrDesk where
  memory : IbkrMemory := {}
  /-- The orders whose contract is being qualified. -/
  placing : List BrokerOrderRequest := []
  /-- What the callbacks have queued, beside the requests that it is about. -/
  emitted : List (BrokerOrderRequest × BrokerEvent) := []

namespace IbkrDesk

inductive Act where
  | submit (signal : SignalEvent) (expectedPrice : Option ℚ)
  /-- `submit_oco` draws the name of its group; its legs are submitted one by one. -/
  | nameGroup
  | qualified (place : ℕ) (answer : Except String (List IbContract))
  | cancel (orderId : OrderId)
  | cancelAll
  | orderStatus (place : ℕ) (status : String) (permId : ℕ)
  | execDetails (now : Timestamp) (place : ℕ) (fill : IbFill)
  | error (reqId errorCode : ℤ) (errorString : String)
  /-- The consumer takes one event. -/
  | consume

variable (broker : IbkrBroker)

def orderManager : OrderLifecycleManager IbkrMemory ibSig := ⟨broker.toInterface⟩

/-- What is left of `submit` once the client answers. -/
def resumed (request : BrokerOrderRequest) :
    Except String (List IbContract) → Coro IbkrMemory ibSig OrderId
  | .error message => throw message
  | .ok [] => throw s!"could not qualify futures contract for symbol={request.symbol}"
  | .ok (first :: _) => do
    Coro.update fun m : IbkrState => { m with contracts := m.contracts.set request.symbol first }
    Coro.update (broker.placeWith request first)
    pure request.orderId

/-- One turn of `_consume_broker_events`. -/
def consumeOne : Coro IbkrMemory ibSig Unit := do
  let m : IbkrState ← Coro.view
  match m.eventQueue with
  | [] => pure ()
  | event :: rest => do
    Coro.update fun m : IbkrState => { m with eventQueue := rest }
    tryCatch (OrderLifecycleManager.handleBrokerEvent event) fun _ => pure ()

/-- The client changes a trade and tells the adapter. -/
def callback (d : IbkrDesk) (place : ℕ) (change : IbTrade → IbTrade)
    (report : IbkrState → IbTrade → IbkrState) : Option IbkrDesk :=
  d.memory.ibkr.ib.trades[place]?.map fun trade =>
    let m := d.memory.ibkr
    let changed := { m with ib := { m.ib with trades := m.ib.trades.set place (change trade) } }
    let after := report changed (change trade)
    { d with
      memory := { d.memory with ibkr := after }
      emitted := d.emitted ++
        (after.eventQueue.drop m.eventQueue.length).map fun event => (trade.request, event) }

def step (d : IbkrDesk) : Act → Option IbkrDesk
  | .submit signal expectedPrice =>
    let request := (ManagedOrder.ofSignal (.hex d.memory.uuids.drawn) signal expectedPrice).request
    let after := ((orderManager broker).submit signal expectedPrice).advance d.memory
    some { d with
      memory := after.2
      placing := match after.1 with
        | .await _ _ => d.placing ++ [request]
        | _ => d.placing }
  | .nameGroup => some { d with memory := { d.memory with uuids := ⟨d.memory.uuids.drawn + 1⟩ } }
  | .qualified place answer => d.placing[place]?.map fun request =>
      { d with
        memory := ((resumed broker request answer).advance d.memory).2
        placing := d.placing.eraseIdx place }
  | .cancel orderId =>
    some { d with memory := (((orderManager broker).cancel orderId).advance d.memory).2 }
  | .cancelAll => some { d with memory := ((orderManager broker).cancelAll.advance d.memory).2 }
  | .orderStatus place status permId =>
    d.callback place (fun trade => { trade with status, order := { trade.order with permId } })
      fun m trade => m.onOrderStatus trade
  | .execDetails now place fill =>
    d.callback place (fun trade => { trade with fills := trade.fills ++ [fill] })
      fun m trade => m.onExecDetails now trade fill
  | .error reqId errorCode errorString =>
    let m := d.memory.ibkr
    let after := m.onError reqId errorCode errorString
    let named := m.ib.trades.filter (·.order.orderId = reqId)
    some { d with
      memory := { d.memory with ibkr := after }
      emitted := d.emitted ++ named.flatMap fun trade =>
        (after.eventQueue.drop m.eventQueue.length).map fun event => (trade.request, event) }
  | .consume =>
    if d.memory.ibkr.eventQueue = [] then none
    else some { d with memory := (consumeOne.advance d.memory).2 }

variable {broker} {d : IbkrDesk}

/-- The record that a submit leaves. -/
def noting (d : IbkrDesk) (signal : SignalEvent) (expectedPrice : Option ℚ) : IbkrMemory :=
  { d.memory with
    manager := d.memory.manager.noting (.hex d.memory.uuids.drawn) signal expectedPrice
    uuids := ⟨d.memory.uuids.drawn + 1⟩ }

def requestOf (d : IbkrDesk) (signal : SignalEvent) (expectedPrice : Option ℚ) :
    BrokerOrderRequest :=
  (ManagedOrder.ofSignal (.hex d.memory.uuids.drawn) signal expectedPrice).request

/-- The adapter is called with the record made. -/
theorem advance_submit (signal : SignalEvent) (expectedPrice : Option ℚ) :
    ((orderManager broker).submit signal expectedPrice).advance d.memory =
      (broker.qualifyFuture signal.symbol >>= fun contract =>
        Coro.update (broker.placeWith (d.requestOf signal expectedPrice) contract) >>= fun _ =>
          pure (OrderId.hex d.memory.uuids.drawn) : Coro IbkrMemory ibSig OrderId).advance
        (d.noting signal expectedPrice) := by
  change ((broker.qualifyFuture signal.symbol >>= fun contract =>
      Coro.update (broker.placeWith (d.requestOf signal expectedPrice) contract)) >>= fun _ =>
        pure (OrderId.hex d.memory.uuids.drawn) : Coro IbkrMemory ibSig OrderId).advance
      (d.noting signal expectedPrice) = _
  rw [Coro.bind_bind]

/-- A symbol whose contract is known is ordered at once. -/
theorem step_submit_known {signal : SignalEvent} {expectedPrice : Option ℚ}
    {contract : IbContract}
    (known : d.memory.ibkr.contracts.get? signal.symbol = some contract) :
    step broker d (.submit signal expectedPrice) = some { d with
      memory := { d.noting signal expectedPrice with
        ibkr := broker.placeWith (d.requestOf signal expectedPrice) contract d.memory.ibkr } } := by
  have found : (d.noting signal expectedPrice).ibkr.contracts.get? signal.symbol =
    some contract := known
  rw [step, advance_submit, IbkrBroker.qualifyFuture, Coro.bind_bind, Coro.advance_view_bind,
    IbkrMemory.view_ibkr, found]
  rfl

/-- For any other symbol `submit` waits, and `resumed` is what is left of it. -/
theorem submit_waits {signal : SignalEvent} {expectedPrice : Option ℚ}
    (unknown : d.memory.ibkr.contracts.get? signal.symbol = none) :
    ((orderManager broker).submit signal expectedPrice).advance d.memory =
      (.await (.qualifyContracts
          ⟨signal.symbol, broker.futuresExchange, broker.futuresCurrency⟩)
        (resumed broker (d.requestOf signal expectedPrice)), d.noting signal expectedPrice) := by
  have missing : (d.noting signal expectedPrice).ibkr.contracts.get? signal.symbol = none := unknown
  rw [advance_submit, IbkrBroker.qualifyFuture, Coro.bind_bind, Coro.advance_view_bind,
    IbkrMemory.view_ibkr, missing]
  refine Prod.ext (congrArg (Coro.await _) (funext fun answer => ?_)) rfl
  match answer with
  | .error message => rfl
  | .ok [] => rfl
  | .ok (first :: _) => rfl

theorem step_submit_unknown {signal : SignalEvent} {expectedPrice : Option ℚ}
    (unknown : d.memory.ibkr.contracts.get? signal.symbol = none) :
    step broker d (.submit signal expectedPrice) = some { d with
      memory := d.noting signal expectedPrice
      placing := d.placing ++ [d.requestOf signal expectedPrice] } := by
  rw [step, submit_waits unknown]
  rfl

/-- An order is placed once its contract is there; otherwise `submit` raises. -/
theorem advance_resumed (request : BrokerOrderRequest) (answer : Except String (List IbContract)) :
    ((resumed broker request answer).advance d.memory).2 =
      match answer with
      | .ok (first :: _) => { d.memory with
          ibkr := broker.placeWith request first
            { d.memory.ibkr with
              contracts := d.memory.ibkr.contracts.set request.symbol first } }
      | _ => d.memory := by
  match answer with
  | .error message => rfl
  | .ok [] => rfl
  | .ok (first :: _) => rfl

theorem step_cancel_unknown {orderId : OrderId}
    (unknown : d.memory.manager.getOrder orderId = none) :
    step broker d (.cancel orderId) = some d := by
  rw [ManagerState.getOrder] at unknown
  simp only [step, OrderLifecycleManager.cancel, Coro.advance_view_bind, IbkrMemory.view_manager,
    unknown]
  rfl

/-- What the adapter has no trade for it does not cancel. -/
theorem advance_cancelOrder {orderId : OrderId} {m : IbkrMemory}
    (unfiled : m.ibkr.tradesByOrderId.get? orderId = none) :
    ((IbkrBroker.cancelOrder orderId : Coro IbkrMemory ibSig Unit).advance m).2 = m := by
  rw [IbkrBroker.cancelOrder, Coro.advance_view_bind, IbkrMemory.view_ibkr]
  simp only [unfiled]
  rfl

/-- The adapter looks the manager's id up among those of the client. -/
theorem step_cancel_known {orderId : OrderId} {order : ManagedOrder}
    (known : d.memory.manager.getOrder orderId = some order)
    (unfiled : d.memory.ibkr.tradesByOrderId.get? orderId = none) :
    step broker d (.cancel orderId) = some
      { d with memory := { d.memory with manager := d.memory.manager.cancelling orderId } } := by
  rw [ManagerState.getOrder] at known
  simp only [step, OrderLifecycleManager.cancel, Coro.advance_view_bind, IbkrMemory.view_manager,
    known, ManagerState.cancelling]
  change some { d with
    memory := ((IbkrBroker.cancelOrder orderId : Coro IbkrMemory ibSig Unit).advance _).2 } = _
  rw [advance_cancelOrder]
  · rfl
  · exact unfiled

/-- The consumer takes an event and the manager looks at it. -/
theorem advance_consumeOne {event : BrokerEvent} {rest : List BrokerEvent}
    (queued : d.memory.ibkr.eventQueue = event :: rest) :
    consumeOne.advance d.memory =
      (tryCatch (match (d.memory.manager.handleEvent event).2 with
        | none => pure ()
        | some published => Coro.update fun bus : EventBus => bus.publish (.order published))
        fun _ => pure () : Coro IbkrMemory ibSig Unit).advance
        { d.memory with
          manager := (d.memory.manager.handleEvent event).1
          ibkr := { d.memory.ibkr with eventQueue := rest } } := by
  rw [consumeOne, Coro.advance_view_bind, IbkrMemory.view_ibkr, queued]
  rfl

variable (broker) in
theorem step_consume {event : BrokerEvent} {rest : List BrokerEvent}
    (queued : d.memory.ibkr.eventQueue = event :: rest) :
    ∃ bus, step broker d .consume = some { d with
      memory := { d.memory with
        manager := (d.memory.manager.handleEvent event).1
        bus := bus
        ibkr := { d.memory.ibkr with eventQueue := rest } } } := by
  have some_ : d.memory.ibkr.eventQueue ≠ [] := by simp [queued]
  rw [step, if_neg some_, advance_consumeOne queued]
  cases (d.memory.manager.handleEvent event).2 with
  | none => exact ⟨d.memory.bus, rfl⟩
  | some out => exact ⟨d.memory.bus.publish (.order out), rfl⟩

end IbkrDesk

end Binbot
