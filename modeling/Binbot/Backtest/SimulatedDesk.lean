import Binbot.Backtest.SimulatorOrders
import Binbot.Execution.ManagerCalls

/-!
# The order manager over the simulator

What the backtest runs: the order manager with the simulator behind it. No call of
the simulator suspends, so each call of the manager runs to its end at once; what the
simulator reports waits in its queue until the manager's consumer takes it.
-/
namespace Binbot

open Async Data

structure SimulatedDesk where
  manager : ManagerState := {}
  uuids : Uuids := ⟨0⟩
  bus : EventBus := {}
  simulator : SimulatorState

/-- Nothing is awaited from outside. -/
abbrev silentSig : Sig := ⟨Empty, fun q => q.elim⟩

namespace SimulatedDesk

instance : Part SimulatedDesk ManagerState where
  view := manager
  set d m := { d with manager := m }
  view_set _ _ := rfl
  set_set _ _ _ := rfl

instance : Part SimulatedDesk Uuids where
  view := uuids
  set d u := { d with uuids := u }
  view_set _ _ := rfl
  set_set _ _ _ := rfl

instance : Part SimulatedDesk EventBus where
  view := bus
  set d b := { d with bus := b }
  view_set _ _ := rfl
  set_set _ _ _ := rfl

instance : Part SimulatedDesk SimulatorState where
  view := simulator
  set d m := { d with simulator := m }
  view_set _ _ := rfl
  set_set _ _ _ := rfl

@[simp] theorem view_manager (d : SimulatedDesk) :
    (Part.view d : ManagerState) = d.manager := rfl

@[simp] theorem view_simulator (d : SimulatedDesk) :
    (Part.view d : SimulatorState) = d.simulator := rfl

inductive Act where
  | submit (signal : SignalEvent) (expectedPrice : Option ℚ) (sized : signal.targetQuantity ≠ 0)
  | cancel (orderId : OrderId)
  | cancelAll
  | bar (bar : BarEvent)
  /-- The consumer takes one event. -/
  | consume

def orderManager : OrderLifecycleManager SimulatedDesk silentSig :=
  ⟨MarketSimulatorBroker.toInterface⟩

variable (broker : MarketSimulatorBroker)

/-- A bar that raises is counted, and does nothing else. -/
def processedBar (m : SimulatorState) (bar : BarEvent) : SimulatorState :=
  match broker.processBar m bar with
  | .ok after => after
  | .error _ =>
    let volumes := (m.volumeHistory.getD bar.symbol [] ++ [bar.volume]).rtake 20
    { m with volumeHistory := m.volumeHistory.set bar.symbol volumes }

/-- One turn of `_consume_broker_events`. -/
def consumeOne : Coro SimulatedDesk silentSig Unit := do
  let m : SimulatorState ← Coro.view
  match m.eventQueue with
  | [] => pure ()
  | event :: rest => do
    Coro.update fun m : SimulatorState => { m with eventQueue := rest }
    tryCatch (OrderLifecycleManager.handleBrokerEvent event) fun _ => pure ()

def body : Act → Coro SimulatedDesk silentSig Unit
  | .submit signal expectedPrice _ => do
    let _ ← orderManager.submit signal expectedPrice
  | .cancel orderId => orderManager.cancel orderId
  | .cancelAll => orderManager.cancelAll
  | .bar bar => Coro.update fun m : SimulatorState => processedBar broker m bar
  | .consume => consumeOne

/-- The desk after an act. The consumer waits while the queue is empty. -/
def step (d : SimulatedDesk) : Act → Option SimulatedDesk
  | .consume => if d.simulator.eventQueue = [] then none else some (consumeOne.advance d).2
  | act => some ((body broker act).advance d).2

variable {broker} {d : SimulatedDesk}

theorem step_submit (signal : SignalEvent) (expectedPrice : Option ℚ)
    (sized : signal.targetQuantity ≠ 0) :
    step broker d (.submit signal expectedPrice sized) = some
      { d with
        manager := d.manager.noting (.hex d.uuids.drawn) signal expectedPrice
        uuids := ⟨d.uuids.drawn + 1⟩
        simulator := d.simulator.placeOrder
          (ManagedOrder.ofSignal (.hex d.uuids.drawn) signal expectedPrice).request } := rfl

theorem step_cancel_unknown {orderId : OrderId} (unknown : d.manager.getOrder orderId = none) :
    step broker d (.cancel orderId) = some d := by
  rw [ManagerState.getOrder] at unknown
  simp only [step, body, OrderLifecycleManager.cancel, Coro.advance_view_bind, view_manager, unknown]
  rfl

theorem step_cancel_known {orderId : OrderId} {order : ManagedOrder}
    (known : d.manager.getOrder orderId = some order) :
    step broker d (.cancel orderId) = some
      { d with
        manager := d.manager.cancelling orderId
        simulator := d.simulator.cancelOrder orderId } := by
  rw [ManagerState.getOrder] at known
  simp only [step, body, OrderLifecycleManager.cancel, Coro.advance_view_bind, view_manager, known,
    ManagerState.cancelling]
  rfl

theorem step_cancelAll :
    step broker d .cancelAll = some { d with simulator := d.simulator.cancelAll } := rfl

theorem step_bar (bar : BarEvent) :
    step broker d (.bar bar) =
      some { d with simulator := processedBar broker d.simulator bar } := rfl

variable (broker) in
/-- A bar is resolved against the waiting orders, or it raises and leaves them alone. -/
theorem processedBar_cases (m : SimulatorState) (bar : BarEvent) :
    ((∃ counted, broker.updateHistory m bar = .ok counted) ∧
      ∃ fills, broker.Resolved bar m (processedBar broker m bar) fills) ∨
    ((¬ ∃ counted, broker.updateHistory m bar = .ok counted) ∧
      (processedBar broker m bar).eventQueue = m.eventQueue ∧
      (processedBar broker m bar).waiting = m.waiting ∧
      (processedBar broker m bar).fills = m.fills) := by
  cases counting : broker.updateHistory m bar with
  | error message =>
    have raised : broker.processBar m bar = .error message := by
      rw [MarketSimulatorBroker.processBar, counting]
      rfl
    refine .inr ⟨?_, ?_⟩
    · rintro ⟨counted, same⟩
      cases same
    · rw [processedBar, raised]
      exact ⟨rfl, rfl, rfl⟩
  | ok counted =>
    obtain ⟨after, processed⟩ : ∃ after, broker.processBar m bar = .ok after := by
      rw [MarketSimulatorBroker.processBar, counting]
      exact ⟨_, rfl⟩
    refine .inl ⟨⟨counted, rfl⟩, ?_⟩
    rw [processedBar, processed]
    exact broker.processBar_resolved processed

variable (broker) in
/-- A bar becomes the last of its symbol, unless it raises. -/
theorem processedBar_lastBar (m : SimulatorState) (bar : BarEvent) :
    (processedBar broker m bar).lastBar = match broker.updateHistory m bar with
      | .ok _ => m.lastBar.set bar.symbol bar
      | .error _ => m.lastBar := by
  cases counting : broker.updateHistory m bar with
  | error message =>
    rw [processedBar, MarketSimulatorBroker.processBar, counting]
    rfl
  | ok counted =>
    obtain ⟨volumes, returns, rfl⟩ := broker.updateHistory_ok counting
    obtain ⟨fills, -, -, -, applied⟩ := broker.resolveOrders_fst bar
      { m with volumeHistory := volumes, returnHistory := returns } (m.waiting bar.symbol)
    have kept : (broker.resolveOrders bar
        { m with volumeHistory := volumes, returnHistory := returns }
        (m.waiting bar.symbol)).1.lastBar = m.lastBar := by
      rw [applied, broker.applyFills_lastBar]
    have processed : (processedBar broker m bar).lastBar = (broker.resolveOrders bar
        { m with volumeHistory := volumes, returnHistory := returns }
        (m.waiting bar.symbol)).1.lastBar.set bar.symbol bar := by
      rw [processedBar, MarketSimulatorBroker.processBar, counting]
      rfl
    rw [processed, kept]

variable (broker) in
/-- Whether a bar raises depends on the last bars only. -/
theorem updateHistory_congr {m m' : SimulatorState} (same : m.lastBar = m'.lastBar)
    (bar : BarEvent) : (∃ counted, broker.updateHistory m bar = .ok counted) ↔
      ∃ counted, broker.updateHistory m' bar = .ok counted := by
  rw [MarketSimulatorBroker.updateHistory, MarketSimulatorBroker.updateHistory, same]
  dsimp only
  split
  · simp
  · split
    · split <;> simp
    · simp

/-- The consumer takes an event and the manager looks at it. -/
theorem advance_consumeOne {event : BrokerEvent} {rest : List BrokerEvent}
    (queued : d.simulator.eventQueue = event :: rest) :
    consumeOne.advance d =
      (tryCatch (match (d.manager.handleEvent event).2 with
        | none => pure ()
        | some published => Coro.update fun bus : EventBus => bus.publish (.order published))
        fun _ => pure () : Coro SimulatedDesk silentSig Unit).advance
        { d with
          simulator := { d.simulator with eventQueue := rest }
          manager := (d.manager.handleEvent event).1 } := by
  rw [consumeOne, Coro.advance_view_bind, view_simulator, queued]
  rfl

variable (broker) in
theorem step_consume {event : BrokerEvent} {rest : List BrokerEvent}
    (queued : d.simulator.eventQueue = event :: rest) :
    ∃ bus, step broker d .consume = some
      { d with
        manager := (d.manager.handleEvent event).1
        bus := bus
        simulator := { d.simulator with eventQueue := rest } } := by
  have some_ : d.simulator.eventQueue ≠ [] := by simp [queued]
  rw [step, if_neg some_, advance_consumeOne queued]
  cases (d.manager.handleEvent event).2 with
  | none => exact ⟨d.bus, rfl⟩
  | some out => exact ⟨d.bus.publish (.order out), rfl⟩

end SimulatedDesk

end Binbot
