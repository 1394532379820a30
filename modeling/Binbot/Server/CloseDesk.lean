import Binbot.Server.DashboardClients

/-!
# Closing orders and their reasons (`server/dashboard_bridge.py`, `execution/position_monitor.py`)

The position monitor records why it closes a position just before it submits the closing order.
That order may fill, fail or be overtaken; the bridge looks for the reason when some fill has
closed the symbol's trade. What is kept besides the bridge's memory is what reasons belong to:
the order that each reason was recorded for.
-/
namespace Binbot

open Async Data

/-- Whether this event is a fill that will close its symbol's trade. -/
def BridgeMemory.closes (d : BridgeMemory) : BrokerEvent → Bool
  | .execution fill =>
    d.manager.orders.contains fill.orderId && (d.tracker.onExecution 1 fill).2.isSome
  | _ => false

/-- Where the bus's dispatch task stands with an order event. -/
inductive Announcing where
  | idle
  | waiting (event : BrokerEvent) (closes : Bool) (q : BridgeRequest)
      (next : Answer bridgeSig q → Coro BridgeMemory bridgeSig Unit)

structure CloseDesk where
  memory : BridgeMemory
  announcing : Announcing := .idle
  /-- The reason recorded for each closing order of the position monitor. -/
  noted : Dict OrderId String := .empty
  /-- The order of a symbol's latest reason, until the bridge has taken that reason. -/
  latest : Dict Symbol OrderId := .empty

namespace CloseDesk

inductive Act where
  /-- The position monitor records a reason; the order it submits next will have this id. -/
  | note (symbol : Symbol) (reason : String) (orderId : OrderId)
  | dispatch (event : BrokerEvent)
  | answer (reply : (q : BridgeRequest) → Answer bridgeSig q)
  /-- What other tasks do to the rest of the memory. The manager forgets no order. -/
  | elsewhere (manager : ManagerState) (candles : CandleState) (desk : ClientState)

variable (t : CloseDesk)

/-- The dispatch task runs on with this program. -/
def settle (event : BrokerEvent) (closes : Bool) (program : Coro BridgeMemory bridgeSig Unit) :
    CloseDesk :=
  let stand := program.advance t.memory
  { t with
    memory := stand.2
    announcing :=
      match stand.1 with
      | .await q next => .waiting event closes q next
      | _ => .idle
    latest :=
      match event with
      | .execution fill =>
        if stand.2.reasons.bySymbol.contains fill.symbol then t.latest
        else t.latest.erase fill.symbol
      | _ => t.latest }

def step (bridge : ClientBridge) (t : CloseDesk) : Act → Option CloseDesk
  | .note symbol reason orderId =>
    -- the order is a new one
    if t.noted.contains orderId || t.memory.manager.orders.contains orderId then none
    else
      some { t with
        memory :=
          ((DashboardBridge.noteCloseReason symbol reason :
            Coro BridgeMemory bridgeSig Unit).advance t.memory).2
        noted := t.noted.set orderId reason
        latest := t.latest.set symbol orderId }
  | .dispatch event =>
    match t.announcing with
    | .idle =>
      some (t.settle event (t.memory.closes event) (bridge.toDashboard.handleOrderEvent event))
    | _ => none
  | .answer reply =>
    match t.announcing with
    | .waiting event closes q next => some (t.settle event closes (next (reply q)))
    | _ => none
  | .elsewhere manager candles desk =>
    if t.memory.manager.orders.keys.all (manager.orders.contains ·) then
      some { t with memory := { t.memory with manager, candles, desk } }
    else none

end CloseDesk

end Binbot
