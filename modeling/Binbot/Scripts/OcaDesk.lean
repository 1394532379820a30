import Binbot.Scripts.Trading

/-!
# One cancels other

The order path as tasks once more, with a log of what becomes of the legs of a group: whose
`FILLED` messages the adapter has handled, whose cancels are still to come, and which
cancels have reached the exchange after it had accepted the order.
-/
namespace Binbot

open Async Data

/-- The group that an order was submitted in. An empty name is none. -/
def ManagerState.groupOf (m : ManagerState) (id : OrderId) : Option String :=
  (m.getOrder id).bind fun order => order.ocaGroup.filter (· ≠ "")

/-- The rest of the order's group, as `_handle_oca_fill` finds it. -/
def BrokerState.siblings (m : BrokerState) (id : OrderId) : List OrderId :=
  match m.orderToOcaGroup.get? id with
  | none => []
  | some group => (m.ocaGroups.getD group []).filter (· ≠ id)

namespace Exchange

variable (x : Exchange) (id : OrderId)

def Accepted : Prop := ∃ o ∈ x.orders, o.id = id

def Works : Prop := ∃ o ∈ x.orders, o.id = id ∧ o.standing = .working

instance : Decidable (x.Accepted id) := inferInstanceAs (Decidable (∃ o ∈ x.orders, _))

instance : Decidable (x.Works id) := inferInstanceAs (Decidable (∃ o ∈ x.orders, _))

end Exchange

structure OcaLog where
  /-- The leg whose `FILLED` message is being handled, after its group. -/
  current : Option (String × OrderId) := none
  /-- The orders that the handler has still to cancel. -/
  toCancel : List OrderId := []
  /-- The legs whose `FILLED` message has been handled, each after its group. -/
  processed : List (String × OrderId) := []
  /-- The orders with a cancel request that reached the exchange after their acceptance. -/
  cancelled : List OrderId := []
  deriving DecidableEq

/-- The order whose `FILLED` message the step hands to the adapter. -/
def filledOrder (w : TradingWorld) : TradingLabel → Option OrderId
  | .resume .stream =>
    match (w.task .stream).phase with
    | .answered .streamRecv (.ok (.orderTradeUpdate o)) _ =>
      if o.execType = .trade ∧ o.status = .filled then
        some (w.memory.broker.clientOrderToInternalId.getD o.clientOrderId o.clientOrderId)
      else none
    | _ => none
  | _ => none

/-- The order whose cancel request of the task is served. -/
def cancelServed (w : TradingWorld) : TradingLabel → Option (TradingTask × OrderId)
  | .serve i _ =>
    match (w.task i).pending with
    | some (.cancelOrder _ id) => some (i, id)
    | _ => none
  | _ => none

namespace OcaLog

variable (log : OcaLog)

/-- The adapter starts to handle a `FILLED` message. -/
def began (d : Desk) (id : OrderId) : OcaLog :=
  { log with
    current := (d.manager.groupOf id).map (·, id)
    toCancel := d.broker.siblings id }

/-- A cancel request reaches the exchange. -/
def asked (x : Exchange) (i : TradingTask) (id : OrderId) : OcaLog :=
  { log with
    toCancel := if i = .stream then log.toCancel.erase id else log.toCancel
    cancelled := if x.Accepted id then id :: log.cancelled else log.cancelled }

/-- The adapter is done with the message. -/
def ended : OcaLog :=
  { log with
    current := none
    toCancel := []
    processed := log.processed ++ log.current.toList }

/-- An idle stream loop is not handling any message. -/
def upTo (stream : Task Desk wireSig) : OcaLog :=
  match stream.phase with
  | .idle => log.ended
  | _ => log

/-- What a step adds to the log. -/
def noted (w : TradingWorld) (label : TradingLabel) : OcaLog :=
  match filledOrder w label, cancelServed w label with
  | some id, _ => log.began w.memory id
  | none, some (i, id) => log.asked w.outside i id
  | none, none => log

end OcaLog

structure OcaDesk where
  world : TradingWorld
  log : OcaLog := {}

namespace OcaDesk

variable (rules : ExchangeRules) (p : DeskParams)

/-- A process that starts with these filters. -/
def started (symbols : List Symbol) (uuids : Uuids) (clock : Clock) (x : Exchange) : OcaDesk where
  world := (Trading.started rules symbols uuids clock x).world

def step (t : OcaDesk) (label : TradingLabel) : Option OcaDesk :=
  ((tradingSystem p rules).step t.world label).map fun world =>
    ⟨world, (t.log.noted t.world label).upTo (world.task .stream)⟩

/-- Once a leg's `FILLED` message has been handled, one such leg's group has every other leg
cancelled that the exchange accepted, and none is left working. -/
def OneCancelsOther (t : OcaDesk) : Prop :=
  ∀ g l, (g, l) ∈ t.log.processed → ∃ first, (g, first) ∈ t.log.processed ∧
    ∀ k, t.world.memory.manager.groupOf k = some g →
      (k ≠ first → t.world.outside.Accepted k → k ∈ t.log.cancelled) ∧
        ¬ t.world.outside.Works k

/-- No leg of the group has been handled as filled, and if one is being handled, the
handler has still to cancel this order. -/
def NotLate (log : OcaLog) (g : String) (id : OrderId) : Prop :=
  g ∉ log.processed.map Prod.fst ∧ ∀ leg ∈ log.current, leg.1 = g → id ∈ log.toCancel

instance (log : OcaLog) (g : String) (id : OrderId) : Decidable (NotLate log g id) :=
  inferInstanceAs (Decidable (_ ∧ ∀ leg ∈ (_ : Option _), _))

/-- The exchange accepts no leg late, and refuses the handler no cancel of a working order. -/
def ServedInTime (t : OcaDesk) (i : TradingTask) (service : Service) : Option WireReq → Prop
  | some (.createOrder params) => service.acts = true →
    ∀ g ∈ t.world.memory.manager.groupOf params.newClientOrderId,
      NotLate t.log g params.newClientOrderId
  | some (.cancelOrder _ id) => i = .stream → service.acts = true ∨ ¬ t.world.outside.Works id
  | _ => True

instance (t : OcaDesk) (i : TradingTask) (service : Service) :
    (q : Option WireReq) → Decidable (t.ServedInTime i service q)
  | none => .isTrue trivial
  | some q => by
    cases q with
    | createOrder params =>
      exact inferInstanceAs (Decidable (_ → ∀ g ∈ (_ : Option String), NotLate _ g _))
    | cancelOrder symbol id => exact inferInstanceAs (Decidable (_ → _))
    | _ => exact .isTrue trivial

def InTime (t : OcaDesk) : TradingLabel → Prop
  | .serve i service => t.ServedInTime i service (t.world.task i).pending
  | _ => True

instance (t : OcaDesk) : (label : TradingLabel) → Decidable (t.InTime label)
  | .serve _ _ => inferInstanceAs (Decidable (ServedInTime _ _ _ _))
  | .start _ _ => .isTrue trivial
  | .resume _ => .isTrue trivial
  | .drift _ => .isTrue trivial

end OcaDesk

end Binbot
