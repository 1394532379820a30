import Binbot.Backtest.SimulatedDesk
import Binbot.Machine.Run
import Binbot.Properties.SimulatorLedger

/-!
# The manager's open orders and the simulator's waiting ones

The simulator reports placements and fills, but nothing that it drops. So the two views
part for good when a working order is cancelled, when all are, and when an order that is
not carried forward leaves a remainder.
-/
namespace Binbot

open Async Data

/-- A record after the events that name it. -/
def ManagedOrder.following (order : ManagedOrder) (events : List BrokerEvent) : ManagedOrder :=
  events.foldl (fun order event => (order.after event).1) order

/-- A mark on the status is gone after the next event. -/
theorem ManagedOrder.following_marked (order : ManagedOrder) (status : OrderStatus)
    {events : List BrokerEvent} (some : events ≠ []) :
    ({ order with status := status } : ManagedOrder).following events = order.following events := by
  cases events with
  | nil => exact absurd rfl some
  | cons event rest =>
    rw [following, following, List.foldl_cons, List.foldl_cons]
    cases event with
    | ack event => rfl
    | reject event => rfl
    | execution event => rfl

namespace ManagerState

variable {m : ManagerState}

/-- The records once the manager has looked at these events. -/
def consumed (m : ManagerState) (events : List BrokerEvent) : ManagerState :=
  events.foldl (fun m event => (m.handleEvent event).1) m

theorem consumed_append (m : ManagerState) (events more : List BrokerEvent) :
    m.consumed (events ++ more) = (m.consumed events).consumed more := List.foldl_append

/-- Each record follows its own events. -/
theorem consumed_getOrder (events : List BrokerEvent) (id : OrderId) :
    (m.consumed events).getOrder id =
      (m.getOrder id).map (·.following (events.filter (·.orderId = id))) := by
  induction events generalizing m with
  | nil =>
    cases known : m.getOrder id with
    | none => exact known
    | some order => exact known
  | cons event rest ih =>
    have tail := ih (m := (m.handleEvent event).1)
    rw [consumed] at tail ⊢
    rw [List.foldl_cons, tail, handleEvent_getOrder]
    by_cases here : id = event.orderId
    · rw [if_pos here, List.filter_cons_of_pos (by simp [here]), Option.map_map]
      rfl
    · rw [if_neg here, List.filter_cons_of_neg (by simpa using Ne.symm here)]

theorem Keyed.consumed (keyed : m.Keyed) (events : List BrokerEvent) :
    (m.consumed events).Keyed := by
  induction events generalizing m with
  | nil => exact keyed
  | cons event rest ih => exact ih (keyed.handleEvent event)

/-- Events of other orders change nothing. -/
theorem consumed_other {events : List BrokerEvent} {id : OrderId}
    (others : ∀ event ∈ events, event.orderId ≠ id) :
    (m.consumed events).getOrder id = m.getOrder id := by
  have none : events.filter (·.orderId = id) = [] := by
    rw [List.filter_eq_nil_iff]
    intro event member
    simpa using others event member
  rw [consumed_getOrder, none]
  cases m.getOrder id with
  | none => rfl
  | some order => rfl

end ManagerState

/-- What the manager and the simulator hold agrees. -/
structure Agree (manager : ManagerState) (simulator : SimulatorState) : Prop where
  ids : ∀ id, (∃ order ∈ manager.openOrders, order.orderId = id) ↔
    ∃ symbol, ∃ pending ∈ simulator.waiting symbol, pending.request.orderId = id
  rest : ∀ order ∈ manager.openOrders, ∀ symbol, ∀ pending ∈ simulator.waiting symbol,
    pending.request.orderId = order.orderId → order.remainingQuantity = pending.remainingQty

/-- The same, record by record. -/
structure InStep (manager : ManagerState) (simulator : SimulatorState) : Prop where
  recorded : ∀ symbol, ∀ pending ∈ simulator.waiting symbol, ∃ order,
    manager.getOrder pending.request.orderId = some order ∧ order.symbol = symbol ∧
      order.status.isTerminal = false ∧ order.remainingQuantity = pending.remainingQty
  waits : ∀ id order, manager.getOrder id = some order → order.status.isTerminal = false →
    ∃ symbol, ∃ pending ∈ simulator.waiting symbol, pending.request.orderId = id

theorem InStep.agree {manager : ManagerState} {simulator : SimulatorState} (keyed : manager.Keyed)
    (inStep : InStep manager simulator) : Agree manager simulator where
  ids id := by
    constructor
    · rintro ⟨order, working, rfl⟩
      obtain ⟨key, known, live⟩ := (ManagerState.mem_openOrders order).mp working
      rw [keyed key order known]
      exact inStep.waits key order known live
    · rintro ⟨symbol, pending, member, rfl⟩
      obtain ⟨order, known, -, live, -⟩ := inStep.recorded symbol pending member
      exact ⟨order, (ManagerState.mem_openOrders order).mpr ⟨_, known, live⟩, keyed _ order known⟩
  rest order working symbol pending member same := by
    obtain ⟨key, known, -⟩ := (ManagerState.mem_openOrders order).mp working
    obtain ⟨other, found, -, -, left⟩ := inStep.recorded symbol pending member
    rw [same, keyed key order known, known] at found
    cases found
    exact left

/-- Of a list with distinct keys, the entries of one key. -/
theorem filter_key {α κ : Type} [DecidableEq κ] (key : α → κ) {l : List α}
    (unique : (l.map key).Nodup) {x : α} (member : x ∈ l) :
    l.filter (fun y => key y = key x) = [x] := by
  induction l with
  | nil => cases member
  | cons y rest ih =>
    rw [List.map_cons, List.nodup_cons] at unique
    obtain ⟨fresh, unique⟩ := unique
    rcases List.mem_cons.mp member with rfl | later
    · -- no other entry has its key
      rw [List.filter_cons_of_pos (by simp), List.filter_eq_nil_iff.mpr]
      intro z there
      have other : key z ≠ key x := fun same => fresh (List.mem_map.mpr ⟨z, there, same⟩)
      simpa using other
    · have other : key y ≠ key x := fun same => fresh (List.mem_map.mpr ⟨x, later, same.symm⟩)
      rw [List.filter_cons_of_neg (by simpa using other), ih unique later]

section Bar

variable {broker : MarketSimulatorBroker} {bar : BarEvent} {m m' : SimulatorState}
  {fills : List Fill} {manager : ManagerState}

/-- The events of a bar. -/
def executions (broker : MarketSimulatorBroker) (fills : List Fill) : List BrokerEvent :=
  fills.map fun fill => .execution (broker.report fill)

theorem mem_executions {event : BrokerEvent} (member : event ∈ executions broker fills)
    (resolved : broker.Resolved bar m m' fills) :
    ∃ pending ∈ m.waiting bar.symbol, event.orderId = pending.request.orderId := by
  obtain ⟨fill, there, rfl⟩ := List.mem_map.mp member
  exact ⟨fill.pending, (resolved.fillsOf fill there).2.1, rfl⟩

/-- The events of one waiting order. -/
theorem executions_filter (resolved : broker.Resolved bar m m' fills)
    (once : ((m.waiting bar.symbol).map (·.request.orderId)).Nodup) {pending : PendingOrder}
    (member : pending ∈ m.waiting bar.symbol) :
    if broker.Fills bar pending then
      ∃ fill : Fill, fill.pending = pending ∧
        fill.quantity = broker.determineFillQuantity pending bar ∧
        (executions broker fills).filter (·.orderId = pending.request.orderId) =
          [.execution (broker.report fill)]
    else (executions broker fills).filter (·.orderId = pending.request.orderId) = [] := by
  split
  next fills_ =>
    have filled : pending ∈ fills.map (·.pending) := by
      rw [resolved.order, List.mem_filter]
      exact ⟨member, decide_eq_true fills_⟩
    obtain ⟨fill, there, rfl⟩ := List.mem_map.mp filled
    refine ⟨fill, rfl, (resolved.fillsOf fill there).2.2, ?_⟩
    -- the filled orders are some of the waiting ones, in the same order
    have unique : (fills.map fun fill => fill.pending.request.orderId).Nodup := by
      have sub := ((m.waiting bar.symbol).filter_sublist (p := broker.Fills bar)).map
        (·.request.orderId)
      rw [← resolved.order, List.map_map] at sub
      exact once.sublist sub
    have own := filter_key (fun fill : Fill => fill.pending.request.orderId) unique there
    rw [executions, List.filter_map]
    exact congrArg (List.map fun fill => BrokerEvent.execution (broker.report fill)) own
  next idle =>
    rw [List.filter_eq_nil_iff]
    intro event reported
    obtain ⟨fill, there, rfl⟩ := List.mem_map.mp reported
    have filled : fill.pending ∈ (m.waiting bar.symbol).filter (broker.Fills bar) := by
      rw [← resolved.order]
      exact List.mem_map_of_mem there
    rw [List.mem_filter, decide_eq_true_eq] at filled
    -- a fill under this id would be a fill of this order
    have other : fill.pending.request.orderId ≠ pending.request.orderId := by
      intro same
      have both := List.inj_on_of_nodup_map once filled.1 member same
      exact idle (both ▸ filled.2)
    exact fun same => other (of_decide_eq_true same)

/-- The record of a waiting order after a bar. -/
theorem bar_record (resolved : broker.Resolved bar m m' fills)
    (once : ((m.waiting bar.symbol).map (·.request.orderId)).Nodup) {pending : PendingOrder}
    (member : pending ∈ m.waiting bar.symbol) (positive : 0 < pending.remainingQty)
    {order : ManagedOrder} (known : manager.getOrder pending.request.orderId = some order)
    (live : order.status.isTerminal = false)
    (left : order.remainingQuantity = pending.remainingQty) :
    ∃ after, (manager.consumed (executions broker fills)).getOrder pending.request.orderId =
        some after ∧ after.symbol = order.symbol ∧
      after.remainingQuantity = pending.remainingQty - broker.determineFillQuantity pending bar ∧
      (after.status.isTerminal = true ↔
        broker.determineFillQuantity pending bar = pending.remainingQty) := by
  obtain ⟨least, most⟩ := broker.determineFillQuantity_bounds bar positive.le
  have events := executions_filter resolved once member
  rw [ManagerState.consumed_getOrder, known, Option.map_some]
  split at events
  next fills_ =>
    -- one execution, for what the bar fills of the order
    obtain ⟨fill, rfl, size, only⟩ := events
    refine ⟨_, rfl, ?_⟩
    rw [only, ← size]
    refine ⟨rfl, rfl, ?_⟩
    change (if fill.pending.remainingQty - fill.quantity = 0 then OrderStatus.filled
      else .partiallyFilled).isTerminal = true ↔ _
    split
    next whole => exact ⟨fun _ => by omega, fun _ => rfl⟩
    next part => exact ⟨fun ended => (by cases ended), fun whole => absurd (by omega) part⟩
  next idle =>
    -- no execution, and the record stays as it was
    have none : broker.determineFillQuantity pending bar = 0 := by
      rw [MarketSimulatorBroker.Fills] at idle
      omega
    refine ⟨order, ?_, rfl, by omega, ?_⟩
    · rw [events]
      rfl
    · rw [live]
      exact ⟨fun ended => (by cases ended), fun whole => by omega⟩

end Bar

namespace SimulatedDesk

variable {broker : MarketSimulatorBroker} {d e : SimulatedDesk}

/-- The manager once it has looked at all that the simulator has reported. -/
def caughtUp (d : SimulatedDesk) : ManagerState := d.manager.consumed d.simulator.eventQueue

/-- The simulator reports what the act makes it drop. -/
def Reported (broker : MarketSimulatorBroker) (d : SimulatedDesk) : Act → Prop
  | .cancel orderId => d.manager.getOrder orderId ≠ none →
    (∀ symbol, ∀ pending ∈ d.simulator.waiting symbol, pending.request.orderId ≠ orderId) ∧
      ∃ event ∈ d.simulator.eventQueue, event.orderId = orderId
  | .cancelAll => ∀ symbol, d.simulator.waiting symbol = []
  | .bar bar => (∃ counted, broker.updateHistory d.simulator bar = .ok counted) →
    ∀ pending ∈ d.simulator.waiting bar.symbol,
      pending.request.timeInForce = .ioc ∨ pending.request.timeInForce = .fok →
      broker.determineFillQuantity pending bar = pending.remainingQty
  | _ => True

structure Inv (d : SimulatedDesk) : Prop where
  keyed : d.manager.Keyed
  drawn : ∀ id order, d.manager.getOrder id = some order → ∃ n < d.uuids.drawn, id = .hex n
  named : ∀ event ∈ d.simulator.eventQueue, ∃ n < d.uuids.drawn, event.orderId = .hex n
  once : ∀ symbol, ((d.simulator.waiting symbol).map (·.request.orderId)).Nodup
  positive : ∀ symbol, ∀ pending ∈ d.simulator.waiting symbol, 0 < pending.remainingQty
  inStep : InStep d.caughtUp d.simulator

/-- A record that is known after the queue is known before it. -/
theorem caughtUp_known {id : OrderId} {order : ManagedOrder}
    (known : d.caughtUp.getOrder id = some order) : ∃ old, d.manager.getOrder id = some old := by
  rw [caughtUp, ManagerState.consumed_getOrder] at known
  obtain ⟨old, found, -⟩ := Option.map_eq_some_iff.mp known
  exact ⟨old, found⟩

/-- The ids that wait come from the uuids drawn so far. -/
theorem Inv.waiting_drawn (held : Inv d) {symbol : Symbol} {pending : PendingOrder}
    (member : pending ∈ d.simulator.waiting symbol) :
    ∃ n < d.uuids.drawn, pending.request.orderId = .hex n := by
  obtain ⟨order, known, -⟩ := held.inStep.recorded symbol pending member
  obtain ⟨old, found⟩ := caughtUp_known known
  exact held.drawn _ old found

theorem Inv.fresh {id : OrderId} (drawn : ∃ n < d.uuids.drawn, id = .hex n) :
    id ≠ .hex d.uuids.drawn := by
  obtain ⟨n, earlier, rfl⟩ := drawn
  intro same
  cases same
  exact Nat.lt_irrefl _ earlier

/-- Once its placement is acknowledged the new order is open, and the others are as before. -/
theorem Inv.noted (held : Inv d) (signal : SignalEvent) (expectedPrice : Option ℚ)
    (symbol : Symbol) (id : OrderId) :
    ((d.manager.noting (.hex d.uuids.drawn) signal expectedPrice).consumed
        (d.simulator.eventQueue ++
          [.ack ⟨.hex d.uuids.drawn, symbol, .acknowledged, none⟩])).getOrder id =
      if id = .hex d.uuids.drawn then
        some { ManagedOrder.ofSignal (.hex d.uuids.drawn) signal expectedPrice with
          status := .acknowledged }
      else d.caughtUp.getOrder id := by
  by_cases new : id = .hex d.uuids.drawn
  · -- no queued event names the new order but its own acknowledgement
    rw [if_pos new, new, ManagerState.consumed_append, ManagerState.consumed_getOrder,
      ManagerState.consumed_other fun event member => Inv.fresh (held.named event member),
      ManagerState.noting_getOrder, if_pos rfl]
    rw [List.filter_cons_of_pos (by simp [BrokerEvent.orderId])]
    rfl
  · rw [if_neg new, caughtUp, ManagerState.consumed_getOrder, ManagerState.consumed_getOrder,
      ManagerState.noting_getOrder, if_neg new, List.filter_append,
      List.filter_cons_of_neg fun same => new (of_decide_eq_true same).symm, List.filter_nil,
      List.append_nil]

/-- The new order is open and waits. The others do as before. -/
theorem Inv.inStep_noted (held : Inv d) (signal : SignalEvent) (expectedPrice : Option ℚ) :
    let request := (ManagedOrder.ofSignal (.hex d.uuids.drawn) signal expectedPrice).request
    InStep ((d.manager.noting (.hex d.uuids.drawn) signal expectedPrice).consumed
        (d.simulator.eventQueue ++
          [.ack ⟨.hex d.uuids.drawn, signal.symbol, .acknowledged, none⟩]))
      (d.simulator.placeOrder request) := by
  intro request
  have waiting := d.simulator.placeOrder_waiting request
  have records := held.noted signal expectedPrice signal.symbol
  constructor
  · intro symbol pending member
    rw [waiting] at member
    -- an order that waited has another id, so that its record is as before
    have old : pending ∈ d.simulator.waiting symbol → ∃ order,
        ((d.manager.noting (.hex d.uuids.drawn) signal expectedPrice).consumed
          (d.simulator.eventQueue ++
            [.ack ⟨.hex d.uuids.drawn, signal.symbol, .acknowledged, none⟩])).getOrder
            pending.request.orderId = some order ∧ order.symbol = symbol ∧
          order.status.isTerminal = false ∧ order.remainingQuantity = pending.remainingQty := by
      intro there
      rw [records, if_neg (Inv.fresh (held.waiting_drawn there))]
      exact held.inStep.recorded symbol pending there
    split at member
    next here =>
      rcases List.mem_append.mp member with before | new
      · exact old before
      · rw [List.mem_singleton.mp new, here]
        exact ⟨_, (records _).trans (if_pos rfl), rfl, rfl, rfl⟩
    next => exact old member
  · intro id order known live
    have found := (records id).symm.trans known
    split at found
    next here =>
      cases found
      refine ⟨signal.symbol, d.simulator.pendingOrder request, ?_, here.symm⟩
      rw [waiting, if_pos (show signal.symbol = request.symbol from rfl)]
      exact List.mem_append_right _ (List.mem_singleton.mpr rfl)
    next =>
      obtain ⟨symbol, pending, member, same⟩ := held.inStep.waits id order found live
      refine ⟨symbol, pending, ?_, same⟩
      rw [waiting]
      split
      · exact List.mem_append_left _ member
      · exact member

theorem inv_submit (held : Inv d) (signal : SignalEvent) (expectedPrice : Option ℚ)
    (sized : signal.targetQuantity ≠ 0)
    (moved : step broker d (.submit signal expectedPrice sized) = some e) : Inv e := by
  rw [step_submit, Option.some.injEq] at moved
  subst moved
  have grown : ∀ {id : OrderId}, (∃ n < d.uuids.drawn, id = .hex n) →
      ∃ n < d.uuids.drawn + 1, id = .hex n := by
    rintro _ ⟨n, earlier, rfl⟩
    exact ⟨n, Nat.lt_succ_of_lt earlier, rfl⟩
  let request := (ManagedOrder.ofSignal (.hex d.uuids.drawn) signal expectedPrice).request
  have waiting := d.simulator.placeOrder_waiting request
  constructor
  · exact held.keyed.noting _ signal expectedPrice
  · intro id order known
    dsimp only at known
    rw [ManagerState.noting_getOrder] at known
    split at known
    next here => exact ⟨d.uuids.drawn, Nat.lt_succ_self _, here⟩
    next => exact grown (held.drawn id order known)
  · intro event member
    rw [SimulatorState.placeOrder_eventQueue, List.mem_append, List.mem_singleton] at member
    rcases member with old | rfl
    · exact grown (held.named event old)
    · exact ⟨d.uuids.drawn, Nat.lt_succ_self _, rfl⟩
  · intro symbol
    dsimp only
    rw [waiting]
    split
    · -- the new id has not been drawn before
      rw [List.map_append, List.nodup_append]
      refine ⟨held.once symbol, List.nodup_singleton _, ?_⟩
      intro id there other here same
      obtain ⟨pending, member, rfl⟩ := List.mem_map.mp there
      rw [List.map_singleton, List.mem_singleton] at here
      exact Inv.fresh (held.waiting_drawn member) (same.trans here)
    · exact held.once symbol
  · intro symbol pending member
    dsimp only at member
    rw [waiting] at member
    split at member
    · rcases List.mem_append.mp member with old | new
      · exact held.positive symbol pending old
      · rw [List.mem_singleton.mp new]
        exact abs_pos.mpr sized
    · exact held.positive symbol pending member
  · rw [caughtUp, SimulatorState.placeOrder_eventQueue]
    exact held.inStep_noted signal expectedPrice

/-- A cancel leaves its order marked, unless an event of it is still to come. -/
theorem cancelled_record {orderId : OrderId} {order : ManagedOrder}
    (known : d.manager.getOrder orderId = some order) (id : OrderId) :
    ((d.manager.cancelling orderId).consumed d.simulator.eventQueue).getOrder id =
      if id = orderId ∧ d.simulator.eventQueue.filter (·.orderId = id) = [] then
        some { order with status := .cancelPending }
      else d.caughtUp.getOrder id := by
  rw [ManagerState.consumed_getOrder, ManagerState.cancelling_getOrder, caughtUp,
    ManagerState.consumed_getOrder]
  by_cases here : id = orderId
  · subst here
    rw [if_pos rfl, known]
    by_cases silent : d.simulator.eventQueue.filter (·.orderId = id) = []
    · rw [if_pos ⟨rfl, silent⟩, silent]
      rfl
    · rw [if_neg fun both => silent both.2, Option.map_map, Option.map_some, Option.map_some]
      exact congrArg some (order.following_marked .cancelPending silent)
  · rw [if_neg here, if_neg fun both => here both.1]

theorem inv_cancel (held : Inv d) {orderId : OrderId} {order : ManagedOrder}
    (known : d.manager.getOrder orderId = some order)
    (gone : ∀ symbol, ∀ pending ∈ d.simulator.waiting symbol, pending.request.orderId ≠ orderId)
    (told : ∃ event ∈ d.simulator.eventQueue, event.orderId = orderId) :
    Inv { d with
      manager := d.manager.cancelling orderId
      simulator := d.simulator.cancelOrder orderId } := by
  -- nothing waits under the id, so that the simulator drops nothing
  have waiting : ∀ symbol,
      (d.simulator.cancelOrder orderId).waiting symbol = d.simulator.waiting symbol := by
    intro symbol
    rw [SimulatorState.cancelOrder_waiting, List.filter_eq_self]
    intro pending member
    exact decide_eq_true (gone symbol pending member)
  -- the event that is still to come takes the mark off again
  have same : ∀ id, ((d.manager.cancelling orderId).consumed d.simulator.eventQueue).getOrder id =
      d.caughtUp.getOrder id := by
    intro id
    rw [cancelled_record known, if_neg]
    rintro ⟨rfl, silent⟩
    obtain ⟨event, member, own⟩ := told
    exact List.filter_eq_nil_iff.mp silent event member (decide_eq_true own)
  constructor
  · exact held.keyed.cancelling orderId
  · intro id marked found
    dsimp only at found
    rw [ManagerState.cancelling_getOrder] at found
    split at found
    · obtain ⟨old, before, -⟩ := Option.map_eq_some_iff.mp found
      exact held.drawn id old before
    · exact held.drawn id marked found
  · exact held.named
  · intro symbol
    rw [waiting]
    exact held.once symbol
  · intro symbol pending member
    rw [waiting] at member
    exact held.positive symbol pending member
  · constructor
    · intro symbol pending member
      rw [waiting] at member
      obtain ⟨record, found, rest⟩ := held.inStep.recorded symbol pending member
      exact ⟨record, (same _).trans found, rest⟩
    · intro id record found live
      obtain ⟨symbol, pending, member, own⟩ :=
        held.inStep.waits id record ((same id).symm.trans found) live
      exact ⟨symbol, pending, by rw [waiting]; exact member, own⟩

/-- The views agree after the cancel of a known order only if the order had gone and its last
event was still to come. -/
theorem gone_of_agree (held : Inv d) {orderId : OrderId} {order : ManagedOrder}
    (known : d.manager.getOrder orderId = some order)
    (agree : Agree ((d.manager.cancelling orderId).consumed d.simulator.eventQueue)
      (d.simulator.cancelOrder orderId)) :
    (∀ symbol, ∀ pending ∈ d.simulator.waiting symbol, pending.request.orderId ≠ orderId) ∧
      ∃ event ∈ d.simulator.eventQueue, event.orderId = orderId := by
  have keyed := (held.keyed.cancelling orderId).consumed d.simulator.eventQueue
  -- the broker works nothing of this id any more, so no record of it may be open
  have closed : ∀ record, ((d.manager.cancelling orderId).consumed
      d.simulator.eventQueue).getOrder orderId = some record → record.status.isTerminal = true := by
    intro record found
    by_contra live
    rw [Bool.not_eq_true] at live
    obtain ⟨symbol, pending, member, own⟩ := (agree.ids orderId).mp
      ⟨record, (ManagerState.mem_openOrders record).mpr ⟨orderId, found, live⟩,
        keyed orderId record found⟩
    rw [SimulatorState.cancelOrder_waiting, List.mem_filter, decide_eq_true_eq] at member
    exact member.2 own
  -- with no event to come the record would stay marked, which is open
  have told : ¬ d.simulator.eventQueue.filter (·.orderId = orderId) = [] := by
    intro silent
    have marked := closed _ ((cancelled_record known orderId).trans (if_pos ⟨rfl, silent⟩))
    cases marked
  -- so the mark does not last, and the order was over before
  have same : ((d.manager.cancelling orderId).consumed d.simulator.eventQueue).getOrder orderId =
      d.caughtUp.getOrder orderId := by
    rw [cancelled_record known, if_neg fun both => told both.2]
  constructor
  · rintro symbol pending member rfl
    obtain ⟨record, found, -, live, -⟩ := held.inStep.recorded symbol pending member
    rw [closed record (same.trans found)] at live
    cases live
  · by_contra silent
    apply told
    rw [List.filter_eq_nil_iff]
    intro event member own
    exact silent ⟨event, member, of_decide_eq_true own⟩

/-- An order waits under one symbol only. -/
theorem Inv.one_symbol (held : Inv d) {symbol other : Symbol} {p q : PendingOrder}
    (here : p ∈ d.simulator.waiting symbol) (there : q ∈ d.simulator.waiting other)
    (same : p.request.orderId = q.request.orderId) : symbol = other := by
  obtain ⟨order, known, named, -⟩ := held.inStep.recorded symbol p here
  obtain ⟨order', known', named', -⟩ := held.inStep.recorded other q there
  rw [same, known'] at known
  cases known
  exact named.symm.trans named'

section Bar

variable {bar : BarEvent} {m' : SimulatorState} {fills : List Fill}

/-- What the manager knows of a waiting order after a bar. -/
theorem Inv.bar_record (held : Inv d) (resolved : broker.Resolved bar d.simulator m' fills)
    {pending : PendingOrder} (member : pending ∈ d.simulator.waiting bar.symbol) :
    ∃ after, (d.caughtUp.consumed (executions broker fills)).getOrder pending.request.orderId =
        some after ∧ after.symbol = bar.symbol ∧
      after.remainingQuantity = pending.remainingQty - broker.determineFillQuantity pending bar ∧
      (after.status.isTerminal = true ↔
        broker.determineFillQuantity pending bar = pending.remainingQty) := by
  obtain ⟨order, known, symbol, live, left⟩ := held.inStep.recorded bar.symbol pending member
  obtain ⟨after, found, same, rest⟩ := Binbot.bar_record resolved (held.once bar.symbol) member
    (held.positive bar.symbol pending member) known live left
  exact ⟨after, found, same.trans symbol, rest⟩

/-- Of the other orders it knows what it did. -/
theorem other_record (resolved : broker.Resolved bar d.simulator m' fills) {id : OrderId}
    (other : ∀ pending ∈ d.simulator.waiting bar.symbol, pending.request.orderId ≠ id) :
    (d.caughtUp.consumed (executions broker fills)).getOrder id = d.caughtUp.getOrder id := by
  apply ManagerState.consumed_other
  intro event member same
  obtain ⟨pending, there, named⟩ := mem_executions member resolved
  exact other pending there (named.symm.trans same)

/-- An order that waits after a bar is what the bar left of one that waited before. -/
theorem Inv.origin (held : Inv d) (resolved : broker.Resolved bar d.simulator m' fills)
    {symbol : Symbol} {left : PendingOrder} (member : left ∈ m'.waiting symbol) :
    ∃ pending ∈ d.simulator.waiting symbol,
      left.request = pending.request ∧ 0 < left.remainingQty ∧
      (symbol ≠ bar.symbol ∧ left = pending ∨ symbol = bar.symbol ∧
        left.remainingQty = pending.remainingQty - broker.determineFillQuantity pending bar) := by
  rw [resolved.waiting] at member
  split at member
  next here =>
    obtain ⟨pending, there, kept⟩ := List.mem_filterMap.mp member
    obtain ⟨request, size, some⟩ := broker.carried_some kept
    exact ⟨pending, there, request, some, .inr ⟨here, size⟩⟩
  next elsewhere =>
    exact ⟨left, member, rfl, held.positive symbol left member, .inl ⟨elsewhere, rfl⟩⟩

theorem Inv.inStep_resolved (held : Inv d) (resolved : broker.Resolved bar d.simulator m' fills)
    (whole : ∀ pending ∈ d.simulator.waiting bar.symbol,
      pending.request.timeInForce = .ioc ∨ pending.request.timeInForce = .fok →
      broker.determineFillQuantity pending bar = pending.remainingQty) :
    InStep (d.caughtUp.consumed (executions broker fills)) m' := by
  constructor
  · intro symbol left member
    obtain ⟨pending, there, request, some, ⟨elsewhere, rfl⟩ | ⟨rfl, size⟩⟩ :=
      held.origin resolved member
    · rw [other_record resolved]
      · exact held.inStep.recorded symbol left there
      · intro pending here same
        exact elsewhere (held.one_symbol here there same).symm
    · obtain ⟨after, found, named, rest, ended⟩ := held.bar_record resolved there
      rw [request]
      refine ⟨after, found, named, ?_, rest.trans size.symm⟩
      rw [← Bool.not_eq_true, ended]
      omega
  · intro id order known live
    by_cases ours : ∃ pending ∈ d.simulator.waiting bar.symbol, pending.request.orderId = id
    · -- the order has a remainder, which the bar carries over
      obtain ⟨pending, there, rfl⟩ := ours
      obtain ⟨after, found, -, -, ended⟩ := held.bar_record resolved there
      cases found.symm.trans known
      rw [← Bool.not_eq_true, ended] at live
      have part := (broker.determineFillQuantity_bounds bar
        (held.positive bar.symbol pending there).le).2
      obtain ⟨left, kept⟩ := broker.exists_carried bar (lt_of_le_of_ne part live)
        fun dropped => live (whole pending there dropped)
      refine ⟨bar.symbol, left, ?_, congrArg _ (broker.carried_some kept).1⟩
      rw [resolved.waiting, if_pos rfl]
      exact List.mem_filterMap.mpr ⟨pending, there, kept⟩
    · -- the bar is of another symbol, or not about this order
      have others : ∀ pending ∈ d.simulator.waiting bar.symbol, pending.request.orderId ≠ id :=
        fun pending there same => ours ⟨pending, there, same⟩
      obtain ⟨symbol, pending, there, same⟩ :=
        held.inStep.waits id order ((other_record resolved others).symm.trans known) live
      have elsewhere : symbol ≠ bar.symbol := by
        rintro rfl
        exact others pending there same
      refine ⟨symbol, pending, ?_, same⟩
      rwa [resolved.waiting, if_neg elsewhere]

theorem inv_resolved (held : Inv d) (resolved : broker.Resolved bar d.simulator m' fills)
    (whole : ∀ pending ∈ d.simulator.waiting bar.symbol,
      pending.request.timeInForce = .ioc ∨ pending.request.timeInForce = .fok →
      broker.determineFillQuantity pending bar = pending.remainingQty) :
    Inv { d with simulator := m' } := by
  have caught : caughtUp { d with simulator := m' } =
      d.caughtUp.consumed (executions broker fills) := by
    rw [caughtUp, resolved.reported, ManagerState.consumed_append]
    rfl
  constructor
  · exact held.keyed
  · exact held.drawn
  · intro event member
    rw [resolved.reported] at member
    rcases List.mem_append.mp member with old | new
    · exact held.named event old
    · obtain ⟨pending, there, same⟩ := mem_executions new resolved
      obtain ⟨n, drawn, id⟩ := held.waiting_drawn there
      exact ⟨n, drawn, same.trans id⟩
  · intro symbol
    dsimp only
    rw [resolved.waiting]
    split
    · exact (held.once symbol).sublist (broker.carried_ids_sublist _)
    · exact held.once symbol
  · intro symbol left member
    obtain ⟨-, -, -, some, -⟩ := held.origin resolved member
    exact some
  · rw [caught]
    exact held.inStep_resolved resolved whole

/-- Where the views agree after a bar nothing was dropped with a remainder. -/
theorem whole_of_agree (held : Inv d) (resolved : broker.Resolved bar d.simulator m' fills)
    (agree : Agree (d.caughtUp.consumed (executions broker fills)) m') :
    ∀ pending ∈ d.simulator.waiting bar.symbol,
      pending.request.timeInForce = .ioc ∨ pending.request.timeInForce = .fok →
      broker.determineFillQuantity pending bar = pending.remainingQty := by
  intro pending there dropped
  by_contra part
  obtain ⟨after, found, -, -, ended⟩ := held.bar_record resolved there
  -- its record is open, so that it still waits: but a dropped order is not carried over
  have live : after.status.isTerminal = false := by rwa [← Bool.not_eq_true, ended]
  have keyed := (held.keyed.consumed d.simulator.eventQueue).consumed (executions broker fills)
  obtain ⟨symbol, left, member, same⟩ := (agree.ids _).mp
    ⟨after, (ManagerState.mem_openOrders after).mpr ⟨_, found, live⟩, keyed _ after found⟩
  rw [resolved.waiting] at member
  split at member
  next here =>
    obtain ⟨origin, before, kept⟩ := List.mem_filterMap.mp member
    rw [here] at before
    obtain rfl : origin = pending := by
      apply List.inj_on_of_nodup_map (held.once bar.symbol) before there
      rw [← same, (broker.carried_some kept).1]
    rw [broker.carried_dropped dropped] at kept
    cases kept
  next elsewhere => exact elsewhere (held.one_symbol member there same)

end Bar

variable (broker) in
/-- Consuming all that is queued leaves an empty queue and the manager caught up. -/
theorem run_consume (d : SimulatedDesk) :
    ∃ t, Machine.run (step broker) d (List.replicate d.simulator.eventQueue.length .consume) =
        some t ∧
      t.simulator.eventQueue = [] ∧ t.manager = d.caughtUp ∧
      t.simulator.waiting = d.simulator.waiting := by
  generalize queued : d.simulator.eventQueue = queue
  induction queue generalizing d with
  | nil => exact ⟨d, rfl, queued, by rw [caughtUp, queued]; rfl, rfl⟩
  | cons event rest ih =>
    -- consuming one event brings the manager nearer and leaves the rest
    obtain ⟨bus, moved⟩ := step_consume broker queued
    obtain ⟨t, reached, empty, caught, waiting⟩ := ih
      { d with
        manager := (d.manager.handleEvent event).1
        bus := bus
        simulator := { d.simulator with eventQueue := rest } } rfl
    refine ⟨t, ?_, empty, ?_, waiting⟩
    · rw [List.length_cons, List.replicate_succ, Machine.run_cons, moved]
      exact reached
    · rw [caught, caughtUp, caughtUp, queued]
      rfl

/-- Only the queue, once consumed, and the waiting orders matter. -/
theorem Inv.of_same (held : Inv d) (keyed : e.manager.Keyed)
    (known : ∀ id, (∃ order, e.manager.getOrder id = some order) →
      ∃ order, d.manager.getOrder id = some order)
    (uuids : e.uuids = d.uuids)
    (queue : ∀ event ∈ e.simulator.eventQueue, event ∈ d.simulator.eventQueue)
    (caught : e.caughtUp = d.caughtUp) (waiting : e.simulator.waiting = d.simulator.waiting) :
    Inv e where
  keyed := keyed
  drawn id order found := by
    obtain ⟨old, before⟩ := known id ⟨order, found⟩
    rw [uuids]
    exact held.drawn id old before
  named event member := by
    rw [uuids]
    exact held.named event (queue event member)
  once := by rw [waiting]; exact held.once
  positive := by rw [waiting]; exact held.positive
  inStep := by
    rw [caught]
    exact ⟨by rw [waiting]; exact held.inStep.recorded, by rw [waiting]; exact held.inStep.waits⟩

theorem inv_bar (held : Inv d) (bar : BarEvent) (reported : Reported broker d (.bar bar)) :
    Inv { d with simulator := processedBar broker d.simulator bar } := by
  rcases processedBar_cases broker d.simulator bar with
    ⟨ok, fills, resolved⟩ | ⟨-, queue, waiting, -⟩
  · exact inv_resolved held resolved (reported ok)
  · refine held.of_same held.keyed (fun id found => found) rfl ?_ ?_ waiting
    · intro event member
      dsimp only at member
      rwa [queue] at member
    · rw [caughtUp, caughtUp]
      dsimp only
      rw [queue]

theorem inv_consume (held : Inv d) (moved : step broker d .consume = some e) :
    Inv e ∧ e.caughtUp = d.caughtUp ∧ e.simulator.waiting = d.simulator.waiting := by
  cases queued : d.simulator.eventQueue with
  | nil => simp [step, queued] at moved
  | cons event rest =>
    obtain ⟨bus, taken⟩ := step_consume broker queued
    rw [taken, Option.some.injEq] at moved
    subst moved
    have caught : caughtUp
        { d with
          manager := (d.manager.handleEvent event).1
          bus := bus
          simulator := { d.simulator with eventQueue := rest } } = d.caughtUp := by
      rw [caughtUp, caughtUp, queued]
      rfl
    refine ⟨?_, caught, rfl⟩
    refine held.of_same (held.keyed.handleEvent event) ?_ rfl ?_ caught rfl
    · rintro id ⟨order, found⟩
      rw [ManagerState.handleEvent_getOrder] at found
      split at found
      · obtain ⟨old, before, -⟩ := Option.map_eq_some_iff.mp found
        exact ⟨old, before⟩
      · exact ⟨order, found⟩
    · intro other member
      rw [queued]
      exact List.mem_cons_of_mem _ member

theorem inv_cancelAll (held : Inv d) (nothing : ∀ symbol, d.simulator.waiting symbol = []) :
    Inv { d with simulator := d.simulator.cancelAll } := by
  refine held.of_same held.keyed (fun id found => found) rfl (fun event member => member) rfl ?_
  funext symbol
  exact (d.simulator.cancelAll_waiting symbol).trans (nothing symbol).symm

/-- What the manager and the simulator hold agrees once the queue is consumed. -/
def Agreed (d : SimulatedDesk) : Prop := Agree d.caughtUp d.simulator

theorem Inv.agreed (held : Inv d) : d.Agreed :=
  held.inStep.agree (held.keyed.consumed d.simulator.eventQueue)

theorem inv_step (held : Inv d) (act : Act) (reported : Reported broker d act)
    (moved : step broker d act = some e) : Inv e := by
  cases act with
  | submit signal expectedPrice sized => exact inv_submit held signal expectedPrice sized moved
  | cancel orderId =>
    cases known : d.manager.getOrder orderId with
    | none =>
      rw [step_cancel_unknown known] at moved
      cases moved
      exact held
    | some order =>
      rw [step_cancel_known known] at moved
      cases moved
      obtain ⟨gone, told⟩ := reported (by simp [known])
      exact inv_cancel held known gone told
  | cancelAll =>
    rw [step_cancelAll] at moved
    cases moved
    exact inv_cancelAll held reported
  | bar bar =>
    rw [step_bar] at moved
    cases moved
    exact inv_bar held bar reported
  | consume => exact (inv_consume held moved).1

/-- Where the views agree after an act the simulator reported all that it dropped. -/
theorem reported_of_agreed (held : Inv d) (act : Act) (moved : step broker d act = some e)
    (agreed : e.Agreed) : Reported broker d act := by
  cases act with
  | submit signal expectedPrice sized => trivial
  | cancel orderId =>
    intro known
    obtain ⟨order, found⟩ := Option.ne_none_iff_exists'.mp known
    rw [step_cancel_known found] at moved
    cases moved
    exact gone_of_agree held found agreed
  | cancelAll =>
    rw [step_cancelAll] at moved
    cases moved
    intro symbol
    rw [List.eq_nil_iff_forall_not_mem]
    intro pending member
    -- the manager still holds it open
    obtain ⟨order, known, -, live, -⟩ := held.inStep.recorded symbol pending member
    obtain ⟨other, left, waits, -⟩ := (agreed.ids order.orderId).mp
      ⟨order, (ManagerState.mem_openOrders order).mpr ⟨_, known, live⟩, rfl⟩
    cases waits
  | bar bar =>
    rw [step_bar] at moved
    cases moved
    intro ok
    rcases processedBar_cases broker d.simulator bar with
      ⟨-, fills, resolved⟩ | ⟨raised, -⟩
    · apply whole_of_agree held resolved
      rw [Agreed, caughtUp] at agreed
      dsimp only at agreed
      rwa [resolved.reported, ManagerState.consumed_append] at agreed
    · exact absurd ok raised
  | consume => trivial

/-- A desk at which nothing happened yet. -/
def opened (uuids : Uuids) (bus : EventBus) (equity : ℚ) : SimulatedDesk where
  uuids := uuids
  bus := bus
  simulator := { equity := equity }

theorem inv_opened (uuids : Uuids) (bus : EventBus) (equity : ℚ) :
    Inv (opened uuids bus equity) where
  keyed key order known := by cases known
  drawn id order known := by cases known
  named event member := by cases member
  once symbol := List.nodup_nil
  positive symbol pending member := by cases member
  inStep :=
    { recorded := fun symbol pending member => by cases member
      waits := fun id order known => by cases known }

/-- Agreement once all that is queued has been consumed. -/
def Settles (broker : MarketSimulatorBroker) (d : SimulatedDesk) : Prop :=
  ∀ t, Machine.run (step broker) d (List.replicate d.simulator.eventQueue.length .consume) =
    some t → Agree t.manager t.simulator

theorem settles_iff (d : SimulatedDesk) : Settles broker d ↔ d.Agreed := by
  obtain ⟨t, reached, -, caught, waiting⟩ := run_consume broker d
  have same : Agree t.manager t.simulator ↔ d.Agreed := by
    rw [caught, Agreed]
    constructor
    · exact fun agree => ⟨by rw [← waiting]; exact agree.ids, by rw [← waiting]; exact agree.rest⟩
    · exact fun agree => ⟨by rw [waiting]; exact agree.ids, by rw [waiting]; exact agree.rest⟩
  rw [Settles, ← same]
  exact ⟨fun settles => settles t reached, fun agree u consumed => by
    cases reached.symm.trans consumed
    exact agree⟩

/-- A run keeps the manager and the simulator agreed, whenever the queue is consumed, exactly
when the simulator reports all that each act makes it drop. -/
theorem views_agree (broker : MarketSimulatorBroker) (uuids : Uuids) (bus : EventBus)
    (equity : ℚ) (acts : List Act) :
    Machine.Meets (step broker) (Reported broker) (opened uuids bus equity) acts ↔
      Machine.Always (step broker) (Settles broker) (opened uuids bus equity) acts := by
  apply Machine.meets_iff_always Inv (Settles broker)
  · exact fun d held => (settles_iff d).mpr held.agreed
  · exact fun d act e held reported moved => inv_step held act reported moved
  · exact fun d act e held moved settles =>
      reported_of_agreed held act moved ((settles_iff e).mp settles)
  · intro d act idle
    cases act with
    | consume => trivial
    | submit signal expectedPrice sized => cases idle
    | cancel orderId => cases idle
    | cancelAll => cases idle
    | bar bar => cases idle
  · exact inv_opened uuids bus equity

/-- A cancelled order stays open for the manager, though the simulator works nothing. -/
theorem cancel_unreported :
    ¬ ∀ (broker : MarketSimulatorBroker) (uuids : Uuids) (bus : EventBus) (equity : ℚ)
      (acts : List Act), Machine.Always (step broker)
        (fun d => d.simulator.eventQueue = [] → Agree d.manager d.simulator)
        (opened uuids bus equity) acts := by
  intro claim
  have agree := (claim SimulatorLedger.desk ⟨0⟩ {} 10000
    [.submit ⟨"BTCUSDT", "momentum", .buy, 3, .market, none, .gtc, none⟩ none (by decide),
      .consume, .cancel (.hex 0)]).reached rfl rfl
  obtain ⟨symbol, pending, waits, same⟩ := (agree.ids (.hex 0)).mp
    ⟨_, List.mem_singleton.mpr rfl, rfl⟩
  -- but `cancel_order` has dropped it
  have dropped : ∀ m : SimulatorState, pending ∉ (m.cancelOrder (.hex 0)).waiting symbol := by
    intro m there
    rw [SimulatorState.cancelOrder_waiting, List.mem_filter, decide_eq_true_eq] at there
    exact there.2 same
  exact dropped _ waits

end SimulatedDesk

end Binbot
