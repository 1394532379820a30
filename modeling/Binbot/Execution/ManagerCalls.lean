import Binbot.Async.Scheduler
import Binbot.Execution.OrderManager

/-!
# Calls of the order manager

The manager over a broker behind requests, with any number of its calls in flight: each
may wait for the broker as long as it likes, and may get any answer. What a call does
to the records it does before it asks the broker.
-/
namespace Binbot

open Async Data

inductive BrokerCall where
  | placeOrder (request : BrokerOrderRequest)
  | cancelOrder (orderId : OrderId)
  | cancelAll
  | accountEquity
  | positions
  | marginUsage
  | reconcileState
  deriving DecidableEq

abbrev BrokerCall.Reply : BrokerCall → Type
  | .accountEquity => ℚ
  | .positions => Dict Symbol ℤ
  | .marginUsage => MarginUse
  | .reconcileState => Dict Symbol ℤ
  | _ => Unit

abbrev brokerSig : Sig := ⟨BrokerCall, BrokerCall.Reply⟩

def remoteBroker {σ : Type} : BrokerInterface σ brokerSig where
  placeOrder request := Coro.request (S := brokerSig) (.placeOrder request)
  cancelOrder orderId := Coro.request (S := brokerSig) (.cancelOrder orderId)
  cancelAll := Coro.request (S := brokerSig) .cancelAll
  getAccountEquity := Coro.request (S := brokerSig) .accountEquity
  getPositions := Coro.request (S := brokerSig) .positions
  getMarginUsage := Coro.request (S := brokerSig) .marginUsage
  reconcileState := Coro.request (S := brokerSig) .reconcileState

/-- The memory of the manager and of the bus that it publishes to. -/
structure OrderDesk where
  manager : ManagerState := {}
  uuids : Uuids := ⟨0⟩
  bus : EventBus := {}

namespace OrderDesk

instance : Part OrderDesk ManagerState where
  view := manager
  set d m := { d with manager := m }
  view_set _ _ := rfl
  set_set _ _ _ := rfl

instance : Part OrderDesk Uuids where
  view := uuids
  set d u := { d with uuids := u }
  view_set _ _ := rfl
  set_set _ _ _ := rfl

instance : Part OrderDesk EventBus where
  view := bus
  set d b := { d with bus := b }
  view_set _ _ := rfl
  set_set _ _ _ := rfl

@[simp] theorem view_manager (d : OrderDesk) : (Part.view d : ManagerState) = d.manager := rfl

end OrderDesk

/-- The status that an event leaves its order with. -/
def BrokerEvent.statusAfter : BrokerEvent → OrderStatus
  | .ack event => event.status
  | .reject _ => .rejected
  | .execution event => if event.remainingQuantity = 0 then .filled else .partiallyFilled

namespace ManagedOrder

@[simp] theorem after_status (order : ManagedOrder) (event : BrokerEvent) :
    (order.after event).1.status = event.statusAfter := by
  cases event with
  | ack event => rfl
  | reject event => rfl
  | execution event => rfl

@[simp] theorem after_orderId (order : ManagedOrder) (event : BrokerEvent) :
    (order.after event).1.orderId = order.orderId := by
  cases event with
  | ack event => rfl
  | reject event => rfl
  | execution event => rfl

end ManagedOrder

namespace ManagerState

variable (m : ManagerState)

/-- The records once `submit` has noted the signal. -/
def noting (orderId : OrderId) (signal : SignalEvent) (expectedPrice : Option ℚ) :
    ManagerState :=
  { m with orders := m.orders.set orderId (.ofSignal orderId signal expectedPrice) }

/-- The records once `cancel` has marked the order. -/
def cancelling (orderId : OrderId) : ManagerState :=
  match m.orders.get? orderId with
  | none => m
  | some order =>
    { m with orders := m.orders.set orderId { order with status := .cancelPending } }

/-- Each record carries the id it is filed under. -/
def Keyed : Prop := ∀ id order, m.getOrder id = some order → order.orderId = id

variable {m}

theorem noting_getOrder (orderId id : OrderId) (signal : SignalEvent) (expectedPrice : Option ℚ) :
    (m.noting orderId signal expectedPrice).getOrder id =
      if id = orderId then some (.ofSignal orderId signal expectedPrice) else m.getOrder id :=
  Dict.get?_set _ _ _ _

theorem cancelling_getOrder (orderId id : OrderId) :
    (m.cancelling orderId).getOrder id =
      if id = orderId then (m.getOrder id).map ({ · with status := .cancelPending })
      else m.getOrder id := by
  rw [cancelling]
  split
  next unknown =>
    by_cases here : id = orderId
    · rw [if_pos here, getOrder, here, unknown, Option.map_none]
    · rw [if_neg here]
  next order known =>
    rw [getOrder, Dict.get?_set]
    by_cases here : id = orderId
    · rw [if_pos here, if_pos here, getOrder, here, known, Option.map_some]
    · rw [if_neg here, if_neg here, getOrder]

/-- A submit takes no record away. -/
theorem noting_known (orderId : OrderId) (signal : SignalEvent) (expectedPrice : Option ℚ)
    {id : OrderId} (known : m.getOrder id ≠ none) :
    (m.noting orderId signal expectedPrice).getOrder id ≠ none := by
  rw [noting_getOrder]
  split
  · exact Option.some_ne_none _
  · exact known

/-- A cancel marks a record, and neither makes one nor takes one away. -/
theorem cancelling_known (orderId id : OrderId) :
    (m.cancelling orderId).getOrder id ≠ none ↔ m.getOrder id ≠ none := by
  rw [cancelling_getOrder]
  split
  · rw [ne_eq, Option.map_eq_none_iff]
  · exact Iff.rfl

theorem handleEvent_getOrder (event : BrokerEvent) (id : OrderId) :
    (m.handleEvent event).1.getOrder id =
      if id = event.orderId then (m.getOrder id).map fun order => (order.after event).1
      else m.getOrder id := by
  rw [handleEvent]
  split
  next unknown =>
    by_cases here : id = event.orderId
    · rw [if_pos here, getOrder, here, unknown, Option.map_none]
    · rw [if_neg here]
  next order known =>
    rw [getOrder, Dict.get?_set]
    by_cases here : id = event.orderId
    · rw [if_pos here, if_pos here, getOrder, here, known, Option.map_some]
    · rw [if_neg here, if_neg here, getOrder]

theorem mem_openOrders (order : ManagedOrder) :
    order ∈ m.openOrders ↔
      ∃ id, m.getOrder id = some order ∧ order.status.isTerminal = false := by
  rw [openOrders, List.mem_filter, List.mem_map, Bool.not_eq_true']
  constructor
  · rintro ⟨⟨⟨id, _⟩, member, rfl⟩, working⟩
    exact ⟨id, (m.orders.mem_entries_iff id _).mp member, working⟩
  · rintro ⟨id, known, working⟩
    exact ⟨⟨(id, order), (m.orders.mem_entries_iff id order).mpr known, rfl⟩, working⟩

theorem Keyed.noting (keyed : m.Keyed) (orderId : OrderId) (signal : SignalEvent)
    (expectedPrice : Option ℚ) : (m.noting orderId signal expectedPrice).Keyed := by
  intro id order known
  rw [noting_getOrder] at known
  split at known
  next here =>
    cases known
    exact here.symm
  next => exact keyed id order known

theorem Keyed.cancelling (keyed : m.Keyed) (orderId : OrderId) : (m.cancelling orderId).Keyed := by
  intro id order known
  rw [cancelling_getOrder] at known
  split at known
  · obtain ⟨old, found, rfl⟩ := Option.map_eq_some_iff.mp known
    exact keyed id old found
  · exact keyed id order known

theorem Keyed.handleEvent (keyed : m.Keyed) (event : BrokerEvent) :
    (m.handleEvent event).1.Keyed := by
  intro id order known
  rw [handleEvent_getOrder] at known
  split at known
  · obtain ⟨old, found, rfl⟩ := Option.map_eq_some_iff.mp known
    rw [ManagedOrder.after_orderId]
    exact keyed id old found
  · exact keyed id order known

end ManagerState

/-- What the manager is asked, and what the broker tells it. -/
inductive ManagerCall where
  | submit (signal : SignalEvent) (expectedPrice : Option ℚ)
  | cancel (orderId : OrderId)
  | cancelAll
  | brokerEvent (event : BrokerEvent)
  deriving DecidableEq

namespace ManagerCall

def body : ManagerCall → Coro OrderDesk brokerSig Unit
  | .submit signal expectedPrice => do
    let _ ← (OrderLifecycleManager.mk remoteBroker).submit signal expectedPrice
  | .cancel orderId => (OrderLifecycleManager.mk remoteBroker).cancel orderId
  | .cancelAll => (OrderLifecycleManager.mk remoteBroker).cancelAll
  | .brokerEvent event => OrderLifecycleManager.handleBrokerEvent event

/-- What the call does to the memory. -/
def applied (d : OrderDesk) : ManagerCall → OrderDesk
  | .submit signal expectedPrice =>
    { d with
      manager := d.manager.noting (.hex d.uuids.drawn) signal expectedPrice
      uuids := ⟨d.uuids.drawn + 1⟩ }
  | .cancel orderId => { d with manager := d.manager.cancelling orderId }
  | .cancelAll => d
  | .brokerEvent event =>
    { d with
      manager := (d.manager.handleEvent event).1
      bus := match (d.manager.handleEvent event).2 with
        | none => d.bus
        | some published => d.bus.publish (.order published) }

/-- A call changes the memory before its first suspension, and never after it. -/
theorem body_advance (call : ManagerCall) (d : OrderDesk) :
    (call.body.advance d).2 = call.applied d ∧ (call.body.advance d).1.Silent := by
  cases call with
  | submit signal expectedPrice =>
    refine ⟨rfl, ?_⟩
    rintro (e | ⟨⟩)
    · trivial
    · trivial
  | cancel orderId =>
    rw [body, OrderLifecycleManager.cancel, Coro.advance_view_bind, OrderDesk.view_manager, applied,
      ManagerState.cancelling]
    cases d.manager.orders.get? orderId with
    | none => exact ⟨rfl, trivial⟩
    | some order =>
      refine ⟨rfl, ?_⟩
      rintro (e | ⟨⟩)
      · trivial
      · trivial
  | cancelAll =>
    refine ⟨rfl, ?_⟩
    rintro (e | ⟨⟩)
    · trivial
    · trivial
  | brokerEvent event =>
    rw [body, OrderLifecycleManager.handleBrokerEvent, Coro.advance_view_bind,
      OrderDesk.view_manager, applied]
    dsimp only
    cases (d.manager.handleEvent event).2 with
    | none => exact ⟨rfl, trivial⟩
    | some published => exact ⟨rfl, trivial⟩

end ManagerCall

/-- Any number of calls at once; the broker answers each whenever and however it likes. -/
def orderSystem : System ℕ ManagerCall ((q : BrokerCall) → Answer brokerSig q) Empty
    OrderDesk Unit brokerSig where
  body _ call := some call.body
  serve _ choice q := some (choice q, ())
  drift _ _ move := move.elim

abbrev OrderWorld : Type := World ℕ OrderDesk Unit brokerSig

abbrev OrderLabel : Type := Label ℕ ManagerCall ((q : BrokerCall) → Answer brokerSig q) Empty

namespace OrderWorld

/-- No call is in flight. -/
def started (d : OrderDesk) : OrderWorld := ⟨d, (), fun _ => ⟨.idle, []⟩⟩

/-- What is left of the calls in flight touches no memory. -/
def Silent (w : OrderWorld) : Prop :=
  ∀ i, match (w.task i).phase with
    | .idle => True
    | .waiting _ next => ∀ r, (next r).Silent
    | .answered _ r next => (next r).Silent

variable {w v : OrderWorld}

theorem silent_of {c : Coro OrderDesk brokerSig Unit} (silent : c.Silent) :
    match Phase.of c with
    | .idle => True
    | .waiting _ next => ∀ r, (next r).Silent
    | .answered _ r next => (next r).Silent := by
  cases c with
  | await q next => exact silent
  | _ => trivial

theorem Silent.segment (held : Silent w) (i : ℕ) {c : Coro OrderDesk brokerSig Unit}
    {log : List (Async.Event brokerSig)} (silent : (c.advance w.memory).1.Silent) :
    Silent (w.segment i c log) := by
  intro j
  by_cases same : j = i
  · subst same
    rw [World.segment_same]
    exact silent_of silent
  · rw [World.segment_ne _ _ _ same]
    exact held j

/-- The memory changes when a call is made, and only then. -/
theorem step_cases {l : OrderLabel} (held : Silent w) (moved : orderSystem.step w l = some v) :
    Silent v ∧
      ((∃ i call, l = .start i call ∧ v.memory = call.applied w.memory) ∨
        (∀ i call, l ≠ .start i call) ∧ v.memory = w.memory) := by
  rcases orderSystem.step_cases moved with ⟨i, call, c, rfl, idle, found, rfl⟩ |
    ⟨i, choice, q, next, r, outside, rfl, waiting, served, rfl⟩ |
    ⟨i, q, r, next, rfl, answered, rfl⟩ | ⟨move, _, _, rfl, _, _⟩
  · cases found
    obtain ⟨memory, silent⟩ := call.body_advance w.memory
    exact ⟨held.segment i silent, .inl ⟨i, call, rfl, memory⟩⟩
  · refine ⟨fun j => ?_, .inr ⟨by simp, rfl⟩⟩
    have before := held i
    rw [waiting] at before
    change match ((w.setTask i _).task j).phase with
      | .idle => True
      | .waiting _ next => ∀ r, (next r).Silent
      | .answered _ r next => (next r).Silent
    by_cases same : j = i
    · subst same
      rw [World.setTask_same]
      exact before r
    · rw [World.setTask_ne _ _ same]
      exact held j
  · have before := held i
    rw [answered] at before
    obtain ⟨memory, silent⟩ := Coro.Silent.advance before w.memory
    exact ⟨held.segment i silent, .inr ⟨by simp, memory⟩⟩
  · exact move.elim

end OrderWorld

end Binbot
