import Binbot.Data.DictSum
import Binbot.Execution.ManagerCalls
import Binbot.Execution.Slippage
import Mathlib.Tactic.FieldSimp

/-!
# Slippage and the records of the orders

The tracker samples fill by fill, the manager averages order by order. Over any interleaving of
calls the tracker's totals of a symbol are what the orders' averages cost against the prices
they were decided at.
-/
namespace Binbot

open Async Data

namespace ManagedOrder

/-- What the order has cost so far against the price it was decided at, if there is one. -/
def shortfall (order : ManagedOrder) : ℚ :=
  match order.expectedPrice with
  | none => 0
  | some expected =>
    (order.avgFillPrice - expected) * order.filledQuantity * order.side.sign

/-- What of it counts in the statistics. -/
def measured (order : ManagedOrder) : ℤ :=
  match order.expectedPrice with
  | none => 0
  | some _ => order.filledQuantity

/-- The fill is of the order's own symbol and side, and its running total goes on from there. -/
structure GoesOn (order : ManagedOrder) (fill : ExecutionEvent) : Prop where
  symbol : fill.symbol = order.symbol
  side : fill.side = order.side
  cumulative : fill.cumulativeQuantity = order.filledQuantity + fill.fillQuantity
  some_ : fill.cumulativeQuantity ≠ 0

instance (order : ManagedOrder) (fill : ExecutionEvent) : Decidable (order.GoesOn fill) :=
  decidable_of_iff (fill.symbol = order.symbol ∧ fill.side = order.side ∧
      fill.cumulativeQuantity = order.filledQuantity + fill.fillQuantity ∧
      fill.cumulativeQuantity ≠ 0)
    ⟨fun h => ⟨h.1, h.2.1, h.2.2.1, h.2.2.2⟩, fun h => ⟨h.symbol, h.side, h.cumulative, h.some_⟩⟩

variable {order : ManagedOrder} {fill : ExecutionEvent}

/-- A fill adds its sample to the shortfall. -/
theorem shortfall_filledBy (goesOn : order.GoesOn fill) :
    (order.filledBy fill).shortfall = order.shortfall +
      (({ fill with expectedPrice := order.expectedPrice }.slippage).map
        fun s => (fill.fillQuantity : ℚ) * s).getD 0 := by
  obtain ⟨-, side, cumulative, some_⟩ := goesOn
  have total : (fill.cumulativeQuantity : ℚ) ≠ 0 := by exact_mod_cast some_
  have sum : (fill.cumulativeQuantity : ℚ) = order.filledQuantity + fill.fillQuantity := by
    exact_mod_cast cumulative
  simp only [shortfall, filledBy_eq, ExecutionEvent.slippage, if_neg some_]
  cases order.expectedPrice with
  | none => simp
  | some expected =>
    -- the new average times the new total is the old notional and the fill's
    simp only [Option.map_some, Option.getD_some, side]
    field_simp
    rw [sum]
    ring

theorem measured_filledBy (goesOn : order.GoesOn fill) :
    (order.filledBy fill).measured = order.measured +
      (({ fill with expectedPrice := order.expectedPrice }.slippage).map
        fun _ => fill.fillQuantity).getD 0 := by
  simp only [measured, filledBy_eq, ExecutionEvent.slippage]
  cases order.expectedPrice with
  | none => simp
  | some expected => simp [goesOn.cumulative]

end ManagedOrder

/-- A sample goes to the fill's symbol. -/
theorem recordSlippage_getD (records : Dict Symbol (List (ℤ × ℚ))) (event : ExecutionEvent)
    (symbol : Symbol) :
    (recordSlippage records event).getD symbol [] = records.getD symbol [] ++
      if event.symbol = symbol then (event.slippage.map fun s => (event.fillQuantity, s)).toList
      else [] := by
  rw [recordSlippage]
  cases event.slippage with
  | none => simp
  | some slippage =>
    simp only [Dict.getD, Dict.get?_set]
    by_cases here : symbol = event.symbol
    · simp [here]
    · simp [here, Ne.symm here]

theorem recordSlippage_cost (records : Dict Symbol (List (ℤ × ℚ))) (event : ExecutionEvent)
    (symbol : Symbol) :
    SlippageTracker.weightedCost ((recordSlippage records event).getD symbol []) =
      SlippageTracker.weightedCost (records.getD symbol []) +
        if event.symbol = symbol then
          (event.slippage.map fun s => (event.fillQuantity : ℚ) * s).getD 0
        else 0 := by
  rw [recordSlippage_getD]
  cases event.slippage with
  | none => simp
  | some slippage => split <;> simp

theorem recordSlippage_quantity (records : Dict Symbol (List (ℤ × ℚ))) (event : ExecutionEvent)
    (symbol : Symbol) :
    SlippageTracker.totalQuantity ((recordSlippage records event).getD symbol []) =
      SlippageTracker.totalQuantity (records.getD symbol []) +
        if event.symbol = symbol then (event.slippage.map fun _ => event.fillQuantity).getD 0
        else 0 := by
  rw [recordSlippage_getD]
  cases event.slippage with
  | none => simp
  | some slippage => split <;> simp

namespace ManagerState

/-- A figure of the symbol's orders, summed up. -/
def total (figure : ManagedOrder → ℚ) (symbol : Symbol) (m : ManagerState) : ℚ :=
  m.orders.sum fun _ order => if order.symbol = symbol then figure order else 0

variable (figure : ManagedOrder → ℚ) {m : ManagerState} {order order' : ManagedOrder} {id : OrderId}

/-- A new record of a figure of zero adds nothing. -/
theorem total_noting {signal : SignalEvent} {expectedPrice : Option ℚ}
    (unknown : m.getOrder id = none) (zero : figure (.ofSignal id signal expectedPrice) = 0)
    (symbol : Symbol) :
    (m.noting id signal expectedPrice).total figure symbol = m.total figure symbol := by
  rw [getOrder] at unknown
  rw [noting, total, Dict.sum_set m.orders id _ fun _ _ _ => rfl, Dict.weightAt, unknown, zero]
  simp [total]

/-- A record that takes the place of one of the same symbol adds the difference. -/
theorem total_set (known : m.getOrder id = some order) (same : order'.symbol = order.symbol)
    (records : Dict Symbol (List (ℤ × ℚ))) (symbol : Symbol) :
    ({ orders := m.orders.set id order', slippage := records } : ManagerState).total figure symbol =
      m.total figure symbol +
        if order.symbol = symbol then figure order' - figure order else 0 := by
  rw [getOrder] at known
  rw [total, Dict.sum_set m.orders id _ fun _ _ _ => rfl, Dict.weightAt, known, same]
  simp only [Option.map_some, Option.getD_some, total]
  split
  · ring
  · ring

end ManagerState

namespace OrderDesk

/-- The tracker and the records agree on every symbol, and no record has an id to come. -/
structure Reconciled (d : OrderDesk) : Prop where
  fresh : ∀ draw, d.uuids.drawn ≤ draw → d.manager.getOrder (.hex draw) = none
  cost : ∀ symbol, SlippageTracker.weightedCost (d.manager.slippage.getD symbol []) =
    d.manager.total ManagedOrder.shortfall symbol
  quantity : ∀ symbol, (SlippageTracker.totalQuantity (d.manager.slippage.getD symbol []) : ℚ) =
    d.manager.total (fun order => order.measured) symbol

/-- A fill of a recorded order goes on from where the order stands. -/
def InOrder (d : OrderDesk) : ManagerCall → Prop
  | .brokerEvent (.execution fill) =>
    ∀ order, d.manager.getOrder fill.orderId = some order → order.GoesOn fill
  | _ => True

instance (d : OrderDesk) : (call : ManagerCall) → Decidable (d.InOrder call)
  | .brokerEvent (.execution fill) =>
    decidable_of_iff ((d.manager.getOrder fill.orderId).all (fun order => order.GoesOn fill) = true)
      (by simp [InOrder, Option.all_eq_true])
  | .brokerEvent (.ack _) | .brokerEvent (.reject _) | .submit _ _ | .cancel _ | .cancelAll =>
    .isTrue trivial

variable {d : OrderDesk}

theorem reconciled_new : Reconciled {} where
  fresh _ _ := rfl
  cost _ := rfl
  quantity _ := rfl

/-- A known record is none of those to come. -/
theorem Reconciled.fresh_set (held : Reconciled d) {id : OrderId} {order : ManagedOrder}
    (known : d.manager.getOrder id = some order) (order' : ManagedOrder) (draw : ℕ)
    (later : d.uuids.drawn ≤ draw) : (d.manager.orders.set id order').get? (.hex draw) = none := by
  have absent := held.fresh draw later
  have other : OrderId.hex draw ≠ id := by
    rintro rfl
    rw [absent] at known
    cases known
  rw [Dict.get?_set_ne _ _ other]
  exact absent

/-- A change of a record that leaves its fills alone leaves both sides alone. -/
theorem Reconciled.set (held : Reconciled d) {id : OrderId} {order : ManagedOrder}
    (known : d.manager.getOrder id = some order) (order' : ManagedOrder)
    (symbol : order'.symbol = order.symbol)
    (cost : order'.shortfall = order.shortfall) (quantity : order'.measured = order.measured)
    (bus : EventBus) :
    Reconciled { d with manager := { d.manager with orders := d.manager.orders.set id order' },
                        bus := bus } := by
  constructor
  · exact held.fresh_set known order'
  · intro s
    rw [ManagerState.total_set _ known symbol, cost, sub_self, ite_self, add_zero]
    exact held.cost s
  · intro s
    rw [ManagerState.total_set _ known symbol, quantity, sub_self, ite_self, add_zero]
    exact held.quantity s

theorem Reconciled.fill (held : Reconciled d) {fill : ExecutionEvent} {order : ManagedOrder}
    (known : d.manager.getOrder fill.orderId = some order) (goesOn : order.GoesOn fill)
    (bus : EventBus) :
    Reconciled { d with
      manager :=
        { orders := d.manager.orders.set fill.orderId (order.filledBy fill)
          slippage := recordSlippage d.manager.slippage
            { fill with expectedPrice := order.expectedPrice } }
      bus := bus } := by
  have kept : (order.filledBy fill).symbol = order.symbol := rfl
  have own (s : Symbol) : fill.symbol = s ↔ order.symbol = s := by rw [goesOn.symbol]
  constructor
  · exact held.fresh_set known (order.filledBy fill)
  · intro symbol
    -- the tracker's new sample and the order's new average cost the same
    rw [ManagerState.total_set _ known kept, recordSlippage_cost, held.cost symbol,
      ManagedOrder.shortfall_filledBy goesOn, add_sub_cancel_left]
    simp only [own]
  · intro symbol
    rw [ManagerState.total_set _ known kept, recordSlippage_quantity, Int.cast_add,
      held.quantity symbol, ManagedOrder.measured_filledBy goesOn, Int.cast_add,
      add_sub_cancel_left]
    simp only [own]
    push_cast
    rfl

/-- A call keeps the two in agreement. -/
theorem Reconciled.applied (held : Reconciled d) (call : ManagerCall) (inOrder : d.InOrder call) :
    Reconciled (call.applied d) := by
  cases call with
  | submit signal expectedPrice =>
    -- a new order is not filled, so it has cost nothing
    have unknown := held.fresh d.uuids.drawn le_rfl
    constructor
    · intro draw later
      simp only [ManagerCall.applied] at later ⊢
      rw [ManagerState.noting_getOrder, if_neg (by simp; omega)]
      exact held.fresh draw (by omega)
    · intro symbol
      have zero : (ManagedOrder.ofSignal (.hex d.uuids.drawn) signal expectedPrice).shortfall = 0 := by
        cases expectedPrice <;> simp [ManagedOrder.shortfall, ManagedOrder.ofSignal]
      simp only [ManagerCall.applied, ManagerState.total_noting _ unknown zero]
      exact held.cost symbol
    · intro symbol
      have zero : ((ManagedOrder.ofSignal (.hex d.uuids.drawn) signal expectedPrice).measured : ℚ) =
          0 := by
        cases expectedPrice <;> simp [ManagedOrder.measured, ManagedOrder.ofSignal]
      simp only [ManagerCall.applied,
        ManagerState.total_noting (fun order => (order.measured : ℚ)) unknown zero]
      exact held.quantity symbol
  | cancel orderId =>
    simp only [ManagerCall.applied, ManagerState.cancelling]
    split
    next => exact held
    next order known =>
      exact held.set known { order with status := .cancelPending } rfl rfl rfl d.bus
  | cancelAll => exact held
  | brokerEvent event =>
    simp only [ManagerCall.applied, ManagerState.handleEvent]
    cases known : d.manager.orders.get? event.orderId with
    | none => exact held
    | some order =>
      cases event with
      | ack event => exact held.set known (order.after (.ack event)).1 rfl rfl rfl _
      | reject event => exact held.set known (order.after (.reject event)).1 rfl rfl rfl _
      | execution fill => exact held.fill known (inOrder order known) _

end OrderDesk

namespace OrderWorld

variable {w v : OrderWorld}

/-- Each fill the manager is given goes on from where its order stands. -/
def Consistent (w : OrderWorld) : OrderLabel → Prop
  | .start _ call => w.memory.InOrder call
  | _ => True

instance (w : OrderWorld) : (l : OrderLabel) → Decidable (Consistent w l)
  | .start _ call => inferInstanceAs (Decidable (w.memory.InOrder call))
  | .serve _ _ | .resume _ | .drift _ => .isTrue trivial

/-- Over any interleaving of calls, the slippage statistics of a symbol are the totals of its
orders: the cost is what their average prices cost against the expected ones, over the
quantities they were filled. -/
theorem slippage_reconciles (labels : List OrderLabel)
    (consistent : Machine.Meets orderSystem.step Consistent (started {}) labels)
    (reached : Machine.run orderSystem.step (started {}) labels = some v) (symbol : Symbol) :
    let stats := SlippageTracker.stats v.memory.manager.slippage symbol
    ((stats.map (·.totalSlippageCost)).getD 0 =
        v.memory.manager.total ManagedOrder.shortfall symbol) ∧
      (((stats.map (·.totalQuantity)).getD 0 : ℤ) : ℚ) =
        v.memory.manager.total (fun order => order.measured) symbol ∧
      ∀ s ∈ stats, |s.meanSlippage| ≤ |s.worstSlippage| := by
  intro stats
  have held : Silent v ∧ v.memory.Reconciled := by
    apply Machine.run_invariant (fun w : OrderWorld => Silent w ∧ w.memory.Reconciled)
      _ (started {}) labels v ⟨fun _ => trivial, OrderDesk.reconciled_new⟩ consistent reached
    rintro w l u ⟨silent, reconciled⟩ inOrder moved
    -- the memory changes when a call starts, and is only waited on afterwards
    obtain ⟨still, ⟨i, call, rfl, memory⟩ | ⟨-, memory⟩⟩ := step_cases silent moved
    · rw [memory]
      exact ⟨still, reconciled.applied call inOrder⟩
    · rw [memory]
      exact ⟨still, reconciled⟩
  obtain ⟨-, -, cost, quantity⟩ := held
  obtain ⟨sizes, costs⟩ := SlippageTracker.stats_totals v.memory.manager.slippage symbol
  refine ⟨?_, ?_, fun s found => SlippageTracker.stats_mean_le_worst _ found⟩
  · rw [← costs]
    exact cost symbol
  · rw [← sizes]
    exact quantity symbol

/-- Two contracts bought at an expected 100, filled at 101 and at 102. -/
def twoFills : List OrderLabel :=
  let fill (price : ℚ) (cumulative : ℤ) : ExecutionEvent :=
    ⟨0, .hex 0, "ES", .buy, 1, price, cumulative, 2 - cumulative, 0, .taker, none⟩
  [.start 0 (.submit { symbol := "ES", strategyId := "s", side := .buy, targetQuantity := 2 }
      (some 100)),
    .start 1 (.brokerEvent (.execution (fill 101 1))),
    .start 2 (.brokerEvent (.execution (fill 102 2)))]

theorem slippage_reconciles_twoFills :
    ∃ v, Machine.run orderSystem.step (started {}) twoFills = some v ∧
      v.memory.manager.total ManagedOrder.shortfall "ES" = 3 ∧
      ((SlippageTracker.stats v.memory.manager.slippage "ES").map (·.totalSlippageCost)).getD 0 = 3 := by
  have ends : (Machine.run orderSystem.step (started {}) twoFills).map (fun v =>
      decide (v.memory.manager.total ManagedOrder.shortfall "ES" = 3)) = some true := by
    decide +kernel
  obtain ⟨v, reached, cost⟩ := Option.map_eq_some_iff.mp ends
  obtain ⟨same, -⟩ := slippage_reconciles twoFills (by decide +kernel) reached "ES"
  exact ⟨v, reached, of_decide_eq_true cost, same.trans (of_decide_eq_true cost)⟩

end OrderWorld

end Binbot
