import Binbot.Execution.ManagerCalls
import Mathlib.Data.List.Induction

/-!
# What the manager makes of an order's fills

The handler takes the cumulative quantity from the event and adds the event's own notional to
what it had. Where no event is missing the two go together.
-/
namespace Binbot

/-! ### The handler -/

def BrokerEvent.execution? : BrokerEvent → Option ExecutionEvent
  | .execution event => some event
  | _ => none

/-- The fills of an order, as some events report them. -/
def reported (orderId : OrderId) (events : List BrokerEvent) : List ExecutionEvent :=
  fillsOf orderId (events.filterMap BrokerEvent.execution?)

namespace OrderDesk

/-- The memory once the handler is done with an event. -/
def hear (d : OrderDesk) (event : BrokerEvent) : OrderDesk :=
  ((ManagerCall.brokerEvent event).body.advance d).2

def hearAll (d : OrderDesk) (events : List BrokerEvent) : OrderDesk := events.foldl hear d

variable (d : OrderDesk)

@[simp] theorem hearAll_concat (events : List BrokerEvent) (event : BrokerEvent) :
    d.hearAll (events ++ [event]) = (d.hearAll events).hear event := by
  simp [hearAll]

theorem hear_eq (event : BrokerEvent) : d.hear event = (ManagerCall.brokerEvent event).applied d :=
  (ManagerCall.body_advance _ d).1

theorem hear_getOrder (event : BrokerEvent) (id : OrderId) :
    (d.hear event).manager.getOrder id =
      if id = event.orderId then (d.manager.getOrder id).map fun order => (order.after event).1
      else d.manager.getOrder id := by
  rw [hear_eq]
  exact ManagerState.handleEvent_getOrder event id

variable {d} {order : ManagedOrder}

/-- An event of a recorded order goes on to the bus. -/
theorem hear_bus {event : BrokerEvent} (known : d.manager.getOrder event.orderId = some order) :
    (d.hear event).bus = d.bus.publish (.order (order.after event).2) := by
  rw [ManagerState.getOrder] at known
  rw [hear_eq, ManagerCall.applied]
  simp only [ManagerState.handleEvent, known]

end OrderDesk

section Reported

variable {id : OrderId} {events : List BrokerEvent}

theorem reported_append (id : OrderId) (events more : List BrokerEvent) :
    reported id (events ++ more) = reported id events ++ reported id more := by
  rw [reported, List.filterMap_append, fillsOf_append]
  rfl

theorem reported_own {fill : ExecutionEvent} (own : fill.orderId = id) :
    reported id (events ++ [.execution fill]) = reported id events ++ [fill] := by
  rw [reported_append]
  simp [reported, BrokerEvent.execution?, fillsOf, own]

theorem reported_other {event : BrokerEvent} (other : event.orderId ≠ id) :
    reported id (events ++ [event]) = reported id events := by
  rw [reported_append]
  cases event with
  | execution fill =>
    have away : fill.orderId ≠ id := other
    simp [reported, BrokerEvent.execution?, fillsOf, away]
  | _ => exact List.append_nil _

end Reported

/-! ### Gap-free fills -/

/-- Positive fills of one order, each reported with the running total and what it leaves. -/
def GapFree (quantity : ℤ) (fills : List ExecutionEvent) : Prop :=
  ∀ before fill, before ++ [fill] <+: fills →
    0 < fill.fillQuantity ∧
      fill.cumulativeQuantity = totalFilled (before ++ [fill]) ∧
      fill.remainingQuantity = quantity - fill.cumulativeQuantity ∧
      0 ≤ fill.remainingQuantity

theorem GapFree.of_prefix {quantity : ℤ} {before fills : List ExecutionEvent}
    (gapFree : GapFree quantity fills) (first : before <+: fills) : GapFree quantity before :=
  fun earlier fill start => gapFree earlier fill (start.trans first)

theorem GapFree.totalFilled_nonneg {quantity : ℤ} {fills : List ExecutionEvent}
    (gapFree : GapFree quantity fills) : 0 ≤ totalFilled fills := by
  induction fills using List.reverseRecOn with
  | nil => exact le_rfl
  | append_singleton before fill ih =>
    have earlier := ih (gapFree.of_prefix (List.prefix_append _ _))
    have positive := (gapFree before fill (List.prefix_refl _)).1
    rw [totalFilled_concat]
    omega

/-- No fill that has been reported is a running total of zero. -/
theorem GapFree.cumulative_pos {quantity : ℤ} {before : List ExecutionEvent} {fill : ExecutionEvent}
    (gapFree : GapFree quantity (before ++ [fill])) : 0 < fill.cumulativeQuantity := by
  obtain ⟨positive, cumulative, -⟩ := gapFree before fill (List.prefix_refl _)
  have earlier := (gapFree.of_prefix (List.prefix_append _ _)).totalFilled_nonneg
  rw [cumulative, totalFilled_concat]
  omega

theorem gapFree_nil (quantity : ℤ) : GapFree quantity [] := by
  intro before fill start
  simp at start

theorem GapFree.concat {quantity : ℤ} {before : List ExecutionEvent} {fill : ExecutionEvent}
    (gapFree : GapFree quantity before) (positive : 0 < fill.fillQuantity)
    (cumulative : fill.cumulativeQuantity = totalFilled (before ++ [fill]))
    (remaining : fill.remainingQuantity = quantity - fill.cumulativeQuantity)
    (within : 0 ≤ fill.remainingQuantity) : GapFree quantity (before ++ [fill]) := by
  intro earlier next start
  rcases List.prefix_concat_iff.mp start with same | start
  · obtain ⟨rfl, last⟩ := List.append_inj' same rfl
    cases last
    exact ⟨positive, cumulative, remaining, within⟩
  · exact gapFree earlier next start

namespace ManagedOrder

/-- The notional on record grows by that of the event. -/
theorem filledBy_notional (order : ManagedOrder) {event : ExecutionEvent}
    (some_ : event.cumulativeQuantity ≠ 0) :
    (order.filledBy event).avgFillPrice * (order.filledBy event).filledQuantity =
      order.avgFillPrice * order.filledQuantity + event.fillPrice * event.fillQuantity := by
  have quantity : (event.cumulativeQuantity : ℚ) ≠ 0 := by exact_mod_cast some_
  simp only [filledBy_eq, if_neg some_]
  exact div_mul_cancel₀ _ quantity

/-- The record agrees with the fills. -/
structure Accounted (order : ManagedOrder) (fills : List ExecutionEvent) : Prop where
  quantity : order.filledQuantity + order.remainingQuantity = order.quantity
  average : order.avgFillPrice * order.filledQuantity = totalNotional fills
  filled : order.status = .filled ↔ order.remainingQuantity = 0

/-- What carries the accounts from fill to fill; before the first fill it asks nothing of the
remaining quantity and of the status. -/
structure Accounts (initial order : ManagedOrder) (fills : List ExecutionEvent) : Prop where
  quantity : order.quantity = initial.quantity
  expectedPrice : order.expectedPrice = initial.expectedPrice
  filledQuantity : order.filledQuantity = totalFilled fills
  average : order.avgFillPrice * order.filledQuantity = totalNotional fills
  accounted : fills ≠ [] → order.Accounted fills

variable {initial order : ManagedOrder} {fills : List ExecutionEvent} {fill : ExecutionEvent}

theorem accounts_fresh (fresh : initial.filledQuantity = 0) : Accounts initial initial [] where
  quantity := rfl
  expectedPrice := rfl
  filledQuantity := fresh
  average := by rw [fresh, Int.cast_zero, mul_zero]; rfl
  accounted some_ := absurd rfl some_

theorem Accounts.filledBy (accounts : Accounts initial order fills)
    (gapFree : GapFree initial.quantity (fills ++ [fill])) :
    Accounts initial (order.filledBy fill) (fills ++ [fill]) := by
  obtain ⟨-, cumulative, remaining, -⟩ := gapFree fills fill (List.prefix_refl _)
  have average : (order.filledBy fill).avgFillPrice * (order.filledBy fill).filledQuantity =
      totalNotional (fills ++ [fill]) := by
    rw [filledBy_notional _ gapFree.cumulative_pos.ne', accounts.average, totalNotional_concat]
  refine ⟨accounts.quantity, accounts.expectedPrice, cumulative, average, fun _ => ?_⟩
  constructor
  · change fill.cumulativeQuantity + fill.remainingQuantity = order.quantity
    rw [remaining, accounts.quantity]
    omega
  · exact average
  · have status : (order.filledBy fill).status =
        if fill.remainingQuantity = 0 then .filled else .partiallyFilled := rfl
    rw [status]
    split
    next none => exact iff_of_true rfl none
    next some_ => exact iff_of_false (by decide) some_

end ManagedOrder

namespace OrderDesk

variable {d : OrderDesk} {id : OrderId} {order : ManagedOrder} {events : List BrokerEvent}

/-- The record after any events, none of the order's own but fills. -/
theorem hearAll_accounts (known : d.manager.getOrder id = some order)
    (fresh : order.filledQuantity = 0)
    (own : ∀ event ∈ events, event.orderId = id → ∃ fill, event = .execution fill)
    (gapFree : GapFree order.quantity (reported id events)) :
    ∃ after, (d.hearAll events).manager.getOrder id = some after ∧
      ManagedOrder.Accounts order after (reported id events) := by
  induction events using List.reverseRecOn with
  | nil => exact ⟨order, known, ManagedOrder.accounts_fresh fresh⟩
  | append_singleton before event ih =>
    rw [List.forall_mem_append, List.forall_mem_singleton] at own
    have earlier : reported id before <+: reported id (before ++ [event]) := by
      rw [reported_append]
      exact List.prefix_append _ _
    obtain ⟨after, found, accounts⟩ := ih own.1 (gapFree.of_prefix earlier)
    rw [hearAll_concat, hear_getOrder]
    by_cases here : event.orderId = id
    · obtain ⟨fill, rfl⟩ := own.2 here
      rw [reported_own here] at gapFree ⊢
      refine ⟨after.filledBy fill, ?_, accounts.filledBy gapFree⟩
      rw [if_pos here.symm, found]
      rfl
    · rw [reported_other here, if_neg (Ne.symm here)]
      exact ⟨after, found, accounts⟩

/-- After every event the record of the order agrees with the fills so far; each fill goes on to
the bus as it came, with the order's decision-time price, and into its queue where that has room;
and it touches no other record. -/
theorem fills_accounted (known : d.manager.getOrder id = some order)
    (fresh : order.filledQuantity = 0)
    (own : ∀ event ∈ events, event.orderId = id → ∃ fill, event = .execution fill)
    (gapFree : GapFree order.quantity (reported id events)) (before : List BrokerEvent)
    (event : BrokerEvent) (start : before ++ [event] <+: events) :
    let so := d.hearAll before
    let now := d.hearAll (before ++ [event])
    (reported id (before ++ [event]) ≠ [] → ∃ after, now.manager.getOrder id = some after ∧
        after.quantity = order.quantity ∧ after.Accounted (reported id (before ++ [event]))) ∧
      (∀ fill, event = .execution fill → fill.orderId = id →
        now.bus = so.bus.publish
            (.order (.execution { fill with expectedPrice := order.expectedPrice })) ∧
          (so.bus.HasRoom → now.bus.queue = so.bus.queue ++
            [.order (.execution { fill with expectedPrice := order.expectedPrice })])) ∧
      ∀ other, other ≠ event.orderId →
        now.manager.getOrder other = so.manager.getOrder other := by
  have reached : ∀ seen, seen <+: events → ∃ after,
      (d.hearAll seen).manager.getOrder id = some after ∧
        ManagedOrder.Accounts order after (reported id seen) := by
    rintro seen ⟨rest, rfl⟩
    rw [reported_append] at gapFree
    exact hearAll_accounts known fresh (fun event member =>
      own event (List.mem_append_left _ member)) (gapFree.of_prefix (List.prefix_append _ _))
  refine ⟨?_, ?_, ?_⟩
  · intro some_
    obtain ⟨after, found, accounts⟩ := reached _ start
    exact ⟨after, found, accounts.quantity, accounts.accounted some_⟩
  · rintro fill rfl here
    obtain ⟨earlier, found, accounts⟩ := reached before ((List.prefix_append _ _).trans start)
    have published : (d.hearAll (before ++ [.execution fill])).bus = (d.hearAll before).bus.publish
        (.order (.execution { fill with expectedPrice := order.expectedPrice })) := by
      rw [hearAll_concat, hear_bus (here ▸ found), ← accounts.expectedPrice]
      rfl
    refine ⟨published, fun room => ?_⟩
    rw [published, EventBus.publish_queue _ room]
  · intro other away
    rw [hearAll_concat, hear_getOrder, if_neg away]

/-- Two submitted orders, of three and of one. -/
def twoOrders : OrderDesk where
  manager := ManagerState.noting (ManagerState.noting {} (.hex 0)
      ⟨"BTCUSDT", "momentum", .buy, 3, .market, none, .gtc, none⟩ (some 100))
    (.hex 1) ⟨"ETHUSDT", "momentum", .sell, 1, .market, none, .gtc, none⟩ none

/-- The first is filled in two parts, with a rejection of the other in between. -/
def twoParts : List BrokerEvent :=
  [.execution ⟨1, .hex 0, "BTCUSDT", .buy, 1, 100, 1, 2, 0, .unknown, none⟩,
   .reject ⟨.hex 1, "ETHUSDT", "margin"⟩,
   .execution ⟨3, .hex 0, "BTCUSDT", .buy, 2, 103, 3, 0, 0, .unknown, none⟩]

theorem twoParts_accounted :
    ∃ after, (twoOrders.hearAll twoParts).manager.getOrder (.hex 0) = some after ∧
      after.quantity = 3 ∧ after.Accounted (reported (.hex 0) twoParts) := by
  have gapFree : GapFree 3 (reported (.hex 0) twoParts) :=
    ((gapFree_nil 3).concat (by decide) rfl rfl (by decide)).concat (by decide) rfl rfl (by decide)
  have own : ∀ event ∈ twoParts, event.orderId = .hex 0 → ∃ fill, event = .execution fill := by
    simp [twoParts, BrokerEvent.orderId]
  have known : twoOrders.manager.getOrder (.hex 0) = some (.ofSignal (.hex 0)
      ⟨"BTCUSDT", "momentum", .buy, 3, .market, none, .gtc, none⟩ (some 100)) := rfl
  exact (fills_accounted known rfl own gapFree (twoParts.take 2) _ (List.prefix_refl _)).1
    (by decide)

end OrderDesk

end Binbot
