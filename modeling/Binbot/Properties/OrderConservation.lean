import Binbot.Properties.SimulatedOco

/-!
# Every order of the simulator is conserved

The fill routine reports what is filled and what is left, and its caller keeps the rest in
the pending list of the symbol. The two agree over every sequence of calls: the order waits
at most once, with what its fills have left of it, and only while it works.
-/
namespace Binbot

open Data
open SimulatedOco (Call)

/-- The simulator, and the calls so far with the fills each has made, the latest first. -/
structure JournaledSimulator where
  simulator : SimulatorState
  journal : List (Call × List ExecutionEvent) := []

namespace JournaledSimulator

variable (broker : MarketSimulatorBroker)

/-- The simulator after a call. -/
def called (m : SimulatorState) : Call → SimulatorState
  | .placeOrder request => m.placeOrder request
  | .cancelOrder orderId => m.cancelOrder orderId
  | .cancelAll => m.cancelAll
  | .processBar bar => SimulatedDesk.processedBar broker m bar

def step (s : JournaledSimulator) (call : Call) : Option JournaledSimulator :=
  let after := called broker s.simulator call
  some
    { simulator := after
      journal := (call, after.fills.drop s.simulator.fills.length) :: s.journal }

/-- A broker that was given nothing yet. -/
def unused (equity : ℚ) : JournaledSimulator where
  simulator := { equity := equity }

/-- The call is one of the contract: no negative quantity, and a positive close. -/
def Sound : Call → Prop
  | .placeOrder request => 0 ≤ request.quantity
  | .processBar bar => 0 < bar.close
  | _ => True

/-- The ids of the orders placed. -/
def placed (calls : List Call) : List OrderId :=
  calls.filterMap fun
    | .placeOrder request => some request.orderId
    | _ => none

/-! ### What is kept of each order -/

section Order

variable (request : BrokerOrderRequest)

/-- The order's fills add up. -/
structure Counted (fills : List ExecutionEvent) : Prop where
  positive : ∀ fill ∈ fills, 0 < fill.fillQuantity
  cumulative : ∀ earlier fill, earlier ++ [fill] <+: fills →
    fill.cumulativeQuantity = totalFilled (earlier ++ [fill])
  remaining : ∀ fill ∈ fills,
    fill.remainingQuantity = request.quantity - fill.cumulativeQuantity ∧
      0 ≤ fill.remainingQuantity

/-- The order waits under its own symbol only, at most once, with what is left of it. -/
structure WaitsOnce (m : SimulatorState) : Prop where
  elsewhere : ∀ symbol ≠ request.symbol, ∀ pending ∈ m.waiting symbol,
    pending.request.orderId ≠ request.orderId
  once : ((m.waiting request.symbol).filter
    (·.request.orderId = request.orderId)).length ≤ 1
  left : ∀ pending ∈ m.waiting request.symbol, pending.request.orderId = request.orderId →
    pending.request = request ∧ 0 ≤ pending.remainingQty ∧
      pending.remainingQty =
        request.quantity - totalFilled (fillsOf request.orderId m.fills)

/-- The entry takes the order out: it is cancelled, filled completely, or was for one bar. -/
def Ends : Call × List ExecutionEvent → Prop
  | (.placeOrder _, _) => False
  | (.cancelOrder orderId, _) => orderId = request.orderId
  | (.cancelAll, _) => True
  | (.processBar bar, fills) => bar.symbol = request.symbol ∧
      ((request.timeInForce = .ioc ∨ request.timeInForce = .fok) ∨
        ∃ fill ∈ fillsOf request.orderId fills, fill.remainingQuantity = 0)

/-- The order has been placed, and nothing has taken it out since. -/
def Working (journal : List (Call × List ExecutionEvent)) : Prop :=
  ∃ since fills early, journal = since ++ (.placeOrder request, fills) :: early ∧
    ∀ entry ∈ since, ¬ Ends request entry

/-- The order is filled at most once a call, only by bars of its symbol and only while it
works. -/
structure Timely (journal : List (Call × List ExecutionEvent)) : Prop where
  once : ∀ entry ∈ journal, (fillsOf request.orderId entry.2).length ≤ 1
  working : ∀ entry earlier, entry :: earlier <:+ journal →
    fillsOf request.orderId entry.2 ≠ [] →
      (∃ bar, entry.1 = .processBar bar ∧ bar.symbol = request.symbol) ∧
        Working request earlier

structure Conserved (s : JournaledSimulator) : Prop where
  counted : Counted request (fillsOf request.orderId s.simulator.fills)
  waits : WaitsOnce request s.simulator
  timely : Timely request s.journal

end Order

/-- The journal has every call and every fill, in their order. -/
structure Journaled (calls : List Call) (s : JournaledSimulator) : Prop where
  calls : s.journal.reverse.map (·.1) = calls
  fills : s.journal.reverse.flatMap (·.2) = s.simulator.fills

/-! ### One call -/

section Call

variable {broker} {request : BrokerOrderRequest} {m : SimulatorState} {own : Option PendingOrder}

/-- A call only adds fills. -/
theorem called_fills (broker : MarketSimulatorBroker) (m : SimulatorState) (call : Call) :
    ∃ new, (called broker m call).fills = m.fills ++ new := by
  cases call with
  | processBar bar =>
    rcases SimulatedDesk.processedBar_cases broker m bar with
      ⟨-, fills, resolved⟩ | ⟨-, -, -, same⟩
    · exact ⟨fills.map broker.report, resolved.recorded⟩
    · exact ⟨[], same.trans (List.append_nil _).symm⟩
  | _ => exact ⟨[], (List.append_nil _).symm⟩

theorem step_eq {s t : JournaledSimulator} {call : Call}
    (moved : step broker s call = some t) :
    ∃ new, t.simulator.fills = s.simulator.fills ++ new ∧
      t = ⟨called broker s.simulator call, (call, new) :: s.journal⟩ := by
  cases moved
  obtain ⟨new, grown⟩ := called_fills broker s.simulator call
  refine ⟨new, grown, ?_⟩
  rw [grown, List.drop_left]

/-- The order is the only one of its id that waits, under its symbol. -/
def Waits (request : BrokerOrderRequest) (own : Option PendingOrder) (m : SimulatorState) : Prop :=
  ∀ symbol, (m.waiting symbol).filter (·.request.orderId = request.orderId) =
    if symbol = request.symbol then own.toList else []

/-- A bar whose close is positive does not raise. -/
theorem updateHistory_total (m : SimulatorState) {bar : BarEvent} (positive : 0 < bar.close) :
    ∃ counted, broker.updateHistory m bar = .ok counted := by
  rw [MarketSimulatorBroker.updateHistory]
  dsimp only
  split
  · exact ⟨_, rfl⟩
  · split
    next prev _ before =>
      rw [if_neg (not_le.mpr (div_pos positive before))]
      exact ⟨_, rfl⟩
    · exact ⟨_, rfl⟩

/-- The orders of one id that are carried forward are those of it that waited. -/
theorem filter_carried (bar : BarEvent) (orders : List PendingOrder) (orderId : OrderId) :
    (orders.filterMap (broker.carried bar)).filter (·.request.orderId = orderId) =
      (orders.filter (·.request.orderId = orderId)).filterMap (broker.carried bar) := by
  induction orders with
  | nil => rfl
  | cons pending rest ih =>
    cases kept : broker.carried bar pending with
    | none => by_cases here : pending.request.orderId = orderId <;> simp [kept, here, ih]
    | some left =>
      have same := (broker.carried_some kept).1
      by_cases here : pending.request.orderId = orderId <;> simp [kept, here, same, ih]

/-- Another order goes behind ours, or under its own symbol. -/
theorem Waits.placeOther (waits : Waits request own m) {another : BrokerOrderRequest}
    (other : another.orderId ≠ request.orderId) : Waits request own (m.placeOrder another) := by
  intro symbol
  rw [SimulatorState.placeOrder_waiting, ← waits symbol]
  split
  · simp [SimulatorState.pendingOrder, other]
  · rfl

/-- Only a cancel of the order itself takes it away. -/
theorem Waits.cancelOrder (waits : Waits request own m) (orderId : OrderId) :
    Waits request (if orderId = request.orderId then none else own) (m.cancelOrder orderId) := by
  intro symbol
  rw [SimulatorState.cancelOrder_waiting]
  by_cases here : orderId = request.orderId
  · rw [if_pos here, List.filter_filter]
    simp [here]
  · rw [if_neg here, List.filter_comm, ← waits symbol, List.filter_eq_self]
    intro pending member
    have same := of_decide_eq_true (List.mem_filter.mp member).2
    simpa [same] using Ne.symm here

theorem waits_cancelAll (request : BrokerOrderRequest) (m : SimulatorState) :
    Waits request none m.cancelAll := by
  intro symbol
  rw [SimulatorState.cancelAll_waiting]
  split <;> rfl

/-- A bar of its symbol carries the order forward or drops it, and other bars leave it. -/
theorem Waits.bar {bar : BarEvent} {m' : SimulatorState} {fills : List Fill}
    (waits : Waits request own m) (resolved : broker.Resolved bar m m' fills) :
    Waits request (if bar.symbol = request.symbol then own.bind (broker.carried bar) else own)
      m' := by
  intro symbol
  rw [resolved.waiting symbol]
  by_cases there : symbol = bar.symbol
  · rw [if_pos there, filter_carried, waits symbol, ← there]
    split
    · cases own with
      | none => rfl
      | some pending => cases kept : broker.carried bar pending <;> simp [kept]
    · rfl
  · rw [if_neg there, waits symbol]
    split
    next here => rw [if_neg fun same => there (here.trans same.symm)]
    next => rfl

/-- Of the fills of a bar, those of one order. -/
theorem fillsOf_reports {bar : BarEvent} {m' : SimulatorState} {fills : List Fill}
    (resolved : broker.Resolved bar m m' fills) (waits : Waits request own m) :
    ∃ ownFills : List Fill,
      fillsOf request.orderId (fills.map broker.report) = ownFills.map broker.report ∧
      (∀ fill ∈ ownFills, fill ∈ fills) ∧
      ownFills.map (·.pending) =
        if bar.symbol = request.symbol then own.toList.filter (broker.Fills bar) else [] := by
  let mine (fill : Fill) : Bool := fill.pending.request.orderId = request.orderId
  refine ⟨fills.filter mine, ?_, fun fill member => (List.mem_filter.mp member).1, ?_⟩
  · rw [fillsOf, List.filter_map]
    rfl
  · have pendings : (fills.filter mine).map (·.pending) =
        ((m.waiting bar.symbol).filter (broker.Fills bar)).filter
          (·.request.orderId = request.orderId) := by
      rw [← resolved.order, List.filter_map]
      rfl
    rw [pendings, List.filter_comm, waits bar.symbol]
    split
    · rfl
    · rfl

end Call

/-! ### The invariant of one order -/

section Invariant

variable {broker} {request : BrokerOrderRequest} {own after : Option PendingOrder}
  {s : JournaledSimulator} {entry : Call × List ExecutionEvent}
  {journal : List (Call × List ExecutionEvent)}

theorem working_cons (other : entry.1 ≠ .placeOrder request) :
    Working request (entry :: journal) ↔ Working request journal ∧ ¬ Ends request entry := by
  constructor
  · rintro ⟨since, fills, early, split, spared⟩
    cases since with
    | nil =>
      obtain ⟨rfl, -⟩ := List.cons.inj split
      exact absurd rfl other
    | cons latest since =>
      obtain ⟨rfl, rfl⟩ := List.cons.inj split
      rw [List.forall_mem_cons] at spared
      exact ⟨⟨since, fills, early, rfl, spared.2⟩, spared.1⟩
  · rintro ⟨⟨since, fills, early, rfl, spared⟩, stays⟩
    exact ⟨entry :: since, fills, early, rfl, List.forall_mem_cons.mpr ⟨stays, spared⟩⟩

/-- A fill of what is left keeps the count. -/
theorem Counted.snoc {fills : List ExecutionEvent} (counted : Counted request fills)
    {fill : ExecutionEvent} (positive : 0 < fill.fillQuantity)
    (cumulative : fill.cumulativeQuantity = totalFilled fills + fill.fillQuantity)
    (remaining : fill.remainingQuantity = request.quantity - fill.cumulativeQuantity)
    (rest : 0 ≤ fill.remainingQuantity) : Counted request (fills ++ [fill]) where
  positive := by
    intro one member
    rcases List.mem_append.mp member with old | new
    · exact counted.positive one old
    · rw [List.mem_singleton.mp new]
      exact positive
  cumulative := by
    intro earlier one start
    rcases List.prefix_concat_iff.mp start with whole | before
    · obtain ⟨rfl, same⟩ := List.append_inj' whole rfl
      cases same
      rw [totalFilled_append, cumulative]
      simp [totalFilled]
    · exact counted.cumulative earlier one before
  remaining := by
    intro one member
    rcases List.mem_append.mp member with old | new
    · exact counted.remaining one old
    · rw [List.mem_singleton.mp new]
      exact ⟨remaining, rest⟩

theorem Timely.cons (timely : Timely request journal)
    (once : (fillsOf request.orderId entry.2).length ≤ 1)
    (working : fillsOf request.orderId entry.2 ≠ [] →
      (∃ bar, entry.1 = .processBar bar ∧ bar.symbol = request.symbol) ∧
        Working request journal) : Timely request (entry :: journal) where
  once := List.forall_mem_cons.mpr ⟨once, timely.once⟩
  working := by
    intro one earlier suffix filled
    rcases List.suffix_cons_iff.mp suffix with whole | before
    · obtain ⟨rfl, rfl⟩ := List.cons.inj whole
      exact working filled
    · exact timely.working one earlier before filled

/-- `own` is the order as it waits. -/
structure Inv (request : BrokerOrderRequest) (own : Option PendingOrder)
    (s : JournaledSimulator) : Prop where
  waits : Waits request own s.simulator
  left : ∀ pending ∈ own, pending.request = request ∧ 0 ≤ pending.remainingQty ∧
    pending.remainingQty =
      request.quantity - totalFilled (fillsOf request.orderId s.simulator.fills)
  counted : Counted request (fillsOf request.orderId s.simulator.fills)
  timely : Timely request s.journal
  working : own.isSome → Working request s.journal

theorem Inv.conserved (inv : Inv request own s) : Conserved request s where
  counted := inv.counted
  timely := inv.timely
  waits := by
    have waits := inv.waits request.symbol
    rw [if_pos rfl] at waits
    constructor
    · intro symbol other pending member same
      have nothing := inv.waits symbol
      rw [if_neg other, List.filter_eq_nil_iff] at nothing
      exact nothing pending member (decide_eq_true same)
    · rw [waits]
      cases own with
      | none => exact Nat.zero_le 1
      | some pending => exact Nat.le_refl 1
    · intro pending member same
      apply inv.left pending
      apply Option.mem_toList.mp
      rw [← waits, List.mem_filter]
      exact ⟨member, decide_eq_true same⟩

/-- A call that fills nothing of the order keeps the count, whether or not it takes the
order out. -/
theorem Inv.unfilled (inv : Inv request own s) {call : Call} {m : SimulatorState}
    {new : List ExecutionEvent} (grown : m.fills = s.simulator.fills ++ new)
    (none : fillsOf request.orderId new = []) (other : call ≠ .placeOrder request)
    (waits : Waits request after m)
    (kept : ∀ pending ∈ after, ∃ old ∈ own,
      pending.request = old.request ∧ pending.remainingQty = old.remainingQty)
    (stays : after.isSome → own.isSome ∧ ¬ Ends request (call, new)) :
    Inv request after ⟨m, (call, new) :: s.journal⟩ where
  waits := waits
  left := by
    intro pending there
    obtain ⟨old, here, same, rest⟩ := kept pending there
    dsimp only
    rw [same, rest, grown, fillsOf_append, none, List.append_nil]
    exact inv.left old here
  counted := by
    dsimp only
    rw [grown, fillsOf_append, none, List.append_nil]
    exact inv.counted
  timely := inv.timely.cons (by simp [none]) (fun filled => absurd none filled)
  working := by
    intro waiting
    obtain ⟨before, spared⟩ := stays waiting
    exact (working_cons other).mpr ⟨inv.working before, spared⟩

/-- A bar that fills some of the order leaves the rest of it, or drops the rest. -/
theorem Inv.filled {pending : PendingOrder} (inv : Inv request (some pending) s)
    {bar : BarEvent} (here : bar.symbol = request.symbol) {m : SimulatorState}
    {new : List ExecutionEvent} (grown : m.fills = s.simulator.fills ++ new) {fill : Fill}
    (own : fill.pending = pending)
    (size : fill.quantity = broker.determineFillQuantity pending bar)
    (only : fillsOf request.orderId new = [broker.report fill])
    (waits : Waits request (broker.carried bar pending) m) :
    Inv request (broker.carried bar pending) ⟨m, (.processBar bar, new) :: s.journal⟩ := by
  obtain ⟨same, some_, left⟩ := inv.left pending rfl
  obtain ⟨-, most⟩ := broker.determineFillQuantity_bounds bar some_
  have positive := fill.positive
  have rest : (broker.report fill).remainingQuantity = pending.remainingQty - fill.quantity := by
    rw [← own]
    rfl
  have cumulative : (broker.report fill).cumulativeQuantity =
      request.quantity - pending.remainingQty + fill.quantity := by
    rw [← same, ← own]
    rfl
  have quantity : (broker.report fill).fillQuantity = fill.quantity := rfl
  constructor
  · exact waits
  · intro carried kept
    obtain ⟨request_, rest_, more⟩ := broker.carried_some kept
    refine ⟨request_.trans same, more.le, ?_⟩
    dsimp only
    rw [grown, fillsOf_append, only, totalFilled_append, rest_, left, ← size, ← quantity]
    simp [totalFilled]
    ring
  · dsimp only
    rw [grown, fillsOf_append, only]
    apply inv.counted.snoc
    · rw [quantity]
      exact positive
    · rw [cumulative, quantity, left]
      ring
    · rw [rest, cumulative]
      ring
    · rw [rest]
      omega
  · apply inv.timely.cons
    · simp [only]
    · exact fun _ => ⟨⟨bar, rfl, here⟩, inv.working rfl⟩
  · intro waiting
    refine (working_cons (by simp)).mpr ⟨inv.working rfl, ?_⟩
    obtain ⟨carried, kept⟩ := Option.isSome_iff_exists.mp waiting
    obtain ⟨-, rest_, more⟩ := broker.carried_some kept
    -- what is carried forward is not for one bar, and is not filled completely
    rintro ⟨-, oneBar | ⟨one, member, complete⟩⟩
    · rw [← same] at oneBar
      rw [broker.carried_dropped oneBar] at kept
      cases kept
    · rw [only, List.mem_singleton] at member
      rw [member, rest, size] at complete
      omega

/-- A bar of another symbol, or one that fills nothing of the order. -/
theorem Inv.idle_bar {bar : BarEvent} {fills : List Fill} {m : SimulatorState}
    (inv : Inv request own s) (resolved : broker.Resolved bar s.simulator m fills)
    (none : fillsOf request.orderId (fills.map broker.report) = [])
    (idle : bar.symbol = request.symbol →
      ∀ pending ∈ own, broker.determineFillQuantity pending bar = 0) :
    ∃ after, Inv request after
      ⟨m, (.processBar bar, fills.map broker.report) :: s.journal⟩ := by
  have waits := inv.waits.bar resolved
  by_cases here : bar.symbol = request.symbol
  · rw [if_pos here] at waits
    refine ⟨own.bind (broker.carried bar), inv.unfilled resolved.recorded none (by simp) waits ?_ ?_⟩
    · intro carried there
      obtain ⟨pending, held, kept⟩ := Option.bind_eq_some_iff.mp there
      obtain ⟨same, rest, -⟩ := broker.carried_some kept
      refine ⟨pending, held, same, ?_⟩
      rw [rest, idle here pending held, sub_zero]
    · intro some_
      obtain ⟨carried, there⟩ := Option.isSome_iff_exists.mp some_
      obtain ⟨pending, held, kept⟩ := Option.bind_eq_some_iff.mp there
      refine ⟨by rw [held]; rfl, ?_⟩
      -- an order that is carried is not one for this bar only, and has met no fill
      rintro ⟨-, oneBar | ⟨one, member, -⟩⟩
      · rw [← (inv.left pending held).1] at oneBar
        rw [broker.carried_dropped oneBar] at kept
        cases kept
      · rw [none] at member
        cases member
  · rw [if_neg here] at waits
    refine ⟨own, inv.unfilled resolved.recorded none (by simp) waits ?_ ?_⟩
    · exact fun pending held => ⟨pending, held, rfl, rfl⟩
    · exact fun some_ => ⟨some_, fun ends => here ends.1⟩

/-- What a bar of the order's own symbol does when it is resolved. -/
theorem Inv.bar {bar : BarEvent} {fills : List Fill} {m : SimulatorState}
    (inv : Inv request own s) (resolved : broker.Resolved bar s.simulator m fills) :
    ∃ after, Inv request after
      ⟨m, (.processBar bar, fills.map broker.report) :: s.journal⟩ := by
  obtain ⟨ownFills, only, some_, pendings⟩ := fillsOf_reports resolved inv.waits
  have nothing (none : ownFills = []) :
      fillsOf request.orderId (fills.map broker.report) = [] := by rw [only, none]; rfl
  by_cases here : bar.symbol = request.symbol
  · rw [if_pos here] at pendings
    cases own with
    | none =>
      apply inv.idle_bar resolved (nothing (List.map_eq_nil_iff.mp pendings))
      rintro - pending ⟨⟩
    | some pending =>
      -- the bar fills some of the order, or it leaves it waiting
      by_cases fills_ : broker.Fills bar pending
      · rw [Option.toList_some, List.filter_cons_of_pos (by simpa using fills_)] at pendings
        obtain ⟨fill, rfl, own⟩ := List.map_eq_singleton_iff.mp pendings
        have size := (resolved.fillsOf fill (some_ fill (List.mem_singleton.mpr rfl))).2.2
        rw [own] at size
        refine ⟨_, inv.filled here resolved.recorded own size only ?_⟩
        have waits := inv.waits.bar resolved
        rw [if_pos here] at waits
        exact waits
      · rw [Option.toList_some, List.filter_cons_of_neg (by simpa using fills_)] at pendings
        apply inv.idle_bar resolved (nothing (List.map_eq_nil_iff.mp pendings))
        rintro - _ ⟨⟩
        -- a bar that fills nothing fills exactly zero
        have least := (broker.determineFillQuantity_bounds bar (inv.left pending rfl).2.1).1
        rw [MarketSimulatorBroker.Fills] at fills_
        omega
  · rw [if_neg here] at pendings
    apply inv.idle_bar resolved (nothing (List.map_eq_nil_iff.mp pendings))
    exact fun same => absurd same here

/-- Each call keeps the invariant, unless it places another order under the same id. -/
theorem Inv.call {t : JournaledSimulator} (inv : Inv request own s) {call : Call}
    (sound : Sound call) (distinct : request.orderId ∉ placed [call])
    (moved : step broker s call = some t) : ∃ after, Inv request after t := by
  obtain ⟨new, grown, rfl⟩ := step_eq moved
  cases call with
  | placeOrder another =>
    have other : request.orderId ≠ another.orderId := by simpa [placed] using distinct
    obtain rfl : new = [] := List.self_eq_append_right.mp grown
    refine ⟨own, inv.unfilled grown rfl ?_ (inv.waits.placeOther other.symm) ?_ ?_⟩
    · rintro ⟨⟩
      exact other rfl
    · exact fun pending held => ⟨pending, held, rfl, rfl⟩
    · exact fun some_ => ⟨some_, id⟩
  | cancelOrder orderId =>
    obtain rfl : new = [] := List.self_eq_append_right.mp grown
    have waits := inv.waits.cancelOrder orderId
    -- only a cancel of this order takes it away
    by_cases here : orderId = request.orderId
    · rw [if_pos here] at waits
      refine ⟨none, inv.unfilled grown rfl (by simp) waits ?_ ?_⟩
      · rintro pending ⟨⟩
      · rintro ⟨⟩
    · rw [if_neg here] at waits
      refine ⟨own, inv.unfilled grown rfl (by simp) waits ?_ ?_⟩
      · exact fun pending held => ⟨pending, held, rfl, rfl⟩
      · exact fun some_ => ⟨some_, here⟩
  | cancelAll =>
    obtain rfl : new = [] := List.self_eq_append_right.mp grown
    refine ⟨none, inv.unfilled grown rfl (by simp) (waits_cancelAll request _) ?_ ?_⟩
    · rintro pending ⟨⟩
    · rintro ⟨⟩
  | processBar bar =>
    -- a bar that raises would leave the books as they were, but none raises here
    rcases SimulatedDesk.processedBar_cases broker s.simulator bar with
      ⟨-, fills, resolved⟩ | ⟨raised, -⟩
    · obtain rfl := List.append_cancel_left (grown.symm.trans resolved.recorded)
      exact inv.bar resolved
    · exact absurd (updateHistory_total s.simulator sound) raised

end Invariant

/-! ### Whole runs -/

section Run

variable {broker} {request : BrokerOrderRequest} {own : Option PendingOrder}
  {s t : JournaledSimulator} {done calls : List Call}

theorem Journaled.run (journaled : Journaled done s)
    (reached : Machine.run (step broker) s calls = some t) : Journaled (done ++ calls) t := by
  induction calls generalizing s done with
  | nil =>
    cases reached
    rw [List.append_nil]
    exact journaled
  | cons call rest ih =>
    rw [Machine.run_cons, Option.bind_eq_some_iff] at reached
    obtain ⟨u, moved, later⟩ := reached
    obtain ⟨new, grown, rfl⟩ := step_eq moved
    rw [List.append_cons]
    refine ih ⟨?_, ?_⟩ later
    · simp [journaled.calls]
    · rw [grown, ← journaled.fills]
      simp

theorem Inv.run (inv : Inv request own s) (sound : ∀ call ∈ calls, Sound call)
    (distinct : request.orderId ∉ placed calls)
    (reached : Machine.run (step broker) s calls = some t) : ∃ after, Inv request after t := by
  have meets : Machine.Meets (step broker)
      (fun _ call => Sound call ∧ request.orderId ∉ placed [call]) s calls := by
    apply Machine.meets_of_forall
    intro call member
    refine ⟨sound call member, fun same => distinct ?_⟩
    rw [placed, List.mem_filterMap] at same ⊢
    obtain ⟨one, single, named⟩ := same
    exact ⟨call, member, List.mem_singleton.mp single ▸ named⟩
  refine Machine.run_invariant (fun s => ∃ own, Inv request own s) ?_ s calls t ⟨own, inv⟩ meets
    reached
  rintro s call t ⟨own, inv⟩ ⟨sound, other⟩ moved
  exact inv.call sound other moved

/-- Before it is placed an order neither waits nor has a fill. -/
theorem Inv.unplaced (inv : Inv request own s) (journaled : Journaled done s)
    (before : request.orderId ∉ placed done) :
    own = none ∧ fillsOf request.orderId s.simulator.fills = [] := by
  have notWorking : ∀ {journal}, journal <:+ s.journal → ¬ Working request journal := by
    rintro journal suffix ⟨since, fills, early, rfl, -⟩
    apply before
    rw [placed, List.mem_filterMap]
    have entry : (.placeOrder request, fills) ∈ s.journal :=
      suffix.subset (List.mem_append_right _ List.mem_cons_self)
    refine ⟨.placeOrder request, ?_, rfl⟩
    rw [← journaled.calls, List.mem_map]
    exact ⟨_, List.mem_reverse.mpr entry, rfl⟩
  constructor
  · cases own with
    | none => rfl
    | some pending => exact absurd (inv.working rfl) (notWorking List.suffix_rfl)
  · rw [fillsOf, List.filter_eq_nil_iff]
    intro fill member same
    rw [← journaled.fills, List.mem_flatMap] at member
    obtain ⟨entry, there, made⟩ := member
    obtain ⟨later, earlier, split⟩ := List.append_of_mem (List.mem_reverse.mp there)
    have suffix : entry :: earlier <:+ s.journal := ⟨later, split.symm⟩
    have own_ : fill ∈ fillsOf request.orderId entry.2 := List.mem_filter.mpr ⟨made, same⟩
    have works := (inv.timely.working entry earlier suffix (List.ne_nil_of_mem own_)).2
    exact notWorking ((List.suffix_cons entry earlier).trans suffix) works

/-- The placement of an order that was not placed before. -/
theorem Inv.place (inv : Inv request none s)
    (none : fillsOf request.orderId s.simulator.fills = []) (sized : 0 ≤ request.quantity)
    (moved : step broker s (.placeOrder request) = some t) :
    Inv request (some (s.simulator.pendingOrder request)) t := by
  obtain ⟨new, grown, rfl⟩ := step_eq moved
  obtain rfl : new = [] := List.self_eq_append_right.mp grown
  constructor
  · intro symbol
    have before := inv.waits symbol
    rw [called, SimulatorState.placeOrder_waiting]
    split
    · rw [List.filter_append, before]
      split <;> simp [SimulatorState.pendingOrder]
    next other => rw [before, if_neg other]
  · rintro _ ⟨⟩
    refine ⟨rfl, sized, ?_⟩
    rw [grown, List.append_nil, none]
    exact (sub_zero _).symm
  · rw [grown, List.append_nil]
    exact inv.counted
  · exact inv.timely.cons (Nat.zero_le 1) (fun filled => absurd rfl filled)
  · exact fun _ => ⟨[], [], s.journal, rfl, by simp⟩

theorem inv_unused (equity : ℚ) : Inv request none (unused equity) where
  waits := by
    intro symbol
    split <;> rfl
  left := by
    rintro _ ⟨⟩
  counted := by
    constructor
    · rintro fill ⟨⟩
    · intro earlier fill start
      have := List.prefix_nil.mp start
      simp at this
    · rintro fill ⟨⟩
  timely := by
    constructor
    · rintro entry ⟨⟩
    · intro entry earlier suffix
      cases List.suffix_nil.mp suffix
  working := by
    rintro ⟨⟩

/-- Over every sequence of calls that places orders of distinct ids, each order's fills add
up to what it no longer has left, and it waits and is filled only while it works. -/
theorem orders_conserved (broker : MarketSimulatorBroker) (equity : ℚ) (calls : List Call)
    (sound : ∀ call ∈ calls, Sound call) (distinct : (placed calls).Nodup)
    (t : JournaledSimulator)
    (reached : Machine.run (step broker) (unused equity) calls = some t) :
    Journaled calls t ∧ ∀ request, .placeOrder request ∈ calls → Conserved request t := by
  have fresh : Journaled [] (unused equity) := ⟨rfl, rfl⟩
  refine ⟨fresh.run reached, ?_⟩
  intro request member
  obtain ⟨before, after, rfl⟩ := List.append_of_mem member
  have ids : placed (before ++ .placeOrder request :: after) =
      placed before ++ request.orderId :: placed after := by simp [placed]
  rw [ids, List.nodup_append, List.nodup_cons] at distinct
  obtain ⟨-, ⟨later, -⟩, earlier⟩ := distinct
  rw [List.forall_mem_append, List.forall_mem_cons] at sound
  obtain ⟨soundBefore, sized, soundAfter⟩ := sound
  -- the run up to the placement, the placement, and the rest of the run
  rw [Machine.run_append, Option.bind_eq_some_iff] at reached
  obtain ⟨u, first, reached⟩ := reached
  rw [Machine.run_cons, Option.bind_eq_some_iff] at reached
  obtain ⟨v, moved, rest⟩ := reached
  have new : request.orderId ∉ placed before :=
    fun there => earlier _ there _ List.mem_cons_self rfl
  obtain ⟨own, inv⟩ := (inv_unused equity).run soundBefore new first
  obtain ⟨rfl, none⟩ := inv.unplaced (fresh.run first) new
  obtain ⟨own, inv⟩ := (inv.place none sized moved).run soundAfter later rest
  exact inv.conserved

end Run

/-- A limit order of three, on bars with room for two. -/
def bought : BrokerOrderRequest where
  orderId := .hex 0
  symbol := "ES"
  side := .buy
  quantity := 3
  orderType := .limit
  limitPrice := some 100
  timeInForce := .day

theorem bought_conserved : ∃ t,
    Machine.run (step SimulatorLedger.desk) (unused 10000)
      [.placeOrder bought, .processBar ⟨1, "ES", 101, 102, 99, 100, 20⟩,
        .processBar ⟨2, "ES", 101, 102, 99, 100, 20⟩] = some t ∧
    (fillsOf (.hex 0) t.simulator.fills).map (·.cumulativeQuantity) = [2, 3] ∧
    Conserved bought t := by
  refine ⟨_, rfl, by decide +kernel, ?_⟩
  apply (orders_conserved SimulatorLedger.desk 10000
    [.placeOrder bought, .processBar ⟨1, "ES", 101, 102, 99, 100, 20⟩,
      .processBar ⟨2, "ES", 101, 102, 99, 100, 20⟩] ?_ (by decide) _ rfl).2
  · exact List.mem_cons_self
  · simp only [List.forall_mem_cons, Sound, bought]
    norm_num

end JournaledSimulator

end Binbot
