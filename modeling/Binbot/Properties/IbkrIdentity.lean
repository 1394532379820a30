import Binbot.Execution.IbkrDesk
import Binbot.Machine.Run

/-!
# Order ids over the IBKR adapter

The manager names an order by a uuid, the adapter by the integer of the client, and
nothing translates between them. So the manager recognises no event of an order that was
placed, and no cancel of it finds its trade.
-/
namespace Binbot

open Async Data

namespace IbkrState

variable {m : IbkrState}

@[simp] theorem putNowait_ib (event : BrokerEvent) : (m.putNowait event).ib = m.ib := by
  rw [putNowait]
  split
  · rfl
  · rfl

@[simp] theorem putNowait_tradesByOrderId (event : BrokerEvent) :
    (m.putNowait event).tradesByOrderId = m.tradesByOrderId := by
  rw [putNowait]
  split
  · rfl
  · rfl

/-- What a callback adds to the queue. -/
theorem putNowait_queue (event : BrokerEvent) :
    (m.putNowait event).eventQueue =
      m.eventQueue ++ if m.eventQueue.length < 10000 then [event] else [] := by
  rw [putNowait]
  split
  · rfl
  · exact (List.append_nil _).symm

variable (m) in
theorem onOrderStatus_put (trade : IbTrade) :
    ∃ event, m.onOrderStatus trade = m.putNowait event ∧
      event.orderId = .counted trade.order.orderId := by
  rw [onOrderStatus]
  split
  · exact ⟨_, rfl, rfl⟩
  · exact ⟨_, rfl, rfl⟩

variable (m) in
theorem onExecDetails_put (now : Timestamp) (trade : IbTrade) (fill : IbFill) :
    ∃ event, m.onExecDetails now trade fill = m.putNowait event ∧
      event.orderId = .counted trade.order.orderId := ⟨_, rfl, rfl⟩

end IbkrState

namespace IbkrDesk

variable {broker : IbkrBroker} {d e : IbkrDesk}

/-- Every event carries the id of its request, which the manager knows, and an order whose
cancel was asked has been given to the client's `cancelOrder`. -/
structure Identified (d : IbkrDesk) : Prop where
  events : ∀ entry ∈ d.emitted, entry.2.orderId = entry.1.orderId ∧
    d.memory.manager.getOrder entry.2.orderId ≠ none
  cancels : ∀ trade ∈ d.memory.ibkr.ib.trades, ∀ order,
    d.memory.manager.getOrder trade.request.orderId = some order →
    order.status = .cancelPending → trade.order.orderId ∈ d.memory.ibkr.ib.cancelled

/-- `put_nowait` raises. -/
def Full (d : IbkrDesk) : Prop := ¬ d.memory.ibkr.eventQueue.length < 10000

/-- The act needs no translation between the two ids: nothing is told of an order that was
placed, none is cancelled, and none is placed that was cancelled before. -/
def Untranslated (d : IbkrDesk) : Act → Prop
  | .orderStatus place _ _ => place < d.memory.ibkr.ib.trades.length → d.Full
  | .execDetails _ place _ => place < d.memory.ibkr.ib.trades.length → d.Full
  | .error reqId errorCode _ => 400 ≤ errorCode →
    (∃ trade ∈ d.memory.ibkr.ib.trades, trade.order.orderId = reqId) → d.Full
  | .cancel orderId => ∀ trade ∈ d.memory.ibkr.ib.trades, trade.request.orderId ≠ orderId
  | .qualified place (.ok (_ :: _)) => ∀ request, d.placing[place]? = some request →
    ∀ order, d.memory.manager.getOrder request.orderId = some order →
      order.status ≠ .cancelPending
  | _ => True

/-- Every record is filed under a uuid that has been drawn. -/
def Drawn (d : IbkrDesk) : Prop :=
  ∀ id, d.memory.manager.getOrder id ≠ none → ∃ n < d.memory.uuids.drawn, id = .hex n

structure Inv (d : IbkrDesk) : Prop where
  drawn : ∀ id, d.memory.manager.getOrder id ≠ none → ∃ n < d.memory.uuids.drawn, id = .hex n
  filed : ∀ id, d.memory.ibkr.tradesByOrderId.get? id ≠ none → ∃ n, id = .counted n
  queued : ∀ event ∈ d.memory.ibkr.eventQueue, ∃ n, event.orderId = .counted n
  placing : ∀ request ∈ d.placing, d.memory.manager.getOrder request.orderId ≠ none
  placed : ∀ trade ∈ d.memory.ibkr.ib.trades,
    d.memory.manager.getOrder trade.request.orderId ≠ none
  uncancelled : d.memory.ibkr.ib.cancelled = []
  silent : d.emitted = []
  working : ∀ trade ∈ d.memory.ibkr.ib.trades, ∀ order,
    d.memory.manager.getOrder trade.request.orderId = some order → order.status ≠ .cancelPending

theorem Inv.identified (held : Inv d) : d.Identified where
  events entry member := by
    rw [held.silent] at member
    cases member
  cancels trade member order known marked := absurd marked (held.working trade member order known)

/-! ### Drawn ids -/

/-- No id of the client's is one of the manager's. -/
theorem Drawn.unknown (drawn : Drawn d) (n : ℤ) :
    d.memory.manager.getOrder (.counted n) = none := by
  by_contra known
  obtain ⟨draw, -, same⟩ := drawn _ known
  cases same

/-- No uuid is an id of the client's. -/
theorem Drawn.unfiled (drawn : Drawn d)
    (filed : ∀ id, d.memory.ibkr.tradesByOrderId.get? id ≠ none → ∃ n, id = .counted n)
    {id : OrderId} (known : d.memory.manager.getOrder id ≠ none) :
    d.memory.ibkr.tradesByOrderId.get? id = none := by
  by_contra there
  obtain ⟨draw, -, rfl⟩ := drawn id known
  obtain ⟨n, same⟩ := filed _ there
  cases same

/-- The manager passes over an event that carries an id of the client's. -/
theorem Drawn.passed_over (drawn : Drawn d) {event : BrokerEvent}
    (own : ∃ n, event.orderId = .counted n) :
    (d.memory.manager.handleEvent event).1 = d.memory.manager := by
  obtain ⟨n, id⟩ := own
  have unknown := drawn.unknown n
  rw [ManagerState.getOrder] at unknown
  rw [ManagerState.handleEvent, id, unknown]

/-- An id may be drawn and not be used. -/
theorem Drawn.another (drawn : Drawn d) :
    Drawn { d with memory := { d.memory with uuids := ⟨d.memory.uuids.drawn + 1⟩ } } := by
  intro id known
  obtain ⟨n, earlier, rfl⟩ := drawn id known
  exact ⟨n, Nat.lt_succ_of_lt earlier, rfl⟩

theorem Drawn.cancelled (drawn : Drawn d) (orderId : OrderId) :
    Drawn { d with memory := { d.memory with
      manager := d.memory.manager.cancelling orderId } } :=
  fun id found => drawn id ((ManagerState.cancelling_known orderId id).mp found)

/-- The records after a submit. -/
theorem noting_known (signal : SignalEvent) (expectedPrice : Option ℚ) (id : OrderId) :
    (d.noting signal expectedPrice).manager.getOrder id =
      if id = .hex d.memory.uuids.drawn then
        some (.ofSignal (.hex d.memory.uuids.drawn) signal expectedPrice)
      else d.memory.manager.getOrder id :=
  ManagerState.noting_getOrder _ _ _ _

/-- The new record is filed under the uuid that the submit has drawn. -/
theorem Drawn.noted (drawn : Drawn d) (signal : SignalEvent) (expectedPrice : Option ℚ) :
    Drawn { d with memory := d.noting signal expectedPrice } := by
  intro id known
  dsimp only at known
  rw [noting_known] at known
  split at known
  next here => exact ⟨d.memory.uuids.drawn, Nat.lt_succ_self _, here⟩
  next => exact drawn.another id known

/-! ### Steps -/

variable (broker) in
/-- An order that is placed is filed under the client's id for it. -/
theorem placeWith_trades (request : BrokerOrderRequest) (contract : IbContract) (m : IbkrState) :
    ∃ trade : IbTrade, trade.request = request ∧
      (broker.placeWith request contract m).ib.trades = m.ib.trades ++ [trade] ∧
      (broker.placeWith request contract m).ib.cancelled = m.ib.cancelled ∧
      (broker.placeWith request contract m).eventQueue = m.eventQueue ∧
      (broker.placeWith request contract m).tradesByOrderId =
        m.tradesByOrderId.set (.counted trade.order.orderId) m.ib.trades.length :=
  ⟨_, rfl, rfl, rfl, rfl, rfl⟩

/-- A new record: the others are as they were. -/
theorem Inv.noted (held : Inv d) (signal : SignalEvent) (expectedPrice : Option ℚ) :
    Inv { d with memory := d.noting signal expectedPrice } := by
  constructor
  · exact Drawn.noted held.drawn signal expectedPrice
  · exact held.filed
  · exact held.queued
  · exact fun request member => ManagerState.noting_known _ _ _ (held.placing request member)
  · exact fun trade member => ManagerState.noting_known _ _ _ (held.placed trade member)
  · exact held.uncancelled
  · exact held.silent
  · intro trade member order known
    dsimp only at known
    rw [noting_known] at known
    split at known
    · cases known
      exact fun marked => by cases marked
    · exact held.working trade member order known

variable (broker) in
/-- A known order that was not cancelled is placed. -/
theorem Inv.placeWith (held : Inv d) {request : BrokerOrderRequest}
    (known : d.memory.manager.getOrder request.orderId ≠ none)
    (working : ∀ order, d.memory.manager.getOrder request.orderId = some order →
      order.status ≠ .cancelPending) (contract : IbContract)
    (contracts : Dict Symbol IbContract) :
    Inv { d with memory := { d.memory with
      ibkr := broker.placeWith request contract { d.memory.ibkr with contracts } } } := by
  obtain ⟨trade, same, trades, cancelled, queue, filed⟩ :=
    placeWith_trades broker request contract { d.memory.ibkr with contracts }
  constructor
  · exact held.drawn
  · intro id there
    dsimp only at there
    rw [filed, Dict.get?_set] at there
    split at there
    next here => exact ⟨_, here⟩
    next => exact held.filed id there
  · intro event member
    dsimp only at member
    rw [queue] at member
    exact held.queued event member
  · exact held.placing
  · intro placed member
    dsimp only at member
    rw [trades] at member
    rcases List.mem_append.mp member with old | new
    · exact held.placed placed old
    · rw [List.mem_singleton.mp new, same]
      exact known
  · exact cancelled.trans held.uncancelled
  · exact held.silent
  · intro placed member order found
    dsimp only at member
    rw [trades] at member
    rcases List.mem_append.mp member with old | new
    · exact held.working placed old order found
    · rw [List.mem_singleton.mp new, same] at found
      exact working order found

/-- What a callback about a placed order leaves. -/
theorem callback_cases {place : ℕ} {change : IbTrade → IbTrade}
    {report : IbkrState → IbTrade → IbkrState}
    (moved : d.callback place change report = some e)
    (puts : ∀ m trade, ∃ event, report m (change trade) = m.putNowait event ∧
      event.orderId = .counted (change trade).order.orderId) :
    ∃ trade event n, d.memory.ibkr.ib.trades[place]? = some trade ∧ event.orderId = .counted n ∧
      e.memory.manager = d.memory.manager ∧ e.memory.uuids = d.memory.uuids ∧
      e.placing = d.placing ∧
      e.memory.ibkr.ib.trades = d.memory.ibkr.ib.trades.set place (change trade) ∧
      e.memory.ibkr.ib.cancelled = d.memory.ibkr.ib.cancelled ∧
      e.memory.ibkr.tradesByOrderId = d.memory.ibkr.tradesByOrderId ∧
      e.memory.ibkr.eventQueue = d.memory.ibkr.eventQueue ++
        (if d.memory.ibkr.eventQueue.length < 10000 then [event] else []) ∧
      e.emitted = d.emitted ++
        if d.memory.ibkr.eventQueue.length < 10000 then [(trade.request, event)] else [] := by
  obtain ⟨trade, found, rfl⟩ := Option.map_eq_some_iff.mp moved
  obtain ⟨event, put, id⟩ := puts
    { d.memory.ibkr with ib := { d.memory.ibkr.ib with
      trades := d.memory.ibkr.ib.trades.set place (change trade) } } trade
  refine ⟨trade, event, _, found, id, rfl, rfl, rfl, ?_⟩
  dsimp only
  rw [put, IbkrState.putNowait_ib, IbkrState.putNowait_tradesByOrderId, IbkrState.putNowait_queue]
  refine ⟨rfl, rfl, rfl, rfl, ?_⟩
  rw [List.drop_left]
  split
  · rfl
  · rfl

/-- A callback that queues nothing changes nothing that matters. -/
theorem Inv.callback (held : Inv d) {place : ℕ} {change : IbTrade → IbTrade}
    {report : IbkrState → IbTrade → IbkrState}
    (moved : d.callback place change report = some e)
    (puts : ∀ m trade, ∃ event, report m (change trade) = m.putNowait event ∧
      event.orderId = .counted (change trade).order.orderId)
    (same : ∀ trade, (change trade).request = trade.request)
    (full : place < d.memory.ibkr.ib.trades.length → d.Full) : Inv e := by
  obtain ⟨trade, event, n, found, -, manager, uuids, placing, trades, cancelled, filed, queue,
    emitted⟩ := callback_cases moved puts
  have there := (List.getElem?_eq_some_iff.mp found).1
  have quiet : ¬ d.memory.ibkr.eventQueue.length < 10000 := full there
  rw [if_neg quiet, List.append_nil] at queue emitted
  -- every trade is for a request that an earlier one was for
  have origin : ∀ after ∈ e.memory.ibkr.ib.trades, ∃ before ∈ d.memory.ibkr.ib.trades,
      after.request = before.request := by
    intro after member
    rw [trades] at member
    rcases List.mem_or_eq_of_mem_set member with old | rfl
    · exact ⟨after, old, rfl⟩
    · exact ⟨trade, List.mem_of_getElem? found, same trade⟩
  constructor
  · rw [manager, uuids]
    exact held.drawn
  · rw [filed]
    exact held.filed
  · rw [queue]
    exact held.queued
  · rw [placing, manager]
    exact held.placing
  · intro after member
    obtain ⟨before, old, request⟩ := origin after member
    rw [manager, request]
    exact held.placed before old
  · rw [cancelled]
    exact held.uncancelled
  · rw [emitted]
    exact held.silent
  · intro after member
    obtain ⟨before, old, request⟩ := origin after member
    rw [manager, request]
    exact held.working before old

/-- An event of a placed order carries no id that the manager gave. -/
theorem Inv.misnamed (held : Inv d) {trade : IbTrade}
    (member : trade ∈ d.memory.ibkr.ib.trades) (n : ℤ) :
    OrderId.counted n ≠ trade.request.orderId := by
  intro same
  apply held.placed trade member
  rw [← same]
  exact Drawn.unknown held.drawn n

theorem Inv.callback_forced (held : Inv d) {place : ℕ} {change : IbTrade → IbTrade}
    {report : IbkrState → IbTrade → IbkrState}
    (moved : d.callback place change report = some e)
    (puts : ∀ m trade, ∃ event, report m (change trade) = m.putNowait event ∧
      event.orderId = .counted (change trade).order.orderId) (identified : e.Identified) :
    d.Full := by
  obtain ⟨trade, event, n, found, id, -, -, -, -, -, -, -, emitted⟩ :=
    callback_cases moved puts
  intro room
  rw [if_pos room] at emitted
  -- with room in the queue the event would be told under the client's id
  have carried := (identified.events (trade.request, event) (by rw [emitted]; simp)).1
  exact held.misnamed (List.mem_of_getElem? found) n (id.symm.trans carried)

/-- What an error message leaves. -/
theorem onError_cases (m : IbkrState) (reqId errorCode : ℤ) (errorString : String) :
    (m.onError reqId errorCode errorString).ib = m.ib ∧
    (m.onError reqId errorCode errorString).tradesByOrderId = m.tradesByOrderId ∧
    ∃ event : BrokerEvent, event.orderId = .counted reqId ∧
      (m.onError reqId errorCode errorString).eventQueue = m.eventQueue ++
        if 400 ≤ errorCode ∧ m.eventQueue.length < 10000 then [event] else [] := by
  rw [IbkrState.onError]
  split
  next informational =>
    refine ⟨rfl, rfl, .reject ⟨.counted reqId, "", ""⟩, rfl, ?_⟩
    rw [if_neg (by omega), List.append_nil]
  next relevant =>
    refine ⟨IbkrState.putNowait_ib _, IbkrState.putNowait_tradesByOrderId _, .reject
      ⟨.counted reqId, "", s!"IBKR error {errorCode}: {errorString}"⟩, rfl, ?_⟩
    rw [IbkrState.putNowait_queue]
    simp only [not_lt.mp relevant, true_and]

theorem Inv.error (held : Inv d) {reqId errorCode : ℤ} {errorString : String}
    (moved : step broker d (.error reqId errorCode errorString) = some e)
    (quiet : Untranslated d (.error reqId errorCode errorString)) : Inv e := by
  rw [step, Option.some.injEq] at moved
  subst moved
  obtain ⟨ib, filed, event, id, queue⟩ :=
    onError_cases d.memory.ibkr reqId errorCode errorString
  constructor
  · exact held.drawn
  · dsimp only
    rw [filed]
    exact held.filed
  · intro other member
    dsimp only at member
    rw [queue] at member
    rcases List.mem_append.mp member with old | new
    · exact held.queued other old
    · split at new
      · rw [List.mem_singleton.mp new]
        exact ⟨reqId, id⟩
      · cases new
  · exact held.placing
  · dsimp only
    rw [ib]
    exact held.placed
  · dsimp only
    rw [ib]
    exact held.uncancelled
  · dsimp only
    rw [held.silent, List.nil_append, List.flatMap_eq_nil_iff]
    intro trade member
    -- a message about a placed order finds the queue full, or is only informational
    rw [List.mem_filter, decide_eq_true_eq] at member
    rw [queue, List.drop_left, if_neg, List.map_nil]
    rintro ⟨relevant, room⟩
    exact quiet relevant ⟨trade, member.1, member.2⟩ room
  · dsimp only
    rw [ib]
    exact held.working

theorem Inv.error_forced (held : Inv d) {reqId errorCode : ℤ} {errorString : String}
    (moved : step broker d (.error reqId errorCode errorString) = some e)
    (identified : e.Identified) : Untranslated d (.error reqId errorCode errorString) := by
  rw [step, Option.some.injEq] at moved
  subst moved
  obtain ⟨-, -, event, id, queue⟩ := onError_cases d.memory.ibkr reqId errorCode errorString
  rintro relevant ⟨trade, member, same⟩ room
  apply held.misnamed member reqId
  rw [← id]
  -- the event that is queued carries the client's id of the order
  apply (identified.events (trade.request, event) _).1
  apply List.mem_append_right
  rw [List.mem_flatMap]
  refine ⟨trade, List.mem_filter.mpr ⟨member, decide_eq_true same⟩, ?_⟩
  rw [queue, List.drop_left, if_pos ⟨relevant, room⟩]
  exact List.mem_singleton.mpr rfl

/-- The order of a submit is placed at once, or waits for its contract. -/
theorem Inv.submit (held : Inv d) {signal : SignalEvent} {expectedPrice : Option ℚ}
    (moved : step broker d (.submit signal expectedPrice) = some e) : Inv e := by
  have noted := held.noted signal expectedPrice
  have known : (d.noting signal expectedPrice).manager.getOrder
      (d.requestOf signal expectedPrice).orderId =
        some (.ofSignal (.hex d.memory.uuids.drawn) signal expectedPrice) :=
    (noting_known signal expectedPrice _).trans (if_pos rfl)
  cases contract : d.memory.ibkr.contracts.get? signal.symbol with
  | some qualified =>
    rw [step_submit_known contract, Option.some.injEq] at moved
    subst moved
    refine noted.placeWith broker ?_ ?_ qualified d.memory.ibkr.contracts
    · exact fun missing => by cases known.symm.trans missing
    · -- the record is new, so that nobody has cancelled it
      intro order found
      cases known.symm.trans found
      exact fun marked => by cases marked
  | none =>
    rw [step_submit_unknown contract, Option.some.injEq] at moved
    subst moved
    refine { noted with placing := ?_ }
    intro request member
    rcases List.mem_append.mp member with old | new
    · exact noted.placing request old
    · rw [List.mem_singleton.mp new]
      exact fun missing => by cases known.symm.trans missing

/-- A submit that waited for its contract goes on. -/
theorem Inv.qualified (held : Inv d) {place : ℕ} {answer : Except String (List IbContract)}
    (quiet : Untranslated d (.qualified place answer))
    (moved : step broker d (.qualified place answer) = some e) : Inv e := by
  obtain ⟨request, waiting, rfl⟩ := Option.map_eq_some_iff.mp moved
  have member := List.mem_of_getElem? waiting
  rw [advance_resumed]
  have fewer : Inv { d with placing := d.placing.eraseIdx place } :=
    { held with
      placing := fun other there => held.placing other (List.mem_of_mem_eraseIdx there) }
  cases answer with
  | error message => exact fewer
  | ok contracts =>
    cases contracts with
    | nil => exact fewer
    | cons first rest =>
      exact fewer.placeWith broker (held.placing request member) (quiet request waiting) first _

theorem Inv.cancel (held : Inv d) {orderId : OrderId} (quiet : Untranslated d (.cancel orderId))
    (moved : step broker d (.cancel orderId) = some e) : Inv e := by
  cases known : d.memory.manager.getOrder orderId with
  | none =>
    rw [step_cancel_unknown known] at moved
    cases moved
    exact held
  | some order =>
    -- a uuid is no key of the adapter's table, so that the client is not asked
    have unfiled := Drawn.unfiled held.drawn held.filed (known ▸ Option.some_ne_none order)
    rw [step_cancel_known known unfiled, Option.some.injEq] at moved
    subst moved
    have known_ (id : OrderId) := ManagerState.cancelling_known (m := d.memory.manager) orderId id
    refine { held with
      drawn := Drawn.cancelled held.drawn orderId
      placing := fun request member => (known_ _).mpr (held.placing request member)
      placed := fun trade member => (known_ _).mpr (held.placed trade member)
      working := fun trade member record found => ?_ }
    dsimp only at found
    rw [ManagerState.cancelling_getOrder, if_neg (quiet trade member)] at found
    exact held.working trade member record found

/-- The manager takes an event off the queue, which names an id of the client's. -/
theorem Inv.consume (held : Inv d) (moved : step broker d .consume = some e) : Inv e := by
  cases queued : d.memory.ibkr.eventQueue with
  | nil => simp [step, queued] at moved
  | cons event rest =>
    obtain ⟨bus, taken⟩ := step_consume broker queued
    have own := held.queued event (by rw [queued]; exact List.mem_cons_self)
    rw [Drawn.passed_over held.drawn own] at taken
    rw [taken, Option.some.injEq] at moved
    subst moved
    refine { held with queued := fun other member => held.queued other ?_ }
    rw [queued]
    exact List.mem_cons_of_mem _ member

theorem inv_step (held : Inv d) (act : Act) (quiet : Untranslated d act)
    (moved : step broker d act = some e) : Inv e := by
  cases act with
  | submit signal expectedPrice => exact held.submit moved
  | nameGroup =>
    cases moved
    exact { held with drawn := Drawn.another held.drawn }
  | qualified place answer => exact held.qualified quiet moved
  | cancel orderId => exact held.cancel quiet moved
  | cancelAll =>
    cases moved
    exact { held with }
  | orderStatus place status permId =>
    have told : d.callback place _ _ = some e := moved
    exact held.callback told (fun m trade => m.onOrderStatus_put _) (fun _ => rfl) quiet
  | execDetails now place fill =>
    have told : d.callback place (fun trade => { trade with fills := trade.fills ++ [fill] })
        (fun m trade => m.onExecDetails now trade fill) = some e := moved
    exact held.callback told (fun m trade => m.onExecDetails_put now _ fill) (fun _ => rfl) quiet
  | error reqId errorCode errorString => exact held.error moved quiet
  | consume => exact held.consume moved

theorem untranslated_of_identified (held : Inv d) (act : Act)
    (moved : step broker d act = some e) (identified : e.Identified) : Untranslated d act := by
  cases act with
  | submit signal expectedPrice => trivial
  | nameGroup => trivial
  | qualified place answer =>
    obtain ⟨request, waiting, rfl⟩ := Option.map_eq_some_iff.mp moved
    cases answer with
    | error message => trivial
    | ok contracts =>
      cases contracts with
      | nil => trivial
      | cons first rest =>
        intro other same order known marked
        cases waiting.symm.trans same
        obtain ⟨trade, own, trades, cancelled, -⟩ := placeWith_trades broker request first
          { d.memory.ibkr with contracts := d.memory.ibkr.contracts.set request.symbol first }
        have cancels := identified.cancels trade
        rw [advance_resumed] at cancels
        dsimp only at cancels
        rw [trades, cancelled, own] at cancels
        -- it was cancelled while it waited, and the client was never asked
        have reached := cancels (List.mem_append_right _ (List.mem_singleton.mpr rfl)) order known
          marked
        rw [held.uncancelled] at reached
        cases reached
  | cancel orderId =>
    intro trade member same
    have known := held.placed trade member
    rw [same] at known
    obtain ⟨order, found⟩ := Option.ne_none_iff_exists'.mp known
    rw [step_cancel_known found (Drawn.unfiled held.drawn held.filed known),
      Option.some.injEq] at moved
    subst moved
    -- the order is marked, but the adapter has not found it
    have reached := identified.cancels trade member { order with status := .cancelPending }
      (by
        dsimp only
        rw [ManagerState.cancelling_getOrder, same, if_pos rfl, found, Option.map_some]) rfl
    dsimp only at reached
    rw [held.uncancelled] at reached
    cases reached
  | cancelAll => trivial
  | orderStatus place status permId =>
    intro _
    have told : d.callback place _ _ = some e := moved
    exact held.callback_forced told (fun m trade => m.onOrderStatus_put _) identified
  | execDetails now place fill =>
    intro _
    have told : d.callback place (fun trade => { trade with fills := trade.fills ++ [fill] })
        (fun m trade => m.onExecDetails now trade fill) = some e := moved
    exact held.callback_forced told (fun m trade => m.onExecDetails_put now _ fill) identified
  | error reqId errorCode errorString => exact held.error_forced moved identified
  | consume => trivial

/-- An adapter that is connected and has placed nothing yet. -/
def connected (uuids : Uuids) (bus : EventBus) (positions : List (IbContract × ℚ)) : IbkrDesk where
  memory := { uuids, bus, ibkr := { ib := { positions } } }

theorem inv_connected (uuids : Uuids) (bus : EventBus) (positions : List (IbContract × ℚ)) :
    Inv (connected uuids bus positions) where
  drawn id known := absurd rfl known
  filed id known := absurd rfl known
  queued event member := by cases member
  placing request member := by cases member
  placed trade member := by cases member
  uncancelled := rfl
  silent := rfl
  working trade member := by cases member

/-- An act that cannot happen tells nothing. -/
theorem untranslated_of_idle (act : Act) (idle : step broker d act = none) :
    Untranslated d act := by
  cases act with
  | orderStatus place status permId =>
    intro there
    have missing := Option.map_eq_none_iff.mp idle
    exact absurd there (not_lt.mpr (List.getElem?_eq_none_iff.mp missing))
  | execDetails now place fill =>
    intro there
    have missing := Option.map_eq_none_iff.mp idle
    exact absurd there (not_lt.mpr (List.getElem?_eq_none_iff.mp missing))
  | qualified place answer =>
    have missing := Option.map_eq_none_iff.mp idle
    cases answer with
    | error message => trivial
    | ok contracts =>
      cases contracts with
      | nil => trivial
      | cons first rest =>
        intro request waiting
        cases missing.symm.trans waiting
  | consume => trivial
  | submit signal expectedPrice => cases idle
  | nameGroup => cases idle
  | cancel orderId => cases idle
  | cancelAll => cases idle
  | error reqId errorCode errorString => cases idle

/-- Over a run the ids agree exactly when no act of it needs a translation between them. -/
theorem identity_preserved (broker : IbkrBroker) (uuids : Uuids) (bus : EventBus)
    (positions : List (IbContract × ℚ)) (acts : List Act) :
    Machine.Meets (step broker) Untranslated (connected uuids bus positions) acts ↔
      Machine.Always (step broker) Identified (connected uuids bus positions) acts := by
  apply Machine.meets_iff_always Inv Identified (fun d held => held.identified)
  · exact fun d act e held quiet moved => inv_step held act quiet moved
  · exact fun d act e held moved identified => untranslated_of_identified held act moved identified
  · exact fun d act idle => untranslated_of_idle act idle
  · exact inv_connected uuids bus positions

/-- The fill of the first order carries an id that the manager never gave. -/
theorem fill_unrecognized :
    ¬ ∀ (broker : IbkrBroker) (uuids : Uuids) (bus : EventBus)
      (positions : List (IbContract × ℚ)) (acts : List Act),
      Machine.Always (step broker) Identified (connected uuids bus positions) acts := by
  intro claim
  have identified := (claim { drawId := fun n => n + 4 } ⟨0⟩ {} []
    [.submit ⟨"ES", "momentum", .buy, 1, .market, none, .day, none⟩ none,
      .qualified 0 (.ok [⟨"ES", "CME", "USD"⟩]),
      .execDetails 1 0 ⟨1, 5000, 0, none⟩]).reached rfl
  obtain ⟨same, -⟩ := identified.events _ (List.mem_singleton.mpr rfl)
  cases same

end IbkrDesk

end Binbot
