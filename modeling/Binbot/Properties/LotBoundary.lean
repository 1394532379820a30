import Binbot.Execution.ManagerCalls
import Binbot.Scripts.LiveDesk
import Mathlib.Algebra.Order.BigOperators.Group.List

/-!
# The lot boundary

An order leaves the bot as a real quantity and comes back as real fills. With a step that
the quantity precision can write, no rounding on the way changes a number of lots: not
the one that is sent, nor that of a fill, of the fills so far or of the position.
-/
namespace Binbot

open Async Data BinanceFuturesBroker

/-- The quantity that an order asks for on the wire. -/
def WireOrder.quantity? : WireOrder → Option ℚ
  | .market quantity => some quantity
  | .limit quantity _ _ => some quantity
  | .stopMarket quantity => some quantity
  | .stop quantity => some quantity
  | .closePosition _ => none

/-- One update for each fill of an order for `total`, of which `done` has filled before. -/
def Reports (id : OrderId) (symbol : Symbol) (total : ℚ) :
    ℚ → List ℚ → List OrderTradeUpdate → Prop
  | _, [], [] => True
  | done, fill :: fills, o :: updates =>
    (o.clientOrderId = id ∧ o.symbol = symbol ∧ o.execType = .trade) ∧
      o.lastFilled = fill ∧ o.cumulativeFilled = done + fill ∧ o.originalQuantity = total ∧
      Reports id symbol total (done + fill) fills updates
  | _, _, _ => False

/-- Fills of these lots, one event for each, of an order for `n` of which `done` are filled. -/
def Counts (n : ℤ) : ℤ → List ℤ → List ExecutionEvent → Prop
  | _, [], [] => True
  | done, lots :: rest, event :: events =>
    event.fillQuantity = lots ∧ event.cumulativeQuantity = done + lots ∧
      event.remainingQuantity = n - (done + lots) ∧ Counts n (done + lots) rest events
  | _, _, _ => False

section Updates

variable {filt : SymbolFilters} {id : OrderId} {symbol : Symbol} {n : ℤ}

/-- Fills in multiples of the step are a list of lots. -/
theorem exists_lots {fills : List ℚ}
    (onStep : ∀ fill ∈ fills, ∃ k : ℕ, 0 < k ∧ fill = k * filt.stepSize) :
    ∃ lots : List ℤ, (∀ k ∈ lots, 0 < k) ∧
      fills = lots.map fun k : ℤ => (k : ℚ) * filt.stepSize := by
  induction fills with
  | nil => exact ⟨[], by simp, rfl⟩
  | cons fill fills ih =>
    obtain ⟨lots, positive, rest⟩ :=
      ih fun other member => onStep other (List.mem_cons_of_mem _ member)
    obtain ⟨k, pos, first⟩ := onStep fill List.mem_cons_self
    refine ⟨k :: lots, ?_, ?_⟩
    · intro other member
      rcases List.mem_cons.mp member with rfl | later
      · exact_mod_cast pos
      · exact positive other later
    · rw [List.map_cons, rest, first]
      norm_cast

theorem sum_lots (lots : List ℤ) (step : ℚ) :
    (lots.map fun k : ℤ => (k : ℚ) * step).sum = lots.sum * step := by
  induction lots with
  | nil => simp
  | cons k rest ih =>
    rw [List.map_cons, List.sum_cons, List.sum_cons, ih]
    push_cast
    ring

/-- The events count in lots what the updates report in real quantities. -/
theorem counts_of_reports (regular : filt.Regular) {lots : List ℤ} (positive : ∀ k ∈ lots, 0 < k)
    {done : ℤ} (within : done + lots.sum ≤ n) {updates : List OrderTradeUpdate}
    (reports : Reports id symbol (n * filt.stepSize) (done * filt.stepSize)
      (lots.map fun k : ℤ => (k : ℚ) * filt.stepSize) updates) :
    Counts n done lots (updates.map (executionEvent filt id)) := by
  induction lots generalizing done updates with
  | nil =>
    cases updates with
    | nil => trivial
    | cons o updates => exact reports.elim
  | cons k rest ih =>
    cases updates with
    | nil => exact reports.elim
    | cons o updates =>
      obtain ⟨-, last, cumulative, original, later⟩ := reports
      -- the cumulative quantity that the update reports is a number of lots again
      have sum : (done : ℚ) * filt.stepSize + k * filt.stepSize =
          ((done + k : ℤ) : ℚ) * filt.stepSize := by
        push_cast
        ring
      rw [sum] at cumulative later
      -- the later fills only add, so that the order is not overfilled at this one
      have rest_pos : 0 ≤ rest.sum :=
        List.sum_nonneg fun other member => (positive other (List.mem_cons_of_mem _ member)).le
      rw [List.sum_cons] at within
      have total : filt.quantityToLots o.originalQuantity = n := by
        rw [original, regular.quantityToLots_lots]
      have filled : filt.quantityToLots o.cumulativeFilled = done + k := by
        rw [cumulative, regular.quantityToLots_lots]
      refine ⟨?_, filled, ?_, ?_⟩
      · change filt.quantityToLots o.lastFilled = k
        rw [last, regular.quantityToLots_lots]
      · change max (filt.quantityToLots o.originalQuantity -
          filt.quantityToLots o.cumulativeFilled) 0 = _
        rw [total, filled]
        omega
      · apply ih (fun other member => positive other (List.mem_cons_of_mem _ member)) (by omega)
        exact later

end Updates

namespace Counts

variable {n done : ℤ} {lots : List ℤ} {events : List ExecutionEvent}

theorem fills (counts : Counts n done lots events) :
    events.map (·.fillQuantity) = lots := by
  induction lots generalizing done events with
  | nil =>
    cases events with
    | nil => rfl
    | cons event events => exact counts.elim
  | cons k rest ih =>
    cases events with
    | nil => exact counts.elim
    | cons event events =>
      obtain ⟨fill, -, -, later⟩ := counts
      rw [List.map_cons, fill, ih later]

/-- What the `i`-th event says of the order. -/
theorem at_fill (counts : Counts n done lots events) (i : ℕ) (h : i < events.length) :
    events[i].cumulativeQuantity = done + ((events.take (i + 1)).map (·.fillQuantity)).sum ∧
      events[i].remainingQuantity = n - events[i].cumulativeQuantity := by
  induction lots generalizing done events i with
  | nil =>
    cases events with
    | nil => simp at h
    | cons event events => exact counts.elim
  | cons k rest ih =>
    cases events with
    | nil => exact counts.elim
    | cons event events =>
      obtain ⟨fill, cumulative, remaining, later⟩ := counts
      cases i with
      | zero => simp [fill, cumulative, remaining]
      | succ i =>
        obtain ⟨so, left⟩ := ih later i (by simpa using h)
        refine ⟨?_, left⟩
        rw [List.getElem_cons_succ, so, List.take_succ_cons, List.map_cons, List.sum_cons, fill]
        ring

/-- What is left after the `i`-th event are the fills after it. -/
theorem remaining_eq (counts : Counts n done lots events) (whole : done + lots.sum = n) (i : ℕ)
    (h : i < events.length) :
    events[i].remainingQuantity = ((events.drop (i + 1)).map (·.fillQuantity)).sum := by
  obtain ⟨cumulative, remaining⟩ := counts.at_fill i h
  have split : ((events.take (i + 1)).map (·.fillQuantity)).sum +
      ((events.drop (i + 1)).map (·.fillQuantity)).sum = lots.sum := by
    rw [← List.sum_append, ← List.map_append, List.take_append_drop, counts.fills]
  omega

theorem remaining_nonneg (counts : Counts n done lots events) (whole : done + lots.sum = n)
    (positive : ∀ k ∈ lots, 0 < k) (i : ℕ) (h : i < events.length) :
    0 ≤ events[i].remainingQuantity := by
  rw [counts.remaining_eq whole i h]
  apply List.sum_nonneg
  intro k member
  rw [List.map_drop, counts.fills] at member
  exact (positive k (List.mem_of_mem_drop member)).le

/-- Nothing is left exactly after the last fill. -/
theorem remaining_eq_zero (counts : Counts n done lots events) (whole : done + lots.sum = n)
    (positive : ∀ k ∈ lots, 0 < k) (i : ℕ) (h : i < events.length) :
    events[i].remainingQuantity = 0 ↔ i + 1 = events.length := by
  rw [counts.remaining_eq whole i h, List.map_drop, counts.fills]
  have length : lots.length = events.length := by rw [← counts.fills, List.length_map]
  constructor
  · intro none
    by_contra more
    -- one more fill would leave something
    cases rest : lots.drop (i + 1) with
    | nil =>
      have ended := List.drop_eq_nil_iff.mp rest
      omega
    | cons k others =>
      have member : ∀ other ∈ k :: others, 0 < other := by
        intro other there
        rw [← rest] at there
        exact positive other (List.mem_of_mem_drop there)
      have later : 0 ≤ others.sum :=
        List.sum_nonneg fun other there => (member other (List.mem_cons_of_mem _ there)).le
      have first := member k List.mem_cons_self
      rw [rest, List.sum_cons] at none
      omega
  · intro last
    rw [List.drop_eq_nil_of_le (by omega)]
    rfl

end Counts

section Position

variable {filt : SymbolFilters}

/-- A position of `lots` steps is read as `lots`. -/
theorem lotsHeld_lots (regular : filt.Regular) {row : PositionRow} {lots : ℤ}
    (amount : row.positionAmt = lots * filt.stepSize) : lotsHeld row filt = lots := by
  have step := regular.step_pos
  have size : |row.positionAmt| = (|lots| : ℤ) * filt.stepSize := by
    rw [amount, abs_mul, abs_of_pos step]
    push_cast
    rfl
  have long : row.positionAmt > 0 ↔ 0 < lots := by
    rw [amount, gt_iff_lt, mul_pos_iff_of_pos_right step]
    exact_mod_cast Iff.rfl
  rw [lotsHeld]
  simp only [size, regular.quantityToLots_lots, long]
  split
  next positive => exact abs_of_pos positive
  next other => rw [abs_of_nonpos (not_lt.mp other), neg_neg]

theorem positionDetail_lots (regular : filt.Regular) {row : PositionRow} {lots : ℤ}
    (amount : row.positionAmt = lots * filt.stepSize) :
    (positionDetail row filt).signedQuantity = lots := by
  rw [← lotsHeld_lots regular amount, lotsHeld, PositionDetail.signedQuantity]
  by_cases long : row.positionAmt > 0
  · simp [positionDetail, long]
  · simp [positionDetail, long]

/-- The only entry of a key is what is found under it. -/
theorem lookup_only {κ V : Type} [DecidableEq κ] {k : κ} {v : V} {xs : List (κ × V)}
    (member : (k, v) ∈ xs) (only : ∀ w, (k, w) ∈ xs → w = v) : Dict.lookup k xs = some v := by
  cases found : Dict.lookup k xs with
  | none =>
    have absent := (Dict.lookup_eq_none k xs).mp found
    exact absurd (List.mem_map.mpr ⟨(k, v), member, rfl⟩) absent
  | some w => rw [only w (Dict.mem_of_lookup found)]

variable {filters : Dict Symbol SymbolFilters} {rows : List PositionRow} {row : PositionRow}

/-- What the open rows say of a symbol that is listed once. -/
theorem mem_openRows (loaded : filters.get? row.symbol = some filt) (listed : row ∈ rows)
    (once : ∀ other ∈ rows, other.symbol = row.symbol → other = row)
    (entry : PositionRow × SymbolFilters) (here : entry.1.symbol = row.symbol) :
    entry ∈ openRows filters rows ↔ entry = (row, filt) ∧ row.positionAmt ≠ 0 := by
  rw [openRows, List.mem_filterMap]
  constructor
  · rintro ⟨other, member, kept⟩
    split at kept
    next found known =>
      split at kept
      · cases kept
      next open_ =>
        cases kept
        obtain rfl := once other member here
        rw [loaded] at known
        cases known
        exact ⟨rfl, open_⟩
    · cases kept
  · rintro ⟨rfl, open_⟩
    exact ⟨row, listed, by rw [loaded]; exact if_neg open_⟩

theorem positions_lots (regular : filt.Regular) (loaded : filters.get? row.symbol = some filt)
    (listed : row ∈ rows) (once : ∀ other ∈ rows, other.symbol = row.symbol → other = row)
    {lots : ℤ} (amount : row.positionAmt = lots * filt.stepSize) :
    (Dict.ofList ((openRows filters rows).map fun (row, filt) =>
      (row.symbol, lotsHeld row filt))).getD row.symbol 0 = lots := by
  have mem : ∀ value, (row.symbol, value) ∈ ((openRows filters rows).map fun (row, filt) =>
      (row.symbol, lotsHeld row filt)).reverse ↔ value = lots ∧ row.positionAmt ≠ 0 := by
    intro value
    rw [List.mem_reverse, List.mem_map]
    constructor
    · rintro ⟨entry, member, same⟩
      obtain ⟨symbol, held⟩ := Prod.mk.inj same
      obtain ⟨rfl, open_⟩ := (mem_openRows loaded listed once entry symbol).mp member
      exact ⟨held.symm.trans (lotsHeld_lots regular amount), open_⟩
    · rintro ⟨rfl, open_⟩
      refine ⟨(row, filt), (mem_openRows loaded listed once _ rfl).mpr ⟨rfl, open_⟩, ?_⟩
      exact congrArg (Prod.mk row.symbol) (lotsHeld_lots regular amount)
  rw [Dict.getD, Dict.get?_ofList]
  by_cases flat : row.positionAmt = 0
  · have none : lots = 0 := by
      rw [amount] at flat
      exact_mod_cast (mul_eq_zero.mp flat).resolve_right regular.step_pos.ne'
    rw [(Dict.lookup_eq_none _ _).mpr, none]
    · rfl
    · intro member
      obtain ⟨⟨key, value⟩, there, rfl⟩ := List.mem_map.mp member
      exact ((mem value).mp there).2 flat
  · rw [lookup_only ((mem lots).mpr ⟨rfl, flat⟩) fun value there => ((mem value).mp there).1]
    rfl

end Position

section Segments

variable (p : DeskParams) {d : Desk} {filt : SymbolFilters}

/-- Nothing but the adapter's queue of events is held fixed. -/
def queueContract : Contract Unit Desk wireSig where
  issue _ _ _ := True
  rely _ _ _ _ _ _ := True
  guar s t := t.broker.eventQueue = s.broker.eventQueue

theorem handleOcaFill_queue (id : OrderId) (d : Desk) :
    ((p.broker.handleOcaFill id).advance d).2.broker.eventQueue = d.broker.eventQueue := by
  have cancels : ∀ other, (p.broker.cancelOrder other).Keeps queueContract fun _ _ => True := by
    intro other
    refine Coro.keeps_view.bind fun m => ?_
    split
    · exact Coro.keeps_pure ()
    · refine Coro.Keeps.tryCatch ?_ fun _ => Coro.keeps_pure ()
      exact Coro.keeps_request (fun _ _ _ => trivial) fun _ _ _ _ _ _ _ => trivial
  have obeys : (p.broker.handleOcaFill id).Keeps queueContract fun _ _ => True := by
    refine Coro.keeps_view.bind fun m => ?_
    split
    · exact Coro.keeps_pure ()
    · split
      · exact Coro.keeps_pure ()
      · refine (Coro.keeps_forEach cancels _).bind fun _ => ?_
        exact Coro.keeps_update fun _ _ _ => ⟨rfl, trivial⟩
  refine Coro.Obeys.advance_guar (C := queueContract)
    (fun s t : Desk => t.broker.eventQueue = s.broker.eventQueue) (fun _ => rfl)
    (fun first second => second.trans first) (fun kept => kept) (obeys () d trivial)

/-- A trade update is one fill in the adapter's queue. -/
theorem handleTrade_queue {o : OrderTradeUpdate} (trade : o.execType = .trade) {id : OrderId}
    (loaded : d.broker.filters.get? o.symbol = some filt)
    (named : d.broker.clientOrderToInternalId.getD o.clientOrderId o.clientOrderId = id) :
    ((p.broker.handleUserStreamMessage (.orderTradeUpdate o)).advance d).2.broker.eventQueue =
      d.broker.eventQueue ++ [.execution (executionEvent filt id o)] := by
  have read : (Part.view d : BrokerState).filters.get? o.symbol = some filt := loaded
  have own : (Part.view d : BrokerState).clientOrderToInternalId.getD o.clientOrderId
      o.clientOrderId = id := named
  simp only [handleUserStreamMessage, trade, Coro.advance_view_bind, filtersOf, Coro.bind_bind]
  rw [read, own]
  change ((Coro.onlyIf (o.status = .filled) (p.broker.handleOcaFill id)).advance
    { d with
      broker := d.broker.put (.execution (executionEvent filt id o)) }).2.broker.eventQueue = _
  rw [Coro.onlyIf]
  split
  · exact handleOcaFill_queue p id _
  · rfl

/-- A limit order needs a price; any other order can be put on the wire. -/
theorem exists_wireOrder (filt : SymbolFilters) (request : BrokerOrderRequest)
    (priced : request.orderType = .limit → request.limitPrice ≠ none) :
    ∃ order, wireOrder request filt = .ok order ∧
      order.quantity? = some (filt.lotsToQuantity request.quantity) := by
  rw [wireOrder]
  cases type : request.orderType with
  | limit =>
    cases price : request.limitPrice with
    | none => exact absurd price (priced type)
    | some price => exact ⟨_, rfl, rfl⟩
  | _ => exact ⟨_, rfl, rfl⟩

theorem placeOrder_sends {α : Type} (request : BrokerOrderRequest) {order : WireOrder}
    (loaded : d.broker.filters.get? request.symbol = some filt)
    (enough : filt.minQty ≤ filt.lotsToQuantity request.quantity)
    (sent : wireOrder request filt = .ok order) (rest : Unit → Coro Desk wireSig α) :
    ∃ next, (p.broker.placeOrder request >>= rest).advance d =
      (.await (.createOrder ⟨request.symbol, request.side, order, request.orderId⟩) next,
        { d with broker := d.broker.register request }) := by
  have read : (Part.view d : BrokerState).filters.get? request.symbol = some filt := loaded
  simp only [placeOrder, Coro.bind_bind, Coro.advance_view_bind]
  rw [read]
  simp only [if_neg (not_lt.mpr enough), sent]
  exact ⟨_, rfl⟩

/-- What `submit` has noted when it comes to the adapter. -/
def noted (d : Desk) (signal : SignalEvent) (expectedPrice : Option ℚ) : Desk :=
  { d with
    uuids := ⟨d.uuids.drawn + 1⟩
    manager := d.manager.noting (.hex d.uuids.drawn) signal expectedPrice }

theorem advance_submit (signal : SignalEvent) (expectedPrice : Option ℚ) :
    (p.submit signal expectedPrice).advance d =
      ((p.broker.placeOrder
          (ManagedOrder.ofSignal (.hex d.uuids.drawn) signal expectedPrice).request >>=
        fun _ => pure (OrderId.hex d.uuids.drawn)) >>= fun _ => pure ()).advance
        (noted d signal expectedPrice) := rfl

theorem register_named (m : BrokerState) (request : BrokerOrderRequest) (id : OrderId) :
    (m.register request).clientOrderToInternalId.getD request.orderId id = request.orderId := by
  have set : (m.register request).clientOrderToInternalId =
      m.clientOrderToInternalId.set request.orderId request.orderId := by
    rw [BrokerState.register]
    split
    · rfl
    · split
      · rfl
      · rfl
  rw [set, Dict.getD, Dict.get?_set_self]
  rfl

/-- An order of enough lots goes to the exchange as that many steps, its updates will be taken
for its own, and the manager has it on record. -/
theorem submit_sends {signal : SignalEvent} (expectedPrice : Option ℚ)
    (loaded : d.broker.filters.get? signal.symbol = some filt)
    (enough : filt.minQty ≤ filt.lotsToQuantity |signal.targetQuantity|)
    (priced : signal.orderType = .limit → signal.limitPrice ≠ none) :
    ∃ order next, ((p.submit signal expectedPrice).advance d).1 =
        .await (.createOrder ⟨signal.symbol, signal.side, order, .hex d.uuids.drawn⟩) next ∧
      order.quantity? = some (filt.lotsToQuantity |signal.targetQuantity|) ∧
      ((p.submit signal expectedPrice).advance d).2.broker.clientOrderToInternalId.getD
        (.hex d.uuids.drawn) (.hex d.uuids.drawn) = .hex d.uuids.drawn ∧
      ((p.submit signal expectedPrice).advance d).2.manager.getOrder (.hex d.uuids.drawn) =
        some (.ofSignal (.hex d.uuids.drawn) signal expectedPrice) := by
  let managed := ManagedOrder.ofSignal (.hex d.uuids.drawn) signal expectedPrice
  obtain ⟨order, sent, size⟩ := exists_wireOrder filt managed.request priced
  obtain ⟨next, asked⟩ := placeOrder_sends p managed.request
    (show (noted d signal expectedPrice).broker.filters.get? managed.request.symbol = some filt
      from loaded) enough sent
    fun _ => (pure (OrderId.hex d.uuids.drawn) >>= fun _ => pure () : Coro Desk wireSig Unit)
  rw [advance_submit, Coro.bind_bind]
  refine ⟨order, next, ?_, size, ?_, ?_⟩
  · exact congrArg Prod.fst asked
  · refine (congrArg (fun after => after.2.broker.clientOrderToInternalId.getD
      (.hex d.uuids.drawn) (.hex d.uuids.drawn)) asked).trans ?_
    exact register_named _ managed.request _
  · -- the adapter leaves the manager's record of the order as it is
    refine (congrArg (fun after => after.2.manager.getOrder (.hex d.uuids.drawn)) asked).trans ?_
    exact (d.manager.noting_getOrder _ _ signal expectedPrice).trans (if_pos rfl)

end Segments

/-- The order that `submit` makes of the signal, and what comes back of it in these updates. -/
structure Lossless (p : DeskParams) (d : Desk) (signal : SignalEvent) (expectedPrice : Option ℚ)
    (filt : SymbolFilters) (fills : List ℚ) (events : List ExecutionEvent)
    (updates : List OrderTradeUpdate) : Prop where
  /-- The order goes out in full. -/
  sent : ∃ order next, ((p.submit signal expectedPrice).advance d).1 =
      .await (.createOrder ⟨signal.symbol, signal.side, order, .hex d.uuids.drawn⟩) next ∧
    order.quantity? = some (filt.lotsToQuantity |signal.targetQuantity|)
  registered : ((p.submit signal expectedPrice).advance d).2.broker.clientOrderToInternalId.getD
    (.hex d.uuids.drawn) (.hex d.uuids.drawn) = .hex d.uuids.drawn
  /-- The manager has the order on record when the adapter sends it. -/
  recorded : ((p.submit signal expectedPrice).advance d).2.manager.getOrder (.hex d.uuids.drawn) =
    some (.ofSignal (.hex d.uuids.drawn) signal expectedPrice)
  /-- Each update is one event, whenever it is handled. -/
  produced : List.Forall₂ (fun o event => ∀ desk : Desk,
    desk.broker.filters.get? signal.symbol = some filt →
    desk.broker.clientOrderToInternalId.getD (.hex d.uuids.drawn) (.hex d.uuids.drawn) =
      .hex d.uuids.drawn →
    ((p.broker.handleUserStreamMessage (.orderTradeUpdate o)).advance desk).2.broker.eventQueue =
      desk.broker.eventQueue ++ [.execution event]) updates events
  /-- The fills add up to the order. -/
  whole : (events.map (·.fillQuantity)).sum = |signal.targetQuantity|
  running : ∀ (i : ℕ) (h : i < events.length),
    events[i].cumulativeQuantity = ((events.take (i + 1)).map (·.fillQuantity)).sum ∧
      events[i].remainingQuantity = |signal.targetQuantity| - events[i].cumulativeQuantity ∧
      0 ≤ events[i].remainingQuantity
  /-- The order is marked filled by the last event, and by no other. -/
  marked : ∀ (i : ℕ) (h : i < events.length) (m : ManagerState) (order : ManagedOrder),
    m.getOrder (.hex d.uuids.drawn) = some order →
    ∃ after, (m.handleEvent (.execution events[i])).1.getOrder (.hex d.uuids.drawn) = some after ∧
      (after.status = .filled ↔ i + 1 = events.length)
  /-- The position that results is read as the same number of lots. -/
  position : ∀ (ω : Type) (reply : ω → (q : WireReq) → Answer wireSig q × ω) (w : ω) (desk : Desk)
    (rows : List PositionRow) (row : PositionRow) (held : ℤ),
    desk.broker.filters.get? signal.symbol = some filt →
    (reply w .positionInformation).1 = .ok rows → row ∈ rows → row.symbol = signal.symbol →
    (∀ other ∈ rows, other.symbol = signal.symbol → other = row) →
    row.positionAmt = held * filt.stepSize + signal.side.sign * fills.sum →
    (∃ positions, (p.broker.getPositions.exec reply w desk).result = .ok positions ∧
      positions.getD signal.symbol 0 = held + signal.side.sign * |signal.targetQuantity|) ∧
    ∃ details, (p.broker.getPositionDetails.exec reply w desk).result = .ok details ∧
      (∀ detail ∈ details, detail.symbol = signal.symbol →
        detail.signedQuantity = held + signal.side.sign * |signal.targetQuantity|) ∧
      ((∃ detail ∈ details, detail.symbol = signal.symbol) ↔
        held + signal.side.sign * |signal.targetQuantity| ≠ 0)

section Main

variable (p : DeskParams) {filt : SymbolFilters}

theorem getPositions_exec {ω : Type} {reply : ω → (q : WireReq) → Answer wireSig q × ω} {w : ω}
    {rows : List PositionRow} (listed : (reply w .positionInformation).1 = .ok rows) (desk : Desk) :
    (p.broker.getPositions.exec reply w desk).result =
      .ok (.ofList ((openRows desk.broker.filters rows).map fun (row, filt) =>
        (row.symbol, lotsHeld row filt))) := by
  have asked : (Coro.request (S := wireSig) .positionInformation : Coro Desk wireSig _).exec reply w
      desk = ⟨.ok rows, (reply w .positionInformation).2, desk⟩ := by
    rw [Coro.exec_request, listed]
  simp only [getPositions, DeskParams.broker, wireClient, Coro.exec_bind]
  rw [asked]
  rfl

theorem getPositionDetails_exec {ω : Type} {reply : ω → (q : WireReq) → Answer wireSig q × ω}
    {w : ω} {rows : List PositionRow} (listed : (reply w .positionInformation).1 = .ok rows)
    (desk : Desk) :
    (p.broker.getPositionDetails.exec reply w desk).result =
      .ok ((openRows desk.broker.filters rows).map fun (row, filt) => positionDetail row filt) := by
  have asked : (Coro.request (S := wireSig) .positionInformation : Coro Desk wireSig _).exec reply w
      desk = ⟨.ok rows, (reply w .positionInformation).2, desk⟩ := by
    rw [Coro.exec_request, listed]
  simp only [getPositionDetails, DeskParams.broker, wireClient, Coro.exec_bind]
  rw [asked]
  rfl

variable (filt) in
/-- Each update of the order is one event in the queue. -/
theorem produced_of_reports {id : OrderId} {symbol : Symbol} {total done : ℚ} {fills : List ℚ}
    {updates : List OrderTradeUpdate} (reports : Reports id symbol total done fills updates) :
    List.Forall₂ (fun o event => ∀ desk : Desk, desk.broker.filters.get? symbol = some filt →
      desk.broker.clientOrderToInternalId.getD id id = id →
      ((p.broker.handleUserStreamMessage (.orderTradeUpdate o)).advance desk).2.broker.eventQueue =
        desk.broker.eventQueue ++ [.execution event])
      updates (updates.map (executionEvent filt id)) := by
  induction updates generalizing done fills with
  | nil => exact .nil
  | cons o updates ih =>
    cases fills with
    | nil => exact reports.elim
    | cons fill fills =>
      obtain ⟨⟨client, symbol, trade⟩, -, -, -, later⟩ := reports
      refine .cons ?_ (ih later)
      intro desk loaded named
      exact handleTrade_queue p trade (symbol ▸ loaded) (by rw [client]; exact named)

/-- The rows of a symbol that is listed once, as `get_position_details` gives them. -/
theorem details_lots (regular : filt.Regular) {filters : Dict Symbol SymbolFilters}
    {rows : List PositionRow} {row : PositionRow} (loaded : filters.get? row.symbol = some filt)
    (listed : row ∈ rows) (once : ∀ other ∈ rows, other.symbol = row.symbol → other = row)
    {lots : ℤ} (amount : row.positionAmt = lots * filt.stepSize) :
    let details := (openRows filters rows).map fun (row, filt) => positionDetail row filt
    (∀ detail ∈ details, detail.symbol = row.symbol → detail.signedQuantity = lots) ∧
      ((∃ detail ∈ details, detail.symbol = row.symbol) ↔ lots ≠ 0) := by
  -- the only detail of the symbol is the one of its row
  have own : ∀ detail, detail ∈ ((openRows filters rows).map fun (row, filt) =>
      positionDetail row filt) → detail.symbol = row.symbol →
      detail = positionDetail row filt ∧ row.positionAmt ≠ 0 := by
    intro detail member here
    obtain ⟨entry, there, rfl⟩ := List.mem_map.mp member
    obtain ⟨rfl, open_⟩ := (mem_openRows loaded listed once entry here).mp there
    exact ⟨rfl, open_⟩
  have flat : row.positionAmt ≠ 0 ↔ lots ≠ 0 := by
    rw [amount]
    simp [regular.step_pos.ne']
  refine ⟨?_, ?_, ?_⟩
  · intro detail member here
    rw [(own detail member here).1]
    exact positionDetail_lots regular amount
  · rintro ⟨detail, member, here⟩
    exact flat.mp (own detail member here).2
  · intro some
    refine ⟨positionDetail row filt, ?_, rfl⟩
    apply List.mem_map.mpr
    exact ⟨(row, filt), (mem_openRows loaded listed once _ rfl).mpr ⟨rfl, flat.mpr some⟩, rfl⟩

/-- A fill marks its order filled exactly when it leaves nothing of it. -/
theorem handleEvent_fill (m : ManagerState) (event : ExecutionEvent) {order : ManagedOrder}
    (known : m.getOrder event.orderId = some order) :
    ∃ after, (m.handleEvent (.execution event)).1.getOrder event.orderId = some after ∧
      (after.status = .filled ↔ event.remainingQuantity = 0) := by
  refine ⟨(order.after (.execution event)).1, ?_, ?_⟩
  · rw [ManagerState.handleEvent_getOrder, BrokerEvent.orderId, if_pos rfl, known, Option.map_some]
  · rw [ManagedOrder.after_status, BrokerEvent.statusAfter]
    split
    next none => exact ⟨fun _ => none, fun _ => rfl⟩
    next some => exact ⟨fun filled => (by cases filled), fun none => absurd none some⟩

/-- An order of any number of lots, filled in any steps, crosses the boundary to the exchange
and back without losing or gaining a lot. -/
theorem lot_boundary_lossless {d : Desk} {signal : SignalEvent} (expectedPrice : Option ℚ)
    (regular : filt.Regular) (loaded : d.broker.filters.get? signal.symbol = some filt)
    (enough : filt.minQty ≤ filt.lotsToQuantity |signal.targetQuantity|)
    (priced : signal.orderType = .limit → signal.limitPrice ≠ none) {fills : List ℚ}
    (onStep : ∀ fill ∈ fills, ∃ k : ℕ, 0 < k ∧ fill = k * filt.stepSize)
    (complete : fills.sum = filt.lotsToQuantity |signal.targetQuantity|)
    {updates : List OrderTradeUpdate}
    (reports : Reports (.hex d.uuids.drawn) signal.symbol
      (filt.lotsToQuantity |signal.targetQuantity|) 0 fills updates) :
    Lossless p d signal expectedPrice filt fills
      (updates.map (executionEvent filt (.hex d.uuids.drawn))) updates := by
  obtain ⟨order, next, asked, size, named, recorded⟩ :=
    submit_sends p expectedPrice loaded enough priced
  have produced := produced_of_reports p filt reports
  obtain ⟨lots, positive, steps⟩ := exists_lots onStep
  have total := regular.lotsToQuantity_eq |signal.targetQuantity|
  -- a positive step makes the number of lots a matter of the quantity
  have sum : lots.sum = |signal.targetQuantity| := by
    rw [steps, sum_lots, total] at complete
    exact_mod_cast mul_right_cancel₀ regular.step_pos.ne' complete
  -- so the updates count up to the order's own number of lots
  have counts : Counts |signal.targetQuantity| 0 lots
      (updates.map (executionEvent filt (.hex d.uuids.drawn))) := by
    apply counts_of_reports regular positive (by rw [zero_add, sum])
    rw [Int.cast_zero, zero_mul, ← steps, ← total]
    exact reports
  have whole : 0 + lots.sum = |signal.targetQuantity| := by rw [zero_add, sum]
  constructor
  · exact ⟨order, next, asked, size⟩
  · exact named
  · exact recorded
  · exact produced
  · rw [counts.fills, sum]
  · intro i h
    obtain ⟨cumulative, remaining⟩ := counts.at_fill i h
    rw [zero_add] at cumulative
    exact ⟨cumulative, remaining, counts.remaining_nonneg whole positive i h⟩
  · -- the manager marks the order filled at the fill that leaves nothing
    intro i h m order known
    have own : (updates.map (executionEvent filt (.hex d.uuids.drawn)))[i].orderId =
        .hex d.uuids.drawn := by
      rw [List.getElem_map]
      rfl
    obtain ⟨after, stored, filled⟩ := handleEvent_fill m _ (own.symm ▸ known)
    rw [own] at stored
    exact ⟨after, stored, filled.trans (counts.remaining_eq_zero whole positive i h)⟩
  · -- the position that the exchange lists is read back in lots
    intro ω reply w desk rows row held known listed member here once amount
    have after : row.positionAmt =
        (held + signal.side.sign * |signal.targetQuantity| : ℤ) * filt.stepSize := by
      rw [amount, complete, total]
      push_cast
      ring
    rw [← here] at known once ⊢
    refine ⟨⟨_, getPositions_exec p listed desk, ?_⟩, _, getPositionDetails_exec p listed desk, ?_⟩
    · exact positions_lots regular known member once after
    · exact details_lots regular known member once after

/-- Three lots bought on a fresh desk, in a fill of one and one of two. -/
def buyThree : SignalEvent := ⟨"BTCUSDT", "momentum", .buy, 3, .market, none, .gtc, none⟩

def twoFills : List OrderTradeUpdate :=
  [⟨.hex 0, "BTCUSDT", .buy, .trade, .partiallyFilled, 1 / 1000, 1 / 1000, 3 / 1000, 60000, 0, true,
      0, 7⟩,
    ⟨.hex 0, "BTCUSDT", .buy, .trade, .filled, 2 / 1000, 3 / 1000, 3 / 1000, 60001, 0, false, 1, 7⟩]

theorem lot_boundary_twoFills :
    Lossless .demoDesk (.fresh demoRules ["BTCUSDT"]) buyThree none (demoRules.spec "BTCUSDT")
      [1 / 1000, 2 / 1000]
      (twoFills.map (executionEvent (demoRules.spec "BTCUSDT") (.hex 0))) twoFills := by
  apply lot_boundary_lossless .demoDesk none (demoRules.regular "BTCUSDT")
  · rfl
  · decide +kernel
  · decide
  · intro fill member
    simp only [List.mem_cons, List.not_mem_nil, or_false] at member
    rcases member with rfl | rfl
    · exact ⟨1, by decide, by norm_num [demoRules]⟩
    · exact ⟨2, by decide, by norm_num [demoRules]⟩
  · decide +kernel
  · refine ⟨⟨rfl, rfl, rfl⟩, rfl, ?_, ?_, ⟨rfl, rfl, rfl⟩, rfl, ?_, ?_, trivial⟩
    all_goals decide +kernel

end Main

end Binbot
