import Binbot.Backtest.SimulatorFills
import Binbot.Data.DictMap
import Binbot.Properties.TradingCosts

/-!
# Long and short are treated alike (`backtest/market_simulator.py`)

Where nothing is charged for trading, buying for selling turns every position, trade and profit
into its opposite: what one side of the market gains, the other loses.
-/
namespace Binbot

open Data
open SimulatedOco (Call)

namespace MirroredTrades

open JournaledSimulator MarketSimulatorBroker TradingCosts

/-! ### Mirror images -/

def request (request : BrokerOrderRequest) : BrokerOrderRequest :=
  { request with side := request.side.opposite }

def pending (p : PendingOrder) : PendingOrder := { p with request := request p.request }

def trade (trade : SimulatedTrade) : SimulatedTrade :=
  { trade with side := trade.side.opposite, pnl := -trade.pnl }

def record (record : TradeRecord) : TradeRecord :=
  { record with side := record.side.opposite, pnl := -record.pnl }

def execution (event : ExecutionEvent) : ExecutionEvent :=
  { event with side := event.side.opposite }

def event : BrokerEvent → BrokerEvent
  | .execution e => .execution (execution e)
  | other => other

/-- The calls of a trader who does the opposite. -/
def call : Call → Call
  | .placeOrder r => .placeOrder (request r)
  | other => other

/-- The state with the opposite positions, which has lost of the start what `m` has gained. -/
def state (startingEquity : ℚ) (m : SimulatorState) : SimulatorState where
  equity := 2 * startingEquity - m.equity
  positions := m.positions.map fun position => -position
  avgEntryPrice := m.avgEntryPrice
  pendingOrders := m.pendingOrders.map fun orders => orders.map pending
  lastBar := m.lastBar
  volumeHistory := m.volumeHistory
  returnHistory := m.returnHistory
  eventQueue := m.eventQueue.map event
  fills := m.fills.map execution
  openTrades := m.openTrades.map trade
  trades := m.trades.map record

variable {startingEquity : ℚ}

@[simp] theorem sign_opposite (side : OrderSide) : side.opposite.sign = -side.sign := by
  cases side <;> rfl

theorem state_position (m : SimulatorState) (symbol : Symbol) :
    (state startingEquity m).position symbol = -m.position symbol :=
  m.positions.getD_map (fun position => -position) symbol 0

theorem state_waiting (m : SimulatorState) (symbol : Symbol) :
    (state startingEquity m).pendingOrders.getD symbol [] =
      (m.pendingOrders.getD symbol []).map pending :=
  Dict.getD_map (fun orders : List PendingOrder => orders.map pending) m.pendingOrders symbol []

/-! ### One fill -/

section Fill

variable (prev signed : ℤ) (price average multiplier : ℚ)

theorem isFlip_neg (new : ℤ) : isFlip (-prev) (-new) ↔ isFlip prev new := by
  simp only [isFlip]
  omega

theorem closingPnl_neg (moves : signed ≠ 0) :
    closingPnl (-prev) (-signed) price average multiplier =
      -closingPnl prev signed price average multiplier := by
  have crossing : -prev ≠ 0 ∧ ¬(-prev > 0 ↔ -signed > 0) ↔ prev ≠ 0 ∧ ¬(prev > 0 ↔ signed > 0) := by
    omega
  simp only [closingPnl, crossing, abs_neg]
  split
  next against =>
    rcases lt_or_gt_of_ne against.1 with short | long
    · rw [if_pos (by omega : -prev > 0), if_neg (by omega : ¬ prev > 0)]
      ring
    · rw [if_neg (by omega : ¬ -prev > 0), if_pos long]
      ring
  next => exact neg_zero.symm

theorem averageAfter_neg :
    averageAfter (-prev) (-signed) price average = averageAfter prev signed price average := by
  have sum : -prev + -signed = -(prev + signed) := by ring
  have out : -(prev + signed) = 0 ↔ prev + signed = 0 := neg_eq_zero
  have adding : -prev ≥ 0 ∧ -signed > 0 ∨ -prev ≤ 0 ∧ -signed < 0 ↔
      prev ≥ 0 ∧ signed > 0 ∨ prev ≤ 0 ∧ signed < 0 := by
    omega
  simp only [averageAfter, sum, isFlip_neg, out, adding, abs_neg]

end Fill

theorem newTrade_neg {position : ℤ} (held : position ≠ 0) (bar : BarEvent) :
    newTrade (-position) bar = trade (newTrade position bar) := by
  rcases lt_or_gt_of_ne held with short | long
  · simp [newTrade, trade, OrderSide.opposite, short, not_lt.mpr short.le]
  · simp [newTrade, trade, OrderSide.opposite, long, not_lt.mpr long.le]

theorem charged_neg (t : SimulatedTrade) (new : ℤ) (profit : ℚ) :
    (trade t).charged (-new) 0 (-profit) = trade (t.charged new 0 profit) := by
  simp only [SimulatedTrade.charged, trade, abs_neg, SimulatedTrade.mk.injEq, true_and]
  ring

theorem finalizeTrade_state (m : SimulatorState) (symbol : Symbol) (exitTs : Timestamp) :
    (state startingEquity m).finalizeTrade symbol exitTs =
      state startingEquity (m.finalizeTrade symbol exitTs) := by
  simp only [SimulatorState.finalizeTrade]
  have entry : (state startingEquity m).openTrades.get? symbol =
      (m.openTrades.get? symbol).map trade := Dict.get?_map trade _ _
  rw [entry]
  cases m.openTrades.get? symbol with
  | none => rfl
  | some t =>
    simp [state, Dict.map_erase, SimulatedTrade.recorded, record, trade]

/-- The trades of the opposite trader are the opposite ones. -/
theorem applyToTrade_state (m : SimulatorState) (prev new : ℤ) (profit : ℚ) (bar : BarEvent) :
    applyToTrade (state startingEquity m) (-prev) (-new) 0 (-profit) bar =
      state startingEquity (applyToTrade m prev new 0 profit bar) := by
  have first : opened (state startingEquity m) (-prev) (-new) bar =
      state startingEquity (opened m prev new bar) := by
    simp only [opened, neg_eq_zero, ne_eq]
    split
    next opens =>
      rw [newTrade_neg opens.2]
      simp only [state, Dict.map_set]
    next => rfl
  have second : ∀ m : SimulatorState, charged (state startingEquity m) (-new) 0 (-profit) bar.symbol =
      state startingEquity (charged m new 0 profit bar.symbol) := by
    intro m
    have entry : (state startingEquity m).openTrades.get? bar.symbol =
        (m.openTrades.get? bar.symbol).map trade := Dict.get?_map trade _ _
    simp only [charged, entry]
    cases m.openTrades.get? bar.symbol with
    | none => rfl
    | some t =>
      simp only [Option.map_some, charged_neg]
      simp only [state, Dict.map_set]
  have third : ∀ m : SimulatorState, concluded (state startingEquity m) (-prev) (-new) bar =
      state startingEquity (concluded m prev new bar) := by
    intro m
    simp only [concluded, neg_eq_zero, ne_eq, isFlip_neg, finalizeTrade_state]
    split
    · rfl
    · split
      next flip =>
        rw [newTrade_neg flip.2.1]
        simp only [state, Dict.map_set]
      next => rfl
  rw [applyToTrade_eq, applyToTrade_eq, first, second, third]

/-! ### Orders and bars -/

variable (broker : MarketSimulatorBroker)

theorem applyFill_state (m : SimulatorState) (p : PendingOrder) {quantity : ℤ} (price : ℚ)
    (bar : BarEvent) (positive : quantity > 0) :
    broker.frictionless.applyFill (state startingEquity m) (pending p) quantity price bar =
      state startingEquity (broker.frictionless.applyFill m p quantity price bar) := by
  have moves : quantity * p.request.side.sign ≠ 0 := by
    cases p.request.side <;> simp only [OrderSide.sign] <;> omega
  have signed : quantity * (pending p).request.side.sign = -(quantity * p.request.side.sign) := by
    simp [pending, request]
  have average : (state startingEquity m).averageEntry bar.symbol = m.averageEntry bar.symbol := rfl
  have free : broker.frictionless.commissionPerContract = 0 := rfl
  have sum : -m.position bar.symbol + -(quantity * p.request.side.sign) =
      -(m.position bar.symbol + quantity * p.request.side.sign) := by ring
  simp only [applyFill, signed, state_position, average, closingPnl_neg _ _ _ _ _ moves,
    averageAfter_neg, free, zero_mul, sum, applyToTrade_state]
  simp only [state, Dict.map_set, List.map_append, SimulatorState.mk.injEq, true_and, and_true]
  refine ⟨by ring, rfl, rfl⟩

theorem resolveOrder_state (m : SimulatorState) (bar : BarEvent) (p : PendingOrder) :
    broker.frictionless.resolveOrder (state startingEquity m) bar (pending p) =
      ((state startingEquity (broker.frictionless.resolveOrder m bar p).1),
        (broker.frictionless.resolveOrder m bar p).2.map pending) := by
  have size : broker.frictionless.determineFillQuantity (pending p) bar =
      broker.frictionless.determineFillQuantity p bar := rfl
  have price : referencePrice (pending p).request bar = referencePrice p.request bar := rfl
  have terms : (pending p).request.timeInForce = p.request.timeInForce := rfl
  have rest : (pending p).remainingQty = p.remainingQty := rfl
  simp only [resolveOrder, size, rest, terms, frictionless_computeFillPrice, price]
  by_cases positive : broker.frictionless.determineFillQuantity p bar > 0
  · simp only [if_pos positive, applyFill_state broker m p _ bar positive]
    split
    · rfl
    · split <;> rfl
  · simp only [if_neg positive]
    split
    · rfl
    · split <;> rfl

theorem resolveOrders_state (m : SimulatorState) (bar : BarEvent) (orders : List PendingOrder) :
    broker.frictionless.resolveOrders bar (state startingEquity m) (orders.map pending) =
      ((state startingEquity (broker.frictionless.resolveOrders bar m orders).1),
        (broker.frictionless.resolveOrders bar m orders).2.map pending) := by
  induction orders generalizing m with
  | nil => rfl
  | cons p rest ih =>
    simp only [List.map_cons, resolveOrders, resolveOrder_state, ih, List.map_append]
    cases (broker.frictionless.resolveOrder m bar p).2 with
    | none => rfl
    | some left => rfl

theorem updateHistory_state (m : SimulatorState) (bar : BarEvent) :
    broker.frictionless.updateHistory (state startingEquity m) bar =
      (broker.frictionless.updateHistory m bar).map (state startingEquity) := by
  have last : (state startingEquity m).lastBar = m.lastBar := rfl
  simp only [updateHistory, last]
  cases m.lastBar.get? bar.symbol with
  | none => rfl
  | some prev =>
    dsimp only
    split
    · split <;> rfl
    · rfl

theorem processedBar_state (m : SimulatorState) (bar : BarEvent) :
    SimulatedDesk.processedBar broker.frictionless (state startingEquity m) bar =
      state startingEquity (SimulatedDesk.processedBar broker.frictionless m bar) := by
  simp only [SimulatedDesk.processedBar, processBar, updateHistory_state]
  cases broker.frictionless.updateHistory m bar with
  | error message => rfl
  | ok counted =>
    simp only [Except.map, bind, Except.bind, pure, Except.pure, resolvePendingOrders, state_waiting,
      resolveOrders_state]
    simp only [state, Dict.map_set]

/-! ### Calls -/

theorem placeOrder_state (m : SimulatorState) (r : BrokerOrderRequest) :
    (state startingEquity m).placeOrder (request r) = state startingEquity (m.placeOrder r) := by
  have symbol : (request r).symbol = r.symbol := rfl
  simp only [SimulatorState.placeOrder, SimulatorState.put, symbol, state_waiting]
  simp only [state, Dict.map_set, List.map_append]
  rfl

theorem cancelOrder_state (m : SimulatorState) (orderId : OrderId) :
    (state startingEquity m).cancelOrder orderId = state startingEquity (m.cancelOrder orderId) := by
  have swept : ∀ (keys : List Symbol) (orders : Dict Symbol (List PendingOrder)),
      keys.foldl (fun left symbol =>
          left.set symbol ((left.getD symbol []).filter (·.request.orderId ≠ orderId)))
        (orders.map fun waiting => waiting.map pending) =
      (keys.foldl (fun left symbol =>
          left.set symbol ((left.getD symbol []).filter (·.request.orderId ≠ orderId)))
        orders).map fun waiting => waiting.map pending := by
    intro keys
    induction keys with
    | nil => exact fun _ => rfl
    | cons key rest ih =>
      intro orders
      have waiting : (orders.map fun waiting => waiting.map pending).getD key [] =
          (orders.getD key []).map pending :=
        orders.getD_map (fun waiting => waiting.map pending) key []
      rw [List.foldl_cons, List.foldl_cons, waiting, List.filter_map, ← ih, Dict.map_set]
      rfl
  have keys : (state startingEquity m).pendingOrders.keys = m.pendingOrders.keys :=
    m.pendingOrders.keys_map _
  simp only [SimulatorState.cancelOrder, keys]
  simp only [state, swept]

/-- Each call does the opposite for the opposite trader. -/
theorem called_state (m : SimulatorState) (c : Call) :
    called broker.frictionless (state startingEquity m) (call c) =
      state startingEquity (called broker.frictionless m c) := by
  cases c with
  | placeOrder r => exact placeOrder_state m r
  | cancelOrder orderId => exact cancelOrder_state m orderId
  | cancelAll => rfl
  | processBar bar => exact processedBar_state broker m bar

/-- Without costs, a backtest with buying and selling exchanged ends with the opposite positions,
the opposite trades and fills, and the same waiting orders the other way around; its loss is the
other's gain. -/
theorem sides_mirrored (startingEquity : ℚ) (calls : List Call) :
    after broker.frictionless startingEquity (calls.map call) =
      state startingEquity (after broker.frictionless startingEquity calls) := by
  induction calls using List.reverseRecOn with
  | nil =>
    simp only [List.map_nil, after, List.foldl_nil, state, Dict.map_empty, List.map_nil]
    congr 1
    ring
  | append_singleton before c ih =>
    rw [after] at ih ⊢
    rw [List.map_append, List.foldl_append, ih, List.map_singleton, List.foldl_cons, List.foldl_nil,
      called_state, after, after, List.foldl_append]
    rfl

end MirroredTrades

end Binbot
