import Binbot.Properties.OrderConservation
import Binbot.Properties.SimulatorLedger

/-!
# What spread, impact and commission cost (`backtest/market_simulator.py`)

The same orders and bars, given to the simulator and to one without costs, are filled in the
same sizes by the same bars. The first has less cash, by what its fills cost.
-/
namespace Binbot

open Data
open SimulatedOco (Call)

/-- The same market without spread, impact and commission. -/
def MarketSimulatorBroker.frictionless (broker : MarketSimulatorBroker) : MarketSimulatorBroker :=
  { broker with
    impact := { broker.impact with impactCoefficient := 0, spreadCaptureFraction := 0 }
    commissionPerContract := 0 }

namespace TradingCosts

open JournaledSimulator MarketSimulatorBroker

variable (broker : MarketSimulatorBroker)

/-- The simulator after some calls. -/
def after (startingEquity : ℚ) (calls : List Call) : SimulatorState :=
  calls.foldl (called broker) { equity := startingEquity }

/-- The parameters of the cost model are not negative, and neither are roots. -/
structure Sane : Prop where
  impact : 0 ≤ broker.impact.impactCoefficient
  spread : 0 ≤ broker.impact.spreadCaptureFraction
  commission : 0 ≤ broker.commissionPerContract
  sqrt : ∀ x, 0 ≤ broker.maths.sqrt x

/-- No price is negative. -/
def Quoted : Call → Prop
  | .placeOrder request => 0 ≤ request.limitPrice.getD 0
  | .processBar bar => 0 ≤ bar.open_ ∧ 0 ≤ bar.close
  | _ => True

/-- One fill of an order, with costs and without: at a worse price, or the same. -/
structure Counterpart (e ideal : ExecutionEvent) : Prop where
  same : ideal = { e with fillPrice := ideal.fillPrice, commission := 0 }
  worse : 0 ≤ (e.fillPrice - ideal.fillPrice) * e.side.sign
  size : 0 < e.fillQuantity
  commission : e.commission = broker.commissionPerContract * e.fillQuantity

/-- What a fill costs: its commission, and how far its price lies from the reference. -/
def cost (e ideal : ExecutionEvent) : ℚ :=
  e.commission +
    |e.fillPrice - ideal.fillPrice| * e.fillQuantity * broker.multiplier e.symbol

/-- What all fills cost. -/
def costs (fills ideals : List ExecutionEvent) : ℚ :=
  (List.zipWith (cost broker) fills ideals).sum

/-- The equity less what the open positions cost. -/
def cash (m : SimulatorState) : ℚ := m.equity - SimulatorLedger.bookValue broker m

/-- The two simulators differ in money only. -/
structure Alike (m ideal : SimulatorState) : Prop where
  positions : ideal.positions = m.positions
  pendingOrders : ideal.pendingOrders = m.pendingOrders
  lastBar : ideal.lastBar = m.lastBar
  volumeHistory : ideal.volumeHistory = m.volumeHistory
  returnHistory : ideal.returnHistory = m.returnHistory
  fills : List.Forall₂ (Counterpart broker) m.fills ideal.fills

/-- No waiting order has a negative limit. -/
def LimitsQuoted (m : SimulatorState) : Prop :=
  ∀ symbol, ∀ p ∈ m.waiting symbol, 0 ≤ p.request.limitPrice.getD 0

variable {broker} {m ideal : SimulatorState}

/-! ### One fill -/

@[simp] theorem frictionless_computeFillPrice (m : SimulatorState) (pending : PendingOrder)
    (bar : BarEvent) (fillQty : ℤ) :
    broker.frictionless.computeFillPrice m pending bar fillQty =
      referencePrice pending.request bar := by
  simp [computeFillPrice_eq, frictionless, sqrtMarketImpactBps_eq]

theorem referencePrice_nonneg {request : BrokerOrderRequest} {bar : BarEvent}
    (limit : 0 ≤ request.limitPrice.getD 0) (quoted : 0 ≤ bar.open_ ∧ 0 ≤ bar.close) :
    0 ≤ referencePrice request bar := by
  rw [referencePrice]
  split
  · split
    · exact quoted.2
    · exact limit
  · exact quoted.1

theorem realizedVolPct_nonneg (sane : Sane broker) (m : SimulatorState) (symbol : Symbol) :
    0 ≤ broker.realizedVolPct m symbol := by
  rw [realizedVolPct]
  dsimp only
  split
  · exact zero_le_one
  · exact mul_nonneg (mul_nonneg (sane.sqrt _) (sane.sqrt _)) (by norm_num)

theorem sqrtMarketImpactBps_nonneg (sane : Sane broker) {vol : ℚ} (positive : 0 ≤ vol)
    (quantity : ℤ) (volume : ℚ) : 0 ≤ broker.sqrtMarketImpactBps quantity volume vol := by
  rw [sqrtMarketImpactBps_eq]
  split
  · exact le_rfl
  · exact mul_nonneg (mul_nonneg sane.impact (by positivity)) (sane.sqrt _)

/-- Spread and impact move the price against the order. -/
theorem computeFillPrice_worse (sane : Sane broker) (m : SimulatorState) {pending : PendingOrder}
    {bar : BarEvent} (reference : 0 ≤ referencePrice pending.request bar) (fillQty : ℤ) :
    0 ≤ (broker.computeFillPrice m pending bar fillQty - referencePrice pending.request bar) *
      pending.request.side.sign := by
  have range : 0 ≤ max (bar.high - bar.low) (1 / 1000000000) * broker.impact.spreadCaptureFraction :=
    mul_nonneg (le_max_of_le_right (by norm_num)) sane.spread
  have impact : 0 ≤ referencePrice pending.request bar *
      broker.sqrtMarketImpactBps fillQty (max bar.volume 1) (broker.realizedVolPct m bar.symbol) :=
    mul_nonneg reference (sqrtMarketImpactBps_nonneg sane (realizedVolPct_nonneg sane m _) _ _)
  simp only [computeFillPrice_eq]
  cases pending.request.side with
  | buy =>
    simp only [OrderSide.sign]
    push_cast
    linarith
  | sell =>
    simp only [OrderSide.sign]
    push_cast
    linarith

theorem apply_volumeHistory (m : SimulatorState) (fill : Fill) :
    (broker.apply m fill).volumeHistory = m.volumeHistory := by
  rw [apply, applyFill, applyToTrade, SimulatorState.finalizeTrade]
  dsimp only
  repeat' split
  all_goals rfl

theorem Alike.apply (alike : Alike broker m ideal) (fill free : Fill)
    (pending : free.pending = fill.pending) (quantity : free.quantity = fill.quantity)
    (bar : free.bar = fill.bar)
    (worse : 0 ≤ (fill.price - free.price) * fill.pending.request.side.sign) :
    Alike broker (broker.apply m fill) (broker.frictionless.apply ideal free) := by
  obtain ⟨orders, returns, last⟩ := broker.apply_frame m fill
  obtain ⟨orders', returns', last'⟩ := broker.frictionless.apply_frame ideal free
  have signed : free.signedQuantity = fill.signedQuantity := by
    rw [Fill.signedQuantity, Fill.signedQuantity, pending, quantity]
  constructor
  · rw [apply_positions, apply_positions, signed, bar, SimulatorState.position,
      SimulatorState.position, alike.positions]
  · rw [orders, orders', alike.pendingOrders]
  · rw [last, last', alike.lastBar]
  · rw [apply_volumeHistory, apply_volumeHistory, alike.volumeHistory]
  · rw [returns, returns', alike.returnHistory]
  · rw [apply_fills, apply_fills]
    refine List.rel_append alike.fills (List.Forall₂.cons ⟨?_, worse, fill.positive, rfl⟩ .nil)
    simp [report, execution, pending, quantity, bar, frictionless]

/-! ### Orders and bars -/

/-- One order against a bar: filled in both, in the same size, or in neither. -/
theorem Alike.resolveOrder (sane : Sane broker) (alike : Alike broker m ideal) {bar : BarEvent}
    {pending : PendingOrder} (reference : 0 ≤ referencePrice pending.request bar) :
    Alike broker (broker.resolveOrder m bar pending).1
      (broker.frictionless.resolveOrder ideal bar pending).1 := by
  have size : broker.frictionless.determineFillQuantity pending bar =
      broker.determineFillQuantity pending bar := rfl
  simp only [MarketSimulatorBroker.resolveOrder, size]
  by_cases positive : broker.determineFillQuantity pending bar > 0
  · simp only [if_pos positive, frictionless_computeFillPrice]
    have worse := computeFillPrice_worse sane m reference (broker.determineFillQuantity pending bar)
    let fill : Fill := ⟨pending, broker.determineFillQuantity pending bar,
      broker.computeFillPrice m pending bar (broker.determineFillQuantity pending bar), bar, positive⟩
    have filled := alike.apply fill { fill with price := referencePrice pending.request bar }
      rfl rfl rfl worse
    -- what is carried forward makes no difference to the books
    split
    · exact filled
    · split <;> exact filled
  · simp only [if_neg positive]
    split
    · exact alike
    · split <;> exact alike

theorem Alike.resolveOrders (sane : Sane broker) {bar : BarEvent} {orders : List PendingOrder}
    (references : ∀ p ∈ orders, 0 ≤ referencePrice p.request bar) (alike : Alike broker m ideal) :
    Alike broker (broker.resolveOrders bar m orders).1
        (broker.frictionless.resolveOrders bar ideal orders).1 ∧
      (broker.frictionless.resolveOrders bar ideal orders).2 =
        (broker.resolveOrders bar m orders).2 := by
  constructor
  · induction orders generalizing m ideal with
    | nil => exact alike
    | cons pending rest ih =>
      obtain ⟨here, later⟩ := List.forall_mem_cons.mp references
      exact ih later (alike.resolveOrder sane here)
  · rw [resolveOrders_snd, resolveOrders_snd]
    rfl

/-- A bar raises in both or in neither, and is counted alike. -/
theorem Alike.updateHistory (alike : Alike broker m ideal) (bar : BarEvent) :
    (∃ message, broker.updateHistory m bar = .error message ∧
      broker.frictionless.updateHistory ideal bar = .error message) ∨
    ∃ counted counted', broker.updateHistory m bar = .ok counted ∧
      broker.frictionless.updateHistory ideal bar = .ok counted' ∧
      Alike broker counted counted' ∧ counted.pendingOrders = m.pendingOrders := by
  obtain ⟨positions, pendingOrders, lastBar, volumes, returns, fills⟩ := alike
  simp only [MarketSimulatorBroker.updateHistory, lastBar, volumes, returns]
  cases m.lastBar.get? bar.symbol with
  | none => exact .inr ⟨_, _, rfl, rfl, ⟨positions, pendingOrders, rfl, rfl, rfl, fills⟩, rfl⟩
  | some prev =>
    dsimp only
    split
    · split
      · exact .inl ⟨_, rfl, rfl⟩
      · exact .inr ⟨_, _, rfl, rfl, ⟨positions, pendingOrders, rfl, rfl, rfl, fills⟩, rfl⟩
    · exact .inr ⟨_, _, rfl, rfl, ⟨positions, pendingOrders, rfl, rfl, rfl, fills⟩, rfl⟩

theorem Alike.processedBar (sane : Sane broker) (alike : Alike broker m ideal)
    (limits : LimitsQuoted m) {bar : BarEvent} (quoted : 0 ≤ bar.open_ ∧ 0 ≤ bar.close) :
    Alike broker (SimulatedDesk.processedBar broker m bar)
      (SimulatedDesk.processedBar broker.frictionless ideal bar) := by
  simp only [SimulatedDesk.processedBar, processBar]
  rcases alike.updateHistory bar with
    ⟨message, here, there⟩ | ⟨counted, counted', here, there, history, orders⟩
  · rw [here, there]
    simp only [bind, Except.bind, alike.volumeHistory]
    exact ⟨alike.positions, alike.pendingOrders, alike.lastBar, rfl, alike.returnHistory,
      alike.fills⟩
  · have references : ∀ p ∈ counted.pendingOrders.getD bar.symbol [],
        0 ≤ referencePrice p.request bar := by
      intro p member
      rw [orders] at member
      exact referencePrice_nonneg (limits bar.symbol p member) quoted
    obtain ⟨resolved, carried⟩ := history.resolveOrders sane references
    obtain ⟨positions, pendingOrders, lastBar, volumes, returns, fills⟩ := resolved
    rw [here, there]
    simp only [bind, Except.bind, pure, Except.pure, resolvePendingOrders, history.pendingOrders,
      carried, pendingOrders, lastBar]
    exact ⟨positions, rfl, rfl, volumes, returns, fills⟩

/-- A call keeps the two alike. -/
theorem Alike.called (sane : Sane broker) (alike : Alike broker m ideal) (limits : LimitsQuoted m)
    {call : Call} (quoted : Quoted call) :
    Alike broker (called broker m call) (called broker.frictionless ideal call) := by
  cases call with
  | placeOrder request =>
    obtain ⟨positions, pendingOrders, lastBar, volumes, returns, fills⟩ := alike
    refine ⟨positions, ?_, lastBar, volumes, returns, fills⟩
    simp [JournaledSimulator.called, SimulatorState.placeOrder, SimulatorState.put,
      SimulatorState.pendingOrder, pendingOrders, lastBar]
  | cancelOrder orderId =>
    obtain ⟨positions, pendingOrders, lastBar, volumes, returns, fills⟩ := alike
    refine ⟨positions, ?_, lastBar, volumes, returns, fills⟩
    simp [JournaledSimulator.called, SimulatorState.cancelOrder, pendingOrders]
  | cancelAll =>
    obtain ⟨positions, pendingOrders, lastBar, volumes, returns, fills⟩ := alike
    exact ⟨positions, rfl, lastBar, volumes, returns, fills⟩
  | processBar bar => exact alike.processedBar sane limits quoted

theorem LimitsQuoted.called (limits : LimitsQuoted m) {call : Call} (quoted : Quoted call) :
    LimitsQuoted (called broker m call) := by
  cases call with
  | placeOrder request =>
    intro symbol p member
    rw [JournaledSimulator.called, SimulatorState.waiting, placeOrder_pending] at member
    split at member
    · rcases List.mem_append.mp member with old | new
      · exact limits symbol p old
      · rw [List.mem_singleton.mp new]
        exact quoted
    · exact limits symbol p member
  | cancelOrder orderId =>
    intro symbol p member
    rw [JournaledSimulator.called, SimulatorState.cancelOrder_waiting] at member
    exact limits symbol p (List.mem_of_mem_filter member)
  | cancelAll =>
    intro symbol p member
    simp [JournaledSimulator.called, SimulatorState.cancelAll, SimulatorState.waiting,
      Dict.getD] at member
  | processBar bar =>
    intro symbol p member
    rw [JournaledSimulator.called] at member
    rcases SimulatedDesk.processedBar_cases broker m bar with ⟨-, fills, resolved⟩ | ⟨-, -, same, -⟩
    · rw [resolved.waiting] at member
      split at member
      · obtain ⟨pending, old, carried⟩ := List.mem_filterMap.mp member
        rw [(broker.carried_some carried).1]
        exact limits symbol pending old
      · exact limits symbol p member
    · rw [same] at member
      exact limits symbol p member

/-! ### The books -/

/-- The books rest on the equity, the positions, their entry prices and the fills. -/
theorem books_congr {startingEquity : ℚ} {m m' : SimulatorState}
    (books : SimulatorLedger.Books broker startingEquity m) (equity : m'.equity = m.equity)
    (positions : m'.positions = m.positions) (averages : m'.avgEntryPrice = m.avgEntryPrice)
    (fills : m'.fills = m.fills) : SimulatorLedger.Books broker startingEquity m' := by
  obtain ⟨cash, held, flat⟩ := books
  have cost : SimulatorLedger.cost broker m' = SimulatorLedger.cost broker m := by
    funext symbol position
    simp only [SimulatorLedger.cost, SimulatorState.averageEntry, averages]
  constructor
  · rw [equity, fills, cash, SimulatorLedger.bookValue, SimulatorLedger.bookValue, positions, cost]
  · simpa only [SimulatorState.position, positions, fills] using held
  · simpa only [SimulatorState.position, SimulatorState.averageEntry, positions, averages] using flat

theorem books_applyFills {startingEquity : ℚ} (fills : List Fill)
    (books : SimulatorLedger.Books broker startingEquity m) :
    SimulatorLedger.Books broker startingEquity (broker.applyFills m fills) := by
  induction fills generalizing m with
  | nil => exact books
  | cons fill rest ih => exact ih (books.apply fill)

theorem books_called {startingEquity : ℚ} (books : SimulatorLedger.Books broker startingEquity m)
    (call : Call) : SimulatorLedger.Books broker startingEquity (called broker m call) := by
  cases call with
  | processBar bar =>
    rw [JournaledSimulator.called, SimulatedDesk.processedBar]
    split
    next after processed =>
      obtain ⟨counted, ⟨volumes, returns, rfl⟩, rfl⟩ := broker.processBar_ok processed
      obtain ⟨fills, -, -, -, applied⟩ := broker.resolveOrders_fst bar
        { m with volumeHistory := volumes, returnHistory := returns }
        (m.pendingOrders.getD bar.symbol [])
      have counted : SimulatorLedger.Books broker startingEquity
          { m with volumeHistory := volumes, returnHistory := returns } :=
        books_congr books rfl rfl rfl rfl
      have filled := books_applyFills fills counted
      rw [← applied] at filled
      exact books_congr filled rfl rfl rfl rfl
    next message raised => exact books_congr books rfl rfl rfl rfl
  | _ => exact books_congr books rfl rfl rfl rfl

theorem cash_eq {startingEquity : ℚ} (books : SimulatorLedger.Books broker startingEquity m) :
    cash broker m =
      startingEquity - SimulatorLedger.commissions m.fills - SimulatorLedger.paid broker m.fills := by
  rw [cash, books.cash, add_sub_cancel_right]

/-- The two sums of payments differ by what the fills cost. -/
theorem costs_eq {fills ideals : List ExecutionEvent}
    (counterparts : List.Forall₂ (Counterpart broker) fills ideals) :
    SimulatorLedger.commissions fills + SimulatorLedger.paid broker fills =
      SimulatorLedger.paid broker ideals + costs broker fills ideals := by
  induction counterparts with
  | nil => simp [SimulatorLedger.commissions, SimulatorLedger.paid, costs]
  | @cons e ideal fills ideals first rest ih =>
    obtain ⟨same, worse, -, -⟩ := first
    have distance : |e.fillPrice - ideal.fillPrice| =
        (e.fillPrice - ideal.fillPrice) * e.side.sign := by
      rw [← abs_of_nonneg worse, abs_mul]
      cases e.side <;> simp [OrderSide.sign]
    have symbol : ideal.symbol = e.symbol := by rw [same]
    have signed : ideal.signedFill = e.signedFill := by rw [same]; rfl
    have size : (e.signedFill : ℚ) = e.fillQuantity * e.side.sign := by
      simp [ExecutionEvent.signedFill]
    simp only [SimulatorLedger.commissions, SimulatorLedger.paid, costs, List.map_cons,
      List.sum_cons, List.zipWith_cons_cons, cost, distance, symbol, signed, size] at ih ⊢
    linarith

theorem commissions_ideal {fills ideals : List ExecutionEvent}
    (counterparts : List.Forall₂ (Counterpart broker) fills ideals) :
    SimulatorLedger.commissions ideals = 0 := by
  induction counterparts with
  | nil => rfl
  | cons first rest ih =>
    rw [SimulatorLedger.commissions, List.map_cons, List.sum_cons, first.same]
    simpa [SimulatorLedger.commissions] using ih

/-- No fill costs less than nothing. -/
theorem costs_nonneg (sane : Sane broker) (multipliers : ∀ symbol, 0 ≤ broker.multiplier symbol)
    {fills ideals : List ExecutionEvent}
    (counterparts : List.Forall₂ (Counterpart broker) fills ideals) :
    0 ≤ costs broker fills ideals := by
  induction counterparts with
  | nil => simp [costs]
  | @cons e ideal fills ideals first rest ih =>
    obtain ⟨-, -, size, commission⟩ := first
    rw [costs, List.zipWith_cons_cons, List.sum_cons]
    have quantity : (0 : ℚ) ≤ e.fillQuantity := by exact_mod_cast size.le
    refine add_nonneg ?_ ih
    rw [cost, commission]
    exact add_nonneg (mul_nonneg sane.commission quantity)
      (mul_nonneg (mul_nonneg (abs_nonneg _) quantity) (multipliers _))

theorem bookValue_flat (flat : ∀ symbol, m.position symbol = 0) :
    SimulatorLedger.bookValue broker m = 0 := by
  rw [SimulatorLedger.bookValue, Dict.sum]
  apply List.sum_eq_zero
  intro value member
  obtain ⟨⟨symbol, position⟩, entry, rfl⟩ := List.mem_map.mp member
  have held := flat symbol
  rw [SimulatorState.position, Dict.getD, (Dict.mem_entries_iff _ symbol position).mp entry] at held
  simp only [Option.getD_some] at held
  simp [SimulatorLedger.cost, held]

/-- Where the two simulators stand after the same calls. -/
structure Run (broker : MarketSimulatorBroker) (startingEquity : ℚ) (m ideal : SimulatorState) :
    Prop where
  alike : Alike broker m ideal
  limits : LimitsQuoted m
  books : SimulatorLedger.Books broker startingEquity m
  idealBooks : SimulatorLedger.Books broker.frictionless startingEquity ideal

variable (broker) in
theorem run_started (startingEquity : ℚ) :
    Run broker startingEquity { equity := startingEquity } { equity := startingEquity } where
  alike := ⟨rfl, rfl, rfl, rfl, rfl, .nil⟩
  limits := by simp [LimitsQuoted, SimulatorState.waiting, Dict.getD]
  books := SimulatorLedger.books_started broker startingEquity
  idealBooks := SimulatorLedger.books_started broker.frictionless startingEquity

theorem Run.calls (sane : Sane broker) {startingEquity : ℚ} (run : Run broker startingEquity m ideal)
    (calls : List Call) (quoted : ∀ call ∈ calls, Quoted call) :
    Run broker startingEquity (calls.foldl (called broker) m)
      (calls.foldl (called broker.frictionless) ideal) := by
  induction calls generalizing m ideal with
  | nil => exact run
  | cons call rest ih =>
    obtain ⟨first, later⟩ := List.forall_mem_cons.mp quoted
    refine ih ⟨?_, ?_, ?_, ?_⟩ later
    · exact run.alike.called sane run.limits first
    · exact run.limits.called first
    · exact books_called run.books call
    · exact books_called run.idealBooks call

/-- After the same orders and bars, with no negative price among them, a simulator holds what
one without costs does, by the same fills at no better prices. Its cash is lower by what its
fills cost, and so is its equity whenever it is flat. -/
theorem costs_only_hurt (broker : MarketSimulatorBroker) (sane : Sane broker)
    (multipliers : ∀ symbol, 0 ≤ broker.multiplier symbol) (startingEquity : ℚ)
    (calls : List Call) (quoted : ∀ call ∈ calls, Quoted call) :
    let m := after broker startingEquity calls
    let ideal := after broker.frictionless startingEquity calls
    Alike broker m ideal ∧ 0 ≤ costs broker m.fills ideal.fills ∧
      cash broker ideal = cash broker m + costs broker m.fills ideal.fills ∧
      ((∀ symbol, m.position symbol = 0) →
        ideal.equity = m.equity + costs broker m.fills ideal.fills) := by
  intro m ideal
  obtain ⟨alike, -, books, idealBooks⟩ :=
    (run_started broker startingEquity).calls sane calls quoted
  change Alike broker m ideal at alike
  have gap : cash broker ideal = cash broker m + costs broker m.fills ideal.fills := by
    have spent := costs_eq alike.fills
    have none := commissions_ideal alike.fills
    have real : cash broker m = startingEquity - SimulatorLedger.commissions m.fills -
      SimulatorLedger.paid broker m.fills := cash_eq books
    -- both value a position at the same multipliers
    have free : cash broker.frictionless ideal =
      startingEquity - SimulatorLedger.commissions ideal.fills -
        SimulatorLedger.paid broker ideal.fills := cash_eq idealBooks
    change cash broker ideal = _ at free
    rw [real, free, none]
    linarith
  refine ⟨alike, costs_nonneg sane multipliers alike.fills, gap, ?_⟩
  intro flat
  have flatIdeal : ∀ symbol, ideal.position symbol = 0 := by
    simpa only [SimulatorState.position, alike.positions] using flat
  rw [cash, cash, bookValue_flat flat, bookValue_flat flatIdeal] at gap
  linarith

/-- A round trip of two contracts. -/
def roundTrip : List Call :=
  [.processBar (SimulatorLedger.barAt 0), .placeOrder (SimulatorLedger.order 0 .buy),
    .processBar (SimulatorLedger.barAt 1), .placeOrder (SimulatorLedger.order 1 .sell),
    .processBar (SimulatorLedger.barAt 2)]

theorem sane_desk : Sane SimulatorLedger.desk where
  impact := by norm_num [SimulatorLedger.desk]
  spread := by norm_num [SimulatorLedger.desk]
  commission := by norm_num [SimulatorLedger.desk]
  sqrt x := by
    simp only [SimulatorLedger.desk]
    positivity

theorem costs_only_hurt_roundTrip :
    (after SimulatorLedger.desk.frictionless 1000 roundTrip).equity =
        (after SimulatorLedger.desk 1000 roundTrip).equity +
          costs SimulatorLedger.desk (after SimulatorLedger.desk 1000 roundTrip).fills
            (after SimulatorLedger.desk.frictionless 1000 roundTrip).fills ∧
      (after SimulatorLedger.desk 1000 roundTrip).equity < 1000 := by
  have multipliers : ∀ symbol, 0 ≤ SimulatorLedger.desk.multiplier symbol := fun _ => by
    simp [MarketSimulatorBroker.multiplier, SimulatorLedger.desk, Dict.getD]
  have quoted : ∀ call ∈ roundTrip, Quoted call := by
    simp [roundTrip, Quoted, SimulatorLedger.barAt, SimulatorLedger.order]
  obtain ⟨-, -, -, flat⟩ := costs_only_hurt SimulatorLedger.desk sane_desk multipliers 1000
    roundTrip quoted
  refine ⟨flat fun symbol => ?_, by decide +kernel⟩
  have held : (after SimulatorLedger.desk 1000 roundTrip).positions.entries = [("ES", 0)] := by
    decide +kernel
  simp only [SimulatorState.position, Dict.getD, Dict.get?, held, Dict.lookup]
  split <;> rfl

end TradingCosts

end Binbot
