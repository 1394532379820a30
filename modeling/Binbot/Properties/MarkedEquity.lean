import Binbot.Properties.PositionLimit

/-!
# The equity that a backtest feeds to its risk controls

The simulator's equity moves on fills only. So what the engine records at the end of a bar, and
feeds to the circuit breaker, is the mark-to-market equity exactly where the open positions are
together worth what they cost.
-/
namespace Binbot

open Data

/-- The books of a list of fills, kept at average cost. -/
structure CostBook where
  position : Symbol → ℤ := fun _ => 0
  average : Symbol → ℚ := fun _ => 0
  realized : ℚ := 0
  commissions : ℚ := 0

namespace CostBook

def fill (multiplier : Symbol → ℚ) (book : CostBook) (event : ExecutionEvent) : CostBook :=
  let held := book.position event.symbol
  let average := book.average event.symbol
  { position := Function.update book.position event.symbol (held + event.signedFill)
    average := Function.update book.average event.symbol
      (averageAfter held event.signedFill event.fillPrice average)
    realized := book.realized +
      closingPnl held event.signedFill event.fillPrice average (multiplier event.symbol)
    commissions := book.commissions + event.commission }

def ofFills (multiplier : Symbol → ℚ) (fills : List ExecutionEvent) : CostBook :=
  fills.foldl (fill multiplier) {}

theorem ofFills_append (multiplier : Symbol → ℚ) (fills : List ExecutionEvent)
    (event : ExecutionEvent) :
    ofFills multiplier (fills ++ [event]) = (ofFills multiplier fills).fill multiplier event := by
  rw [ofFills, List.foldl_append]
  rfl

end CostBook

namespace MarkedEquity

/-- The simulator keeps the books of its fills, and folds the realized profit into the equity. -/
structure Agrees (broker : MarketSimulatorBroker) (startingEquity : ℚ) (m : SimulatorState) :
    Prop where
  equity : m.equity = startingEquity + (CostBook.ofFills broker.multiplier m.fills).realized -
    (CostBook.ofFills broker.multiplier m.fills).commissions
  position : ∀ symbol, m.position symbol =
    (CostBook.ofFills broker.multiplier m.fills).position symbol
  average : ∀ symbol, m.averageEntry symbol =
    (CostBook.ofFills broker.multiplier m.fills).average symbol

section Simulator

variable {broker : MarketSimulatorBroker} {startingEquity : ℚ} {m m' : SimulatorState}

theorem Agrees.apply (agrees : Agrees broker startingEquity m) (fill : Fill) :
    Agrees broker startingEquity (broker.apply m fill) := by
  have here := agrees.position fill.bar.symbol
  have cost := agrees.average fill.bar.symbol
  constructor
  · rw [MarketSimulatorBroker.apply_equity, MarketSimulatorBroker.apply_fills,
      CostBook.ofFills_append, agrees.equity, MarketSimulatorBroker.profit, here, cost]
    simp only [CostBook.fill, MarketSimulatorBroker.report_signedFill,
      MarketSimulatorBroker.report_symbol]
    rw [show (broker.report fill).fillPrice = fill.price from rfl,
      show (broker.report fill).commission = broker.commissionPerContract * fill.quantity from rfl]
    ring
  · intro symbol
    rw [MarketSimulatorBroker.apply_position, MarketSimulatorBroker.apply_fills,
      CostBook.ofFills_append, agrees.position symbol]
    by_cases same : symbol = fill.bar.symbol
    · subst same
      simp [CostBook.fill]
    · simp [CostBook.fill, same]
  · intro symbol
    rw [MarketSimulatorBroker.apply_averageEntry, MarketSimulatorBroker.apply_fills,
      CostBook.ofFills_append]
    by_cases same : symbol = fill.bar.symbol
    · subst same
      rw [if_pos rfl, here, cost]
      simp only [CostBook.fill, MarketSimulatorBroker.report_signedFill,
        MarketSimulatorBroker.report_symbol, Function.update_self]
      rfl
    · rw [if_neg same, agrees.average symbol]
      simp [CostBook.fill, same]

theorem Agrees.applyFills (agrees : Agrees broker startingEquity m) (fills : List Fill) :
    Agrees broker startingEquity (broker.applyFills m fills) := by
  induction fills generalizing m with
  | nil => exact agrees
  | cons fill rest ih => exact ih (agrees.apply fill)

/-- A bar changes the books by its fills only. -/
theorem Agrees.processBar {bar : BarEvent} (agrees : Agrees broker startingEquity m)
    (processed : broker.processBar m bar = .ok m') : Agrees broker startingEquity m' := by
  obtain ⟨counted, ⟨volumes, returns, rfl⟩, rfl⟩ := broker.processBar_ok processed
  obtain ⟨fills, -, -, -, applied⟩ := broker.resolveOrders_fst bar
    { m with volumeHistory := volumes, returnHistory := returns }
    (m.pendingOrders.getD bar.symbol [])
  have counted : Agrees broker startingEquity
      { m with volumeHistory := volumes, returnHistory := returns } :=
    ⟨agrees.equity, agrees.position, agrees.average⟩
  have kept := counted.applyFills fills
  rw [← applied] at kept
  exact ⟨kept.equity, kept.position, kept.average⟩

theorem agrees_started : Agrees broker startingEquity { equity := startingEquity } where
  equity := by simp [CostBook.ofFills]
  position := by simp [CostBook.ofFills, SimulatorState.position, Dict.getD]
  average := by simp [CostBook.ofFills, SimulatorState.averageEntry, Dict.getD]

end Simulator

/-! ### Runs -/

open BacktestEngine

variable (engine : BacktestEngine)

/-- What the open positions have gained since they were entered, at the last closes. -/
def unrealizedPnl (r : Replay) : ℚ :=
  r.simulator.positions.sum fun symbol position =>
    position * (r.lastPrice.getD symbol 0 - r.simulator.averageEntry symbol) *
      engine.broker.multiplier symbol

/-- Starting equity, realized profit, commissions and open positions. -/
def markToMarket (startingEquity : ℚ) (r : Replay) : ℚ :=
  let book := CostBook.ofFills engine.broker.multiplier r.simulator.fills
  startingEquity + book.realized - book.commissions + unrealizedPnl engine r

/-- The end of a bar records the mark-to-market equity, and updates the breaker with it. -/
def Marked (startingEquity : ℚ) (r : Replay) (_ : Unit) : Prop :=
  match r.phase with
  | .reacting bar [] =>
    (closeBar r bar).equityCurve = r.equityCurve ++ [markToMarket engine startingEquity r] ∧
      (closeBar r bar).riskEngine.circuitBreaker =
        (r.riskEngine.circuitBreaker.update (markToMarket engine startingEquity r) bar.ts).1
  | _ => True

/-- At the end of a bar the open positions are together worth what they cost. -/
def AtCost (r : Replay) (_ : Unit) : Prop :=
  match r.phase with
  | .reacting _ [] => unrealizedPnl engine r = 0
  | _ => True

instance (r : Replay) (u : Unit) : Decidable (AtCost engine r u) :=
  match phase : r.phase with
  | .reacting _ [] => decidable_of_iff (unrealizedPnl engine r = 0) (by simp [AtCost, phase])
  | .reacting _ (_ :: _) | .betweenBars | .halted | .raised _ => .isTrue (by simp [AtCost, phase])

variable {engine} {startingEquity : ℚ} {r t : Replay}

theorem agrees_begin {riskEngine : RiskEngine} {bars : List BarEvent}
    (begun : BacktestEngine.begin riskEngine startingEquity bars = .ok r) :
    Agrees engine.broker startingEquity r.simulator := by
  rw [BacktestEngine.begin] at begun
  split at begun
  · cases begun
  · cases begun
    exact agrees_started

theorem agrees_step {u : Unit} (agrees : Agrees engine.broker startingEquity r.simulator)
    (moved : engine.step r u = some t) : Agrees engine.broker startingEquity t.simulator := by
  rw [step] at moved
  split at moved
  next bar rest _ _ =>
    cases moved
    rw [openBar]
    dsimp only
    split
    next message _ => exact agrees
    next simulator processed => exact agrees.processBar processed
  next => cases moved
  next bar signal others _ =>
    cases moved
    unfold onSignal
    dsimp only
    split
    next passed => exact ⟨agrees.equity, agrees.position, agrees.average⟩
    next refused => exact agrees
  next bar _ =>
    cases moved
    exact agrees
  next => cases moved
  next => cases moved

/-- One end of a bar. -/
theorem marked_iff (agrees : Agrees engine.broker startingEquity r.simulator) (u : Unit) :
    AtCost engine r u ↔ Marked engine startingEquity r u := by
  rw [AtCost, Marked]
  split
  next bar _ =>
    have equity : r.simulator.equity + unrealizedPnl engine r =
        markToMarket engine startingEquity r := by rw [agrees.equity, markToMarket]
    have recorded : (closeBar r bar).equityCurve = r.equityCurve ++ [r.simulator.equity] := rfl
    have fed : (closeBar r bar).riskEngine.circuitBreaker =
        (r.riskEngine.circuitBreaker.update r.simulator.equity bar.ts).1 := by
      rw [closeBar, RiskEngine.updatePositions_eq]
    rw [recorded, fed, List.append_cancel_left_eq, List.cons.injEq, ← equity]
    constructor
    · intro still
      rw [still, add_zero]
      exact ⟨⟨rfl, rfl⟩, rfl⟩
    · rintro ⟨⟨same, -⟩, -⟩
      linarith
  next => exact Iff.rfl

/-- A run records the mark-to-market equity, and feeds it to its circuit breaker, after every
bar exactly if the open positions are worth what they cost after every bar. -/
theorem equity_marked_iff (engine : BacktestEngine) {riskEngine : RiskEngine}
    {startingEquity : ℚ} {bars : List BarEvent} {start : Replay} (steps : List Unit)
    (begun : BacktestEngine.begin riskEngine startingEquity bars = .ok start) :
    Machine.Meets engine.step (AtCost engine) start steps ↔
      Machine.Meets engine.step (Marked engine startingEquity) start steps := by
  apply Machine.meets_iff (fun r => Agrees engine.broker startingEquity r.simulator)
  · exact fun r u t agrees _ moved => agrees_step agrees moved
  · exact fun r u agrees => marked_iff agrees u
  · exact agrees_begin begun

/-! ### One contract, bought on the first bar and held -/

/-- It is filled at the open of the second bar, without costs. -/
def holder : BacktestEngine where
  broker := { SimulatorLedger.desk with impact := ⟨0, 0, 1⟩ }
  strategy published :=
    if published.length = 1 then
      [{ symbol := "NQ", strategyId := "hold", side := .buy, targetQuantity := 1 }]
    else []
  monotonic n := n

def barTo (ts : Timestamp) (close : ℚ) : BarEvent := ⟨ts, "NQ", 100, 110, 90, close, 1000⟩

theorem held_at_cost :
    ∃ start, BacktestEngine.begin NoLookahead.riskDesk 10000 [barTo 0 100, barTo 1 100] =
        .ok start ∧
      Machine.Meets holder.step (Marked holder 10000) start (List.replicate 5 ()) := by
  have ends : (holder.replay NoLookahead.riskDesk 10000 [barTo 0 100, barTo 1 100] 5).map
      (fun run => (run.2.simulator.position "NQ",
        decide (Machine.Meets holder.step (AtCost holder) run.1 (List.replicate 5 ())))) =
      some (1, true) := by
    decide +kernel
  obtain ⟨⟨start, t⟩, reached, facts⟩ := Option.map_eq_some_iff.mp ends
  obtain ⟨begun, -⟩ := replay_eq_some _ reached
  simp only [Prod.mk.injEq, decide_eq_true_eq] at facts
  exact ⟨start, begun, (equity_marked_iff holder _ begun).mp facts.2⟩

/-- The second bar closes ten above the entry, and the recorded equity is still the first. -/
theorem gain_not_marked :
    ¬ ∀ (engine : BacktestEngine) (riskEngine : RiskEngine) (startingEquity : ℚ)
      (bars : List BarEvent) (start : Replay) (steps : List Unit),
      BacktestEngine.begin riskEngine startingEquity bars = .ok start →
        Machine.Meets engine.step (Marked engine startingEquity) start steps := by
  intro claim
  have ends : (holder.replay NoLookahead.riskDesk 10000 [barTo 0 100, barTo 1 110] 5).map
      (fun run => decide (Machine.Meets holder.step (AtCost holder) run.1
        (List.replicate 5 ()))) = some false := by
    decide +kernel
  obtain ⟨⟨start, t⟩, reached, moved⟩ := Option.map_eq_some_iff.mp ends
  obtain ⟨begun, -⟩ := replay_eq_some _ reached
  rw [decide_eq_false_iff_not] at moved
  have marked := claim holder NoLookahead.riskDesk 10000 _ start (List.replicate 5 ()) begun
  -- recorded where it is marked, the equity would show the positions at cost
  refine moved (marked.imp (fun r => Agrees holder.broker 10000 r.simulator) ?_ ?_ start _
    (agrees_begin begun))
  · exact fun r u t agrees _ step => agrees_step agrees step
  · exact fun r u agrees at_mark => (marked_iff agrees u).mpr at_mark

end MarkedEquity

end Binbot
