import Binbot.Backtest.SimulatorFills
import Binbot.Execution.OrderManager
import Binbot.Machine.Run
import Binbot.Risk.RiskEngine
import Mathlib.Data.List.Sort
import Mathlib.Data.String.Basic

/-!
# Event-driven backtest (`backtest/engine.py`)

A replay handles one bar after the other: its fills, then the signals it provokes, each
checked and submitted on its own, then the end of the bar.
-/
namespace Binbot

open Data

structure BacktestEngine where
  broker : MarketSimulatorBroker
  contractMultipliers : Dict Symbol ℚ := .empty
  /-- What the strategies emit on the last of the bars published so far. -/
  strategy : List BarEvent → List SignalEvent
  /-- What `time.monotonic()` reads at the `n`-th check of an order. -/
  monotonic : ℕ → ℚ

/-- Where the loop over the bars stands. -/
inductive ReplayPhase where
  | betweenBars
  /-- The bar is published; these signals of it are still in the event queue. -/
  | reacting (bar : BarEvent) (signals : List SignalEvent)
  /-- The circuit breaker tripped, and the loop was left. -/
  | halted
  /-- An exception leaves the loop. -/
  | raised (message : String)
  deriving DecidableEq

structure Replay where
  riskEngine : RiskEngine
  simulator : SimulatorState
  lastPrice : Dict Symbol ℚ := .empty
  sessionDate : Date
  equityCurve : List ℚ
  equityTimestamps : List Timestamp
  published : List BarEvent := []
  upcoming : List BarEvent
  phase : ReplayPhase := .betweenBars
  uuids : Uuids := ⟨0⟩
  checks : ℕ := 0
  /-- Every order of the run, with the bar it reacts to. -/
  submitted : Dict OrderId BarEvent := .empty

/-- The sort key `(b.ts, b.symbol)`. -/
def BarEvent.before (a b : BarEvent) : Prop := a.ts < b.ts ∨ a.ts = b.ts ∧ a.symbol ≤ b.symbol

instance : DecidableRel BarEvent.before := fun a b =>
  inferInstanceAs (Decidable (a.ts < b.ts ∨ a.ts = b.ts ∧ a.symbol ≤ b.symbol))

/-- `sorted(bars, key=lambda b: (b.ts, b.symbol))`; bars of one key keep their order. -/
def sortedBars (bars : List BarEvent) : List BarEvent := bars.insertionSort BarEvent.before

instance : Std.Total BarEvent.before where
  total a b := by
    rw [BarEvent.before]
    rcases lt_trichotomy a.ts b.ts with early | same | late
    · exact .inl (.inl early)
    · rcases le_total a.symbol b.symbol with left | right
      · exact .inl (.inr ⟨same, left⟩)
      · exact .inr (.inr ⟨same.symm, right⟩)
    · exact .inr (.inl late)

instance : IsTrans BarEvent BarEvent.before where
  trans a b c first second := by
    rcases first with early | ⟨same, left⟩
    · rcases second with later | ⟨equal, -⟩
      · exact .inl (early.trans later)
      · exact .inl (equal ▸ early)
    · rcases second with later | ⟨equal, right⟩
      · exact .inl (same ▸ later)
      · exact .inr ⟨same.trans equal, left.trans right⟩

/-- The replay never goes back in time. -/
theorem sortedBars_ordered (bars : List BarEvent) :
    (sortedBars bars).Pairwise fun a b => a.ts ≤ b.ts := by
  apply (List.pairwise_insertionSort BarEvent.before bars).imp
  intro a b before
  rcases before with early | ⟨same, -⟩
  · exact early.le
  · exact same.le

namespace BacktestEngine

variable (self : BacktestEngine)

def multiplier (symbol : Symbol) : ℚ := self.contractMultipliers.getD symbol 1

/-- `run` up to its loop, with a new simulator. -/
def begin (riskEngine : RiskEngine) (startingEquity : ℚ) (bars : List BarEvent) :
    Except String Replay :=
  match sortedBars bars with
  | [] => .error "bars must be non-empty"
  | first :: rest => .ok
      { riskEngine := { riskEngine with
          circuitBreaker := riskEngine.circuitBreaker.resetSession startingEquity first.ts.date }
        simulator := { equity := startingEquity }
        sessionDate := first.ts.date
        equityCurve := [startingEquity]
        equityTimestamps := [first.ts]
        upcoming := first :: rest }

/-- The engine's market data with this bar, on a new day with a new session. -/
def marketState (r : Replay) (bar : BarEvent) : Replay :=
  let session :=
    if bar.ts.date ≠ r.sessionDate then
      r.riskEngine.circuitBreaker.resetSession r.simulator.equity bar.ts.date
    else r.riskEngine.circuitBreaker
  { r with
    riskEngine :=
      (({ r.riskEngine with circuitBreaker := session }).updateMarketState bar.symbol
        bar.close).setContractMultiplier bar.symbol (self.multiplier bar.symbol)
    sessionDate := bar.ts.date
    lastPrice := r.lastPrice.set bar.symbol bar.close }

/-- From the head of the loop to the signals of the bar: orders of earlier bars are filled
before the bar is published. -/
def openBar (r : Replay) (bar : BarEvent) (rest : List BarEvent) : Replay :=
  let marked := { self.marketState r bar with upcoming := rest }
  match self.broker.processBar marked.simulator bar with
  | .error message => { marked with phase := .raised message }
  | .ok simulator =>
    { marked with
      simulator := simulator
      published := r.published ++ [bar]
      phase := .reacting bar (self.strategy (r.published ++ [bar])) }

def grossExposureUsd (r : Replay) : ℚ :=
  r.simulator.positions.sum fun symbol quantity =>
    ((|quantity| : ℤ) : ℚ) * r.lastPrice.getD symbol 0 * self.multiplier symbol

def account (r : Replay) : AccountState where
  accountEquity := r.simulator.equity
  grossExposureUsd := self.grossExposureUsd r
  marginUsed := ⟨0, 0⟩

/-- The pre-trade check of a signal. -/
def checked (r : Replay) (signal : SignalEvent) : RiskCheckResult × RiskEngine :=
  r.riskEngine.checkOrder signal (self.account r) (self.monotonic r.checks)

/-- `submit`: the order goes to the simulator. -/
def submit (r : Replay) (bar : BarEvent) (signal : SignalEvent) : Replay :=
  let order := ManagedOrder.ofSignal (.hex r.uuids.drawn) signal (r.lastPrice.get? signal.symbol)
  { r with
    simulator := r.simulator.placeOrder order.request
    uuids := ⟨r.uuids.drawn + 1⟩
    submitted := r.submitted.set order.orderId bar }

/-- `_on_signal`. -/
def onSignal (r : Replay) (bar : BarEvent) (signal : SignalEvent) (others : List SignalEvent) :
    Replay :=
  let result := self.checked r signal
  let counted :=
    { r with riskEngine := result.2, checks := r.checks + 1, phase := .reacting bar others }
  if result.1.passed then submit counted bar signal else counted

/-- The end of a bar: the book, the equity curve and the breaker. -/
def closeBar (r : Replay) (bar : BarEvent) : Replay :=
  let positions := r.riskEngine.updatePositions r.simulator.positions
  let updated := positions.circuitBreaker.update r.simulator.equity bar.ts
  { r with
    riskEngine := { positions with circuitBreaker := updated.1 }
    equityCurve := r.equityCurve ++ [r.simulator.equity]
    equityTimestamps := r.equityTimestamps ++ [bar.ts]
    phase :=
      match updated.2 with
      | .ok false => .betweenBars
      | .ok true => .halted
      | .error message => .raised message }

/-- One step of the loop; none once it is left. -/
def step (r : Replay) : Unit → Option Replay
  | () =>
    match r.phase, r.upcoming with
    | .betweenBars, bar :: rest => some (self.openBar r bar rest)
    | .betweenBars, [] => none
    | .reacting bar (signal :: others), _ => some (self.onSignal r bar signal others)
    | .reacting bar [], _ => some (closeBar r bar)
    | .halted, _ => none
    | .raised _, _ => none

/-- A run of `count` steps: where it begins, and where it is then. -/
def replay (riskEngine : RiskEngine) (startingEquity : ℚ) (bars : List BarEvent) (count : ℕ) :
    Option (Replay × Replay) :=
  (begin riskEngine startingEquity bars).toOption.bind fun start =>
    (Machine.run self.step start (List.replicate count ())).map fun t => (start, t)

theorem replay_eq_some {riskEngine : RiskEngine} {startingEquity : ℚ} {bars : List BarEvent}
    {count : ℕ} {start t : Replay}
    (reached : self.replay riskEngine startingEquity bars count = some (start, t)) :
    begin riskEngine startingEquity bars = .ok start ∧
      Machine.run self.step start (List.replicate count ()) = some t := by
  rw [replay] at reached
  cases outcome : begin riskEngine startingEquity bars with
  | error message => simp [outcome, Except.toOption] at reached
  | ok first =>
    simp only [outcome, Except.toOption, Option.bind_some, Option.map_eq_some_iff,
      Prod.mk.injEq] at reached
    obtain ⟨last, ran, rfl, rfl⟩ := reached
    exact ⟨rfl, ran⟩

end BacktestEngine

end Binbot
