import Binbot.Backtest.Engine
import Binbot.Properties.SimulatorLedger

/-!
# No lookahead in time

An order is filled by a later bar of its symbol. That bar may carry the timestamp of the
bar the order reacts to, when several bars share one.
-/
namespace Binbot.NoLookahead

open Data BacktestEngine

variable (engine : BacktestEngine)

/-- A bar of its symbol fills the order, at least in part: a limit must be touched. -/
def Fillable (orderType : OrderType) (limitPrice : Option ℚ) (bar : BarEvent) : Prop :=
  match orderType with
  | .limit | .stopLimit => bar.low ≤ limitPrice.getD 0 ∧ limitPrice.getD 0 ≤ bar.high
  | .market | .stop | .marketOnClose => True

instance (orderType : OrderType) (limitPrice : Option ℚ) (bar : BarEvent) :
    Decidable (Fillable orderType limitPrice bar) :=
  match orderType with
  | .limit | .stopLimit => inferInstanceAs (Decidable (_ ∧ _))
  | .market | .stop | .marketOnClose => .isTrue trivial

theorem fillable_of_pos (broker : MarketSimulatorBroker) {pending : PendingOrder} {bar : BarEvent}
    (positive : 0 < broker.determineFillQuantity pending bar) :
    Fillable pending.request.orderType pending.request.limitPrice bar := by
  rw [MarketSimulatorBroker.determineFillQuantity] at positive
  simp only [Fillable]
  cases kind : pending.request.orderType with
  | limit =>
    simp only [kind] at positive
    split at positive
    next touched => exact touched
    next missed => exact absurd positive (lt_irrefl 0)
  | stopLimit =>
    simp only [kind] at positive
    split at positive
    next touched => exact touched
    next missed => exact absurd positive (lt_irrefl 0)
  | market => trivial
  | stop => trivial
  | marketOnClose => trivial

/-- Every fill is of an order of the run, on a bar strictly later than the one the order
reacts to. -/
def Timely (r : Replay) : Prop :=
  ∀ e ∈ r.simulator.fills, ∃ bar, r.submitted.get? e.orderId = some bar ∧ bar.ts < e.ts

instance (r : Replay) : Decidable (Timely r) :=
  decidable_of_iff (∀ e ∈ r.simulator.fills,
      (r.submitted.get? e.orderId).any (fun bar => bar.ts < e.ts) = true) (by
    simp [Timely, Option.any_eq_true])

/-- No bar to come fills this signal's order at the time of the bar it reacts to. -/
def NoTwin (upcoming : List BarEvent) (bar : BarEvent) (signal : SignalEvent) : Prop :=
  ∀ twin ∈ upcoming, twin.symbol = signal.symbol → twin.ts = bar.ts →
    ¬ Fillable signal.orderType signal.limitPrice twin

instance (upcoming : List BarEvent) (bar : BarEvent) (signal : SignalEvent) :
    Decidable (NoTwin upcoming bar signal) :=
  inferInstanceAs (Decidable (∀ twin ∈ upcoming, _ → _ → ¬ Fillable _ _ twin))

/-- The step submits no order that a bar of the same time may still fill. -/
def Apart (r : Replay) (_ : Unit) : Prop :=
  match r.phase with
  | .reacting bar (signal :: _) =>
    (engine.checked r signal).1.passed = true → NoTwin r.upcoming bar signal
  | _ => True

instance (r : Replay) (u : Unit) : Decidable (Apart engine r u) :=
  match phase : r.phase with
  | .reacting bar (signal :: _) =>
    decidable_of_iff ((engine.checked r signal).1.passed = true → NoTwin r.upcoming bar signal)
      (by simp [Apart, phase])
  | .reacting _ [] | .betweenBars | .halted | .raised _ => .isTrue (by simp [Apart, phase])

structure Inv (r : Replay) : Prop where
  ordered : r.upcoming.Pairwise fun a b => a.ts ≤ b.ts
  reacting : ∀ bar signals, r.phase = .reacting bar signals → ∀ u ∈ r.upcoming, bar.ts ≤ u.ts
  fresh : ∀ draw, r.uuids.drawn ≤ draw → r.submitted.get? (.hex draw) = none
  past : ∀ id bar, r.submitted.get? id = some bar → ∀ u ∈ r.upcoming, bar.ts ≤ u.ts
  pending : ∀ symbol, ∀ p ∈ r.simulator.pendingOrders.getD symbol [],
    ∃ bar, r.submitted.get? p.request.orderId = some bar ∧
      ∀ twin ∈ r.upcoming, twin.symbol = symbol → twin.ts = bar.ts →
        ¬ Fillable p.request.orderType p.request.limitPrice twin
  timely : Timely r

variable {engine} {r : Replay}

theorem inv_begin {riskEngine : RiskEngine} {startingEquity : ℚ} {bars : List BarEvent}
    (begun : BacktestEngine.begin riskEngine startingEquity bars = .ok r) : Inv r := by
  rw [BacktestEngine.begin] at begun
  have ordered := sortedBars_ordered bars
  cases sorted : sortedBars bars with
  | nil => simp [sorted] at begun
  | cons first rest =>
    simp only [sorted, Except.ok.injEq] at begun ordered
    subst begun
    constructor
    · exact ordered
    · intro bar signals reacting
      cases reacting
    · intro draw _
      rfl
    · intro id bar found
      cases found
    · intro symbol p member
      cases member
    · intro e member
      cases member

theorem inv_openBar (held : Inv r) {bar : BarEvent} {rest : List BarEvent}
    (next : r.upcoming = bar :: rest) :
    Inv (engine.openBar r bar rest) := by
  have ordered := held.ordered
  rw [next, List.pairwise_cons] at ordered
  have later : ∀ u ∈ rest, u ∈ r.upcoming := fun u member => by
    rw [next]
    exact List.mem_cons_of_mem _ member
  have here : bar ∈ r.upcoming := by
    rw [next]
    exact List.mem_cons_self
  rw [openBar]
  dsimp only
  split
  next message failed =>
    constructor
    · exact ordered.2
    · intro _ _ reacting
      cases reacting
    · exact held.fresh
    · exact fun id b found u member => held.past id b found u (later u member)
    · intro symbol p member
      obtain ⟨b, found, apart⟩ := held.pending symbol p member
      exact ⟨b, found, fun twin twinMember => apart twin (later twin twinMember)⟩
    · exact held.timely
  next simulator processed =>
    obtain ⟨fills, processed⟩ : ∃ fills, engine.broker.Processed bar r.simulator simulator fills :=
      engine.broker.processBar_fills processed
    constructor
    · exact ordered.2
    · intro _ _ reacting
      cases reacting
      exact ordered.1
    · exact held.fresh
    · exact fun id b found u member => held.past id b found u (later u member)
    · intro symbol p member
      by_cases same : symbol = bar.symbol
      · subst same
        obtain ⟨old, oldMember, request⟩ := processed.carried p member
        obtain ⟨b, found, apart⟩ := held.pending bar.symbol old oldMember
        rw [request]
        exact ⟨b, found, fun twin twinMember => apart twin (later twin twinMember)⟩
      · have kept : p ∈ r.simulator.pendingOrders.getD symbol [] := by
          rw [← processed.elsewhere symbol same]
          exact member
        obtain ⟨b, found, apart⟩ := held.pending symbol p kept
        exact ⟨b, found, fun twin twinMember => apart twin (later twin twinMember)⟩
    · intro e member
      rw [processed.recorded] at member
      rcases List.mem_append.mp member with old | new
      · exact held.timely e old
      · obtain ⟨fill, ofFill, rfl⟩ := List.mem_map.mp new
        obtain ⟨onBar, waiting, size⟩ := processed.fillsOf fill ofFill
        obtain ⟨b, found, apart⟩ := held.pending bar.symbol fill.pending waiting
        refine ⟨b, found, ?_⟩
        -- the order is fillable here, so its own bar was not of this time
        have fillable := fillable_of_pos engine.broker (size ▸ fill.positive)
        have notTwin : bar.ts ≠ b.ts := fun same => apart bar here rfl same fillable
        have notLater := held.past _ b found bar here
        change b.ts < fill.bar.ts
        rw [onBar]
        exact lt_of_le_of_ne notLater (Ne.symm notTwin)

/-- An order found under its own id, after another was submitted. -/
theorem submitted_before (held : Inv r) {id : OrderId} {bar b : BarEvent}
    (found : r.submitted.get? id = some b) :
    (r.submitted.set (.hex r.uuids.drawn) bar).get? id = some b := by
  have other : id ≠ .hex r.uuids.drawn := by
    rintro rfl
    rw [held.fresh r.uuids.drawn le_rfl] at found
    cases found
  rw [Dict.get?_set_ne _ _ other, found]

theorem inv_submit (held : Inv r) {bar : BarEvent} {signal : SignalEvent}
    (now : ∀ u ∈ r.upcoming, bar.ts ≤ u.ts) (apart : NoTwin r.upcoming bar signal) :
    Inv (submit r bar signal) := by
  constructor
  · exact held.ordered
  · exact held.reacting
  · intro draw drawn
    have unused : OrderId.hex draw ≠ .hex r.uuids.drawn := by
      intro same
      cases same
      simp [submit] at drawn
    have old := held.fresh draw (by simp only [submit] at drawn; omega)
    simp only [submit, ManagedOrder.ofSignal, Dict.get?_set_ne _ _ unused, old]
  · intro id b found u member
    by_cases mine : id = .hex r.uuids.drawn
    · subst mine
      simp only [submit, ManagedOrder.ofSignal, Dict.get?_set_self, Option.some.injEq] at found
      exact found ▸ now u member
    · simp only [submit, ManagedOrder.ofSignal, Dict.get?_set_ne _ _ mine] at found
      exact held.past id b found u member
  · intro symbol p member
    -- the new order is the last of its symbol's
    have orders : p ∈ r.simulator.pendingOrders.getD symbol [] ∨
        symbol = signal.symbol ∧ p.request =
          (ManagedOrder.ofSignal (.hex r.uuids.drawn) signal
            (r.lastPrice.get? signal.symbol)).request := by
      rw [submit] at member
      dsimp only at member
      rw [MarketSimulatorBroker.placeOrder_pending] at member
      split at member
      next same =>
        rcases List.mem_append.mp member with old | new
        · exact .inl old
        · exact .inr ⟨same, by rw [List.mem_singleton.mp new]; rfl⟩
      next other => exact .inl member
    rcases orders with old | ⟨here, request⟩
    · obtain ⟨b, found, away⟩ := held.pending symbol p old
      exact ⟨b, submitted_before held found, away⟩
    · refine ⟨bar, ?_, ?_⟩
      · rw [request]
        exact Dict.get?_set_self _ _ _
      · intro twin member same sameTime
        rw [request]
        exact apart twin member (same.trans here) sameTime
  · intro e member
    obtain ⟨b, found, later⟩ := held.timely e member
    exact ⟨b, submitted_before held found, later⟩

theorem inv_onSignal (held : Inv r) {bar : BarEvent} {signal : SignalEvent}
    {others : List SignalEvent} (reacting : r.phase = .reacting bar (signal :: others))
    (apart : Apart engine r ()) : Inv (engine.onSignal r bar signal others) := by
  have now := held.reacting bar (signal :: others) reacting
  have counted : Inv { r with
      riskEngine := (engine.checked r signal).2
      checks := r.checks + 1
      phase := .reacting bar others } := by
    constructor
    · exact held.ordered
    · intro _ _ still
      cases still
      exact now
    · exact held.fresh
    · exact held.past
    · exact held.pending
    · exact held.timely
  unfold onSignal
  dsimp only
  split
  next passed =>
    simp only [Apart, reacting] at apart
    exact inv_submit counted now (apart passed)
  next refused => exact counted

theorem inv_closeBar (held : Inv r) (bar : BarEvent) : Inv (closeBar r bar) := by
  constructor
  · exact held.ordered
  · intro b signals reacting
    rw [closeBar] at reacting
    dsimp only at reacting
    split at reacting <;> cases reacting
  · exact held.fresh
  · exact held.past
  · exact held.pending
  · exact held.timely

theorem inv_step {u : Unit} {t : Replay} (held : Inv r) (apart : Apart engine r u)
    (moved : engine.step r u = some t) : Inv t := by
  rw [step] at moved
  split at moved
  next bar rest _ next =>
    cases moved
    exact inv_openBar held next
  next => cases moved
  next bar signal others reacting =>
    cases moved
    exact inv_onSignal held reacting apart
  next bar _ =>
    cases moved
    exact inv_closeBar held bar
  next => cases moved
  next => cases moved

/-- In a backtest that submits no order a bar of the same time may still fill, every fill is
on a bar strictly later than the one its order reacts to. -/
theorem fills_strictly_later (engine : BacktestEngine) {riskEngine : RiskEngine}
    {startingEquity : ℚ} {bars : List BarEvent} {start t : Replay} (steps : List Unit)
    (begun : BacktestEngine.begin riskEngine startingEquity bars = .ok start)
    (reached : Machine.run engine.step start steps = some t)
    (apart : Machine.Meets engine.step (Apart engine) start steps) : Timely t :=
  (Machine.run_invariant Inv (fun _ _ _ held apart moved => inv_step held apart moved) start steps t
    (inv_begin begun) apart reached).timely

/-! ### Two symbols that share a timestamp -/

/-- Reacting to the second bar of the run, it buys one contract of `NQ`. -/
def crossBuyer : BacktestEngine where
  broker := SimulatorLedger.desk
  strategy published :=
    if published.length = 2 then
      [{ symbol := "NQ", strategyId := "cross", side := .buy, targetQuantity := 1 }]
    else []
  monotonic n := n

def riskDesk : RiskEngine where
  maxContractsPerOrder := 10
  maxContractsPerSymbol := 10
  maxPositionNotionalUsd := 100000
  maxGrossLeverage := 5
  circuitBreaker := ⟨8, 1, 0, 1, false, "", false, by decide +kernel, by decide +kernel⟩
  marginCalculator := { schedule := .ofList [("NQ", ⟨"NQ", 100, 80⟩)] }
  rateLimiter := { maxPerSecond := 5, maxPerMinute := 60 }

def flatBar (ts : Timestamp) (symbol : Symbol) : BarEvent := ⟨ts, symbol, 100, 101, 99, 100, 100⟩

/-- `NQ` opens the run, and has a bar at the time of the second `ES` bar. -/
def shared : List BarEvent := [flatBar 0 "NQ", flatBar 1 "ES", flatBar 1 "NQ"]

def spaced : List BarEvent := [flatBar 0 "NQ", flatBar 1 "ES", flatBar 2 "NQ"]

/-- The order reacts to the `ES` bar of time 1 and is filled by the `NQ` bar of time 1. -/
theorem shared_timestamp_fills :
    ∃ start t, BacktestEngine.begin riskDesk 10000 shared = .ok start ∧
      Machine.run crossBuyer.step start (List.replicate 6 ()) = some t ∧
      (t.simulator.fills.map fun e => (e.orderId, e.ts)) = [(.hex 0, 1)] ∧
      (t.submitted.get? (.hex 0)).map (fun bar => (bar.symbol, bar.ts)) = some ("ES", 1) ∧
      ¬ Timely t := by
  have ends : (crossBuyer.replay riskDesk 10000 shared 6).map (fun run =>
      (run.2.simulator.fills.map (fun e => (e.orderId, e.ts)),
        (run.2.submitted.get? (.hex 0)).map (fun bar => (bar.symbol, bar.ts)),
        decide (Timely run.2))) = some ([(.hex 0, 1)], some ("ES", 1), false) := by
    decide +kernel
  obtain ⟨⟨start, t⟩, reached, facts⟩ := Option.map_eq_some_iff.mp ends
  obtain ⟨begun, ran⟩ := replay_eq_some _ reached
  simp only [Prod.mk.injEq, decide_eq_false_iff_not] at facts
  exact ⟨start, t, begun, ran, facts⟩

/-- With a timestamp for each bar, the same strategy is filled a bar later. -/
theorem spaced_fills_later :
    ∃ start t, BacktestEngine.begin riskDesk 10000 spaced = .ok start ∧
      Machine.run crossBuyer.step start (List.replicate 6 ()) = some t ∧
      t.simulator.fills ≠ [] ∧ Timely t := by
  have ends : (crossBuyer.replay riskDesk 10000 spaced 6).map (fun run =>
      (run.2.simulator.fills.length,
        decide (Machine.Meets crossBuyer.step (Apart crossBuyer) run.1 (List.replicate 6 ())))) =
      some (1, true) := by
    decide +kernel
  obtain ⟨⟨start, t⟩, reached, facts⟩ := Option.map_eq_some_iff.mp ends
  obtain ⟨begun, ran⟩ := replay_eq_some _ reached
  simp only [Prod.mk.injEq, decide_eq_true_eq] at facts
  refine ⟨start, t, begun, ran, ?_, fills_strictly_later crossBuyer _ begun ran facts.2⟩
  intro none
  simp [none] at facts

end Binbot.NoLookahead
