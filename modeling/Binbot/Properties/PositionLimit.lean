import Binbot.Properties.NoLookahead

/-!
# The position limit over a backtest

The risk check knows the book of the last bar's end and no waiting order. The limit holds
where each approved order leaves room for the position and everything already waiting.
-/
namespace Binbot.PositionLimit

open Data BacktestEngine MarketSimulatorBroker

/-- What the waiting orders of one side may still fill. -/
def exposure (side : OrderSide) (orders : List PendingOrder) : ℤ :=
  ((orders.filter fun p => p.request.side = side).map (·.remainingQty)).sum

@[simp] theorem exposure_nil (side : OrderSide) : exposure side [] = 0 := rfl

theorem exposure_cons (side : OrderSide) (p : PendingOrder) (rest : List PendingOrder) :
    exposure side (p :: rest) =
      (if p.request.side = side then p.remainingQty else 0) + exposure side rest := by
  simp only [exposure]
  by_cases same : p.request.side = side <;> simp [same]

theorem exposure_append (side : OrderSide) (first second : List PendingOrder) :
    exposure side (first ++ second) = exposure side first + exposure side second := by
  simp [exposure]

theorem exposure_nonneg (side : OrderSide) {orders : List PendingOrder}
    (sizes : ∀ p ∈ orders, 0 ≤ p.remainingQty) : 0 ≤ exposure side orders := by
  induction orders with
  | nil => exact le_refl 0
  | cons p rest ih =>
    rw [exposure_cons]
    have tail := ih fun q member => sizes q (List.mem_cons_of_mem _ member)
    have head := sizes p List.mem_cons_self
    split <;> omega

/-- How far the fills of one side can take a position. -/
def reach (m : SimulatorState) (symbol : Symbol) (side : OrderSide) : ℤ :=
  side.sign * m.position symbol + exposure side (m.pendingOrders.getD symbol [])

/-! ### One bar -/

section Bar

variable (broker : MarketSimulatorBroker) (bar : BarEvent) {m : SimulatorState}

theorem resolveOrder_position (p : PendingOrder) (size : 0 ≤ p.remainingQty) (symbol : Symbol) :
    (broker.resolveOrder m bar p).1.position symbol =
      if symbol = bar.symbol then
        m.position symbol + broker.determineFillQuantity p bar * p.request.side.sign
      else m.position symbol := by
  obtain ⟨least, -⟩ := determineFillQuantity_bounds broker bar size
  by_cases positive : broker.determineFillQuantity p bar > 0
  · let fill : Fill := ⟨p, broker.determineFillQuantity p bar,
      broker.computeFillPrice m p bar (broker.determineFillQuantity p bar), bar, positive⟩
    have filled : (broker.resolveOrder m bar p).1 = broker.apply m fill := by
      simp only [resolveOrder, if_pos positive]
      split
      · rfl
      · split <;> rfl
    rw [filled, apply_position]
    rfl
  · have unfilled : (broker.resolveOrder m bar p).1 = m := by
      simp only [resolveOrder, if_neg positive]
      split
      · rfl
      · split <;> rfl
    have none : broker.determineFillQuantity p bar = 0 := by omega
    rw [unfilled, none]
    simp

/-- Resolving one order takes neither side further. -/
theorem resolveOrder_reach (p : PendingOrder) (size : 0 ≤ p.remainingQty) (side : OrderSide) :
    side.sign * (broker.resolveOrder m bar p).1.position bar.symbol +
        exposure side (broker.resolveOrder m bar p).2.toList ≤
      side.sign * m.position bar.symbol + exposure side [p] := by
  obtain ⟨least, most⟩ := determineFillQuantity_bounds broker bar size
  rw [resolveOrder_position broker bar p size, if_pos rfl, exposure_cons]
  have kept : exposure side (broker.resolveOrder m bar p).2.toList ≤
      if p.request.side = side then p.remainingQty - broker.determineFillQuantity p bar else 0 := by
    cases carried : (broker.resolveOrder m bar p).2 with
    | none =>
      simp only [Option.toList_none, exposure_nil]
      split <;> omega
    | some left =>
      rw [broker.resolveOrder_snd] at carried
      obtain ⟨request, rest, -⟩ := broker.carried_some carried
      simp [Option.toList_some, exposure_cons, request, rest]
  simp only [exposure_nil, add_zero]
  cases side <;> cases direction : p.request.side <;>
    simp only [direction, OrderSide.sign, if_true, reduceCtorEq, if_false] at kept ⊢ <;> omega

theorem resolveOrders_reach (orders : List PendingOrder)
    (sizes : ∀ p ∈ orders, 0 ≤ p.remainingQty) (side : OrderSide) :
    side.sign * (broker.resolveOrders bar m orders).1.position bar.symbol +
        exposure side (broker.resolveOrders bar m orders).2 ≤
      side.sign * m.position bar.symbol + exposure side orders := by
  induction orders generalizing m with
  | nil => exact le_refl _
  | cons p rest ih =>
    have head := resolveOrder_reach broker bar (m := m) p (sizes p List.mem_cons_self) side
    have tail := ih (m := (broker.resolveOrder m bar p).1)
      fun q member => sizes q (List.mem_cons_of_mem _ member)
    simp only [resolveOrders, exposure_append]
    rw [exposure_cons] at head ⊢
    simp only [exposure_nil, add_zero] at head
    omega

theorem resolveOrders_elsewhere (orders : List PendingOrder)
    (sizes : ∀ p ∈ orders, 0 ≤ p.remainingQty) {symbol : Symbol} (other : symbol ≠ bar.symbol) :
    (broker.resolveOrders bar m orders).1.position symbol = m.position symbol := by
  induction orders generalizing m with
  | nil => rfl
  | cons p rest ih =>
    have tail := ih (m := (broker.resolveOrder m bar p).1)
      fun q member => sizes q (List.mem_cons_of_mem _ member)
    simp only [resolveOrders]
    rw [tail, resolveOrder_position broker bar p (sizes p List.mem_cons_self), if_neg other]

theorem resolveOrders_sizes {orders : List PendingOrder} {left : PendingOrder}
    (carried : left ∈ (broker.resolveOrders bar m orders).2) : 0 < left.remainingQty := by
  induction orders generalizing m with
  | nil => cases carried
  | cons p rest ih =>
    rcases List.mem_append.mp carried with here | there
    · rw [broker.resolveOrder_snd] at here
      exact (broker.carried_some (Option.mem_toList.mp here)).2.2
    · exact ih there

end Bar

/-! ### The run -/

variable (engine : BacktestEngine)

/-- The step submits no order that could take the position past the limit, counted from the
position now and with everything that already waits on its side. -/
def Headroom (r : Replay) (_ : Unit) : Prop :=
  match r.phase with
  | .reacting _ (signal :: _) =>
    (engine.checked r signal).1.passed = true →
      reach r.simulator signal.symbol signal.side + |signal.targetQuantity| ≤
        r.riskEngine.maxContractsPerSymbol
  | _ => True

instance (r : Replay) (u : Unit) : Decidable (Headroom engine r u) :=
  match phase : r.phase with
  | .reacting _ (signal :: _) =>
    decidable_of_iff ((engine.checked r signal).1.passed = true →
        reach r.simulator signal.symbol signal.side + |signal.targetQuantity| ≤
          r.riskEngine.maxContractsPerSymbol)
      (by simp [Headroom, phase])
  | .reacting _ [] | .betweenBars | .halted | .raised _ => .isTrue (by simp [Headroom, phase])

/-- Neither side can take any position past the limit. -/
structure Inv (limit : ℤ) (r : Replay) : Prop where
  configured : r.riskEngine.maxContractsPerSymbol = limit
  sizes : ∀ symbol, ∀ p ∈ r.simulator.pendingOrders.getD symbol [], 0 ≤ p.remainingQty
  within : ∀ symbol side, reach r.simulator symbol side ≤ limit

variable {engine} {limit : ℤ} {r : Replay}

/-- What waits can only add to a position, so the position itself is within. -/
theorem Inv.position_le (held : Inv limit r) (symbol : Symbol) :
    |r.simulator.position symbol| ≤ limit := by
  have long := held.within symbol .buy
  have short := held.within symbol .sell
  have buys := exposure_nonneg .buy (held.sizes symbol)
  have sells := exposure_nonneg .sell (held.sizes symbol)
  simp only [reach, OrderSide.sign] at long short
  rw [abs_le]
  omega

theorem inv_begin {riskEngine : RiskEngine} {startingEquity : ℚ} {bars : List BarEvent}
    (limited : 0 ≤ riskEngine.maxContractsPerSymbol)
    (begun : BacktestEngine.begin riskEngine startingEquity bars = .ok r) :
    Inv riskEngine.maxContractsPerSymbol r := by
  rw [BacktestEngine.begin] at begun
  split at begun
  · cases begun
  next first rest sorted =>
    cases begun
    constructor
    · rfl
    · intro symbol p member
      cases member
    · intro symbol side
      have flat : reach { equity := startingEquity } symbol side = 0 := by
        simp [reach, SimulatorState.position, Dict.getD]
      exact flat ▸ limited

theorem inv_processBar {m m' : SimulatorState} {bar : BarEvent}
    (sizes : ∀ symbol, ∀ p ∈ m.pendingOrders.getD symbol [], 0 ≤ p.remainingQty)
    (within : ∀ symbol side, reach m symbol side ≤ limit)
    (processed : engine.broker.processBar m bar = .ok m') :
    (∀ symbol, ∀ p ∈ m'.pendingOrders.getD symbol [], 0 ≤ p.remainingQty) ∧
      ∀ symbol side, reach m' symbol side ≤ limit := by
  obtain ⟨fills, spec⟩ := engine.broker.processBar_fills processed
  obtain ⟨counted, ⟨volumes, returns, same⟩, result⟩ := engine.broker.processBar_ok processed
  have orders : counted.pendingOrders = m.pendingOrders := by rw [same]
  have book : counted.position = m.position := by rw [same]; rfl
  have here := sizes bar.symbol
  -- the orders of the bar's symbol are resolved, and what is left of them waits
  have position : ∀ symbol, m'.position symbol = (engine.broker.resolveOrders bar counted
      (m.pendingOrders.getD bar.symbol [])).1.position symbol := by
    intro symbol
    rw [result, ← orders]
    rfl
  have waiting : m'.pendingOrders.getD bar.symbol [] = (engine.broker.resolveOrders bar counted
      (m.pendingOrders.getD bar.symbol [])).2 := by
    rw [result, ← orders]
    simp [resolvePendingOrders, Dict.getD]
  constructor
  · intro symbol p member
    by_cases current : symbol = bar.symbol
    · rw [current, waiting] at member
      exact (resolveOrders_sizes engine.broker bar member).le
    · rw [spec.elsewhere symbol current] at member
      exact sizes symbol p member
  · intro symbol side
    have limited := within symbol side
    rw [reach] at limited ⊢
    rw [position]
    by_cases current : symbol = bar.symbol
    · subst current
      have bound := resolveOrders_reach engine.broker bar (m := counted)
        (m.pendingOrders.getD bar.symbol []) here side
      rw [book] at bound
      rw [waiting]
      exact bound.trans limited
    · rw [resolveOrders_elsewhere engine.broker bar _ here current, book,
        spec.elsewhere symbol current]
      exact limited

theorem inv_openBar (held : Inv limit r) (bar : BarEvent) (rest : List BarEvent) :
    Inv limit (engine.openBar r bar rest) := by
  rw [openBar]
  dsimp only
  split
  next message failed => exact ⟨held.configured, held.sizes, held.within⟩
  next simulator processed =>
    obtain ⟨sizes, within⟩ := inv_processBar held.sizes held.within processed
    exact ⟨held.configured, sizes, within⟩

/-- An approved order adds its quantity to what waits on its side. -/
theorem reach_placeOrder (m : SimulatorState) (request : BrokerOrderRequest) (symbol : Symbol)
    (side : OrderSide) :
    reach (m.placeOrder request) symbol side =
      reach m symbol side +
        if symbol = request.symbol ∧ request.side = side then request.quantity else 0 := by
  simp only [reach]
  rw [placeOrder_pending]
  have book : (m.placeOrder request).position symbol = m.position symbol := rfl
  rw [book]
  by_cases here : symbol = request.symbol
  · rw [if_pos here, exposure_append, exposure_cons, exposure_nil]
    by_cases same : request.side = side
    · simp [SimulatorState.pendingOrder, here, same, add_assoc]
    · simp [SimulatorState.pendingOrder, here, same]
  · simp [here]

theorem inv_onSignal (held : Inv limit r) {bar : BarEvent} {signal : SignalEvent}
    {others : List SignalEvent} (reacting : r.phase = .reacting bar (signal :: others))
    (room : Headroom engine r ()) : Inv limit (engine.onSignal r bar signal others) := by
  obtain ⟨limiter, checked⟩ := r.riskEngine.checkOrder_engine signal (engine.account r)
    (engine.monotonic r.checks)
  have configured : (engine.checked r signal).2.maxContractsPerSymbol = limit := by
    rw [BacktestEngine.checked]
    rw [checked]
    exact held.configured
  unfold onSignal
  dsimp only
  split
  next passed =>
    simp only [Headroom, reacting] at room
    have enough := room passed
    rw [held.configured] at enough
    constructor
    · exact configured
    · intro symbol p member
      rw [submit] at member
      dsimp only at member
      rw [placeOrder_pending] at member
      split at member
      next here =>
        rcases List.mem_append.mp member with old | new
        · exact held.sizes symbol p old
        · rw [List.mem_singleton.mp new]
          exact abs_nonneg signal.targetQuantity
      next other => exact held.sizes symbol p member
    · intro symbol side
      rw [submit]
      dsimp only
      rw [reach_placeOrder]
      have limited := held.within symbol side
      split
      -- the new order adds to this side, for which there was room
      next mine =>
        obtain ⟨rfl, rfl⟩ : symbol = signal.symbol ∧ signal.side = side := mine
        exact enough
      next other =>
        rw [add_zero]
        exact limited
  next refused => exact ⟨configured, held.sizes, held.within⟩

theorem inv_closeBar (held : Inv limit r) (bar : BarEvent) : Inv limit (closeBar r bar) := by
  refine ⟨?_, held.sizes, held.within⟩
  rw [closeBar]
  dsimp only
  rw [RiskEngine.updatePositions_eq]
  exact held.configured

theorem inv_step {u : Unit} {t : Replay} (held : Inv limit r) (room : Headroom engine r u)
    (moved : engine.step r u = some t) : Inv limit t := by
  rw [step] at moved
  split at moved
  next bar rest _ _ =>
    cases moved
    exact inv_openBar held bar rest
  next => cases moved
  next bar signal others reacting =>
    cases moved
    exact inv_onSignal held reacting room
  next bar _ =>
    cases moved
    exact inv_closeBar held bar
  next => cases moved
  next => cases moved

/-- Where every approved order leaves room for what already waits, no position of the run
ever passes the limit. -/
theorem position_limit_holds (engine : BacktestEngine) {riskEngine : RiskEngine}
    {startingEquity : ℚ} {bars : List BarEvent} {start t : Replay} (steps : List Unit)
    (limited : 0 ≤ riskEngine.maxContractsPerSymbol)
    (begun : BacktestEngine.begin riskEngine startingEquity bars = .ok start)
    (reached : Machine.run engine.step start steps = some t)
    (room : Machine.Meets engine.step (Headroom engine) start steps) :
    ∀ symbol, |t.simulator.position symbol| ≤ riskEngine.maxContractsPerSymbol :=
  (Machine.run_invariant (Inv riskEngine.maxContractsPerSymbol)
    (fun _ _ _ held room moved => inv_step held room moved) start steps t
    (inv_begin limited begun) room reached).position_le

/-! ### Two orders of ten contracts, with a limit of ten -/

/-- It buys the whole limit on the first bar, and again after `count` bars. -/
def buyer (count : ℕ) : BacktestEngine where
  broker := SimulatorLedger.desk
  strategy published :=
    if published.length = 1 ∨ published.length = count then
      [{ symbol := "NQ", strategyId := "limit", side := .buy, targetQuantity := 10 }]
    else []
  monotonic n := n

def deepBar (ts : Timestamp) : BarEvent := ⟨ts, "NQ", 100, 101, 99, 100, 1000⟩

def threeBars : List BarEvent := [deepBar 0, deepBar 1, deepBar 2]

/-- The second signal comes when the first order is filled and the check's book still flat. -/
theorem limit_passed :
    ∃ start t, BacktestEngine.begin NoLookahead.riskDesk 10000 threeBars = .ok start ∧
      Machine.run (buyer 2).step start (List.replicate 8 ()) = some t ∧
      t.phase = .betweenBars ∧ t.simulator.position "NQ" = 20 ∧
      ¬ |t.simulator.position "NQ"| ≤ NoLookahead.riskDesk.maxContractsPerSymbol := by
  have ends : ((buyer 2).replay NoLookahead.riskDesk 10000 threeBars 8).map (fun run =>
      (run.2.phase, run.2.simulator.position "NQ")) = some (.betweenBars, 20) := by
    decide +kernel
  obtain ⟨⟨start, t⟩, reached, facts⟩ := Option.map_eq_some_iff.mp ends
  obtain ⟨begun, ran⟩ := replay_eq_some _ reached
  obtain ⟨phase, position⟩ := Prod.mk.inj facts
  refine ⟨start, t, begun, ran, phase, position, ?_⟩
  rw [show t.simulator.position "NQ" = 20 from position]
  decide

/-- A second signal on the last bar finds the position in the book, and is refused. -/
theorem limit_held :
    ∃ start t, BacktestEngine.begin NoLookahead.riskDesk 10000 threeBars = .ok start ∧
      Machine.run (buyer 3).step start (List.replicate 8 ()) = some t ∧
      t.simulator.position "NQ" = 10 ∧
      |t.simulator.position "NQ"| ≤ NoLookahead.riskDesk.maxContractsPerSymbol := by
  have ends : ((buyer 3).replay NoLookahead.riskDesk 10000 threeBars 8).map (fun run =>
      (run.2.simulator.position "NQ",
        decide (Machine.Meets (buyer 3).step (Headroom (buyer 3)) run.1 (List.replicate 8 ())))) =
      some (10, true) := by
    decide +kernel
  obtain ⟨⟨start, t⟩, reached, facts⟩ := Option.map_eq_some_iff.mp ends
  obtain ⟨begun, ran⟩ := replay_eq_some _ reached
  simp only [Prod.mk.injEq, decide_eq_true_eq] at facts
  have limited : 0 ≤ NoLookahead.riskDesk.maxContractsPerSymbol := by decide
  exact ⟨start, t, begun, ran, facts.1,
    position_limit_holds (buyer 3) _ limited begun ran facts.2 "NQ"⟩

end Binbot.PositionLimit
