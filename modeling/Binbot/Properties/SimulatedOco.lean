import Binbot.Backtest.SimulatedDesk
import Binbot.Machine.Run
import Binbot.Properties.SimulatorLedger

/-!
# One-cancels-other in the simulator

The simulator never looks at an order's group: the pending list of one symbol is resolved
order by order, and nothing links the lists. So a group keeps to one complete fill
only as long as no bar fills a member of a group that is done.
-/
namespace Binbot

open Data

/-- Another order of the same group. -/
def BrokerOrderRequest.SiblingOf (other request : BrokerOrderRequest) : Prop :=
  request.ocaGroup ≠ none ∧ other.ocaGroup = request.ocaGroup ∧ other.orderId ≠ request.orderId

instance (other request : BrokerOrderRequest) : Decidable (other.SiblingOf request) :=
  inferInstanceAs (Decidable (_ ∧ _))

/-- The simulator, and each fill so far beside the order that it is of. -/
structure SimulatedOco where
  simulator : SimulatorState
  filled : List (BrokerOrderRequest × ExecutionEvent) := []

namespace SimulatedOco

inductive Call where
  | placeOrder (request : BrokerOrderRequest)
  | cancelOrder (orderId : OrderId)
  | cancelAll
  | processBar (bar : BarEvent)

variable (broker : MarketSimulatorBroker)

/-- The fills that a bar adds, with the orders that it fills. -/
def filledBy (m : SimulatorState) (bar : BarEvent) : List (BrokerOrderRequest × ExecutionEvent) :=
  (((m.waiting bar.symbol).filter (broker.Fills bar)).map (·.request)).zip
    ((SimulatedDesk.processedBar broker m bar).fills.drop m.fills.length)

def step (s : SimulatedOco) : Call → Option SimulatedOco
  | .placeOrder request => some { s with simulator := s.simulator.placeOrder request }
  | .cancelOrder orderId => some { s with simulator := s.simulator.cancelOrder orderId }
  | .cancelAll => some { s with simulator := s.simulator.cancelAll }
  | .processBar bar => some
      { simulator := SimulatedDesk.processedBar broker s.simulator bar
        filled := s.filled ++ filledBy broker s.simulator bar }

/-- Once an order has filled completely, its siblings receive no fill. -/
def OneCancelsOther (s : SimulatedOco) : Prop :=
  s.filled.Pairwise fun first later =>
    first.2.remainingQuantity = 0 → ¬ later.1.SiblingOf first.1

instance : DecidablePred OneCancelsOther := fun s =>
  inferInstanceAs (Decidable (s.filled.Pairwise _))

/-- The bar fills no sibling of an order that is done, before the bar or earlier in it. -/
def SparesSiblings (s : SimulatedOco) : Call → Prop
  | .processBar bar => (∃ counted, broker.updateHistory s.simulator bar = .ok counted) →
    (∀ done ∈ s.filled, done.2.remainingQuantity = 0 →
      ∀ pending ∈ s.simulator.waiting bar.symbol, broker.Fills bar pending →
        ¬ pending.request.SiblingOf done.1) ∧
    (s.simulator.waiting bar.symbol).Pairwise fun first later =>
      broker.Fills bar first → broker.Fills bar later →
      broker.determineFillQuantity first bar = first.remainingQty →
        ¬ later.request.SiblingOf first.request
  | _ => True

variable {broker} {s t : SimulatedOco}

variable (broker) in
/-- What a bar fills, in the order of the pending list. -/
theorem filledBy_cases (m : SimulatorState) (bar : BarEvent) :
    (∃ fills : List Fill, (∃ counted, broker.updateHistory m bar = .ok counted) ∧
      broker.Resolved bar m (SimulatedDesk.processedBar broker m bar) fills ∧
      filledBy broker m bar = fills.map fun fill => (fill.pending.request, broker.report fill)) ∨
    (¬ ∃ counted, broker.updateHistory m bar = .ok counted) ∧
      (SimulatedDesk.processedBar broker m bar).fills = m.fills ∧ filledBy broker m bar = [] := by
  rcases SimulatedDesk.processedBar_cases broker m bar with
    ⟨ok, fills, resolved⟩ | ⟨raised, -, -, fills⟩
  · refine .inl ⟨fills, ok, resolved, ?_⟩
    rw [filledBy, resolved.recorded, List.drop_left, ← resolved.order, List.map_map,
      List.zip_map']
    rfl
  · refine .inr ⟨raised, fills, ?_⟩
    rw [filledBy, fills, List.drop_length, List.zip_nil_right]

/-- The record is what the simulator reports, each fill under the id of its order. -/
structure Recorded (s : SimulatedOco) : Prop where
  events : s.filled.map (·.2) = s.simulator.fills
  ids : ∀ entry ∈ s.filled, entry.2.orderId = entry.1.orderId

theorem Recorded.step (recorded : s.Recorded) (call : Call)
    (moved : step broker s call = some t) : t.Recorded := by
  cases call with
  | placeOrder request =>
    cases moved
    exact ⟨recorded.events, recorded.ids⟩
  | cancelOrder orderId =>
    cases moved
    exact ⟨recorded.events, recorded.ids⟩
  | cancelAll =>
    cases moved
    exact ⟨recorded.events, recorded.ids⟩
  | processBar bar =>
    cases moved
    rcases filledBy_cases broker s.simulator bar with
      ⟨fills, -, resolved, new⟩ | ⟨-, same, new⟩
    · constructor
      · dsimp only
        rw [new, List.map_append, recorded.events, resolved.recorded, List.map_map]
        rfl
      · intro entry member
        rw [new, List.mem_append, List.mem_map] at member
        rcases member with old | ⟨fill, -, rfl⟩
        · exact recorded.ids entry old
        · rfl
    · constructor
      · dsimp only
        rw [new, List.append_nil, same, recorded.events]
      · intro entry member
        rw [new, List.append_nil] at member
        exact recorded.ids entry member

/-- Over a whole run the record is the simulator's own. -/
theorem recorded_run (calls : List Call) (recorded : s.Recorded)
    (reached : Machine.run (SimulatedOco.step broker) s calls = some t) : t.Recorded :=
  Machine.run_preserves Recorded (fun _ call _ held moved => held.step call moved) s calls t
    recorded reached

/-- Of the fills of one bar, in their order. -/
theorem pairwise_filled {bar : BarEvent} {m m' : SimulatorState} {fills : List Fill}
    (resolved : broker.Resolved bar m m' fills) :
    ((fills.map fun fill => (fill.pending.request, broker.report fill)).Pairwise
      fun first later => first.2.remainingQuantity = 0 → ¬ later.1.SiblingOf first.1) ↔
    (m.waiting bar.symbol).Pairwise fun first later =>
      broker.Fills bar first → broker.Fills bar later →
      broker.determineFillQuantity first bar = first.remainingQty →
        ¬ later.request.SiblingOf first.request := by
  have filled : (m.waiting bar.symbol).filter (broker.Fills bar) = fills.map (·.pending) :=
    resolved.order.symm
  have split := List.pairwise_filter (p := fun pending => decide (broker.Fills bar pending))
    (R := fun first later => broker.determineFillQuantity first bar = first.remainingQty →
      ¬ later.request.SiblingOf first.request) (l := m.waiting bar.symbol)
  simp only [decide_eq_true_eq] at split
  -- a fill is complete exactly when it leaves nothing of its order
  rw [← split, filled, List.pairwise_map, List.pairwise_map]
  constructor
  · intro spared
    apply spared.imp_of_mem
    intro first later here _ apart whole
    exact apart (sub_eq_zero.mpr
      (whole.symm.trans (resolved.fillsOf first here).2.2.symm))
  · intro spared
    apply spared.imp_of_mem
    intro first later here _ apart whole
    exact apart ((resolved.fillsOf first here).2.2.symm.trans (sub_eq_zero.mp whole).symm)

/-- A bar keeps to one complete fill a group exactly when it spares the siblings. -/
theorem oneCancelsOther_bar (held : s.OneCancelsOther) (bar : BarEvent) :
    SparesSiblings broker s (.processBar bar) ↔ OneCancelsOther
      { simulator := SimulatedDesk.processedBar broker s.simulator bar
        filled := s.filled ++ filledBy broker s.simulator bar } := by
  rw [OneCancelsOther, List.pairwise_append]
  rcases filledBy_cases broker s.simulator bar with
    ⟨fills, ok, resolved, new⟩ | ⟨raised, -, new⟩
  · rw [new, pairwise_filled resolved, SparesSiblings]
    constructor
    · intro spared
      -- the fills of the bar come after all earlier ones, and after each other in list order
      obtain ⟨before, within⟩ := spared ok
      refine ⟨held, within, ?_⟩
      intro done member entry added whole
      obtain ⟨fill, there, rfl⟩ := List.mem_map.mp added
      have filled : fill.pending ∈ (s.simulator.waiting bar.symbol).filter (broker.Fills bar) := by
        rw [← resolved.order]
        exact List.mem_map_of_mem there
      rw [List.mem_filter, decide_eq_true_eq] at filled
      exact before done member whole fill.pending filled.1 filled.2
    · rintro ⟨-, within, apart⟩ -
      refine ⟨?_, within⟩
      intro done member whole pending waits fills_
      have filled : pending ∈ fills.map (·.pending) := by
        rw [resolved.order, List.mem_filter]
        exact ⟨waits, decide_eq_true fills_⟩
      obtain ⟨fill, there, rfl⟩ := List.mem_map.mp filled
      exact apart done member _ (List.mem_map_of_mem there) whole
  · rw [new]
    -- the call raised before it filled anything
    refine ⟨fun _ => ⟨held, List.Pairwise.nil, ?_⟩, fun _ ok => absurd ok raised⟩
    intro done _ entry nothing
    cases nothing

/-- A broker that was given nothing yet. -/
def unused (equity : ℚ) : SimulatedOco where
  simulator := { equity := equity }

/-- Each group of a run keeps to one complete fill exactly when no bar of the run fills a
sibling of an order that is done. -/
theorem oco_simulated (broker : MarketSimulatorBroker) (equity : ℚ) (calls : List Call) :
    Machine.Meets (step broker) (SparesSiblings broker) (unused equity) calls ↔
      Machine.Always (step broker) OneCancelsOther (unused equity) calls := by
  apply Machine.meets_iff_always OneCancelsOther OneCancelsOther (fun s held => held)
  · intro s call t held spares moved
    cases call with
    | processBar bar =>
      cases moved
      exact (oneCancelsOther_bar held bar).mp spares
    | _ =>
      cases moved
      exact held
  · intro s call t held moved kept
    cases call with
    | processBar bar =>
      cases moved
      exact (oneCancelsOther_bar held bar).mpr kept
    | _ => trivial
  · intro s call stuck
    cases call with
    | _ => cases stuck
  · exact List.Pairwise.nil

/-- Two legs of one bracket fill on the same bar. -/
theorem both_legs_fill :
    ¬ ∀ (broker : MarketSimulatorBroker) (equity : ℚ) (calls : List Call),
      Machine.Always (step broker) OneCancelsOther (unused equity) calls := by
  intro claim
  have kept := (claim SimulatorLedger.desk 10000
    [.placeOrder ⟨.hex 0, "ES", .buy, 1, .market, none, .gtc, some "oca-1"⟩,
      .placeOrder ⟨.hex 1, "ES", .sell, 1, .market, none, .gtc, some "oca-1"⟩,
      .processBar ⟨1, "ES", 100, 101, 99, 100, 1000⟩]).reached rfl
  revert kept
  decide +kernel

end SimulatedOco

end Binbot
