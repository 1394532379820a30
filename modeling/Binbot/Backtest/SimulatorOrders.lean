import Binbot.Backtest.SimulatorFills

/-!
# What the simulator's calls do to the waiting orders

One lemma for each call: the orders that wait under each symbol afterwards, and the
events that the call reports.
-/
namespace Binbot

open Data

namespace SimulatorState

variable (m : SimulatorState)

/-- The orders that wait for a bar of the symbol. -/
def waiting (symbol : Symbol) : List PendingOrder := m.pendingOrders.getD symbol []

@[simp] theorem placeOrder_eventQueue (request : BrokerOrderRequest) :
    (m.placeOrder request).eventQueue =
      m.eventQueue ++ [.ack ⟨request.orderId, request.symbol, .acknowledged, none⟩] := rfl

theorem placeOrder_waiting (request : BrokerOrderRequest) (symbol : Symbol) :
    (m.placeOrder request).waiting symbol =
      if symbol = request.symbol then m.waiting symbol ++ [m.pendingOrder request]
      else m.waiting symbol :=
  MarketSimulatorBroker.placeOrder_pending m request symbol

/-- Rewriting some entries of a dictionary, one key after the other. -/
private theorem getD_foldl_filter (keep : PendingOrder → Bool) (keys : List Symbol)
    (pending : Dict Symbol (List PendingOrder)) (symbol : Symbol) :
    (keys.foldl (fun pending key => pending.set key ((pending.getD key []).filter keep))
        pending).getD symbol [] =
      if symbol ∈ keys then (pending.getD symbol []).filter keep else pending.getD symbol [] := by
  induction keys generalizing pending with
  | nil => simp
  | cons key rest ih =>
    rw [List.foldl_cons, ih]
    by_cases here : symbol = key
    · subst here
      simp [Dict.getD, List.filter_filter]
    · simp [Dict.getD, Dict.get?_set_ne _ _ here, here]

theorem cancelOrder_waiting (orderId : OrderId) (symbol : Symbol) :
    (m.cancelOrder orderId).waiting symbol =
      (m.waiting symbol).filter (·.request.orderId ≠ orderId) := by
  rw [waiting, cancelOrder, getD_foldl_filter]
  split
  · rfl
  next absent =>
    -- nothing waits under a symbol that is no key
    have none : m.pendingOrders.getD symbol [] = [] := by
      rw [Dict.getD, (Dict.get?_eq_none_iff _ _).mpr absent]
      rfl
    rw [waiting, none]
    rfl

@[simp] theorem cancelAll_waiting (symbol : Symbol) : m.cancelAll.waiting symbol = [] := rfl

end SimulatorState

namespace MarketSimulatorBroker

variable (self : MarketSimulatorBroker) {bar : BarEvent}

@[simp] theorem apply_eventQueue (m : SimulatorState) (fill : Fill) :
    (self.apply m fill).eventQueue = m.eventQueue ++ [.execution (self.report fill)] := rfl

theorem applyFills_eventQueue (m : SimulatorState) (fills : List Fill) :
    (self.applyFills m fills).eventQueue =
      m.eventQueue ++ fills.map fun fill => .execution (self.report fill) := by
  induction fills generalizing m with
  | nil => simp [applyFills]
  | cons fill rest ih =>
    have tail := ih (self.apply m fill)
    rw [applyFills] at tail ⊢
    rw [List.foldl_cons, tail, apply_eventQueue]
    simp

/-- A bar, as far as the orders and their reports go. -/
structure Resolved (broker : MarketSimulatorBroker) (bar : BarEvent) (m m' : SimulatorState)
    (fills : List Fill) : Prop where
  order : fills.map (·.pending) = (m.waiting bar.symbol).filter (broker.Fills bar)
  fillsOf : broker.FillsOf bar (m.waiting bar.symbol) fills
  reported : m'.eventQueue = m.eventQueue ++ fills.map fun fill => .execution (broker.report fill)
  recorded : m'.fills = m.fills ++ fills.map broker.report
  waiting : ∀ symbol, m'.waiting symbol =
    if symbol = bar.symbol then (m.waiting symbol).filterMap (broker.carried bar)
    else m.waiting symbol

theorem processBar_priced {m m' counted : SimulatorState}
    (updated : self.updateHistory m bar = .ok counted) (processed : self.processBar m bar = .ok m') :
    ∃ fills, self.Resolved bar m m' fills ∧ self.Priced bar counted fills := by
  obtain ⟨volumes, returns, rfl⟩ := self.updateHistory_ok updated
  rw [processBar, updated] at processed
  cases processed
  obtain ⟨fills, order, fillsOf, priced, applied⟩ := self.resolveOrders_fst bar
    { m with volumeHistory := volumes, returnHistory := returns } (m.waiting bar.symbol)
  refine ⟨fills, ⟨order, fillsOf, ?_, ?_, ?_⟩, priced⟩
  · exact (congrArg SimulatorState.eventQueue applied).trans (self.applyFills_eventQueue _ fills)
  · exact (congrArg SimulatorState.fills applied).trans (self.applyFills_fills _ fills)
  · intro symbol
    have pending := congrArg SimulatorState.pendingOrders applied
    rw [applyFills_pendingOrders] at pending
    have kept := self.resolveOrders_snd bar
      { m with volumeHistory := volumes, returnHistory := returns } (m.waiting bar.symbol)
    rw [SimulatorState.waiting] at pending kept
    simp only [resolvePendingOrders, SimulatorState.waiting, pending, kept]
    by_cases here : symbol = bar.symbol
    · subst here
      simp [Dict.getD]
    · rw [if_neg here, Dict.getD, Dict.get?_set_ne _ _ here]
      rfl

theorem processBar_resolved {m m' : SimulatorState} (processed : self.processBar m bar = .ok m') :
    ∃ fills, self.Resolved bar m m' fills := by
  cases updated : self.updateHistory m bar with
  | error message =>
    rw [processBar, updated] at processed
    cases processed
  | ok counted =>
    obtain ⟨fills, resolved, -⟩ := self.processBar_priced updated processed
    exact ⟨fills, resolved⟩

end MarketSimulatorBroker

end Binbot
