import Binbot.Execution.Exchange
import Binbot.Machine.Run

/-!
# Cancelling everything

`cancel_all` asks the exchange once for each symbol of the constructor's list. The
symbols that get orders are another set: `place_order` takes any symbol with
filters, and filters are loaded later, for the whole exchange.
-/
namespace Binbot

open Async Data

/-- The adapter by itself: its memory is its own state. -/
def adapter (symbols : List Symbol) (leverage : ℕ) (marginType : MarginType)
    (now : Timestamp) : BinanceFuturesBroker BrokerState wireSig where
  client := wireClient BrokerState
  symbols := symbols
  leverage := leverage
  marginType := marginType
  now := pure now

namespace Adapter

/-- The adapter's methods that a caller, or the user stream, runs. -/
inductive Call where
  | connect
  | loadAllFilters
  | ensureSymbolReady (symbol : Symbol) (leverage : ℕ) (marginType : MarginType)
  | placeOrder (request : BrokerOrderRequest)
  | cancelOrder (orderId : OrderId)
  | placeStopLoss (symbol : Symbol) (isLong : Bool) (entryPrice : ℚ) (quantityLots : ℤ)
      (maxLossUsdt : ℚ)
  | cancelStopLoss (symbol : Symbol) (orderId : StopId)
  | receive
  | cancelAll

/-- One outside decision for each request of a call, in order. -/
abbrev Services : Type := ℕ → Service

inductive Act where
  | call (method : Call) (services : Services)
  | move (m : Exchange.Move)

structure State where
  memory : BrokerState
  exchange : Exchange

section

variable (rules : ExchangeRules) (broker : BinanceFuturesBroker BrokerState wireSig)

def program : Call → Coro BrokerState wireSig Unit
  | .connect => broker.connect
  | .loadAllFilters => broker.loadAllFilters
  | .ensureSymbolReady symbol leverage marginType =>
    broker.ensureSymbolReady symbol leverage marginType
  | .placeOrder request => broker.placeOrder request
  | .cancelOrder orderId => broker.cancelOrder orderId
  | .placeStopLoss symbol isLong entryPrice quantityLots maxLossUsdt => do
    let _ ← broker.placeStopLoss symbol isLong entryPrice quantityLots maxLossUsdt
  | .cancelStopLoss symbol orderId => broker.cancelStopLoss symbol orderId
  | .receive => do
    let message ← Coro.request (S := wireSig) .streamRecv
    broker.handleUserStreamMessage message
  | .cancelAll => broker.cancelAll

/-- The exchange answers the requests one after the other; the number counts them. -/
def answer (services : Services) (w : Exchange × ℕ) (q : WireReq) :
    Answer wireSig q × (Exchange × ℕ) :=
  let served := w.1.serve rules (services w.2) q
  (served.1, (served.2, w.2 + 1))

def run (method : Call) (services : Services) (s : State) :
    Coro.Outcome (Exchange × ℕ) BrokerState Unit :=
  (program broker method).exec (answer rules services) (s.exchange, 0) s.memory

def step (s : State) : Act → Option State
  | .call method services =>
    let outcome := run rules broker method services s
    some ⟨outcome.memory, outcome.outside.1⟩
  | .move m => (s.exchange.move rules m).map fun x => { s with exchange := x }

end

/-- Every call succeeds. -/
def Succeeds (services : Services) : Prop :=
  ∀ n, (services n).acts = true ∧ (services n).raises = none

/-- No order that the exchange accepted from `place_order` works any more. -/
def Cleared (x : Exchange) : Prop := ∀ o ∈ x.orders, o.standing ≠ .working

/-- The order once every symbol of the list has been cancelled. -/
def swept (symbols : List Symbol) (o : ExchangeOrder) : ExchangeOrder :=
  if o.standing = .working ∧ o.symbol ∈ symbols then { o with standing := .cancelled } else o

theorem swept_cons (symbol : Symbol) (rest : List Symbol) (o : ExchangeOrder) :
    swept rest (swept [symbol] o) = swept (symbol :: rest) o := by
  simp only [swept]
  by_cases working : o.standing = .working
  · by_cases here : o.symbol = symbol
    · simp [working, here]
    · simp [working, here]
  · simp [working]

theorem act_cancelAllOpenOrders (rules : ExchangeRules) (x : Exchange) (symbol : Symbol) :
    (x.act rules (.cancelAllOpenOrders symbol)).orders = x.orders.map (swept [symbol]) := by
  simp only [Exchange.act, Exchange.endOrders]
  apply List.map_congr_left
  intro o _
  simp [swept]

variable (rules : ExchangeRules)

theorem serve_succeeds {services : Services} (succeeds : Succeeds services) (w : Exchange × ℕ)
    (q : WireReq) : answer rules services w q =
      (.ok (w.1.value rules (services w.2) q), (w.1.act rules q, w.2 + 1)) := by
  simp [answer, Exchange.serve, (succeeds w.2).1, (succeeds w.2).2]

/-- `cancel_all` sweeps the constructor's list. -/
theorem cancelAll_orders {services : Services} (succeeds : Succeeds services)
    (symbols : List Symbol) (w : Exchange × ℕ) (m : BrokerState) :
    ((Coro.forEach (fun symbol =>
        tryCatch ((wireClient BrokerState).cancelAllOpenOrders symbol) fun _ => pure ())
      symbols).exec (answer rules services) w m).outside.1.orders =
        w.1.orders.map (swept symbols) := by
  induction symbols generalizing w m with
  | nil =>
    have untouched : swept [] = id := by funext o; simp [swept]
    rw [untouched, List.map_id]
    rfl
  | cons symbol rest ih =>
    have called : (wireClient BrokerState).cancelAllOpenOrders symbol =
      Coro.request (S := wireSig) (.cancelAllOpenOrders symbol) := rfl
    rw [Coro.exec_forEach_cons, Coro.exec_tryCatch, called, Coro.exec_request,
      serve_succeeds rules succeeds]
    simp only [Coro.Outcome.orElse_ok, Coro.Outcome.andThen_ok]
    rw [ih, act_cancelAllOpenOrders, List.map_map]
    apply List.map_congr_left
    intro o _
    exact swept_cons symbol rest o

theorem cleared_swept (symbols : List Symbol) (orders : List ExchangeOrder) :
    (∀ o ∈ orders.map (swept symbols), o.standing ≠ .working) ↔
      ∀ o ∈ orders, o.standing = .working → o.symbol ∈ symbols := by
  simp only [List.mem_map, forall_exists_index, and_imp, forall_apply_eq_imp_iff₂, swept]
  refine forall₂_congr fun o _ => ?_
  by_cases working : o.standing = .working
  · by_cases listed : o.symbol ∈ symbols
    · simp [working, listed]
    · simp [working, listed]
  · simp [working]

/-- A `cancel_all` of the run that succeeds leaves nothing working. -/
def ClearsAll (broker : BinanceFuturesBroker BrokerState wireSig) (s : State) (a : Act) : Prop :=
  ∀ services t, a = .call .cancelAll services → Succeeds services →
    step rules broker s a = some t → Cleared t.exchange

/-- It is called when every order that works is in a symbol of the list. -/
def OnlyListed (symbols : List Symbol) (s : State) (a : Act) : Prop :=
  ∀ services, a = .call .cancelAll services → Succeeds services →
    ∀ o ∈ s.exchange.orders, o.standing = .working → o.symbol ∈ symbols

/-- In every run of the adapter, each successful `cancel_all` clears the exchange of
its orders if and only if each is called with working orders in listed symbols only. -/
theorem cancel_all_clears_iff (symbols : List Symbol) (leverage : ℕ) (marginType : MarginType)
    (now : Timestamp) (s : State) (acts : List Act) :
    Machine.Meets (step rules (adapter symbols leverage marginType now))
        (ClearsAll rules (adapter symbols leverage marginType now)) s acts ↔
      Machine.Meets (step rules (adapter symbols leverage marginType now))
        (OnlyListed symbols) s acts := by
  have sweeps : ∀ (s : State) {services}, Succeeds services →
      (Cleared (run rules (adapter symbols leverage marginType now) .cancelAll services
        s).outside.1 ↔ ∀ o ∈ s.exchange.orders, o.standing = .working → o.symbol ∈ symbols) := by
    intro s services succeeds
    rw [Cleared, ← cleared_swept]
    have orders := cancelAll_orders rules succeeds symbols (s.exchange, 0) s.memory
    exact iff_of_eq (congrArg (fun os : List ExchangeOrder => ∀ o ∈ os, o.standing ≠ .working) orders)
  apply Machine.meets_iff (fun _ => True) (fun _ _ _ _ _ _ => trivial) _ s acts trivial
  intro s a _
  constructor
  · rintro clears services rfl succeeds
    exact (sweeps s succeeds).mp (clears services _ rfl succeeds rfl)
  · rintro listed services t rfl succeeds moved
    cases moved
    exact (sweeps s succeeds).mpr (listed services rfl succeeds)

/-- As the scanner runs it: no symbols at construction, filters for the whole
exchange, one limit order, and then everything is cancelled. -/
def scannerActs : List Act :=
  [.call .loadAllFilters fun _ => { info := [demoInfo "BTCUSDT"] },
    .call (.ensureSymbolReady "BTCUSDT" 10 .isolated) fun _ => {},
    .call (.placeOrder ⟨.hex 0, "BTCUSDT", .buy, 10, .limit, some 40000, .gtc, none⟩) fun _ => {},
    .call .cancelAll fun _ => {}]

/-- Every call has succeeded and the order still works. -/
theorem cancel_all_misses_scanner_order :
    ∃ t, Machine.run (step demoRules (adapter [] 10 .isolated 0))
        ⟨{}, { position := fun _ => 0 }⟩ scannerActs = some t ∧
      t.exchange.orders = [⟨.hex 0, "BTCUSDT", .buy, .limit, 10, 0, .working⟩] ∧
      ¬ Cleared t.exchange := by
  have ends : (Machine.run (step demoRules (adapter [] 10 .isolated 0))
      ⟨{}, { position := fun _ => 0 }⟩ scannerActs).map (fun t => t.exchange.orders) =
      some [⟨.hex 0, "BTCUSDT", .buy, .limit, 10, 0, .working⟩] := by decide +kernel
  obtain ⟨t, reached, orders⟩ := Option.map_eq_some_iff.mp ends
  refine ⟨t, reached, orders, ?_⟩
  intro cleared
  exact cleared _ (by rw [orders]; exact List.mem_singleton_self _) rfl

end Adapter

end Binbot
