import Binbot.Async.Among
import Binbot.Execution.Exchange
import Binbot.Execution.MonitorInterface

/-!
# The monitor and its native stops

The monitor over the stop calls of the Binance adapter, against an exchange on which a
`closePosition` stop stays until it triggers or is cancelled. Positions change whenever
they like, a call may be acted on or not and may raise or not, and the process may die
at any point.
-/
namespace Binbot

open Async Data

/-- An open position. -/
structure HeldPosition where
  lots : ℤ
  entryPrice : ℚ
  open_ : lots ≠ 0
  deriving DecidableEq

/-- What the adapter tells of a position, with its mark price and unrealized profit. -/
def HeldPosition.detail (held : HeldPosition) (symbol : Symbol) (mark : ℚ × ℚ) :
    PositionDetail where
  symbol := symbol
  side := if held.lots > 0 then .buy else .sell
  quantity := |held.lots|
  entryPrice := held.entryPrice
  markPrice := mark.1
  unrealizedPnl := mark.2

/-- A long of five lots. -/
def fiveLong : HeldPosition := ⟨5, 30000, by decide⟩

/-- A stop that the exchange has accepted from `place_stop_loss`. -/
structure PlacedStop where
  orderId : StopId
  symbol : Symbol
  isLong : Bool
  price : ℚ
  /-- The figures that its price was computed from, which nobody keeps. -/
  entryPrice : ℚ
  quantityLots : ℤ
  maxLossUsdt : ℚ
  deriving DecidableEq

structure StopAccount where
  positions : Dict Symbol HeldPosition := .empty
  stops : List PlacedStop := []
  nextId : StopId := 0

/-- What the outside decides about one request: whether the exchange acts on it, what the
call raises, and the figures that it returns. -/
structure StopService where
  acts : Bool := true
  raises : Option String := none
  equity : ℚ := 0
  /-- Mark price and unrealized profit of a position. -/
  marks : Symbol → ℚ × ℚ := fun _ => (0, 0)
  clock : Timestamp := 0

def StopService.answered {α : Type} (service : StopService) (value : α) : Except String α :=
  match service.raises with
  | some e => .error e
  | none => .ok value

namespace StopAccount

variable (x : StopAccount)

/-- A `closePosition` order joins the book. -/
def accept (entryPrice : ℚ) (quantityLots : ℤ) (maxLossUsdt : ℚ) (params : OrderParams) :
    StopAccount :=
  match params.order with
  | .closePosition price =>
    { x with
      stops := x.stops ++ [⟨x.nextId, params.symbol, params.side = .sell, price, entryPrice,
        quantityLots, maxLossUsdt⟩]
      nextId := x.nextId + 1 }
  | _ => x

/-- The wire behind `place_stop_loss`, called with these figures. -/
def servePlace (service : StopService) (entryPrice : ℚ) (quantityLots : ℤ) (maxLossUsdt : ℚ) :
    (q : WireReq) → Answer wireSig q × StopAccount
  | .createOrder params =>
    if service.acts then
      (service.answered x.nextId, x.accept entryPrice quantityLots maxLossUsdt params)
    else (.error (service.raises.getD "refused"), x)
  | _ => (.error "not asked", x)

/-- The wire behind `cancel_stop_loss`. -/
def serveCancel (service : StopService) : (q : WireReq) → Answer wireSig q × StopAccount
  | .cancelOrderById symbol id =>
    if service.acts then
      (service.answered (), { x with
        stops := x.stops.filter fun stop => ¬ (stop.symbol = symbol ∧ stop.orderId = id) })
    else (.error (service.raises.getD "refused"), x)
  | _ => (.error "not asked", x)

end StopAccount

/-- What happens at the exchange by itself, or in other parts of the bot. -/
inductive StopMove where
  /-- Fills open, change, flip or close a position. -/
  | hold (symbol : Symbol) (held : Option HeldPosition)
  /-- A stop triggers, or somebody else cancels it. -/
  | leave (id : StopId)
  /-- The filters of a symbol are loaded, as the exchange publishes them. -/
  | load (symbol : Symbol)

structure StopOutside where
  broker : BrokerState := {}
  account : StopAccount := {}

namespace StopOutside

variable (rules : ExchangeRules) (d : StopOutside)

def adapter (clock : Timestamp) : BinanceFuturesBroker BrokerState wireSig where
  client := wireClient BrokerState
  symbols := []
  now := pure clock

/-- What `get_position_details` makes of the open positions: those of symbols with filters. -/
def details (marks : Symbol → ℚ × ℚ) : List PositionDetail :=
  let listed := d.account.positions.entries.filter fun (symbol, _) =>
    d.broker.filters.contains symbol
  listed.map fun (symbol, held) => held.detail symbol (marks symbol)

/-- Serve one request of the monitor; the stop calls run the adapter. -/
def serve (service : StopService) : (q : MonitorReq) → Answer monitorSig q × StopOutside
  | .positionDetails => (service.answered (d.details service.marks), d)
  | .accountEquity => (service.answered service.equity, d)
  | .placeStopLoss symbol isLong entryPrice quantityLots maxLossUsdt =>
    let outcome := ((adapter service.clock).placeStopLoss symbol isLong entryPrice quantityLots
      maxLossUsdt).exec (fun x q => x.servePlace service entryPrice quantityLots maxLossUsdt q)
        d.account d.broker
    (outcome.result, ⟨outcome.memory, outcome.outside⟩)
  | .cancelStopLoss symbol orderId =>
    let outcome := ((adapter service.clock).cancelStopLoss symbol orderId).exec
      (fun x q => x.serveCancel service q) d.account d.broker
    (outcome.result, ⟨outcome.memory, outcome.outside⟩)
  | .closeEvent _ _ => (service.answered (), d)
  | .submit _ _ => (service.answered (), d)

def happen : StopMove → StopOutside
  | .hold symbol (some held) =>
    { d with account := { d.account with positions := d.account.positions.set symbol held } }
  | .hold symbol none =>
    { d with account := { d.account with positions := d.account.positions.erase symbol } }
  | .leave id =>
    { d with account := { d.account with stops := d.account.stops.filter (·.orderId ≠ id) } }
  | .load symbol =>
    { d with broker :=
      { d.broker with filters := d.broker.filters.set symbol (rules.spec symbol) } }

def happened (moves : List StopMove) : StopOutside := moves.foldl (happen rules) d

end StopOutside

/-- While a poll waits for an answer: what happens before its request is served, how it is
served, and what happens before the poll goes on. -/
structure StopTurn where
  before : List StopMove := []
  service : StopService := {}
  after : List StopMove := []

/-- The outside of one poll: its decision for the `n`-th request, and the price feed. -/
structure StopTurns where
  turn : ℕ → MonitorReq → StopTurn := fun _ _ => {}
  latestPrice : Symbol → Option ℚ := fun _ => none

/-- The process and the exchange. -/
structure StopDesk where
  memory : MonitorState := .initial
  outside : StopOutside := {}

namespace StopDesk

inductive Act where
  | poll (turns : StopTurns)
  /-- The process dies during a poll, where the last of its requests raises, and starts
  again. -/
  | die (turns : StopTurns)
  /-- The process starts again between two polls. -/
  | restart
  | move (m : StopMove)

variable (p : MonitorParams) (rules : ExchangeRules)

/-- One suspension of a poll. -/
def serveAmong (turns : StopTurns) (w : StopOutside × ℕ) (m : MonitorState) (q : MonitorReq) :
    Answer monitorSig q × (StopOutside × ℕ) × MonitorState :=
  let turn := turns.turn w.2 q
  let served := (w.1.happened rules turn.before).serve turn.service q
  (served.1, (served.2.happened rules turn.after, w.2 + 1), m)

def polled (d : StopDesk) (turns : StopTurns) :
    Coro.Outcome (StopOutside × ℕ) MonitorState Unit :=
  (p.monitor turns.latestPrice).checkOnce.runAmong (serveAmong rules turns) (d.outside, 0) d.memory

/-- A new process against the same exchange. -/
def reborn (outside : StopOutside) : StopDesk := ⟨.initial, { outside with broker := {} }⟩

def step (d : StopDesk) : Act → Option StopDesk
  | .poll turns => some ⟨(d.polled p rules turns).memory, (d.polled p rules turns).outside.1⟩
  | .die turns => some (reborn (d.polled p rules turns).outside.1)
  | .restart => some (reborn d.outside)
  | .move m => some { d with outside := d.outside.happen rules m }

end StopDesk

/-! ## What the stop calls do -/

namespace StopOutside

variable {rules : ExchangeRules} (d : StopOutside) (service : StopService)

/-- `cancel_stop_loss` returns, whatever became of the cancel. -/
theorem serve_cancel (symbol : Symbol) (id : StopId) :
    d.serve service (.cancelStopLoss symbol id) = (.ok (), { d with account :=
      if service.acts then { d.account with
        stops := d.account.stops.filter fun stop => ¬ (stop.symbol = symbol ∧ stop.orderId = id) }
      else d.account }) := by
  have asked : ((adapter service.clock).cancelStopLoss symbol id) =
      (tryCatch (Coro.request (S := wireSig) (.cancelOrderById symbol id)) fun _ => pure () :
        Coro BrokerState wireSig Unit) := rfl
  simp only [serve, asked, Coro.exec_tryCatch, Coro.exec_request, StopAccount.serveCancel,
    StopService.answered]
  cases service.acts with
  | false => rfl
  | true =>
    cases service.raises with
    | none => rfl
    | some e => rfl

/-- The stop that `place_stop_loss` asks for with these filters. -/
def stopOf (filt : SymbolFilters) (symbol : Symbol) (isLong : Bool) (entryPrice : ℚ)
    (quantityLots : ℤ) (maxLossUsdt : ℚ) : PlacedStop where
  orderId := d.account.nextId
  symbol := symbol
  isLong := isLong
  price := BinanceFuturesBroker.stopPrice filt isLong entryPrice
    (filt.lotsToQuantity quantityLots) maxLossUsdt
  entryPrice := entryPrice
  quantityLots := quantityLots
  maxLossUsdt := maxLossUsdt

/-- `place_stop_loss` returns: nothing is on the book for it, or its stop is, and then it
returns the stop's id unless the response was lost. -/
theorem serve_place (symbol : Symbol) (isLong : Bool) (entryPrice : ℚ) (quantityLots : ℤ)
    (maxLossUsdt : ℚ) :
    d.serve service (.placeStopLoss symbol isLong entryPrice quantityLots maxLossUsdt) =
        (.ok none, d) ∨
    ∃ filt, d.broker.filters.get? symbol = some filt ∧ 0 < quantityLots ∧
      0 < filt.lotsToQuantity quantityLots ∧ service.acts = true ∧
      d.serve service (.placeStopLoss symbol isLong entryPrice quantityLots maxLossUsdt) =
        (.ok (if service.raises = none then some d.account.nextId else none),
          { d with account := { d.account with
            stops := d.account.stops ++
              [d.stopOf filt symbol isLong entryPrice quantityLots maxLossUsdt]
            nextId := d.account.nextId + 1 } }) := by
  simp only [serve, BinanceFuturesBroker.placeStopLoss, Coro.exec_bind, Coro.exec_view,
    Coro.Outcome.andThen_ok, Part.whole_view]
  split
  · exact .inl rfl
  next filt loaded =>
    split
    · exact .inl rfl
    next sized =>
      split
      · exact .inl rfl
      next positive =>
        rw [not_or, not_le, not_le] at sized
        simp only [adapter, wireClient, Coro.exec_bind, Coro.exec_pure, Coro.Outcome.andThen_ok,
          Coro.exec_tryCatch, Coro.exec_request, StopAccount.servePlace, StopService.answered]
        cases acts : service.acts with
        | false => exact .inl rfl
        | true =>
          refine .inr ⟨filt, loaded, sized.1, sized.2, rfl, ?_⟩
          cases service.raises with
          | none => simp [StopAccount.accept, stopOf]
          | some e => simp [StopAccount.accept, stopOf]

end StopOutside

end Binbot
