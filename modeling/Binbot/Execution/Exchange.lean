import Binbot.Execution.BinanceBroker
import Binbot.Server.DashboardBridge

/-!
# The other end of the wire

What the adapter assumes of the exchange: an accepted order works until it has
filled, was cancelled or expired, and a fill moves the net position by its own
signed quantity, whatever the position is. The exchange counts in lots of the
steps that it publishes. Which requests it takes, and which calls raise in the
bot, is left open.
-/
namespace Binbot

open Async Data

inductive WireReq where
  | exchangeInfo
  | changeMarginType (symbol : Symbol) (marginType : MarginType)
  | changeLeverage (symbol : Symbol) (leverage : ℕ)
  | leverageBracket (symbol : Symbol)
  | createOrder (params : OrderParams)
  | cancelOrder (symbol : Symbol) (orderId : OrderId)
  | cancelOrderById (symbol : Symbol) (orderId : StopId)
  | cancelAllOpenOrders (symbol : Symbol)
  | account
  | positionInformation
  | streamRecv
  | broadcast (message : DashboardMessage)
  | pushAudit (entry : AuditEntry)
  | notify (text : String)
  deriving DecidableEq

abbrev WireReq.Reply : WireReq → Type
  | .exchangeInfo => List SymbolInfo
  | .leverageBracket _ => ℕ
  | .createOrder _ => StopId
  | .account => AccountInfo
  | .positionInformation => List PositionRow
  | .streamRecv => UserStreamMessage
  | _ => Unit

abbrev wireSig : Sig := ⟨WireReq, WireReq.Reply⟩

/-- Where an accepted order stands. -/
inductive Standing where
  | working
  | filled
  | cancelled
  | expired
  deriving DecidableEq, Repr

/-- An order that the exchange has accepted from `place_order`, in lots. -/
structure ExchangeOrder where
  id : OrderId
  symbol : Symbol
  side : OrderSide
  orderType : OrderType
  quantity : ℤ
  filled : ℤ
  standing : Standing
  deriving DecidableEq

namespace ExchangeOrder

variable (o : ExchangeOrder)

/-- What the order may still add to the net position. -/
def signedRemaining : ℤ := o.side.sign * (o.quantity - o.filled)

def fill (lots : ℤ) : ExchangeOrder :=
  { o with
    filled := o.filled + lots
    standing := if o.filled + lots = o.quantity then .filled else .working }

end ExchangeOrder

/-- A `closePosition` stop. It closes whatever is held when it triggers. -/
structure NativeStop where
  orderId : StopId
  clientId : OrderId
  symbol : Symbol
  side : OrderSide
  deriving DecidableEq

/-- The filters that the exchange enforces, and publishes as it enforces them. -/
structure ExchangeRules where
  spec : Symbol → SymbolFilters
  regular : ∀ symbol, (spec symbol).Regular

/-- Every symbol in steps of 0.001. -/
def demoRules : ExchangeRules where
  spec symbol := ⟨symbol, 1 / 10, 1 / 1000, 1 / 1000, 5, 3, 1⟩
  regular _ := ⟨by norm_num, 1, by norm_num⟩

/-- The published record of a symbol of `demoRules`. -/
def demoInfo (symbol : Symbol) : SymbolInfo where
  symbol := symbol
  filters := [.priceFilter (1 / 10), .lotSize (1 / 1000) (1 / 1000), .minNotional 5]
  quantityPrecision := 3
  pricePrecision := 1
  status := "TRADING"
  contractType := "PERPETUAL"
  quoteAsset := "USDT"

example : BinanceFuturesBroker.parseFilters "BTCUSDT" (demoInfo "BTCUSDT") =
    demoRules.spec "BTCUSDT" := by decide +kernel

structure Exchange where
  position : Symbol → ℤ
  orders : List ExchangeOrder := []
  stops : List NativeStop := []
  /-- User-stream messages that the bot has not received yet. -/
  stream : List UserStreamMessage := []
  nextId : ℕ := 0

/-- What the outside decides about one request: whether the exchange acts on it,
what the call raises if it does, and the figures that are its own. -/
structure Service where
  acts : Bool := true
  raises : Option String := none
  account : AccountInfo := ⟨0, 0, 0⟩
  info : List SymbolInfo := []
  bracket : ℕ := 1
  /-- The rows listed: symbol, entry price, mark price and unrealized profit. -/
  marks : List (Symbol × ℚ × ℚ × ℚ) := []

/-- The figures of one fill that are the exchange's own. -/
structure FillDetail where
  price : ℚ
  commission : ℚ
  maker : Bool
  time : Timestamp
  deriving DecidableEq

namespace Exchange

variable (rules : ExchangeRules) (x : Exchange)

/-- The user-stream message about an order, `last` lots of which have just filled. -/
def report (o : ExchangeOrder) (execType : ExecType) (status : WireStatus) (last : ℤ)
    (detail : FillDetail) : UserStreamMessage :=
  let step := (rules.spec o.symbol).stepSize
  .orderTradeUpdate
    { clientOrderId := o.id
      symbol := o.symbol
      side := o.side
      execType := execType
      status := status
      lastFilled := last * step
      cumulativeFilled := o.filled * step
      originalQuantity := o.quantity * step
      lastPrice := detail.price
      commission := detail.commission
      maker := detail.maker
      tradeTime := detail.time
      orderId := 0 }

/-- A report without a fill. -/
def notice (o : ExchangeOrder) (status : WireStatus) : UserStreamMessage :=
  report rules o .other status 0 ⟨0, 0, false, 0⟩

/-- End the working orders that meet the test, and report each. -/
def endOrders (standing : Standing) (status : WireStatus) (test : ExchangeOrder → Bool) : Exchange :=
  { x with
    orders := x.orders.map fun o =>
      if o.standing = .working ∧ test o then { o with standing := standing } else o
    stream := x.stream ++ (x.orders.filter fun o => o.standing = .working ∧ test o).map
      fun o => notice rules o status }

/-- The lots of an order on the wire; `closePosition` has none of its own. -/
def wireLots (symbol : Symbol) : WireOrder → Option ℤ
  | .market quantity => some ((rules.spec symbol).quantityToLots quantity)
  | .limit quantity _ _ => some ((rules.spec symbol).quantityToLots quantity)
  | .stopMarket quantity => some ((rules.spec symbol).quantityToLots quantity)
  | .stop quantity => some ((rules.spec symbol).quantityToLots quantity)
  | .closePosition _ => none

def accept (params : OrderParams) : Exchange :=
  match wireLots rules params.symbol params.order with
  | some lots =>
    let o : ExchangeOrder :=
      ⟨params.newClientOrderId, params.symbol, params.side, params.order.orderType, lots, 0, .working⟩
    { x with
      orders := x.orders ++ [o]
      stream := x.stream ++ [notice rules o .new]
      nextId := x.nextId + 1 }
  | none =>
    { x with
      stops := x.stops ++ [⟨x.nextId, params.newClientOrderId, params.symbol, params.side⟩]
      nextId := x.nextId + 1 }

/-- The book after a request that the exchange acts on. -/
def act : WireReq → Exchange
  | .createOrder params => x.accept rules params
  | .cancelOrder _ id => x.endOrders rules .cancelled .canceled (·.id = id)
  | .cancelOrderById _ id => { x with stops := x.stops.filter (·.orderId ≠ id) }
  | .cancelAllOpenOrders symbol =>
    { x.endOrders rules .cancelled .canceled (·.symbol = symbol) with
      stops := x.stops.filter (·.symbol ≠ symbol) }
  | .streamRecv => { x with stream := x.stream.tail }
  | _ => x

def row (mark : Symbol × ℚ × ℚ × ℚ) : PositionRow where
  symbol := mark.1
  positionAmt := x.position mark.1 * (rules.spec mark.1).stepSize
  entryPrice := mark.2.1
  markPrice := mark.2.2.1
  unRealizedProfit := mark.2.2.2

/-- What a call returns that does not raise. -/
def value (service : Service) : (q : WireReq) → q.Reply
  | .exchangeInfo => service.info
  | .changeMarginType _ _ => ()
  | .changeLeverage _ _ => ()
  | .leverageBracket _ => service.bracket
  | .createOrder _ => x.nextId
  | .cancelOrder _ _ => ()
  | .cancelOrderById _ _ => ()
  | .cancelAllOpenOrders _ => ()
  | .account => service.account
  | .positionInformation => service.marks.map (x.row rules)
  | .streamRecv => x.stream.head?.getD .other
  | .broadcast _ => ()
  | .pushAudit _ => ()
  | .notify _ => ()

/-- Serve one request. A request that is not acted on raises; one that is acted on
may raise all the same, when its response is lost. -/
def serve (service : Service) (q : WireReq) : Answer wireSig q × Exchange :=
  if service.acts then
    (match service.raises with
      | some e => .error e
      | none => .ok (x.value rules service q),
     x.act rules q)
  else (.error (service.raises.getD "refused"), x)

/-- What happens at the exchange by itself. -/
inductive Move where
  | fill (id : OrderId) (lots : ℤ) (detail : FillDetail)
  | expire (id : OrderId)
  | cancel (id : OrderId)
  | trigger (stop : StopId) (detail : FillDetail)
  deriving DecidableEq

def findWorking (id : OrderId) : Option ExchangeOrder :=
  x.orders.find? fun o => o.id = id ∧ o.standing = .working

/-- `lots` of a working order fill. -/
def fillOrder (o : ExchangeOrder) (lots : ℤ) (detail : FillDetail) : Exchange :=
  { x with
    orders := x.orders.map fun other => if other = o then o.fill lots else other
    position := Function.update x.position o.symbol (x.position o.symbol + o.side.sign * lots)
    stream := x.stream ++ [report rules (o.fill lots) .trade
      (if (o.fill lots).standing = .filled then .filled else .partiallyFilled) lots detail] }

/-- A triggered stop sells or buys back whatever is held. -/
def triggerStop (stop : NativeStop) (detail : FillDetail) : Exchange :=
  let held := x.position stop.symbol
  let o : ExchangeOrder :=
    ⟨stop.clientId, stop.symbol, .closing held, .stop, |held|, |held|, .filled⟩
  { x with
    stops := x.stops.filter (·.orderId ≠ stop.orderId)
    position := Function.update x.position stop.symbol 0
    stream := x.stream ++ [report rules o .trade .filled |held| detail] }

def move : Move → Option Exchange
  | .fill id lots detail =>
    (x.findWorking id).bind fun o =>
      if 0 < lots ∧ lots ≤ o.quantity - o.filled then some (x.fillOrder rules o lots detail)
      else none
  | .expire id => some (x.endOrders rules .expired .expired (·.id = id))
  | .cancel id => some (x.endOrders rules .cancelled .canceled (·.id = id))
  | .trigger stop detail =>
    (x.stops.find? (·.orderId = stop)).map fun s => x.triggerStop rules s detail

end Exchange

/-- The adapter's client, when every call of it is a request. -/
def wireClient (σ : Type) : BinanceClient σ wireSig where
  exchangeInfo := Coro.request (S := wireSig) .exchangeInfo
  changeMarginType symbol type := Coro.request (S := wireSig) (.changeMarginType symbol type)
  changeLeverage symbol leverage := Coro.request (S := wireSig) (.changeLeverage symbol leverage)
  leverageBracket symbol := Coro.request (S := wireSig) (.leverageBracket symbol)
  createOrder params := Coro.request (S := wireSig) (.createOrder params)
  cancelOrder symbol id := Coro.request (S := wireSig) (.cancelOrder symbol id)
  cancelOrderById symbol id := Coro.request (S := wireSig) (.cancelOrderById symbol id)
  cancelAllOpenOrders symbol := Coro.request (S := wireSig) (.cancelAllOpenOrders symbol)
  account := Coro.request (S := wireSig) .account
  positionInformation := Coro.request (S := wireSig) .positionInformation

end Binbot
