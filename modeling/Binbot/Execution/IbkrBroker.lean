import Binbot.Data.Decimal
import Binbot.Execution.OrderManager

/-!
# IBKR adapter (`execution/ibkr_broker.py`)

The client is `ib_async`. It keeps a `Trade` for every order that it places, under an
integer id that it draws itself, and hands that `Trade` to the callbacks; all that the
adapter knows of an order it files under that id.
-/
namespace Binbot

open Async Data

/-- `_ORDER_TYPE_MAP`. -/
def OrderType.ibText : OrderType → String
  | .market => "MKT"
  | .limit => "LMT"
  | .stop => "STP"
  | .stopLimit => "STP LMT"
  | .marketOnClose => "MOC"

/-- `_TIF_MAP`. -/
def TimeInForce.ibText : TimeInForce → String
  | .day => "DAY"
  | .gtc => "GTC"
  | .ioc => "IOC"
  | .fok => "FOK"

/-- `_IB_STATUS_MAP`, with the default that its reader gives. -/
def OrderStatus.ofIb : String → OrderStatus
  | "PendingSubmit" => .pendingNew
  | "PreSubmitted" => .submitted
  | "Submitted" => .acknowledged
  | "PendingCancel" => .cancelPending
  | "Cancelled" => .cancelled
  | "ApiCancelled" => .cancelled
  | "Filled" => .filled
  | "Inactive" => .rejected
  | _ => .submitted

structure IbContract where
  symbol : Symbol
  exchange : String
  currency : String
  deriving DecidableEq

structure IbOrder where
  action : String
  orderType : String
  totalQuantity : ℚ
  tif : String
  lmtPrice : Option ℚ
  /-- The group and its type. -/
  oca : Option (String × ℕ)
  orderId : ℤ := 0
  permId : ℕ := 0
  deriving DecidableEq

structure IbFill where
  shares : ℚ
  price : ℚ
  /-- `getattr(fill.execution, "liquidity", 0)`. -/
  liquidity : ℤ
  /-- The commission, once its report is there. -/
  commission : Option ℚ
  deriving DecidableEq

structure IbTrade where
  contract : IbContract
  order : IbOrder
  /-- `orderStatus.status`. -/
  status : String
  fills : List IbFill
  /-- The request that the order was built from. The source does not keep it. -/
  request : BrokerOrderRequest
  deriving DecidableEq

/-- `ib_async.IB`, once connected. -/
structure IbClient where
  /-- The orders in the order in which they were placed. -/
  trades : List IbTrade := []
  /-- The ids of the orders given to `cancelOrder`. -/
  cancelled : List ℤ := []
  globalCancels : ℕ := 0
  positions : List (IbContract × ℚ) := []

structure IbkrState where
  ib : IbClient := {}
  eventQueue : List BrokerEvent := []
  /-- References to trades: their places among those of the client. -/
  tradesByOrderId : Dict OrderId ℕ := .empty
  contracts : Dict Symbol IbContract := .empty

inductive IbRequest where
  | qualifyContracts (contract : IbContract)
  | accountSummary (account : String)
  deriving DecidableEq

/-- Of an account row its tag, and its value as `float` reads it. -/
abbrev IbRequest.Reply : IbRequest → Type
  | .qualifyContracts _ => List IbContract
  | .accountSummary _ => List (String × ℚ)

abbrev ibSig : Sig := ⟨IbRequest, IbRequest.Reply⟩

structure IbkrBroker where
  account : String := ""
  futuresExchange : String := "CME"
  futuresCurrency : String := "USD"
  /-- The id that the client draws for the `n`-th order. -/
  drawId : ℕ → ℤ

namespace IbkrState

variable (m : IbkrState)

/-- `put_nowait` on a queue of 10 000 places; when it is full the callback ends there. -/
def putNowait (event : BrokerEvent) : IbkrState :=
  if m.eventQueue.length < 10000 then { m with eventQueue := m.eventQueue ++ [event] } else m

/-- `_on_error`: codes below 400 are informational. -/
def onError (reqId errorCode : ℤ) (errorString : String) : IbkrState :=
  if errorCode < 400 then m
  else m.putNowait (.reject ⟨.counted reqId, "", s!"IBKR error {errorCode}: {errorString}"⟩)

/-- `_on_exec_details`. -/
def onExecDetails (now : Timestamp) (trade : IbTrade) (fill : IbFill) : IbkrState :=
  let cumulative := (trade.fills.map (·.shares)).sum
  let remaining := trade.order.totalQuantity - cumulative
  m.putNowait (.execution
    { ts := now
      orderId := .counted trade.order.orderId
      symbol := trade.contract.symbol
      side := if trade.order.action = "BUY" then .buy else .sell
      fillQuantity := truncate fill.shares
      fillPrice := fill.price
      cumulativeQuantity := truncate cumulative
      remainingQuantity := truncate remaining
      commission := fill.commission.getD 0
      liquidity := if fill.liquidity = 2 then .maker else .taker
      expectedPrice := none })

/-- `_on_order_status`. -/
def onOrderStatus (trade : IbTrade) : IbkrState :=
  let orderId := .counted trade.order.orderId
  let status := OrderStatus.ofIb trade.status
  if status = .rejected then
    m.putNowait (.reject ⟨orderId, trade.contract.symbol, trade.status⟩)
  else
    let permId := if trade.order.permId = 0 then none else some trade.order.permId
    m.putNowait (.ack ⟨orderId, trade.contract.symbol, status, permId⟩)

end IbkrState

namespace IbkrBroker

variable (self : IbkrBroker)

/-- What `IB.placeOrder` makes of an order. -/
def tradeOf (n : ℕ) (contract : IbContract) (order : IbOrder) (request : BrokerOrderRequest) :
    IbTrade :=
  ⟨contract, { order with orderId := self.drawId n }, "PendingSubmit", [], request⟩

def orderOf (request : BrokerOrderRequest) : IbOrder where
  action := if request.side = .buy then "BUY" else "SELL"
  orderType := request.orderType.ibText
  totalQuantity := request.quantity
  tif := request.timeInForce.ibText
  lmtPrice := request.limitPrice
  -- `oca_type` is 1 in every request that is built
  oca := (request.ocaGroup.filter (· ≠ "")).map fun group => (group, 1)

/-- The end of `place_order`, which does not suspend. -/
def placeWith (request : BrokerOrderRequest) (contract : IbContract) (m : IbkrState) :
    IbkrState :=
  let trade := self.tradeOf m.ib.trades.length contract (orderOf request) request
  { m with
    ib := { m.ib with trades := m.ib.trades ++ [trade] }
    tradesByOrderId := m.tradesByOrderId.set (.counted trade.order.orderId) m.ib.trades.length }

variable {σ : Type} [Part σ IbkrState]

/-- `_qualify_future`. -/
def qualifyFuture (symbol : Symbol) : Coro σ ibSig IbContract := do
  let m : IbkrState ← Coro.view
  match m.contracts.get? symbol with
  | some contract => pure contract
  | none => do
    let qualified ← Coro.request (S := ibSig)
      (.qualifyContracts ⟨symbol, self.futuresExchange, self.futuresCurrency⟩)
    match (show List IbContract from qualified) with
    | [] => throw s!"could not qualify futures contract for symbol={symbol}"
    | first :: _ => do
      Coro.update fun m : IbkrState => { m with contracts := m.contracts.set symbol first }
      pure first

def placeOrder (request : BrokerOrderRequest) : Coro σ ibSig Unit := do
  let contract ← self.qualifyFuture request.symbol
  Coro.update (self.placeWith request contract)

def cancelOrder (orderId : OrderId) : Coro σ ibSig Unit := do
  let m : IbkrState ← Coro.view
  match m.tradesByOrderId.get? orderId with
  | none => pure ()
  | some place => Coro.update fun m : IbkrState =>
    let named := (m.ib.trades[place]?.map (·.order.orderId)).toList
    { m with ib := { m.ib with cancelled := m.ib.cancelled ++ named } }

def cancelAll : Coro σ ibSig Unit :=
  Coro.update fun m : IbkrState =>
    { m with ib := { m.ib with globalCancels := m.ib.globalCancels + 1 } }

def getAccountEquity : Coro σ ibSig ℚ := do
  let summary ← Coro.request (S := ibSig) (.accountSummary self.account)
  match (show List (String × ℚ) from summary).find? (·.1 = "NetLiquidation") with
  | some (_, value) => pure value
  | none => throw "NetLiquidation not found in account summary"

def getPositions : Coro σ ibSig (Dict Symbol ℤ) := do
  let m : IbkrState ← Coro.view
  pure (m.ib.positions.foldl (fun held (contract, position) =>
    held.set contract.symbol (truncate position)) .empty)

def getMarginUsage : Coro σ ibSig MarginUse := do
  let summary ← Coro.request (S := ibSig) (.accountSummary self.account)
  pure ((show List (String × ℚ) from summary).foldl (fun use (tag, value) =>
    if tag = "InitMarginReq" then { use with initial := value }
    else if tag = "MaintMarginReq" then { use with maintenance := value }
    else use) ⟨0, 0⟩)

def toInterface : BrokerInterface σ ibSig where
  placeOrder := self.placeOrder
  cancelOrder := cancelOrder
  cancelAll := cancelAll
  getAccountEquity := self.getAccountEquity
  getPositions := getPositions
  getMarginUsage := self.getMarginUsage
  reconcileState := getPositions

end IbkrBroker

end Binbot
