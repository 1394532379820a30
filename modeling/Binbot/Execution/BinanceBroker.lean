import Binbot.Data.Decimal
import Binbot.Execution.OrderManager
import Binbot.Execution.PositionMonitor

/-!
# Binance futures adapter (`execution/binance_broker.py`)

Orders are whole lots inside the bot and real quantities on the wire. The REST
client is the record `BinanceClient`; acks, fills and rejects come back through
the adapter's own event queue.
-/
namespace Binbot

open Async Data

structure SymbolFilters where
  symbol : Symbol
  tickSize : ℚ
  stepSize : ℚ
  minQty : ℚ
  minNotional : ℚ
  quantityPrecision : ℕ
  pricePrecision : ℕ
  deriving DecidableEq

namespace SymbolFilters

variable (f : SymbolFilters)

def lotsToQuantity (lots : ℤ) : ℚ := roundTo (lots * f.stepSize) f.quantityPrecision

def quantityToLots (quantity : ℚ) : ℤ :=
  if f.stepSize ≤ 0 then roundHalfEven quantity else roundHalfEven (quantity / f.stepSize)

/-- Filters as the exchange publishes them: a positive step with at most
`quantityPrecision` decimals. -/
structure Regular : Prop where
  step_pos : 0 < f.stepSize
  on_grid : ∃ k : ℤ, f.stepSize * 10 ^ f.quantityPrecision = k

variable {f}

theorem Regular.lotsToQuantity_eq (regular : f.Regular) (lots : ℤ) :
    f.lotsToQuantity lots = lots * f.stepSize := by
  obtain ⟨k, grid⟩ := regular.on_grid
  apply roundTo_of_grid _ _ (lots * k)
  rw [mul_assoc, grid]
  norm_cast

/-- A number of lots survives the trip over the wire. -/
theorem Regular.quantityToLots_lots (regular : f.Regular) (lots : ℤ) :
    f.quantityToLots (lots * f.stepSize) = lots := by
  have nonzero : f.stepSize ≠ 0 := regular.step_pos.ne'
  rw [quantityToLots, if_neg (not_le.mpr regular.step_pos), mul_div_cancel_right₀ _ nonzero,
    roundHalfEven_intCast]

end SymbolFilters

inductive ExchangeFilter where
  | priceFilter (tickSize : ℚ)
  | lotSize (stepSize minQty : ℚ)
  | minNotional (notional : ℚ)
  | other
  deriving DecidableEq

/-- A symbol's record in the exchange info. -/
structure SymbolInfo where
  symbol : Symbol
  filters : List ExchangeFilter
  quantityPrecision : ℕ
  pricePrecision : ℕ
  status : String
  contractType : String
  quoteAsset : String
  deriving DecidableEq

inductive MarginType where
  | isolated
  | crossed
  deriving DecidableEq, Repr

/-- What a new order is on the wire. -/
inductive WireOrder where
  | market (quantity : ℚ)
  | limit (quantity price : ℚ) (timeInForce : TimeInForce)
  | stopMarket (quantity : ℚ)
  | stop (quantity : ℚ)
  /-- `STOP_MARKET` with `closePosition`: no quantity, it closes what is held. -/
  | closePosition (stopPrice : ℚ)
  deriving DecidableEq

/-- The `type` of the order. -/
def WireOrder.orderType : WireOrder → OrderType
  | .market _ => .market
  | .limit _ _ _ => .limit
  | .stopMarket _ => .stop
  | .stop _ => .stopLimit
  | .closePosition _ => .stop

structure OrderParams where
  symbol : Symbol
  side : OrderSide
  order : WireOrder
  newClientOrderId : OrderId
  deriving DecidableEq

structure AccountInfo where
  totalMarginBalance : ℚ
  totalInitialMargin : ℚ
  totalMaintMargin : ℚ
  deriving DecidableEq

structure PositionRow where
  symbol : Symbol
  positionAmt : ℚ
  entryPrice : ℚ
  markPrice : ℚ
  unRealizedProfit : ℚ
  deriving DecidableEq

/-- The calls of `binance.AsyncClient` that the adapter makes. -/
structure BinanceClient (σ : Type) (S : Sig) where
  exchangeInfo : Coro σ S (List SymbolInfo)
  changeMarginType : Symbol → MarginType → Coro σ S Unit
  changeLeverage : Symbol → ℕ → Coro σ S Unit
  leverageBracket : Symbol → Coro σ S ℕ
  /-- The reply is the exchange's own id of the order. -/
  createOrder : OrderParams → Coro σ S StopId
  cancelOrder : Symbol → OrderId → Coro σ S Unit
  cancelOrderById : Symbol → StopId → Coro σ S Unit
  cancelAllOpenOrders : Symbol → Coro σ S Unit
  account : Coro σ S AccountInfo
  positionInformation : Coro σ S (List PositionRow)

structure BrokerState where
  filters : Dict Symbol SymbolFilters := .empty
  exchangeInfoBySymbol : Dict Symbol SymbolInfo := .empty
  configuredLeverageMargin : Dict Symbol (ℕ × MarginType) := .empty
  clientOrderToInternalId : Dict OrderId OrderId := .empty
  orderSymbol : Dict OrderId Symbol := .empty
  ocaGroups : Dict String (List OrderId) := .empty
  orderToOcaGroup : Dict OrderId String := .empty
  eventQueue : List BrokerEvent := []

/-- The execution type of an update, as far as the adapter tells them apart. -/
inductive ExecType where
  | trade
  | other
  deriving DecidableEq, Repr

inductive WireStatus where
  | new
  | partiallyFilled
  | filled
  | canceled
  | expired
  | rejected
  | other
  deriving DecidableEq, Repr

def WireStatus.orderStatus : WireStatus → Option OrderStatus
  | .new => some .acknowledged
  | .partiallyFilled => some .partiallyFilled
  | .filled => some .filled
  | .canceled => some .cancelled
  | .expired => some .expired
  | .rejected => some .rejected
  | .other => none

def WireStatus.text : WireStatus → String
  | .new => "NEW"
  | .partiallyFilled => "PARTIALLY_FILLED"
  | .filled => "FILLED"
  | .canceled => "CANCELED"
  | .expired => "EXPIRED"
  | .rejected => "REJECTED"
  | .other => ""

/-- The `o` record of an order update. -/
structure OrderTradeUpdate where
  clientOrderId : OrderId
  symbol : Symbol
  side : OrderSide
  execType : ExecType
  status : WireStatus
  lastFilled : ℚ
  cumulativeFilled : ℚ
  originalQuantity : ℚ
  lastPrice : ℚ
  commission : ℚ
  maker : Bool
  tradeTime : Timestamp
  orderId : ℕ
  deriving DecidableEq

inductive UserStreamMessage where
  | orderTradeUpdate (o : OrderTradeUpdate)
  | other
  deriving DecidableEq

def BrokerState.put (m : BrokerState) (event : BrokerEvent) : BrokerState :=
  { m with eventQueue := m.eventQueue ++ [event] }

/-- What `place_order` notes of an order before it is sent. -/
def BrokerState.register (m : BrokerState) (request : BrokerOrderRequest) : BrokerState :=
  let noted :=
    { m with
      clientOrderToInternalId := m.clientOrderToInternalId.set request.orderId request.orderId
      orderSymbol := m.orderSymbol.set request.orderId request.symbol }
  match request.ocaGroup with
  | none => noted
  | some group =>
    if group = "" then noted
    else
      { noted with
        orderToOcaGroup := m.orderToOcaGroup.set request.orderId group
        ocaGroups := m.ocaGroups.set group
          ((m.ocaGroups.getD group []).filter (· ≠ request.orderId) ++ [request.orderId]) }

@[simp] theorem BrokerState.register_filters (m : BrokerState) (request : BrokerOrderRequest) :
    (m.register request).filters = m.filters := by
  rw [register]
  split
  · rfl
  · split
    · rfl
    · rfl

structure BinanceFuturesBroker (σ : Type) (S : Sig) where
  client : BinanceClient σ S
  symbols : List Symbol
  leverage : ℕ := 2
  marginType : MarginType := .isolated
  /-- `datetime.now`, for the id of a native stop. -/
  now : Coro σ S Timestamp

namespace BinanceFuturesBroker

def parseFilters (symbol : Symbol) (data : SymbolInfo) : SymbolFilters :=
  data.filters.foldl (fun f filter =>
    match filter with
    | .priceFilter tickSize => { f with tickSize := tickSize }
    | .lotSize stepSize minQty => { f with stepSize := stepSize, minQty := minQty }
    | .minNotional notional => { f with minNotional := notional }
    | .other => f)
    { symbol := symbol
      tickSize := 0
      stepSize := 0
      minQty := 0
      minNotional := 0
      quantityPrecision := data.quantityPrecision
      pricePrecision := data.pricePrecision }

variable {σ : Type} {S : Sig} [Part σ BrokerState] (self : BinanceFuturesBroker σ S)

def refreshExchangeInfo : Coro σ S Unit := do
  let info ← self.client.exchangeInfo
  Coro.update fun m : BrokerState =>
    { m with exchangeInfoBySymbol := .ofList (info.map fun s => (s.symbol, s)) }

/-- Filters of one symbol from the cached exchange info. -/
def loadFilters (symbol : Symbol) : Coro σ S Unit := do
  let m : BrokerState ← Coro.view
  match m.exchangeInfoBySymbol.get? symbol with
  | none => throw s!"symbol {symbol} not found on Binance Futures"
  | some data => Coro.update fun m : BrokerState =>
      { m with filters := m.filters.set symbol (parseFilters symbol data) }

def loadSymbolFilters : Coro σ S Unit := do
  let m : BrokerState ← Coro.view
  Coro.onlyIf m.exchangeInfoBySymbol.entries.isEmpty self.refreshExchangeInfo
  Coro.forEach loadFilters self.symbols

/-- The exchange's maximum for the symbol, or `none` when the lookup fails too. -/
def maxLeverageFor (symbol : Symbol) : Coro σ S (Option ℕ) :=
  tryCatch (do return some (← self.client.leverageBracket symbol)) fun _ => pure none

def configureLeverageAndMargin (symbol : Symbol) (leverage : ℕ) (marginType : MarginType) :
    Coro σ S Unit := do
  let m : BrokerState ← Coro.view
  if m.configuredLeverageMargin.contains symbol then pure ()
  else do
    tryCatch (self.client.changeMarginType symbol marginType) fun _ => pure ()
    let effective ← tryCatch (do
        self.client.changeLeverage symbol leverage
        pure leverage) fun e => do
      match ← self.maxLeverageFor symbol with
      | some maxLeverage =>
        if maxLeverage < leverage then do
          self.client.changeLeverage symbol maxLeverage
          pure maxLeverage
        else throw e
      | none => throw e
    Coro.update fun m : BrokerState =>
      { m with
        configuredLeverageMargin := m.configuredLeverageMargin.set symbol (effective, marginType) }

/-- `connect`, once the client session is open. -/
def connect : Coro σ S Unit := do
  self.loadSymbolFilters
  Coro.forEach (fun symbol =>
    self.configureLeverageAndMargin symbol self.leverage self.marginType) self.symbols

def loadAllFilters : Coro σ S Unit := do
  let m : BrokerState ← Coro.view
  Coro.onlyIf m.exchangeInfoBySymbol.entries.isEmpty self.refreshExchangeInfo
  Coro.update fun m : BrokerState =>
    { m with filters := m.exchangeInfoBySymbol.entries.foldl (fun filters entry =>
        if filters.contains entry.1 then filters
        else filters.set entry.1 (parseFilters entry.1 entry.2)) m.filters }

def ensureSymbolReady (symbol : Symbol) (leverage : ℕ) (marginType : MarginType) :
    Coro σ S Unit := do
  let m : BrokerState ← Coro.view
  if m.filters.contains symbol then pure ()
  else do
    Coro.onlyIf (!m.exchangeInfoBySymbol.contains symbol) self.refreshExchangeInfo
    loadFilters symbol
  self.configureLeverageAndMargin symbol leverage marginType

/-- `self._filters[symbol]`. -/
def filtersOf (symbol : Symbol) : Coro σ S SymbolFilters := do
  let m : BrokerState ← Coro.view
  match m.filters.get? symbol with
  | some filt => pure filt
  | none => throw "KeyError"

def getStepSize (symbol : Symbol) : Coro σ S ℚ := do return (← filtersOf symbol).stepSize

/-- Round down to a multiple of the step; the tolerance is the source's own. -/
def roundStep (value step : ℚ) : ℚ :=
  if step ≤ 0 then value else roundTo (⌊value / step + 1 / 1000000000⌋ * step) 12

/-- The wire form of a request, or the exception of a limit order without a price. -/
def wireOrder (request : BrokerOrderRequest) (filt : SymbolFilters) : Except String WireOrder :=
  let rawQuantity := filt.lotsToQuantity request.quantity
  match request.orderType with
  | .market | .marketOnClose => .ok (.market rawQuantity)
  | .stop => .ok (.stopMarket rawQuantity)
  | .stopLimit => .ok (.stop rawQuantity)
  | .limit =>
    match request.limitPrice with
    | none => .error "LIMIT order requires limit_price"
    | some price => .ok (.limit rawQuantity (roundStep price filt.tickSize)
        (if request.timeInForce = .day then .gtc else request.timeInForce))

def placeOrder (request : BrokerOrderRequest) : Coro σ S Unit := do
  let m : BrokerState ← Coro.view
  match m.filters.get? request.symbol with
  | none =>
    throw s!"no exchange filters loaded for symbol={request.symbol}; was connect() called?"
  | some filt =>
    let rawQuantity := filt.lotsToQuantity request.quantity
    if rawQuantity < filt.minQty then
      Coro.update fun m : BrokerState => m.put (.reject ⟨request.orderId, request.symbol,
        s!"quantity {shortest rawQuantity} below exchange minimum {shortest filt.minQty} " ++
          s!"for {request.symbol}"⟩)
    else do
      Coro.update fun m : BrokerState => m.register request
      match wireOrder request filt with
      | .error e => throw e
      | .ok order =>
        tryCatch (do
          let _ ← self.client.createOrder ⟨request.symbol, request.side, order, request.orderId⟩)
          -- whatever the exchange refuses comes back as a reject event
          fun e => Coro.update fun m : BrokerState =>
            m.put (.reject ⟨request.orderId, request.symbol, e⟩)

def cancelOrder (orderId : OrderId) : Coro σ S Unit := do
  let m : BrokerState ← Coro.view
  match m.orderSymbol.get? orderId with
  | none => pure ()
  | some symbol => tryCatch (self.client.cancelOrder symbol orderId) fun _ => pure ()

/-- The stop price of a native stop, rounded so that the loss stays below the limit. -/
def stopPrice (filt : SymbolFilters) (isLong : Bool) (entryPrice realQty maxLossUsdt : ℚ) : ℚ :=
  let lossPerUnit := maxLossUsdt / realQty
  let rawPrice := if isLong then entryPrice - lossPerUnit else entryPrice + lossPerUnit
  if filt.tickSize > 0 then
    let steps := if isLong then ⌈rawPrice / filt.tickSize⌉ else ⌊rawPrice / filt.tickSize⌋
    roundTo (steps * filt.tickSize) filt.pricePrecision
  else roundTo rawPrice filt.pricePrecision

def placeStopLoss (symbol : Symbol) (isLong : Bool) (entryPrice : ℚ) (quantityLots : ℤ)
    (maxLossUsdt : ℚ) : Coro σ S (Option StopId) := do
  let m : BrokerState ← Coro.view
  match m.filters.get? symbol with
  | none => pure none
  | some filt =>
    let realQty := filt.lotsToQuantity quantityLots
    if quantityLots ≤ 0 ∨ realQty ≤ 0 then pure none
    else
      let price := stopPrice filt isLong entryPrice realQty maxLossUsdt
      if price ≤ 0 then pure none
      else do
        let now ← self.now
        tryCatch (do
          let orderId ← self.client.createOrder
            { symbol := symbol
              side := if isLong then .sell else .buy
              order := .closePosition price
              newClientOrderId := .native symbol (now / 1000) }
          pure (some orderId)) fun _ => pure none

def cancelStopLoss (symbol : Symbol) (orderId : StopId) : Coro σ S Unit :=
  tryCatch (self.client.cancelOrderById symbol orderId) fun _ => pure ()

def cancelAll : Coro σ S Unit :=
  Coro.forEach (fun symbol =>
    tryCatch (self.client.cancelAllOpenOrders symbol) fun _ => pure ()) self.symbols

def getAccountEquity : Coro σ S ℚ := do return (← self.client.account).totalMarginBalance

def getMarginUsage : Coro σ S MarginUse := do
  let account ← self.client.account
  pure ⟨account.totalInitialMargin, account.totalMaintMargin⟩

/-- The rows of symbols with filters that are not flat, with the filters of each. -/
def openRows (filters : Dict Symbol SymbolFilters) (rows : List PositionRow) :
    List (PositionRow × SymbolFilters) :=
  rows.filterMap fun row =>
    match filters.get? row.symbol with
    | some filt => if row.positionAmt = 0 then none else some (row, filt)
    | none => none

def lotsHeld (row : PositionRow) (filt : SymbolFilters) : ℤ :=
  let lots := filt.quantityToLots |row.positionAmt|
  if row.positionAmt > 0 then lots else -lots

def getPositions : Coro σ S (Dict Symbol ℤ) := do
  let positions ← self.client.positionInformation
  let m : BrokerState ← Coro.view
  pure (.ofList ((openRows m.filters positions).map fun (row, filt) =>
    (row.symbol, lotsHeld row filt)))

def positionDetail (row : PositionRow) (filt : SymbolFilters) : PositionDetail where
  symbol := row.symbol
  side := if row.positionAmt > 0 then .buy else .sell
  quantity := filt.quantityToLots |row.positionAmt|
  entryPrice := row.entryPrice
  markPrice := row.markPrice
  unrealizedPnl := row.unRealizedProfit

def getPositionDetails : Coro σ S (List PositionDetail) := do
  let positions ← self.client.positionInformation
  let m : BrokerState ← Coro.view
  pure ((openRows m.filters positions).map fun (row, filt) => positionDetail row filt)

def reconcileState : Coro σ S (Dict Symbol ℤ) := self.getPositions

/-- The rest of a group is cancelled once one of its orders has filled. -/
def handleOcaFill (orderId : OrderId) : Coro σ S Unit := do
  let m : BrokerState ← Coro.view
  match m.orderToOcaGroup.get? orderId with
  | none => pure ()
  | some name =>
    match m.ocaGroups.get? name with
    | none => pure ()
    | some group => do
      Coro.forEach self.cancelOrder (group.filter (· ≠ orderId))
      Coro.update fun m : BrokerState => { m with ocaGroups := m.ocaGroups.set name [] }

/-- The fill that a trade update reports, in lots. -/
def executionEvent (filt : SymbolFilters) (internalId : OrderId) (o : OrderTradeUpdate) :
    ExecutionEvent :=
  let cumulative := filt.quantityToLots o.cumulativeFilled
  { ts := o.tradeTime
    orderId := internalId
    symbol := o.symbol
    side := o.side
    fillQuantity := filt.quantityToLots o.lastFilled
    fillPrice := o.lastPrice
    cumulativeQuantity := cumulative
    remainingQuantity := max (filt.quantityToLots o.originalQuantity - cumulative) 0
    commission := o.commission
    liquidity := if o.maker then .maker else .taker }

def handleUserStreamMessage : UserStreamMessage → Coro σ S Unit
  | .other => pure ()
  | .orderTradeUpdate o => do
    let m : BrokerState ← Coro.view
    let internalId := m.clientOrderToInternalId.getD o.clientOrderId o.clientOrderId
    match o.execType with
    | .trade => do
      let filt ← filtersOf o.symbol
      Coro.update fun m : BrokerState => m.put (.execution (executionEvent filt internalId o))
      Coro.onlyIf (o.status = .filled) (self.handleOcaFill internalId)
    | .other =>
      match o.status.orderStatus with
      | none => pure ()
      | some status =>
        let event : BrokerEvent :=
          if status = .rejected then
            .reject ⟨internalId, o.symbol, s!"Binance order status={o.status.text}"⟩
          else .ack ⟨internalId, o.symbol, status, some o.orderId⟩
        Coro.update fun m : BrokerState => m.put event

/-- The adapter behind the common contract. -/
def toInterface : BrokerInterface σ S where
  placeOrder := self.placeOrder
  cancelOrder := self.cancelOrder
  cancelAll := self.cancelAll
  getAccountEquity := self.getAccountEquity
  getPositions := self.getPositions
  getMarginUsage := self.getMarginUsage
  reconcileState := self.reconcileState

/-- What the position monitor uses of the adapter. -/
def toMonitorBroker : MonitorBroker σ S where
  getPositionDetails := self.getPositionDetails
  getAccountEquity := self.getAccountEquity
  placeStopLoss := self.placeStopLoss
  cancelStopLoss := self.cancelStopLoss

end BinanceFuturesBroker

end Binbot
