import Binbot.Core.Enums
import Mathlib.Algebra.BigOperators.Group.List.Basic
import Mathlib.Algebra.Order.Field.Rat
import Mathlib.Data.Int.Cast.Lemmas

/-!
# Events and requests

The messages of `core/events.py` and `execution/broker_interface.py`, with the
fields some modelled function reads. Prices and money are rationals (every double is one),
quantities are whole contracts or lots.
-/
namespace Binbot

/-- Microseconds since the epoch, UTC. -/
abbrev Timestamp : Type := ℤ

/-- Days since the epoch, UTC. -/
abbrev Date : Type := ℤ

def Timestamp.date (t : Timestamp) : Date := t / 86400000000

/-- Order ids: the hex text of the `n`-th `uuid4` drawn, the `sl-{symbol}-{ms}` id of a
native stop, or the decimal text of an integer that a broker's client counts its orders by. -/
inductive OrderId where
  | hex (draw : ℕ)
  | native (symbol : Symbol) (ms : ℤ)
  | counted (id : ℤ)
  deriving DecidableEq, Repr

/-- A strategy's intent to trade. Not yet risk-checked or routed. -/
structure SignalEvent where
  symbol : Symbol
  strategyId : String
  side : OrderSide
  targetQuantity : ℤ
  orderType : OrderType := .market
  limitPrice : Option ℚ := none
  timeInForce : TimeInForce := .day
  ocaGroup : Option String := none
  deriving DecidableEq

/-- `signal.target_quantity * signal.side.sign`. -/
def SignalEvent.signedQuantity (signal : SignalEvent) : ℤ :=
  signal.targetQuantity * signal.side.sign

structure BrokerOrderRequest where
  orderId : OrderId
  symbol : Symbol
  side : OrderSide
  quantity : ℤ
  orderType : OrderType
  limitPrice : Option ℚ
  timeInForce : TimeInForce
  ocaGroup : Option String := none
  deriving DecidableEq

structure OrderAckEvent where
  orderId : OrderId
  symbol : Symbol
  status : OrderStatus
  brokerOrderId : Option ℕ := none
  deriving DecidableEq

structure OrderRejectEvent where
  orderId : OrderId
  symbol : Symbol
  reason : String
  deriving DecidableEq

inductive Liquidity where
  | maker
  | taker
  | unknown
  deriving DecidableEq, Repr

structure ExecutionEvent where
  ts : Timestamp
  orderId : OrderId
  symbol : Symbol
  side : OrderSide
  fillQuantity : ℤ
  fillPrice : ℚ
  cumulativeQuantity : ℤ
  remainingQuantity : ℤ
  commission : ℚ
  liquidity : Liquidity := .unknown
  expectedPrice : Option ℚ := none
  deriving DecidableEq

/-- The signed quantity a fill adds to the position. -/
def ExecutionEvent.signedFill (event : ExecutionEvent) : ℤ :=
  event.fillQuantity * event.side.sign

/-- Decision-time slippage of a fill, positive when adverse. -/
def ExecutionEvent.slippage (event : ExecutionEvent) : Option ℚ :=
  event.expectedPrice.map fun expected => (event.fillPrice - expected) * event.side.sign

inductive BrokerEvent where
  | ack (event : OrderAckEvent)
  | reject (event : OrderRejectEvent)
  | execution (event : ExecutionEvent)
  deriving DecidableEq

def BrokerEvent.orderId : BrokerEvent → OrderId
  | .ack event => event.orderId
  | .reject event => event.orderId
  | .execution event => event.orderId

structure BarEvent where
  ts : Timestamp
  symbol : Symbol
  open_ : ℚ
  high : ℚ
  low : ℚ
  close : ℚ
  volume : ℚ
  deriving DecidableEq

structure TickEvent where
  ts : Timestamp
  symbol : Symbol
  bid : ℚ
  ask : ℚ
  last : ℚ
  lastSize : ℤ
  deriving DecidableEq

structure RiskHaltEvent where
  ts : Timestamp
  reason : String
  triggeredBy : String
  deriving DecidableEq

structure HeartbeatEvent where
  ts : Timestamp
  source : String
  healthy : Bool
  deriving DecidableEq

structure PositionDetail where
  symbol : Symbol
  side : OrderSide
  quantity : ℤ
  entryPrice : ℚ
  markPrice : ℚ
  unrealizedPnl : ℚ
  deriving DecidableEq

/-- `d.quantity if d.side is BUY else -d.quantity`. -/
def PositionDetail.signedQuantity (d : PositionDetail) : ℤ :=
  if d.side = .buy then d.quantity else -d.quantity

/-! ## Totals over fills -/

/-- The fills of one order. -/
def fillsOf (orderId : OrderId) (fills : List ExecutionEvent) : List ExecutionEvent :=
  fills.filter (·.orderId = orderId)

def totalFilled (fills : List ExecutionEvent) : ℤ := (fills.map (·.fillQuantity)).sum

/-- Price times quantity. -/
def totalNotional (fills : List ExecutionEvent) : ℚ :=
  (fills.map fun fill => fill.fillPrice * (fill.fillQuantity : ℚ)).sum

def totalCommission (fills : List ExecutionEvent) : ℚ := (fills.map (·.commission)).sum

theorem fillsOf_append (orderId : OrderId) (fills more : List ExecutionEvent) :
    fillsOf orderId (fills ++ more) = fillsOf orderId fills ++ fillsOf orderId more :=
  List.filter_append _ _

theorem totalFilled_append (fills more : List ExecutionEvent) :
    totalFilled (fills ++ more) = totalFilled fills + totalFilled more := by
  simp [totalFilled]

@[simp] theorem totalFilled_concat (fills : List ExecutionEvent) (fill : ExecutionEvent) :
    totalFilled (fills ++ [fill]) = totalFilled fills + fill.fillQuantity := by
  simp [totalFilled]

@[simp] theorem totalNotional_concat (fills : List ExecutionEvent) (fill : ExecutionEvent) :
    totalNotional (fills ++ [fill]) =
      totalNotional fills + fill.fillPrice * fill.fillQuantity := by
  simp [totalNotional]

@[simp] theorem totalCommission_concat (fills : List ExecutionEvent) (fill : ExecutionEvent) :
    totalCommission (fills ++ [fill]) = totalCommission fills + fill.commission := by
  simp [totalCommission]

end Binbot
