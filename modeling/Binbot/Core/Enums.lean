import Mathlib.Algebra.Order.Ring.Abs
import Mathlib.Algebra.Order.Ring.Int

/-! Order vocabulary (`core/enums.py`). -/
namespace Binbot

abbrev Symbol : Type := String

inductive OrderSide where
  | buy
  | sell
  deriving DecidableEq, Repr

namespace OrderSide

def sign : OrderSide → ℤ
  | .buy => 1
  | .sell => -1

/-- The enum's value. -/
def text : OrderSide → String
  | .buy => "BUY"
  | .sell => "SELL"

def opposite : OrderSide → OrderSide
  | .buy => .sell
  | .sell => .buy

/-- `SELL if qty > 0 else BUY`: the side that closes a signed position. -/
def closing (qty : ℤ) : OrderSide := if qty > 0 then .sell else .buy

/-- A close of the whole position is its negation. -/
theorem closing_sign_mul_abs (qty : ℤ) : (closing qty).sign * |qty| = -qty := by
  rw [closing]
  split
  next long => rw [abs_of_pos long]; simp [sign]
  next short => rw [abs_of_nonpos (not_lt.mp short)]; simp [sign]

end OrderSide

inductive OrderType where
  | market
  | limit
  | stop
  | stopLimit
  | marketOnClose
  deriving DecidableEq, Repr

inductive TimeInForce where
  | day
  | gtc
  | ioc
  | fok
  deriving DecidableEq, Repr

inductive OrderStatus where
  | pendingNew
  | submitted
  | acknowledged
  | partiallyFilled
  | filled
  | cancelPending
  | cancelled
  | rejected
  | expired
  deriving DecidableEq, Repr

namespace OrderStatus

def isTerminal : OrderStatus → Bool
  | .filled | .cancelled | .rejected | .expired => true
  | _ => false

end OrderStatus

end Binbot
