import Binbot.Properties.NoLookahead
import Binbot.Properties.OrderConservation

/-!
# The trade that is checked and the trade that is sent

The position limit and the margin are checked for the signal's quantity times the sign of its
side; the order is sent for the magnitude of the quantity on the same side. A negative quantity
makes the two opposite, and the fat-finger check, which takes the magnitude, lets it through.
-/
namespace Binbot

open Data

/-- The position the checks expect the signal to lead to. -/
def RiskEngine.projectedPosition (self : RiskEngine) (signal : SignalEvent) : ℤ :=
  self.positions.getD signal.symbol 0 + signal.signedQuantity

/-- The change of the position once the order is filled completely. -/
def ManagedOrder.signedQuantity (order : ManagedOrder) : ℤ := order.quantity * order.side.sign

/-- The fills complete the order. -/
structure ManagedOrder.CompletedBy (order : ManagedOrder) (fills : List ExecutionEvent) : Prop where
  side : ∀ fill ∈ fills, fill.side = order.side
  total : totalFilled fills = order.quantity

namespace ManagedOrder.CompletedBy

variable {order : ManagedOrder} {fills : List ExecutionEvent}

/-- Fills on one side change the position by their total on that side. -/
theorem signedFill_sum (side : OrderSide) (fills : List ExecutionEvent)
    (same : ∀ fill ∈ fills, fill.side = side) :
    (fills.map (·.signedFill)).sum = totalFilled fills * side.sign := by
  induction fills with
  | nil => simp [totalFilled]
  | cons fill rest ih =>
    rw [List.forall_mem_cons] at same
    have tail := ih same.2
    rw [totalFilled] at tail ⊢
    rw [List.map_cons, List.sum_cons, List.map_cons, List.sum_cons, tail,
      ExecutionEvent.signedFill, same.1]
    ring

theorem change (completed : order.CompletedBy fills) :
    (fills.map (·.signedFill)).sum = order.signedQuantity := by
  rw [signedFill_sum order.side fills completed.side, completed.total, signedQuantity]

end ManagedOrder.CompletedBy

/-- The order changes the position by what was checked, however it is filled. -/
structure RiskEngine.ChecksOrder (engine : RiskEngine) (signal : SignalEvent)
    (order : ManagedOrder) : Prop where
  change : signal.signedQuantity = order.signedQuantity
  filled : ∀ fills, order.CompletedBy fills →
    engine.positions.getD signal.symbol 0 + (fills.map (·.signedFill)).sum =
      engine.projectedPosition signal

/-- The order of a signal is the trade that was checked exactly if the quantity is not
negative. -/
theorem RiskEngine.checksOrder_iff (self : RiskEngine) (signal : SignalEvent) (orderId : OrderId)
    (expectedPrice : Option ℚ) :
    self.ChecksOrder signal (ManagedOrder.ofSignal orderId signal expectedPrice) ↔
      0 ≤ signal.targetQuantity := by
  have change : (ManagedOrder.ofSignal orderId signal expectedPrice).signedQuantity =
      |signal.targetQuantity| * signal.side.sign := rfl
  have same : signal.signedQuantity =
      (ManagedOrder.ofSignal orderId signal expectedPrice).signedQuantity ↔
      0 ≤ signal.targetQuantity := by
    have side : signal.side.sign ≠ 0 := by cases signal.side <;> decide
    rw [change, SignalEvent.signedQuantity, mul_left_inj' side, eq_comm, abs_eq_self]
  rw [← same]
  refine ⟨fun checks => checks.change, fun equal => ⟨equal, ?_⟩⟩
  intro fills completed
  rw [completed.change, ← equal, projectedPosition]

/-- Of every signal that passes, the projected position has been checked against the limit and
the margin, and it is the position after the order is filled exactly if the quantity is not
negative. -/
theorem RiskEngine.checked_trade_sent (self : RiskEngine) (signal : SignalEvent)
    (account : AccountState) (now : ℚ)
    (passed : (self.checkOrder signal account now).1.passed = true) (orderId : OrderId)
    (expectedPrice : Option ℚ) :
    |self.projectedPosition signal| ≤ self.maxContractsPerSymbol ∧
      (self.marginCalculator.checkOrder signal.symbol
        (self.projectedPosition signal - self.positions.getD signal.symbol 0)
        (self.positions.getD signal.symbol 0) account.accountEquity
        account.marginUsed).passed = true ∧
      (self.ChecksOrder signal (ManagedOrder.ofSignal orderId signal expectedPrice) ↔
        0 ≤ signal.targetQuantity) := by
  obtain ⟨-, -, limit, margin⟩ := self.checkOrder_passed signal account now passed
  refine ⟨limit, ?_, self.checksOrder_iff signal orderId expectedPrice⟩
  rw [projectedPosition, add_sub_cancel_left]
  exact margin

namespace CheckedTrade

/-- An engine with a limit of ten, for an account that holds eight contracts. -/
def desk : RiskEngine :=
  { NoLookahead.riskDesk with
    positions := .ofList [("NQ", 8)]
    prices := .ofList [("NQ", 100)] }

def buy (quantity : ℤ) : SignalEvent where
  symbol := "NQ"
  strategyId := "test-strategy"
  side := .buy
  targetQuantity := quantity

def account : AccountState := ⟨10000, 800, ⟨0, 0⟩⟩

theorem two_bought :
    desk.ChecksOrder (buy 2) (ManagedOrder.ofSignal (.hex 0) (buy 2) none) :=
  (desk.checked_trade_sent (buy 2) account 0 (by decide +kernel) (.hex 0) none).2.2.mpr (by decide)

/-- To buy minus eight passes as a way to flat, and leads to sixteen contracts. -/
theorem negative_doubles :
    ¬ ∀ (engine : RiskEngine) (signal : SignalEvent) (account : AccountState) (now : ℚ),
      (engine.checkOrder signal account now).1.passed = true → ∀ orderId expectedPrice,
        engine.ChecksOrder signal (ManagedOrder.ofSignal orderId signal expectedPrice) := by
  intro claim
  have change := (claim desk (buy (-8)) account 0 (by decide +kernel) (.hex 0) none).change
  revert change
  decide

end CheckedTrade

end Binbot
