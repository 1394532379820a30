import Binbot.Core.Enums
import Binbot.Data.Decimal
import Binbot.Data.Dict
import Binbot.Data.Rounding

/-! # Pre-trade margin check (`risk/margin.py`) -/
namespace Binbot

open Data

structure MarginRequirement where
  symbol : Symbol
  initialMarginPerContract : ℚ
  maintenanceMarginPerContract : ℚ
  deriving DecidableEq

structure MarginCheckResult where
  passed : Bool
  reason : String
  requiredInitialMargin : ℚ
  requiredMaintenanceMargin : ℚ
  availableFunds : ℚ
  projectedExcessLiquidity : ℚ
  deriving DecidableEq

structure MarginCalculator where
  schedule : Dict Symbol MarginRequirement := .empty
  initialMarginBufferPct : ℚ := 25
  maintenanceMarginBufferPct : ℚ := 10

/-- What the account reports to have in use. -/
structure MarginUse where
  initial : ℚ
  maintenance : ℚ
  deriving DecidableEq

namespace MarginCalculator

variable (self : MarginCalculator)

def setRequirement (req : MarginRequirement) : MarginCalculator :=
  { self with schedule := self.schedule.set req.symbol req }

/-- The buffered initial margin of a number of contracts. -/
def bufferedInitialIn (r : Rounding) (req : MarginRequirement) (contracts : ℤ) : ℚ :=
  r.mul (r.mul (r contracts) req.initialMarginPerContract)
    (r.add 1 (r.div self.initialMarginBufferPct 100))

def bufferedMaintenanceIn (r : Rounding) (req : MarginRequirement) (contracts : ℤ) : ℚ :=
  r.mul (r.mul (r contracts) req.maintenanceMarginPerContract)
    (r.add 1 (r.div self.maintenanceMarginBufferPct 100))

def checkOrderIn (r : Rounding) (symbol : Symbol)
    (additionalContracts currentPositionContracts : ℤ) (netLiquidationValue : ℚ)
    (used : MarginUse) : MarginCheckResult :=
  match self.schedule.get? symbol with
  | none =>
    { passed := false
      reason := s!"no margin schedule for symbol={symbol}"
      requiredInitialMargin := 0
      requiredMaintenanceMargin := 0
      availableFunds := r.sub netLiquidationValue used.initial
      projectedExcessLiquidity := 0 }
  | some req =>
    let projectedContracts := |currentPositionContracts + additionalContracts|
    let bufferedInitial := self.bufferedInitialIn r req projectedContracts
    let bufferedMaintenance := self.bufferedMaintenanceIn r req projectedContracts
    let excessLiquidity := r.sub netLiquidationValue bufferedInitial
    let passed := excessLiquidity ≥ 0 ∧ netLiquidationValue ≥ bufferedMaintenance
    { passed := passed
      reason :=
        if passed then "ok"
        else s!"insufficient margin: required_initial(buffered)={fixed 2 bufferedInitial} " ++
          s!"required_maintenance(buffered)={fixed 2 bufferedMaintenance} " ++
          s!"net_liq={fixed 2 netLiquidationValue}"
      requiredInitialMargin := bufferedInitial
      requiredMaintenanceMargin := bufferedMaintenance
      availableFunds := r.sub netLiquidationValue used.initial
      projectedExcessLiquidity := excessLiquidity }

/-! ### In exact arithmetic -/

def bufferedInitial (req : MarginRequirement) (contracts : ℤ) : ℚ :=
  contracts * req.initialMarginPerContract * (1 + self.initialMarginBufferPct / 100)

def bufferedMaintenance (req : MarginRequirement) (contracts : ℤ) : ℚ :=
  contracts * req.maintenanceMarginPerContract * (1 + self.maintenanceMarginBufferPct / 100)

def checkOrder (symbol : Symbol) (additionalContracts currentPositionContracts : ℤ)
    (netLiquidationValue : ℚ) (used : MarginUse) : MarginCheckResult :=
  self.checkOrderIn .exact symbol additionalContracts currentPositionContracts
    netLiquidationValue used

/-- What the gate decides: it never looks at the margin in use. -/
theorem checkOrder_passed (symbol : Symbol) (add current : ℤ) (nlv : ℚ) (used : MarginUse) :
    (self.checkOrder symbol add current nlv used).passed = true ↔
      ∃ req, self.schedule.get? symbol = some req ∧
        self.bufferedInitial req |current + add| ≤ nlv ∧
        self.bufferedMaintenance req |current + add| ≤ nlv := by
  rw [checkOrder, checkOrderIn]
  cases self.schedule.get? symbol with
  | none => simp
  | some req =>
    have initial (n : ℤ) : self.bufferedInitialIn .exact req n = self.bufferedInitial req n := rfl
    have maintenance (n : ℤ) :
        self.bufferedMaintenanceIn .exact req n = self.bufferedMaintenance req n := rfl
    simp [initial, maintenance]

end MarginCalculator

end Binbot
