import Binbot.Data.Binary64
import Binbot.Properties.CheckedTrade

/-!
# Orders that reduce a position

The position check nets the order against the position. The notional check takes the order by
itself, and the leverage check adds its notional to the gross exposure, also where the order
takes exposure away: an account that is over its leverage cannot sell what it holds.
-/
namespace Binbot.RiskEngine

open Data

variable (self : RiskEngine)

/-- The gross exposure of the recorded positions at the recorded prices. -/
def grossExposureUsd : ℚ :=
  self.positions.sum fun symbol quantity =>
    ((|quantity| : ℤ) : ℚ) * self.prices.getD symbol 0 * self.contractMultipliers.getD symbol 1

def orderNotional (r : Rounding) (signal : SignalEvent) (price : ℚ) : ℚ :=
  r.mul (r.mul (r (|signal.targetQuantity| : ℤ)) price)
    (self.contractMultipliers.getD signal.symbol 1)

/-- The gross leverage that an order is projected to lead to. -/
def projectedLeverage (r : Rounding) (signal : SignalEvent) (account : AccountState)
    (price : ℚ) : ℚ :=
  r.div (r.add account.grossExposureUsd (self.orderNotional r signal price)) account.accountEquity

section Limits

variable (engine : RiskEngine)

/-- The signal takes its symbol's position towards zero, and not beyond. -/
structure Reduces (signal : SignalEvent) : Prop where
  positive : 0 < signal.targetQuantity
  less : |engine.projectedPosition signal| < |engine.positions.getD signal.symbol 0|
  sameSign : 0 ≤ engine.positions.getD signal.symbol 0 * engine.projectedPosition signal

/-- A rejection for the position, the notional or the gross leverage. -/
def ForExposure (code : RiskCode) : Prop :=
  code = .positionLimitBreach ∨ code = .notionalLimitBreach ∨ code = .leverageLimitBreach

/-- What the three limits ask of an order: the position that it leaves, its own notional, and
its notional on top of the gross exposure. -/
structure WithinLimits (r : Rounding) (signal : SignalEvent) (account : AccountState)
    (price : ℚ) : Prop where
  position : |engine.projectedPosition signal| ≤ engine.maxContractsPerSymbol
  notional : engine.orderNotional r signal price ≤ engine.maxPositionNotionalUsd
  leverage : engine.projectedLeverage r signal account price ≤ engine.maxGrossLeverage

end Limits

section Checks

variable {r : Rounding} {signal : SignalEvent} {account : AccountState} {price : ℚ}

theorem checkPositionLimits_beyond
    (beyond : self.maxContractsPerSymbol < |self.projectedPosition signal|) :
    ∃ message, self.checkPositionLimits signal = .error ⟨.positionLimitBreach, message⟩ :=
  ⟨_, if_pos beyond⟩

theorem checkNotionalLimit_eq (priced : self.prices.get? signal.symbol = some price)
    (positive : 0 < price) :
    (self.orderNotional r signal price ≤ self.maxPositionNotionalUsd →
        self.checkNotionalLimit r signal = .ok (self.orderNotional r signal price)) ∧
      (self.maxPositionNotionalUsd < self.orderNotional r signal price →
        ∃ message, self.checkNotionalLimit r signal = .error ⟨.notionalLimitBreach, message⟩) := by
  rw [checkNotionalLimit, priced]
  dsimp only
  rw [if_neg (not_le.mpr positive)]
  constructor
  · intro within
    exact if_neg (not_lt.mpr within)
  · intro beyond
    exact ⟨_, if_pos beyond⟩

theorem checkLeverage_eq (gross notional : ℚ) {equity : ℚ} (some_ : 0 < equity) :
    (r.div (r.add gross notional) equity ≤ self.maxGrossLeverage →
        self.checkLeverage r gross notional equity = .ok ()) ∧
      (self.maxGrossLeverage < r.div (r.add gross notional) equity →
        ∃ message, self.checkLeverage r gross notional equity =
          .error ⟨.leverageLimitBreach, message⟩) := by
  rw [checkLeverage, if_neg (not_le.mpr some_)]
  dsimp only
  constructor
  · intro within
    exact if_neg (not_lt.mpr within)
  · intro beyond
    exact ⟨_, if_pos beyond⟩

/-- Margin is the one thing left to fail for, once an order is within its limits. -/
theorem checkMargin_code {violation : RiskViolation}
    (failed : self.checkMargin r signal account = .error violation) :
    violation.code = .marginBreach := by
  rw [checkMargin] at failed
  split at failed
  · cases failed
  · cases failed
    rfl

/-- The exposure checks name one of the three limits exactly for an order outside them. -/
theorem checkExposure_forExposure (priced : self.prices.get? signal.symbol = some price)
    (positive : 0 < price) (some_ : 0 < account.accountEquity) :
    ForExposure (report signal (self.checkExposure r signal account)).code ↔
      ¬ self.WithinLimits r signal account price := by
  obtain ⟨small, large⟩ := self.checkNotionalLimit_eq (r := r) priced positive
  obtain ⟨low, high⟩ := self.checkLeverage_eq (r := r) account.grossExposureUsd
    (self.orderNotional r signal price) some_
  rw [checkExposure]
  -- the checks run in this order, and the first that fails names its limit
  by_cases position : |self.projectedPosition signal| ≤ self.maxContractsPerSymbol
  · rw [(self.checkPositionLimits_ok signal ()).mpr position]
    by_cases notional : self.orderNotional r signal price ≤ self.maxPositionNotionalUsd
    · rw [small notional]
      by_cases leverage : self.projectedLeverage r signal account price ≤ self.maxGrossLeverage
      · refine iff_of_false ?_ (not_not.mpr ⟨position, notional, leverage⟩)
        simp only [bind, Except.bind, low leverage]
        -- what is left to fail is the margin, which is not one of the three
        cases margin : self.checkMargin r signal account with
        | ok => simp [report, ForExposure]
        | error violation => simp [report, ForExposure, self.checkMargin_code margin]
      · refine iff_of_true ?_ (fun within => leverage within.leverage)
        obtain ⟨message, failed⟩ := high (not_le.mp leverage)
        simp [bind, Except.bind, failed, report, ForExposure]
    · refine iff_of_true ?_ (fun within => notional within.notional)
      obtain ⟨message, failed⟩ := large (not_le.mp notional)
      simp [bind, Except.bind, failed, report, ForExposure]
  · refine iff_of_true ?_ (fun within => position within.position)
    obtain ⟨message, failed⟩ := self.checkPositionLimits_beyond (not_le.mp position)
    simp [bind, Except.bind, failed, report, ForExposure]

/-- In exact arithmetic no quotient is needed. -/
theorem withinLimits_exact (some_ : 0 < account.accountEquity) :
    self.WithinLimits .exact signal account price ↔
      |self.projectedPosition signal| ≤ self.maxContractsPerSymbol ∧
        self.orderNotional .exact signal price ≤ self.maxPositionNotionalUsd ∧
        account.grossExposureUsd + self.orderNotional .exact signal price ≤
          self.maxGrossLeverage * account.accountEquity := by
  constructor
  · rintro ⟨position, notional, leverage⟩
    exact ⟨position, notional, (div_le_iff₀ some_).mp leverage⟩
  · rintro ⟨position, notional, leverage⟩
    exact ⟨position, notional, (div_le_iff₀ some_).mpr leverage⟩

end Checks

/-- An order that gets as far as the exposure checks is not rejected by the limits exactly when
it is within them, whether it reduces its position or not, and however the notional and the
leverage are rounded. In exact arithmetic the leverage limit bounds the exposure itself. -/
theorem not_forExposure_iff (r : Rounding) {signal : SignalEvent} {account : AccountState}
    {now price : ℚ} (unhalted : self.circuitBreaker.isHalted = false)
    (sized : self.checkFatFinger signal = .ok ())
    (rated : (self.rateLimiter.tryAcquireIn r now).1.1 = true)
    (priced : self.prices.get? signal.symbol = some price) (positive : 0 < price)
    (some_ : 0 < account.accountEquity) :
    (¬ ForExposure (self.checkOrderIn r signal account now).1.code ↔
      self.WithinLimits r signal account price) ∧
    (self.WithinLimits .exact signal account price ↔
      |self.projectedPosition signal| ≤ self.maxContractsPerSymbol ∧
        self.orderNotional .exact signal price ≤ self.maxPositionNotionalUsd ∧
        account.grossExposureUsd + self.orderNotional .exact signal price ≤
          self.maxGrossLeverage * account.accountEquity) := by
  refine ⟨?_, self.withinLimits_exact some_⟩
  have running : self.checkCircuitBreaker = .ok () := (self.checkCircuitBreaker_ok ()).mpr unhalted
  rw [checkOrderIn, running, sized]
  dsimp only
  rw [if_pos rated]
  -- the exposure checks do not look at the rate limiter
  have exposure := checkExposure_forExposure (r := r)
    { self with rateLimiter := (self.rateLimiter.tryAcquireIn r now).2 } priced positive some_
  rw [not_congr exposure, not_not]
  constructor
  · rintro ⟨position, notional, leverage⟩
    exact ⟨position, notional, leverage⟩
  · rintro ⟨position, notional, leverage⟩
    exact ⟨position, notional, leverage⟩

section Reducing

variable {self} {signal : SignalEvent} {price : ℚ}

/-- A reducing order is for no more than is held. -/
theorem Reduces.quantity_le (reduces : Reduces self signal) :
    |signal.targetQuantity| ≤ |self.positions.getD signal.symbol 0| := by
  obtain ⟨positive, less, sameSign⟩ := reduces
  have size : |signal.signedQuantity| = |signal.targetQuantity| := by
    rw [SignalEvent.signedQuantity, abs_mul]
    cases signal.side <;> simp [OrderSide.sign]
  rw [projectedPosition] at less sameSign
  rw [← size]
  generalize self.positions.getD signal.symbol 0 = held at less sameSign ⊢
  rcases le_total 0 held with long | short
  · have kept : 0 ≤ held + signal.signedQuantity := by
      -- a position below zero has the same sign as a long one only if that is flat
      by_contra beyond
      have none : held = 0 := by nlinarith
      rw [none, abs_zero] at less
      exact absurd (abs_nonneg _) (not_le.mpr less)
    rw [abs_of_nonneg long, abs_of_nonneg kept] at less
    rw [abs_of_nonneg long, abs_le]
    omega
  · have kept : held + signal.signedQuantity ≤ 0 := by
      by_contra beyond
      have none : held = 0 := by nlinarith
      rw [none, abs_zero] at less
      exact absurd (abs_nonneg _) (not_le.mpr less)
    rw [abs_of_nonpos short, abs_of_nonpos kept] at less
    rw [abs_of_nonpos short, abs_le]
    omega

/-- While the position itself is within its limits, leverage is all that can stand in the way. -/
theorem Reduces.withinLimits (reduces : Reduces self signal) {r : Rounding}
    {account : AccountState} (held : |self.positions.getD signal.symbol 0| ≤
      self.maxContractsPerSymbol)
    (worth : 0 ≤ price) (sized : 0 ≤ self.contractMultipliers.getD signal.symbol 1)
    (notional : r.mul (r.mul (r (|self.positions.getD signal.symbol 0| : ℤ)) price)
      (self.contractMultipliers.getD signal.symbol 1) ≤ self.maxPositionNotionalUsd)
    (leverage : self.projectedLeverage r signal account price ≤ self.maxGrossLeverage) :
    self.WithinLimits r signal account price where
  position := reduces.less.le.trans held
  notional := by
    have quantity : ((|signal.targetQuantity| : ℤ) : ℚ) ≤
        ((|self.positions.getD signal.symbol 0| : ℤ) : ℚ) := by
      exact_mod_cast reduces.quantity_le
    have value : r.mul (r (|signal.targetQuantity| : ℤ)) price ≤
        r.mul (r (|self.positions.getD signal.symbol 0| : ℤ)) price :=
      r.mono (mul_le_mul_of_nonneg_right (r.mono quantity) worth)
    exact (r.mono (mul_le_mul_of_nonneg_right value sized)).trans notional
  leverage := leverage

end Reducing

/-- To sell one of the eight contracts that the account holds. -/
def sellOne : SignalEvent where
  symbol := "NQ"
  strategyId := "test-strategy"
  side := .sell
  targetQuantity := 1

theorem sellOne_reduces : Reduces CheckedTrade.desk sellOne :=
  ⟨by decide, by decide, by decide⟩

theorem sellOne_passes : ¬ ForExposure
    (CheckedTrade.desk.checkOrderIn .binary64 sellOne ⟨10000, 800, ⟨0, 0⟩⟩ 0).1.code := by
  have within : CheckedTrade.desk.WithinLimits .binary64 sellOne ⟨10000, 800, ⟨0, 0⟩⟩ 100 :=
    sellOne_reduces.withinLimits (by decide) (by decide +kernel) (by decide +kernel)
      (by decide +kernel) (by decide +kernel)
  exact (not_forExposure_iff CheckedTrade.desk .binary64 rfl rfl (by decide +kernel) rfl
    (by decide +kernel) (by decide +kernel)).1.mpr within

/-- With 100 of equity left the eight contracts are at eight times the equity, where five is the
limit, and to sell one of them counts as nine. -/
theorem sellOne_blocked :
    ¬ ∀ (engine : RiskEngine) (signal : SignalEvent) (account : AccountState) (now price : ℚ),
      Reduces engine signal → engine.circuitBreaker.isHalted = false →
      engine.checkFatFinger signal = .ok () →
      (engine.rateLimiter.tryAcquireIn .binary64 now).1.1 = true →
      engine.prices.get? signal.symbol = some price → 0 < price → 0 < account.accountEquity →
      account.grossExposureUsd = engine.grossExposureUsd →
      ¬ ForExposure (engine.checkOrderIn .binary64 signal account now).1.code := by
  intro claim
  apply claim CheckedTrade.desk sellOne ⟨100, 800, ⟨0, 0⟩⟩ 0 100 sellOne_reduces rfl rfl
    (by decide +kernel) rfl (by decide +kernel) (by decide +kernel) (by decide +kernel)
  have code : (CheckedTrade.desk.checkOrderIn .binary64 sellOne ⟨100, 800, ⟨0, 0⟩⟩ 0).1.code =
      .leverageLimitBreach := by
    decide +kernel
  exact Or.inr (Or.inr code)

end Binbot.RiskEngine
