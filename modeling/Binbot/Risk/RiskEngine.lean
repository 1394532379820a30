import Binbot.Core.Events
import Binbot.Risk.CircuitBreaker
import Binbot.Risk.Margin

/-!
# Pre-trade risk engine (`risk/risk_engine.py`)

The checks of one order run in a fixed order and the first violation wins. Only
the rate limiter changes, whatever the later checks say.
-/
namespace Binbot

open Data

inductive RiskCode where
  | ok
  | circuitBreakerHalted
  | invalidQuantity
  | fatFingerOrderSize
  | orderRateLimit
  | positionLimitBreach
  | noReferencePrice
  | notionalLimitBreach
  | noEquity
  | leverageLimitBreach
  | marginBreach
  deriving DecidableEq, Repr

def RiskCode.text : RiskCode → String
  | .ok => "OK"
  | .circuitBreakerHalted => "CIRCUIT_BREAKER_HALTED"
  | .invalidQuantity => "INVALID_QUANTITY"
  | .fatFingerOrderSize => "FAT_FINGER_ORDER_SIZE"
  | .orderRateLimit => "ORDER_RATE_LIMIT"
  | .positionLimitBreach => "POSITION_LIMIT_BREACH"
  | .noReferencePrice => "NO_REFERENCE_PRICE"
  | .notionalLimitBreach => "NOTIONAL_LIMIT_BREACH"
  | .noEquity => "NO_EQUITY"
  | .leverageLimitBreach => "LEVERAGE_LIMIT_BREACH"
  | .marginBreach => "MARGIN_BREACH"

structure RiskViolation where
  code : RiskCode
  message : String
  deriving DecidableEq

structure RiskCheckResult where
  passed : Bool
  code : RiskCode
  message : String
  approvedQuantity : ℤ := 0
  deriving DecidableEq

/-- Sliding-window order-rate limiter. The windows hold the times of accepted calls. -/
structure TokenRateLimiter where
  maxPerSecond : ℚ
  maxPerMinute : ℕ
  secondWindow : List ℚ := []
  minuteWindow : List ℚ := []
  deriving DecidableEq

def TokenRateLimiter.tryAcquireIn (r : Rounding) (self : TokenRateLimiter) (now : ℚ) :
    (Bool × String) × TokenRateLimiter :=
  let second := self.secondWindow.dropWhile fun t => r.sub now t > 1
  let minute := self.minuteWindow.dropWhile fun t => r.sub now t > 60
  let evicted := { self with secondWindow := second, minuteWindow := minute }
  if (second.length : ℚ) ≥ self.maxPerSecond then
    ((false, s!"order rate exceeded: {second.length}/s >= {shortest self.maxPerSecond}/s"), evicted)
  else if minute.length ≥ self.maxPerMinute then
    ((false, s!"order rate exceeded: {minute.length}/min >= {self.maxPerMinute}/min"), evicted)
  else
    ((true, "ok"), { evicted with secondWindow := second ++ [now], minuteWindow := minute ++ [now] })

structure RiskEngine where
  maxContractsPerOrder : ℤ
  maxContractsPerSymbol : ℤ
  maxPositionNotionalUsd : ℚ
  maxGrossLeverage : ℚ
  circuitBreaker : DrawdownCircuitBreaker
  marginCalculator : MarginCalculator
  rateLimiter : TokenRateLimiter
  positions : Dict Symbol ℤ := .empty
  prices : Dict Symbol ℚ := .empty
  contractMultipliers : Dict Symbol ℚ := .empty

/-- The account figures an order is checked against. -/
structure AccountState where
  accountEquity : ℚ
  grossExposureUsd : ℚ
  marginUsed : MarginUse
  deriving DecidableEq

namespace RiskEngine

variable (self : RiskEngine)

def updateMarketState (symbol : Symbol) (price : ℚ) : RiskEngine :=
  { self with prices := self.prices.set symbol price }

def updatePosition (symbol : Symbol) (quantity : ℤ) : RiskEngine :=
  { self with positions := self.positions.set symbol quantity }

/-- `update_position` for each item of a broker's book. -/
def updatePositions (book : Dict Symbol ℤ) : RiskEngine :=
  book.entries.foldl (fun engine entry => engine.updatePosition entry.1 entry.2) self

def setContractMultiplier (symbol : Symbol) (multiplier : ℚ) : RiskEngine :=
  { self with contractMultipliers := self.contractMultipliers.set symbol multiplier }

def checkCircuitBreaker : Except RiskViolation Unit :=
  if self.circuitBreaker.isHalted then
    .error ⟨.circuitBreakerHalted, self.circuitBreaker.haltReason⟩
  else .ok ()

def checkFatFinger (signal : SignalEvent) : Except RiskViolation Unit :=
  let qty := |signal.targetQuantity|
  if qty ≤ 0 then .error ⟨.invalidQuantity, s!"non-positive quantity {qty}"⟩
  else if qty > self.maxContractsPerOrder then
    .error ⟨.fatFingerOrderSize,
      s!"order size {qty} exceeds max_contracts_per_order={self.maxContractsPerOrder}"⟩
  else .ok ()

def checkPositionLimits (signal : SignalEvent) : Except RiskViolation Unit :=
  let current := self.positions.getD signal.symbol 0
  let projected := |current + signal.signedQuantity|
  if projected > self.maxContractsPerSymbol then
    .error ⟨.positionLimitBreach, s!"projected position {projected} for {signal.symbol} exceeds " ++
      s!"max_contracts_per_symbol={self.maxContractsPerSymbol}"⟩
  else .ok ()

def checkNotionalLimit (r : Rounding) (signal : SignalEvent) : Except RiskViolation ℚ :=
  let multiplier := self.contractMultipliers.getD signal.symbol 1
  match self.prices.get? signal.symbol with
  | none => .error ⟨.noReferencePrice, s!"no reference price for {signal.symbol}"⟩
  | some price =>
    if price ≤ 0 then .error ⟨.noReferencePrice, s!"no reference price for {signal.symbol}"⟩
    else
      let notional := r.mul (r.mul (r (|signal.targetQuantity| : ℤ)) price) multiplier
      if notional > self.maxPositionNotionalUsd then
        .error ⟨.notionalLimitBreach, s!"order notional {fixed 2 notional} exceeds " ++
          s!"max_position_notional_usd={fixed 2 self.maxPositionNotionalUsd}"⟩
      else .ok notional

def checkLeverage (r : Rounding) (grossExposureUsd incrementalNotional accountEquity : ℚ) :
    Except RiskViolation Unit :=
  if accountEquity ≤ 0 then .error ⟨.noEquity, "account_equity must be positive"⟩
  else
    let projectedGross := r.add grossExposureUsd incrementalNotional
    let leverage := r.div projectedGross accountEquity
    if leverage > self.maxGrossLeverage then
      .error ⟨.leverageLimitBreach, s!"projected gross leverage {fixed 2 leverage}x exceeds " ++
        s!"max_gross_leverage={fixed 2 self.maxGrossLeverage}x"⟩
    else .ok ()

/-- The margin gate's verdict on an order of this engine's account. -/
def marginCheckIn (r : Rounding) (signal : SignalEvent) (account : AccountState) :
    MarginCheckResult :=
  self.marginCalculator.checkOrderIn r signal.symbol signal.signedQuantity
    (self.positions.getD signal.symbol 0) account.accountEquity account.marginUsed

def marginCheck (signal : SignalEvent) (account : AccountState) : MarginCheckResult :=
  self.marginCheckIn .exact signal account

def checkMargin (r : Rounding) (signal : SignalEvent) (account : AccountState) :
    Except RiskViolation Unit :=
  let result := self.marginCheckIn r signal account
  if result.passed then .ok () else .error ⟨.marginBreach, result.reason⟩

/-- The checks after the rate limiter. -/
def checkExposure (r : Rounding) (signal : SignalEvent) (account : AccountState) :
    Except RiskViolation Unit := do
  self.checkPositionLimits signal
  let notional ← self.checkNotionalLimit r signal
  self.checkLeverage r account.grossExposureUsd notional account.accountEquity
  self.checkMargin r signal account

def report (signal : SignalEvent) : Except RiskViolation Unit → RiskCheckResult
  | .ok _ =>
    { passed := true
      code := .ok
      message := "all pre-trade checks passed"
      approvedQuantity := signal.targetQuantity }
  | .error violation => { passed := false, code := violation.code, message := violation.message }

/-- `check_order` at monotonic time `now`. -/
def checkOrderIn (r : Rounding) (signal : SignalEvent) (account : AccountState) (now : ℚ) :
    RiskCheckResult × RiskEngine :=
  match self.checkCircuitBreaker, self.checkFatFinger signal with
  | .error violation, _ => (report signal (.error violation), self)
  | .ok _, .error violation => (report signal (.error violation), self)
  | .ok _, .ok _ =>
    let acquired := self.rateLimiter.tryAcquireIn r now
    let counted := { self with rateLimiter := acquired.2 }
    if acquired.1.1 then (report signal (counted.checkExposure r signal account), counted)
    else (report signal (.error ⟨.orderRateLimit, acquired.1.2⟩), counted)

/-- In exact arithmetic. -/
def checkOrder (signal : SignalEvent) (account : AccountState) (now : ℚ) :
    RiskCheckResult × RiskEngine :=
  self.checkOrderIn .exact signal account now

theorem updatePositions_eq (book : Dict Symbol ℤ) :
    self.updatePositions book = { self with positions := self.positions.overlay book } := by
  rw [updatePositions, Dict.overlay]
  generalize book.entries = entries
  induction entries generalizing self with
  | nil => rfl
  | cons entry rest ih =>
    rw [List.foldl_cons, List.foldl_cons, ih]
    rfl

@[simp] theorem report_passed (signal : SignalEvent) (verdict : Except RiskViolation Unit) :
    (report signal verdict).passed = verdict.isOk := by
  cases verdict <;> rfl

theorem checkCircuitBreaker_ok (u : Unit) :
    self.checkCircuitBreaker = .ok u ↔ self.circuitBreaker.halted = false := by
  rw [checkCircuitBreaker, DrawdownCircuitBreaker.isHalted]
  cases self.circuitBreaker.halted <;> simp

theorem checkFatFinger_ok (signal : SignalEvent) (u : Unit) : self.checkFatFinger signal = .ok u ↔
    0 < |signal.targetQuantity| ∧ |signal.targetQuantity| ≤ self.maxContractsPerOrder := by
  unfold checkFatFinger
  dsimp only
  split
  next none => simp [not_lt.mpr none]
  next some =>
    split
    next big => simp [not_le.mpr big]
    next small => simp [not_le.mp some, not_lt.mp small]

theorem checkPositionLimits_ok (signal : SignalEvent) (u : Unit) :
    self.checkPositionLimits signal = .ok u ↔
      |self.positions.getD signal.symbol 0 + signal.signedQuantity| ≤ self.maxContractsPerSymbol := by
  unfold checkPositionLimits
  dsimp only
  split
  next beyond => simp [not_le.mpr beyond]
  next within => simp [not_lt.mp within]

theorem checkMargin_ok (r : Rounding) (signal : SignalEvent) (account : AccountState) (u : Unit) :
    self.checkMargin r signal account = .ok u ↔
      (self.marginCheckIn r signal account).passed = true := by
  unfold checkMargin
  cases h : (self.marginCheckIn r signal account).passed <;> simp [h]

private theorem isOk_bind {ε α β : Type} (x : Except ε α) (f : α → Except ε β) :
    (x >>= f).isOk = true ↔ ∃ a, x = .ok a ∧ (f a).isOk = true := by
  cases x with
  | error e => simp [bind, Except.bind, Except.isOk, Except.toBool]
  | ok a => simp [bind, Except.bind]

private theorem isOk_iff {ε α : Type} (x : Except ε α) : x.isOk = true ↔ ∃ a, x = .ok a := by
  cases x <;> simp [Except.isOk, Except.toBool]

/-- What every approved order has passed. -/
theorem checkOrder_passed (signal : SignalEvent) (account : AccountState) (now : ℚ)
    (passed : (self.checkOrder signal account now).1.passed = true) :
    self.circuitBreaker.halted = false ∧ 0 < |signal.targetQuantity| ∧
      |self.positions.getD signal.symbol 0 + signal.signedQuantity| ≤ self.maxContractsPerSymbol ∧
      (self.marginCheck signal account).passed = true := by
  rw [checkOrder, checkOrderIn] at passed
  split at passed
  · simp [Except.isOk, Except.toBool] at passed
  · simp [Except.isOk, Except.toBool] at passed
  next unhalted sized =>
    dsimp only at passed
    split at passed
    next acquired =>
      simp only [report_passed, checkExposure, isOk_bind] at passed
      obtain ⟨_, limits, _, _, _, _, last⟩ := passed
      obtain ⟨_, margin⟩ := (isOk_iff _).mp last
      exact ⟨(checkCircuitBreaker_ok _ _).mp unhalted, ((checkFatFinger_ok _ _ _).mp sized).1,
        (checkPositionLimits_ok _ _ _).mp limits, (checkMargin_ok _ _ _ _ _).mp margin⟩
    · simp [Except.isOk, Except.toBool] at passed

/-- A check changes nothing but the rate limiter. -/
theorem checkOrder_engine (signal : SignalEvent) (account : AccountState) (now : ℚ) :
    ∃ limiter, (self.checkOrder signal account now).2 = { self with rateLimiter := limiter } := by
  rw [checkOrder, checkOrderIn]
  split
  · exact ⟨self.rateLimiter, rfl⟩
  · exact ⟨self.rateLimiter, rfl⟩
  · dsimp only
    split
    · exact ⟨_, rfl⟩
    · exact ⟨_, rfl⟩

end RiskEngine

end Binbot
