import Binbot.Core.Events
import Binbot.Data.Decimal
import Binbot.Data.Rounding

/-!
# Drawdown circuit breaker (`risk/circuit_breaker.py`)

Trips when the equity falls by the daily limit from the session's start or from
its peak, and stays tripped until the session is reset.
-/
namespace Binbot

open Data

/-- The limit is fixed at construction, where it was checked. -/
structure DrawdownCircuitBreaker where
  maxDailyDrawdownPct : ℚ
  startingEquity : ℚ
  sessionDate : Date
  peakEquity : ℚ
  halted : Bool
  haltReason : String
  autoResetPending : Bool
  pct_pos : 0 < maxDailyDrawdownPct
  pct_le : maxDailyDrawdownPct ≤ 100

namespace DrawdownCircuitBreaker

/-- The constructor; `today` is the UTC date it is called on. -/
def create (maxDailyDrawdownPct startingEquity : ℚ) (today : Date) :
    Except String DrawdownCircuitBreaker :=
  if startingEquity ≤ 0 then .error "starting_equity must be positive"
  else if valid : 0 < maxDailyDrawdownPct ∧ maxDailyDrawdownPct ≤ 100 then
    .ok
      { maxDailyDrawdownPct := maxDailyDrawdownPct
        startingEquity := startingEquity
        sessionDate := today
        peakEquity := startingEquity
        halted := false
        haltReason := ""
        autoResetPending := false
        pct_pos := valid.1
        pct_le := valid.2 }
  else .error "max_daily_drawdown_pct must be in (0, 100]"

/-- Both baselines are positive, as the constructor checks them. -/
structure Positive (b : DrawdownCircuitBreaker) : Prop where
  start_pos : 0 < b.startingEquity
  peak_pos : 0 < b.peakEquity

variable (self : DrawdownCircuitBreaker)

def isHalted : Bool := self.halted

def consumeAutoResetFlag : Bool × DrawdownCircuitBreaker :=
  (self.autoResetPending, { self with autoResetPending := false })

def resetSession (startingEquity : ℚ) (sessionDate : Date) : DrawdownCircuitBreaker :=
  { self with
    startingEquity := startingEquity
    peakEquity := startingEquity
    sessionDate := sessionDate
    halted := false
    haltReason := "" }

/-- The part of a snapshot file that `restore` reads back. -/
structure Saved where
  sessionDate : Date
  startingEquity : ℚ
  peakEquity : ℚ
  halted : Bool
  haltReason : String
  deriving DecidableEq

def snapshot : Saved :=
  ⟨self.sessionDate, self.startingEquity, self.peakEquity, self.halted, self.haltReason⟩

def restore (saved : Saved) : DrawdownCircuitBreaker :=
  { self with
    sessionDate := saved.sessionDate
    startingEquity := saved.startingEquity
    peakEquity := saved.peakEquity
    halted := saved.halted
    haltReason := saved.haltReason }

/-- The larger of the drawdowns from the start and from the peak, in percent. -/
def drawdownPctIn (r : Rounding) (startingEquity peakEquity currentEquity : ℚ) : ℚ :=
  max (r.mul (r.div (r.sub startingEquity currentEquity) startingEquity) 100)
    (r.mul (r.div (r.sub peakEquity currentEquity) peakEquity) 100)

def drawdownPct (startingEquity peakEquity currentEquity : ℚ) : ℚ :=
  max ((startingEquity - currentEquity) / startingEquity * 100)
    ((peakEquity - currentEquity) / peakEquity * 100)

/-- Feed an equity reading, in an arithmetic that rounds; the result says whether this call tripped
the breaker. -/
def updateIn (r : Rounding) (currentEquity : ℚ) (now : Timestamp) :
    DrawdownCircuitBreaker × Except String Bool :=
  if now.date ≠ self.sessionDate then
    ({ self.resetSession currentEquity now.date with autoResetPending := true }, .ok false)
  else
    let peak := max self.peakEquity currentEquity
    let marked := { self with peakEquity := peak }
    if self.halted then (marked, .ok false)
    else if self.startingEquity = 0 ∨ peak = 0 then (marked, .error "ZeroDivisionError")
    else
      let drawdown := drawdownPctIn r self.startingEquity peak currentEquity
      if drawdown ≥ self.maxDailyDrawdownPct then
        ({ marked with
            halted := true
            haltReason := s!"daily drawdown {fixed 3 drawdown}% >= limit " ++
              s!"{fixed 3 self.maxDailyDrawdownPct}% (equity={fixed 2 currentEquity}, " ++
              s!"start={fixed 2 self.startingEquity}, peak={fixed 2 peak})" }, .ok true)
      else (marked, .ok false)

/-- The same in exact arithmetic. -/
def update (currentEquity : ℚ) (now : Timestamp) : DrawdownCircuitBreaker × Except String Bool :=
  self.updateIn .exact currentEquity now

def forceHalt (reason : String) : DrawdownCircuitBreaker :=
  { self with halted := true, haltReason := reason }

@[simp] theorem forceHalt_halted (reason : String) : (self.forceHalt reason).halted = true := rfl

@[simp] theorem resetSession_halted (equity : ℚ) (date : Date) :
    (self.resetSession equity date).halted = false := rfl

theorem drawdownPctIn_exact : drawdownPctIn .exact = drawdownPct := rfl

section Update

variable (r : Rounding) (currentEquity : ℚ) (now : Timestamp)

/-- Any other date, earlier or later, starts a fresh session. -/
theorem updateIn_otherDay (otherDay : now.date ≠ self.sessionDate) :
    self.updateIn r currentEquity now =
      ({ self.resetSession currentEquity now.date with autoResetPending := true }, .ok false) := by
  rw [updateIn, if_pos otherDay]

/-- A halted breaker only follows the peak. -/
theorem updateIn_whileHalted (sameDay : now.date = self.sessionDate)
    (halted : self.halted = true) : self.updateIn r currentEquity now =
      ({ self with peakEquity := max self.peakEquity currentEquity }, .ok false) := by
  simp [updateIn, sameDay, halted]

/-- On its own date an update keeps the session's date and start. -/
theorem updateIn_session (sameDay : now.date = self.sessionDate) :
    (self.updateIn r currentEquity now).1.sessionDate = self.sessionDate ∧
      (self.updateIn r currentEquity now).1.startingEquity = self.startingEquity ∧
      (self.updateIn r currentEquity now).1.peakEquity = max self.peakEquity currentEquity := by
  rw [updateIn]
  rw [if_neg (not_not.mpr sameDay)]
  dsimp only
  split
  · exact ⟨rfl, rfl, rfl⟩
  · split
    · exact ⟨rfl, rfl, rfl⟩
    · split
      · exact ⟨rfl, rfl, rfl⟩
      · exact ⟨rfl, rfl, rfl⟩

@[simp] theorem updateIn_limit :
    (self.updateIn r currentEquity now).1.maxDailyDrawdownPct = self.maxDailyDrawdownPct := by
  rw [updateIn]
  split
  · rfl
  · dsimp only
    split
    · rfl
    · split
      · rfl
      · split
        · rfl
        · rfl

/-- On its own date a halted breaker stays halted, whatever the equity. -/
theorem update_halted (sameDay : now.date = self.sessionDate) (halted : self.halted = true) :
    (self.update currentEquity now).1.halted = true := by
  rw [update, self.updateIn_whileHalted .exact currentEquity now sameDay halted]
  exact halted

theorem update_otherDay (otherDay : now.date ≠ self.sessionDate) :
    self.update currentEquity now =
      ({ self.resetSession currentEquity now.date with autoResetPending := true }, .ok false) :=
  self.updateIn_otherDay .exact currentEquity now otherDay

theorem update_session (sameDay : now.date = self.sessionDate) :
    (self.update currentEquity now).1.sessionDate = self.sessionDate ∧
      (self.update currentEquity now).1.startingEquity = self.startingEquity ∧
      (self.update currentEquity now).1.peakEquity = max self.peakEquity currentEquity :=
  self.updateIn_session .exact currentEquity now sameDay

@[simp] theorem update_limit :
    (self.update currentEquity now).1.maxDailyDrawdownPct = self.maxDailyDrawdownPct :=
  self.updateIn_limit .exact currentEquity now

end Update

variable {self}

theorem create_ok {maxDailyDrawdownPct startingEquity : ℚ} {today : Date}
    (created : create maxDailyDrawdownPct startingEquity today = .ok self) :
    0 < startingEquity ∧ self.maxDailyDrawdownPct = maxDailyDrawdownPct ∧
      self.snapshot = ⟨today, startingEquity, startingEquity, false, ""⟩ := by
  rw [create] at created
  split at created
  · cases created
  next positive =>
    split at created
    · cases created
      exact ⟨not_le.mp positive, rfl, rfl⟩
    · cases created

theorem Positive.resetSession {equity : ℚ} (positive : 0 < equity) (date : Date) :
    (self.resetSession equity date).Positive := ⟨positive, positive⟩

/-- Against a positive peak that is no lower than the start, the drawdown from the peak
is the larger one. -/
theorem drawdownPct_eq {start peak equity : ℚ} (start_pos : 0 < start) (ratchet : start ≤ peak)
    (solvent : 0 ≤ equity) : drawdownPct start peak equity = (peak - equity) / peak * 100 := by
  have peak_pos : 0 < peak := start_pos.trans_le ratchet
  apply max_eq_right
  have share : equity / peak ≤ equity / start := div_le_div_of_nonneg_left solvent start_pos ratchet
  have fromStart : (start - equity) / start = 1 - equity / start := by field_simp
  have fromPeak : (peak - equity) / peak = 1 - equity / peak := by field_simp
  rw [fromStart, fromPeak]
  linarith

/-- The limit, without the division. -/
theorem drawdownPct_ge_iff {start peak equity : ℚ} (start_pos : 0 < start) (ratchet : start ≤ peak)
    (solvent : 0 ≤ equity) (limit : ℚ) :
    drawdownPct start peak equity ≥ limit ↔ (peak - equity) * 100 ≥ limit * peak := by
  have peak_pos : 0 < peak := start_pos.trans_le ratchet
  rw [drawdownPct_eq start_pos ratchet solvent, ge_iff_le, ge_iff_le, div_mul_eq_mul_div,
    le_div_iff₀ peak_pos]

/-- Positive baselines: nothing is divided by zero. -/
theorem Positive.update_returns (positive : self.Positive) (equity : ℚ) (now : Timestamp) :
    ∃ tripped, (self.update equity now).2 = .ok tripped := by
  have start := positive.start_pos.ne'
  have peak : max self.peakEquity equity ≠ 0 := (lt_max_of_lt_left positive.peak_pos).ne'
  rw [update, updateIn]
  split
  · exact ⟨false, rfl⟩
  · dsimp only
    split
    · exact ⟨false, rfl⟩
    · rw [if_neg (not_or.mpr ⟨start, peak⟩)]
      split
      · exact ⟨true, rfl⟩
      · exact ⟨false, rfl⟩

/-- A running session with positive baselines trips when the drawdown reaches the limit. -/
theorem Positive.updateIn_running (positive : self.Positive) (r : Rounding) (equity : ℚ)
    (now : Timestamp) (sameDay : now.date = self.sessionDate) (running : self.halted = false) :
    (self.updateIn r equity now).2 = .ok (decide
        (drawdownPctIn r self.startingEquity (max self.peakEquity equity) equity ≥
          self.maxDailyDrawdownPct)) ∧
      (self.updateIn r equity now).1.halted = decide
        (drawdownPctIn r self.startingEquity (max self.peakEquity equity) equity ≥
          self.maxDailyDrawdownPct) := by
  have start := positive.start_pos.ne'
  have peak : max self.peakEquity equity ≠ 0 := (lt_max_of_lt_left positive.peak_pos).ne'
  rw [updateIn]
  rw [if_neg (not_not.mpr sameDay)]
  dsimp only
  rw [running, if_neg Bool.false_ne_true, if_neg (not_or.mpr ⟨start, peak⟩)]
  split
  next reached => exact ⟨by rw [decide_eq_true reached], by rw [decide_eq_true reached]⟩
  next short => exact ⟨by rw [decide_eq_false short], by rw [decide_eq_false short]⟩

theorem Positive.update_running (positive : self.Positive) (equity : ℚ) (now : Timestamp)
    (sameDay : now.date = self.sessionDate) (running : self.halted = false) :
    (self.update equity now).2 = .ok (decide
        (drawdownPct self.startingEquity (max self.peakEquity equity) equity ≥
          self.maxDailyDrawdownPct)) ∧
      (self.update equity now).1.halted = decide
        (drawdownPct self.startingEquity (max self.peakEquity equity) equity ≥
          self.maxDailyDrawdownPct) :=
  positive.updateIn_running .exact equity now sameDay running

/-- Positive baselines: no reading shows a negative drawdown. -/
theorem Positive.drawdown_nonneg (positive : self.Positive) (equity : ℚ) :
    0 ≤ drawdownPct self.startingEquity (max self.peakEquity equity) equity := by
  have peak : 0 < max self.peakEquity equity := lt_max_of_lt_left positive.peak_pos
  apply le_max_of_le_right
  have below : 0 ≤ max self.peakEquity equity - equity := sub_nonneg.mpr (le_max_right _ _)
  positivity

end DrawdownCircuitBreaker

end Binbot
