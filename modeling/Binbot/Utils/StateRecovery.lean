import Binbot.Execution.OrderManager
import Binbot.Risk.RiskEngine

/-!
# State recovery (`utils/state_recovery.py`)

On start the position book is rebuilt from the broker's own record, and the
circuit breaker's session from a snapshot file of the same day and environment.
-/
namespace Binbot

open Async Data

structure Clock where
  now : Timestamp
  monotonic : ℚ
  deriving DecidableEq

structure SessionSnapshot where
  session : DrawdownCircuitBreaker.Saved
  environmentId : String
  deriving DecidableEq

/-- The text of the state file: how a snapshot is written, and what reading one
gives back (`none` for a text the reader rejects, `error` for an exception it
does not catch). -/
structure SnapshotFormat (F : Type) where
  write : SessionSnapshot → F
  read : F → Except String (Option SessionSnapshot)

/-- The file at `state_path`, if there is one. -/
structure StateFile (F : Type) where
  contents : Option F

structure RecoveryResult where
  positions : Dict Symbol ℤ
  accountEquity : ℚ
  circuitBreakerRestoredFromDisk : Bool
  circuitBreakerHalted : Bool

/-- The risk engine and its breaker are the memory part `RiskEngine`. -/
structure StateRecoveryService (σ : Type) (S : Sig) (F : Type) where
  broker : BrokerInterface σ S
  format : SnapshotFormat F
  environmentId : String := ""

namespace StateRecoveryService

variable {σ : Type} {S : Sig} {F : Type}
variable [Part σ RiskEngine] [Part σ (StateFile F)] [Part σ Clock]
variable (self : StateRecoveryService σ S F)

omit [Part σ RiskEngine] [Part σ Clock] in
def readSnapshot : Coro σ S (Option SessionSnapshot) := do
  let file : StateFile F ← Coro.view
  match file.contents with
  | none => pure none
  | some text =>
    match self.format.read text with
    | .ok snapshot => pure snapshot
    | .error e => throw e

/-- A snapshot of another day, or of another account, starts a fresh session. -/
def restoreCircuitBreaker (currentEquity : ℚ) : Coro σ S Bool := do
  let snapshot ← self.readSnapshot
  let clock : Clock ← Coro.view
  let today := clock.now.date
  match snapshot.filter fun s =>
      s.session.sessionDate = today ∧ s.environmentId = self.environmentId with
  | some saved => do
    Coro.update fun e : RiskEngine =>
      { e with circuitBreaker := e.circuitBreaker.restore { saved.session with sessionDate := today } }
    pure true
  | none => do
    Coro.update fun e : RiskEngine =>
      { e with circuitBreaker := e.circuitBreaker.resetSession currentEquity today }
    pure false

omit [Part σ Clock] in
def persist : Coro σ S Unit := do
  let engine : RiskEngine ← Coro.view
  Coro.update fun _ : StateFile F =>
    ⟨some (self.format.write ⟨engine.circuitBreaker.snapshot, self.environmentId⟩)⟩

def recover : Coro σ S RecoveryResult := do
  let positions ← self.broker.reconcileState
  Coro.update fun e : RiskEngine => e.updatePositions positions
  let currentEquity ← self.broker.getAccountEquity
  let restoredFromDisk ← self.restoreCircuitBreaker currentEquity
  self.persist
  let engine : RiskEngine ← Coro.view
  pure
    { positions := positions
      accountEquity := currentEquity
      circuitBreakerRestoredFromDisk := restoredFromDisk
      circuitBreakerHalted := engine.circuitBreaker.isHalted }

end StateRecoveryService

end Binbot
