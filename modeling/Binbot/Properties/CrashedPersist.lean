import Binbot.Properties.RestartTransparency
import Binbot.Utils.SnapshotFile

/-!
# A crash while the session is written

`write_text` truncates the state file and then writes it. Whether a restart brings a halt
back depends on what the crash left of the file.
-/
namespace Binbot

open Data

/-- The moment at which a process dies during `persist`. -/
inductive CrashPoint where
  /-- Before the file is truncated. -/
  | untouched
  /-- With so many characters of the new contents in the truncated file. -/
  | written (count : ℕ)

namespace LiveParams

/-- The deployment with its state file on disk. -/
def onDisk (python : PythonTexts) (p : LiveParams (List Char)) : LiveParams (List Char) :=
  { p with format := SnapshotFile.format python }

variable (p : LiveParams (List Char))

/-- What a process writes when it persists. -/
def sessionSnapshot (m : Process (List Char)) : SessionSnapshot :=
  ⟨m.riskEngine.circuitBreaker.snapshot, p.environmentId⟩

/-- The process has died during `persist`. -/
def died (m : Process (List Char)) : CrashPoint → Process (List Char)
  | .untouched => m
  | .written count =>
    { m with stateFile := ⟨some ((p.format.write (p.sessionSnapshot m)).take count)⟩ }

/-- With everything written, the crash comes after `persist`. -/
theorem died_complete (m : Process (List Char)) {count : ℕ}
    (whole : (p.format.write (p.sessionSnapshot m)).length ≤ count) :
    p.died m (.written count) = p.persisted m := by
  rw [died, List.take_of_length_le whole]
  rfl

/-- The restarted process, on a clock of its own. -/
def rebooted (engine : RiskEngine) (startingEquity : ℚ) (clock : Clock) (book : Dict Symbol ℤ)
    (equity : ℚ) (m : Process (List Char)) : Except String (Process (List Char)) := do
  let m ← booted engine startingEquity { m with clock := clock }
  pure (p.recovered book equity m)

/-- The file holds a whole snapshot of this date: of the process that persisted, or of the
one that died. -/
def WholeOf (today : Date) (persisted dying : Process (List Char)) : CrashPoint → Prop
  | .untouched => persisted.riskEngine.circuitBreaker.sessionDate = today
  | .written count =>
    (p.format.write (p.sessionSnapshot dying)).length ≤ count ∧
      dying.riskEngine.circuitBreaker.sessionDate = today

section

variable {p} {engine : RiskEngine} {startingEquity : ℚ} {clock : Clock} {book : Dict Symbol ℤ}
variable {equity : ℚ} {m back : Process (List Char)}

/-- A restart ends in the session that its recovery makes of the file. -/
theorem rebooted_breaker {snapshot : Option SessionSnapshot}
    (read : p.readFile m.stateFile = .ok snapshot)
    (restarted : p.rebooted engine startingEquity clock book equity m = .ok back) :
    ∃ b, back.riskEngine.circuitBreaker = p.recoveredBreaker snapshot equity clock.now.date b := by
  cases created : DrawdownCircuitBreaker.create
      m.riskEngine.circuitBreaker.maxDailyDrawdownPct startingEquity clock.now.date with
  | error e =>
    rw [rebooted, booted, created] at restarted
    cases restarted
  | ok fresh =>
    rw [rebooted, booted, created] at restarted
    cases restarted
    have spec := p.recovered_spec book equity
      { riskEngine := { engine with circuitBreaker := fresh }
        clock := clock
        stateFile := m.stateFile
        scanner := ⟨false, .empty, .empty⟩ } read
    exact ⟨fresh, congrArg (fun m => m.riskEngine.circuitBreaker) spec⟩

/-- A halted session of the same environment comes back halted if it is today's. -/
theorem rebooted_halted {saved : SessionSnapshot}
    (read : p.readFile m.stateFile = .ok (some saved)) (own : saved.environmentId = p.environmentId)
    (halted : saved.session.halted = true)
    (restarted : p.rebooted engine startingEquity clock book equity m = .ok back) :
    back.halted = true ↔ saved.session.sessionDate = clock.now.date := by
  obtain ⟨b, result⟩ := rebooted_breaker read restarted
  rw [Process.halted, result]
  by_cases today : saved.session.sessionDate = clock.now.date
  · rw [p.recoveredBreaker_restores today own]
    exact iff_of_true halted today
  · rw [p.recoveredBreaker_fresh (Or.inl today)]
    exact iff_of_false Bool.false_ne_true today

/-- A restart that reads no session starts a fresh one. -/
theorem rebooted_fresh (read : p.readFile m.stateFile = .ok none)
    (restarted : p.rebooted engine startingEquity clock book equity m = .ok back) :
    back.halted = false := by
  obtain ⟨b, result⟩ := rebooted_breaker read restarted
  rw [Process.halted, result]
  rfl

end

/-- A halted process has persisted; later it dies during a `persist`, halted as well. A
restart comes back up halted exactly if the crash has left the old file or the whole new
one, and the session in it is of the day of the restart. -/
theorem halt_survives_iff (python : PythonTexts) (persisted dying back : Process (List Char))
    (crash : CrashPoint) (engine : RiskEngine) (startingEquity : ℚ) (clock : Clock)
    (book : Dict Symbol ℤ) (equity : ℚ) (halted : persisted.halted = true)
    (stillHalted : dying.halted = true)
    (file : dying.stateFile = ((p.onDisk python).persisted persisted).stateFile)
    (proper : SnapshotFile.Proper python (p.sessionSnapshot persisted))
    (stillProper : SnapshotFile.Proper python (p.sessionSnapshot dying))
    (restarted : (p.onDisk python).rebooted engine startingEquity clock book equity
      ((p.onDisk python).died dying crash) = .ok back) :
    back.halted = true ↔ (p.onDisk python).WholeOf clock.now.date persisted dying crash := by
  cases crash with
  | untouched =>
    have read : (p.onDisk python).readFile dying.stateFile =
        .ok (some (p.sessionSnapshot persisted)) := by
      rw [file]
      exact SnapshotFile.read_write proper
    exact rebooted_halted read rfl halted restarted
  | written count =>
    by_cases whole : (SnapshotFile.write python (p.sessionSnapshot dying)).length ≤ count
    · have read : (p.onDisk python).readFile
          ((p.onDisk python).died dying (.written count)).stateFile =
            .ok (some (p.sessionSnapshot dying)) := by
        rw [(p.onDisk python).died_complete dying whole]
        exact SnapshotFile.read_write stillProper
      rw [rebooted_halted read rfl stillHalted restarted]
      exact ⟨fun today => ⟨whole, today⟩, fun both => both.2⟩
    · have read : (p.onDisk python).readFile
          ((p.onDisk python).died dying (.written count)).stateFile = .ok none :=
        SnapshotFile.read_torn stillProper (not_le.mp whole)
      rw [rebooted_fresh read restarted]
      exact iff_of_false Bool.false_ne_true fun both => whole both.1

/-- Whole floats below 10^16 as `repr` writes them, and literals up to their point. -/
def wholeFloats : PythonTexts where
  repr x := Nat.toDigits 10 x.num.toNat ++ ['.', '0']
  floatOfLiteral literal :=
    .ok ((literal.takeWhile Json.isDigit).foldl (fun n c => n * 10 + (c.toNat - 48)) 0 : ℕ)
  floatOfString _ := none
  str _ := ""

/-- The kill switch has halted this process. -/
def haltedProcess : Process (List Char) where
  riskEngine :=
    { demoProcess.riskEngine with
      circuitBreaker := demoProcess.riskEngine.circuitBreaker.forceHalt "kill switch" }
  clock := ⟨0, 0⟩
  stateFile := ⟨none⟩
  scanner := demoProcess.scanner

def paper : LiveParams (List Char) where
  getStepSize _ := 1 / 1000
  leverage := 10
  format := ⟨fun _ => [], fun _ => .ok none⟩
  environmentId := "testnet:0"

theorem haltedProcess_proper : SnapshotFile.Proper wholeFloats (paper.sessionSnapshot haltedProcess) where
  date := by decide +kernel
  start := ⟨rfl, rfl⟩
  peak := ⟨rfl, rfl⟩

/-- It has persisted, and persists again. -/
def dyingProcess : Process (List Char) := (paper.onDisk wholeFloats).persisted haltedProcess

/-- The crash comes when everything is written. -/
theorem halt_survives_iff_whole : ∃ back,
    (paper.onDisk wholeFloats).rebooted demoProcess.riskEngine 1 ⟨3600000000, 0⟩ .empty 1
        ((paper.onDisk wholeFloats).died dyingProcess (.written 1000)) = .ok back ∧
      back.halted = true := by
  obtain ⟨back, restarted⟩ : ∃ back,
      (paper.onDisk wholeFloats).rebooted demoProcess.riskEngine 1 ⟨3600000000, 0⟩ .empty 1
        ((paper.onDisk wholeFloats).died dyingProcess (.written 1000)) = .ok back := ⟨_, rfl⟩
  have survives := paper.halt_survives_iff wholeFloats haltedProcess dyingProcess back
    (.written 1000) demoProcess.riskEngine 1 ⟨3600000000, 0⟩ .empty 1 rfl rfl rfl haltedProcess_proper
    haltedProcess_proper restarted
  exact ⟨back, restarted, survives.mpr ⟨by decide +kernel, by decide +kernel⟩⟩

/-- The crash comes right after the truncation: an hour later on the same day the halt is
gone. -/
theorem truncated_file_forgets_halt : ∃ back,
    haltedProcess.halted = true ∧ dyingProcess.halted = true ∧
      dyingProcess.stateFile = ((paper.onDisk wholeFloats).persisted haltedProcess).stateFile ∧
      dyingProcess.riskEngine.circuitBreaker.sessionDate =
        (⟨3600000000, 0⟩ : Clock).now.date ∧
      (paper.onDisk wholeFloats).rebooted demoProcess.riskEngine 1 ⟨3600000000, 0⟩ .empty 1
        ((paper.onDisk wholeFloats).died dyingProcess (.written 0)) = .ok back ∧
      back.halted = false :=
  ⟨_, rfl, rfl, rfl, by decide +kernel, rfl, rfl⟩

end LiveParams

end Binbot
