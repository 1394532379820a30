import Binbot.Execution.SymbolSettings
import Binbot.Machine.Run
import Binbot.Scripts.LiveDesk
import Binbot.Scripts.LiveInterface

/-!
# The leverage that margins are worked out with

The adapter settles for a symbol's maximum where the configured leverage is above it. The
position monitor and the margin schedule divide by the configured leverage all the same.
-/
namespace Binbot.LeverageInForce

open Async Data BinanceFuturesBroker

/-- The running scanner, and the settings at the exchange. -/
structure State where
  desk : Desk
  settings : SymbolSettings

/-- A signal that has passed its checks sets its symbol up. -/
structure Setup where
  symbol : Symbol
  reception : Reception

section Machine

variable (maxLeverage : Symbol → ℕ) (p : DeskParams)

def run (s : State) (a : Setup) : Coro.Outcome SymbolSettings Desk Unit :=
  (p.broker.ensureSymbolReady a.symbol p.leverage p.marginType).exec
    (SymbolSettings.serve maxLeverage a.reception) s.settings s.desk

def step (s : State) (a : Setup) : Option State :=
  some ⟨(run maxLeverage p s a).memory, (run maxLeverage p s a).outside⟩

/-- The set-up does not record a maximum below the configured leverage. -/
def Uncapped (s : State) (a : Setup) : Prop :=
  Records maxLeverage a.reception s.desk.broker a.symbol p.leverage →
    p.leverage ≤ maxLeverage a.symbol

instance (s : State) (a : Setup) : Decidable (Uncapped maxLeverage p s a) :=
  inferInstanceAs (Decidable (_ → _))

end Machine

section Margins

variable {σ : Type} {S : Sig} {F : Type} (p : DeskParams) (scanner : LiveScanner σ S F)

/-- Whenever a position is looked at and whenever a tick comes in, the margin is that of the
leverage on record for the symbol. -/
structure UsesRecord (s : State) : Prop where
  margin : ∀ symbol record, s.desk.broker.configuredLeverageMargin.get? symbol = some record →
    ∀ detail stepSize, detail.symbol = symbol →
      PositionMonitor.marginUsdt p.positionMonitor.leverage stepSize detail =
        detail.quantity * stepSize * detail.entryPrice / record.1
  roi : ∀ symbol record, s.desk.broker.configuredLeverageMargin.get? symbol = some record →
    ∀ detail stepSize, detail.symbol = symbol →
      PositionMonitor.roiPct p.positionMonitor.leverage stepSize detail =
        PositionMonitor.roiPct record.1 stepSize detail
  schedule : ∀ symbol record, s.desk.broker.configuredLeverageMargin.get? symbol = some record →
    ∀ mid engine seen,
      ((scanner.onTick symbol mid engine seen).1.marginCalculator.schedule.get? symbol).map
          (·.initialMarginPerContract) = some (mid * scanner.getStepSize symbol / record.1)

/-- Every leverage on record is the configured one. -/
def AsConfigured (s : State) : Prop :=
  ∀ symbol record, s.desk.broker.configuredLeverageMargin.get? symbol = some record →
    record.1 = p.leverage

variable {p scanner} {s t : State} {a : Setup} {maxLeverage : Symbol → ℕ}

theorem step_records (moved : step maxLeverage p s a = some t) :
    t.desk.broker.configuredLeverageMargin =
      if Records maxLeverage a.reception s.desk.broker a.symbol p.leverage then
        s.desk.broker.configuredLeverageMargin.set a.symbol
          (min p.leverage (maxLeverage a.symbol), p.marginType)
      else s.desk.broker.configuredLeverageMargin := by
  cases moved
  have wired : p.broker.client = wireClient Desk := rfl
  exact ensureSymbolReady_records maxLeverage a.reception s.settings s.desk a.symbol p.leverage
    p.marginType wired

theorem AsConfigured.usesRecord (configured : AsConfigured p s) (positive : 0 < p.leverage)
    (wired : scanner.leverage = p.leverage) : UsesRecord p scanner s := by
  have divisor : (p.leverage : ℚ) > 0 := by exact_mod_cast positive
  constructor
  · intro symbol record known detail stepSize _
    rw [configured symbol record known]
    exact if_pos divisor
  · intro symbol record known detail stepSize _
    rw [configured symbol record known]
    rfl
  · intro symbol record known mid engine seen
    have atLeastOne : max (p.leverage : ℚ) 1 = p.leverage :=
      max_eq_left (by exact_mod_cast positive)
    simp only [LiveScanner.onTick, MarginCalculator.setRequirement, Dict.get?_set, if_true,
      Option.map_some, wired, atLeastOne]
    rw [configured symbol record known]

theorem AsConfigured.step (configured : AsConfigured p s) (uncapped : Uncapped maxLeverage p s a)
    (moved : step maxLeverage p s a = some t) : AsConfigured p t := by
  intro symbol record known
  rw [step_records moved] at known
  split at known
  next records =>
    rw [Dict.get?_set] at known
    split at known
    · cases known
      exact min_eq_left (uncapped records)
    · exact configured symbol record known
  next => exact configured symbol record known

/-- The margin of one unit at one tells the divisors apart. -/
theorem UsesRecord.uncapped (uses : UsesRecord p scanner t) (positive : 0 < p.leverage)
    (moved : LeverageInForce.step maxLeverage p s a = some t) : Uncapped maxLeverage p s a := by
  intro records
  have known : t.desk.broker.configuredLeverageMargin.get? a.symbol =
      some (min p.leverage (maxLeverage a.symbol), p.marginType) := by
    rw [step_records moved, if_pos records, Dict.get?_set, if_pos rfl]
  have divisor : (p.leverage : ℚ) > 0 := by exact_mod_cast positive
  have margin := uses.margin a.symbol _ known ⟨a.symbol, .buy, 1, 1, 1, 0⟩ 1 rfl
  have same : (1 : ℚ) / p.leverage = 1 / (min p.leverage (maxLeverage a.symbol) : ℕ) := by
    have worked : PositionMonitor.marginUsdt p.positionMonitor.leverage 1
        ⟨a.symbol, .buy, 1, 1, 1, 0⟩ = 1 / p.leverage := by
      rw [PositionMonitor.marginUsdt]
      simp only [Int.cast_one, mul_one]
      exact if_pos divisor
    simpa using worked.symm.trans margin
  have equal : p.leverage = min p.leverage (maxLeverage a.symbol) := by
    rw [one_div, one_div, inv_inj] at same
    exact_mod_cast same
  exact min_eq_left_iff.mp equal.symm

/-- In every run of set-ups, whatever fails, the margins and the returns always go by the
leverage on record if and only if no set-up records a maximum below the configured leverage. -/
theorem margins_use_record_iff (maxLeverage : Symbol → ℕ) (positive : 0 < p.leverage)
    (wired : scanner.leverage = p.leverage)
    (fresh : s.desk.broker.configuredLeverageMargin = .empty) (setups : List Setup) :
    Machine.Meets (step maxLeverage p) (Uncapped maxLeverage p) s setups ↔
      Machine.Always (step maxLeverage p) (UsesRecord p scanner) s setups := by
  apply Machine.meets_iff_always (AsConfigured p)
  · exact fun s configured => configured.usesRecord positive wired
  · exact fun s a t configured uncapped moved => configured.step uncapped moved
  · exact fun s a t _ moved uses => uses.uncapped positive moved
  · intro s a stuck
    cases stuck
  · intro symbol record known
    rw [fresh] at known
    cases known

end Margins

/-- Filters are loaded and nothing has been set up. -/
def loaded : State := ⟨.fresh demoRules ["BTCUSDT"], ⟨fun _ => 20, fun _ => .crossed⟩⟩

def setUp : Setup := ⟨"BTCUSDT", fun _ => .served, []⟩

/-- Ten is below the maximum of 125. -/
theorem setUp_uncapped :
    Machine.Always (step (fun _ => 125) .demoDesk) (UsesRecord .demoDesk LiveParams.demo.scanner)
      loaded [setUp] :=
  (margins_use_record_iff (fun _ => 125) (by decide) (by decide +kernel) rfl [setUp]).mp
    (by decide +kernel)

/-- Where the maximum is five, the margin of a position is taken for half of what it is. -/
theorem setUp_capped :
    ¬ ∀ (maxLeverage : Symbol → ℕ) (p : DeskParams)
        (scanner : LiveScanner (Process SessionSnapshot) liveSig SessionSnapshot) (s : State)
        (setups : List Setup), 0 < p.leverage → scanner.leverage = p.leverage →
      s.desk.broker.configuredLeverageMargin = .empty →
      Machine.Always (step maxLeverage p) (UsesRecord p scanner) s setups := by
  intro claim
  have always := claim (fun _ => 5) .demoDesk LiveParams.demo.scanner loaded [setUp] (by decide)
    (by decide +kernel) rfl
  have margin := (always.reached rfl).margin "BTCUSDT" (5, .isolated) (by decide +kernel)
    ⟨"BTCUSDT", .buy, 1, 1, 1, 0⟩ 1 rfl
  revert margin
  decide +kernel

end Binbot.LeverageInForce
