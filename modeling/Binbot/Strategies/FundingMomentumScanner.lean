import Binbot.Core.EventBus
import Binbot.Execution.PositionMonitor
import Binbot.Scripts.LiveScanner
import Mathlib.Data.Finset.Card

/-!
# Funding-momentum scanner strategy (`strategies/funding_momentum_scanner.py`)

A symbol is entered when its price has jumped and its funding rate trends against the
jump. The gate counts what the position monitor lists as open together with the entries
that the strategy has emitted and the monitor has yet to confirm.
-/
namespace Binbot

open Async Data

/-- What the strategy asks of `BinanceUniverseFeed`, as the stream has left it. The trend of
a funding rate is its latest value and the one at the start of the window. -/
structure UniverseFeed where
  priceChangePct : Dict Symbol ℚ := .empty
  fundingTrend : Dict Symbol (ℚ × ℚ) := .empty
  latestPrice : Dict Symbol ℚ := .empty

/-- Settings reject a maximum below one. -/
structure ScannerParams where
  maxOpenPositions : ℕ
  marginEquityPct : ℚ
  leverage : ℚ
  priceJumpPct : ℚ
  atLeastOne : 1 ≤ maxOpenPositions

/-- Whole lots whose notional stays within `notionalUsdt`. -/
def computeLots (notionalUsdt price stepSize : ℚ) : ℤ :=
  if price ≤ 0 ∨ stepSize ≤ 0 then 0 else ⌊notionalUsdt / (price * stepSize)⌋

def evaluateEntry (priceChangePct : Option ℚ) (funding : Option (ℚ × ℚ)) (priceJumpPct : ℚ) :
    Option OrderSide :=
  match priceChangePct, funding with
  | some change, some (fundingNow, fundingWindowStart) =>
    if change ≥ priceJumpPct then
      -- trending more negative
      if fundingNow < fundingWindowStart then some .buy else none
    else if change ≤ -priceJumpPct then
      -- started negative, rising since
      if fundingWindowStart < 0 ∧ fundingNow > fundingWindowStart then some .sell else none
    else none
  | _, _ => none

structure PendingEntries where
  pendingEntries : Dict Symbol ℚ := .empty

namespace PendingEntries

def ttlS : ℚ := 10

variable (m : PendingEntries)

/-- `_prune_pending_entries`: what the monitor lists and what is too old goes. -/
def pruned (now : ℚ) (positions : Dict Symbol ℤ) : PendingEntries where
  pendingEntries :=
    let confirmedOrStale := m.pendingEntries.entries.filter fun (sym, ts) =>
      sym ∈ positions.keys ∨ now - ts > ttlS
    confirmedOrStale.foldl (fun left e => left.erase e.1) m.pendingEntries

/-- `open_symbols() | _pending_entries.keys()` -/
def openSymbols (positions : Dict Symbol ℤ) : Finset Symbol :=
  positions.keys.toFinset ∪ m.pendingEntries.keys.toFinset

end PendingEntries

structure FundingMomentumScanner (σ : Type) (S : Sig) where
  strategyId : String
  symbols : List Symbol
  params : ScannerParams
  stepSizeLookup : Symbol → ℚ
  equityLookup : Coro σ S ℚ

namespace FundingMomentumScanner

variable {σ : Type} {S : Sig}
variable [Part σ Clock] [Part σ MonitorState] [Part σ UniverseFeed] [Part σ EventBus]
variable [Part σ PendingEntries] [Part σ ScannerState] (self : FundingMomentumScanner σ S)

section Emit

omit [Part σ MonitorState] [Part σ UniverseFeed] [Part σ ScannerState]

/-- The end of `on_bar`, once the equity is known. -/
def enter (symbol : Symbol) (side : OrderSide) (price equity : ℚ) : Coro σ S Unit := do
  let orderNotionalUsdt := equity * self.params.marginEquityPct / 100 * self.params.leverage
  let lots := computeLots orderNotionalUsdt price (self.stepSizeLookup symbol)
  if lots ≤ 0 then pure ()
  else do
    let clock : Clock ← Coro.view
    Coro.update fun m : PendingEntries =>
      { m with pendingEntries := m.pendingEntries.set symbol clock.monotonic }
    Coro.update fun bus : EventBus => bus.publish (.signal
      { symbol := symbol
        strategyId := self.strategyId
        side := side
        targetQuantity := lots })

end Emit

section Gate

omit [Part σ ScannerState]

def onBar (bar : BarEvent) : Coro σ S Unit := do
  let clock : Clock ← Coro.view
  let monitor : MonitorState ← Coro.view
  Coro.update fun m : PendingEntries => m.pruned clock.monotonic monitor.positions
  let m : PendingEntries ← Coro.view
  let openSymbols := m.openSymbols monitor.positions
  if bar.symbol ∈ openSymbols then pure ()
  else if openSymbols.card ≥ self.params.maxOpenPositions then pure ()
  else do
    let feed : UniverseFeed ← Coro.view
    match evaluateEntry (feed.priceChangePct.get? bar.symbol) (feed.fundingTrend.get? bar.symbol)
      self.params.priceJumpPct with
    | none => pure ()
    | some side => do
      let latest := feed.latestPrice.getD bar.symbol 0
      let price := if latest = 0 then bar.close else latest
      -- the only suspension: a round trip to the exchange
      let equity ← self.equityLookup
      self.enter bar.symbol side price equity

end Gate

/-- `_dispatch_bar` -/
def dispatchBar (bar : BarEvent) : Coro σ S Unit := do
  let m : ScannerState ← Coro.view
  Coro.onlyIf (!m.isPaused && bar.symbol ∈ self.symbols) (self.onBar bar)

end FundingMomentumScanner

example : computeLots 1000 50 (1 / 10) = 200 ∧ computeLots 1000 0 (1 / 10) = 0 := by decide +kernel

end Binbot
