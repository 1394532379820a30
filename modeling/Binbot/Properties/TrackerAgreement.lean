import Binbot.Execution.TradeTracker
import Binbot.Properties.SimulatorLedger

/-!
# The live tracker against the simulator

Fed with the simulator's own fills, the trade tracker keeps the same round trips,
positions and entry prices, as long as no fill passes through zero.
-/
namespace Binbot

open Data

namespace OpenTrade

variable {trade : OpenTrade}

theorem signed_pos_iff (positive : 0 < trade.quantity) : 0 < trade.signed ↔ trade.side = .buy := by
  rw [signed]
  cases trade.side <;> simp [OrderSide.sign, positive, le_of_lt]

theorem signed_ne_zero (positive : 0 < trade.quantity) : trade.signed ≠ 0 := by
  rw [signed]
  cases trade.side <;> simp [OrderSide.sign] <;> omega

theorem abs_signed (positive : 0 < trade.quantity) : |trade.signed| = trade.quantity := by
  rw [signed]
  cases trade.side <;> simp [OrderSide.sign, abs_of_pos positive]

/-- The profit's sign is the side's. -/
theorem signed_direction (positive : 0 < trade.quantity) :
    (if trade.signed > 0 then (1 : ℚ) else -1) = trade.side.sign := by
  have direction := signed_pos_iff positive
  cases side : trade.side with
  | buy => rw [if_pos (direction.mpr side)]; rfl
  | sell => rw [if_neg (fun long => by simp [side] at direction; omega)]; rfl

end OpenTrade

namespace TradeTracker

variable {tracker : TradeTracker} {event : ExecutionEvent} {trade : OpenTrade} (multiplier : ℚ)

theorem onExecution_first (absent : tracker.openTrades.get? event.symbol = none)
    (moves : event.signedFill ≠ 0) :
    (tracker.onExecution multiplier event).1 =
      { tracker with openTrades := tracker.openTrades.set event.symbol (opened event) } := by
  simp [onExecution, absent, moves]

theorem onExecution_extends (present : tracker.openTrades.get? event.symbol = some trade)
    (same : event.signedFill > 0 ↔ trade.signed > 0) :
    (tracker.onExecution multiplier event).1 =
      { tracker with openTrades := tracker.openTrades.set event.symbol (extended trade event) } := by
  simp [onExecution, present, same]

theorem onExecution_reduces (present : tracker.openTrades.get? event.symbol = some trade)
    (against : ¬ (event.signedFill > 0 ↔ trade.signed > 0))
    (left : (reduced multiplier trade event).quantity > 0) :
    (tracker.onExecution multiplier event).1 =
      { tracker with
        openTrades := tracker.openTrades.set event.symbol (reduced multiplier trade event) } := by
  simp [onExecution, present, against, left]

theorem onExecution_closes (present : tracker.openTrades.get? event.symbol = some trade)
    (against : ¬ (event.signedFill > 0 ↔ trade.signed > 0))
    (none : ¬ (reduced multiplier trade event).quantity > 0) :
    (tracker.onExecution multiplier event).1 =
      { openTrades := tracker.openTrades.erase event.symbol
        closedTrades := tracker.closedTrades ++
          [record event.symbol (reduced multiplier trade event) event] } := by
  simp [onExecution, present, against, none]

theorem opened_signed (event : ExecutionEvent) : (opened event).signed = event.signedFill := by
  rw [OpenTrade.signed, opened]
  rcases lt_or_ge 0 event.signedFill with bought | sold
  · simp [bought, abs_of_pos bought, OrderSide.sign]
  · simp [not_lt.mpr sold, abs_of_nonpos sold, OrderSide.sign]

theorem extended_signed (positive : 0 < trade.quantity) (moves : event.signedFill ≠ 0)
    (same : event.signedFill > 0 ↔ trade.signed > 0) :
    (extended trade event).signed = trade.signed + event.signedFill := by
  have direction := OpenTrade.signed_pos_iff positive
  simp only [OpenTrade.signed, extended] at *
  cases side : trade.side with
  | buy =>
    have bought : 0 < event.signedFill := same.mpr (direction.mpr side)
    simp only [OrderSide.sign, abs_of_pos bought]
    ring
  | sell =>
    have sold : event.signedFill < 0 := by
      have := same.not.mpr (by rw [gt_iff_lt, direction, side]; decide)
      omega
    simp only [OrderSide.sign, abs_of_neg sold]
    ring

/-- Up to the whole position, a closing fill moves the trade by its signed quantity. -/
theorem reduced_signed (positive : 0 < trade.quantity) (moves : event.signedFill ≠ 0)
    (against : ¬ (event.signedFill > 0 ↔ trade.signed > 0))
    (within : |event.signedFill| ≤ trade.quantity) :
    (reduced multiplier trade event).signed = trade.signed + event.signedFill := by
  have direction := OpenTrade.signed_pos_iff positive
  simp only [OpenTrade.signed, reduced] at *
  cases side : trade.side with
  | buy =>
    have sold : event.signedFill < 0 := by
      have := direction.mpr side
      omega
    rw [abs_of_neg sold] at within ⊢
    simp only [OrderSide.sign, min_eq_left within]
    ring
  | sell =>
    have bought : 0 < event.signedFill := by
      have : ¬ 0 < trade.quantity * trade.side.sign := by rw [direction, side]; decide
      omega
    rw [abs_of_pos bought] at within ⊢
    simp only [OrderSide.sign, min_eq_left within]
    ring

/-- The entry price of the open trade, or zero. -/
def entryPrice (tracker : TradeTracker) (symbol : Symbol) : ℚ :=
  ((tracker.openTrades.get? symbol).map (·.avgEntryPrice)).getD 0

end TradeTracker

namespace TrackerAgreement

open MarketSimulatorBroker SimulatorLedger

/-- What both books record of a round trip. -/
structure RoundTrip where
  symbol : Symbol
  side : OrderSide
  entryTs : Timestamp
  exitTs : Timestamp
  pnl : ℚ

def ofRecord (t : TradeRecord) : RoundTrip := ⟨t.symbol, t.side, t.entryTs, t.exitTs, t.pnl⟩

def ofClosed (t : ClosedTrade) : RoundTrip := ⟨t.symbol, t.side, t.entryTs, t.exitTs, t.pnl⟩

variable (broker : MarketSimulatorBroker)

/-- The tracker after some events, with the broker's multipliers. -/
def feed (tracker : TradeTracker) (events : List ExecutionEvent) : TradeTracker :=
  events.foldl (fun t event => (t.onExecution (broker.multiplier event.symbol) event).1) tracker

/-- No fill of the sequence passes through zero. -/
def NoFlip : SimulatorState → List Fill → Prop
  | _, [] => True
  | m, fill :: rest =>
    ¬ isFlip (m.position fill.bar.symbol) (m.position fill.bar.symbol + fill.signedQuantity) ∧
      NoFlip (broker.apply m fill) rest

/-- The two views of one symbol. -/
inductive Agree (position : ℤ) (average : ℚ) : Option SimulatedTrade → Option OpenTrade → Prop
  | flat (out : position = 0) (free : average = 0) : Agree position average none none
  | held {simulated : SimulatedTrade} {tracked : OpenTrade} (positive : 0 < tracked.quantity)
      (signed : position = tracked.signed) (entry : average = tracked.avgEntryPrice)
      (entryTs : simulated.entryTs = tracked.entryTs) (side : simulated.side = tracked.side)
      (pnl : simulated.pnl = tracked.realizedPnl) :
      Agree position average (some simulated) (some tracked)

structure Simulates (m : SimulatorState) (tracker : TradeTracker) : Prop where
  symbols : ∀ symbol, Agree (m.position symbol) (m.averageEntry symbol)
    (m.openTrades.get? symbol) (tracker.openTrades.get? symbol)
  trips : tracker.closedTrades.map ofClosed = m.trades.map ofRecord

theorem simulates_started (startingEquity : ℚ) : Simulates (started startingEquity) {} where
  symbols _ := .flat rfl rfl
  trips := rfl

/-- What a fill has to do to keep the two together: agree at its symbol, leave the others,
and finish the same trades. -/
structure Follows (m m' : SimulatorState) (tracker tracker' : TradeTracker) (symbol : Symbol)
    (position : ℤ) (average : ℚ) : Prop where
  here : Agree position average (m'.openTrades.get? symbol) (tracker'.openTrades.get? symbol)
  simulated : ∀ other ≠ symbol, m'.openTrades.get? other = m.openTrades.get? other
  tracked : ∀ other ≠ symbol, tracker'.openTrades.get? other = tracker.openTrades.get? other
  trips : tracker'.closedTrades.map ofClosed = m'.trades.map ofRecord

section Step

variable {broker} {m : SimulatorState} {tracker : TradeTracker} (fill : Fill)

/-- The tracker after the fill's event. -/
abbrev fed (broker : MarketSimulatorBroker) (tracker : TradeTracker) (fill : Fill) : TradeTracker :=
  (tracker.onExecution (broker.multiplier fill.bar.symbol) (broker.report fill)).1

theorem follows_opens (trips : tracker.closedTrades.map ofClosed = m.trades.map ofRecord)
    (out : m.position fill.bar.symbol = 0)
    (absent : tracker.openTrades.get? fill.bar.symbol = none) :
    Follows m (broker.apply m fill) tracker (fed broker tracker fill) fill.bar.symbol
      (m.position fill.bar.symbol + fill.signedQuantity)
      (averageAfter (m.position fill.bar.symbol) fill.signedQuantity fill.price
        (m.averageEntry fill.bar.symbol)) := by
  have moves := fill.signedQuantity_ne_zero
  have opened : fed broker tracker fill = _ :=
    TradeTracker.onExecution_first _ absent moves
  rw [opened]
  constructor
  · rw [apply_openTrades, out, zero_add, applyToTrade_opens moves, averageAfter_opens _ _ moves]
    simp only [Dict.get?_set_self, report_symbol]
    -- a first fill realizes nothing
    have profit : broker.profit m fill = 0 := by
      rw [profit]
      rw [out]
      exact closingPnl_flat _ _ _
    constructor
    · exact abs_pos.mpr moves
    · exact (TradeTracker.opened_signed (broker.report fill)).symm
    · rfl
    · rfl
    · rfl
    · rw [profit]
      simp [SimulatedTrade.charged, newTrade, TradeTracker.opened, report, execution]
  · intro other elsewhere
    rw [apply_openTrades, out, zero_add, applyToTrade_opens moves]
    simp [Dict.get?_set_ne _ _ elsewhere]
  · intro other elsewhere
    exact Dict.get?_set_ne _ _ elsewhere
  · rw [apply_trades, out, zero_add, applyToTrade_opens moves]
    exact trips

section Held

variable {simulated : SimulatedTrade} {tracked : OpenTrade}
  (trips : tracker.closedTrades.map ofClosed = m.trades.map ofRecord)
  (running : m.openTrades.get? fill.bar.symbol = some simulated)
  (present : tracker.openTrades.get? fill.bar.symbol = some tracked)
  (positive : 0 < tracked.quantity) (signed : m.position fill.bar.symbol = tracked.signed)
  (entry : m.averageEntry fill.bar.symbol = tracked.avgEntryPrice)
  (entryTs : simulated.entryTs = tracked.entryTs) (side : simulated.side = tracked.side)
  (pnl : simulated.pnl = tracked.realizedPnl)

include trips running present positive signed entry entryTs side pnl

theorem follows_adds (held : 0 < m.position fill.bar.symbol ∧ 0 < fill.signedQuantity ∨
    m.position fill.bar.symbol < 0 ∧ fill.signedQuantity < 0) :
    Follows m (broker.apply m fill) tracker (fed broker tracker fill) fill.bar.symbol
      (m.position fill.bar.symbol + fill.signedQuantity)
      (averageAfter (m.position fill.bar.symbol) fill.signedQuantity fill.price
        (m.averageEntry fill.bar.symbol)) := by
  have moves : (broker.report fill).signedFill ≠ 0 := fill.signedQuantity_ne_zero
  have same : (broker.report fill).signedFill > 0 ↔ tracked.signed > 0 := by
    rw [report_signedFill, ← signed]
    omega
  have fedTo : fed broker tracker fill = { tracker with
      openTrades := tracker.openTrades.set fill.bar.symbol
        (TradeTracker.extended tracked (broker.report fill)) } :=
    TradeTracker.onExecution_extends _ present same
  have size := OpenTrade.abs_signed positive
  have opened := broker.apply_openTrades m fill
  have finished := broker.apply_trades m fill
  rw [applyToTrade_stays running (by omega)] at opened finished
  rw [fedTo]
  constructor
  · rw [opened, averageAfter_adds _ _ held]
    simp only [Dict.get?_set_self]
    -- adding realizes nothing on either side
    have profit : broker.profit m fill = 0 := closingPnl_adds _ _ _ held
    constructor
    · have := abs_nonneg fill.signedQuantity
      simp only [TradeTracker.extended, report_signedFill]
      omega
    · rw [TradeTracker.extended_signed positive moves same, signed,
        report_signedFill]
    · simp only [TradeTracker.extended, report_signedFill, entry, signed, size]
      rfl
    · exact entryTs
    · exact side
    · rw [profit]
      simp [SimulatedTrade.charged, TradeTracker.extended, report, execution, pnl]
  · intro other elsewhere
    rw [opened]
    exact Dict.get?_set_ne _ _ elsewhere
  · intro other elsewhere
    exact Dict.get?_set_ne _ _ elsewhere
  · rw [finished]
    exact trips

variable (broker) in
omit trips running present entryTs side in
/-- The two books realize the same on a closing fill. -/
theorem charged_pnl (against : 0 < m.position fill.bar.symbol ∧ fill.signedQuantity < 0 ∨
    m.position fill.bar.symbol < 0 ∧ 0 < fill.signedQuantity) :
    (simulated.charged (m.position fill.bar.symbol + fill.signedQuantity)
        (broker.commissionPerContract * fill.quantity) (broker.profit m fill)).pnl =
      (TradeTracker.reduced (broker.multiplier fill.bar.symbol) tracked
        (broker.report fill)).realizedPnl := by
  rw [profit]
  rw [closingPnl_against _ _ _ against, signed, OpenTrade.signed_direction positive,
    OpenTrade.abs_signed positive, entry]
  simp only [SimulatedTrade.charged, TradeTracker.reduced, report_signedFill, pnl]
  simp only [report, execution]
  ring

theorem follows_reduces
    (held : 0 < m.position fill.bar.symbol ∧ fill.signedQuantity < 0 ∧
        0 < m.position fill.bar.symbol + fill.signedQuantity ∨
      m.position fill.bar.symbol < 0 ∧ 0 < fill.signedQuantity ∧
        m.position fill.bar.symbol + fill.signedQuantity < 0) :
    Follows m (broker.apply m fill) tracker (fed broker tracker fill) fill.bar.symbol
      (m.position fill.bar.symbol + fill.signedQuantity)
      (averageAfter (m.position fill.bar.symbol) fill.signedQuantity fill.price
        (m.averageEntry fill.bar.symbol)) := by
  -- both sides see a fill against the trade that leaves some of it
  have against : ¬ ((broker.report fill).signedFill > 0 ↔ tracked.signed > 0) := by
    rw [report_signedFill, ← signed]
    omega
  have moves : (broker.report fill).signedFill ≠ 0 := fill.signedQuantity_ne_zero
  have less : |fill.signedQuantity| < tracked.quantity := by
    rw [← OpenTrade.abs_signed positive, ← signed]
    rcases held with ⟨long, sold, left⟩ | ⟨short, bought, left⟩
    · rw [abs_of_neg sold, abs_of_pos long]
      omega
    · rw [abs_of_pos bought, abs_of_neg short]
      omega
  have left : (TradeTracker.reduced (broker.multiplier fill.bar.symbol) tracked
      (broker.report fill)).quantity > 0 := by
    simp only [TradeTracker.reduced, report_signedFill, min_eq_left less.le]
    omega
  have fedTo : fed broker tracker fill = { tracker with
      openTrades := tracker.openTrades.set fill.bar.symbol
        (TradeTracker.reduced (broker.multiplier fill.bar.symbol) tracked
          (broker.report fill)) } :=
    TradeTracker.onExecution_reduces _ present against left
  have opened := broker.apply_openTrades m fill
  have finished := broker.apply_trades m fill
  rw [applyToTrade_stays running (by omega)] at opened finished
  rw [fedTo]
  constructor
  · rw [opened, averageAfter_reduces _ _ held]
    simp only [Dict.get?_set_self]
    constructor
    · exact left
    · rw [TradeTracker.reduced_signed _ positive moves against less.le,
        signed, report_signedFill]
    · exact entry
    · exact entryTs
    · exact side
    · exact charged_pnl broker fill positive signed entry pnl (by omega)
  · intro other elsewhere
    rw [opened]
    exact Dict.get?_set_ne _ _ elsewhere
  · intro other elsewhere
    exact Dict.get?_set_ne _ _ elsewhere
  · rw [finished]
    exact trips

theorem follows_closes (held : m.position fill.bar.symbol ≠ 0)
    (out : m.position fill.bar.symbol + fill.signedQuantity = 0) :
    Follows m (broker.apply m fill) tracker (fed broker tracker fill) fill.bar.symbol
      (m.position fill.bar.symbol + fill.signedQuantity)
      (averageAfter (m.position fill.bar.symbol) fill.signedQuantity fill.price
        (m.averageEntry fill.bar.symbol)) := by
  have against : ¬ ((broker.report fill).signedFill > 0 ↔ tracked.signed > 0) := by
    rw [report_signedFill, ← signed]
    omega
  -- the fill is as large as what is held
  have whole : |fill.signedQuantity| = tracked.quantity := by
    rw [← OpenTrade.abs_signed positive, ← signed, ← abs_neg]
    congr 1
    omega
  have none : ¬ (TradeTracker.reduced (broker.multiplier fill.bar.symbol) tracked
      (broker.report fill)).quantity > 0 := by
    simp only [TradeTracker.reduced, report_signedFill, whole, min_self]
    omega
  have fedTo : fed broker tracker fill =
      { openTrades := tracker.openTrades.erase fill.bar.symbol
        closedTrades := tracker.closedTrades ++ [TradeTracker.record fill.bar.symbol
          (TradeTracker.reduced (broker.multiplier fill.bar.symbol) tracked
            (broker.report fill)) (broker.report fill)] } :=
    TradeTracker.onExecution_closes _ present against none
  have opened := broker.apply_openTrades m fill
  have finished := broker.apply_trades m fill
  rw [applyToTrade_closes running held out] at opened finished
  rw [fedTo]
  constructor
  · rw [opened, averageAfter_closes _ _ out, out]
    simp only [Dict.get?_erase_self]
    exact .flat rfl rfl
  · intro other elsewhere
    rw [opened, Dict.get?_erase_ne _ elsewhere]
    exact Dict.get?_set_ne _ _ elsewhere
  · intro other elsewhere
    exact Dict.get?_erase_ne _ elsewhere
  · -- the two records are of the same round trip
    rw [finished, List.map_append, List.map_append, trips]
    have same := charged_pnl broker fill positive signed entry pnl (by omega)
    simp only [List.map_cons, List.map_nil, ofClosed, ofRecord, SimulatedTrade.recorded,
      TradeTracker.record, same]
    simp [SimulatedTrade.charged, TradeTracker.reduced, entryTs, side, report, execution]

end Held

variable (broker) in
theorem Simulates.follows (simulates : Simulates m tracker)
    (steady : ¬ isFlip (m.position fill.bar.symbol)
      (m.position fill.bar.symbol + fill.signedQuantity)) :
    Follows m (broker.apply m fill) tracker (fed broker tracker fill) fill.bar.symbol
      (m.position fill.bar.symbol + fill.signedQuantity)
      (averageAfter (m.position fill.bar.symbol) fill.signedQuantity fill.price
        (m.averageEntry fill.bar.symbol)) := by
  have agree := simulates.symbols fill.bar.symbol
  generalize running : m.openTrades.get? fill.bar.symbol = simulated at agree
  generalize present : tracker.openTrades.get? fill.bar.symbol = tracked at agree
  cases agree with
  | flat out free => exact follows_opens fill simulates.trips out present
  | held positive signed entry entryTs side pnl =>
    have off := OpenTrade.signed_ne_zero positive
    rw [← signed] at off
    cases fillCase _ _ fill.signedQuantity_ne_zero with
    | opens flat => exact absurd flat off
    | adds held =>
      exact follows_adds fill simulates.trips running present positive signed entry entryTs side
        pnl held
    | reduces held =>
      exact follows_reduces fill simulates.trips running present positive signed entry entryTs side
        pnl held
    | closes held out =>
      exact follows_closes fill simulates.trips running present positive signed entry entryTs side
        pnl held out
    | flips held => exact absurd ((isFlip_iff _ _).mpr held) steady

/-- One fill and its event keep the two books together. -/
theorem Simulates.step (simulates : Simulates m tracker)
    (steady : ¬ isFlip (m.position fill.bar.symbol)
      (m.position fill.bar.symbol + fill.signedQuantity)) :
    Simulates (broker.apply m fill) (fed broker tracker fill) := by
  have follows := simulates.follows broker fill steady
  constructor
  · intro symbol
    rw [apply_position, apply_averageEntry]
    by_cases here : symbol = fill.bar.symbol
    · subst here
      rw [if_pos rfl, if_pos rfl]
      exact follows.here
    · rw [if_neg here, if_neg here, follows.simulated symbol here, follows.tracked symbol here]
      exact simulates.symbols symbol
  · exact follows.trips

end Step

theorem Simulates.run {m : SimulatorState} {tracker : TradeTracker} (fills : List Fill)
    (simulates : Simulates m tracker) (steady : NoFlip broker m fills) :
    Simulates (broker.applyFills m fills) (feed broker tracker (fills.map broker.report)) := by
  induction fills generalizing m tracker with
  | nil => exact simulates
  | cons fill rest ih => exact ih (simulates.step fill steady.1) steady.2

theorem Simulates.net_eq {m : SimulatorState} {tracker : TradeTracker}
    (simulates : Simulates m tracker) (symbol : Symbol) :
    tracker.net symbol = m.position symbol := by
  have agree := simulates.symbols symbol
  rw [TradeTracker.net]
  generalize m.openTrades.get? symbol = simulated at agree
  generalize tracker.openTrades.get? symbol = tracked at agree ⊢
  cases agree with
  | flat out free => exact out.symm
  | held positive signed => exact signed.symm

theorem Simulates.entryPrice_eq {m : SimulatorState} {tracker : TradeTracker}
    (simulates : Simulates m tracker) (symbol : Symbol) :
    tracker.entryPrice symbol = m.averageEntry symbol := by
  have agree := simulates.symbols symbol
  rw [TradeTracker.entryPrice]
  generalize m.openTrades.get? symbol = simulated at agree
  generalize tracker.openTrades.get? symbol = tracked at agree ⊢
  cases agree with
  | flat out free => exact free.symm
  | held positive signed entry => exact entry.symm

/-- Without a flip, the tracker fed with the simulator's fills closes the same round trips in
the same order, and holds the same positions at the same entry prices. -/
theorem trackers_agree (startingEquity : ℚ) (fills : List Fill)
    (steady : NoFlip broker (started startingEquity) fills) :
    (feed broker {} (broker.applyFills (started startingEquity) fills).fills).closedTrades.map
        ofClosed =
      (broker.applyFills (started startingEquity) fills).trades.map ofRecord ∧
    ∀ symbol,
      (feed broker {} (broker.applyFills (started startingEquity) fills).fills).net symbol =
        (broker.applyFills (started startingEquity) fills).position symbol ∧
      (feed broker {} (broker.applyFills (started startingEquity) fills).fills).entryPrice symbol =
        (broker.applyFills (started startingEquity) fills).averageEntry symbol := by
  have events : (broker.applyFills (started startingEquity) fills).fills =
      fills.map broker.report := by
    rw [applyFills_fills]
    rfl
  have simulates := (simulates_started startingEquity).run broker fills steady
  rw [events]
  constructor
  · exact simulates.trips
  · intro symbol
    exact ⟨simulates.net_eq symbol, simulates.entryPrice_eq symbol⟩

/-- A round trip closed in two parts. -/
def halves : List Fill :=
  [⟨⟨order 0 .buy, 100, 6, 0⟩, 6, 100, barAt 1, by decide⟩,
   ⟨⟨order 1 .sell, 100, 6, 0⟩, 3, 110, barAt 2, by decide⟩,
   ⟨⟨order 1 .sell, 100, 3, 1⟩, 3, 105, barAt 3, by decide⟩]

theorem halves_agree :
    (feed desk {} (desk.applyFills (started 10000) halves).fills).closedTrades.map ofClosed =
      (desk.applyFills (started 10000) halves).trades.map ofRecord ∧
    (desk.applyFills (started 10000) halves).trades.map (·.pnl) = [18] := by
  constructor
  · exact (trackers_agree desk 10000 halves
      ⟨by decide +kernel, by decide +kernel, by decide +kernel, trivial⟩).1
  · decide +kernel

end TrackerAgreement

end Binbot
