import Binbot.Backtest.SimulatorFills

/-!
# The books of the simulator

Cash is conserved by every fill, the trades account for all of the equity's change, and
the performance report reads the same total.
-/
namespace Binbot.SimulatorLedger

open Data MarketSimulatorBroker

variable (broker : MarketSimulatorBroker)

/-- A simulator before its first order. -/
def started (startingEquity : ℚ) : SimulatorState := { equity := startingEquity }

def commissions (fills : List ExecutionEvent) : ℚ := (fills.map (·.commission)).sum

/-- `Σ signed_qty * fill_price * multiplier`: what the fills paid, less what they received. -/
def paid (fills : List ExecutionEvent) : ℚ :=
  (fills.map fun e => e.signedFill * e.fillPrice * broker.multiplier e.symbol).sum

/-- The signed quantities of one symbol's fills. -/
def traded (symbol : Symbol) (fills : List ExecutionEvent) : ℤ :=
  ((fills.filter fun e => e.symbol = symbol).map (·.signedFill)).sum

/-- What one symbol's position cost. -/
def cost (m : SimulatorState) (symbol : Symbol) (position : ℤ) : ℚ :=
  position * m.averageEntry symbol * broker.multiplier symbol

def bookValue (m : SimulatorState) : ℚ := m.positions.sum (cost broker m)

/-! ### Cash -/

structure Books (startingEquity : ℚ) (m : SimulatorState) : Prop where
  cash : m.equity =
    startingEquity - commissions m.fills - paid broker m.fills + bookValue broker m
  positions : ∀ symbol, m.position symbol = traded symbol m.fills
  flat : ∀ symbol, m.position symbol = 0 → m.averageEntry symbol = 0

theorem books_started (startingEquity : ℚ) : Books broker startingEquity (started startingEquity) where
  cash := by simp [started, commissions, paid, bookValue]
  positions := by simp [started, SimulatorState.position, traded, Dict.getD]
  flat := by simp [started, SimulatorState.averageEntry, Dict.getD]

theorem weightAt_cost (m : SimulatorState) (symbol : Symbol) :
    m.positions.weightAt symbol (cost broker m) = cost broker m symbol (m.position symbol) := by
  rw [Dict.weightAt, SimulatorState.position, Dict.getD]
  cases m.positions.get? symbol <;> simp [cost]

/-- A fill changes the book value at its symbol only. -/
theorem bookValue_apply (m : SimulatorState) (fill : Fill) :
    bookValue broker (broker.apply m fill) =
      bookValue broker m - cost broker m fill.bar.symbol (m.position fill.bar.symbol) +
        cost broker (broker.apply m fill) fill.bar.symbol
          (m.position fill.bar.symbol + fill.signedQuantity) := by
  rw [bookValue]
  rw [apply_positions, ← weightAt_cost]
  apply Dict.sum_set
  intro symbol other position
  simp only [cost]
  rw [apply_averageEntry, if_neg other]

theorem Books.apply {broker : MarketSimulatorBroker} {startingEquity : ℚ} {m : SimulatorState}
    (books : Books broker startingEquity m) (fill : Fill) :
    Books broker startingEquity (broker.apply m fill) where
  cash := by
    -- what a fill realizes and what it leaves at cost make up what it was paid for
    have balance := closingPnl_balance fill.price (broker.multiplier fill.bar.symbol)
      fill.signedQuantity_ne_zero (books.flat fill.bar.symbol)
    have charged : commissions (broker.apply m fill).fills =
        commissions m.fills + broker.commissionPerContract * fill.quantity := by
      simp [commissions, report, execution]
    have spent : paid broker (broker.apply m fill).fills =
        paid broker m.fills +
          fill.signedQuantity * fill.price * broker.multiplier fill.bar.symbol := by
      simp [paid, report, execution, ExecutionEvent.signedFill, Fill.signedQuantity]
    rw [apply_equity, profit, balance, charged, spent, bookValue_apply, books.cash]
    simp only [cost]
    rw [apply_averageEntry, if_pos rfl]
    ring
  positions := by
    intro symbol
    have sum := books.positions symbol
    rw [apply_position, apply_fills]
    rw [traded] at sum ⊢
    rw [List.filter_append, List.map_append, List.sum_append, ← sum]
    by_cases here : symbol = fill.bar.symbol
    · simp [here]
    · simp [here, Ne.symm here]
  flat := by
    intro symbol out
    rw [apply_averageEntry]
    rw [apply_position] at out
    by_cases here : symbol = fill.bar.symbol
    · rw [if_pos here] at out ⊢
      exact averageAfter_closes _ _ out
    · rw [if_neg here] at out ⊢
      exact books.flat symbol out

/-- After any fills, the equity is the start less commissions and payments, plus the cost of
what is held. Every position is the sum of its fills, and a flat one has no entry price. -/
theorem cash_conserved (startingEquity : ℚ) (fills : List Fill) :
    (broker.applyFills (started startingEquity) fills).fills = fills.map broker.report ∧
      Books broker startingEquity (broker.applyFills (started startingEquity) fills) := by
  constructor
  · rw [applyFills_fills]
    rfl
  · suffices kept : ∀ m, Books broker startingEquity m →
        Books broker startingEquity (broker.applyFills m fills) from
      kept _ (books_started broker startingEquity)
    induction fills with
    | nil => exact fun m books => books
    | cons fill rest ih => exact fun m books => ih _ (books.apply fill)

/-! ### Trades -/

def tradePnl (_ : Symbol) (trade : SimulatedTrade) : ℚ := trade.pnl

/-- The profit of all open trades. -/
def openPnl (openTrades : Dict Symbol SimulatedTrade) : ℚ := openTrades.sum tradePnl

theorem openPnl_set (openTrades : Dict Symbol SimulatedTrade) (symbol : Symbol)
    (trade : SimulatedTrade) :
    openPnl (openTrades.set symbol trade) =
      openPnl openTrades - openTrades.weightAt symbol tradePnl + trade.pnl :=
  Dict.sum_set openTrades symbol trade fun _ _ _ => rfl

theorem openPnl_erase (openTrades : Dict Symbol SimulatedTrade) (symbol : Symbol) :
    openPnl (openTrades.erase symbol) =
      openPnl openTrades - openTrades.weightAt symbol tradePnl :=
  Dict.sum_erase openTrades symbol tradePnl

theorem weightAt_present {openTrades : Dict Symbol SimulatedTrade} {symbol : Symbol}
    {running : SimulatedTrade} (present : openTrades.get? symbol = some running) :
    openTrades.weightAt symbol tradePnl = running.pnl := by
  simp [Dict.weightAt, present, tradePnl]

theorem weightAt_absent {openTrades : Dict Symbol SimulatedTrade} {symbol : Symbol}
    (absent : openTrades.get? symbol = none) : openTrades.weightAt symbol tradePnl = 0 := by
  simp [Dict.weightAt, absent]

structure Trades (startingEquity : ℚ) (m : SimulatorState) : Prop where
  open_iff : ∀ symbol, (m.openTrades.get? symbol).isSome ↔ m.position symbol ≠ 0
  total : Performance.pnl m.trades + openPnl m.openTrades = m.equity - startingEquity

theorem trades_started (startingEquity : ℚ) : Trades startingEquity (started startingEquity) where
  open_iff := by simp [started, SimulatorState.position, Dict.getD]
  total := by simp [started, Performance.pnl, openPnl]

/-- What one fill must do to the trades: the symbol's trade is open exactly off flat, the other
trades stay, and the amount is posted once. -/
structure Posted (m m' : SimulatorState) (symbol : Symbol) (position : ℤ) (amount : ℚ) : Prop where
  here : (m'.openTrades.get? symbol).isSome ↔ position ≠ 0
  elsewhere : ∀ other ≠ symbol, m'.openTrades.get? other = m.openTrades.get? other
  total : Performance.pnl m'.trades + openPnl m'.openTrades =
    Performance.pnl m.trades + openPnl m.openTrades + amount

theorem posted_applyToTrade {m : SimulatorState} {bar : BarEvent} {prev signed : ℤ}
    (commission profit : ℚ) (open_iff : (m.openTrades.get? bar.symbol).isSome ↔ prev ≠ 0)
    (moves : signed ≠ 0) :
    Posted m (applyToTrade m prev (prev + signed) commission profit bar) bar.symbol
      (prev + signed) (profit - commission) := by
  by_cases flat : prev = 0
  · -- the trade is opened and charged at once
    subst flat
    have absent : m.openTrades.get? bar.symbol = none := by simpa using open_iff
    rw [zero_add, applyToTrade_opens moves]
    constructor
    · simp [moves]
    · intro other elsewhere
      simp [Dict.get?_set_ne _ _ elsewhere]
    · simp only [openPnl_set, weightAt_absent absent, weightAt_present (Dict.get?_set_self _ _ _),
        SimulatedTrade.charged, newTrade]
      ring
  · obtain ⟨running, present⟩ := Option.isSome_iff_exists.mp (open_iff.mpr flat)
    have stays (held : 0 < prev ∧ 0 < prev + signed ∨ prev < 0 ∧ prev + signed < 0) :
        Posted m (applyToTrade m prev (prev + signed) commission profit bar) bar.symbol
          (prev + signed) (profit - commission) := by
      rw [applyToTrade_stays present held]
      constructor
      · simp only [Dict.get?_set_self, Option.isSome_some, true_iff]
        omega
      · intro other elsewhere
        simp [Dict.get?_set_ne _ _ elsewhere]
      · simp only [openPnl_set, weightAt_present present, SimulatedTrade.charged]
        ring
    cases fillCase prev signed moves with
    | opens none => exact absurd none flat
    | adds held => exact stays (by omega)
    | reduces held => exact stays (by omega)
    | closes held out =>
      rw [applyToTrade_closes present held out]
      constructor
      · simp [out]
      · intro other elsewhere
        simp [Dict.get?_erase_ne _ elsewhere, Dict.get?_set_ne _ _ elsewhere]
      · simp only [openPnl_erase, openPnl_set, weightAt_present present,
          weightAt_present (Dict.get?_set_self _ _ _), Performance.pnl, List.map_append,
          List.sum_append, List.map_cons, List.map_nil, List.sum_singleton,
          SimulatedTrade.recorded, SimulatedTrade.charged]
        ring
    | flips held =>
      rw [applyToTrade_flips present held]
      constructor
      · simp only [Dict.get?_set_self, Option.isSome_some, true_iff]
        omega
      · intro other elsewhere
        simp [Dict.get?_erase_ne _ elsewhere, Dict.get?_set_ne _ _ elsewhere]
      · -- the new trade starts at zero: the whole fill is charged to the old one
        simp only [openPnl_erase, openPnl_set, weightAt_present present,
          weightAt_present (Dict.get?_set_self _ _ _), weightAt_absent (Dict.get?_erase_self _ _),
          Performance.pnl, List.map_append, List.sum_append, List.map_cons, List.map_nil,
          List.sum_singleton, SimulatedTrade.recorded, SimulatedTrade.charged, newTrade]
        ring

theorem Trades.apply {startingEquity : ℚ} {m : SimulatorState} (trades : Trades startingEquity m)
    (fill : Fill) : Trades startingEquity (broker.apply m fill) := by
  have posted := posted_applyToTrade (broker.commissionPerContract * fill.quantity)
    (broker.profit m fill) (trades.open_iff fill.bar.symbol) fill.signedQuantity_ne_zero
  constructor
  · intro symbol
    rw [apply_openTrades, apply_position]
    by_cases here : symbol = fill.bar.symbol
    · subst here
      rw [if_pos rfl]
      exact posted.here
    · rw [if_neg here, posted.elsewhere symbol here]
      exact trades.open_iff symbol
  · have total := trades.total
    rw [apply_openTrades, apply_trades, apply_equity, posted.total]
    linarith

theorem Trades.applyFills {startingEquity : ℚ} {m : SimulatorState}
    (trades : Trades startingEquity m) (fills : List Fill) :
    Trades startingEquity (broker.applyFills m fills) := by
  induction fills generalizing m with
  | nil => exact trades
  | cons fill rest ih => exact ih (trades.apply broker fill)

theorem openPnl_flat {m : SimulatorState} {startingEquity : ℚ} (trades : Trades startingEquity m)
    (flat : ∀ symbol, m.position symbol = 0) : openPnl m.openTrades = 0 := by
  have empty : m.openTrades.entries = [] := by
    apply List.eq_nil_iff_forall_not_mem.mpr
    rintro ⟨symbol, trade⟩ member
    have found := (Dict.mem_entries_iff _ symbol trade).mp member
    exact (trades.open_iff symbol).mp (by rw [found]; rfl) (flat symbol)
  simp [openPnl, Dict.sum, empty]

/-- After any fills a trade is open exactly off flat, and the trades' profit is the equity's
change; at the end of a flat run the report has the same total twice. -/
theorem ledger_reconciles (startingEquity : ℚ) (fills : List Fill) :
    Trades startingEquity (broker.applyFills (started startingEquity) fills) ∧
      ((∀ symbol, (broker.applyFills (started startingEquity) fills).position symbol = 0) →
        ∀ equityCurve report,
          Performance.computePerformanceReport equityCurve
            (broker.applyFills (started startingEquity) fills).trades = .ok report →
          report.grossProfit - report.grossLoss =
              (broker.applyFills (started startingEquity) fills).equity - startingEquity ∧
            report.expectancy * report.numTrades =
              (broker.applyFills (started startingEquity) fills).equity - startingEquity) := by
  have trades := (trades_started startingEquity).applyFills broker fills
  constructor
  · exact trades
  · intro flat equityCurve report computed
    have total := trades.total
    rw [openPnl_flat trades flat, add_zero] at total
    rw [← total]
    exact Performance.report_totals computed

/-! ### A round trip of two contracts, with commission -/

def desk : MarketSimulatorBroker where
  maths := { sqrt := fun x => Nat.sqrt x.num.toNat / Nat.sqrt x.den, log := fun x => x - 1 }

def order (n : ℕ) (side : OrderSide) : BrokerOrderRequest where
  orderId := .hex n
  symbol := "ES"
  side := side
  quantity := 2
  orderType := .market
  limitPrice := none
  timeInForce := .day

def barAt (ts : Timestamp) : BarEvent := ⟨ts, "ES", 100, 100, 100, 100, 1000⟩

def roundTrip : List Fill :=
  [⟨⟨order 0 .buy, 100, 2, 0⟩, 2, 100, barAt 1, by decide⟩,
   ⟨⟨order 1 .sell, 100, 2, 0⟩, 2, 110, barAt 2, by decide⟩]

theorem roundTrip_reconciles :
    ∃ report, Performance.computePerformanceReport [10000, 10011]
        (desk.applyFills (started 10000) roundTrip).trades = .ok report ∧
      report.grossProfit - report.grossLoss = 11 ∧ report.expectancy * report.numTrades = 11 := by
  have positions : (desk.applyFills (started 10000) roundTrip).positions.entries = [("ES", 0)] := by
    decide +kernel
  have flat : ∀ symbol, (desk.applyFills (started 10000) roundTrip).position symbol = 0 := by
    intro symbol
    rw [SimulatorState.position, Dict.getD, Dict.get?]
    rw [positions]
    by_cases here : "ES" = symbol <;> simp [Dict.lookup, here]
  have equity : (desk.applyFills (started 10000) roundTrip).equity - 10000 = 11 := by
    decide +kernel
  refine ⟨_, rfl, ?_⟩
  rw [← equity]
  exact (ledger_reconciles desk 10000 roundTrip).2 flat [10000, 10011] _ rfl

end Binbot.SimulatorLedger
