import Binbot.Backtest.SimulatorFills
import Binbot.Properties.TradingCosts
import Mathlib.Algebra.BigOperators.Group.Finset.Basic
import Mathlib.Data.Finset.Dedup

/-!
# The symbols of a backtest do not touch each other (`backtest/market_simulator.py`)

One simulator trades all symbols. What it does with a symbol is what it would do if it were
given that symbol's orders and bars alone, and its equity is the start with the gains of the
symbols added up.
-/
namespace Binbot

open Data
open SimulatedOco (Call)

namespace SymbolsApart

open JournaledSimulator MarketSimulatorBroker TradingCosts

def symbolOf : BrokerEvent → Symbol
  | .ack event => event.symbol
  | .reject event => event.symbol
  | .execution event => event.symbol

/-- What the simulator holds of one symbol. -/
@[ext] structure Sheet where
  position : Option ℤ
  average : Option ℚ
  waiting : List PendingOrder
  lastBar : Option BarEvent
  volumes : Option (List ℚ)
  returns : Option (List ℚ)
  openTrade : Option SimulatedTrade
  trades : List TradeRecord
  fills : List ExecutionEvent
  events : List BrokerEvent

def sheet (s : Symbol) (m : SimulatorState) : Sheet where
  position := m.positions.get? s
  average := m.avgEntryPrice.get? s
  waiting := m.waiting s
  lastBar := m.lastBar.get? s
  volumes := m.volumeHistory.get? s
  returns := m.returnHistory.get? s
  openTrade := m.openTrades.get? s
  trades := m.trades.filter (·.symbol = s)
  fills := m.fills.filter (·.symbol = s)
  events := m.eventQueue.filter (symbolOf · = s)

/-- A call that can make a difference to the symbol. Ids are not looked up by symbol. -/
def concerns (s : Symbol) : Call → Bool
  | .placeOrder request => request.symbol = s
  | .cancelOrder _ => true
  | .cancelAll => true
  | .processBar bar => bar.symbol = s

/-- The calls as they would be for one symbol. -/
def alone (s : Symbol) (calls : List Call) : List Call := calls.filter (concerns s)

/-- The symbols that have bars. -/
def charted (calls : List Call) : Finset Symbol :=
  (calls.filterMap fun
    | .processBar bar => some bar.symbol
    | _ => none).toFinset

variable (broker : MarketSimulatorBroker)

/-- What the orders and bars of one symbol earn by themselves. -/
def gain (calls : List Call) (s : Symbol) : ℚ := (after broker 0 (alone s calls)).equity

variable {broker} {s : Symbol} {m m' : SimulatorState} {d : ℚ}

/-! ### Trades -/

/-- The open trade of a symbol and its records are the same. -/
structure SameTrades (s : Symbol) (m m' : SimulatorState) : Prop where
  openTrade : m.openTrades.get? s = m'.openTrades.get? s
  trades : m.trades.filter (·.symbol = s) = m'.trades.filter (·.symbol = s)

theorem SameTrades.set (same : SameTrades s m m') (key : Symbol) (trade : SimulatedTrade) :
    SameTrades s { m with openTrades := m.openTrades.set key trade }
      { m' with openTrades := m'.openTrades.set key trade } where
  openTrade := by simp only [Dict.get?_set, same.openTrade]
  trades := same.trades

theorem sameTrades_set (m : SimulatorState) {key : Symbol} (trade : SimulatedTrade)
    (other : s ≠ key) : SameTrades s { m with openTrades := m.openTrades.set key trade } m where
  openTrade := Dict.get?_set_ne _ _ other
  trades := rfl

theorem SameTrades.trans {m'' : SimulatorState} (first : SameTrades s m m')
    (second : SameTrades s m' m'') : SameTrades s m m'' :=
  ⟨first.openTrade.trans second.openTrade, first.trades.trans second.trades⟩

theorem SameTrades.finalizeTrade (same : SameTrades s m m') (exitTs : Timestamp) :
    SameTrades s (m.finalizeTrade s exitTs) (m'.finalizeTrade s exitTs) := by
  rw [SimulatorState.finalizeTrade, SimulatorState.finalizeTrade, same.openTrade]
  cases m'.openTrades.get? s with
  | none => exact same
  | some trade =>
    constructor
    · simp
    · simp [List.filter_append, same.trades]

theorem sameTrades_finalizeTrade (m : SimulatorState) {key : Symbol} (exitTs : Timestamp)
    (other : s ≠ key) : SameTrades s (m.finalizeTrade key exitTs) m := by
  rw [SimulatorState.finalizeTrade]
  cases m.openTrades.get? key with
  | none => exact ⟨rfl, rfl⟩
  | some trade =>
    constructor
    · exact Dict.get?_erase_ne _ other
    · simp [SimulatedTrade.recorded, List.filter_append, other.symm]

/-- A fill is entered in the trades of its symbol, by what they are. -/
theorem SameTrades.applyToTrade {bar : BarEvent} (same : SameTrades bar.symbol m m')
    (prev new : ℤ) (commission profit : ℚ) :
    SameTrades bar.symbol (applyToTrade m prev new commission profit bar)
      (applyToTrade m' prev new commission profit bar) := by
  have first : SameTrades bar.symbol (opened m prev new bar) (opened m' prev new bar) := by
    rw [opened, opened]
    split
    · exact same.set _ _
    · exact same
  have second : SameTrades bar.symbol
      (charged (opened m prev new bar) new commission profit bar.symbol)
      (charged (opened m' prev new bar) new commission profit bar.symbol) := by
    rw [charged, charged, first.openTrade]
    split
    · exact first
    · exact first.set _ _
  rw [applyToTrade_eq, applyToTrade_eq, concluded, concluded]
  split
  · exact second.finalizeTrade bar.ts
  · split
    · exact (second.finalizeTrade bar.ts).set _ _
    · exact second

/-- No fill touches the trades of another symbol. -/
theorem sameTrades_applyToTrade (m : SimulatorState) {bar : BarEvent} (other : s ≠ bar.symbol)
    (prev new : ℤ) (commission profit : ℚ) :
    SameTrades s (applyToTrade m prev new commission profit bar) m := by
  have first : SameTrades s (opened m prev new bar) m := by
    rw [opened]
    split
    · exact sameTrades_set m _ other
    · exact ⟨rfl, rfl⟩
  have second : SameTrades s (charged (opened m prev new bar) new commission profit bar.symbol)
      m := by
    rw [charged]
    split
    · exact first
    · exact (sameTrades_set _ _ other).trans first
  rw [applyToTrade_eq, concluded]
  split
  · exact (sameTrades_finalizeTrade _ _ other).trans second
  · split
    · apply (sameTrades_set _ _ other).trans
      exact (sameTrades_finalizeTrade _ _ other).trans second
    · exact second

/-! ### Fills -/

/-- The two hold the same of the symbol, and the first has `d` more. -/
structure Level (s : Symbol) (d : ℚ) (m m' : SimulatorState) : Prop where
  same : sheet s m = sheet s m'
  equity : m.equity = m'.equity + d

theorem Level.field {α : Type} (level : Level s d m m') (part : Sheet → α) :
    part (sheet s m) = part (sheet s m') := congrArg part level.same

/-- A fill of the symbol does the same to both. -/
theorem Level.apply {fill : Fill} (level : Level fill.bar.symbol d m m') :
    Level fill.bar.symbol d (broker.apply m fill) (broker.apply m' fill) := by
  have position : m.position fill.bar.symbol = m'.position fill.bar.symbol :=
    level.field fun sheet => sheet.position.getD 0
  have average : m.averageEntry fill.bar.symbol = m'.averageEntry fill.bar.symbol :=
    level.field fun sheet => sheet.average.getD 0
  have profit : broker.profit m fill = broker.profit m' fill := by
    rw [MarketSimulatorBroker.profit, MarketSimulatorBroker.profit, position, average]
  have trades : SameTrades fill.bar.symbol m m' :=
    ⟨level.field Sheet.openTrade, level.field Sheet.trades⟩
  have entered := trades.applyToTrade (m'.position fill.bar.symbol)
    (m'.position fill.bar.symbol + fill.signedQuantity)
    (broker.commissionPerContract * fill.quantity) (broker.profit m' fill)
  obtain ⟨orders, returns, last⟩ := broker.apply_frame m fill
  obtain ⟨orders', returns', last'⟩ := broker.apply_frame m' fill
  constructor
  · apply Sheet.ext
    case position => simp [sheet, apply_positions, position]
    case average => simp [sheet, apply_avgEntryPrice, position, average]
    case waiting =>
      simp only [sheet, SimulatorState.waiting, orders, orders']
      exact level.field Sheet.waiting
    case lastBar =>
      simp only [sheet, last, last']
      exact level.field Sheet.lastBar
    case volumes =>
      simp only [sheet, apply_volumeHistory]
      exact level.field Sheet.volumes
    case returns =>
      simp only [sheet, returns, returns']
      exact level.field Sheet.returns
    case openTrade =>
      simp only [sheet, apply_openTrades, position, profit]
      exact entered.openTrade
    case trades =>
      simp only [sheet, apply_trades, position, profit]
      exact entered.trades
    case fills =>
      have before := level.field Sheet.fills
      simp only [sheet] at before ⊢
      rw [apply_fills, apply_fills, List.filter_append, List.filter_append, before]
    case events =>
      have before := level.field Sheet.events
      simp only [sheet] at before ⊢
      rw [apply_eventQueue, apply_eventQueue, List.filter_append, List.filter_append, before]
  · rw [apply_equity, apply_equity, profit, level.equity]
    ring

/-- A fill leaves the other symbols alone. -/
theorem sheet_apply (m : SimulatorState) {fill : Fill} (other : s ≠ fill.bar.symbol) :
    sheet s (broker.apply m fill) = sheet s m := by
  have entered := sameTrades_applyToTrade m other (m.position fill.bar.symbol)
    (m.position fill.bar.symbol + fill.signedQuantity)
    (broker.commissionPerContract * fill.quantity) (broker.profit m fill)
  obtain ⟨orders, returns, last⟩ := broker.apply_frame m fill
  apply Sheet.ext
  case position => exact Dict.get?_set_ne _ _ other
  case average => exact Dict.get?_set_ne _ _ other
  case waiting => simp only [sheet, SimulatorState.waiting, orders]
  case lastBar => simp only [sheet, last]
  case volumes => simp only [sheet, apply_volumeHistory]
  case returns => simp only [sheet, returns]
  case openTrade => exact entered.openTrade
  case trades => exact entered.trades
  case fills => simp [sheet, List.filter_append, other.symm]
  case events => simp [sheet, List.filter_append, symbolOf, other.symm]

/-! ### Bars -/

theorem Level.resolveOrder {bar : BarEvent} (level : Level bar.symbol d m m')
    (pending : PendingOrder) :
    Level bar.symbol d (broker.resolveOrder m bar pending).1
      (broker.resolveOrder m' bar pending).1 := by
  have price : ∀ quantity, broker.computeFillPrice m pending bar quantity =
      broker.computeFillPrice m' pending bar quantity := by
    intro quantity
    have returns : m.returnHistory.getD bar.symbol [] = m'.returnHistory.getD bar.symbol [] :=
      level.field fun sheet => sheet.returns.getD []
    simp only [computeFillPrice, realizedVolPct, returns]
  simp only [MarketSimulatorBroker.resolveOrder]
  by_cases positive : broker.determineFillQuantity pending bar > 0
  · simp only [if_pos positive, price]
    let fill : Fill := ⟨pending, broker.determineFillQuantity pending bar,
      broker.computeFillPrice m' pending bar (broker.determineFillQuantity pending bar), bar, positive⟩
    have filled : Level bar.symbol d (broker.apply m fill) (broker.apply m' fill) := by
      change Level fill.bar.symbol d _ _
      exact Level.apply level
    split
    · exact filled
    · split <;> exact filled
  · simp only [if_neg positive]
    split
    · exact level
    · split <;> exact level

theorem Level.resolveOrders {bar : BarEvent} (level : Level bar.symbol d m m')
    (broker : MarketSimulatorBroker) (orders : List PendingOrder) :
    Level bar.symbol d (broker.resolveOrders bar m orders).1
      (broker.resolveOrders bar m' orders).1 := by
  induction orders generalizing m m' with
  | nil => exact level
  | cons pending rest ih => exact ih (level.resolveOrder pending)

theorem sheet_resolveOrder {bar : BarEvent} (m : SimulatorState) (other : s ≠ bar.symbol)
    (pending : PendingOrder) : sheet s (broker.resolveOrder m bar pending).1 = sheet s m := by
  simp only [MarketSimulatorBroker.resolveOrder]
  by_cases positive : broker.determineFillQuantity pending bar > 0
  · simp only [if_pos positive]
    let fill : Fill := ⟨pending, broker.determineFillQuantity pending bar,
      broker.computeFillPrice m pending bar (broker.determineFillQuantity pending bar), bar, positive⟩
    have filled : sheet s (broker.apply m fill) = sheet s m := sheet_apply m other
    split
    · exact filled
    · split <;> exact filled
  · simp only [if_neg positive]
    split
    · rfl
    · split <;> rfl

theorem sheet_resolveOrders {bar : BarEvent} (m : SimulatorState) (other : s ≠ bar.symbol)
    (orders : List PendingOrder) : sheet s (broker.resolveOrders bar m orders).1 = sheet s m := by
  induction orders generalizing m with
  | nil => rfl
  | cons pending rest ih => exact (ih _).trans (sheet_resolveOrder m other pending)

/-- What is left of a symbol's orders goes back to where they were. -/
theorem sheet_carried (m : SimulatorState) (orders : List PendingOrder) (bar : BarEvent) :
    sheet bar.symbol
        { m with
          pendingOrders := m.pendingOrders.set bar.symbol orders
          lastBar := m.lastBar.set bar.symbol bar } =
      { sheet bar.symbol m with waiting := orders, lastBar := some bar } := by
  apply Sheet.ext
  case waiting => simp [sheet, SimulatorState.waiting, Dict.getD]
  case lastBar => simp [sheet]
  all_goals rfl

theorem sheet_carried_other (m : SimulatorState) (orders : List PendingOrder) {bar : BarEvent}
    (other : s ≠ bar.symbol) :
    sheet s
        { m with
          pendingOrders := m.pendingOrders.set bar.symbol orders
          lastBar := m.lastBar.set bar.symbol bar } = sheet s m := by
  apply Sheet.ext
  case waiting => simp [sheet, SimulatorState.waiting, Dict.getD, Dict.get?_set_ne _ _ other]
  case lastBar => exact Dict.get?_set_ne _ _ other
  all_goals rfl

theorem sheet_counted (m : SimulatorState) (s : Symbol) (volumes : List ℚ) :
    sheet s { m with volumeHistory := m.volumeHistory.set s volumes } =
      { sheet s m with volumes := some volumes } := by
  apply Sheet.ext
  case volumes => simp [sheet]
  all_goals rfl

theorem sheet_returned (m : SimulatorState) (s : Symbol) (returns : List ℚ) :
    sheet s { m with returnHistory := m.returnHistory.set s returns } =
      { sheet s m with returns := some returns } := by
  apply Sheet.ext
  case returns => simp [sheet]
  all_goals rfl

theorem Level.counted (level : Level s d m m') (volumes : List ℚ) :
    Level s d { m with volumeHistory := m.volumeHistory.set s volumes }
      { m' with volumeHistory := m'.volumeHistory.set s volumes } :=
  ⟨by rw [sheet_counted, sheet_counted, level.same], level.equity⟩

theorem Level.returned (level : Level s d m m') (returns : List ℚ) :
    Level s d { m with returnHistory := m.returnHistory.set s returns }
      { m' with returnHistory := m'.returnHistory.set s returns } :=
  ⟨by rw [sheet_returned, sheet_returned, level.same], level.equity⟩

/-- A bar raises in both or in neither. -/
theorem Level.updateHistory {bar : BarEvent} (level : Level bar.symbol d m m')
    (broker : MarketSimulatorBroker) :
    (∃ message, broker.updateHistory m bar = .error message ∧
      broker.updateHistory m' bar = .error message) ∨
    ∃ counted counted', broker.updateHistory m bar = .ok counted ∧
      broker.updateHistory m' bar = .ok counted' ∧ Level bar.symbol d counted counted' := by
  have last : m.lastBar.get? bar.symbol = m'.lastBar.get? bar.symbol := level.field Sheet.lastBar
  have volumes : m.volumeHistory.getD bar.symbol [] = m'.volumeHistory.getD bar.symbol [] :=
    level.field fun sheet => sheet.volumes.getD []
  have returns : m.returnHistory.getD bar.symbol [] = m'.returnHistory.getD bar.symbol [] :=
    level.field fun sheet => sheet.returns.getD []
  simp only [MarketSimulatorBroker.updateHistory, last, volumes, returns]
  cases m'.lastBar.get? bar.symbol with
  | none => exact .inr ⟨_, _, rfl, rfl, level.counted _⟩
  | some prev =>
    dsimp only
    split
    · split
      · exact .inl ⟨_, rfl, rfl⟩
      · exact .inr ⟨_, _, rfl, rfl, (level.counted _).returned _⟩
    · exact .inr ⟨_, _, rfl, rfl, level.counted _⟩

/-- A bar of the symbol does the same to both. -/
theorem Level.processedBar {bar : BarEvent} (level : Level bar.symbol d m m') :
    Level bar.symbol d (SimulatedDesk.processedBar broker m bar)
      (SimulatedDesk.processedBar broker m' bar) := by
  simp only [SimulatedDesk.processedBar, processBar]
  rcases level.updateHistory broker with
    ⟨message, here, there⟩ | ⟨counted, counted', here, there, history⟩
  · rw [here, there]
    have volumes : m.volumeHistory.getD bar.symbol [] = m'.volumeHistory.getD bar.symbol [] :=
      level.field fun sheet => sheet.volumes.getD []
    simp only [bind, Except.bind, volumes]
    exact level.counted _
  · rw [here, there]
    have orders : counted.pendingOrders.getD bar.symbol [] =
        counted'.pendingOrders.getD bar.symbol [] := history.field Sheet.waiting
    have resolved := history.resolveOrders broker (counted'.pendingOrders.getD bar.symbol [])
    simp only [bind, Except.bind, pure, Except.pure, resolvePendingOrders, orders, resolveOrders_snd]
    constructor
    · rw [sheet_carried, sheet_carried, resolved.same]
    · exact resolved.equity

/-- A bar leaves the other symbols alone. -/
theorem sheet_processedBar {bar : BarEvent} (m : SimulatorState) (other : s ≠ bar.symbol) :
    sheet s (SimulatedDesk.processedBar broker m bar) = sheet s m := by
  simp only [SimulatedDesk.processedBar, processBar]
  cases updated : broker.updateHistory m bar with
  | error message =>
    apply Sheet.ext
    case volumes => exact Dict.get?_set_ne _ _ other
    all_goals rfl
  | ok counted =>
    have history : sheet s counted = sheet s m := by
      rw [MarketSimulatorBroker.updateHistory] at updated
      dsimp only at updated
      have volumes : ∀ kept, sheet s { m with volumeHistory := m.volumeHistory.set bar.symbol kept } =
          sheet s m := by
        intro kept
        apply Sheet.ext
        case volumes => exact Dict.get?_set_ne _ _ other
        all_goals rfl
      split at updated
      · cases updated
        exact volumes _
      · split at updated
        · split at updated
          · cases updated
          · cases updated
            apply Sheet.ext
            case volumes => exact Dict.get?_set_ne _ _ other
            case returns => exact Dict.get?_set_ne _ _ other
            all_goals rfl
        · cases updated
          exact volumes _
    simp only [bind, Except.bind, pure, Except.pure, resolvePendingOrders]
    rw [sheet_carried_other _ _ other, sheet_resolveOrders _ other, history]

/-! ### Calls -/

theorem sheet_placeOrder (m : SimulatorState) (request : BrokerOrderRequest) :
    sheet request.symbol (m.placeOrder request) =
      { sheet request.symbol m with
        waiting := (sheet request.symbol m).waiting ++
          [{ request := request
             expectedPrice := ((sheet request.symbol m).lastBar.map (·.close)).getD 0
             remainingQty := request.quantity }]
        events := (sheet request.symbol m).events ++
          [.ack ⟨request.orderId, request.symbol, .acknowledged, none⟩] } := by
  apply Sheet.ext
  case waiting =>
    simp only [sheet, SimulatorState.placeOrder_waiting, if_true]
    rfl
  case events => simp [sheet, List.filter_append, symbolOf]
  all_goals rfl

theorem sheet_cancelOrder (m : SimulatorState) (s : Symbol) (orderId : OrderId) :
    sheet s (m.cancelOrder orderId) =
      { sheet s m with
        waiting := (sheet s m).waiting.filter (·.request.orderId ≠ orderId) } := by
  apply Sheet.ext
  case waiting => exact m.cancelOrder_waiting orderId s
  all_goals rfl

theorem sheet_cancelAll (m : SimulatorState) (s : Symbol) :
    sheet s m.cancelAll = { sheet s m with waiting := [] } := by
  apply Sheet.ext
  case waiting => exact m.cancelAll_waiting s
  all_goals rfl

/-- A call that concerns the symbol does the same to both. -/
theorem Level.called (level : Level s d m m') {call : Call} (concerned : concerns s call = true) :
    Level s d (called broker m call) (called broker m' call) := by
  cases call with
  | placeOrder request =>
    obtain rfl : request.symbol = s := by simpa [concerns] using concerned
    refine ⟨?_, level.equity⟩
    simp only [JournaledSimulator.called, sheet_placeOrder, level.same]
  | cancelOrder orderId =>
    refine ⟨?_, level.equity⟩
    simp only [JournaledSimulator.called, sheet_cancelOrder, level.same]
  | cancelAll =>
    refine ⟨?_, level.equity⟩
    simp only [JournaledSimulator.called, sheet_cancelAll, level.same]
  | processBar bar =>
    obtain rfl : bar.symbol = s := by simpa [concerns] using concerned
    exact level.processedBar

/-- Any other call leaves the symbol alone. -/
theorem sheet_called (m : SimulatorState) {call : Call} (elsewhere : concerns s call = false) :
    sheet s (called broker m call) = sheet s m := by
  cases call with
  | placeOrder request =>
    have other : s ≠ request.symbol := by simpa [concerns, eq_comm] using elsewhere
    apply Sheet.ext
    case waiting =>
      simp only [sheet, JournaledSimulator.called, SimulatorState.placeOrder_waiting, if_neg other]
    case events =>
      simp [sheet, JournaledSimulator.called, List.filter_append, symbolOf, other.symm]
    all_goals rfl
  | processBar bar =>
    have other : s ≠ bar.symbol := by simpa [concerns, eq_comm] using elsewhere
    exact sheet_processedBar m other
  | _ => cases elsewhere

variable (broker)

theorem after_concat (startingEquity : ℚ) (calls : List Call) (call : Call) :
    after broker startingEquity (calls ++ [call]) =
      called broker (after broker startingEquity calls) call := by
  simp [after]

/-- Only bars earn or cost anything. -/
theorem equity_called (m : SimulatorState) {call : Call}
    (idle : ∀ bar, call ≠ .processBar bar) : (called broker m call).equity = m.equity := by
  cases call with
  | processBar bar => exact absurd rfl (idle bar)
  | _ => rfl

/-- What is held of a symbol is what is held when it is traded alone. -/
theorem sheet_alone (startingEquity : ℚ) (calls : List Call) (s : Symbol) :
    sheet s (after broker startingEquity calls) = sheet s (after broker 0 (alone s calls)) := by
  induction calls using List.reverseRecOn with
  | nil => rfl
  | append_singleton before call ih =>
    rw [after_concat, alone, List.filter_append]
    by_cases concerned : concerns s call = true
    · rw [List.filter_cons_of_pos concerned, List.filter_nil, after_concat]
      have level : Level s ((after broker startingEquity before).equity -
          (after broker 0 (alone s before)).equity) (after broker startingEquity before)
          (after broker 0 (alone s before)) := ⟨ih, by ring⟩
      exact (level.called concerned).same
    · have elsewhere : concerns s call = false := by simpa using concerned
      rw [List.filter_cons_of_neg concerned, List.filter_nil, List.append_nil,
        sheet_called _ elsewhere]
      exact ih

theorem gain_concat_other {call : Call} (calls : List Call)
    (idle : ∀ bar, call = .processBar bar → bar.symbol ≠ s) :
    gain broker (calls ++ [call]) s = gain broker calls s := by
  rw [gain, gain, alone, alone, List.filter_append]
  by_cases concerned : concerns s call = true
  · rw [List.filter_cons_of_pos concerned, List.filter_nil, after_concat]
    apply equity_called
    rintro bar rfl
    exact idle bar rfl (by simpa [concerns] using concerned)
  · rw [List.filter_cons_of_neg concerned, List.filter_nil, List.append_nil]

/-- The equity is the start and what the symbols gain, over any symbols that all bars are of. -/
theorem equity_sum (startingEquity : ℚ) (calls : List Call) (symbols : Finset Symbol)
    (covers : ∀ bar, .processBar bar ∈ calls → bar.symbol ∈ symbols) :
    (after broker startingEquity calls).equity =
      startingEquity + ∑ s ∈ symbols, gain broker calls s := by
  induction calls using List.reverseRecOn with
  | nil => simp [gain, alone, after]
  | append_singleton before call ih =>
    have earlier := ih fun bar member => covers bar (List.mem_append_left _ member)
    rw [after_concat]
    by_cases idle : ∀ bar, call ≠ .processBar bar
    · -- no symbol gains from such a call
      rw [equity_called broker _ idle, earlier]
      congr 1
      apply Finset.sum_congr rfl
      intro s _
      exact (gain_concat_other broker before fun bar same => absurd same (idle bar)).symm
    · push Not at idle
      obtain ⟨bar, rfl⟩ := idle
      have member : bar.symbol ∈ symbols := covers bar (by simp)
      -- the symbol of the bar gains what it gains alone, the others nothing
      have level : Level bar.symbol ((after broker startingEquity before).equity -
          gain broker before bar.symbol) (after broker startingEquity before)
          (after broker 0 (alone bar.symbol before)) :=
        ⟨sheet_alone broker startingEquity before bar.symbol, by rw [gain]; ring⟩
      have own : gain broker (before ++ [.processBar bar]) bar.symbol =
          (called broker (after broker 0 (alone bar.symbol before)) (.processBar bar)).equity := by
        rw [gain, alone, List.filter_append, List.filter_cons_of_pos (by simp [concerns]),
          List.filter_nil, after_concat]
        rfl
      have others : ∑ s ∈ symbols.erase bar.symbol, gain broker (before ++ [.processBar bar]) s =
          ∑ s ∈ symbols.erase bar.symbol, gain broker before s := by
        apply Finset.sum_congr rfl
        intro s other
        apply gain_concat_other
        rintro _ ⟨⟩ same
        exact Finset.ne_of_mem_erase other same.symm
      have now := Finset.add_sum_erase symbols (gain broker (before ++ [.processBar bar])) member
      have then_ := Finset.add_sum_erase symbols (gain broker before) member
      have moved : (called broker (after broker startingEquity before) (.processBar bar)).equity =
          (called broker (after broker 0 (alone bar.symbol before)) (.processBar bar)).equity +
            ((after broker startingEquity before).equity - gain broker before bar.symbol) :=
        (level.called (by simp [concerns])).equity
      rw [moved, ← own, earlier, ← now, ← then_, others]
      ring

/-- A backtest of many symbols holds of each what a backtest of its orders and bars alone would
hold, and its equity is the start with what each of those gains. -/
theorem portfolio_of_parts (startingEquity : ℚ) (calls : List Call) :
    (∀ s, sheet s (after broker startingEquity calls) =
      sheet s (after broker 0 (alone s calls))) ∧
    (after broker startingEquity calls).equity =
      startingEquity + ∑ s ∈ charted calls, gain broker calls s := by
  constructor
  · exact sheet_alone broker startingEquity calls
  · apply equity_sum
    intro bar member
    rw [charted, List.mem_toFinset, List.mem_filterMap]
    exact ⟨_, member, rfl⟩

end SymbolsApart

end Binbot
