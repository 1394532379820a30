import Binbot.Backtest.MarketSimulator
import Mathlib.Tactic.FieldSimp
import Mathlib.Tactic.Linarith

/-!
# What a fill of the simulator does

A fill opens, adds, reduces, closes or flips. Each case has its profit, its average
entry price and its effect on the trades of the symbol.
-/
namespace Binbot

open Data

/-- How a signed quantity meets a position. -/
inductive FillCase (prev signed : ℤ) : Prop
  | opens (flat : prev = 0)
  | adds (held : 0 < prev ∧ 0 < signed ∨ prev < 0 ∧ signed < 0)
  | reduces (held : 0 < prev ∧ signed < 0 ∧ 0 < prev + signed ∨
      prev < 0 ∧ 0 < signed ∧ prev + signed < 0)
  | closes (held : prev ≠ 0) (out : prev + signed = 0)
  | flips (held : 0 < prev ∧ prev + signed < 0 ∨ prev < 0 ∧ 0 < prev + signed)

theorem fillCase (prev signed : ℤ) (moves : signed ≠ 0) : FillCase prev signed := by
  rcases lt_trichotomy prev 0 with short | flat | long
  · -- a short position: the sign of what is left decides between the last three
    rcases lt_or_gt_of_ne moves with sold | bought
    · exact .adds (.inr ⟨short, sold⟩)
    · rcases lt_trichotomy (prev + signed) 0 with below | zero | above
      · exact .reduces (.inr ⟨short, bought, below⟩)
      · exact .closes (by omega) zero
      · exact .flips (.inr ⟨short, above⟩)
  · exact .opens flat
  · rcases lt_or_gt_of_ne moves with sold | bought
    · rcases lt_trichotomy (prev + signed) 0 with below | zero | above
      · exact .flips (.inl ⟨long, below⟩)
      · exact .closes (by omega) zero
      · exact .reduces (.inl ⟨long, sold, above⟩)
    · exact .adds (.inl ⟨long, bought⟩)

theorem isFlip_iff (prev signed : ℤ) :
    isFlip prev (prev + signed) ↔ 0 < prev ∧ prev + signed < 0 ∨ prev < 0 ∧ 0 < prev + signed := by
  rw [isFlip]
  omega

/-! ### Profit -/

section Profit

variable {prev signed : ℤ} (price average multiplier : ℚ)

theorem closingPnl_flat : closingPnl 0 signed price average multiplier = 0 := by
  simp [closingPnl]

theorem closingPnl_adds (held : 0 < prev ∧ 0 < signed ∨ prev < 0 ∧ signed < 0) :
    closingPnl prev signed price average multiplier = 0 := by
  rw [closingPnl]
  rw [if_neg (by omega)]

/-- Of a fill against the position, the part up to the whole position closes. -/
theorem closingPnl_against (held : 0 < prev ∧ signed < 0 ∨ prev < 0 ∧ 0 < signed) :
    closingPnl prev signed price average multiplier =
      (if prev > 0 then 1 else -1) * (price - average) * ((min |signed| |prev| : ℤ) : ℚ) *
        multiplier := by
  rw [closingPnl]
  rw [if_pos (by omega)]

theorem closingPnl_reduces (held : 0 < prev ∧ signed < 0 ∧ 0 < prev + signed ∨
    prev < 0 ∧ 0 < signed ∧ prev + signed < 0) :
    closingPnl prev signed price average multiplier = -signed * (price - average) * multiplier := by
  rw [closingPnl_against price average multiplier (by omega)]
  rcases held with ⟨long, sold, left⟩ | ⟨short, bought, left⟩
  · rw [if_pos long, abs_of_neg sold, abs_of_pos long, min_eq_left (by omega)]
    push_cast
    ring
  · rw [if_neg (by omega), abs_of_pos bought, abs_of_neg short, min_eq_left (by omega)]
    ring

/-- A close or a flip takes the profit of the whole position. -/
theorem closingPnl_whole (held : 0 < prev ∧ prev + signed ≤ 0 ∨ prev < 0 ∧ 0 ≤ prev + signed) :
    closingPnl prev signed price average multiplier = prev * (price - average) * multiplier := by
  rw [closingPnl_against price average multiplier (by omega)]
  rcases held with ⟨long, beyond⟩ | ⟨short, beyond⟩
  · rw [if_pos long, abs_of_neg (show signed < 0 by omega), abs_of_pos long,
      min_eq_right (by omega)]
    ring
  · rw [if_neg (by omega), abs_of_pos (show 0 < signed by omega), abs_of_neg short,
      min_eq_right (by omega)]
    push_cast
    ring

end Profit

/-! ### Average entry price -/

section Average

variable {prev signed : ℤ} (price average : ℚ)

theorem averageAfter_adds (held : 0 < prev ∧ 0 < signed ∨ prev < 0 ∧ signed < 0) :
    averageAfter prev signed price average =
      (average * ((|prev| : ℤ) : ℚ) + price * ((|signed| : ℤ) : ℚ)) /
        ((|prev| + |signed| : ℤ) : ℚ) := by
  rw [averageAfter]
  have total : |prev| + |signed| ≠ 0 := by
    have := abs_pos.mpr (show prev ≠ 0 by omega)
    have := abs_nonneg signed
    omega
  rw [if_neg (by rw [isFlip_iff]; omega), if_neg (by omega), if_pos (by omega)]
  simp only [if_neg total]

theorem averageAfter_opens (moves : signed ≠ 0) : averageAfter 0 signed price average = price := by
  rw [averageAfter]
  have size : |signed| ≠ 0 := abs_ne_zero.mpr moves
  rw [if_neg (by simp [isFlip]), if_neg (by omega), if_pos (by omega)]
  simp [moves]

theorem averageAfter_reduces (held : 0 < prev ∧ signed < 0 ∧ 0 < prev + signed ∨
    prev < 0 ∧ 0 < signed ∧ prev + signed < 0) :
    averageAfter prev signed price average = average := by
  rw [averageAfter]
  rw [if_neg (by rw [isFlip_iff]; omega), if_neg (by omega), if_neg (by omega)]

theorem averageAfter_closes (out : prev + signed = 0) :
    averageAfter prev signed price average = 0 := by
  rw [averageAfter]
  rw [if_neg (by rw [isFlip_iff]; omega), if_pos out]

theorem averageAfter_flips (held : 0 < prev ∧ prev + signed < 0 ∨ prev < 0 ∧ 0 < prev + signed) :
    averageAfter prev signed price average = price := by
  rw [averageAfter]
  rw [if_pos ((isFlip_iff prev signed).mpr held)]

end Average

/-- The profit a fill realizes is what it pays, set against the change of the book value. -/
theorem closingPnl_balance {prev signed : ℤ} (price : ℚ) {average : ℚ} (multiplier : ℚ)
    (moves : signed ≠ 0) (flat : prev = 0 → average = 0) :
    closingPnl prev signed price average multiplier =
      -(signed * price * multiplier) +
        (((prev + signed : ℤ) : ℚ) * averageAfter prev signed price average - prev * average) *
          multiplier := by
  cases fillCase prev signed moves with
  | opens none =>
    subst none
    rw [closingPnl_flat, averageAfter_opens price average moves, flat rfl]
    push_cast
    ring
  | adds held =>
    rw [closingPnl_adds price average multiplier held, averageAfter_adds price average held]
    rcases held with ⟨long, bought⟩ | ⟨short, sold⟩
    · rw [abs_of_pos long, abs_of_pos bought]
      have total : ((prev + signed : ℤ) : ℚ) ≠ 0 := by exact_mod_cast (by omega)
      rw [mul_div_cancel₀ _ total]
      ring
    · rw [abs_of_neg short, abs_of_neg sold]
      have total : ((-prev + -signed : ℤ) : ℚ) ≠ 0 := by exact_mod_cast (by omega)
      have turned : ((prev + signed : ℤ) : ℚ) = -((-prev + -signed : ℤ) : ℚ) := by
        push_cast
        ring
      rw [turned, neg_mul, mul_div_cancel₀ _ total]
      push_cast
      ring
  | reduces held =>
    rw [closingPnl_reduces price average multiplier held, averageAfter_reduces price average held]
    push_cast
    ring
  | closes held out =>
    have whole : (signed : ℚ) = -prev := by exact_mod_cast (by omega)
    rw [closingPnl_whole price average multiplier (by omega), averageAfter_closes price average out,
      whole]
    ring
  | flips held =>
    rw [closingPnl_whole price average multiplier (by omega), averageAfter_flips price average held]
    push_cast
    ring

/-! ### Trades -/

namespace MarketSimulatorBroker

section Trades

variable {m : SimulatorState} {prev signed : ℤ} {commission profit : ℚ} {bar : BarEvent}
  {trade : SimulatedTrade}

theorem applyToTrade_opens (moves : signed ≠ 0) :
    applyToTrade m 0 signed commission profit bar =
      { m with
        openTrades := (m.openTrades.set bar.symbol (newTrade signed bar)).set bar.symbol
          ((newTrade signed bar).charged signed commission profit) } := by
  rw [applyToTrade]
  simp [moves, isFlip]

theorem applyToTrade_stays (running : m.openTrades.get? bar.symbol = some trade)
    (held : 0 < prev ∧ 0 < prev + signed ∨ prev < 0 ∧ prev + signed < 0) :
    applyToTrade m prev (prev + signed) commission profit bar =
      { m with
        openTrades := m.openTrades.set bar.symbol
          (trade.charged (prev + signed) commission profit) } := by
  rw [applyToTrade]
  have noFlip : ¬ isFlip prev (prev + signed) := by rw [isFlip_iff]; omega
  have notOpening : ¬ (prev = 0 ∧ prev + signed ≠ 0) := by omega
  have notClosing : ¬ (prev + signed = 0 ∧ prev ≠ 0) := by omega
  simp only [if_neg notOpening, running, if_neg notClosing, if_neg noFlip]

theorem applyToTrade_closes (running : m.openTrades.get? bar.symbol = some trade)
    (held : prev ≠ 0) (out : prev + signed = 0) :
    applyToTrade m prev (prev + signed) commission profit bar =
      { m with
        openTrades := (m.openTrades.set bar.symbol
          (trade.charged (prev + signed) commission profit)).erase bar.symbol
        trades := m.trades ++
          [(trade.charged (prev + signed) commission profit).recorded bar.symbol bar.ts] } := by
  rw [applyToTrade]
  have notOpening : ¬ (prev = 0 ∧ prev + signed ≠ 0) := by omega
  simp only [if_neg notOpening, running, if_pos (And.intro out held), SimulatorState.finalizeTrade,
    Dict.get?_set_self]

/-- A flip finishes the running trade and starts another. -/
theorem applyToTrade_flips (running : m.openTrades.get? bar.symbol = some trade)
    (held : 0 < prev ∧ prev + signed < 0 ∨ prev < 0 ∧ 0 < prev + signed) :
    applyToTrade m prev (prev + signed) commission profit bar =
      { m with
        openTrades := ((m.openTrades.set bar.symbol
          (trade.charged (prev + signed) commission profit)).erase bar.symbol).set bar.symbol
            (newTrade (prev + signed) bar)
        trades := m.trades ++
          [(trade.charged (prev + signed) commission profit).recorded bar.symbol bar.ts] } := by
  rw [applyToTrade]
  have notOpening : ¬ (prev = 0 ∧ prev + signed ≠ 0) := by omega
  have notClosing : ¬ (prev + signed = 0 ∧ prev ≠ 0) := by omega
  simp only [if_neg notOpening, running, if_neg notClosing,
    if_pos ((isFlip_iff prev signed).mpr held), SimulatorState.finalizeTrade, Dict.get?_set_self]

end Trades

/-! A fill first opens a trade, then charges it, then ends it or splits it at a flip. Each of the
three looks at the trade of one symbol only. -/

/-- A fill that leaves flat opens a trade. -/
def opened (m : SimulatorState) (prev new : ℤ) (bar : BarEvent) : SimulatorState :=
  if prev = 0 ∧ new ≠ 0 then
    { m with openTrades := m.openTrades.set bar.symbol (newTrade new bar) }
  else m

/-- The open trade is charged with the fill. -/
def charged (m : SimulatorState) (new : ℤ) (commission profit : ℚ) (symbol : Symbol) :
    SimulatorState :=
  match m.openTrades.get? symbol with
  | none => m
  | some trade =>
    { m with openTrades := m.openTrades.set symbol (trade.charged new commission profit) }

/-- A trade that is over is recorded; a flip opens the next one. -/
def concluded (m : SimulatorState) (prev new : ℤ) (bar : BarEvent) : SimulatorState :=
  if new = 0 ∧ prev ≠ 0 then m.finalizeTrade bar.symbol bar.ts
  else if isFlip prev new then
    { (m.finalizeTrade bar.symbol bar.ts) with
      openTrades := (m.finalizeTrade bar.symbol bar.ts).openTrades.set bar.symbol (newTrade new bar) }
  else m

theorem applyToTrade_eq (m : SimulatorState) (prev new : ℤ) (commission profit : ℚ)
    (bar : BarEvent) : applyToTrade m prev new commission profit bar =
      concluded (charged (opened m prev new bar) new commission profit bar.symbol) prev new bar := by
  rw [applyToTrade, opened, charged]
  dsimp only
  by_cases opens : prev = 0 ∧ new ≠ 0
  · simp only [if_pos opens, Dict.get?_set_self]
    rfl
  · simp only [if_neg opens]
    cases m.openTrades.get? bar.symbol with
    | none => rfl
    | some trade => rfl

end MarketSimulatorBroker

/-- A fill that `_apply_fill` is called with: some order, a positive quantity, a price and
the bar it happens in. -/
structure Fill where
  pending : PendingOrder
  quantity : ℤ
  price : ℚ
  bar : BarEvent
  positive : 0 < quantity

namespace Fill

variable (fill : Fill)

def signedQuantity : ℤ := fill.quantity * fill.pending.request.side.sign

theorem signedQuantity_ne_zero : fill.signedQuantity ≠ 0 := by
  have positive := fill.positive
  rw [signedQuantity]
  cases fill.pending.request.side <;> simp only [OrderSide.sign] <;> omega

end Fill

namespace MarketSimulatorBroker

variable (self : MarketSimulatorBroker)

/-- What the fill is reported as. -/
def report (fill : Fill) : ExecutionEvent :=
  self.execution fill.pending fill.quantity fill.price fill.bar

@[simp] theorem report_signedFill (fill : Fill) :
    (self.report fill).signedFill = fill.signedQuantity := rfl

@[simp] theorem report_symbol (fill : Fill) : (self.report fill).symbol = fill.bar.symbol := rfl

/-- The profit a fill realizes in a state. -/
def profit (m : SimulatorState) (fill : Fill) : ℚ :=
  closingPnl (m.position fill.bar.symbol) fill.signedQuantity fill.price
    (m.averageEntry fill.bar.symbol) (self.multiplier fill.bar.symbol)

def apply (m : SimulatorState) (fill : Fill) : SimulatorState :=
  self.applyFill m fill.pending fill.quantity fill.price fill.bar

def applyFills (m : SimulatorState) (fills : List Fill) : SimulatorState :=
  fills.foldl self.apply m

section Apply

variable (m : SimulatorState) (fill : Fill)

@[simp] theorem apply_equity :
    (self.apply m fill).equity =
      m.equity + (self.profit m fill - self.commissionPerContract * fill.quantity) := rfl

@[simp] theorem apply_fills : (self.apply m fill).fills = m.fills ++ [self.report fill] := rfl

theorem apply_positions :
    (self.apply m fill).positions =
      m.positions.set fill.bar.symbol (m.position fill.bar.symbol + fill.signedQuantity) := rfl

theorem apply_avgEntryPrice :
    (self.apply m fill).avgEntryPrice = m.avgEntryPrice.set fill.bar.symbol
      (averageAfter (m.position fill.bar.symbol) fill.signedQuantity fill.price
        (m.averageEntry fill.bar.symbol)) := rfl

theorem apply_openTrades :
    (self.apply m fill).openTrades =
      (applyToTrade m (m.position fill.bar.symbol)
        (m.position fill.bar.symbol + fill.signedQuantity)
        (self.commissionPerContract * fill.quantity) (self.profit m fill) fill.bar).openTrades := rfl

theorem apply_trades :
    (self.apply m fill).trades =
      (applyToTrade m (m.position fill.bar.symbol)
        (m.position fill.bar.symbol + fill.signedQuantity)
        (self.commissionPerContract * fill.quantity) (self.profit m fill) fill.bar).trades := rfl

theorem apply_position (symbol : Symbol) :
    (self.apply m fill).position symbol =
      if symbol = fill.bar.symbol then m.position symbol + fill.signedQuantity
      else m.position symbol := by
  simp only [SimulatorState.position]
  rw [apply_positions]
  by_cases here : symbol = fill.bar.symbol
  · subst here
    simp [Dict.getD, SimulatorState.position]
  · simp [Dict.getD, Dict.get?_set_ne _ _ here, here]

theorem apply_averageEntry (symbol : Symbol) :
    (self.apply m fill).averageEntry symbol =
      if symbol = fill.bar.symbol then
        averageAfter (m.position symbol) fill.signedQuantity fill.price (m.averageEntry symbol)
      else m.averageEntry symbol := by
  simp only [SimulatorState.averageEntry]
  rw [apply_avgEntryPrice]
  by_cases here : symbol = fill.bar.symbol
  · subst here
    simp [Dict.getD, SimulatorState.averageEntry]
  · simp [Dict.getD, Dict.get?_set_ne _ _ here, here]

end Apply

/-! ### Orders and bars -/

/-- A fill takes no more than the rest of its order. -/
theorem determineFillQuantity_bounds (bar : BarEvent) {p : PendingOrder}
    (size : 0 ≤ p.remainingQty) :
    0 ≤ self.determineFillQuantity p bar ∧ self.determineFillQuantity p bar ≤ p.remainingQty := by
  rw [determineFillQuantity]
  dsimp only
  split
  · omega
  · split <;> omega
  · split <;> omega
  · omega
  · omega

/-- A new order waits behind the others of its symbol. -/
theorem placeOrder_pending (m : SimulatorState) (request : BrokerOrderRequest) (symbol : Symbol) :
    (m.placeOrder request).pendingOrders.getD symbol [] =
      if symbol = request.symbol then
        m.pendingOrders.getD symbol [] ++ [m.pendingOrder request]
      else m.pendingOrders.getD symbol [] := by
  unfold SimulatorState.placeOrder SimulatorState.put Dict.getD
  by_cases here : symbol = request.symbol
  · subst here
    simp
  · rw [if_neg here]
    dsimp only
    rw [Dict.get?_set_ne _ _ here]

theorem applyFills_append (m : SimulatorState) (fills more : List Fill) :
    self.applyFills m (fills ++ more) = self.applyFills (self.applyFills m fills) more :=
  List.foldl_append

/-- The fills of some orders on a bar: each is of one of the orders, as far as the bar
fills it. -/
def FillsOf (bar : BarEvent) (orders : List PendingOrder) (fills : List Fill) : Prop :=
  ∀ fill ∈ fills, fill.bar = bar ∧ fill.pending ∈ orders ∧
    fill.quantity = self.determineFillQuantity fill.pending bar

theorem applyFills_fills (m : SimulatorState) (fills : List Fill) :
    (self.applyFills m fills).fills = m.fills ++ fills.map self.report := by
  induction fills generalizing m with
  | nil => simp [applyFills]
  | cons fill rest ih =>
    have tail := ih (self.apply m fill)
    rw [applyFills] at tail ⊢
    rw [List.foldl_cons, tail, apply_fills]
    simp

/-- What a fill leaves alone, fills leave alone. -/
theorem applyFills_keeps {α : Type} (view : SimulatorState → α)
    (keeps : ∀ m fill, view (self.apply m fill) = view m) (m : SimulatorState)
    (fills : List Fill) : view (self.applyFills m fills) = view m := by
  induction fills generalizing m with
  | nil => rfl
  | cons fill rest ih => exact (ih (self.apply m fill)).trans (keeps m fill)

/-- Fills leave the waiting orders and the market data alone. -/
theorem apply_frame (m : SimulatorState) (fill : Fill) :
    (self.apply m fill).pendingOrders = m.pendingOrders ∧
      (self.apply m fill).returnHistory = m.returnHistory ∧
      (self.apply m fill).lastBar = m.lastBar := by
  rw [apply, applyFill, applyToTrade, SimulatorState.finalizeTrade]
  dsimp only
  repeat' split
  all_goals exact ⟨rfl, rfl, rfl⟩

theorem applyFills_pendingOrders (m : SimulatorState) (fills : List Fill) :
    (self.applyFills m fills).pendingOrders = m.pendingOrders :=
  self.applyFills_keeps SimulatorState.pendingOrders
    (fun m fill => (self.apply_frame m fill).1) m fills

theorem applyFills_returnHistory (m : SimulatorState) (fills : List Fill) :
    (self.applyFills m fills).returnHistory = m.returnHistory :=
  self.applyFills_keeps SimulatorState.returnHistory
    (fun m fill => (self.apply_frame m fill).2.1) m fills

theorem applyFills_lastBar (m : SimulatorState) (fills : List Fill) :
    (self.applyFills m fills).lastBar = m.lastBar :=
  self.applyFills_keeps SimulatorState.lastBar
    (fun m fill => (self.apply_frame m fill).2.2) m fills

/-! ### The orders of a bar -/

section Bar

variable (bar : BarEvent)

/-- What is carried forward of an order past the bar. -/
def carried (pending : PendingOrder) : Option PendingOrder :=
  let left := pending.remainingQty - self.determineFillQuantity pending bar
  if left ≤ 0 then none
  else if pending.request.timeInForce = .ioc ∨ pending.request.timeInForce = .fok then none
  else some { pending with remainingQty := left, barsAlive := pending.barsAlive + 1 }

/-- The bar fills some of the order. -/
def Fills (pending : PendingOrder) : Prop := 0 < self.determineFillQuantity pending bar

instance : DecidablePred (self.Fills bar) := fun _ => inferInstanceAs (Decidable (_ < _))

variable {bar}

theorem resolveOrder_snd (m : SimulatorState) (pending : PendingOrder) :
    (self.resolveOrder m bar pending).2 = self.carried bar pending := by
  rw [resolveOrder, carried]
  split
  · rfl
  · split
    · rfl
    · rfl

/-- What is carried forward is the same order with the rest of it. -/
theorem carried_some {pending left : PendingOrder} (kept : self.carried bar pending = some left) :
    left.request = pending.request ∧
      left.remainingQty = pending.remainingQty - self.determineFillQuantity pending bar ∧
      0 < left.remainingQty := by
  rw [carried] at kept
  split at kept
  · cases kept
  next some =>
    split at kept
    · cases kept
    · cases kept
      exact ⟨rfl, rfl, not_le.mp some⟩

variable (bar) in
/-- An order that may be carried forward is, unless the bar fills all of it. -/
theorem exists_carried {pending : PendingOrder}
    (part : self.determineFillQuantity pending bar < pending.remainingQty)
    (stays : ¬ (pending.request.timeInForce = .ioc ∨ pending.request.timeInForce = .fok)) :
    ∃ left, self.carried bar pending = some left := by
  rw [carried]
  rw [if_neg (by omega), if_neg stays]
  exact ⟨_, rfl⟩

theorem carried_dropped {pending : PendingOrder}
    (dropped : pending.request.timeInForce = .ioc ∨ pending.request.timeInForce = .fok) :
    self.carried bar pending = none := by
  rw [carried]
  rw [if_pos dropped]
  split
  · rfl
  · rfl

theorem carried_ids_sublist (orders : List PendingOrder) :
    ((orders.filterMap (self.carried bar)).map (·.request.orderId)).Sublist
      (orders.map (·.request.orderId)) := by
  induction orders with
  | nil => exact List.Sublist.refl _
  | cons pending rest ih =>
    rw [List.filterMap_cons, List.map_cons]
    cases kept : self.carried bar pending with
    | none => exact ih.cons _
    | some left =>
      rw [← (self.carried_some kept).1]
      exact ih.cons_cons _

/-- The price depends on the state through the returns only. -/
theorem computeFillPrice_congr {m m' : SimulatorState} (same : m.returnHistory = m'.returnHistory)
    (pending : PendingOrder) (fillQty : ℤ) :
    self.computeFillPrice m pending bar fillQty = self.computeFillPrice m' pending bar fillQty := by
  simp only [computeFillPrice, realizedVolPct, same]

variable (bar) in
/-- Each fill is at the price of the state. -/
def Priced (m : SimulatorState) (fills : List Fill) : Prop :=
  ∀ fill ∈ fills, fill.price = self.computeFillPrice m fill.pending bar fill.quantity

variable (bar) in
/-- An order that the bar fills is reported by one fill, any other by none. -/
theorem resolveOrder_fst (m : SimulatorState) (pending : PendingOrder) :
    ∃ fills : List Fill, fills.map (·.pending) = [pending].filter (self.Fills bar) ∧
      self.FillsOf bar [pending] fills ∧ self.Priced bar m fills ∧
      (self.resolveOrder m bar pending).1 = self.applyFills m fills := by
  by_cases fills : self.Fills bar pending
  · have positive : self.determineFillQuantity pending bar > 0 := fills
    let fill : Fill := ⟨pending, self.determineFillQuantity pending bar,
      self.computeFillPrice m pending bar (self.determineFillQuantity pending bar), bar, positive⟩
    refine ⟨[fill], ?_, by simp [FillsOf, fill], by simp [Priced, fill], ?_⟩
    · simp [fills, fill]
    · simp only [resolveOrder, if_pos positive]
      split
      · rfl
      · split <;> rfl
  · have positive : ¬ self.determineFillQuantity pending bar > 0 := fills
    refine ⟨[], ?_, by simp [FillsOf], by simp [Priced], ?_⟩
    · simp [fills]
    · simp only [resolveOrder, if_neg positive]
      split
      · rfl
      · split <;> rfl

variable (bar) in
theorem resolveOrders_snd (m : SimulatorState) (orders : List PendingOrder) :
    (self.resolveOrders bar m orders).2 = orders.filterMap (self.carried bar) := by
  induction orders generalizing m with
  | nil => rfl
  | cons pending rest ih =>
    rw [resolveOrders]
    dsimp only
    rw [ih, resolveOrder_snd, List.filterMap_cons]
    cases self.carried bar pending with
    | none => rfl
    | some left => rfl

variable (bar) in
/-- The orders that the bar fills are reported in their order, once each. -/
theorem resolveOrders_fst (m : SimulatorState) (orders : List PendingOrder) :
    ∃ fills : List Fill, fills.map (·.pending) = orders.filter (self.Fills bar) ∧
      self.FillsOf bar orders fills ∧ self.Priced bar m fills ∧
      (self.resolveOrders bar m orders).1 = self.applyFills m fills := by
  induction orders generalizing m with
  | nil => exact ⟨[], rfl, by simp [FillsOf], by simp [Priced], rfl⟩
  | cons pending rest ih =>
    obtain ⟨fills, order, here, priced, applied⟩ := self.resolveOrder_fst bar m pending
    obtain ⟨more, later, there, pricedLater, rested⟩ := ih (self.resolveOrder m bar pending).1
    refine ⟨fills ++ more, ?_, ?_, ?_, ?_⟩
    · rw [List.map_append, order, later, ← List.filter_append, List.singleton_append]
    · intro fill member
      rcases List.mem_append.mp member with early | late
      · obtain ⟨at_, one, size⟩ := here fill early
        exact ⟨at_, List.mem_cons.mpr (.inl (List.mem_singleton.mp one)), size⟩
      · obtain ⟨at_, other, size⟩ := there fill late
        exact ⟨at_, List.mem_cons_of_mem _ other, size⟩
    · intro fill member
      rcases List.mem_append.mp member with early | late
      · exact priced fill early
      · rw [pricedLater fill late]
        -- earlier fills of the bar leave the returns as they were
        apply self.computeFillPrice_congr
        rw [applied, applyFills_returnHistory]
    · rw [applyFills_append, ← applied]
      exact rested

end Bar

/-- The history of a bar is only its volume and its return. -/
theorem updateHistory_ok {m counted : SimulatorState} {bar : BarEvent}
    (updated : self.updateHistory m bar = .ok counted) : ∃ volumes returns,
    counted = { m with volumeHistory := volumes, returnHistory := returns } := by
  rw [updateHistory] at updated
  dsimp only at updated
  split at updated
  · cases updated
    exact ⟨_, _, rfl⟩
  · split at updated
    · split at updated
      · cases updated
      · cases updated
        exact ⟨_, _, rfl⟩
    · cases updated
      exact ⟨_, _, rfl⟩

/-- A bar resolves the orders of its symbol, on the books it finds. -/
theorem processBar_ok {m m' : SimulatorState} {bar : BarEvent}
    (processed : self.processBar m bar = .ok m') : ∃ counted : SimulatorState,
    (∃ volumes returns,
      counted = { m with volumeHistory := volumes, returnHistory := returns }) ∧
    m' = { (self.resolvePendingOrders counted bar) with
      lastBar := (self.resolvePendingOrders counted bar).lastBar.set bar.symbol bar } := by
  rw [processBar] at processed
  cases updated : self.updateHistory m bar with
  | error message =>
    rw [updated] at processed
    cases processed
  | ok counted =>
    rw [updated] at processed
    cases processed
    exact ⟨counted, self.updateHistory_ok updated, rfl⟩

/-- What a bar does to the fills and to the waiting orders. -/
structure Processed (broker : MarketSimulatorBroker) (bar : BarEvent) (m m' : SimulatorState)
    (fills : List Fill) : Prop where
  fillsOf : broker.FillsOf bar (m.pendingOrders.getD bar.symbol []) fills
  recorded : m'.fills = m.fills ++ fills.map broker.report
  elsewhere : ∀ symbol ≠ bar.symbol,
    m'.pendingOrders.getD symbol [] = m.pendingOrders.getD symbol []
  carried : ∀ left ∈ m'.pendingOrders.getD bar.symbol [],
    ∃ pending ∈ m.pendingOrders.getD bar.symbol [], left.request = pending.request

theorem processBar_fills {m m' : SimulatorState} {bar : BarEvent}
    (processed : self.processBar m bar = .ok m') : ∃ fills, self.Processed bar m m' fills := by
  obtain ⟨counted, ⟨volumes, returns, rfl⟩, rfl⟩ := self.processBar_ok processed
  obtain ⟨fills, -, fillsOf, -, applied⟩ := self.resolveOrders_fst bar
    { m with volumeHistory := volumes, returnHistory := returns }
    (m.pendingOrders.getD bar.symbol [])
  refine ⟨fills, fillsOf, ?_, ?_, ?_⟩
  · simp only [resolvePendingOrders, applied, applyFills_fills]
  · intro symbol other
    simp only [resolvePendingOrders, applied, applyFills_pendingOrders]
    simp only [Dict.getD]
    rw [Dict.get?_set_ne _ _ other]
  · intro left member
    have kept : left ∈ (m.pendingOrders.getD bar.symbol []).filterMap (self.carried bar) := by
      rw [← self.resolveOrders_snd]
      simpa [resolvePendingOrders, Dict.getD] using member
    obtain ⟨pending, listed, carried⟩ := List.mem_filterMap.mp kept
    exact ⟨pending, listed, (self.carried_some carried).1⟩

end MarketSimulatorBroker

end Binbot
