import Binbot.Properties.TrackerAgreement
import Mathlib.Data.List.ReduceOption

/-!
# The record of a round trip

The tracker keeps averages and realized profit up to date fill by fill. However the two legs
of a round trip are cut into fills, and whatever other symbols do in between, the record comes
out in closed form.
-/
namespace Binbot

open Data

namespace TradeTracker

/-! ### One symbol by itself -/

/-- What an event of its symbol makes of a trade, and the trade that it closes. -/
def react (multiplier : ℚ) :
    Option OpenTrade → ExecutionEvent → Option OpenTrade × Option ClosedTrade
  | none, event => (if event.signedFill = 0 then none else some (opened event), none)
  | some trade, event =>
    if event.signedFill > 0 ↔ trade.signed > 0 then (some (extended trade event), none)
    else
      let left := reduced multiplier trade event
      if left.quantity > 0 then (some left, none)
      else (none, some (record event.symbol left event))

def reactAll (multiplier : ℚ) :
    Option OpenTrade → List ExecutionEvent → Option OpenTrade × List (Option ClosedTrade)
  | trade, [] => (trade, [])
  | trade, event :: rest =>
    let now := react multiplier trade event
    let later := reactAll multiplier now.1 rest
    (later.1, now.2 :: later.2)

section One

variable (multiplier : ℚ)

theorem reactAll_append (trade : Option OpenTrade) (events more : List ExecutionEvent) :
    reactAll multiplier trade (events ++ more) =
      ((reactAll multiplier (reactAll multiplier trade events).1 more).1,
        (reactAll multiplier trade events).2 ++
          (reactAll multiplier (reactAll multiplier trade events).1 more).2) := by
  induction events generalizing trade with
  | nil => rfl
  | cons event rest ih => simp only [List.cons_append, reactAll, ih]

/-- An event moves the trade of its own symbol only. -/
theorem onExecution_react (self : TradeTracker) (event : ExecutionEvent) :
    (self.onExecution multiplier event).2 =
        (react multiplier (self.openTrades.get? event.symbol) event).2 ∧
      (self.onExecution multiplier event).1.closedTrades =
        self.closedTrades ++
          (react multiplier (self.openTrades.get? event.symbol) event).2.toList ∧
      ∀ symbol, (self.onExecution multiplier event).1.openTrades.get? symbol =
        if symbol = event.symbol then
          (react multiplier (self.openTrades.get? event.symbol) event).1
        else self.openTrades.get? symbol := by
  have same : ∀ symbol, self.openTrades.get? symbol =
      if symbol = event.symbol then self.openTrades.get? event.symbol
      else self.openTrades.get? symbol := by
    intro symbol
    split
    next here => rw [here]
    next => rfl
  rw [onExecution]
  cases present : self.openTrades.get? event.symbol with
  | none =>
    by_cases none : event.signedFill = 0
    · rw [present] at same
      simpa [react, none] using same
    · simp [react, none, Dict.get?_set]
  | some trade =>
    by_cases direction : event.signedFill > 0 ↔ trade.signed > 0
    · simp [react, direction, Dict.get?_set]
    · by_cases left : (reduced multiplier trade event).quantity > 0
      · simp [react, direction, left, Dict.get?_set]
      · simp [react, direction, left, Dict.get?_erase]

end One

/-! ### All symbols -/

variable (multiplier : Symbol → ℚ)

/-- The tracker after some events. -/
def fed (self : TradeTracker) (events : List ExecutionEvent) : TradeTracker :=
  events.foldl (fun tracker event => (tracker.onExecution (multiplier event.symbol) event).1) self

/-- What each event returns. -/
def results : TradeTracker → List ExecutionEvent → List (ExecutionEvent × Option ClosedTrade)
  | _, [] => []
  | self, event :: rest =>
    let after := self.onExecution (multiplier event.symbol) event
    (event, after.2) :: results after.1 rest

/-- The closed trades of one symbol. -/
def closedIn (self : TradeTracker) (symbol : Symbol) : List ClosedTrade :=
  self.closedTrades.filter (·.symbol = symbol)

/-- The events of one symbol, and what they return. -/
def ownResults (self : TradeTracker) (symbol : Symbol) (events : List ExecutionEvent) :
    List (Option ClosedTrade) :=
  ((self.results multiplier events).filter (·.1.symbol = symbol)).map (·.2)

theorem react_symbol {multiplier : ℚ} {trade : Option OpenTrade} {event : ExecutionEvent}
    {closed : ClosedTrade} (some_ : closed ∈ (react multiplier trade event).2) : closed.symbol = event.symbol := by
  cases trade with
  | none => cases some_
  | some trade =>
    rw [react] at some_
    split at some_
    · cases some_
    · dsimp only at some_
      split at some_
      · cases some_
      · cases some_
        rfl

/-- A symbol's events, whatever comes between them, do what they do by themselves. -/
theorem own_reactAll (self : TradeTracker) (symbol : Symbol) (events : List ExecutionEvent) :
    let alone := reactAll (multiplier symbol) (self.openTrades.get? symbol)
      (events.filter (·.symbol = symbol))
    (self.fed multiplier events).openTrades.get? symbol = alone.1 ∧
      self.ownResults multiplier symbol events = alone.2 ∧
      (self.fed multiplier events).closedIn symbol =
        self.closedIn symbol ++ alone.2.reduceOption := by
  -- the tracker after the first event has the symbol's trade as `react` leaves it
  induction events generalizing self with
  | nil => exact ⟨rfl, rfl, (List.append_nil _).symm⟩
  | cons event rest ih =>
    obtain ⟨result, closed, trades⟩ := onExecution_react (multiplier event.symbol) self event
    obtain ⟨open_, results, records⟩ := ih (self.onExecution (multiplier event.symbol) event).1
    rw [trades symbol] at open_ results records
    rw [ownResults] at results
    have recorded : (self.onExecution (multiplier event.symbol) event).1.closedIn symbol =
        self.closedIn symbol ++ if symbol = event.symbol then
          (react (multiplier event.symbol) (self.openTrades.get? event.symbol) event).2.toList
        else [] := by
      rw [closedIn, closed, List.filter_append, closedIn]
      congr 1
      cases made :
          (react (multiplier event.symbol) (self.openTrades.get? event.symbol) event).2 with
      | none => simp
      | some trade =>
        have named := react_symbol made
        by_cases here : symbol = event.symbol
        · simp [here, named]
        · simp [here, named, Ne.symm here]
    by_cases here : symbol = event.symbol
    · subst here
      simp only [if_true] at open_ results records recorded
      rw [List.filter_cons_of_pos (by simp)]
      refine ⟨open_, ?_, ?_⟩
      · simp [ownResults, TradeTracker.results, reactAll, result, results]
      · rw [fed, List.foldl_cons]
        refine records.trans ?_
        rw [recorded, reactAll, List.append_assoc]
        congr 1
        cases (react (multiplier event.symbol) (self.openTrades.get? event.symbol) event).2 <;> rfl
    · rw [if_neg here] at open_ results records recorded
      rw [List.append_nil] at recorded
      rw [List.filter_cons_of_neg (by simpa using Ne.symm here)]
      refine ⟨open_, ?_, ?_⟩
      · simp [ownResults, TradeTracker.results, Ne.symm here, results]
      · rw [← recorded]
        exact records

/-! ### Two legs -/

/-- Fills on one side, and then fills on the other side that add up to the same quantity. A
closing fill may be empty, unless it is the last one. -/
structure RoundTrip (side : OrderSide) (opens closes : List ExecutionEvent) : Prop where
  begins : opens ≠ []
  opening : ∀ fill ∈ opens, fill.side = side ∧ 0 < fill.fillQuantity
  closing : ∀ fill ∈ closes, fill.side = side.opposite ∧ 0 ≤ fill.fillQuantity
  last : ∀ fill ∈ closes.getLast?, 0 < fill.fillQuantity
  whole : totalFilled closes = totalFilled opens

/-- The record in closed form. -/
def closedForm (multiplier : ℚ) (symbol : Symbol) (side : OrderSide)
    (opens closes : List ExecutionEvent) : ClosedTrade where
  symbol := symbol
  side := side
  entryTs := (opens.head?.map (·.ts)).getD 0
  exitTs := (closes.getLast?.map (·.ts)).getD 0
  quantity := totalFilled opens
  entryPrice := totalNotional opens / totalFilled opens
  exitPrice := totalNotional closes / totalFilled closes
  pnl := side.sign * (totalNotional closes / totalFilled closes -
      totalNotional opens / totalFilled opens) * totalFilled opens * multiplier -
    totalCommission opens - totalCommission closes

/-- The trade after the opening fills and some of the closing ones. -/
structure Running (multiplier : ℚ) (side : OrderSide) (opens closes : List ExecutionEvent)
    (trade : OpenTrade) : Prop where
  entryTs : opens.head?.map (·.ts) = some trade.entryTs
  faces : trade.side = side
  quantity : trade.quantity = totalFilled opens - totalFilled closes
  entry : trade.avgEntryPrice * totalFilled opens = totalNotional opens
  exitNotional : trade.exitNotional = totalNotional closes
  exitQuantity : trade.exitQuantity = totalFilled closes
  pnl : trade.realizedPnl =
    side.sign * (totalNotional closes - trade.avgEntryPrice * totalFilled closes) * multiplier -
      totalCommission opens - totalCommission closes

section Legs

variable {multiplier : ℚ} {side : OrderSide} {opens closes : List ExecutionEvent}
  {trade : OpenTrade} {fill : ExecutionEvent}

theorem abs_signedFill (size : 0 ≤ fill.fillQuantity) : |fill.signedFill| = fill.fillQuantity := by
  rw [ExecutionEvent.signedFill]
  cases fill.side <;> simp [OrderSide.sign, abs_of_nonneg size]

theorem signedFill_pos_iff (size : 0 < fill.fillQuantity) :
    fill.signedFill > 0 ↔ fill.side = .buy := by
  rw [ExecutionEvent.signedFill]
  cases fill.side <;> simp [OrderSide.sign, size, size.le]

/-- The first fill opens the trade. -/
theorem running_opened (multiplier : ℚ) (own : fill.side = side) (size : 0 < fill.fillQuantity) :
    react multiplier none fill = (some (opened fill), none) ∧
      Running multiplier side [fill] [] (opened fill) := by
  have moves : fill.signedFill ≠ 0 := by
    rw [← abs_pos, abs_signedFill size.le]
    exact size
  refine ⟨by rw [react, if_neg moves], ?_⟩
  constructor
  · rfl
  · rw [← own, opened]
    have direction := signedFill_pos_iff size
    cases given : fill.side with
    | buy => exact if_pos (direction.mpr given)
    | sell => exact if_neg (fun bought => by simp [given] at direction; omega)
  · simp [opened, abs_signedFill size.le, totalFilled]
  · simp [opened, totalFilled, totalNotional]
  · rfl
  · rfl
  · simp [opened, totalFilled, totalNotional, totalCommission]

theorem Running.signed_pos_iff (running : Running multiplier side opens closes trade)
    (some_ : 0 < trade.quantity) : trade.signed > 0 ↔ side = .buy := by
  rw [← running.faces]
  exact OpenTrade.signed_pos_iff some_

/-- Another opening fill extends it. -/
theorem Running.opening (running : Running multiplier side opens [] trade)
    (held : 0 < totalFilled opens) (own : fill.side = side) (size : 0 < fill.fillQuantity) :
    react multiplier (some trade) fill = (some (extended trade fill), none) ∧
      Running multiplier side (opens ++ [fill]) [] (extended trade fill) := by
  have quantity : trade.quantity = totalFilled opens := by
    rw [running.quantity]
    exact sub_zero _
  have same : fill.signedFill > 0 ↔ trade.signed > 0 := by
    rw [signedFill_pos_iff size, running.signed_pos_iff (quantity ▸ held), own]
  refine ⟨by rw [react, if_pos same], ?_⟩
  have total : ((totalFilled opens + fill.fillQuantity : ℤ) : ℚ) ≠ 0 := by
    exact_mod_cast (by omega)
  constructor
  · rw [List.head?_append, Option.map_or, running.entryTs]
    rfl
  · exact running.faces
  · rw [extended, abs_signedFill size.le, quantity, totalFilled_concat]
    exact (sub_zero _).symm
  · simp only [extended, abs_signedFill size.le, quantity, totalFilled_concat,
      totalNotional_concat]
    rw [div_mul_cancel₀ _ total, running.entry]
  · exact running.exitNotional
  · exact running.exitQuantity
  · rw [extended, running.pnl, totalCommission_concat]
    simp [totalNotional, totalFilled]
    ring

/-- A closing fill of less than what is held leaves the trade open. -/
theorem Running.closing (running : Running multiplier side opens closes trade)
    (own : fill.side = side.opposite) (size : 0 ≤ fill.fillQuantity)
    (part : fill.fillQuantity < trade.quantity) :
    ∃ left, react multiplier (some trade) fill = (some left, none) ∧
      Running multiplier side opens (closes ++ [fill]) left := by
  have held : 0 < trade.quantity := by omega
  have direction := running.signed_pos_iff held
  have absolute := abs_signedFill size
  by_cases same : fill.signedFill > 0 ↔ trade.signed > 0
  · -- an empty fill counts as one of the same side where that is the selling side
    have none : fill.fillQuantity = 0 := by
      by_contra some_
      rw [signedFill_pos_iff (by omega), direction, own] at same
      cases side <;> simp [OrderSide.opposite] at same
    have positive : (trade.quantity : ℚ) ≠ 0 := by exact_mod_cast held.ne'
    refine ⟨extended trade fill, by rw [react, if_pos same], ?_⟩
    have average : (extended trade fill).avgEntryPrice = trade.avgEntryPrice := by
      simp only [extended, absolute, none, Int.cast_zero, mul_zero, add_zero]
      rw [mul_div_cancel_right₀ _ positive]
    constructor
    · exact running.entryTs
    · exact running.faces
    · rw [totalFilled_concat, none, add_zero, ← running.quantity]
      simp [extended, absolute, none]
    · rw [average]
      exact running.entry
    · rw [totalNotional_concat, none, Int.cast_zero, mul_zero, add_zero]
      exact running.exitNotional
    · rw [totalFilled_concat, none, add_zero]
      exact running.exitQuantity
    · rw [average, totalNotional_concat, totalFilled_concat, totalCommission_concat, none]
      simp only [extended, running.pnl, Int.cast_zero, mul_zero, add_zero]
      ring
  · have whole : min fill.fillQuantity trade.quantity = fill.fillQuantity := min_eq_left part.le
    refine ⟨reduced multiplier trade fill, ?_, ?_⟩
    · rw [react, if_neg same]
      dsimp only
      rw [if_pos]
      simp only [reduced, absolute, whole]
      omega
    · constructor
      · exact running.entryTs
      · exact running.faces
      · simp only [reduced, absolute, whole, totalFilled_concat]
        rw [running.quantity]
        ring
      · exact running.entry
      · simp only [reduced, absolute, whole, totalNotional_concat, running.exitNotional]
      · simp only [reduced, absolute, whole, totalFilled_concat, running.exitQuantity]
      · simp only [reduced, absolute, whole, totalNotional_concat, totalFilled_concat,
          totalCommission_concat, running.pnl, running.faces]
        push_cast
        ring

/-- The fill that closes the rest makes the record. -/
theorem Running.finished (running : Running multiplier side opens closes trade)
    (some_ : 0 < totalFilled opens) (own : fill.side = side.opposite)
    (rest : fill.fillQuantity = trade.quantity) (held : 0 < trade.quantity) :
    react multiplier (some trade) fill =
      (none, some (closedForm multiplier fill.symbol side opens (closes ++ [fill]))) := by
  have size : 0 < fill.fillQuantity := by omega
  have absolute := abs_signedFill size.le
  have against : ¬ (fill.signedFill > 0 ↔ trade.signed > 0) := by
    rw [signedFill_pos_iff size, running.signed_pos_iff held, own]
    cases side <;> simp [OrderSide.opposite]
  have all : totalFilled (closes ++ [fill]) = totalFilled opens := by
    rw [totalFilled_concat, rest, running.quantity]
    ring
  have total : (totalFilled opens : ℚ) ≠ 0 := by exact_mod_cast some_.ne'
  have average : trade.avgEntryPrice = totalNotional opens / totalFilled opens := by
    rw [eq_div_iff total]
    exact running.entry
  have left : (reduced multiplier trade fill).quantity = 0 := by
    simp only [reduced, absolute, rest, min_self]
    ring
  have notional : (reduced multiplier trade fill).exitNotional =
      totalNotional (closes ++ [fill]) := by
    simp only [reduced, absolute, rest, min_self, totalNotional_concat, running.exitNotional]
  have quantity : (reduced multiplier trade fill).exitQuantity = totalFilled opens := by
    rw [← all]
    simp only [reduced, absolute, rest, min_self, totalFilled_concat, running.exitQuantity]
  have pnl : (reduced multiplier trade fill).realizedPnl =
      side.sign * (totalNotional (closes ++ [fill]) / totalFilled opens -
        totalNotional opens / totalFilled opens) * totalFilled opens * multiplier -
          totalCommission opens - totalCommission (closes ++ [fill]) := by
    have realized : (reduced multiplier trade fill).realizedPnl =
        side.sign * (totalNotional (closes ++ [fill]) -
          trade.avgEntryPrice * totalFilled (closes ++ [fill])) * multiplier -
            totalCommission opens - totalCommission (closes ++ [fill]) := by
      simp only [reduced, absolute, ← rest, min_self, totalNotional_concat, totalFilled_concat,
        totalCommission_concat, running.pnl, running.faces]
      push_cast
      ring
    -- the entry price times the quantity is the notional that the opening fills have paid
    rw [realized, all, average]
    field_simp
  have start := running.entryTs
  rw [react, if_neg against]
  dsimp only
  rw [if_neg (by omega)]
  simp only [record, closedForm, all, notional, quantity, pnl, Prod.mk.injEq, true_and,
    Option.some.injEq, ClosedTrade.mk.injEq]
  refine ⟨running.faces, ?_, ?_, average, ?_⟩
  · rw [start]
    rfl
  · rw [List.getLast?_concat]
    rfl
  · exact ⟨if_neg some_.ne', trivial⟩

end Legs

section Trip

variable {multiplier : ℚ} {side : OrderSide} {opens closes : List ExecutionEvent}

theorem opening_leg (multiplier : ℚ) (begins : opens ≠ [])
    (opening : ∀ fill ∈ opens, fill.side = side ∧ 0 < fill.fillQuantity) :
    ∃ trade, reactAll multiplier none opens = (some trade, List.replicate opens.length none) ∧
      Running multiplier side opens [] trade ∧ 0 < totalFilled opens := by
  induction opens using List.reverseRecOn with
  | nil => exact absurd rfl begins
  | append_singleton before fill ih =>
    rw [List.forall_mem_append, List.forall_mem_singleton] at opening
    obtain ⟨earlier, own, size⟩ := opening
    by_cases first : before = []
    · -- the first fill opens the trade, any other extends it
      subst first
      obtain ⟨opened, running⟩ := running_opened multiplier own size
      exact ⟨_, by simp [reactAll, opened], running, by simpa [totalFilled] using size⟩
    · obtain ⟨trade, reached, running, held⟩ := ih first earlier
      obtain ⟨extended, later⟩ := running.opening held own size
      refine ⟨_, ?_, later, ?_⟩
      · rw [reactAll_append, reached]
        simp [reactAll, extended, List.replicate_succ']
      · rw [totalFilled_concat]
        omega

/-- Closing fills of less than the whole. -/
theorem closing_leg {trade : OpenTrade} (running : Running multiplier side opens [] trade)
    (closing : ∀ fill ∈ closes, fill.side = side.opposite ∧ 0 ≤ fill.fillQuantity)
    (part : totalFilled closes < totalFilled opens) :
    ∃ left, reactAll multiplier (some trade) closes =
        (some left, List.replicate closes.length none) ∧
      Running multiplier side opens closes left := by
  induction closes using List.reverseRecOn with
  | nil => exact ⟨trade, rfl, running⟩
  | append_singleton before fill ih =>
    rw [List.forall_mem_append, List.forall_mem_singleton] at closing
    obtain ⟨earlier, own, size⟩ := closing
    rw [totalFilled_concat] at part
    obtain ⟨left, reached, closed⟩ := ih earlier (by omega)
    obtain ⟨less, reacted, later⟩ := closed.closing own size (by rw [closed.quantity]; omega)
    refine ⟨less, ?_, later⟩
    rw [reactAll_append, reached]
    simp [reactAll, reacted, List.replicate_succ']

/-- The whole round trip: nothing is recorded before the last fill, which records it. -/
theorem RoundTrip.reactAll (trip : RoundTrip side opens closes) {symbol : Symbol}
    (named : ∀ fill ∈ closes, fill.symbol = symbol) :
    reactAll multiplier none (opens ++ closes) =
      (none, List.replicate (opens.length + closes.length - 1) none ++
        [some (closedForm multiplier symbol side opens closes)]) := by
  obtain ⟨trade, opened, running, held⟩ := opening_leg multiplier trip.begins trip.opening
  cases closes using List.reverseRecOn with
  | nil =>
    -- what has been opened has to be closed
    have none := trip.whole
    simp [totalFilled] at none held
    omega
  | append_singleton before fill =>
    have size : 0 < fill.fillQuantity := trip.last fill (by simp)
    have closing := trip.closing
    rw [List.forall_mem_append, List.forall_mem_singleton] at closing
    obtain ⟨earlier, own, -⟩ := closing
    have whole := trip.whole
    rw [totalFilled_concat] at whole
    obtain ⟨left, reached, closed⟩ := closing_leg running earlier (by omega)
    have rest : fill.fillQuantity = left.quantity := by
      rw [closed.quantity]
      omega
    have finished := closed.finished held own rest (by omega)
    rw [named fill (by simp)] at finished
    rw [← List.append_assoc, reactAll_append, reactAll_append, opened, reached]
    simp only [TradeTracker.reactAll, finished]
    rw [← List.replicate_add]
    congr 2
    simp

end Trip

/-- A round trip in a flat symbol, with any fills of other symbols in between, makes exactly one
record of that symbol, at its last fill and in closed form. -/
theorem round_trip_recorded (self : TradeTracker) {symbol : Symbol} {side : OrderSide}
    {events opens closes : List ExecutionEvent} (flat : self.openTrades.get? symbol = none)
    (own : events.filter (·.symbol = symbol) = opens ++ closes)
    (trip : RoundTrip side opens closes) :
    let made := closedForm (multiplier symbol) symbol side opens closes
    self.ownResults multiplier symbol events =
        List.replicate (opens.length + closes.length - 1) none ++ [some made] ∧
      (self.fed multiplier events).closedIn symbol = self.closedIn symbol ++ [made] ∧
      (self.fed multiplier events).openTrades.get? symbol = none := by
  have named : ∀ fill ∈ closes, fill.symbol = symbol := by
    intro fill member
    have there : fill ∈ events.filter (·.symbol = symbol) := by
      rw [own]
      exact List.mem_append_right opens member
    simpa using (List.mem_filter.mp there).2
  obtain ⟨left, returned, recorded⟩ := self.own_reactAll multiplier symbol events
  rw [flat, own, trip.reactAll named] at left returned recorded
  refine ⟨returned, ?_, left⟩
  dsimp only at recorded
  rw [recorded, List.reduceOption_append, List.reduceOption_replicate_none]
  rfl

/-- A sale in two parts that is bought back in two. -/
def soldBack : List ExecutionEvent × List ExecutionEvent :=
  ([⟨1, .hex 1, "ES", .sell, 2, 110, 2, 1, 3, .unknown, none⟩,
    ⟨3, .hex 1, "ES", .sell, 1, 107, 3, 0, 2, .unknown, none⟩],
   [⟨4, .hex 3, "ES", .buy, 1, 100, 1, 2, 1, .unknown, none⟩,
    ⟨5, .hex 3, "ES", .buy, 2, 103, 3, 0, 1, .unknown, none⟩])

/-- The same with a fill of another symbol in between. -/
def soldBackAmong : List ExecutionEvent :=
  soldBack.1 ++ ⟨3, .hex 2, "NQ", .buy, 1, 50, 1, 0, 1, .unknown, none⟩ :: soldBack.2

theorem soldBack_recorded :
    (fed (fun _ => 2) ⟨.empty, []⟩ soldBackAmong).closedIn "ES" =
      [⟨"ES", .sell, 1, 5, 3, 109, 102, 35⟩] := by
  have own : soldBackAmong.filter (·.symbol = "ES") = soldBack.1 ++ soldBack.2 := by decide
  have trip : RoundTrip .sell soldBack.1 soldBack.2 :=
    ⟨by decide, by decide, by decide, by decide, by decide⟩
  rw [(round_trip_recorded (fun _ => 2) ⟨.empty, []⟩ rfl own trip).2.1]
  decide +kernel

end TradeTracker

end Binbot
