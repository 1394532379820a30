import Binbot.Properties.StopCeiling

/-!
# The price of a native stop

Of all ticks there is one at which the loss is at most the amount, and would be above it one
tick further. The adapter sends a stop at that tick, or none if it is not positive.
-/
namespace Binbot

open Async Data

/-- At this price on the ticks the quantity loses at most the amount, and within a tick of it. -/
structure SymbolFilters.Tight (f : SymbolFilters) (isLong : Bool) (entryPrice quantity : ℚ)
    (maxLossUsdt price : ℚ) : Prop where
  on_tick : ∃ n : ℤ, price = n * f.tickSize
  at_most : (if isLong then entryPrice - price else price - entryPrice) * quantity ≤ maxLossUsdt
  within : maxLossUsdt - f.tickSize * quantity <
    (if isLong then entryPrice - price else price - entryPrice) * quantity

namespace SymbolFilters

variable {f : SymbolFilters} {isLong : Bool} {entryPrice maxLossUsdt price : ℚ} {quantityLots : ℤ}

/-- A tick further from the entry the loss is larger by the tick. -/
theorem lossAt_further (n : ℤ) :
    f.lossAt isLong entryPrice quantityLots
        (((if isLong then n - 1 else n + 1 : ℤ) : ℚ) * f.tickSize) =
      f.lossAt isLong entryPrice quantityLots (n * f.tickSize) +
        f.tickSize * (quantityLots * f.stepSize) := by
  rw [lossAt, lossAt]
  cases isLong with
  | true =>
    simp only [if_true]
    push_cast
    ring
  | false =>
    simp only [Bool.false_eq_true, if_false]
    push_cast
    ring

/-- The price that the amount asks for is the only tight one. -/
theorem tight_iff (tick_pos : 0 < f.tickSize) (regular : f.Regular) (lots_pos : 0 < quantityLots) :
    f.Tight isLong entryPrice (f.lotsToQuantity quantityLots) maxLossUsdt price ↔
      price = f.ticks isLong entryPrice quantityLots maxLossUsdt * f.tickSize := by
  have bound (n : ℤ) :
      f.lossAt isLong entryPrice quantityLots (n * f.tickSize) ≤ maxLossUsdt ↔
        if isLong then f.ticks isLong entryPrice quantityLots maxLossUsdt ≤ n
        else n ≤ f.ticks isLong entryPrice quantityLots maxLossUsdt :=
    lossAt_le_iff tick_pos regular.step_pos lots_pos n
  have tight (n : ℤ) : f.Tight isLong entryPrice (f.lotsToQuantity quantityLots) maxLossUsdt
      (n * f.tickSize) ↔ n = f.ticks isLong entryPrice quantityLots maxLossUsdt := by
    -- the loss passes the amount from this tick to the next one away from the entry
    have further := bound (if isLong then n - 1 else n + 1)
    rw [lossAt_further] at further
    have loss : (if isLong then entryPrice - n * f.tickSize else n * f.tickSize - entryPrice) *
        f.lotsToQuantity quantityLots =
          f.lossAt isLong entryPrice quantityLots (n * f.tickSize) := by
      rw [lossAt, regular.lotsToQuantity_eq]
    have here := bound n
    constructor
    · rintro ⟨-, at_most, within⟩
      rw [loss] at at_most within
      rw [regular.lotsToQuantity_eq] at within
      have beyond : ¬ f.lossAt isLong entryPrice quantityLots (n * f.tickSize) +
          f.tickSize * (quantityLots * f.stepSize) ≤ maxLossUsdt := by linarith
      rw [further] at beyond
      have reached := here.mp at_most
      cases isLong with
      | true => simp only [if_true] at beyond reached; omega
      | false => simp only [Bool.false_eq_true, if_false] at beyond reached; omega
    · rintro same
      refine ⟨⟨n, rfl⟩, ?_, ?_⟩
      · rw [loss, here]
        cases isLong with
        | true => simp only [if_true]; omega
        | false => simp only [Bool.false_eq_true, if_false]; omega
      · rw [loss, regular.lotsToQuantity_eq, sub_lt_iff_lt_add, ← not_le, further]
        cases isLong with
        | true => simp only [if_true]; omega
        | false => simp only [Bool.false_eq_true, if_false]; omega
  constructor
  · intro holds
    obtain ⟨n, rfl⟩ := holds.on_tick
    rw [(tight n).mp holds]
  · rintro rfl
    exact (tight _).mpr rfl

end SymbolFilters

namespace BinanceFuturesBroker

/-- What is asked of the exchange, whatever it answers. -/
def recording (answers : List WireReq → (q : WireReq) → Answer wireSig q) (asked : List WireReq)
    (q : WireReq) : Answer wireSig q × List WireReq :=
  (answers asked q, asked ++ [q])

/-- The order of a stop. -/
def stopRequest (symbol : Symbol) (isLong : Bool) (price : ℚ) (clock : Timestamp) : WireReq :=
  .createOrder
    { symbol := symbol
      side := if isLong then .sell else .buy
      order := .closePosition price
      newClientOrderId := .native symbol (clock / 1000) }

/-- All that `place_stop_loss` asks of the exchange is a stop at the adapter's price, if that is
positive. -/
theorem placeStopLoss_asks {m : BrokerState} {symbol : Symbol} {f : SymbolFilters}
    (loaded : m.filters.get? symbol = some f) (isLong : Bool) (entryPrice : ℚ) {quantityLots : ℤ}
    (lots_pos : 0 < quantityLots) (quantity_pos : 0 < f.lotsToQuantity quantityLots)
    (maxLossUsdt : ℚ) (clock : Timestamp)
    (answers : List WireReq → (q : WireReq) → Answer wireSig q) :
    (((StopOutside.adapter clock).placeStopLoss symbol isLong entryPrice quantityLots
      maxLossUsdt).exec (recording answers) [] m).outside =
    let price := stopPrice f isLong entryPrice (f.lotsToQuantity quantityLots) maxLossUsdt
    if 0 < price then [stopRequest symbol isLong price clock] else [] := by
  simp only [placeStopLoss, Coro.exec_bind, Coro.exec_view, Coro.Outcome.andThen_ok,
    Part.whole_view, loaded]
  rw [if_neg (by rw [not_or, not_le, not_le]; exact ⟨lots_pos, quantity_pos⟩)]
  generalize stopPrice f isLong entryPrice (f.lotsToQuantity quantityLots) maxLossUsdt = price
  by_cases positive : 0 < price
  · rw [if_neg (not_le.mpr positive), if_pos positive, stopRequest]
    simp only [StopOutside.adapter, wireClient, Coro.exec_bind, Coro.exec_pure,
      Coro.Outcome.andThen_ok, Coro.exec_tryCatch, Coro.exec_request, recording]
    generalize answers [] (.createOrder ⟨symbol, if isLong then .sell else .buy,
      .closePosition price, .native symbol (clock / 1000)⟩) = reply
    cases reply with
    | ok id => rfl
    | error e => rfl
  · rw [if_pos (not_lt.mp positive), if_neg positive]
    rfl

/-- There is one tight price. A stop is sent at that price if it is positive, and otherwise
none is. -/
theorem stop_price_tight {m : BrokerState} {symbol : Symbol} {f : SymbolFilters}
    (loaded : m.filters.get? symbol = some f) (ticked : f.Ticked) (regular : f.Regular)
    (isLong : Bool) (entryPrice : ℚ) {quantityLots : ℤ} (lots_pos : 0 < quantityLots)
    (maxLossUsdt : ℚ) (clock : Timestamp)
    (answers : List WireReq → (q : WireReq) → Answer wireSig q) :
    ∃ price, (∀ other, f.Tight isLong entryPrice (f.lotsToQuantity quantityLots) maxLossUsdt other ↔
        other = price) ∧
      (((StopOutside.adapter clock).placeStopLoss symbol isLong entryPrice quantityLots
        maxLossUsdt).exec (recording answers) [] m).outside =
        if 0 < price then [stopRequest symbol isLong price clock] else [] := by
  refine ⟨f.ticks isLong entryPrice quantityLots maxLossUsdt * f.tickSize,
    fun other => SymbolFilters.tight_iff ticked.tick_pos regular lots_pos, ?_⟩
  have quantity_pos : 0 < f.lotsToQuantity quantityLots := by
    rw [regular.lotsToQuantity_eq]
    exact mul_pos (Int.cast_pos.mpr lots_pos) regular.step_pos
  rw [placeStopLoss_asks loaded isLong entryPrice lots_pos quantity_pos maxLossUsdt clock answers,
    ticked.stopPrice_eq regular]

/-- The filters of `BTCUSDT` in the adapter's tests. -/
def btcFilters : SymbolFilters := ⟨"BTCUSDT", 1 / 10, 1 / 1000, 1 / 1000, 5, 3, 1⟩

def btcLoaded : BrokerState := { filters := .ofList [("BTCUSDT", btcFilters)] }

/-- A long of 15 lots at 65000 may lose 200: the stop is at the first tick above 51666.67. -/
theorem btc_stop_price :
    (((StopOutside.adapter 0).placeStopLoss "BTCUSDT" true 65000 15 200).exec
      (recording fun _ _ => .error "refused") [] btcLoaded).outside =
      [stopRequest "BTCUSDT" true (516667 / 10) 0] := by
  have loaded : btcLoaded.filters.get? "BTCUSDT" = some btcFilters := rfl
  have lots_pos : (0 : ℤ) < 15 := by decide
  obtain ⟨price, tight, sent⟩ := stop_price_tight loaded (by decide +kernel)
    ⟨by decide +kernel, 1, by decide +kernel⟩ true 65000 lots_pos 200 0 fun _ _ => .error "refused"
  have found : (516667 / 10 : ℚ) = price :=
    (tight (516667 / 10)).mp ⟨⟨516667, by decide +kernel⟩, by decide +kernel, by decide +kernel⟩
  rw [sent, ← found, if_pos (by norm_num)]

end BinanceFuturesBroker

end Binbot
