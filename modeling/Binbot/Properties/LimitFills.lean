import Binbot.Properties.LimitPrices
import Binbot.Properties.OrderConservation

/-!
# Limit fills and the limit

A limit order is filled only when its limit lies within the range of the bar. So a bar that
opens beyond the limit passes the order by, and a less aggressive order can be ahead of a more
aggressive one from then on. Otherwise the more aggressive order is never behind.
-/
namespace Binbot

open Data
open JournaledSimulator (Waits)

namespace LimitFills

section Order

variable (request : BrokerOrderRequest)

/-- The cumulative quantity filled of the order. -/
def filled (m : SimulatorState) : ℤ := totalFilled (fillsOf request.orderId m.fills)

/-- The order is in the books with some of it left. -/
def Resting (m : SimulatorState) : Prop :=
  ∃ pending ∈ m.waiting request.symbol,
    pending.request.orderId = request.orderId ∧ 0 < pending.remainingQty

/-- The bar trades at the limit or better. -/
def Marketable (bar : BarEvent) : Prop :=
  bar.symbol = request.symbol ∧
    (request.side = .buy → bar.low ≤ request.limitPrice.getD 0) ∧
    (request.side = .sell → request.limitPrice.getD 0 ≤ bar.high)

/-- The limit is no better than any price of the bar. -/
def WithinRange (bar : BarEvent) : Prop :=
  bar.low ≤ request.limitPrice.getD 0 ∧ request.limitPrice.getD 0 ≤ bar.high

instance (bar : BarEvent) : Decidable (WithinRange request bar) :=
  inferInstanceAs (Decidable (_ ∧ _))

/-- A limit order that stays in the books. -/
structure Persists : Prop where
  limited : request.Limited
  timeInForce : ¬ (request.timeInForce = .ioc ∨ request.timeInForce = .fok)

/-- The order has just been placed under an id of its own. -/
structure JustPlaced (m : SimulatorState) : Prop where
  waits : ∃ pending, Waits request (some pending) m ∧ pending.request = request ∧
    pending.remainingQty = request.quantity
  unfilled : fillsOf request.orderId m.fills = []

end Order

/-- The second order is the first one with a limit at least as aggressive. -/
structure MoreAggressive (first second : BrokerOrderRequest) : Prop where
  symbol : second.symbol = first.symbol
  side : second.side = first.side
  quantity : second.quantity = first.quantity
  buys : first.side = .buy → first.limitPrice.getD 0 ≤ second.limitPrice.getD 0
  sells : first.side = .sell → second.limitPrice.getD 0 ≤ first.limitPrice.getD 0

/-- The books of either order; they may be the same. -/
structure Books where
  first : SimulatorState
  second : SimulatorState

variable (broker : MarketSimulatorBroker)

def step (books : Books) (bar : BarEvent) : Option Books :=
  some
    { first := SimulatedDesk.processedBar broker books.first bar
      second := SimulatedDesk.processedBar broker books.second bar }

/-- After the bar the second order is not behind, and the bar has filled some of either order
that rests and is marketable. -/
structure Monotone (first second : BrokerOrderRequest) (books : Books) (bar : BarEvent) :
    Prop where
  ordered : filled first (SimulatedDesk.processedBar broker books.first bar) ≤
    filled second (SimulatedDesk.processedBar broker books.second bar)
  fillsFirst : Resting first books.first → Marketable first bar →
    filled first books.first < filled first (SimulatedDesk.processedBar broker books.first bar)
  fillsSecond : Resting second books.second → Marketable second bar →
    filled second books.second < filled second (SimulatedDesk.processedBar broker books.second bar)

/-- The bar does not pass the order by: where it rests and is marketable, the bar does not
raise, and the limit lies within its range. -/
def NotPassed (request : BrokerOrderRequest) (m : SimulatorState) (bar : BarEvent) : Prop :=
  Resting request m → Marketable request bar →
    (∃ counted, broker.updateHistory m bar = .ok counted) ∧ WithinRange request bar

/-! ### One order and one bar -/

section Bar

variable {broker} {request : BrokerOrderRequest} {own : Option PendingOrder} {m m' : SimulatorState}
  {bar : BarEvent} {fills : List Fill}

/-- What the bar fills of the order. -/
def gain (broker : MarketSimulatorBroker) (request : BrokerOrderRequest)
    (own : Option PendingOrder) (bar : BarEvent) : ℤ :=
  if bar.symbol = request.symbol then
    own.elim 0 fun pending => max 0 (broker.determineFillQuantity pending bar)
  else 0

theorem filled_bar (waits : Waits request own m) (resolved : broker.Resolved bar m m' fills) :
    filled request m' = filled request m + gain broker request own bar := by
  obtain ⟨ownFills, only, there, pendings⟩ := JournaledSimulator.fillsOf_reports resolved waits
  rw [filled, filled, resolved.recorded, fillsOf_append, totalFilled_append, only, gain]
  congr 1
  split
  next here =>
    rw [if_pos here] at pendings
    cases own with
    | none =>
      rw [List.map_eq_nil_iff.mp pendings]
      rfl
    | some pending =>
      by_cases fills_ : broker.Fills bar pending
      · rw [Option.toList_some, List.filter_cons_of_pos (by simpa using fills_)] at pendings
        obtain ⟨fill, rfl, same⟩ := List.map_eq_singleton_iff.mp pendings
        have size := (resolved.fillsOf fill (there fill (List.mem_singleton.mpr rfl))).2.2
        rw [Option.elim_some, max_eq_right fills_.le, ← same, ← size]
        simp [totalFilled, MarketSimulatorBroker.report, MarketSimulatorBroker.execution]
      · rw [Option.toList_some, List.filter_cons_of_neg (by simpa using fills_)] at pendings
        rw [List.map_eq_nil_iff.mp pendings, Option.elim_some, max_eq_left (not_lt.mp fills_)]
        rfl
  next other =>
    rw [if_neg other] at pendings
    rw [List.map_eq_nil_iff.mp pendings]
    rfl

variable (broker bar) in
/-- An order of the two limit types is filled up to its share of the volume, if the bar
touches its limit. -/
theorem determineFillQuantity_touched {pending : PendingOrder}
    (limited : pending.request.orderType = .limit ∨ pending.request.orderType = .stopLimit) :
    broker.determineFillQuantity pending bar =
      if WithinRange pending.request bar then
        min pending.remainingQty (max (truncate (bar.volume * broker.impact.maxParticipationRate)) 1)
      else 0 := by
  rw [MarketSimulatorBroker.determineFillQuantity]
  rcases limited with limit | stopLimit
  · rw [limit]
    rfl
  · rw [stopLimit]
    rfl

variable (broker bar) in
/-- An order of any other type is filled completely by any bar. -/
theorem determineFillQuantity_unlimited {pending : PendingOrder}
    (unlimited : ¬ (pending.request.orderType = .limit ∨ pending.request.orderType = .stopLimit)) :
    broker.determineFillQuantity pending bar = pending.remainingQty := by
  rw [MarketSimulatorBroker.determineFillQuantity]
  cases orderType : pending.request.orderType with
  | market => simp
  | limit => exact absurd (.inl orderType) unlimited
  | stopLimit => exact absurd (.inr orderType) unlimited
  | stop => rfl
  | marketOnClose => rfl

variable (broker bar) in
/-- Of a limit order within the range the bar fills what is left, up to its share of the
volume, and nothing of any other. -/
theorem determineFillQuantity_limited {pending : PendingOrder}
    (limited : pending.request.Limited) :
    broker.determineFillQuantity pending bar =
      if WithinRange pending.request bar then
        min pending.remainingQty
          (max (truncate (bar.volume * broker.impact.maxParticipationRate)) 1)
      else 0 :=
  determineFillQuantity_touched broker bar (.inl limited.1)

/-- The order as it is in the books. -/
structure Held (request : BrokerOrderRequest) (own : Option PendingOrder) (m : SimulatorState) :
    Prop where
  waits : Waits request own m
  left : ∀ pending ∈ own, pending.request = request ∧
    pending.remainingQty = request.quantity - filled request m
  complete : own = none → request.quantity ≤ filled request m

theorem Held.resolved (held : Held request own m) (persists : Persists request)
    (resolved : broker.Resolved bar m m' fills) : ∃ after, Held request after m' := by
  have waits := held.waits.bar resolved
  have grown := filled_bar held.waits resolved
  by_cases here : bar.symbol = request.symbol
  · rw [if_pos here] at waits
    rw [gain, if_pos here] at grown
    refine ⟨_, waits, ?_, ?_⟩
    · intro carried there
      obtain ⟨pending, held_, kept⟩ := Option.bind_eq_some_iff.mp there
      obtain ⟨same, rest, more⟩ := broker.carried_some kept
      obtain ⟨own_, left⟩ := held.left pending held_
      refine ⟨same.trans own_, ?_⟩
      rw [held_, Option.elim_some] at grown
      rw [rest] at more
      have limited : pending.request.Limited := own_ ▸ persists.limited
      have quantity := determineFillQuantity_limited broker bar limited
      split at quantity <;> omega
    · intro dropped
      cases own with
      | none =>
        have complete := held.complete rfl
        rw [Option.elim_none] at grown
        omega
      | some pending =>
        obtain ⟨own_, left⟩ := held.left pending rfl
        rw [Option.elim_some] at grown
        -- an order that persists is dropped only once it is filled completely
        by_contra part
        have part' : broker.determineFillQuantity pending bar < pending.remainingQty := by omega
        obtain ⟨carried, kept⟩ := broker.exists_carried bar part' (own_ ▸ persists.timeInForce)
        rw [Option.bind_some, kept] at dropped
        cases dropped
  · rw [if_neg here] at waits
    rw [gain, if_neg here, add_zero] at grown
    exact ⟨own, waits, by rw [grown]; exact held.left, by rw [grown]; exact held.complete⟩

theorem Held.resting_iff (held : Held request own m) :
    Resting request m ↔ ∃ pending ∈ own, 0 < pending.remainingQty := by
  have waits := held.waits request.symbol
  rw [if_pos rfl] at waits
  constructor
  · rintro ⟨pending, there, same, some_⟩
    refine ⟨pending, Option.mem_toList.mp ?_, some_⟩
    rw [← waits, List.mem_filter]
    exact ⟨there, decide_eq_true same⟩
  · rintro ⟨pending, there, some_⟩
    have member := Option.mem_toList.mpr there
    rw [← waits, List.mem_filter] at member
    exact ⟨pending, member.1, of_decide_eq_true member.2, some_⟩

/-- What a bar fills of an order, if it does not raise. -/
theorem Held.processed (broker : MarketSimulatorBroker) (held : Held request own m)
    (bar : BarEvent) (persists : Persists request) :
    (∃ after, Held request after (SimulatedDesk.processedBar broker m bar)) ∧
      (((∃ counted, broker.updateHistory m bar = .ok counted) ∧
          filled request (SimulatedDesk.processedBar broker m bar) =
            filled request m + gain broker request own bar) ∨
        (¬ ∃ counted, broker.updateHistory m bar = .ok counted) ∧
          filled request (SimulatedDesk.processedBar broker m bar) = filled request m) := by
  rcases SimulatedDesk.processedBar_cases broker m bar with
    ⟨ok, fills, resolved⟩ | ⟨raised, -, waiting, same⟩
  · exact ⟨held.resolved persists resolved, .inl ⟨ok, filled_bar held.waits resolved⟩⟩
  · have unfilled : filled request (SimulatedDesk.processedBar broker m bar) =
        filled request m := by rw [filled, same, filled]
    refine ⟨⟨own, ?_, ?_, ?_⟩, .inr ⟨raised, unfilled⟩⟩
    · intro symbol
      rw [waiting]
      exact held.waits symbol
    · rw [unfilled]
      exact held.left
    · rw [unfilled]
      exact held.complete

theorem gain_nonneg (broker : MarketSimulatorBroker) (request : BrokerOrderRequest)
    (own : Option PendingOrder) (bar : BarEvent) : 0 ≤ gain broker request own bar := by
  rw [gain]
  split
  · cases own with
    | none => exact le_refl 0
    | some pending => exact le_max_left _ _
  · exact le_refl 0

variable (broker bar) in
/-- A bar fills some of a limit order exactly when the order rests, and its limit lies within
the range of the bar. -/
theorem Held.gain_pos_iff (held : Held request own m) (limited : request.Limited) :
    0 < gain broker request own bar ↔
      bar.symbol = request.symbol ∧ Resting request m ∧ WithinRange request bar := by
  rw [gain, held.resting_iff]
  split
  next here =>
    rw [and_iff_right here]
    cases own with
    | none => simp
    | some pending =>
      obtain ⟨rfl, -⟩ := held.left pending rfl
      rw [Option.elim_some, determineFillQuantity_limited broker bar limited]
      constructor
      · intro positive
        split at positive
        next within => exact ⟨⟨pending, rfl, by omega⟩, within⟩
        next => omega
      · rintro ⟨⟨_, ⟨⟩, some_⟩, within⟩
        rw [if_pos within]
        omega
  next other => simp [other]

/-- A bar trades at the limit or better where it reaches it. -/
theorem WithinRange.marketable (within : WithinRange request bar)
    (here : bar.symbol = request.symbol) : Marketable request bar :=
  ⟨here, fun _ => within.1, fun _ => within.2⟩

/-- Where the order rests and is marketable, the bar fills some of it exactly when it does
not pass it by. -/
theorem Held.notPassed_iff (held : Held request own m) (persists : Persists request) :
    NotPassed broker request m bar ↔ (Resting request m → Marketable request bar →
      filled request m < filled request (SimulatedDesk.processedBar broker m bar)) := by
  rw [NotPassed]
  apply imp_congr_right
  intro rests
  apply imp_congr_right
  intro market
  have positive := held.gain_pos_iff broker bar persists.limited
  rw [and_iff_right market.1, and_iff_right rests] at positive
  rcases (held.processed broker bar persists).2 with ⟨ok, grown⟩ | ⟨raised, same⟩
  · rw [and_iff_right ok, ← positive, grown]
    omega
  · rw [same]
    exact ⟨fun both => absurd both.1 raised, fun less => absurd less (lt_irrefl _)⟩

end Bar

/-! ### Two orders -/

section Pair

variable {broker} {first second : BrokerOrderRequest} {books : Books} {bar : BarEvent}

/-- A bar that the first order can trade on, the second can. -/
theorem MoreAggressive.marketable (more : MoreAggressive first second)
    (market : Marketable first bar) : Marketable second bar := by
  refine ⟨market.1.trans more.symbol.symm, ?_, ?_⟩
  · intro buy
    rw [more.side] at buy
    exact (market.2.1 buy).trans (more.buys buy)
  · intro sell
    rw [more.side] at sell
    exact (more.sells sell).trans (market.2.2 sell)

/-- Both orders are in the books, and the second is not behind. -/
structure Inv (first second : BrokerOrderRequest) (books : Books) : Prop where
  heldFirst : ∃ own, Held first own books.first
  heldSecond : ∃ own, Held second own books.second
  lastBar : books.first.lastBar = books.second.lastBar
  ordered : filled first books.first ≤ filled second books.second

/-- A bar that does not pass the second order by leaves it ahead. -/
theorem Inv.ordered_bar (inv : Inv first second books) (more : MoreAggressive first second)
    (persistsFirst : Persists first) (persistsSecond : Persists second)
    (notPassed : NotPassed broker second books.second bar) :
    filled first (SimulatedDesk.processedBar broker books.first bar) ≤
      filled second (SimulatedDesk.processedBar broker books.second bar) := by
  obtain ⟨own, held⟩ := inv.heldFirst
  obtain ⟨own', held'⟩ := inv.heldSecond
  have ordered := inv.ordered
  have alike := SimulatedDesk.updateHistory_congr broker inv.lastBar bar
  rcases (held.processed broker bar persistsFirst).2 with ⟨ok, grown⟩ | ⟨raised, same⟩
  · rcases (held'.processed broker bar persistsSecond).2 with ⟨-, grown'⟩ | ⟨raised', -⟩
    · rw [grown, grown']
      have least := gain_nonneg broker second own' bar
      by_cases positive : 0 < gain broker first own bar
      · obtain ⟨here, rests, within⟩ := (held.gain_pos_iff broker bar persistsFirst.limited).mp positive
        obtain ⟨pending, rfl, some_⟩ := held.resting_iff.mp rests
        obtain ⟨rfl, left⟩ := held.left pending rfl
        have here' := here.trans more.symbol.symm
        have size := more.quantity
        rw [gain, if_pos here, Option.elim_some,
          determineFillQuantity_limited broker bar persistsFirst.limited, if_pos within]
        -- the second order is complete, or the same bar fills it up to the same share
        cases own' with
        | none =>
          have complete := held'.complete rfl
          omega
        | some pending' =>
          obtain ⟨rfl, left'⟩ := held'.left pending' rfl
          by_cases done : 0 < pending'.remainingQty
          · have within' := (notPassed (held'.resting_iff.mpr ⟨pending', rfl, done⟩)
              (more.marketable (within.marketable here))).2
            rw [gain, if_pos here', Option.elim_some,
              determineFillQuantity_limited broker bar persistsSecond.limited, if_pos within']
            omega
          · omega
      · omega
    · exact absurd (alike.mp ok) raised'
  · rcases (held'.processed broker bar persistsSecond).2 with ⟨ok', -⟩ | ⟨-, same'⟩
    · exact absurd (alike.mpr ok') raised
    · rw [same, same']
      exact ordered

theorem Inv.monotone_iff (inv : Inv first second books) (more : MoreAggressive first second)
    (persistsFirst : Persists first) (persistsSecond : Persists second) :
    (NotPassed broker first books.first bar ∧ NotPassed broker second books.second bar) ↔
      Monotone broker first second books bar := by
  obtain ⟨own, held⟩ := inv.heldFirst
  obtain ⟨own', held'⟩ := inv.heldSecond
  constructor
  · rintro ⟨notPassed, notPassed'⟩
    exact ⟨inv.ordered_bar more persistsFirst persistsSecond notPassed',
      (held.notPassed_iff persistsFirst).mp notPassed, (held'.notPassed_iff persistsSecond).mp notPassed'⟩
  · rintro ⟨-, fills, fills'⟩
    exact ⟨(held.notPassed_iff persistsFirst).mpr fills, (held'.notPassed_iff persistsSecond).mpr fills'⟩

theorem Inv.step {after : Books} (inv : Inv first second books)
    (persistsFirst : Persists first) (persistsSecond : Persists second)
    (ordered : filled first (SimulatedDesk.processedBar broker books.first bar) ≤
      filled second (SimulatedDesk.processedBar broker books.second bar))
    (moved : step broker books bar = some after) : Inv first second after := by
  obtain ⟨own, held⟩ := inv.heldFirst
  obtain ⟨own', held'⟩ := inv.heldSecond
  cases moved
  refine ⟨(held.processed broker bar persistsFirst).1, (held'.processed broker bar persistsSecond).1,
    ?_, ordered⟩
  have alike := SimulatedDesk.updateHistory_congr broker inv.lastBar bar
  dsimp only
  rw [SimulatedDesk.processedBar_lastBar, SimulatedDesk.processedBar_lastBar, inv.lastBar]
  cases counting : broker.updateHistory books.first bar with
  | ok counted =>
    obtain ⟨counted', counting'⟩ := alike.mp ⟨counted, counting⟩
    rw [counting']
  | error message =>
    cases counting' : broker.updateHistory books.second bar with
    | ok counted' =>
      obtain ⟨counted, ok⟩ := alike.mpr ⟨counted', counting'⟩
      cases ok.symm.trans counting
    | error message' => rfl

theorem JustPlaced.held {request : BrokerOrderRequest} {m : SimulatorState}
    (placed : JustPlaced request m) : ∃ own, Held request own m := by
  obtain ⟨pending, waits, own, left⟩ := placed.waits
  refine ⟨some pending, waits, ?_, by rintro ⟨⟩⟩
  rintro _ ⟨⟩
  rw [filled, placed.unfilled]
  exact ⟨own, left.trans (sub_zero _).symm⟩

end Pair

/-- An order whose id is new to the books is just placed once it is placed. -/
theorem justPlaced {request : BrokerOrderRequest} {m : SimulatorState} (new : Waits request none m)
    (unfilled : fillsOf request.orderId m.fills = []) :
    JustPlaced request (m.placeOrder request) := by
  refine ⟨⟨m.pendingOrder request, ?_, rfl, rfl⟩, unfilled⟩
  intro symbol
  have before := new symbol
  rw [SimulatorState.placeOrder_waiting]
  split
  · rw [List.filter_append, before]
    split <;> simp [SimulatorState.pendingOrder]
  next other => rw [before, if_neg other]

/-- It stays so when another order is placed. -/
theorem JustPlaced.placeOrder {request another : BrokerOrderRequest} {m : SimulatorState}
    (placed : JustPlaced request m) (other : another.orderId ≠ request.orderId) :
    JustPlaced request (m.placeOrder another) := by
  obtain ⟨pending, waits, own⟩ := placed.waits
  exact ⟨⟨pending, waits.placeOther other, own⟩, placed.unfilled⟩

/-- Two orders that persist and differ in their limits are placed at the same time. Over every
sequence of bars the more aggressive one is never behind and a marketable one is filled,
exactly when no bar passes a resting order by. -/
theorem limits_monotone (broker : MarketSimulatorBroker) (first second : BrokerOrderRequest)
    (more : MoreAggressive first second) (persistsFirst : Persists first)
    (persistsSecond : Persists second) (books : Books)
    (placedFirst : JustPlaced first books.first) (placedSecond : JustPlaced second books.second)
    (lastBar : books.first.lastBar = books.second.lastBar) (bars : List BarEvent) :
    Machine.Meets (step broker) (fun books bar =>
        NotPassed broker first books.first bar ∧ NotPassed broker second books.second bar) books bars ↔
      Machine.Meets (step broker) (Monotone broker first second) books bars := by
  apply Machine.meets_iff (Inv first second)
  · exact fun books bar after inv monotone moved =>
      inv.step persistsFirst persistsSecond monotone.ordered moved
  · exact fun books bar inv => inv.monotone_iff more persistsFirst persistsSecond
  · refine ⟨placedFirst.held, placedSecond.held, lastBar, ?_⟩
    rw [filled, filled, placedFirst.unfilled, placedSecond.unfilled]

/-- A buy of one. -/
def buyAt (n : ℕ) (limit : ℚ) : BrokerOrderRequest :=
  ⟨.hex n, "ES", .buy, 1, .limit, some limit, .gtc, none⟩

def bothPlaced : SimulatorState :=
  (({ equity := 10000 } : SimulatorState).placeOrder (buyAt 0 100)).placeOrder (buyAt 1 105)

theorem placed_buys : JustPlaced (buyAt 0 100) bothPlaced ∧ JustPlaced (buyAt 1 105) bothPlaced := by
  have new (request : BrokerOrderRequest) :
      Waits request none ({ equity := 10000 } : SimulatorState) := by
    intro symbol
    split <;> rfl
  refine ⟨(justPlaced (new _) rfl).placeOrder (by decide), justPlaced ?_ rfl⟩
  intro symbol
  rw [SimulatorState.placeOrder_waiting]
  split
  · split <;> rfl
  · split <;> rfl

theorem wide_bar_monotone :
    Machine.Meets (step SimulatorLedger.desk) (Monotone SimulatorLedger.desk (buyAt 0 100)
      (buyAt 1 105)) ⟨bothPlaced, bothPlaced⟩ [⟨1, "ES", 102, 106, 99, 101, 100⟩] := by
  apply (limits_monotone SimulatorLedger.desk (buyAt 0 100) (buyAt 1 105)
    ⟨rfl, rfl, rfl, fun _ => by decide +kernel, by rintro ⟨⟩⟩
    ⟨⟨rfl, by decide +kernel⟩, by decide⟩ ⟨⟨rfl, by decide +kernel⟩, by decide⟩
    ⟨bothPlaced, bothPlaced⟩ placed_buys.1 placed_buys.2 rfl _).mp
  refine ⟨⟨?_, ?_⟩, fun _ _ => trivial⟩
  · exact fun _ _ => ⟨⟨_, rfl⟩, by decide +kernel⟩
  · exact fun _ _ => ⟨⟨_, rfl⟩, by decide +kernel⟩

/-- A bar from 99 to 102 fills the buy at 100, and not the one at 105. -/
theorem better_limit_behind :
    ¬ ∀ (broker : MarketSimulatorBroker) (first second : BrokerOrderRequest),
      MoreAggressive first second → Persists first → Persists second → ∀ books : Books,
        JustPlaced first books.first → JustPlaced second books.second →
        books.first.lastBar = books.second.lastBar → ∀ bars,
          Machine.Meets (step broker) (Monotone broker first second) books bars := by
  intro claim
  have monotone := (claim SimulatorLedger.desk (buyAt 0 100) (buyAt 1 105)
    ⟨rfl, rfl, rfl, fun _ => by decide +kernel, by rintro ⟨⟩⟩
    ⟨⟨rfl, by decide +kernel⟩, by decide⟩ ⟨⟨rfl, by decide +kernel⟩, by decide⟩
    ⟨bothPlaced, bothPlaced⟩ placed_buys.1 placed_buys.2 rfl
    [⟨1, "ES", 101, 102, 99, 100, 100⟩]).1.ordered
  revert monotone
  decide +kernel

end LimitFills

end Binbot
