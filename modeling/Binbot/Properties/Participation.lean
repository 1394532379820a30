import Binbot.Properties.LimitFills

/-!
# The participation cap

An order may consume at most a fraction of a bar's volume. The cap binds limit orders only:
the branch of market orders takes the larger of the cap and the whole rest, and stop and
on-close orders never look at the volume.
-/
namespace Binbot

open Data

/-- At or above zero the floor is the truncation, and below it neither reaches one. -/
theorem max_truncate_one (x : ℚ) : max (truncate x) 1 = max 1 ⌊x⌋ := by
  rw [truncate, max_comm]
  split
  next negative =>
    have low : ⌊x⌋ ≤ 1 := (Int.floor_lt.mpr (by exact_mod_cast negative.trans one_pos)).le
    have high : ⌈x⌉ ≤ 1 := Int.ceil_le.mpr (by exact_mod_cast (negative.trans one_pos).le)
    rw [max_eq_left low, max_eq_left high]
  next => rfl

namespace Participation

open LimitFills (WithinRange determineFillQuantity_touched determineFillQuantity_unlimited)

variable (broker : MarketSimulatorBroker) (bar : BarEvent)

/-- The most that one bar may fill of an order: a fraction of its volume, but at least one. -/
def cap : ℤ := max 1 ⌊broker.impact.maxParticipationRate * bar.volume⌋

/-- What becomes of an order when a bar fills some of it: the rest is carried to later bars,
or cancelled where the order was for this bar only. -/
def remainder (pending : PendingOrder) (quantity : ℤ) : Option PendingOrder :=
  if pending.remainingQty - quantity ≤ 0 then none
  else if pending.request.timeInForce = .ioc ∨ pending.request.timeInForce = .fok then none
  else some { pending with
    remainingQty := pending.remainingQty - quantity, barsAlive := pending.barsAlive + 1 }

/-- Between `m` and `m'` the bar has filled of each order that waited no more than the cap,
and the rest of it has gone the way of its time in force. -/
def Capped (m m' : SimulatorState) : Prop :=
  ∃ quantity : PendingOrder → ℤ,
    (m'.fills.drop m.fills.length).map (fun fill => (fill.orderId, fill.fillQuantity)) =
      ((m.waiting bar.symbol).filter (0 < quantity ·)).map
        (fun pending => (pending.request.orderId, quantity pending)) ∧
    (∀ pending ∈ m.waiting bar.symbol, quantity pending ≤ cap broker bar) ∧
    m'.waiting bar.symbol =
      (m.waiting bar.symbol).filterMap fun pending => remainder pending (quantity pending)

/-- The order is of one of the limit types, or what is left of it is within the cap. -/
def Bounded (pending : PendingOrder) : Prop :=
  (pending.request.orderType = .limit ∨ pending.request.orderType = .stopLimit) ∨
    pending.remainingQty ≤ cap broker bar

instance : DecidablePred (Bounded broker bar) := fun _ => inferInstanceAs (Decidable (_ ∨ _))

variable {broker bar}

theorem bounded_iff (pending : PendingOrder) :
    Bounded broker bar pending ↔ broker.determineFillQuantity pending bar ≤ cap broker bar := by
  rw [Bounded]
  by_cases limited :
      pending.request.orderType = .limit ∨ pending.request.orderType = .stopLimit
  · rw [determineFillQuantity_touched broker bar limited, max_truncate_one, mul_comm]
    simp only [limited, true_or, true_iff, cap]
    split <;> omega
  · rw [determineFillQuantity_unlimited broker bar limited]
    simp [limited]

/-- What is carried forward past a bar is the remainder of what the bar fills. -/
theorem carried_eq_remainder (pending : PendingOrder) :
    broker.carried bar pending =
      remainder pending (broker.determineFillQuantity pending bar) := rfl

/-- The fills of a bar, one for each order that it fills. -/
theorem fills_map_quantity {m m' : SimulatorState} {fills : List Fill}
    (resolved : broker.Resolved bar m m' fills) :
    (m'.fills.drop m.fills.length).map (fun fill => (fill.orderId, fill.fillQuantity)) =
      ((m.waiting bar.symbol).filter (broker.Fills bar)).map
        (fun pending => (pending.request.orderId, broker.determineFillQuantity pending bar)) := by
  rw [resolved.recorded, List.drop_left, ← resolved.order, List.map_map, List.map_map]
  apply List.map_congr_left
  intro fill member
  exact Prod.ext rfl (resolved.fillsOf fill member).2.2

theorem Capped.fills_le {m m' : SimulatorState} (capped : Capped broker bar m m') :
    ∀ fill ∈ m'.fills.drop m.fills.length, fill.fillQuantity ≤ cap broker bar := by
  intro fill new
  obtain ⟨quantity, same, within, -⟩ := capped
  have member := List.mem_map_of_mem (f := fun fill => (fill.orderId, fill.fillQuantity)) new
  rw [same] at member
  obtain ⟨pending, there, pair⟩ := List.mem_map.mp member
  have size : quantity pending = fill.fillQuantity := congrArg Prod.snd pair
  exact size ▸ within pending (List.mem_filter.mp there).1

/-- A bar keeps to the cap exactly when each order that waits for it is a limit order or has
no more left than the cap. -/
theorem participation_capped_iff (broker : MarketSimulatorBroker) (m m' : SimulatorState)
    (bar : BarEvent) (processed : broker.processBar m bar = .ok m') :
    (∀ pending ∈ m.waiting bar.symbol, Bounded broker bar pending) ↔ Capped broker bar m m' := by
  obtain ⟨fills, resolved⟩ := broker.processBar_resolved processed
  have recorded := fills_map_quantity resolved
  constructor
  · intro bounded
    refine ⟨fun pending => broker.determineFillQuantity pending bar, recorded, ?_, ?_⟩
    · exact fun pending waits => (bounded_iff pending).mp (bounded pending waits)
    · rw [resolved.waiting, if_pos rfl]
      exact List.filterMap_congr fun pending _ => carried_eq_remainder pending
  · intro capped pending waits
    rw [bounded_iff]
    by_contra beyond
    -- more than the cap is more than nothing, so the bar has a fill of that quantity
    have least : 1 ≤ cap broker bar := le_max_left _ _
    have filled : broker.Fills bar pending := by
      rw [MarketSimulatorBroker.Fills]
      omega
    have member : (pending.request.orderId, broker.determineFillQuantity pending bar) ∈
        (m'.fills.drop m.fills.length).map fun fill => (fill.orderId, fill.fillQuantity) := by
      rw [recorded]
      exact List.mem_map_of_mem (List.mem_filter.mpr ⟨waits, decide_eq_true filled⟩)
    obtain ⟨fill, new, pair⟩ := List.mem_map.mp member
    have size : fill.fillQuantity = broker.determineFillQuantity pending bar :=
      congrArg Prod.snd pair
    exact beyond (size ▸ capped.fills_le fill new)

/-- A buy of five. -/
def bought (orderType : OrderType) : BrokerOrderRequest :=
  ⟨.hex 0, "ES", .buy, 5, orderType, some 100, .day, none⟩

def waiting (orderType : OrderType) : SimulatorState :=
  ({ equity := 10000 } : SimulatorState).placeOrder (bought orderType)

/-- A bar of twenty has room for two of the five. -/
theorem limit_capped : ∃ m', SimulatorLedger.desk.processBar (waiting .limit)
      ⟨1, "ES", 100, 101, 99, 100, 20⟩ = .ok m' ∧
    Capped SimulatorLedger.desk ⟨1, "ES", 100, 101, 99, 100, 20⟩ (waiting .limit) m' := by
  refine ⟨_, rfl, ?_⟩
  apply (participation_capped_iff SimulatorLedger.desk _ _ ⟨1, "ES", 100, 101, 99, 100, 20⟩ rfl).mp
  decide +kernel

/-- A market order takes all five. -/
theorem market_beyond_cap :
    ¬ ∀ (broker : MarketSimulatorBroker) (m m' : SimulatorState) (bar : BarEvent),
      0 ≤ broker.impact.maxParticipationRate → broker.impact.maxParticipationRate ≤ 1 →
      broker.processBar m bar = .ok m' → Capped broker bar m m' := by
  intro claim
  have capped := claim SimulatorLedger.desk (waiting .market) _ ⟨1, "ES", 100, 101, 99, 100, 20⟩
    (by decide +kernel) (by decide +kernel) rfl
  have within := capped.fills_le
  revert within
  decide +kernel

end Participation

end Binbot
