import Binbot.Properties.FillAccounting
import Mathlib.Algebra.Order.Field.Basic

/-!
# The average price when events are missed

The user stream drops messages while it reconnects. The cumulative quantity of the next event
makes up for what was missed and the notional on record does not.
-/
namespace Binbot

open Data

/-- What fills cost above a price. -/
def costAbove (price : ℚ) (fills : List ExecutionEvent) : ℚ :=
  (fills.map fun fill => (fill.fillPrice - price) * (fill.fillQuantity : ℚ)).sum

theorem costAbove_eq (price : ℚ) (fills : List ExecutionEvent) :
    costAbove price fills = totalNotional fills - price * totalFilled fills := by
  induction fills with
  | nil => simp [costAbove, totalNotional, totalFilled]
  | cons fill rest ih =>
    simp only [costAbove, totalNotional, totalFilled, List.map_cons, List.sum_cons] at ih ⊢
    rw [ih]
    push_cast
    ring

namespace ManagedOrder

variable {order : ManagedOrder}

/-- Fills leave their notional on record, and the last running total. -/
theorem foldl_filledBy {fills : List ExecutionEvent} (fresh : order.filledQuantity = 0)
    (some_ : ∀ fill ∈ fills, fill.cumulativeQuantity ≠ 0) :
    (fills.foldl filledBy order).avgFillPrice * (fills.foldl filledBy order).filledQuantity =
        totalNotional fills ∧
      ∀ last ∈ fills.getLast?,
        (fills.foldl filledBy order).filledQuantity = last.cumulativeQuantity := by
  induction fills using List.reverseRecOn with
  | nil =>
    refine ⟨?_, by simp⟩
    rw [List.foldl_nil, fresh, Int.cast_zero, mul_zero]
    rfl
  | append_singleton before fill ih =>
    rw [List.forall_mem_append, List.forall_mem_singleton] at some_
    -- the average times the new total is the old notional and the fill's
    rw [List.foldl_concat, filledBy_notional _ some_.2, (ih some_.1).1, totalNotional_concat]
    refine ⟨rfl, fun last same => ?_⟩
    rw [List.getLast?_concat] at same
    cases same
    rfl

/-- Nothing is rounded when the record takes the fill. -/
structure Unrounded (r : Rounding) (order : ManagedOrder) (event : ExecutionEvent) : Prop where
  filled : r.Holds order.filledQuantity
  quantity : r.Holds event.fillQuantity
  cumulative : r.Holds event.cumulativeQuantity
  before : r.Holds (order.avgFillPrice * order.filledQuantity)
  added : r.Holds (event.fillPrice * event.fillQuantity)
  notional : r.Holds
    (order.avgFillPrice * order.filledQuantity + event.fillPrice * event.fillQuantity)
  average : r.Holds
    ((order.avgFillPrice * order.filledQuantity + event.fillPrice * event.fillQuantity) /
      event.cumulativeQuantity)

theorem Unrounded.filledByIn {r : Rounding} {event : ExecutionEvent}
    (unrounded : Unrounded r order event) : order.filledByIn r event = order.filledBy event := by
  obtain ⟨filled, quantity, cumulative, before, added, notional, average⟩ := unrounded
  rw [filledBy_eq]
  simp only [ManagedOrder.filledByIn, Rounding.add, Rounding.mul, Rounding.div, filled.eq,
    quantity.eq, cumulative.eq, before.eq, added.eq, notional.eq, average.eq]

/-- Nothing is rounded when the record takes the fills one after the other. -/
def AllUnrounded (r : Rounding) : ManagedOrder → List ExecutionEvent → Prop
  | _, [] => True
  | order, fill :: rest => Unrounded r order fill ∧ AllUnrounded r (order.filledBy fill) rest

theorem foldl_filledByIn {r : Rounding} {before fills : List ExecutionEvent}
    (unrounded : AllUnrounded r order fills) (start : before <+: fills) :
    before.foldl (filledByIn r) order = before.foldl filledBy order := by
  induction before generalizing order fills with
  | nil => rfl
  | cons fill rest ih =>
    obtain ⟨later, rfl⟩ := start
    obtain ⟨first, others⟩ := unrounded
    rw [List.foldl_cons, List.foldl_cons, first.filledByIn]
    exact ih others (List.prefix_append _ _)

end ManagedOrder

namespace OrderDesk

variable {d : OrderDesk} {id : OrderId} {order : ManagedOrder}

/-- The record after any fills of the order. -/
theorem hearAll_fills {fills : List ExecutionEvent} (known : d.manager.getOrder id = some order)
    (own : ∀ fill ∈ fills, fill.orderId = id) :
    (d.hearAll (fills.map .execution)).manager.getOrder id =
      some (fills.foldl ManagedOrder.filledBy order) := by
  induction fills using List.reverseRecOn with
  | nil => exact known
  | append_singleton before fill ih =>
    rw [List.forall_mem_append, List.forall_mem_singleton] at own
    rw [List.map_append, List.map_singleton, hearAll_concat, hear_getOrder, ih own.1,
      List.foldl_concat]
    exact if_pos own.2.symm

end OrderDesk

/-- A fill, and whether its event arrives. -/
structure FillReport where
  fill : ExecutionEvent
  delivered : Bool
  deriving DecidableEq

namespace FillReport

variable (reports : List FillReport)

def fills : List ExecutionEvent := reports.map (·.fill)

def deliveredFills : List ExecutionEvent := (reports.filter (·.delivered)).map (·.fill)

def missedFills : List ExecutionEvent := (reports.filter (!·.delivered)).map (·.fill)

/-- The missed quantity costs no more at the lowest price than the delivered fills cost above
it, and no less at the highest price than they cost above that. -/
def Covered : Prop :=
  (∃ lowest ∈ fills reports, lowest.fillPrice * totalFilled (missedFills reports) ≤
      costAbove lowest.fillPrice (deliveredFills reports)) ∧
    ∃ highest ∈ fills reports, costAbove highest.fillPrice (deliveredFills reports) ≤
      highest.fillPrice * totalFilled (missedFills reports)

/-- Between the lowest and the highest price. -/
def Plausible (average : ℚ) : Prop :=
  (∃ lowest ∈ fills reports, lowest.fillPrice ≤ average) ∧
    ∃ highest ∈ fills reports, average ≤ highest.fillPrice

instance : Decidable (Covered reports) := inferInstanceAs (Decidable (_ ∧ _))

instance (average : ℚ) : Decidable (Plausible reports average) :=
  inferInstanceAs (Decidable (_ ∧ _))

theorem totalFilled_fills :
    totalFilled (fills reports) =
      totalFilled (deliveredFills reports) + totalFilled (missedFills reports) := by
  induction reports with
  | nil => rfl
  | cons report rest ih =>
    simp only [fills, deliveredFills, missedFills, totalFilled, List.map_cons, List.sum_cons]
      at ih ⊢
    rw [ih]
    cases given : report.delivered with
    | true => simp [given, add_assoc]
    | false => simp [given, add_left_comm]

variable {reports}

/-- An average that is the delivered notional over the whole quantity is plausible exactly when
the missed quantity is covered. -/
theorem plausible_iff {average : ℚ} (some_ : 0 < totalFilled (fills reports))
    (notional : average * totalFilled (fills reports) = totalNotional (deliveredFills reports)) :
    Plausible reports average ↔ Covered reports := by
  have positive : (0 : ℚ) < totalFilled (fills reports) := by exact_mod_cast some_
  have split : (totalFilled (fills reports) : ℚ) =
      totalFilled (deliveredFills reports) + totalFilled (missedFills reports) := by
    exact_mod_cast totalFilled_fills reports
  -- multiplied by the whole quantity, a bound on the average is one on the missed part
  have above : ∀ price, price ≤ average ↔
      price * totalFilled (missedFills reports) ≤ costAbove price (deliveredFills reports) := by
    intro price
    rw [costAbove_eq, ← notional, le_sub_iff_add_le', ← mul_add, ← split]
    exact (mul_le_mul_iff_left₀ positive).symm
  have below : ∀ price, average ≤ price ↔
      costAbove price (deliveredFills reports) ≤ price * totalFilled (missedFills reports) := by
    intro price
    rw [costAbove_eq, ← notional, sub_le_iff_le_add', ← mul_add, ← split]
    exact (mul_le_mul_iff_left₀ positive).symm
  simp only [Plausible, Covered, above, below]

end FillReport

namespace OrderDesk

open FillReport

variable {d : OrderDesk} {id : OrderId} {order : ManagedOrder}

/-- The average price on record once the delivered events have been handled. -/
def averageAfter (d : OrderDesk) (id : OrderId) (reports : List FillReport) : Option ℚ :=
  ((d.hearAll ((deliveredFills reports).map .execution)).manager.getOrder id).map (·.avgFillPrice)

theorem mem_fills_of_mem_deliveredFills {reports : List FillReport} {event : ExecutionEvent}
    (member : event ∈ deliveredFills reports) : event ∈ fills reports := by
  obtain ⟨report, there, rfl⟩ := List.mem_map.mp member
  exact List.mem_map_of_mem (List.mem_of_mem_filter there)

theorem averageAfter_eq {reports : List FillReport} (known : d.manager.getOrder id = some order)
    (own : ∀ report ∈ reports, report.fill.orderId = id) :
    d.averageAfter id reports =
      some ((deliveredFills reports).foldl ManagedOrder.filledBy order).avgFillPrice := by
  have named : ∀ event ∈ deliveredFills reports, event.orderId = id := by
    intro event member
    obtain ⟨report, there, rfl⟩ := List.mem_map.mp member
    exact own report (List.mem_of_mem_filter there)
  rw [averageAfter, hearAll_fills known named, Option.map_some]

theorem averageAfter_delivered {before : List FillReport} {fill : ExecutionEvent}
    (known : d.manager.getOrder id = some order) (fresh : order.filledQuantity = 0)
    (own : ∀ report ∈ before ++ [⟨fill, true⟩], report.fill.orderId = id)
    (gapFree : GapFree order.quantity (fills (before ++ [⟨fill, true⟩]))) :
    ∃ average, d.averageAfter id (before ++ [⟨fill, true⟩]) = some average ∧
      0 < totalFilled (fills (before ++ [⟨fill, true⟩])) ∧
      average * totalFilled (fills (before ++ [⟨fill, true⟩])) =
        totalNotional (deliveredFills (before ++ [⟨fill, true⟩])) := by
  have arrived : deliveredFills (before ++ [⟨fill, true⟩]) = deliveredFills before ++ [fill] := by
    simp [deliveredFills]
  have all : fills (before ++ [⟨fill, true⟩]) = fills before ++ [fill] := by simp [fills]
  -- the running total of every event that arrives counts the missed fills too
  have running : ∀ event ∈ fills (before ++ [⟨fill, true⟩]), event.cumulativeQuantity ≠ 0 := by
    intro event member
    obtain ⟨earlier, later, split⟩ := List.append_of_mem member
    have first : earlier ++ [event] <+: fills (before ++ [⟨fill, true⟩]) := by
      rw [split]
      exact ⟨later, by simp⟩
    exact (gapFree.of_prefix first).cumulative_pos.ne'
  obtain ⟨notional, last⟩ := ManagedOrder.foldl_filledBy fresh
    (fun event member => running event (mem_fills_of_mem_deliveredFills member))
  have quantity := last fill (by rw [arrived, List.getLast?_concat]; rfl)
  have total : fill.cumulativeQuantity = totalFilled (fills (before ++ [⟨fill, true⟩])) := by
    rw [all] at gapFree ⊢
    exact (gapFree _ fill (List.prefix_refl _)).2.1
  rw [quantity, total] at notional
  refine ⟨_, averageAfter_eq known own, ?_, notional⟩
  rw [← total]
  rw [all] at gapFree
  exact gapFree.cumulative_pos

/-- Whatever events of an order are missed, in exact arithmetic the average price on record is
plausible after each event that arrives exactly when what has been missed by then is covered. A
rounded arithmetic gives the same averages as long as none of its operations rounds. -/
theorem average_plausible_iff (known : d.manager.getOrder id = some order)
    (fresh : order.filledQuantity = 0) {reports : List FillReport}
    (own : ∀ report ∈ reports, report.fill.orderId = id)
    (gapFree : GapFree order.quantity (fills reports)) :
    ((∀ before fill, before ++ [⟨fill, true⟩] <+: reports → Covered (before ++ [⟨fill, true⟩])) ↔
      ∀ before fill, before ++ [⟨fill, true⟩] <+: reports →
        ∃ average ∈ d.averageAfter id (before ++ [⟨fill, true⟩]),
          Plausible (before ++ [⟨fill, true⟩]) average) ∧
    ∀ r : Rounding, ManagedOrder.AllUnrounded r order (deliveredFills reports) →
      ∀ before, before <+: reports → d.averageAfter id before =
        some ((deliveredFills before).foldl (ManagedOrder.filledByIn r) order).avgFillPrice := by
  constructor
  · refine forall_congr' fun before => forall_congr' fun fill => imp_congr_right fun start => ?_
    obtain ⟨average, found, some_, notional⟩ := averageAfter_delivered known fresh
      (fun report member => own report (start.subset member))
      (gapFree.of_prefix (start.map _))
    rw [← plausible_iff some_ notional, found]
    simp
  · intro r unrounded before start
    have earlier : deliveredFills before <+: deliveredFills reports := (start.filter _).map _
    rw [ManagedOrder.foldl_filledByIn unrounded earlier]
    exact averageAfter_eq known (fun report member => own report (start.subset member))

/-- The event of a fill of one is missed, and that of the two that follow arrives. -/
def missedOne (price : ℚ) : FillReport :=
  ⟨⟨1, .hex 0, "BTCUSDT", .buy, 1, price, 1, 2, 0, .unknown, none⟩, false⟩

def lastTwo : ExecutionEvent := ⟨2, .hex 0, "BTCUSDT", .buy, 2, 103, 3, 0, 0, .unknown, none⟩

def firstMissed (price : ℚ) : List FillReport := [missedOne price] ++ [⟨lastTwo, true⟩]

theorem firstMissed_gapFree (price : ℚ) : GapFree 3 (fills (firstMissed price)) := by
  have first : GapFree 3 [(missedOne price).fill] :=
    (gapFree_nil 3).concat Int.zero_lt_one rfl rfl zero_le_two
  have second : 0 < lastTwo.fillQuantity := by decide
  exact first.concat second rfl rfl le_rfl

theorem firstMissed_own (price : ℚ) :
    ∀ report ∈ firstMissed price, report.fill.orderId = .hex 0 := by
  simp [firstMissed, missedOne, lastTwo]

/-- Two thirds of 103 is more than one. -/
theorem firstMissed_plausible :
    ∃ average ∈ twoOrders.averageAfter (.hex 0) (firstMissed 1),
      Plausible (firstMissed 1) average := by
  have known : twoOrders.manager.getOrder (.hex 0) = some (.ofSignal (.hex 0)
      ⟨"BTCUSDT", "momentum", .buy, 3, .market, none, .gtc, none⟩ (some 100)) := rfl
  have covered := average_plausible_iff known rfl (firstMissed_own 1) (firstMissed_gapFree 1)
  apply covered.1.mp _ [missedOne 1] lastTwo (List.prefix_refl _)
  intro before fill start
  -- the only event that arrives is the second
  have last : before ++ [⟨fill, true⟩] = firstMissed 1 := by
    rcases List.prefix_concat_iff.mp start with same | first
    · exact same
    · have missed := first.subset (List.mem_append_right before (List.mem_singleton_self _))
      simp [missedOne] at missed
  rw [last]
  decide +kernel

/-- At 100 it is too little: the average on record is 206 / 3. -/
theorem average_below_prices :
    ¬ ∀ (d : OrderDesk) (id : OrderId) (order : ManagedOrder) (reports : List FillReport),
      d.manager.getOrder id = some order → order.filledQuantity = 0 →
      (∀ report ∈ reports, report.fill.orderId = id) → GapFree order.quantity (fills reports) →
      ∀ before fill, before ++ [⟨fill, true⟩] <+: reports →
        ∃ average ∈ d.averageAfter id (before ++ [⟨fill, true⟩]),
          Plausible (before ++ [⟨fill, true⟩]) average := by
  intro claim
  obtain ⟨average, found, inside⟩ := claim twoOrders (.hex 0) _ (firstMissed 100) rfl rfl
    (firstMissed_own 100) (firstMissed_gapFree 100) [missedOne 100] lastTwo (List.prefix_refl _)
  have recorded : twoOrders.averageAfter (.hex 0) (firstMissed 100) = some (206 / 3) := by
    decide +kernel
  obtain rfl : 206 / 3 = average := Option.some.inj (recorded.symm.trans found)
  have between : ¬ Plausible (firstMissed 100) (206 / 3) := by decide +kernel
  exact between inside

end OrderDesk

end Binbot
