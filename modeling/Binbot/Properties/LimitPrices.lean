import Binbot.Properties.SimulatedOco
import Mathlib.Algebra.Order.BigOperators.Group.List

/-!
# Limit prices in the simulator

A limit order is filled at its limit, and then charged for the spread and for its impact
like a market order. So a fill keeps to the limit only where both charges are nothing, or so
small that they are lost in the rounding.
-/
namespace Binbot

open Data

/-- What is relied on of the square root. -/
structure RealFunctions.SquareRoot (maths : RealFunctions) : Prop where
  zero : maths.sqrt 0 = 0
  positive : ∀ x, 0 < x → 0 < maths.sqrt x

theorem RealFunctions.SquareRoot.nonneg {maths : RealFunctions} (root : maths.SquareRoot) {x : ℚ}
    (sign : 0 ≤ x) : 0 ≤ maths.sqrt x := by
  rcases sign.eq_or_lt with rfl | positive
  · exact root.zero.ge
  · exact (root.positive x positive).le

theorem RealFunctions.SquareRoot.eq_zero {maths : RealFunctions} (root : maths.SquareRoot) {x : ℚ}
    (sign : 0 ≤ x) : maths.sqrt x = 0 ↔ x = 0 := by
  constructor
  · intro zero
    by_contra other
    exact (root.positive x (lt_of_le_of_ne sign (Ne.symm other))).ne' zero
  · rintro rfl
    exact root.zero

structure MarketImpactParams.Nonnegative (impact : MarketImpactParams) : Prop where
  impactCoefficient : 0 ≤ impact.impactCoefficient
  spreadCaptureFraction : 0 ≤ impact.spreadCaptureFraction

/-- A limit order with a price. -/
def BrokerOrderRequest.Limited (request : BrokerOrderRequest) : Prop :=
  request.orderType = .limit ∧ 0 < request.limitPrice.getD 0

instance (request : BrokerOrderRequest) : Decidable request.Limited :=
  inferInstanceAs (Decidable (_ ∧ _))

/-- A buy pays no more than the limit, and a sell gets no less. -/
def BrokerOrderRequest.KeepsLimit (request : BrokerOrderRequest) (fillPrice : ℚ) : Prop :=
  (request.side = .buy → fillPrice ≤ request.limitPrice.getD 0) ∧
    (request.side = .sell → request.limitPrice.getD 0 ≤ fillPrice)

instance (request : BrokerOrderRequest) (fillPrice : ℚ) :
    Decidable (request.KeepsLimit fillPrice) :=
  inferInstanceAs (Decidable ((_ → _) ∧ (_ → _)))

/-! ### Volatility -/

section Volatility

/-- The squared distances from the mean vanish exactly for equal numbers. -/
theorem sum_squares_eq_zero (returns : List ℚ) (some_ : returns ≠ []) :
    (returns.map fun r => (r - returns.sum / returns.length) ^ 2).sum = 0 ↔
      ∀ r ∈ returns, ∀ r' ∈ returns, r = r' := by
  have size : (returns.length : ℚ) ≠ 0 := by
    exact_mod_cast (List.length_pos_iff.mpr some_).ne'
  constructor
  · intro zero
    have at_mean : ∀ r ∈ returns, r = returns.sum / returns.length := by
      intro r member
      have square := List.all_zero_of_le_zero_le_of_sum_eq_zero (fun x there => by
        obtain ⟨r', -, rfl⟩ := List.mem_map.mp there
        exact sq_nonneg _) zero (List.mem_map_of_mem member)
      exact sub_eq_zero.mp (pow_eq_zero_iff two_ne_zero |>.mp square)
    exact fun r member r' member' => (at_mean r member).trans (at_mean r' member').symm
  · intro equal
    obtain ⟨r, first⟩ := List.exists_mem_of_ne_nil returns some_
    have constant : returns = List.replicate returns.length r :=
      List.eq_replicate_iff.mpr ⟨rfl, fun r' member => equal r' member r first⟩
    have mean : returns.sum / returns.length = r := by
      rw [div_eq_iff size]
      nth_rewrite 1 [constant]
      rw [List.sum_replicate, nsmul_eq_mul, mul_comm]
    rw [mean]
    apply List.sum_eq_zero
    intro x there
    obtain ⟨r', member, rfl⟩ := List.mem_map.mp there
    rw [equal r' member r first]
    ring

/-- The returns show no volatility: there are at least two, and all are equal. -/
def Still (returns : List ℚ) : Prop := 2 ≤ returns.length ∧ ∀ r ∈ returns, ∀ r' ∈ returns, r = r'

instance (returns : List ℚ) : Decidable (Still returns) := inferInstanceAs (Decidable (_ ∧ _))

namespace MarketSimulatorBroker

variable {broker : MarketSimulatorBroker} (root : broker.maths.SquareRoot)
include root

omit root in
theorem variance_nonneg {returns : List ℚ} (several : ¬ returns.length < 2) (mean : ℚ) :
    0 ≤ (returns.map fun r => (r - mean) ^ 2).sum / ((returns.length : ℚ) - 1) := by
  have size : (2 : ℚ) ≤ returns.length := by exact_mod_cast not_lt.mp several
  apply div_nonneg
  · apply List.sum_nonneg
    intro x there
    obtain ⟨r, -, rfl⟩ := List.mem_map.mp there
    exact sq_nonneg _
  · linarith

theorem realizedVolPct_nonneg (m : SimulatorState) (symbol : Symbol) :
    0 ≤ broker.realizedVolPct m symbol := by
  rw [realizedVolPct]
  dsimp only
  split
  · exact zero_le_one
  next several =>
    have volatility := root.nonneg (variance_nonneg several
      ((m.returnHistory.getD symbol []).sum / (m.returnHistory.getD symbol []).length))
    have year := root.nonneg (show (0 : ℚ) ≤ 252 by norm_num)
    positivity

theorem realizedVolPct_eq_zero (m : SimulatorState) (symbol : Symbol) :
    broker.realizedVolPct m symbol = 0 ↔ Still (m.returnHistory.getD symbol []) := by
  rw [realizedVolPct, Still]
  dsimp only
  split
  next few => simp [not_le.mpr few]
  next several =>
    have size : (2 : ℚ) ≤ (m.returnHistory.getD symbol []).length := by
      exact_mod_cast not_lt.mp several
    have degrees : ((m.returnHistory.getD symbol []).length : ℚ) - 1 ≠ 0 := by linarith
    have year : broker.maths.sqrt 252 ≠ 0 := (root.positive 252 (by norm_num)).ne'
    have some_ : m.returnHistory.getD symbol [] ≠ [] := by
      intro none
      simp [none] at several
    rw [mul_eq_zero_iff_right (by norm_num), mul_eq_zero_iff_right year,
      root.eq_zero (variance_nonneg several _), div_eq_zero_iff, or_iff_left degrees,
      sum_squares_eq_zero _ some_]
    exact (and_iff_right (not_lt.mp several)).symm

end MarketSimulatorBroker

end Volatility

namespace MarketSimulatorBroker

variable {broker : MarketSimulatorBroker}

/-! ### The price of a fill -/

/-- Spread and impact together. -/
def costs (broker : MarketSimulatorBroker) (m : SimulatorState) (bar : BarEvent) (limit : ℚ)
    (fillQty : ℤ) : ℚ :=
  max (bar.high - bar.low) (1 / 1000000000) * broker.impact.spreadCaptureFraction +
    limit * broker.sqrtMarketImpactBps fillQty (max bar.volume 1)
      (broker.realizedVolPct m bar.symbol)

theorem computeFillPrice_limited (m : SimulatorState) (bar : BarEvent) (fillQty : ℤ)
    {pending : PendingOrder} (limited : pending.request.Limited) :
    broker.computeFillPrice m pending bar fillQty =
      pending.request.limitPrice.getD 0 + broker.costs m bar (pending.request.limitPrice.getD 0)
        fillQty * pending.request.side.sign := by
  obtain ⟨limit, priced⟩ := limited
  have reference : referencePrice pending.request bar = pending.request.limitPrice.getD 0 := by
    rw [referencePrice, limit]
    exact if_neg priced.ne'
  rw [computeFillPrice_eq, costs, reference]
  ring

/-- The fill keeps to the limit exactly when it is charged nothing more. -/
theorem keepsLimit_iff (m : SimulatorState) (bar : BarEvent) (fillQty : ℤ)
    {pending : PendingOrder} (limited : pending.request.Limited) :
    pending.request.KeepsLimit (broker.computeFillPrice m pending bar fillQty) ↔
      broker.costs m bar (pending.request.limitPrice.getD 0) fillQty ≤ 0 := by
  rw [computeFillPrice_limited m bar fillQty limited, BrokerOrderRequest.KeepsLimit]
  cases pending.request.side with
  | buy => simp [OrderSide.sign]
  | sell => simp [OrderSide.sign]

/-- A fill costs nothing exactly without a spread charge, and either without an impact
coefficient or without volatility. -/
theorem costs_nonpos_iff (root : broker.maths.SquareRoot) (nonneg : broker.impact.Nonnegative)
    (m : SimulatorState) (bar : BarEvent) {limit : ℚ} (priced : 0 < limit) {fillQty : ℤ}
    (filled : 0 < fillQty) :
    broker.costs m bar limit fillQty ≤ 0 ↔ broker.impact.spreadCaptureFraction = 0 ∧
      (broker.impact.impactCoefficient = 0 ∨ Still (m.returnHistory.getD bar.symbol [])) := by
  have range : 0 < max (bar.high - bar.low) (1 / 1000000000) := lt_max_of_lt_right (by norm_num)
  have volume : 0 < max bar.volume 1 := lt_max_of_lt_right one_pos
  have quantity : (0 : ℚ) < fillQty := by exact_mod_cast filled
  have share : 0 < broker.maths.sqrt (max (fillQty / max bar.volume 1) 0) :=
    root.positive _ (lt_max_of_lt_left (div_pos quantity volume))
  have volatility := realizedVolPct_nonneg root m bar.symbol
  have spread := mul_nonneg range.le nonneg.spreadCaptureFraction
  rw [costs, sqrtMarketImpactBps_eq, if_neg (not_le.mpr volume)]
  have impact : 0 ≤ limit * (broker.impact.impactCoefficient *
      (broker.realizedVolPct m bar.symbol / 100) *
      broker.maths.sqrt (max (fillQty / max bar.volume 1) 0)) := by
    have coefficient := nonneg.impactCoefficient
    positivity
  -- both charges are at least zero, so that each of them is zero
  rw [(add_nonneg spread impact).ge_iff_eq', add_eq_zero_iff_of_nonneg spread impact,
    mul_eq_zero_iff_left range.ne', mul_eq_zero_iff_left priced.ne',
    mul_eq_zero_iff_right share.ne', mul_eq_zero, div_eq_zero_iff,
    or_iff_left (show (100 : ℚ) ≠ 0 by norm_num), realizedVolPct_eq_zero root]

/-! ### Rounded prices -/

section Rounded

variable {r : Rounding} {request : BrokerOrderRequest}

theorem referencePrice_limited (limited : request.Limited) (bar : BarEvent) :
    referencePrice request bar = request.limitPrice.getD 0 := by
  rw [referencePrice, limited.1]
  exact if_neg limited.2.ne'

variable (r request) in
/-- Both charges are on the order's side. -/
theorem spreadCostIn_sign (nonneg : broker.impact.Nonnegative) (bar : BarEvent) :
    (request.side = .buy → 0 ≤ broker.spreadCostIn r request bar) ∧
      (request.side = .sell → broker.spreadCostIn r request bar ≤ 0) := by
  have range : 0 ≤ max (r.sub bar.high bar.low) (r (1 / 1000000000)) :=
    le_max_of_le_right (Rounding.nonneg (by norm_num))
  have charge := Rounding.nonneg_mul (r := r) range nonneg.spreadCaptureFraction
  constructor
  · intro side
    rw [spreadCostIn, side]
    exact Rounding.nonneg (by simpa [OrderSide.sign] using charge)
  · intro side
    rw [spreadCostIn, side]
    exact Rounding.nonpos (by simpa [OrderSide.sign] using charge)

theorem impactCostIn_sign (root : broker.maths.SquareRoot) (nonneg : broker.impact.Nonnegative)
    {vol : ℚ} (volatile : 0 ≤ vol) (limited : request.Limited) (bar : BarEvent) (fillQty : ℤ) :
    (request.side = .buy → 0 ≤ broker.impactCostIn r vol request bar fillQty) ∧
      (request.side = .sell → broker.impactCostIn r vol request bar fillQty ≤ 0) := by
  have bps : 0 ≤ broker.sqrtMarketImpactBpsIn r fillQty (max bar.volume 1) vol := by
    rw [sqrtMarketImpactBpsIn]
    split
    · exact le_rfl
    · have part : 0 ≤ r.div vol 100 := Rounding.nonneg (by positivity)
      exact Rounding.nonneg_mul (Rounding.nonneg_mul nonneg.impactCoefficient part)
        (root.nonneg (le_max_right _ _))
  have charge := Rounding.nonneg_mul (r := r) limited.2.le bps
  rw [impactCostIn, referencePrice_limited limited]
  constructor
  · intro side
    rw [side]
    exact Rounding.nonneg (by simpa [OrderSide.sign] using charge)
  · intro side
    rw [side]
    exact Rounding.nonpos (by simpa [OrderSide.sign] using charge)

/-- However the price is rounded, it keeps to the limit exactly when neither charge changes it. -/
theorem keepsLimit_rounded_iff (root : broker.maths.SquareRoot)
    (nonneg : broker.impact.Nonnegative) (limited : request.Limited)
    (quoted : r.Holds (request.limitPrice.getD 0)) {vol : ℚ} (volatile : 0 ≤ vol) (bar : BarEvent)
    (fillQty : ℤ) :
    request.KeepsLimit (broker.fillPriceIn r vol request bar fillQty) ↔
      r.add (request.limitPrice.getD 0) (broker.spreadCostIn r request bar) =
          request.limitPrice.getD 0 ∧
        r.add (request.limitPrice.getD 0) (broker.impactCostIn r vol request bar fillQty) =
          request.limitPrice.getD 0 := by
  have spread := spreadCostIn_sign r request nonneg bar
  have impact := impactCostIn_sign (r := r) root nonneg volatile limited bar fillQty
  rw [BrokerOrderRequest.KeepsLimit, fillPriceIn, referencePrice_limited limited]
  -- both charges are against the limit, so neither makes up for the other
  cases side : request.side with
  | buy =>
    rw [← quoted.add_add_le_iff (spread.1 side) (impact.1 side)]
    simp
  | sell =>
    rw [← quoted.le_add_add_iff (spread.2 side) (impact.2 side)]
    simp

/-- Without the two coefficients nothing is charged, whatever the volatility. -/
theorem fillPriceIn_free (spread : broker.impact.spreadCaptureFraction = 0)
    (impact : broker.impact.impactCoefficient = 0) (limited : request.Limited)
    (quoted : r.Holds (request.limitPrice.getD 0)) (vol : ℚ) (bar : BarEvent) (fillQty : ℤ) :
    broker.fillPriceIn r vol request bar fillQty = request.limitPrice.getD 0 := by
  have bps : broker.sqrtMarketImpactBpsIn r fillQty (max bar.volume 1) vol = 0 := by
    rw [sqrtMarketImpactBpsIn]
    split
    · rfl
    · simp [Rounding.mul, impact]
  have charged : broker.spreadCostIn r request bar = 0 := by
    simp [spreadCostIn, Rounding.mul, spread]
  rw [fillPriceIn, impactCostIn, bps, charged, referencePrice_limited limited]
  simp [Rounding.add, Rounding.mul, quoted.eq]

end Rounded

end MarketSimulatorBroker

/-! ### Runs -/

namespace SimulatedOco

variable {broker : MarketSimulatorBroker} {s : SimulatedOco}

/-- Every fill so far keeps to the limit of its order. -/
def LimitsKept (s : SimulatedOco) : Prop :=
  ∀ entry ∈ s.filled, entry.1.Limited → entry.1.KeepsLimit entry.2.fillPrice

instance : DecidablePred LimitsKept := fun s =>
  inferInstanceAs (Decidable (∀ entry ∈ s.filled, _))

/-- The bar fills no limit order, or the simulator charges nothing: there is no spread
fraction, and no impact coefficient or no volatility in the returns with the bar's own. -/
def ChargesNoLimit (broker : MarketSimulatorBroker) (s : SimulatedOco) : Call → Prop
  | .processBar bar => ∀ counted, broker.updateHistory s.simulator bar = .ok counted →
    (∃ pending ∈ s.simulator.waiting bar.symbol, pending.request.Limited ∧
      broker.Fills bar pending) →
    broker.impact.spreadCaptureFraction = 0 ∧
      (broker.impact.impactCoefficient = 0 ∨ Still (counted.returnHistory.getD bar.symbol []))
  | _ => True

variable (broker) in
/-- The fills of a bar that does not raise are at the prices of its returns. -/
theorem filledBy_priced {m counted : SimulatorState} {bar : BarEvent}
    (updated : broker.updateHistory m bar = .ok counted) :
    ∃ fills : List Fill, broker.Resolved bar m (SimulatedDesk.processedBar broker m bar) fills ∧
      broker.Priced bar counted fills ∧
      filledBy broker m bar = fills.map fun fill => (fill.pending.request, broker.report fill) := by
  obtain ⟨after, processed⟩ : ∃ after, broker.processBar m bar = .ok after := by
    rw [MarketSimulatorBroker.processBar, updated]
    exact ⟨_, rfl⟩
  obtain ⟨fills, resolved, priced⟩ := broker.processBar_priced updated processed
  have same : SimulatedDesk.processedBar broker m bar = after := by
    rw [SimulatedDesk.processedBar, processed]
  rw [← same] at resolved
  refine ⟨fills, resolved, priced, ?_⟩
  rw [filledBy, resolved.recorded, List.drop_left, ← resolved.order, List.map_map, List.zip_map']
  rfl

/-- A bar keeps to the limits exactly when it charges no limit order. -/
theorem limitsKept_bar (root : broker.maths.SquareRoot) (nonneg : broker.impact.Nonnegative)
    (kept : s.LimitsKept) (bar : BarEvent) :
    ChargesNoLimit broker s (.processBar bar) ↔ LimitsKept
      { simulator := SimulatedDesk.processedBar broker s.simulator bar
        filled := s.filled ++ filledBy broker s.simulator bar } := by
  rw [LimitsKept] at kept
  cases updated : broker.updateHistory s.simulator bar with
  | error message =>
    have raised : ¬ ∃ counted, broker.updateHistory s.simulator bar = .ok counted := by
      rintro ⟨counted, same⟩
      rw [updated] at same
      cases same
    have nothing : filledBy broker s.simulator bar = [] := by
      -- the history is updated before any order is filled
      rcases filledBy_cases broker s.simulator bar with ⟨-, ok, -⟩ | ⟨-, -, none⟩
      · exact absurd ok raised
      · exact none
    rw [nothing, List.append_nil]
    exact ⟨fun _ => kept, fun _ counted ok => absurd ⟨counted, ok⟩ raised⟩
  | ok counted =>
    obtain ⟨fills, resolved, priced, new⟩ := filledBy_priced broker updated
    rw [LimitsKept, new, List.forall_mem_append, and_iff_right kept, List.forall_mem_map]
    -- a fill is at its limit or better just when its order was charged nothing
    have free (fill : Fill) (member : fill ∈ fills) (limited : fill.pending.request.Limited) :=
      (broker.keepsLimit_iff counted bar fill.quantity limited).trans
        (broker.costs_nonpos_iff root nonneg counted bar limited.2 fill.positive)
    constructor
    · intro charges fill member limited
      change fill.pending.request.KeepsLimit fill.price
      rw [priced fill member]
      refine (free fill member limited).mpr (charges counted updated ?_)
      have filled : fill.pending ∈ fills.map (·.pending) := List.mem_map_of_mem member
      rw [resolved.order, List.mem_filter, decide_eq_true_eq] at filled
      exact ⟨fill.pending, filled.1, limited, filled.2⟩
    · rintro keeps counted' same ⟨pending, waits, limited, fills_⟩
      obtain rfl : counted = counted' := Except.ok.inj (updated.symm.trans same)
      have filled : pending ∈ fills.map (·.pending) := by
        rw [resolved.order, List.mem_filter]
        exact ⟨waits, decide_eq_true fills_⟩
      obtain ⟨fill, member, rfl⟩ := List.mem_map.mp filled
      have price : fill.pending.request.KeepsLimit fill.price := keeps fill member limited
      rw [priced fill member] at price
      exact (free fill member limited).mp price

/-- In exact arithmetic, the fills of a run from any books keep to the limits of their orders
exactly when no bar of the run charges a limit order. -/
theorem limitsKept_run (root : broker.maths.SquareRoot) (nonneg : broker.impact.Nonnegative)
    (m : SimulatorState) (calls : List Call) :
    Machine.Meets (step broker) (ChargesNoLimit broker) { simulator := m } calls ↔
      Machine.Always (step broker) LimitsKept { simulator := m } calls := by
  apply Machine.meets_iff_always LimitsKept LimitsKept (fun s kept => kept)
  · intro s call t kept free moved
    cases call with
    | processBar bar =>
      cases moved
      exact (limitsKept_bar root nonneg kept bar).mp free
    | _ =>
      cases moved
      exact kept
  · intro s call t kept moved after
    cases call with
    | processBar bar =>
      cases moved
      exact (limitsKept_bar root nonneg kept bar).mpr after
    | _ => trivial
  · intro s call stuck
    cases call with
    | _ => cases stuck
  · rintro entry ⟨⟩

/-- In exact arithmetic, the fills of a run from any books keep to the limits of their orders
exactly when no bar of the run charges a limit order. However a price is rounded, and whatever
volatility it is computed from, it keeps to the limit exactly when adding the spread charge and
adding the impact charge both leave the limit as it is; and it does when both coefficients are
zero. -/
theorem limits_kept (broker : MarketSimulatorBroker) (root : broker.maths.SquareRoot)
    (nonneg : broker.impact.Nonnegative) :
    (∀ (m : SimulatorState) (calls : List Call),
      Machine.Meets (step broker) (ChargesNoLimit broker) { simulator := m } calls ↔
        Machine.Always (step broker) LimitsKept { simulator := m } calls) ∧
    ∀ (r : Rounding) (request : BrokerOrderRequest), request.Limited →
      r.Holds (request.limitPrice.getD 0) → ∀ vol, 0 ≤ vol → ∀ bar fillQty,
      (request.KeepsLimit (broker.fillPriceIn r vol request bar fillQty) ↔
        r.add (request.limitPrice.getD 0) (broker.spreadCostIn r request bar) =
            request.limitPrice.getD 0 ∧
          r.add (request.limitPrice.getD 0) (broker.impactCostIn r vol request bar fillQty) =
            request.limitPrice.getD 0) ∧
      (broker.impact.spreadCaptureFraction = 0 → broker.impact.impactCoefficient = 0 →
        request.KeepsLimit (broker.fillPriceIn r vol request bar fillQty)) := by
  refine ⟨fun m calls => limitsKept_run root nonneg m calls, ?_⟩
  intro r request limited quoted vol volatile bar fillQty
  constructor
  · exact MarketSimulatorBroker.keepsLimit_rounded_iff root nonneg limited quoted volatile bar
      fillQty
  · intro spread impact
    rw [MarketSimulatorBroker.fillPriceIn_free spread impact limited quoted]
    exact ⟨fun _ => le_rfl, fun _ => le_rfl⟩

theorem desk_squareRoot : SimulatorLedger.desk.maths.SquareRoot where
  zero := by decide +kernel
  positive := by
    intro x positive
    have numerator : 0 < x.num.toNat := by
      have := Rat.num_pos.mpr positive
      omega
    apply div_pos
    · exact_mod_cast Nat.sqrt_pos.mpr numerator
    · exact_mod_cast Nat.sqrt_pos.mpr x.den_pos

/-- A buy of one at a limit of 100, and a bar around the limit. -/
def limitBuy : List Call :=
  [.placeOrder ⟨.hex 0, "ES", .buy, 1, .limit, some 100, .day, none⟩,
    .processBar ⟨1, "ES", 100, 101, 99, 100, 100⟩]

theorem uncharged_keeps_limit :
    Machine.Always (step { SimulatorLedger.desk with impact := ⟨0, 0, 1⟩ }) LimitsKept
      { simulator := { equity := 10000 } } limitBuy := by
  apply ((limits_kept { SimulatorLedger.desk with impact := ⟨0, 0, 1⟩ } desk_squareRoot
    ⟨le_refl 0, le_refl 0⟩).1 { equity := 10000 } limitBuy).mp
  exact ⟨trivial, fun t _ => ⟨fun _ _ _ => ⟨rfl, .inl rfl⟩, fun _ _ => trivial⟩⟩

/-- By default half of the bar's range is added, and the buy pays more than 101. -/
theorem limit_exceeded :
    ¬ ∀ (broker : MarketSimulatorBroker), broker.maths.SquareRoot → broker.impact.Nonnegative →
      ∀ (m : SimulatorState) (calls : List Call),
        Machine.Always (step broker) LimitsKept { simulator := m } calls := by
  intro claim
  have kept := (claim SimulatorLedger.desk desk_squareRoot ⟨by decide +kernel, by decide +kernel⟩
    { equity := 10000 } limitBuy).reached rfl
  revert kept
  decide +kernel

end SimulatedOco

end Binbot
