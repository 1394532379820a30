import Binbot.Execution.Poll
import Mathlib.Order.Bounds.Basic

/-!
# Exit decisions of the position monitor

The monitor keeps four dictionaries and a set; what it decides about a symbol
is a function of the history of that symbol alone, since it was last absent
from a snapshot.
-/
namespace Binbot

open Data

/-! ## The specification, over a feed of snapshots -/

/-- The symbols of the snapshot before `k`. -/
def previously (feed : ℕ → Snapshot) : ℕ → List Symbol
  | 0 => []
  | k + 1 => (feed k).symbols

/-- `s` is listed from snapshot `i` to snapshot `k`, as `pos` says, and was not before `i`. -/
structure Episode (feed : ℕ → Snapshot) (s : Symbol) (pos : ℕ → PositionDetail) (i k : ℕ) :
    Prop where
  le : i ≤ k
  fresh : s ∉ previously feed i
  listed : ∀ j, i ≤ j → j ≤ k → pos j ∈ (feed j).details
  symbol : ∀ j, i ≤ j → j ≤ k → (pos j).symbol = s

namespace Episode

variable {feed : ℕ → Snapshot} {s : Symbol} {pos : ℕ → PositionDetail} {i k : ℕ}

theorem shorten (episode : Episode feed s pos i (k + 1)) (le : i ≤ k) :
    Episode feed s pos i k where
  le := le
  fresh := episode.fresh
  listed j after before := episode.listed j after (by omega)
  symbol j after before := episode.symbol j after (by omega)

/-- Inside an episode the symbol was in the snapshot before. -/
theorem known (episode : Episode feed s pos i (k + 1)) (le : i ≤ k) :
    s ∈ previously feed (k + 1) := by
  rw [← episode.symbol k le (by omega)]
  exact List.mem_map_of_mem (episode.listed k le (by omega))

/-- An episode begins at any listing that follows an absence. -/
theorem begin_at (d : PositionDetail) (listed : d ∈ (feed k).details)
    (fresh : d.symbol ∉ previously feed k) : Episode feed d.symbol (fun _ => d) k k where
  le := le_rfl
  fresh := fresh
  listed j after before := by rwa [Nat.le_antisymm before after]
  symbol _ _ _ := rfl

theorem extend (episode : Episode feed s pos i k) (d : PositionDetail)
    (listed : d ∈ (feed (k + 1)).details) (symbol : d.symbol = s) :
    Episode feed s (Function.update pos (k + 1) d) i (k + 1) where
  le := Nat.le_succ_of_le episode.le
  fresh := episode.fresh
  listed j after before := by
    rcases Nat.le_or_eq_of_le_succ before with earlier | rfl
    · rw [Function.update_of_ne (by omega)]
      exact episode.listed j after earlier
    · rwa [Function.update_self]
  symbol j after before := by
    rcases Nat.le_or_eq_of_le_succ before with earlier | rfl
    · rw [Function.update_of_ne (by omega)]
      exact episode.symbol j after earlier
    · rwa [Function.update_self]

/-- Every listing of a symbol belongs to an episode. -/
theorem exists_of_mem (feed : ℕ → Snapshot) (s : Symbol) (k : ℕ)
    (member : s ∈ (feed k).symbols) : ∃ pos i, Episode feed s pos i k := by
  induction k with
  | zero =>
    obtain ⟨d, listed, rfl⟩ := List.mem_map.mp member
    exact ⟨_, 0, begin_at d listed List.not_mem_nil⟩
  | succ k ih =>
    obtain ⟨d, listed, rfl⟩ := List.mem_map.mp member
    by_cases known : d.symbol ∈ (feed k).symbols
    · obtain ⟨pos, i, episode⟩ := ih known
      exact ⟨_, i, episode.extend d listed rfl⟩
    · exact ⟨_, k + 1, begin_at d listed known⟩

end Episode

/-- The equity reading made for `s` at snapshot `i`: one is made for each symbol
that was not in the snapshot before, in the order of the snapshot. -/
def equityAt (feed : ℕ → Snapshot) (s : Symbol) (i : ℕ) : ℚ :=
  (feed i).equity (((feed i).symbols.takeWhile fun t => t ≠ s).countP fun t =>
    t ∉ previously feed i)

/-- The order that closes a position. -/
def closingOrder (d : PositionDetail) : SignalEvent where
  symbol := d.symbol
  strategyId := "position-monitor"
  side := d.side.opposite
  targetQuantity := |d.quantity|
  orderType := .market
  timeInForce := .day

/-- The orders for `s` among the requests of a poll. -/
def ordersFor (s : Symbol) (asked : List MonitorReq) : List SignalEvent :=
  (about s asked).filterMap fun
    | .submit signal _ => some signal
    | _ => none

/-- The native stops for `s` among the requests of a poll. -/
def stopsFor (s : Symbol) (asked : List MonitorReq) : List MonitorReq :=
  (about s asked).filter fun
    | .placeStopLoss .. => true
    | _ => false

theorem ordersFor_append (s : Symbol) (xs ys : List MonitorReq) :
    ordersFor s (xs ++ ys) = ordersFor s xs ++ ordersFor s ys := by
  rw [ordersFor, about_append, List.filterMap_append]; rfl

theorem ordersFor_congr {s : Symbol} {xs ys : List MonitorReq} (same : about s xs = about s ys) :
    ordersFor s xs = ordersFor s ys := by rw [ordersFor, same]; rfl

theorem stopsFor_append (s : Symbol) (xs ys : List MonitorReq) :
    stopsFor s (xs ++ ys) = stopsFor s xs ++ stopsFor s ys := by
  rw [stopsFor, about_append, List.filter_append]; rfl

theorem stopsFor_congr {s : Symbol} {xs ys : List MonitorReq} (same : about s xs = about s ys) :
    stopsFor s xs = stopsFor s ys := by rw [stopsFor, same]; rfl

namespace MonitorParams

variable (p : MonitorParams)

/-- Return on the margin of the position, in percent. -/
def returnPct (d : PositionDetail) : ℚ :=
  d.unrealizedPnl / (d.quantity * p.stepSize d.symbol * d.entryPrice / p.leverage) * 100

def stopLoss (feed : ℕ → Snapshot) (s : Symbol) (i : ℕ) : ℚ :=
  equityAt feed s i * p.stopLossEquityPct / 100

/-- An exit is due at snapshot `k` of an episode that began at `i`. -/
def ExitDue (feed : ℕ → Snapshot) (s : Symbol) (pos : ℕ → PositionDetail) (i k : ℕ) : Prop :=
  (pos k).unrealizedPnl ≤ -p.stopLoss feed s i ∨
  p.trailing.hardCapPct ≤ p.returnPct (pos k) ∨
  ∃ peak, IsGreatest ((fun j => p.returnPct (pos j)) '' Set.Icc i k) peak ∧
    p.trailing.armPct ≤ peak ∧ p.returnPct (pos k) ≤ p.trailing.stopLevel peak

/-- The memory before poll `k`, from a fresh monitor. -/
def memoryBefore (feed : ℕ → Snapshot) : ℕ → MonitorState
  | 0 => .initial
  | k + 1 => (p.poll (feed k) none (memoryBefore feed k)).memory

/-- The requests of poll `k`. -/
def requests (feed : ℕ → Snapshot) (k : ℕ) : List MonitorReq :=
  (p.poll (feed k) none (p.memoryBefore feed k)).outside

/-! ## One symbol of a poll -/

/-- The pass over `d` at poll `k`. -/
def visitAt (feed : ℕ → Snapshot) (k : ℕ) (d : PositionDetail) (v : View) :
    List MonitorReq × View :=
  p.visit (d.symbol ∈ previously feed k) (equityAt feed d.symbol k) ((feed k).stopId d.symbol)
    ((feed k).latestPrice d.symbol) d (v.holding d.signedQuantity)

/-- Between polls the monitor knows exactly the symbols of the last snapshot. -/
theorem memoryBefore_views (feed : ℕ → Snapshot) (k : ℕ) (s : Symbol) :
    (s ∈ previously feed k → ((p.memoryBefore feed k).at s).held.isSome) ∧
    (s ∉ previously feed k → (p.memoryBefore feed k).at s = .blank) := by
  induction k generalizing s with
  | zero => exact ⟨fun member => absurd member List.not_mem_nil, fun _ => rfl⟩
  | succ k ih =>
    have consistent : ∀ t, ((p.memoryBefore feed k).at t).closing →
        ((p.memoryBefore feed k).at t).held.isSome := by
      intro t closing
      by_cases known : t ∈ previously feed k
      · exact (ih t).1 known
      · rw [(ih t).2 known] at closing
        cases closing
    obtain ⟨_, shown, gone⟩ := p.poll_views (feed k) (p.memoryBefore feed k) consistent
    refine ⟨fun member => ?_, fun absent => ?_⟩
    · obtain ⟨d, listed, rfl⟩ := List.mem_map.mp member
      obtain ⟨before, after, cut⟩ := List.append_of_mem listed
      rw [memoryBefore, (shown before d after cut).1, visit_held]
      rfl
    · rw [memoryBefore, (gone s absent).1]
      by_cases known : s ∈ previously feed k
      · rw [if_pos ((ih s).1 known)]
        rfl
      · rw [(ih s).2 known]
        rfl

theorem memoryBefore_consistent (feed : ℕ → Snapshot) (k : ℕ) (s : Symbol)
    (closing : ((p.memoryBefore feed k).at s).closing) :
    ((p.memoryBefore feed k).at s).held.isSome := by
  by_cases known : s ∈ previously feed k
  · exact (p.memoryBefore_views feed k s).1 known
  · rw [(p.memoryBefore_views feed k s).2 known] at closing
    cases closing

theorem held_iff_previously (feed : ℕ → Snapshot) (k : ℕ) (s : Symbol) :
    ((p.memoryBefore feed k).at s).held.isSome = decide (s ∈ previously feed k) := by
  by_cases known : s ∈ previously feed k
  · rw [(p.memoryBefore_views feed k s).1 known, decide_eq_true known]
  · rw [(p.memoryBefore_views feed k s).2 known, decide_eq_false known]
    rfl

/-- No poll raises. -/
theorem poll_returns (feed : ℕ → Snapshot) (k : ℕ) :
    (p.poll (feed k) none (p.memoryBefore feed k)).result = .ok () :=
  (p.poll_views (feed k) _ (p.memoryBefore_consistent feed k)).1

/-- What a poll does with a symbol of its snapshot. -/
theorem poll_listed (feed : ℕ → Snapshot) (k : ℕ) (d : PositionDetail)
    (listed : d ∈ (feed k).details) :
    (p.memoryBefore feed (k + 1)).at d.symbol =
        (p.visitAt feed k d ((p.memoryBefore feed k).at d.symbol)).2 ∧
      about d.symbol (p.requests feed k) =
        about d.symbol (p.visitAt feed k d ((p.memoryBefore feed k).at d.symbol)).1 := by
  obtain ⟨before, after, cut⟩ := List.append_of_mem listed
  have unique := (feed k).nodup
  simp only [cut, List.map_append, List.map_cons, List.nodup_append, List.nodup_cons] at unique
  have earlier : ∀ t ∈ before.map (·.symbol), (t ≠ d.symbol : Bool) := by
    intro t member
    simpa using unique.2.2 t member d.symbol (by simp)
  have ahead : (feed k).symbols.takeWhile (fun t => t ≠ d.symbol) = before.map (·.symbol) := by
    rw [Snapshot.symbols, cut, List.map_append, List.takeWhile_append_of_pos earlier]
    simp
  have index : (before.countP fun y => ((p.memoryBefore feed k).at y.symbol).held.isNone) =
      ((feed k).symbols.takeWhile fun t => t ≠ d.symbol).countP fun t =>
        t ∉ previously feed k := by
    rw [ahead, List.countP_map]
    refine List.countP_congr fun y _ => ?_
    rw [← Option.not_isSome, p.held_iff_previously feed k y.symbol]
    simp
  have visited := (p.poll_views (feed k) _ (p.memoryBefore_consistent feed k)).2.1 before d after cut
  simp only [index, p.held_iff_previously feed k d.symbol] at visited
  exact visited

/-! ## The decision -/

theorem exitReason_isSome_iff (t : TrailingProfit) (pnl stop roi peak : ℚ) :
    (t.exitReason pnl stop roi peak).isSome ↔
      pnl ≤ -stop ∨ t.hardCapPct ≤ roi ∨ t.armPct ≤ peak ∧ roi ≤ t.stopLevel peak := by
  rw [TrailingProfit.exitReason]
  split
  next lost => exact iff_of_true rfl (.inl lost)
  next held =>
    split
    next capped => exact iff_of_true rfl (.inr (.inl capped))
    next below =>
      split
      next armed =>
        split
        next trailed => exact iff_of_true rfl (.inr (.inr ⟨armed, trailed⟩))
        next above =>
          exact iff_of_false (by simp) fun due => due.elim held (·.elim below fun h => above h.2)
      next unarmed =>
        exact iff_of_false (by simp) fun due => due.elim held (·.elim below fun h => unarmed h.1)

/-- With these signs the guards of the margin and of the ROI are never taken. -/
theorem roi_eq_returnPct (d : PositionDetail) (leverage : 0 < p.leverage)
    (step : 0 < p.stepSize d.symbol) (quantity : 0 < d.quantity) (entry : 0 < d.entryPrice) :
    p.roi d = p.returnPct d := by
  have lots : (0 : ℚ) < d.quantity := by exact_mod_cast quantity
  have margin : 0 < d.quantity * p.stepSize d.symbol * d.entryPrice / p.leverage := by positivity
  simp only [roi, PositionMonitor.roiPct, PositionMonitor.marginUsdt, gt_iff_lt, leverage, margin,
    if_true, returnPct]

theorem closeSignal_eq (d : PositionDetail) (quantity : 0 < d.quantity) :
    closeSignal "position-monitor" d.symbol d.signedQuantity = closingOrder d := by
  cases side : d.side with
  | buy =>
    simp [closeSignal, closingOrder, PositionDetail.signedQuantity, side, OrderSide.closing,
      OrderSide.opposite, quantity]
  | sell =>
    simp [closeSignal, closingOrder, PositionDetail.signedQuantity, side, OrderSide.closing,
      OrderSide.opposite, quantity.le]

theorem weigh_orders (price : Option ℚ) (d : PositionDetail) (v : View)
    (quantity : 0 < d.quantity) :
    ordersFor d.symbol (p.weigh price d v).1 =
      if (p.reached d v).isSome then [closingOrder d] else [] := by
  rw [weigh]
  cases p.reached d v with
  | none => rfl
  | some reason => simp [ordersFor, about, MonitorReq.About, closeSignal_eq d quantity, closingOrder]

theorem weigh_stops (price : Option ℚ) (d : PositionDetail) (v : View) :
    stopsFor d.symbol (p.weigh price d v).1 = [] := by
  rw [weigh]
  cases p.reached d v <;> simp [stopsFor, about]

theorem arm_orders (equity : ℚ) (stopId : Option StopId) (d : PositionDetail) (v : View) :
    ordersFor d.symbol (p.arm equity stopId d v).1 = [] := by
  simp [ordersFor, about, arm]

theorem arm_stops (equity : ℚ) (stopId : Option StopId) (d : PositionDetail) (v : View) :
    stopsFor d.symbol (p.arm equity stopId d v).1 =
      [.placeStopLoss d.symbol (d.side = .buy) d.entryPrice d.quantity (p.recorded equity)] := by
  simp [stopsFor, about, arm, MonitorReq.About]

/-! ## Episodes -/

/-- Positive numbers wherever the exchange and the settings promise them. -/
structure Positive (feed : ℕ → Snapshot) : Prop where
  leverage : 0 < p.leverage
  step : ∀ s, 0 < p.stepSize s
  quantity : ∀ k, ∀ d ∈ (feed k).details, 0 < d.quantity
  entry : ∀ k, ∀ d ∈ (feed k).details, 0 < d.entryPrice

/-- The returns of an episode so far. -/
def returns (pos : ℕ → PositionDetail) (i k : ℕ) : Set ℚ :=
  (fun j => p.returnPct (pos j)) '' Set.Icc i k

/-- No order for `s` before snapshot `k` of an episode that began at `i`. -/
def Silent (feed : ℕ → Snapshot) (s : Symbol) (i k : ℕ) : Prop :=
  ∀ j, i ≤ j → j < k → ordersFor s (p.requests feed j) = []

/-- What the monitor knows of a symbol after snapshot `k` of its episode. -/
structure Tracked (feed : ℕ → Snapshot) (s : Symbol) (pos : ℕ → PositionDetail) (i k : ℕ)
    (v : View) : Prop where
  stop : v.stop = some (p.stopLoss feed s i)
  closing : v.closing = false ↔ p.Silent feed s i (k + 1)
  peak : v.closing = false → ∃ peak, v.peak = some peak ∧ IsGreatest (p.returns pos i k) peak

/-- The orders and stops of snapshot `k` of an episode. -/
structure Decided (feed : ℕ → Snapshot) (s : Symbol) (pos : ℕ → PositionDetail) (i k : ℕ) :
    Prop where
  closes : p.Silent feed s i k ∧ p.ExitDue feed s pos i k →
    ordersFor s (p.requests feed k) = [closingOrder (pos k)]
  holds : ¬ (p.Silent feed s i k ∧ p.ExitDue feed s pos i k) →
    ordersFor s (p.requests feed k) = []
  stops : stopsFor s (p.requests feed k) =
    if k = i then [.placeStopLoss s ((pos i).side = .buy) (pos i).entryPrice (pos i).quantity
      (p.stopLoss feed s i)] else []

variable {p} {feed : ℕ → Snapshot} {s : Symbol} {pos : ℕ → PositionDetail} {i k : ℕ}

theorem Positive.roi_eq (positive : p.Positive feed) (d : PositionDetail)
    (listed : d ∈ (feed k).details) : p.roi d = p.returnPct d :=
  p.roi_eq_returnPct d positive.leverage (positive.step _) (positive.quantity k d listed)
    (positive.entry k d listed)

/-- The verdict on a frozen stop-loss and the true peak is the specified one. -/
theorem reached_iff (w : View) (stop : w.stop = some (p.stopLoss feed s i))
    (roi : p.roi (pos k) = p.returnPct (pos k))
    (peak : IsGreatest (p.returns pos i k) (p.lifted (pos k) w)) :
    (p.reached (pos k) w).isSome ↔ p.ExitDue feed s pos i k := by
  rw [reached, exitReason_isSome_iff, stop, Option.getD_some, roi]
  refine or_congr_right (or_congr_right ⟨fun trailed => ⟨_, peak, trailed⟩, ?_⟩)
  rintro ⟨other, greatest, trailed⟩
  rw [peak.unique greatest]
  exact trailed

theorem returns_self : p.returns pos i i = {p.returnPct (pos i)} := by
  simp [returns]

theorem returns_succ (le : i ≤ k) :
    p.returns pos i (k + 1) = insert (p.returnPct (pos (k + 1))) (p.returns pos i k) := by
  have grown : Set.Icc i (k + 1) = insert (k + 1) (Set.Icc i k) := by
    ext j
    simp only [Set.mem_Icc, Set.mem_insert_iff]
    omega
  rw [returns, grown, Set.image_insert_eq, returns]

theorem silent_succ (le : i ≤ k) : p.Silent feed s i (k + 1) ↔
    p.Silent feed s i k ∧ ordersFor s (p.requests feed k) = [] := by
  refine ⟨fun silent => ⟨fun j after before => silent j after (by omega),
    silent k le (by omega)⟩, fun ⟨silent, last⟩ j after before => ?_⟩
  rcases Nat.lt_succ_iff_lt_or_eq.mp before with earlier | rfl
  · exact silent j after earlier
  · exact last

/-- A judgement on a view `w` that holds the frozen stop-loss and the true peak. -/
theorem judged (le : i ≤ k) (silent : p.Silent feed s i k) (w : View) (price : Option ℚ)
    (stop : w.stop = some (p.stopLoss feed s i)) (working : w.closing = false)
    (peak : IsGreatest (p.returns pos i k) (p.lifted (pos k) w))
    (roi : p.roi (pos k) = p.returnPct (pos k))
    (view : (p.memoryBefore feed (k + 1)).at s = (p.weigh price (pos k) w).2)
    (orders : ordersFor s (p.requests feed k) =
      if (p.reached (pos k) w).isSome then [closingOrder (pos k)] else []) :
    p.Tracked feed s pos i k ((p.memoryBefore feed (k + 1)).at s) ∧
      (p.ExitDue feed s pos i k → ordersFor s (p.requests feed k) = [closingOrder (pos k)]) ∧
      (¬ p.ExitDue feed s pos i k → ordersFor s (p.requests feed k) = []) := by
  have due := reached_iff w stop roi peak
  rw [weigh_view] at view
  refine ⟨⟨by rw [view]; exact stop, ?_, fun _ => ⟨_, by rw [view], peak⟩⟩,
    fun exit => by rw [orders, if_pos (due.mpr exit)],
    fun stay => by rw [orders, if_neg fun h => stay (due.mp h)]⟩
  rw [view, silent_succ le, orders, working, Bool.false_or]
  cases (p.reached (pos k) w).isSome <;> simp [silent]

/-- The first snapshot of an episode. -/
theorem episode_first (positive : p.Positive feed) (episode : Episode feed s pos i i) :
    p.Tracked feed s pos i i ((p.memoryBefore feed (i + 1)).at s) ∧
      p.Decided feed s pos i i := by
  have listed := episode.listed i le_rfl le_rfl
  obtain rfl := episode.symbol i le_rfl le_rfl
  have roi := positive.roi_eq _ listed
  have silent : p.Silent feed (pos i).symbol i i := fun j after before => by omega
  let w := (p.arm (equityAt feed (pos i).symbol i) ((feed i).stopId (pos i).symbol) (pos i)
    (View.blank.holding (pos i).signedQuantity)).2
  have peak : IsGreatest (p.returns pos i i) (p.lifted (pos i) w) := by
    rw [returns_self, ← roi]
    simp [w, arm, lifted, View.holding, View.blank]
  obtain ⟨view, asked⟩ := p.poll_listed feed i (pos i) listed
  rw [(p.memoryBefore_views feed i _).2 episode.fresh, visitAt, decide_eq_false episode.fresh,
    p.visit_fresh _ _ _ _ _ rfl] at view asked
  have orders := ordersFor_congr asked
  rw [ordersFor_append, arm_orders, p.weigh_orders _ _ _ (positive.quantity i _ listed),
    List.nil_append] at orders
  have stops := stopsFor_congr asked
  rw [stopsFor_append, arm_stops, weigh_stops, List.append_nil] at stops
  obtain ⟨tracked, closes, holds⟩ := judged le_rfl silent w _ rfl rfl peak roi view orders
  refine ⟨tracked, fun exit => closes exit.2, fun stay => holds fun exit => stay ⟨silent, exit⟩, ?_⟩
  rw [stops, if_pos rfl]
  rfl

/-- The next snapshot of an episode. -/
theorem episode_next (positive : p.Positive feed) (le : i ≤ k)
    (episode : Episode feed s pos i (k + 1))
    (tracked : p.Tracked feed s pos i k ((p.memoryBefore feed (k + 1)).at s)) :
    p.Tracked feed s pos i (k + 1) ((p.memoryBefore feed (k + 2)).at s) ∧
      p.Decided feed s pos i (k + 1) := by
  have listed := episode.listed (k + 1) (by omega) le_rfl
  have named := episode.symbol (k + 1) (by omega) le_rfl
  have known := episode.known le
  subst named
  have roi := positive.roi_eq _ listed
  have later : ¬ k + 1 = i := by omega
  obtain ⟨view, asked⟩ := p.poll_listed feed (k + 1) (pos (k + 1)) listed
  rw [visitAt, decide_eq_true known] at view asked
  generalize (p.memoryBefore feed (k + 1)).at (pos (k + 1)).symbol = v at tracked view asked
  cases status : v.closing with
  -- a closing was submitted before, and the monitor leaves the position alone
  | true =>
    rw [p.visit_closing _ _ _ _ _ (v.holding (pos (k + 1)).signedQuantity) status]
      at view asked
    have closing : ((p.memoryBefore feed (k + 2)).at (pos (k + 1)).symbol).closing = true :=
      view ▸ status
    have orders : ordersFor _ (p.requests feed (k + 1)) = [] := ordersFor_congr asked
    have stops : stopsFor _ (p.requests feed (k + 1)) = [] := stopsFor_congr asked
    have broken : ¬ p.Silent feed (pos (k + 1)).symbol i (k + 1) := by
      rw [← tracked.closing, status]
      simp
    refine ⟨⟨by rw [view]; exact tracked.stop, ?_, fun working => ?_⟩,
      ⟨fun exit => absurd exit.1 broken, fun _ => orders, by rw [stops, if_neg later]⟩⟩
    · rw [closing, silent_succ (by omega)]
      simp [broken]
    · rw [closing] at working
      cases working
  -- no closing yet: the peak is that of all returns so far, and the position is judged
  | false =>
    rw [p.visit_known _ _ _ _ (v.holding (pos (k + 1)).signedQuantity) status]
      at view asked
    have orders := ordersFor_congr asked
    rw [p.weigh_orders _ _ _ (positive.quantity _ _ listed)] at orders
    have stops := stopsFor_congr asked
    rw [weigh_stops] at stops
    have silent := tracked.closing.mp status
    obtain ⟨past, recorded, greatest⟩ := tracked.peak status
    have peak : IsGreatest (p.returns pos i (k + 1))
        (p.lifted (pos (k + 1)) (v.holding (pos (k + 1)).signedQuantity)) := by
      rw [returns_succ le, lifted, roi, View.holding, recorded, max_comm]
      exact greatest.insert _
    obtain ⟨tracked', closes, holds⟩ :=
      judged (by omega) silent (v.holding _) _ tracked.stop status peak roi view orders
    exact ⟨tracked', fun exit => closes exit.2, fun stay => holds fun exit => stay ⟨silent, exit⟩,
      by rw [stops, if_neg later]⟩

/-- Every snapshot of an episode. -/
theorem episode_decided (positive : p.Positive feed) (episode : Episode feed s pos i k) :
    p.Tracked feed s pos i k ((p.memoryBefore feed (k + 1)).at s) ∧ p.Decided feed s pos i k := by
  obtain ⟨n, rfl⟩ := Nat.exists_eq_add_of_le episode.le
  induction n with
  | zero => exact episode_first positive episode
  | succ n ih =>
    have le : i ≤ i + n := by omega
    exact episode_next positive le episode (ih (episode.shorten le)).1

/-! ## Independence of earlier episodes -/

/-- Two episodes of `s`, of one run or of two, in which the outside says the same. -/
structure SameHistory (feed feed' : ℕ → Snapshot) (s : Symbol) (pos pos' : ℕ → PositionDetail)
    (i i' n : ℕ) : Prop where
  position : ∀ j, j ≤ n → pos' (i' + j) = pos (i + j)
  stopId : ∀ j, j ≤ n → (feed' (i' + j)).stopId s = (feed (i + j)).stopId s
  price : ∀ j, j ≤ n → (feed' (i' + j)).latestPrice s = (feed (i + j)).latestPrice s
  equity : equityAt feed' s i' = equityAt feed s i

theorem SameHistory.shorten {feed feed' : ℕ → Snapshot} {pos pos' : ℕ → PositionDetail}
    {i i' n : ℕ} (same : SameHistory feed feed' s pos pos' i i' (n + 1)) :
    SameHistory feed feed' s pos pos' i i' n where
  position j le := same.position j (by omega)
  stopId j le := same.stopId j (by omega)
  price j le := same.price j (by omega)
  equity := same.equity

/-- The equity read later in an episode is not looked at. -/
theorem visit_true_congr (equity equity' : ℚ) (stopId : Option StopId) (price : Option ℚ)
    (d : PositionDetail) (v : View) :
    p.visit true equity stopId price d v = p.visit true equity' stopId price d v := rfl

section

variable {feed feed' : ℕ → Snapshot} {pos pos' : ℕ → PositionDetail} {i i' n : ℕ}

private theorem same_visit (episode : Episode feed s pos i (i + n))
    (episode' : Episode feed' s pos' i' (i' + n))
    (same : SameHistory feed feed' s pos pos' i i' n)
    (visited : p.visitAt feed' (i' + n) (pos (i + n)) ((p.memoryBefore feed' (i' + n)).at s) =
      p.visitAt feed (i + n) (pos (i + n)) ((p.memoryBefore feed (i + n)).at s)) :
    about s (p.requests feed' (i' + n)) = about s (p.requests feed (i + n)) ∧
      (p.memoryBefore feed' (i' + n + 1)).at s = (p.memoryBefore feed (i + n + 1)).at s := by
  have named := episode.symbol (i + n) (Nat.le_add_right i n) le_rfl
  obtain ⟨view, asked⟩ := p.poll_listed feed (i + n) _
    (episode.listed _ (Nat.le_add_right i n) le_rfl)
  obtain ⟨view', asked'⟩ := p.poll_listed feed' (i' + n) _
    (episode'.listed _ (Nat.le_add_right i' n) le_rfl)
  rw [same.position n le_rfl, named] at view' asked'
  rw [named] at view asked
  exact ⟨asked'.trans (visited ▸ asked.symm), view'.trans (visited ▸ view.symm)⟩

/-- What the monitor asks and keeps about a symbol depends on its episode only. -/
theorem episode_independent (episode : Episode feed s pos i (i + n))
    (episode' : Episode feed' s pos' i' (i' + n))
    (same : SameHistory feed feed' s pos pos' i i' n) :
    about s (p.requests feed' (i' + n)) = about s (p.requests feed (i + n)) ∧
      (p.memoryBefore feed' (i' + n + 1)).at s = (p.memoryBefore feed (i + n + 1)).at s := by
  induction n with
  | zero =>
    have named : (pos (i + 0)).symbol = s := episode.symbol _ le_rfl le_rfl
    refine same_visit episode episode' same ?_
    rw [visitAt, visitAt, named, same.stopId 0 le_rfl, same.price 0 le_rfl]
    simp only [Nat.add_zero]
    rw [(p.memoryBefore_views feed i s).2 episode.fresh,
      (p.memoryBefore_views feed' i' s).2 episode'.fresh, same.equity,
      decide_eq_false episode.fresh, decide_eq_false episode'.fresh]
  | succ n ih =>
    have le : i ≤ i + n := Nat.le_add_right i n
    have le' : i' ≤ i' + n := Nat.le_add_right i' n
    have before := (ih (episode.shorten le) (episode'.shorten le') same.shorten).2
    have known : s ∈ previously feed (i + n + 1) := episode.known le
    have known' : s ∈ previously feed' (i' + n + 1) := episode'.known le'
    refine same_visit episode episode' same ?_
    rw [visitAt, visitAt, episode.symbol _ (by omega) le_rfl, same.stopId _ le_rfl,
      same.price _ le_rfl]
    simp only [← Nat.add_assoc]
    rw [decide_eq_true known, decide_eq_true known', before]
    exact visit_true_congr _ _ _ _ _ _

end

/-! ## The result -/

/-- A symbol that is not in the snapshot is neither closed nor given a native stop. -/
theorem unlisted_quiet (p : MonitorParams) (feed : ℕ → Snapshot) (k : ℕ) (s : Symbol)
    (absent : s ∉ (feed k).symbols) :
    ordersFor s (p.requests feed k) = [] ∧ stopsFor s (p.requests feed k) = [] := by
  have asked := ((p.poll_views (feed k) _ (p.memoryBefore_consistent feed k)).2.2 s absent).2
  rw [ordersFor, stopsFor, requests, asked]
  split
  · cases ((p.memoryBefore feed k).at s).native <;> simp
  · exact ⟨rfl, rfl⟩

/-- Exit decisions are a function of the episode: an order is submitted at a
snapshot exactly when an exit is due and none was submitted earlier in the
episode, the stop-loss stays the one recorded at its first snapshot, one native
stop is requested, there, and nothing else in the history matters. -/
theorem exit_decisions (p : MonitorParams) (feed : ℕ → Snapshot) (positive : p.Positive feed) :
    (∀ k, (p.poll (feed k) none (p.memoryBefore feed k)).result = .ok ()) ∧
    (∀ k s, s ∈ (feed k).symbols ∧ (∃ pos i, Episode feed s pos i k) ∨
      s ∉ (feed k).symbols ∧ ordersFor s (p.requests feed k) = [] ∧
        stopsFor s (p.requests feed k) = []) ∧
    ∀ s pos i k, Episode feed s pos i k →
      (ordersFor s (p.requests feed k) ≠ [] ↔
        (∀ j, i ≤ j → j < k → ordersFor s (p.requests feed j) = []) ∧
          p.ExitDue feed s pos i k) ∧
      (ordersFor s (p.requests feed k) ≠ [] →
        ordersFor s (p.requests feed k) = [closingOrder (pos k)]) ∧
      ((p.memoryBefore feed (k + 1)).at s).stop = some (p.stopLoss feed s i) ∧
      stopsFor s (p.requests feed k) =
        (if k = i then [.placeStopLoss s ((pos i).side = .buy) (pos i).entryPrice (pos i).quantity
          (p.stopLoss feed s i)] else []) ∧
      ∀ feed' pos' i', Episode feed' s pos' i' (i' + (k - i)) →
        SameHistory feed feed' s pos pos' i i' (k - i) →
        about s (p.requests feed' (i' + (k - i))) = about s (p.requests feed k) := by
  refine ⟨p.poll_returns feed, fun k s => ?_, fun s pos i k episode => ?_⟩
  · by_cases member : s ∈ (feed k).symbols
    · exact .inl ⟨member, Episode.exists_of_mem feed s k member⟩
    · exact .inr ⟨member, p.unlisted_quiet feed k s member⟩
  obtain ⟨tracked, decided⟩ := episode_decided positive episode
  have length : i + (k - i) = k := by have := episode.le; omega
  refine ⟨⟨fun submitted => ?_, fun exit => ?_⟩, fun submitted => ?_, tracked.stop, decided.stops,
    fun feed' pos' i' episode' same => ?_⟩
  · exact Classical.byContradiction fun stay => submitted (decided.holds stay)
  · rw [decided.closes exit]
    simp
  · exact decided.closes (Classical.byContradiction fun stay => submitted (decided.holds stay))
  · have whole : Episode feed s pos i (i + (k - i)) := length.symm ▸ episode
    rw [(episode_independent whole episode' same).1, length]

/-- One long position, 60 USDT under water on an equity of 1000. -/
def demoFeed (_ : ℕ) : Snapshot where
  details := [⟨"BTCUSDT", .buy, 20, 50000, 47000, -60⟩]
  equity := fun _ => 1000
  stopId := fun _ => some 1
  latestPrice := fun _ => some 47000
  nodup := List.nodup_singleton _

theorem demo_positive : demo.Positive demoFeed where
  leverage := by norm_num [demo]
  step _ := by norm_num [demo]
  quantity _ d listed := by
    rw [List.mem_singleton.mp listed]
    norm_num
  entry _ d listed := by
    rw [List.mem_singleton.mp listed]
    norm_num

theorem exit_decisions_demo :
    ordersFor "BTCUSDT" (demo.requests demoFeed 0) =
      [⟨"BTCUSDT", "position-monitor", .sell, 20, .market, none, .day, none⟩] := by
  obtain ⟨due, order, _⟩ := (exit_decisions demo demoFeed demo_positive).2.2 "BTCUSDT" _ 0 0
    (Episode.begin_at ⟨"BTCUSDT", .buy, 20, 50000, 47000, -60⟩ (List.mem_singleton_self _)
      List.not_mem_nil)
  refine order (due.mpr ⟨fun j after before => by omega, .inl ?_⟩)
  norm_num [stopLoss, equityAt, demo, demoFeed]

end MonitorParams

end Binbot
