import Binbot.Data.Stretches
import Binbot.Machine.Run
import Binbot.Properties.SimulatorLedger

/-!
# A record for each stretch

While the position of a symbol keeps its sign, the simulator keeps one trade, and it records
the trade when the stretch is over. The peak of the trade takes in the position after each
fill, and so does a fill that passes through zero: its new position is of the other side, but
it counts for the trade that it ends.
-/
namespace Binbot.TradeStretches

open Data MarketSimulatorBroker

/-- The position of a symbol after a fill. -/
structure Point where
  ts : Timestamp
  position : ℤ

def sameSign (first second : Point) : Bool := first.position.sign = second.position.sign

/-- The largest position that a stretch has held, on either side. -/
def peak (stretch : List Point) : ℤ := stretch.foldl (fun most point => max most |point.position|) 0

/-- What a trade says of the stretch that it is about. -/
structure Opened where
  side : OrderSide
  entryTs : Timestamp
  quantity : ℤ
  deriving DecidableEq

structure Covered extends Opened where
  exitTs : Timestamp
  deriving DecidableEq

def ofTrade (trade : SimulatedTrade) : Opened := ⟨trade.side, trade.entryTs, trade.peakQuantity⟩

def ofRecord (record : TradeRecord) : Covered :=
  ⟨⟨record.side, record.entryTs, record.quantity⟩, record.exitTs⟩

/-- A stretch off flat: its side, the time of its first fill and its largest position. -/
def opened : List Point → Option Opened
  | [] => none
  | first :: rest =>
    if first.position = 0 then none
    else some ⟨if first.position > 0 then .buy else .sell, first.ts, peak (first :: rest)⟩

/-- A stretch off flat that the next point has ended. -/
def covered (gone : List Point × Point) : Option Covered :=
  (opened gone.1).map fun start => ⟨start, gone.2.ts⟩

/-- All stretches off flat that are over, in their order. -/
def stretches (points : List Point) : List Covered :=
  (overStretches sameSign points).filterMap covered

/-- The records of one symbol. -/
def recordsAt (m : SimulatorState) (symbol : Symbol) : List TradeRecord :=
  m.trades.filter (·.symbol = symbol)

/-- The simulator, and the positions that its fills have left. -/
structure History where
  simulator : SimulatorState
  course : List (Symbol × Point) := []

namespace History

variable (broker : MarketSimulatorBroker)

/-- The points of one symbol. -/
def points (h : History) (symbol : Symbol) : List Point :=
  (h.course.filter (·.1 = symbol)).map (·.2)

/-- The position of the symbol after a fill. -/
def pointAfter (m : SimulatorState) (fill : Fill) : Point :=
  ⟨fill.bar.ts, m.position fill.bar.symbol + fill.signedQuantity⟩

def step (h : History) (fill : Fill) : Option History :=
  some
    { simulator := broker.apply h.simulator fill
      course := h.course ++ [(fill.bar.symbol, pointAfter h.simulator fill)] }

/-- The records of each symbol are its stretches, one for one. -/
def Recorded (h : History) : Prop :=
  ∀ symbol, (recordsAt h.simulator symbol).map ofRecord = stretches (h.points symbol)

/-- A fill that passes through zero goes no further than the stretch that it ends has been. -/
def FlipWithin (h : History) (fill : Fill) : Prop :=
  let held := h.simulator.position fill.bar.symbol
  isFlip held (held + fill.signedQuantity) →
    |held + fill.signedQuantity| ≤ peak (latest sameSign (h.points fill.bar.symbol))

instance (h : History) (fill : Fill) : Decidable (h.FlipWithin fill) :=
  inferInstanceAs (Decidable (_ → _))

end History

/-! ### Stretches and their trades -/

theorem peak_concat (stretch : List Point) (point : Point) :
    peak (stretch ++ [point]) = max (peak stretch) |point.position| := by
  rw [peak, List.foldl_append]
  rfl

theorem peak_nonneg (stretch : List Point) : 0 ≤ peak stretch := by
  induction stretch using List.reverseRecOn with
  | nil => exact le_refl 0
  | append_singleton before point ih =>
    rw [peak_concat]
    exact ih.trans (le_max_left _ _)

theorem opened_flat {stretch : List Point} (flat : ∀ point ∈ stretch, point.position = 0) :
    opened stretch = none := by
  cases stretch with
  | nil => rfl
  | cons first rest => simp [opened, flat first List.mem_cons_self]

/-- A stretch that goes on keeps its side and its start. -/
theorem opened_concat {stretch : List Point} {start : Opened}
    (running : opened stretch = some start) (point : Point) : opened (stretch ++ [point]) =
      some { start with quantity := max (peak stretch) |point.position| } := by
  cases stretch with
  | nil => cases running
  | cons first rest =>
    rw [opened] at running
    split at running
    · cases running
    next off =>
      cases running
      rw [← peak_concat]
      simp [opened, off]

theorem opened_quantity {stretch : List Point} {start : Opened}
    (running : opened stretch = some start) : start.quantity = peak stretch := by
  cases stretch with
  | nil => cases running
  | cons first rest =>
    rw [opened] at running
    split at running
    · cases running
    · cases running
      rfl

/-- The trade of a symbol is about the stretch that the position is in, and the records are
about those that are over. -/
structure Tracks (points : List Point) (position : ℤ) (trade : Option SimulatedTrade)
    (records : List TradeRecord) : Prop where
  unused : points = [] → position = 0
  signs : ∀ point ∈ latest sameSign points, point.position.sign = position.sign
  running : trade.map ofTrade = opened (latest sameSign points)
  recorded : records.map ofRecord = stretches points

theorem tracks_unused : Tracks [] 0 none [] :=
  ⟨fun _ => rfl, by simp [latest], rfl, rfl⟩

section Step

variable {points : List Point} {prev signed : ℤ} {trade : Option SimulatedTrade}
  {running : SimulatedTrade} {records : List TradeRecord} {ts : Timestamp}

/-- The last point has the sign of the position. -/
theorem Tracks.final (tracks : Tracks points prev trade records) {final : Point}
    (found : final ∈ points.getLast?) : final.position.sign = prev.sign := by
  apply tracks.signs
  rw [← getLast?_latest sameSign] at found
  exact List.mem_of_getLast? found

variable (ts) in
/-- A point of another sign ends the stretch. -/
theorem Tracks.turns (tracks : Tracks points prev trade records) {new : ℤ}
    (apart : prev.sign ≠ new.sign) :
    latest sameSign (points ++ [⟨ts, new⟩]) = [⟨ts, new⟩] ∧
      stretches (points ++ [⟨ts, new⟩]) = stretches points ++
        (covered (latest sameSign points, ⟨ts, new⟩)).toList := by
  have away : ∀ final ∈ points.getLast?, sameSign final ⟨ts, new⟩ = false := by
    intro final found
    rw [sameSign, tracks.final found]
    exact decide_eq_false apart
  refine ⟨latest_starts away, ?_⟩
  by_cases none : points = []
  · subst none
    rfl
  · rw [stretches, overStretches_starts none away, List.filterMap_append, stretches]
    congr 1

variable (ts) in
/-- A point of the same sign goes on with it. -/
theorem Tracks.goesOn (tracks : Tracks points prev trade records) {new : ℤ} (off : prev ≠ 0)
    (same : prev.sign = new.sign) :
    latest sameSign (points ++ [⟨ts, new⟩]) = latest sameSign points ++ [⟨ts, new⟩] ∧
      stretches (points ++ [⟨ts, new⟩]) = stretches points := by
  have joined : ∀ final ∈ points.getLast?, sameSign final ⟨ts, new⟩ = true := by
    intro final found
    rw [sameSign, tracks.final found]
    exact decide_eq_true same
  have continued := stretches_continue (fun none => off (tracks.unused none)) joined
  exact ⟨continued.1, by rw [stretches, continued.2, stretches]⟩

theorem Tracks.idle (tracks : Tracks points 0 trade records) :
    trade = none ∧ opened (latest sameSign points) = none := by
  have flat : opened (latest sameSign points) = none := by
    apply opened_flat
    intro point member
    exact Int.sign_eq_zero_iff_zero.mp (tracks.signs point member)
  refine ⟨?_, flat⟩
  have none := tracks.running
  rw [flat, Option.map_eq_none_iff] at none
  exact none

/-- Off flat there is a trade, and its quantity is the peak of the stretch. -/
theorem Tracks.held (tracks : Tracks points prev trade records) (off : prev ≠ 0) :
    ∃ running, trade = some running ∧ opened (latest sameSign points) = some (ofTrade running) ∧
      running.peakQuantity = peak (latest sameSign points) := by
  have same := tracks.running
  cases trade with
  | none =>
    -- a stretch without a trade would be flat
    exfalso
    obtain ⟨final, found⟩ := Option.ne_none_iff_exists'.mp
      (mt List.getLast?_eq_none_iff.mp fun none => off (tracks.unused none))
    rw [← getLast?_latest sameSign] at found
    rw [Option.map_none] at same
    cases stretch : latest sameSign points with
    | nil => simp [stretch] at found
    | cons first rest =>
      have sign := tracks.signs first (by rw [stretch]; exact List.mem_cons_self)
      rw [stretch, opened] at same
      split at same
      next flat =>
        rw [flat, Int.sign_zero, eq_comm, Int.sign_eq_zero_iff_zero] at sign
        exact off sign
      next => cases same
  | some running =>
    rw [Option.map_some, eq_comm] at same
    exact ⟨running, rfl, same, opened_quantity same⟩

theorem opened_singleton (ts : Timestamp) {new : ℤ} (off : new ≠ 0) :
    opened [⟨ts, new⟩] = some ⟨if new > 0 then .buy else .sell, ts, |new|⟩ := by
  simp [opened, off, peak]

/-- A fill that turns the position opens the trade of the next stretch, if there is one. -/
theorem Tracks.turned (tracks : Tracks points prev trade records) {new : ℤ}
    (apart : prev.sign ≠ new.sign) {trade' : Option SimulatedTrade} {records' : List TradeRecord}
    (running : trade'.map ofTrade = opened [⟨ts, new⟩])
    (recorded : records'.map ofRecord = stretches points ++
      (covered (latest sameSign points, ⟨ts, new⟩)).toList) :
    Tracks (points ++ [⟨ts, new⟩]) new trade' records' := by
  obtain ⟨here, gone⟩ := tracks.turns ts apart
  constructor
  · intro none
    simp at none
  · rw [here]
    intro point member
    rw [List.mem_singleton.mp member]
  · rw [here, running]
  · rw [recorded, gone]

variable {m : SimulatorState} {bar : BarEvent} (commission profit : ℚ)

/-- A fill that leaves some of the position on its side. -/
theorem Tracks.stays
    (tracks : Tracks points prev (m.openTrades.get? bar.symbol) (recordsAt m bar.symbol))
    (held : 0 < prev ∧ 0 < prev + signed ∨ prev < 0 ∧ prev + signed < 0) :
    Tracks (points ++ [⟨bar.ts, prev + signed⟩]) (prev + signed)
      ((applyToTrade m prev (prev + signed) commission profit bar).openTrades.get? bar.symbol)
      (recordsAt (applyToTrade m prev (prev + signed) commission profit bar) bar.symbol) := by
  have off : prev ≠ 0 := by omega
  have same : prev.sign = (prev + signed).sign := by
    rcases held with ⟨long, stays⟩ | ⟨short, stays⟩
    · rw [Int.sign_eq_one_of_pos long, Int.sign_eq_one_of_pos stays]
    · rw [Int.sign_eq_neg_one_of_neg short, Int.sign_eq_neg_one_of_neg stays]
  obtain ⟨running, present, start, most⟩ := tracks.held off
  obtain ⟨here, gone⟩ := tracks.goesOn bar.ts off same
  rw [applyToTrade_stays present held]
  constructor
  · intro none
    simp at none
  · rw [here]
    intro point member
    rcases List.mem_append.mp member with earlier | last
    · exact (tracks.signs point earlier).trans same
    · rw [List.mem_singleton.mp last]
  · rw [here, opened_concat start, Dict.get?_set_self]
    simp [ofTrade, SimulatedTrade.charged, most]
  · rw [gone]
    exact tracks.recorded

/-- One fill, in any way that it meets the position. -/
theorem Tracks.apply
    (tracks : Tracks points prev (m.openTrades.get? bar.symbol) (recordsAt m bar.symbol))
    (moves : signed ≠ 0) {after : SimulatorState}
    (applied : after = applyToTrade m prev (prev + signed) commission profit bar) :
    ((isFlip prev (prev + signed) → |prev + signed| ≤ peak (latest sameSign points)) →
      Tracks (points ++ [⟨bar.ts, prev + signed⟩]) (prev + signed)
        (after.openTrades.get? bar.symbol) (recordsAt after bar.symbol)) ∧
    ((recordsAt after bar.symbol).map ofRecord = stretches (points ++ [⟨bar.ts, prev + signed⟩]) →
      isFlip prev (prev + signed) → |prev + signed| ≤ peak (latest sameSign points)) := by
  rw [isFlip_iff]
  cases fillCase prev signed moves with
  | opens flat =>
    -- the stretch that ends was flat, and there is no record of it
    subst flat
    obtain ⟨free, flat⟩ := tracks.idle
    rw [zero_add] at applied ⊢
    rw [applyToTrade_opens moves] at applied
    have apart : (0 : ℤ).sign ≠ signed.sign := by
      rw [Int.sign_zero, ne_comm, Ne, Int.sign_eq_zero_iff_zero]
      exact moves
    refine ⟨fun _ => tracks.turned apart ?_ ?_, fun _ flip => by omega⟩
    · rw [applied, Dict.get?_set_self, opened_singleton bar.ts moves]
      simp [ofTrade, SimulatedTrade.charged, newTrade]
    · rw [covered, flat, applied]
      simpa [recordsAt] using tracks.recorded
  | adds held =>
    rw [applied]
    exact ⟨fun _ => tracks.stays commission profit (by omega), fun _ flip => by omega⟩
  | reduces held =>
    rw [applied]
    exact ⟨fun _ => tracks.stays commission profit (by omega), fun _ flip => by omega⟩
  | closes held out =>
    obtain ⟨running, present, start, most⟩ := tracks.held held
    rw [applyToTrade_closes present held out] at applied
    have apart : prev.sign ≠ (prev + signed).sign := by
      rw [out, Int.sign_zero, Ne, Int.sign_eq_zero_iff_zero]
      exact held
    refine ⟨fun _ => tracks.turned apart ?_ ?_, fun _ flip => by omega⟩
    · rw [applied, Dict.get?_erase_self, out]
      rfl
    · -- flat does not count for the peak
      have most' : max running.peakQuantity |prev + signed| = running.peakQuantity := by
        rw [out, abs_zero, most]
        exact max_eq_left (peak_nonneg _)
      rw [covered, start, applied]
      simp [recordsAt, ofRecord, ofTrade, SimulatedTrade.recorded, SimulatedTrade.charged, most',
        ← tracks.recorded]
  | flips held =>
    obtain ⟨running, present, start, most⟩ := tracks.held (by omega)
    rw [applyToTrade_flips present held] at applied
    have apart : prev.sign ≠ (prev + signed).sign := by
      rcases held with ⟨long, beyond⟩ | ⟨short, beyond⟩
      · rw [Int.sign_eq_one_of_pos long, Int.sign_eq_neg_one_of_neg beyond]
        decide
      · rw [Int.sign_eq_neg_one_of_neg short, Int.sign_eq_one_of_pos beyond]
        decide
    -- the record takes in the position that the fill leaves on the other side
    have recorded : (recordsAt after bar.symbol).map ofRecord = stretches points ++
        [⟨⟨running.side, running.entryTs, max (peak (latest sameSign points)) |prev + signed|⟩,
          bar.ts⟩] := by
      rw [applied, ← most]
      simp [recordsAt, ofRecord, SimulatedTrade.recorded, SimulatedTrade.charged,
        ← tracks.recorded]
    have gone : (covered (latest sameSign points, ⟨bar.ts, prev + signed⟩)).toList =
        [⟨⟨running.side, running.entryTs, peak (latest sameSign points)⟩, bar.ts⟩] := by
      rw [covered, start, ← most]
      rfl
    constructor
    · intro within
      apply tracks.turned apart
      · rw [applied, Dict.get?_set_self, opened_singleton bar.ts (by omega)]
        rfl
      · rw [recorded, gone, max_eq_left (within held)]
    · intro same _
      rw [recorded, (tracks.turns _ apart).2, gone] at same
      have quantities := List.append_cancel_left same
      simp only [List.cons.injEq, Covered.mk.injEq, Opened.mk.injEq, and_true, true_and]
        at quantities
      exact max_eq_left_iff.mp quantities

/-- The trades of other symbols stay as they are. -/
theorem Tracks.elsewhere
    (tracks : Tracks points prev (m.openTrades.get? bar.symbol) (recordsAt m bar.symbol))
    (moves : signed ≠ 0) {other : Symbol} (elsewhere : other ≠ bar.symbol) :
    (applyToTrade m prev (prev + signed) commission profit bar).openTrades.get? other =
        m.openTrades.get? other ∧
      recordsAt (applyToTrade m prev (prev + signed) commission profit bar) other =
        recordsAt m other := by
  have stays (held : 0 < prev ∧ 0 < prev + signed ∨ prev < 0 ∧ prev + signed < 0) :
      (applyToTrade m prev (prev + signed) commission profit bar).openTrades.get? other =
          m.openTrades.get? other ∧
        recordsAt (applyToTrade m prev (prev + signed) commission profit bar) other =
          recordsAt m other := by
    obtain ⟨running, present, -⟩ := tracks.held (by omega)
    rw [applyToTrade_stays present held]
    exact ⟨Dict.get?_set_ne _ _ elsewhere, rfl⟩
  cases fillCase prev signed moves with
  | opens flat =>
    subst flat
    rw [zero_add, applyToTrade_opens moves]
    exact ⟨by simp [Dict.get?_set_ne _ _ elsewhere], rfl⟩
  | adds held => exact stays (by omega)
  | reduces held => exact stays (by omega)
  | closes held out =>
    obtain ⟨running, present, -⟩ := tracks.held held
    rw [applyToTrade_closes present held out]
    constructor
    · simp [Dict.get?_erase_ne _ elsewhere, Dict.get?_set_ne _ _ elsewhere]
    · simp [recordsAt, SimulatedTrade.recorded, Ne.symm elsewhere]
  | flips held =>
    obtain ⟨running, present, -⟩ := tracks.held (by omega)
    rw [applyToTrade_flips present held]
    constructor
    · simp [Dict.get?_erase_ne _ elsewhere, Dict.get?_set_ne _ _ elsewhere]
    · simp [recordsAt, SimulatedTrade.recorded, Ne.symm elsewhere]

end Step

/-! ### Runs -/

namespace History

variable {broker : MarketSimulatorBroker} {h after : History} {fill : Fill}

def Inv (h : History) : Prop :=
  ∀ symbol, Tracks (h.points symbol) (h.simulator.position symbol)
    (h.simulator.openTrades.get? symbol) (recordsAt h.simulator symbol)

theorem points_step (moved : step broker h fill = some after) (symbol : Symbol) :
    after.points symbol =
      if symbol = fill.bar.symbol then h.points symbol ++ [pointAfter h.simulator fill]
      else h.points symbol := by
  cases moved
  by_cases here : symbol = fill.bar.symbol
  · simp [points, here]
  · simp [points, here, Ne.symm here]

/-- A fill keeps the records right exactly when its flip, if it is one, is within the stretch. -/
theorem Inv.step (inv : h.Inv) (moved : step broker h fill = some after) :
    (h.FlipWithin fill → after.Inv) ∧ (after.Recorded → h.FlipWithin fill) := by
  obtain ⟨keeps, forced⟩ := (inv fill.bar.symbol).apply
    (broker.commissionPerContract * fill.quantity) (broker.profit h.simulator fill)
    fill.signedQuantity_ne_zero rfl
  have points := points_step moved
  cases moved
  constructor
  · intro within symbol
    rw [points, apply_position]
    by_cases here : symbol = fill.bar.symbol
    · subst here
      rw [if_pos rfl, if_pos rfl]
      exact keeps within
    · obtain ⟨trade, records⟩ := (inv fill.bar.symbol).elsewhere
        (broker.commissionPerContract * fill.quantity) (broker.profit h.simulator fill)
        fill.signedQuantity_ne_zero here
      rw [if_neg here, if_neg here, apply_openTrades, trade]
      exact records ▸ inv symbol
  · intro recorded flips
    have here := recorded fill.bar.symbol
    rw [points, if_pos rfl] at here
    exact forced here flips

theorem inv_started (startingEquity : ℚ) : Inv ⟨SimulatorLedger.started startingEquity, []⟩ :=
  fun _ => tracks_unused

/-- Over every sequence of fills on any symbols, the records of each symbol are one for one the
stretches over which its position kept one sign, exactly when no fill that passes through zero
leaves a larger position than the stretch that it ends has held. -/
theorem stretches_recorded (broker : MarketSimulatorBroker) (startingEquity : ℚ)
    (fills : List Fill) :
    Machine.Meets (step broker) FlipWithin ⟨SimulatorLedger.started startingEquity, []⟩ fills ↔
      Machine.Always (step broker) Recorded ⟨SimulatorLedger.started startingEquity, []⟩ fills := by
  apply Machine.meets_iff_always Inv Recorded
  · exact fun h inv symbol => (inv symbol).recorded
  · exact fun h fill after inv within moved => (inv.step moved).1 within
  · exact fun h fill after inv moved recorded => (inv.step moved).2 recorded
  · intro h fill stuck
    cases stuck
  · exact inv_started startingEquity

theorem flipping_sale : (0 : ℤ) < 3 := by decide

/-- A buy of one, and a sale of three. -/
def flipping : List Fill :=
  [⟨⟨SimulatorLedger.order 0 .buy, 100, 1, 0⟩, 1, 100, SimulatorLedger.barAt 1, Int.one_pos⟩,
   ⟨⟨SimulatorLedger.order 1 .sell, 100, 3, 0⟩, 3, 100, SimulatorLedger.barAt 2, flipping_sale⟩]

/-- The trade that was long one is recorded with a quantity of two. -/
theorem flip_recorded_larger :
    ¬ ∀ (broker : MarketSimulatorBroker) (startingEquity : ℚ) (fills : List Fill),
      Machine.Always (step broker) Recorded
        ⟨SimulatorLedger.started startingEquity, []⟩ fills := by
  intro claim
  have recorded := (claim SimulatorLedger.desk 10000 flipping).reached rfl "ES"
  revert recorded
  decide +kernel

end History

end Binbot.TradeStretches
