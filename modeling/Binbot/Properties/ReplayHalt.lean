import Binbot.Properties.MarkedEquity
import Mathlib.Order.Bounds.Basic

/-!
# Where a backtest stops (`backtest/engine.py`)

The loop is left at the first bar whose equity lies the limit or more below an equity of its
day, or below the last one before the day, and at no other bar.
-/
namespace Binbot

open Data

/-- The equity curve with its timestamps, newest first. -/
def Replay.points (r : Replay) : List (Timestamp × ℚ) :=
  (r.equityTimestamps.zip r.equityCurve).reverse

namespace ReplayHalt

open BacktestEngine DrawdownCircuitBreaker

/-- From the one equity to the other is a loss of `limit` percent or more. -/
def Falls (limit high low : ℚ) : Prop := (high - low) * 100 ≥ limit * high

instance (limit high low : ℚ) : Decidable (Falls limit high low) :=
  inferInstanceAs (Decidable (_ ≥ _))

/-- The equities of a day and the last one before it, of points that end on that day. -/
def backTo (day : Date) : List (Timestamp × ℚ) → List ℚ
  | [] => []
  | (ts, equity) :: earlier =>
    if ts.date = day then equity :: backTo day earlier else [equity]

/-- No point lies the limit or more below an earlier one of its day, or the last before it. -/
def Within (limit : ℚ) : List (Timestamp × ℚ) → Prop
  | [] => True
  | (ts, equity) :: earlier =>
    (∀ high ∈ backTo ts.date earlier, ¬ Falls limit high equity) ∧ Within limit earlier

/-- The newest point is the first to lie the limit or more below one of its day. -/
def Stops (limit : ℚ) : List (Timestamp × ℚ) → Prop
  | [] => False
  | (ts, equity) :: earlier =>
    (∃ high ∈ backTo ts.date earlier, Falls limit high equity) ∧ Within limit earlier

section Losses

variable {limit : ℚ}

/-- Who falls by the limit from an equity falls by it from any higher one. -/
theorem Falls.mono {high higher low : ℚ} (le : limit ≤ 100) (above : high ≤ higher)
    (falls : Falls limit high low) : Falls limit higher low := by
  rw [Falls] at falls ⊢
  have more : (100 - limit) * high ≤ (100 - limit) * higher :=
    mul_le_mul_of_nonneg_left above (by linarith)
  linarith

/-- Nobody falls from an equity to a higher one. -/
theorem not_falls {high low : ℚ} (pos : 0 < limit) (positive : 0 < high) (above : high ≤ low) :
    ¬ Falls limit high low := by
  rw [Falls, not_le]
  have some_ : 0 < limit * high := mul_pos pos positive
  linarith

/-- Some earlier equity is the limit above exactly when the greatest is. -/
theorem exists_falls_iff {highs : List ℚ} {peak low : ℚ} (le : limit ≤ 100)
    (greatest : IsGreatest {x | x ∈ highs} peak) :
    (∃ high ∈ highs, Falls limit high low) ↔ Falls limit peak low := by
  constructor
  · rintro ⟨high, member, falls⟩
    exact falls.mono le (greatest.2 member)
  · exact fun falls => ⟨peak, greatest.1, falls⟩

/-- The equity itself makes no difference to the peak it is measured from. -/
theorem falls_max_iff {peak low : ℚ} (pos : 0 < limit) (positive : 0 < peak) (solvent : 0 < low) :
    Falls limit (max peak low) low ↔ Falls limit peak low := by
  rcases le_total low peak with below | above
  · rw [max_eq_left below]
  · rw [max_eq_right above]
    exact iff_of_false (not_falls pos solvent le_rfl) (not_falls pos positive above)

end Losses

/-- The breaker's session at a replay whose newest points belong to `day`. -/
structure Session (day : Date) (points : List (Timestamp × ℚ)) (b : DrawdownCircuitBreaker) :
    Prop where
  date_eq : b.sessionDate = day
  running : b.halted = false
  start_pos : 0 < b.startingEquity
  ratchet : b.startingEquity ≤ b.peakEquity
  greatest : IsGreatest {x | x ∈ backTo day points} b.peakEquity

/-- A new day starts at the last equity before it. -/
theorem session_reset (b : DrawdownCircuitBreaker) {ts : Timestamp} {day : Date} {equity : ℚ}
    (earlier : List (Timestamp × ℚ)) (positive : 0 < equity) (other : ts.date ≠ day) :
    Session day ((ts, equity) :: earlier) (b.resetSession equity day) := by
  constructor
  · rfl
  · rfl
  · exact positive
  · exact le_rfl
  · simp [backTo, other, resetSession]

/-- What the reading at the end of a bar does to the session, and what it returns. -/
theorem Session.update {day : Date} {points : List (Timestamp × ℚ)} {b : DrawdownCircuitBreaker}
    (session : Session day points b) {equity : ℚ} {now : Timestamp} (today : now.date = day)
    (solvent : 0 < equity) :
    ((b.update equity now).2 = .ok true ∧ ∃ high ∈ backTo day points,
        Falls b.maxDailyDrawdownPct high equity) ∨
      ((b.update equity now).2 = .ok false ∧
        (∀ high ∈ backTo day points, ¬ Falls b.maxDailyDrawdownPct high equity) ∧
        Session day ((now, equity) :: points) (b.update equity now).1) := by
  have sameDay : now.date = b.sessionDate := today.trans session.date_eq.symm
  have peak_pos : 0 < b.peakEquity := session.start_pos.trans_le session.ratchet
  have ratchet : b.startingEquity ≤ max b.peakEquity equity :=
    session.ratchet.trans (le_max_left _ _)
  obtain ⟨returned, halts⟩ :=
    Positive.update_running ⟨session.start_pos, peak_pos⟩ equity now sameDay session.running
  -- the reading reaches the limit just when some equity of the day lies that far above it
  have reached : drawdownPct b.startingEquity (max b.peakEquity equity) equity ≥
      b.maxDailyDrawdownPct ↔
        ∃ high ∈ backTo day points, Falls b.maxDailyDrawdownPct high equity := by
    rw [drawdownPct_ge_iff session.start_pos ratchet solvent.le,
      exists_falls_iff b.pct_le session.greatest, ← falls_max_iff b.pct_pos peak_pos solvent]
    rfl
  by_cases trips : ∃ high ∈ backTo day points, Falls b.maxDailyDrawdownPct high equity
  · left
    rw [returned, decide_eq_true (reached.mpr trips)]
    exact ⟨rfl, trips⟩
  · right
    have short := decide_eq_false (fun deep => trips (reached.mp deep))
    obtain ⟨date, starting, peak⟩ := b.update_session equity now sameDay
    rw [returned, short]
    refine ⟨rfl, fun high member falls => trips ⟨high, member, falls⟩, ?_⟩
    constructor
    · exact date.trans session.date_eq
    · rw [halts, short]
    · exact starting ▸ session.start_pos
    · rw [starting, peak]
      exact ratchet
    · rw [peak, max_comm]
      have points' : {x | x ∈ backTo day ((now, equity) :: points)} =
          insert equity {x | x ∈ backTo day points} := by
        ext x
        simp [backTo, today]
      rw [points']
      exact session.greatest.insert equity

/-- Where the replay stands in its day. -/
def Standing (limit : ℚ) (r : Replay) : Prop :=
  match r.phase with
  | .betweenBars => Within limit r.points ∧
      Session r.sessionDate r.points r.riskEngine.circuitBreaker ∧
      ∃ ts earlier, r.points = (ts, r.simulator.equity) :: earlier ∧ ts.date = r.sessionDate
  | .reacting bar _ => Within limit r.points ∧ bar.ts.date = r.sessionDate ∧
      Session r.sessionDate r.points r.riskEngine.circuitBreaker
  | .halted => Stops limit r.points
  | .raised _ => Within limit r.points

structure Inv (limit : ℚ) (r : Replay) : Prop where
  lengths : r.equityTimestamps.length = r.equityCurve.length
  limit_eq : r.riskEngine.circuitBreaker.maxDailyDrawdownPct = limit
  standing : Standing limit r

variable {engine : BacktestEngine} {limit startingEquity : ℚ} {r t : Replay}

theorem inv_begin {riskEngine : RiskEngine} {bars : List BarEvent} (positive : 0 < startingEquity)
    (begun : BacktestEngine.begin riskEngine startingEquity bars = .ok r) :
    Inv riskEngine.circuitBreaker.maxDailyDrawdownPct r := by
  rw [BacktestEngine.begin] at begun
  split at begun
  · cases begun
  next first rest _ =>
    cases begun
    constructor
    · rfl
    · rfl
    · refine ⟨?_, ?_, first.ts, [], rfl, rfl⟩
      · simp [Replay.points, Within, backTo]
      · constructor
        · rfl
        · rfl
        · exact positive
        · exact le_rfl
        · simp [Replay.points, backTo, resetSession]

theorem inv_openBar (held : Inv limit r) (between : r.phase = .betweenBars)
    (solvent : ∀ e ∈ r.equityCurve, 0 < e) (bar : BarEvent) (rest : List BarEvent) :
    Inv limit (engine.openBar r bar rest) := by
  obtain ⟨lengths, limit_eq, standing⟩ := held
  simp only [Standing, between] at standing
  obtain ⟨within, session, ts, earlier, points, today⟩ := standing
  have positive : 0 < r.simulator.equity := by
    apply solvent
    have member : (ts, r.simulator.equity) ∈ r.points := by simp [points]
    rw [Replay.points, List.mem_reverse] at member
    exact (List.of_mem_zip member).2
  have opened : Session bar.ts.date r.points
      (engine.marketState r bar).riskEngine.circuitBreaker := by
    simp only [marketState, RiskEngine.updateMarketState, RiskEngine.setContractMultiplier]
    split
    next other =>
      rw [points]
      exact session_reset _ earlier positive fun same => other (same ▸ today)
    next same =>
      rw [not_not.mp same]
      exact session
  have kept : (engine.marketState r bar).riskEngine.circuitBreaker.maxDailyDrawdownPct = limit := by
    simp only [marketState, RiskEngine.updateMarketState, RiskEngine.setContractMultiplier]
    split <;> exact limit_eq
  rw [openBar]
  dsimp only
  split
  · exact ⟨lengths, kept, within⟩
  · exact ⟨lengths, kept, within, rfl, opened⟩

theorem inv_onSignal (held : Inv limit r) {bar : BarEvent} {signal : SignalEvent}
    {others : List SignalEvent} (reacting : r.phase = .reacting bar (signal :: others)) :
    Inv limit (engine.onSignal r bar signal others) := by
  obtain ⟨lengths, limit_eq, standing⟩ := held
  simp only [Standing, reacting] at standing
  obtain ⟨limiter, checked⟩ := r.riskEngine.checkOrder_engine signal (engine.account r)
    (engine.monotonic r.checks)
  rw [onSignal]
  simp only [BacktestEngine.checked, checked]
  split
  · exact ⟨lengths, limit_eq, standing⟩
  · exact ⟨lengths, limit_eq, standing⟩

theorem points_closeBar (lengths : r.equityTimestamps.length = r.equityCurve.length)
    (bar : BarEvent) : (closeBar r bar).points = (bar.ts, r.simulator.equity) :: r.points := by
  simp [closeBar, Replay.points, List.zip_append lengths]

theorem breaker_closeBar (bar : BarEvent) :
    (closeBar r bar).riskEngine.circuitBreaker =
      (r.riskEngine.circuitBreaker.update r.simulator.equity bar.ts).1 := by
  rw [closeBar, RiskEngine.updatePositions_eq]

theorem phase_closeBar (bar : BarEvent) : (closeBar r bar).phase =
    match (r.riskEngine.circuitBreaker.update r.simulator.equity bar.ts).2 with
    | .ok false => .betweenBars
    | .ok true => .halted
    | .error message => .raised message := by
  have same : (r.riskEngine.updatePositions r.simulator.positions).circuitBreaker =
      r.riskEngine.circuitBreaker := by
    rw [RiskEngine.updatePositions_eq]
  exact same ▸ rfl

theorem inv_closeBar (held : Inv limit r) {bar : BarEvent} (reacting : r.phase = .reacting bar [])
    (solvent : 0 < r.simulator.equity) : Inv limit (closeBar r bar) := by
  obtain ⟨lengths, limit_eq, standing⟩ := held
  simp only [Standing, reacting] at standing
  obtain ⟨within, today, session⟩ := standing
  have points := points_closeBar lengths bar
  have phase := phase_closeBar (r := r) bar
  constructor
  · simp [closeBar, lengths]
  · rw [breaker_closeBar, update_limit]
    exact limit_eq
  · rcases session.update today solvent with ⟨trips, high, member, falls⟩ | ⟨runs, short, next⟩
    · rw [trips] at phase
      simp only [Standing, phase, points]
      rw [limit_eq] at falls
      exact ⟨⟨high, today ▸ member, falls⟩, within⟩
    · rw [runs] at phase
      simp only [Standing, phase, points]
      rw [limit_eq] at short
      refine ⟨⟨?_, within⟩, ?_, bar.ts, r.points, rfl, today⟩
      · exact today ▸ short
      · rw [breaker_closeBar]
        exact next

theorem curve_begin {riskEngine : RiskEngine} {bars : List BarEvent}
    (begun : BacktestEngine.begin riskEngine startingEquity bars = .ok r) :
    r.equityCurve = [startingEquity] := by
  rw [BacktestEngine.begin] at begun
  split at begun
  · cases begun
  · cases begun
    rfl

theorem curve_step {u : Unit} (moved : engine.step r u = some t) :
    ∃ more, t.equityCurve = r.equityCurve ++ more := by
  rw [step] at moved
  split at moved
  next bar rest _ _ =>
    cases moved
    refine ⟨[], ?_⟩
    rw [openBar]
    dsimp only
    split <;> simp [marketState]
  next => cases moved
  next bar signal others _ =>
    cases moved
    refine ⟨[], ?_⟩
    rw [onSignal]
    split <;> simp [submit]
  next bar _ =>
    cases moved
    exact ⟨[r.simulator.equity], rfl⟩
  next => cases moved
  next => cases moved

theorem inv_step {u : Unit} (held : Inv limit r) (solvent : ∀ e ∈ t.equityCurve, 0 < e)
    (moved : engine.step r u = some t) : Inv limit t := by
  obtain ⟨more, grows⟩ := curve_step moved
  rw [step] at moved
  split at moved
  next bar rest between _ =>
    cases moved
    refine inv_openBar held between (fun e member => solvent e ?_) bar rest
    rw [grows]
    exact List.mem_append_left _ member
  next => cases moved
  next bar signal others reacting =>
    cases moved
    exact inv_onSignal held reacting
  next bar reacting =>
    cases moved
    exact inv_closeBar held reacting (solvent _ (by simp [closeBar]))
  next => cases moved
  next => cases moved

theorem not_within_of_stops {points : List (Timestamp × ℚ)} (stops : Stops limit points) :
    ¬ Within limit points := by
  cases points with
  | nil => exact stops.elim
  | cons point earlier =>
    obtain ⟨⟨high, member, falls⟩, -⟩ := stops
    exact fun within => within.1 high member falls

theorem inv_run (steps : List Unit) (held : 0 < startingEquity → Inv limit r)
    (begun : r.equityCurve = [startingEquity]) (reached : Machine.run engine.step r steps = some t)
    (solvent : ∀ e ∈ t.equityCurve, 0 < e) : Inv limit t := by
  -- the curve only grows, so the equity has been positive all along
  apply Machine.run_preserves (fun u : Replay => (∀ e ∈ u.equityCurve, 0 < e) → Inv limit u)
    _ r steps t _ reached solvent
  · intro u _ v inv moved positive
    obtain ⟨more, grows⟩ := curve_step moved
    refine inv_step (inv fun e member => positive e ?_) positive moved
    rw [grows]
    exact List.mem_append_left _ member
  · intro positive
    exact held (positive _ (by simp [begun]))

/-- A backtest whose equity stays positive is halted exactly at the first bar at which the
equity lies the limit or more below an equity of that day or the last one before it. -/
theorem halts_at_limit (engine : BacktestEngine) {riskEngine : RiskEngine} {startingEquity : ℚ}
    {bars : List BarEvent} {start t : Replay} (steps : List Unit)
    (begun : BacktestEngine.begin riskEngine startingEquity bars = .ok start)
    (reached : Machine.run engine.step start steps = some t)
    (solvent : ∀ e ∈ t.equityCurve, 0 < e) :
    (t.phase = .halted ↔ Stops riskEngine.circuitBreaker.maxDailyDrawdownPct t.points) ∧
      (t.phase ≠ .halted ↔ Within riskEngine.circuitBreaker.maxDailyDrawdownPct t.points) := by
  have held := inv_run steps (fun positive => inv_begin positive begun) (curve_begin begun) reached
    solvent
  -- within the limit, the points do not stop the run
  have settled {phase : ReplayPhase} (running : phase ≠ .halted)
      (within : Within riskEngine.circuitBreaker.maxDailyDrawdownPct t.points) :
      (phase = .halted ↔ Stops riskEngine.circuitBreaker.maxDailyDrawdownPct t.points) ∧
        (phase ≠ .halted ↔ Within riskEngine.circuitBreaker.maxDailyDrawdownPct t.points) := by
    have still : ¬ Stops riskEngine.circuitBreaker.maxDailyDrawdownPct t.points :=
      fun stops => not_within_of_stops stops within
    simp [running, within, still]
  have standing := held.standing
  cases phase : t.phase with
  | halted =>
    simp only [Standing, phase] at standing
    have broken := not_within_of_stops standing
    exact ⟨by simp [standing], by simp [broken]⟩
  | betweenBars =>
    simp only [Standing, phase] at standing
    exact settled nofun standing.1
  | reacting bar signals =>
    simp only [Standing, phase] at standing
    exact settled nofun standing.1
  | raised message =>
    simp only [Standing, phase] at standing
    exact settled nofun standing

/-- It buys after the first bar and sells after the second. -/
def swinger : BacktestEngine where
  broker := { SimulatorLedger.desk with impact := ⟨0, 0, 1⟩ }
  strategy published :=
    if published.length = 1 then
      [{ symbol := "NQ", strategyId := "swing", side := .buy, targetQuantity := 1 }]
    else if published.length = 2 then
      [{ symbol := "NQ", strategyId := "swing", side := .sell, targetQuantity := 1 }]
    else []
  monotonic n := n

def openAt (ts : Timestamp) (price : ℚ) : BarEvent := ⟨ts, "NQ", price, price, price, price, 1000⟩

/-- Bought on the second day, sold on it far below. -/
def fallingDay : List BarEvent :=
  [openAt 0 100, openAt 86400000000 100, openAt 86400000001 10, openAt 86400000002 10]

theorem halts_at_limit_fallingDay :
    ∃ start t, BacktestEngine.begin NoLookahead.riskDesk 1000 fallingDay = .ok start ∧
      Machine.run swinger.step start (List.replicate 8 ()) = some t ∧ t.phase = .halted ∧
      Stops NoLookahead.riskDesk.circuitBreaker.maxDailyDrawdownPct t.points := by
  have ends : (swinger.replay NoLookahead.riskDesk 1000 fallingDay 8).map (fun run =>
      decide (run.2.phase = .halted ∧ ∀ e ∈ run.2.equityCurve, 0 < e)) = some true := by
    decide +kernel
  obtain ⟨⟨start, t⟩, reached, facts⟩ := Option.map_eq_some_iff.mp ends
  obtain ⟨begun, ran⟩ := replay_eq_some _ reached
  obtain ⟨halted, solvent⟩ := of_decide_eq_true facts
  exact ⟨start, t, begun, ran, halted,
    (halts_at_limit swinger _ begun ran solvent).1.mp halted⟩

end ReplayHalt

end Binbot
