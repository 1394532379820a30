import Binbot.Properties.DrawdownSession
import Binbot.Server.KpiLoop

/-!
# The daily loss that is shown

Next to the daily limit the dashboard shows what is used of it. The bridge adds up all closed
trades it still holds, and these are of several days after a restart; of its open positions it
knows only with a provider. What it shows is the day's loss exactly as long as that makes no
difference.
-/
namespace Binbot.DailyLossShown

open Async Data KpiLoop

def total (trades : List ClosedTrade) : ℚ := (trades.map (·.pnl)).sum

/-- The day as it was: all trades that were found on disk and those closed since. -/
structure Day where
  today : Date
  recovered : List ClosedTrade
  since : List ClosedTrade
  unrealizedPnl : ℚ

namespace Day

variable (day : Day)

def trades : List ClosedTrade := day.recovered ++ day.since

/-- What the bridge still holds of them. -/
def retained : List ClosedTrade :=
  (day.since.foldl ClientState.recordTrade { closedTradesRecent := day.recovered }).closedTradesRecent

/-- The trades over the bridge's cap. -/
def dropped : List ClosedTrade := day.trades.take (day.trades.length - day.retained.length)

def pnl : ℚ := total (day.trades.filter (·.exitTs.date = day.today)) + day.unrealizedPnl

def lossUsed : ℚ := max 0 (-day.pnl)

/-- What the bridge counts besides the day's P&L: the trades of other days that it holds, less
what it does not know of this one. -/
def stray (provides : Bool) : ℚ :=
  total (day.retained.filter (·.exitTs.date ≠ day.today)) -
    total (day.dropped.filter (·.exitTs.date = day.today)) -
    if provides then 0 else day.unrealizedPnl

/-- The rest adds up to nothing, or the day shows no loss with it or without. -/
def Immaterial (provides : Bool) : Prop :=
  day.stray provides = 0 ∨ (0 ≤ day.pnl ∧ 0 ≤ day.pnl + day.stray provides)

end Day

/-! ### What the bridge holds -/

theorem latest_suffix {α : Type} (bound : ℕ) (recent : List α) :
    ClientState.latest bound recent <:+ recent := by
  unfold ClientState.latest
  split
  · exact List.drop_suffix _ _
  · exact List.suffix_rfl

theorem recordTrades_suffix (since : List ClosedTrade) (m : ClientState) :
    (since.foldl ClientState.recordTrade m).closedTradesRecent <:+
      m.closedTradesRecent ++ since := by
  induction since using List.reverseRecOn with
  | nil => simp
  | append_singleton before trade ih =>
    obtain ⟨front, whole⟩ := ih
    rw [List.foldl_append, List.foldl_cons, List.foldl_nil, ← List.append_assoc, ← whole,
      List.append_assoc]
    -- The cap takes from the front only.
    exact (latest_suffix _ _).trans (List.suffix_append _ _)

theorem Day.dropped_append_retained (day : Day) : day.dropped ++ day.retained = day.trades := by
  obtain ⟨front, whole⟩ : day.retained <:+ day.trades := recordTrades_suffix day.since _
  rw [dropped, ← whole]
  simp

theorem total_append (trades more : List ClosedTrade) :
    total (trades ++ more) = total trades + total more := by simp [total]

theorem total_cons (trade : ClosedTrade) (rest : List ClosedTrade) :
    total (trade :: rest) = trade.pnl + total rest := by simp [total]

theorem total_filter_add (trades : List ClosedTrade) (p : ClosedTrade → Prop) [DecidablePred p] :
    total (trades.filter p) + total (trades.filter fun trade => ¬ p trade) = total trades := by
  induction trades with
  | nil => simp [total]
  | cons trade rest ih =>
    by_cases counted : p trade
    · rw [List.filter_cons_of_pos (by simpa using counted),
        List.filter_cons_of_neg (by simpa using counted), total_cons, total_cons, ← ih]
      ring
    · rw [List.filter_cons_of_neg (by simpa using counted),
        List.filter_cons_of_pos (by simpa using counted), total_cons, total_cons, ← ih]
      ring

/-- The bridge's total is the day's P&L and what else it counts. -/
theorem Day.total_retained (day : Day) (provides : Bool) :
    total day.retained + (if provides then day.unrealizedPnl else 0) =
      day.pnl + day.stray provides := by
  have split := total_filter_add day.retained (·.exitTs.date = day.today)
  have of_day : total (day.trades.filter (·.exitTs.date = day.today)) =
      total (day.dropped.filter (·.exitTs.date = day.today)) +
        total (day.retained.filter (·.exitTs.date = day.today)) := by
    rw [← day.dropped_append_retained, List.filter_append, total_append]
  rw [pnl, stray, of_day, ← split]
  cases provides <;> simp <;> ring

theorem max_neg_eq_iff (x y : ℚ) : max 0 (-x) = max 0 (-y) ↔ x = y ∨ (0 ≤ y ∧ 0 ≤ x) := by
  rcases le_or_gt 0 x with hx | hx <;> rcases le_or_gt 0 y with hy | hy
  · simp [hx, hy]
  · rw [max_eq_left (by linarith), max_eq_right (by linarith)]
    constructor
    · intro same
      linarith
    · rintro (rfl | ⟨nonneg, -⟩) <;> linarith
  · rw [max_eq_right (by linarith), max_eq_left (by linarith)]
    constructor
    · intro same
      linarith
    · rintro (rfl | ⟨-, nonneg⟩) <;> linarith
  · rw [max_eq_right (by linarith), max_eq_right (by linarith), neg_inj]
    constructor
    · exact .inl
    · rintro (same | ⟨nonneg, -⟩)
      · exact same
      · linarith

theorem Day.shown_eq_iff (day : Day) (provides : Bool) :
    max 0 (-(total day.retained + if provides then day.unrealizedPnl else 0)) = day.lossUsed ↔
      day.Immaterial provides := by
  rw [day.total_retained, lossUsed, max_neg_eq_iff, Immaterial, add_eq_left]

/-! ### What the bridge sends -/

/-- What is known of the day once the positions have been answered: the trades and the clock are
those of the moment at which the bridge goes on. -/
def Reads (q : KpiRequest) (r : Answer kpiSig q) (before after : Option Day) (s : KpiMemory) : Prop :=
  match q, r with
  | .positionDetails, .ok details =>
    ∃ day : Day, after = some day ∧ day.today = s.around.now.date ∧
      day.retained = s.around.desk.closedTradesRecent ∧
      day.unrealizedPnl = (details.map (·.unrealizedPnl)).sum
  | .positions, .ok _ =>
    ∃ day : Day, after = some day ∧ day.today = s.around.now.date ∧
      day.retained = s.around.desk.closedTradesRecent
  | _, _ => after = before

/-- Other tasks do what they like in the meantime, and `Shows` is what is asked of the risk
figures. -/
def showing (Shows : Day → RiskFigures → Prop) : Contract (Option Day) KpiMemory kpiSig where
  issue q known _ := ∀ figures, q = .broadcast (.risk figures) → ∃ day ∈ known, Shows day figures
  rely q r before _ after s := Reads q r before after s
  guar _ _ := True

section Pass

variable {Shows : Day → RiskFigures → Prop} {self : KpiLoop}

/-- Nothing but the risk figures has to be shown. -/
theorem free_ask {q : KpiRequest} (no_risk : ∀ figures, q ≠ .broadcast (.risk figures)) :
    (ask q).Keeps (showing Shows) fun _ _ => True :=
  Coro.keeps_request (S := kpiSig) (fun _ _ _ figures sent => absurd sent (no_risk figures))
    fun _ _ _ _ _ _ _ => trivial

/-- A broadcast leaves what is known of the day. -/
theorem keeps_broadcast {day : Day} {message : KpiMessage}
    (no_risk : ∀ figures, message ≠ .risk figures) :
    (KpiLoop.broadcast message).Keeps (showing Shows) fun known _ => known = some day := by
  apply Coro.keeps_request (S := kpiSig)
  · intro known s _ figures sent
    exact absurd (KpiRequest.broadcast.inj sent) (no_risk figures)
  · intro r known s known' s' held kept
    exact (show known' = known from kept).trans held

theorem free_pushOpenTrades (self : KpiLoop) :
    self.pushOpenTrades.Keeps (showing Shows) fun _ _ => True := by
  rw [pushOpenTrades]
  split
  · refine (free_ask (by simp)).bind fun details => ?_
    exact Coro.keeps_view.bind fun m => free_ask (by simp)
  · exact Coro.keeps_pure ()

/-- The positions have been answered, and this is the day then. -/
def Known (self : KpiLoop) (unrealized : ℚ) (known : Option Day) (s : KpiMemory) : Prop :=
  ∃ day, known = some day ∧ day.retained = s.around.desk.closedTradesRecent ∧
    unrealized = if self.provides then day.unrealizedPnl else 0

/-- However the positions are answered, the next thing that is read is of the same moment. -/
theorem exposure_obeys (known : Option Day) (s : KpiMemory) :
    self.exposure.Obeys (showing Shows)
      (fun r known s => ∀ exposed, r = .ok exposed → Known self exposed.1 known s) known s := by
  rw [exposure]
  split
  next provides =>
    -- The details of the positions come with what is unrealized on them.
    rw [Coro.obeys_bind, ask, Coro.obeys_request]
    refine ⟨fun figures sent => (by cases sent), fun r known' s' reads => ?_⟩
    cases r with
    | error e => rintro exposed ⟨⟩
    | ok details =>
      obtain ⟨day, rfl, -, retained, unrealized⟩ := reads
      rintro exposed ⟨⟩
      exact ⟨day, rfl, retained, by rw [if_pos provides, unrealized]⟩
  next without =>
    -- Positions alone count as no loss.
    rw [Coro.obeys_bind, ask, Coro.obeys_request]
    refine ⟨fun figures sent => (by cases sent), fun r known' s' reads => ?_⟩
    cases r with
    | error e => rintro exposed ⟨⟩
    | ok positions =>
      obtain ⟨day, rfl, -, retained⟩ := reads
      rintro exposed ⟨⟩
      exact ⟨day, rfl, retained, by rw [if_neg without]⟩

-- The limit, and what is realized and unrealized at one moment, are all that is shown.
variable (shows : ∀ (day : Day) (figures : RiskFigures),
  figures.maxDailyLossUsd = self.maxDailyLossUsd →
  figures.dailyLossUsedUsd =
    max 0 (-(total day.retained + if self.provides then day.unrealizedPnl else 0)) →
  Shows day figures)

include shows

theorem pushStatusAndKpis_obeys (known : Option Day) (s : KpiMemory) :
    self.pushStatusAndKpis.Obeys (showing Shows) (fun _ _ _ => True) known s := by
  rw [pushStatusAndKpis]
  refine Coro.Obeys.followed ((free_ask (by simp)) known s trivial) fun equity => ?_
  refine Coro.Keeps.bind (Coro.keeps_update fun _ _ _ => ⟨trivial, trivial⟩) fun _ => ?_
  refine (free_ask (by simp)).bind fun margin => ?_
  intro known s _
  apply (exposure_obeys known s).bind _ fun _ _ _ _ => trivial
  rintro ⟨unrealized, contracts⟩ known s exposed
  obtain ⟨day, rfl, retained, unrealized_eq⟩ := exposed _ rfl
  dsimp only at unrealized_eq ⊢
  rw [Coro.obeys_bind, Coro.obeys_view]
  dsimp only [Part.whole_view]
  rw [← retained, unrealized_eq]
  -- From here to the risk figures the day stays the one that was read.
  refine Coro.Obeys.mono (Q := fun _ known _ => known = some day) ?_ fun _ _ _ _ => trivial
  suffices keeps : Coro.Keeps (showing Shows) (fun known _ => known = some day) _ from
    keeps _ _ rfl
  refine (keeps_broadcast (by simp)).bind fun _ => ?_
  refine (keeps_broadcast (by simp)).bind fun _ => ?_
  refine Coro.keeps_view.bind fun m => (keeps_broadcast (by simp)).bind fun _ => ?_
  refine Coro.keeps_view.bind fun m => ?_
  apply Coro.keeps_request (S := kpiSig)
  · rintro known s rfl figures ⟨⟩
    exact ⟨day, rfl, shows day _ rfl rfl⟩
  · intro r known s known' s' held kept
    exact (show known' = known from kept).trans held

theorem pass_obeys (known : Option Day) (s : KpiMemory) :
    self.pass.Obeys (showing Shows) (fun _ _ _ => True) known s := by
  refine Coro.Obeys.handled (I := fun _ _ => True) ?_ fun _ => Coro.keeps_pure ()
  exact (pushStatusAndKpis_obeys shows known s).followed fun _ => free_pushOpenTrades self

end Pass

/-- In every pass, whatever else goes on, the loss shown next to the limit is the day's if and
only if what the bridge counts besides it makes no difference. -/
theorem shown_loss_iff (self : KpiLoop) (known : Option Day) (s : KpiMemory) :
    self.pass.Obeys
      (showing fun day figures => figures.maxDailyLossUsd = self.maxDailyLossUsd ∧
        (figures.dailyLossUsedUsd = day.lossUsed ↔ day.Immaterial self.provides))
      (fun _ _ _ => True) known s := by
  apply pass_obeys
  intro day figures limit used
  refine ⟨limit, ?_⟩
  rw [used]
  exact day.shown_eq_iff self.provides

/-! ### A loss of yesterday -/

/-- A hundred dollars lost on the day before. -/
def yesterdaysLoss : ClosedTrade where
  symbol := "BTCUSDT"
  side := .buy
  entryTs := 80000000000
  exitTs := 86000000000
  quantity := 1
  entryPrice := 300
  exitPrice := 200
  pnl := -100

/-- Shortly after a restart past midnight. -/
def afterMidnight : KpiMemory where
  around :=
    { now := 86500000000
      connected := true
      strategyPaused := false
      breaker := DrawdownCircuitBreaker.demoBreaker
      tracker := {}
      desk := { closedTradesRecent := [yesterdaysLoss] } }

def freshDay : Day where
  today := 1
  recovered := [yesterdaysLoss]
  since := []
  unrealizedPnl := 0

def sampleLoop : KpiLoop := ⟨1000, 10, true⟩

theorem yesterdaysLoss_shown :
    ¬ sampleLoop.pass.Obeys (showing fun day figures => figures.dailyLossUsedUsd = day.lossUsed)
      (fun _ _ _ => True) none afterMidnight := by
  intro obeys
  have margin := (obeys.2 (.ok 1000) none afterMidnight rfl).2
  have exposed := margin.2 (.ok ⟨0, 0⟩) none afterMidnight rfl
  have status := exposed.2 (.ok []) (some freshDay) afterMidnight ⟨freshDay, rfl, by decide, rfl, rfl⟩
  have kpis := status.2 (.ok ()) (some freshDay) afterMidnight rfl
  have point := kpis.2 (.ok ()) (some freshDay) afterMidnight rfl
  have risk := point.2 (.ok ()) (some freshDay) afterMidnight rfl
  obtain ⟨day, known, shown⟩ := risk.1 _ rfl
  cases known
  revert shown
  decide +kernel

end Binbot.DailyLossShown
