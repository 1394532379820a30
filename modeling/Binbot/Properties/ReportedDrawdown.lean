import Binbot.Properties.DrawdownSession
import Binbot.Server.KpiLoop

/-!
# The reported drawdown

The dashboard labels the drawdown of an equity point as one from the high-water mark. The loop
keeps no such mark: it compares with the first equity it has seen. What it sends is right
exactly as long as no equity in between is above both the first and the latest one.
-/
namespace Binbot.ReportedDrawdown

open Async Data KpiLoop

-- ═══════════════════════════════════════════════════════════════
-- What an equity point should say
-- ═══════════════════════════════════════════════════════════════

def equityOf : Event kpiSig → Option ℚ
  | ⟨.accountEquity, .ok equity⟩ => some equity
  | _ => none

/-- The equities that the loop has observed, oldest first. -/
def observed (log : List (Event kpiSig)) : List ℚ := log.filterMap equityOf

/-- The drawdown of the latest equity from the highest one, in percent. -/
def fromHighWaterMark (equities : List ℚ) : Option ℚ :=
  equities.getLast?.bind fun latest =>
    equities.max?.map fun highest => (latest - highest) / highest * 100

/-- No equity is above both the first and the latest one. -/
def Unexceeded (equities : List ℚ) : Prop :=
  ∀ first ∈ equities.head?, ∀ latest ∈ equities.getLast?, ∀ e ∈ equities, e ≤ max first latest

/-- What the loop is sending, if that is an equity point. -/
def sending (w : World Unit KpiMemory Unit kpiSig) : Option EquityPoint :=
  match (w.task ()).pending with
  | some (.broadcast (.equityPoint point)) => some point
  | _ => none

theorem sending_eq_some {w : World Unit KpiMemory Unit kpiSig} {point : EquityPoint} :
    sending w = some point ↔ (w.task ()).pending = some (.broadcast (.equityPoint point)) := by
  unfold sending
  split
  next known sent => simp [sent]
  next other => simpa using other point

-- ═══════════════════════════════════════════════════════════════
-- What the loop sends
-- ═══════════════════════════════════════════════════════════════

/-- The point compares the latest equity with the first one. -/
def Reports (log : List (Event kpiSig)) (point : EquityPoint) : Prop :=
  (∃ first latest, (observed log).head? = some first ∧ (observed log).getLast? = some latest ∧
    point.equity = latest ∧ point.drawdownPct = drawdownPct latest first) ∧
  ∀ equity ∈ observed log, 0 < equity

/-- The baseline is the first equity there was. -/
structure Counted (log : List (Event kpiSig)) (s : KpiMemory) : Prop where
  baseline : s.startingEquity = (observed log).head?
  positive : ∀ equity ∈ observed log, 0 < equity

def kpiDiscipline : Discipline Unit KpiMemory kpiSig where
  issue _ log q _ := ∀ point, q = .broadcast (.equityPoint point) → Reports log point
  answer := Sound
  others _ _ s s' := s'.startingEquity = s.startingEquity
  guar _ _ _ := True
  ended _ := Counted
  refl _ _ _ := rfl
  trans before after := after.trans before

/-- The baseline has been set, and this is the equity of the pass. -/
structure Latest (equity : ℚ) (log : List (Event kpiSig)) (s : KpiMemory) : Prop extends
    Counted log s where
  latest : (observed log).getLast? = some equity

theorem observed_concat (log : List (Event kpiSig)) (e : Event kpiSig) :
    observed (log ++ [e]) = observed log ++ (equityOf e).toList := by
  cases h : equityOf e <;> simp [observed, h]

theorem Counted.other {log : List (Event kpiSig)} {s s' : KpiMemory} (counted : Counted log s)
    (kept : s'.startingEquity = s.startingEquity) {e : Event kpiSig} (other : equityOf e = none) :
    Counted (log ++ [e]) s' := by
  obtain ⟨baseline, positive⟩ := counted
  constructor
  · rw [kept, baseline, observed_concat, other, Option.toList_none, List.append_nil]
  · rw [observed_concat, other, Option.toList_none, List.append_nil]
    exact positive

theorem Latest.reports {equity : ℚ} {log : List (Event kpiSig)} {s : KpiMemory}
    (held : Latest equity log s) (time : ℤ) :
    Reports log ⟨time, equity, drawdownPct equity (s.startingEquity.getD equity)⟩ := by
  cases first : (observed log).head? with
  | none =>
    have latest := held.latest
    simp [List.head?_eq_none_iff.mp first] at latest
  | some start =>
    refine ⟨⟨start, equity, first, held.latest, rfl, ?_⟩, held.positive⟩
    rw [held.baseline, first]
    rfl

/-- A request that is not about the equity and sends no point. -/
theorem keeps_ask {equity : ℚ} {q : KpiRequest}
    (other : ∀ r : Answer kpiSig q, equityOf ⟨q, r⟩ = none)
    (no_point : ∀ point, q ≠ .broadcast (.equityPoint point)) :
    (ask q).Keeps (kpiDiscipline.contract ()) (Latest equity) := by
  apply Coro.keeps_request (S := kpiSig)
  · intro log s _ point sent
    exact absurd sent (no_point point)
  · rintro r log s log' s' held ⟨rfl, -, kept⟩
    refine ⟨held.toCounted.other kept (other r), ?_⟩
    rw [observed_concat, other, Option.toList_none, List.append_nil]
    exact held.latest

/-- The point of a pass goes by the baseline and the equity of that pass. -/
theorem point_obeys {equity : ℚ} {log : List (Event kpiSig)} {s : KpiMemory}
    (held : Latest equity log s) (time : ℤ) :
    (KpiLoop.broadcast (.equityPoint
      ⟨time, equity, drawdownPct equity (s.startingEquity.getD equity)⟩)).Obeys
        (kpiDiscipline.contract ()) (fun _ => Latest equity) log s := by
  refine (Coro.obeys_request (S := kpiSig) _).mpr ⟨?_, ?_⟩
  · rintro point ⟨⟩
    exact held.reports time
  · rintro r log' s' ⟨rfl, -, kept⟩
    refine ⟨held.toCounted.other kept rfl, ?_⟩
    rw [observed_concat]
    simpa [equityOf] using held.latest

theorem keeps_exposure (self : KpiLoop) (equity : ℚ) :
    self.exposure.Keeps (kpiDiscipline.contract ()) (Latest equity) := by
  rw [exposure]
  split
  · exact (keeps_ask (fun _ => rfl) (by simp)).bind fun _ => Coro.keeps_pure _
  · exact (keeps_ask (fun _ => rfl) (by simp)).bind fun _ => Coro.keeps_pure _

theorem pushStatusAndKpis_obeys (self : KpiLoop) {log : List (Event kpiSig)} {s : KpiMemory}
    (counted : Counted log s) :
    self.pushStatusAndKpis.Obeys (kpiDiscipline.contract ()) (fun _ => Counted) log s := by
  rw [pushStatusAndKpis, Coro.obeys_bind, ask, Coro.obeys_request]
  refine ⟨fun point sent => (by cases sent), ?_⟩
  rintro r log' s' ⟨rfl, sound, kept⟩
  cases r with
  | error e => exact counted.other kept rfl
  | ok equity =>
    dsimp only
    rw [Coro.obeys_bind, Coro.obeys_update]
    refine ⟨trivial, ?_⟩
    -- The first equity of all becomes the baseline; from here on there is one.
    have latest : Latest equity (log ++ [⟨.accountEquity, .ok equity⟩])
        { s' with startingEquity := some (s'.startingEquity.getD equity) } := by
      refine ⟨⟨?_, ?_⟩, by simp [observed_concat, equityOf]⟩
      · rw [kept, counted.baseline, observed_concat]
        cases observed log <;> rfl
      · intro e listed
        rw [observed_concat] at listed
        rcases List.mem_append.mp listed with earlier | now
        · exact counted.positive e earlier
        · obtain rfl : e = equity := by simpa [equityOf] using now
          exact sound
    have rest : ∀ program : Coro KpiMemory kpiSig Unit,
        program.Keeps (kpiDiscipline.contract ()) (Latest equity) →
        program.Obeys (kpiDiscipline.contract ()) (fun _ => Counted)
          (log ++ [⟨.accountEquity, .ok equity⟩])
          { s' with startingEquity := some (s'.startingEquity.getD equity) } :=
      fun program keeps => (keeps _ _ latest).mono fun _ _ _ held => held.toCounted
    refine rest _ ?_
    refine (keeps_ask (fun _ => rfl) (by simp)).bind fun margin => ?_
    refine (keeps_exposure self equity).bind fun exposure => ?_
    refine Coro.keeps_view.bind fun m => ?_
    refine (keeps_ask (fun _ => rfl) (by simp)).bind fun _ => ?_
    refine (keeps_ask (fun _ => rfl) (by simp)).bind fun _ => ?_
    refine Coro.keeps_view_bind fun log s held => ?_
    refine (point_obeys held _).followed fun _ => ?_
    exact Coro.keeps_view.bind fun m => keeps_ask (fun _ => rfl) (by simp)

theorem keeps_pushOpenTrades (self : KpiLoop) :
    self.pushOpenTrades.Keeps (kpiDiscipline.contract ()) Counted := by
  have keeps {q : KpiRequest} (other : ∀ r : Answer kpiSig q, equityOf ⟨q, r⟩ = none)
      (no_point : ∀ point, q ≠ .broadcast (.equityPoint point)) :
      (ask q).Keeps (kpiDiscipline.contract ()) Counted := by
    apply Coro.keeps_request (S := kpiSig)
    · intro log s _ point sent
      exact absurd sent (no_point point)
    · rintro r log s log' s' held ⟨rfl, -, kept⟩
      exact held.other kept (other r)
  rw [pushOpenTrades]
  split
  · refine (keeps (fun _ => rfl) (by simp)).bind fun details => ?_
    exact Coro.keeps_view.bind fun m => keeps (fun _ => rfl) (by simp)
  · exact Coro.keeps_pure ()

theorem pass_obeys (self : KpiLoop) {log : List (Event kpiSig)} {s : KpiMemory}
    (counted : Counted log s) :
    self.pass.Obeys (kpiDiscipline.contract ()) (fun _ => Counted) log s := by
  refine Coro.Obeys.handled ?_ fun _ => Coro.keeps_pure ()
  exact (pushStatusAndKpis_obeys self counted).followed fun _ => keeps_pushOpenTrades self

-- ═══════════════════════════════════════════════════════════════
-- Runs
-- ═══════════════════════════════════════════════════════════════

variable {self : KpiLoop} {w v : World Unit KpiMemory Unit kpiSig}
variable {l : Label Unit Unit ((q : KpiRequest) → Answer kpiSig q) KpiSurroundings}

theorem tasks_step (held : kpiDiscipline.TasksOk w) (moved : self.system.step w l = some v) :
    kpiDiscipline.TasksOk v := by
  apply held.step moved
  · -- A pass starts from what the one before has left.
    rintro ⟨⟩ command c rfl ⟨⟩ ended
    obtain ⟨past, counted, kept⟩ := ended
    exact pass_obeys self ⟨kept.trans counted.baseline, counted.positive⟩
  · rintro ⟨⟩ choice q r outside rfl _ served
    simp only [system] at served
    split at served
    next sound =>
      cases served
      exact sound
    next => cases served
  · -- What the loop does not do itself is no business of its baseline.
    rintro ⟨⟩ not_resumed not_started
    rcases self.system.step_cases moved with ⟨_, _, _, rfl, _⟩ | ⟨_, _, _, _, _, _, rfl, _, _, rfl⟩ |
      ⟨_, _, _, _, rfl, _⟩ | ⟨_, _, _, rfl, drifted, rfl⟩
    · exact absurd rfl (not_started _)
    · exact rfl
    · exact absurd rfl not_resumed
    · cases drifted
      rfl

theorem tasks_started (around : KpiSurroundings) :
    kpiDiscipline.TasksOk (started around) :=
  fun _ => ⟨{ around := around }, ⟨rfl, by simp [started, observed]⟩, rfl⟩

/-- A point that is being sent goes by the first equity there was. -/
theorem reports_of_tasks (tasks : kpiDiscipline.TasksOk w) {point : EquityPoint}
    (sent : sending w = some point) : Reports (w.task ()).log point := by
  have pending := sending_eq_some.mp sent
  have task := tasks ()
  unfold Discipline.TaskOk at task
  cases phase : (w.task ()).phase with
  | idle => simp [Task.pending, phase] at pending
  | waiting q next =>
    rw [phase] at task
    obtain ⟨⟨past, issued, -⟩, -⟩ := task
    exact issued point (by simpa [Task.pending, phase] using pending)
  | answered q r next =>
    rw [phase] at task
    obtain ⟨⟨past, issued, -⟩, -⟩ := task
    exact issued point (by simpa [Task.pending, phase] using pending)

/-- Percentages of one positive equity agree only if they are of one mark. -/
theorem percent_inj {latest mark other : ℚ} (latest_pos : 0 < latest) (mark_pos : 0 < mark)
    (other_pos : 0 < other) :
    (latest - mark) / mark * 100 = (latest - other) / other * 100 ↔ mark = other := by
  constructor
  · intro same
    have quotients : (latest - mark) / mark = (latest - other) / other := by linarith
    rw [sub_div, sub_div, div_self mark_pos.ne', div_self other_pos.ne'] at quotients
    have inverse : latest / mark = latest / other := by linarith
    rw [div_eq_div_iff mark_pos.ne' other_pos.ne'] at inverse
    exact (mul_left_cancel₀ latest_pos.ne' inverse).symm
  · rintro rfl
    rfl

theorem reports_iff {log : List (Event kpiSig)} {point : EquityPoint}
    (reports : Reports log point) :
    fromHighWaterMark (observed log) = some point.drawdownPct ↔ Unexceeded (observed log) := by
  obtain ⟨⟨first, latest, is_first, is_latest, -, drawdown⟩, positive⟩ := reports
  generalize observed log = equities at *
  have first_listed := List.mem_of_head? is_first
  have latest_listed := List.mem_of_getLast? is_latest
  have peak_pos : 0 < max latest first := lt_max_of_lt_left (positive latest latest_listed)
  obtain ⟨highest, is_highest⟩ : ∃ highest, equities.max? = some highest :=
    Option.ne_none_iff_exists'.mp fun empty => by
      rw [List.max?_eq_none_iff] at empty
      simp [empty] at first_listed
  obtain ⟨highest_listed, above⟩ := List.max?_eq_some_iff.mp is_highest
  have mark : fromHighWaterMark equities = some ((latest - highest) / highest * 100) := by
    simp [fromHighWaterMark, is_latest, is_highest]
  have sent : point.drawdownPct =
      (latest - max latest first) / max latest first * 100 := by
    rw [drawdown, drawdownPct, if_neg peak_pos.ne']
  rw [mark, sent, Option.some_inj, percent_inj (positive latest latest_listed)
    (positive highest highest_listed) peak_pos]
  -- The two marks agree exactly if the highest equity is the first or the latest one.
  constructor
  · rintro rfl start is_start e is_last equity listed
    obtain rfl := Option.some.inj (is_first.symm.trans is_start)
    obtain rfl := Option.some.inj (is_latest.symm.trans is_last)
    exact max_comm latest first ▸ above equity listed
  · intro unexceeded
    apply le_antisymm
    · exact max_comm latest first ▸
        unexceeded first is_first latest is_latest highest highest_listed
    · exact max_le (above latest latest_listed) (above first first_listed)

/-- Every point sent has its drawdown from the high-water mark. -/
def DrawdownRight (w : World Unit KpiMemory Unit kpiSig) : Prop :=
  ∀ point ∈ sending w, fromHighWaterMark (observed (w.task ()).log) = some point.drawdownPct

/-- Whenever a point is sent, no equity so far is above both the first and the latest one. -/
def NoneExceeds (w : World Unit KpiMemory Unit kpiSig) : Prop :=
  (sending w).isSome → Unexceeded (observed (w.task ()).log)

theorem drawdownRight_iff (tasks : kpiDiscipline.TasksOk w) :
    DrawdownRight w ↔ NoneExceeds w := by
  unfold DrawdownRight NoneExceeds
  cases sent : sending w with
  | none => simp
  | some point =>
    have same := reports_iff (reports_of_tasks tasks sent)
    simpa using same

/-- A run's points are all right if and only if none of them is sent while an equity in between
is above both the first and the latest one. -/
theorem always_drawdownRight_iff (self : KpiLoop) (around : KpiSurroundings)
    (labels : List (Label Unit Unit ((q : KpiRequest) → Answer kpiSig q) KpiSurroundings)) :
    Machine.Always self.system.step DrawdownRight (started around) labels ↔
      Machine.Always self.system.step NoneExceeds (started around) labels :=
  Machine.always_congr _ (fun _ _ _ held moved => tasks_step held moved)
    (fun _ => drawdownRight_iff) (started around) labels (tasks_started around)

/-! ### A mark that is forgotten -/

/-- The outside of a pass on this equity, without positions. -/
def answers (equity : ℚ) : (q : KpiRequest) → Answer kpiSig q
  | .accountEquity => .ok equity
  | .marginUsage => .ok ⟨0, 0⟩
  | .positionDetails => .ok []
  | .positions => .ok .empty
  | .broadcast _ => .ok ()

/-- A pass up to its `calls`-th answer. -/
def passLabels (equity : ℚ) (calls : ℕ) :
    List (Label Unit Unit ((q : KpiRequest) → Answer kpiSig q) KpiSurroundings) :=
  .start () () :: (List.replicate calls [.serve () (answers equity), .resume ()]).flatten

def quiet : KpiSurroundings where
  now := 0
  connected := true
  strategyPaused := false
  breaker := DrawdownCircuitBreaker.demoBreaker
  tracker := {}
  desk := {}

def sampleLoop : KpiLoop := ⟨1000, 10, true⟩

/-- From 100 to 200 and back to 150; the third pass has come to its equity point. -/
def riseAndFall : List (Label Unit Unit ((q : KpiRequest) → Answer kpiSig q) KpiSurroundings) :=
  passLabels 100 9 ++ passLabels 200 9 ++ passLabels 150 5

theorem riseAndFall_sends :
    (Machine.run sampleLoop.system.step (started quiet) riseAndFall).map
        (fun w => (sending w, observed (w.task ()).log)) =
      some (some ⟨0, 150, 0⟩, [100, 200, 150]) := by
  decide +kernel

theorem riseAndFall_not_right :
    ¬ Machine.Always sampleLoop.system.step DrawdownRight (started quiet) riseAndFall := by
  intro always
  obtain ⟨w, reached, both⟩ := Option.map_eq_some_iff.mp riseAndFall_sends
  obtain ⟨sent, equities⟩ := Prod.mk.inj both
  -- A quarter below the mark of 200, and reported as no drawdown.
  have right := always.reached reached _ sent
  rw [equities] at right
  revert right
  decide +kernel

end Binbot.ReportedDrawdown
