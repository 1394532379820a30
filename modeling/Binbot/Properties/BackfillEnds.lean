import Binbot.Feeds.Backfill
import Mathlib.Tactic.Ring

/-!
# The end of the backfill

Every call and every task is done once, and every pause leads to a batch of its own. So the
backfill ends, whether or not the calls succeed, as long as they come back.
-/
namespace Binbot.BackfillEnds

open Machine

/-- A call has to go out, and to come back. -/
def fetchSteps : Fetch → ℕ
  | .unsent => 2
  | .sent => 1
  | _ => 0

def overSteps : Bool → ℕ
  | true => 0
  | false => 1

/-- What a task has left to do. -/
def taskSteps (task : BackfillTask) : ℕ :=
  fetchSteps task.price + fetchSteps task.funding + overSteps task.finished

def phaseSteps : BackfillPhase → ℕ
  | .gathering => 2
  | .sleeping _ => 1
  | .complete => 0

/-- The steps of the tasks, and no more than seven for each symbol that has none yet. -/
def stepsLeft (p : BackfillParams) (s : Backfill) : ℕ :=
  (s.tasks.map taskSteps).sum + 7 * (p.symbols.length - (s.i + p.batchSize)) + phaseSteps s.phase

variable {p : BackfillParams} {s t : Backfill} {now : Timestamp}

theorem fetchSteps_told {fetch : Fetch} (told : fetch ≠ .unsent ∧ fetch ≠ .sent) :
    fetchSteps fetch = 0 := by
  cases fetch with
  | unsent => exact absurd rfl told.1
  | sent => exact absurd rfl told.2
  | returned rows => rfl
  | raised => rfl

theorem taskSteps_send {task : BackfillTask} {series : KlineSeries}
    (fresh : task.fetch series = .unsent) :
    taskSteps (task.withFetch .sent series) + 1 = taskSteps task := by
  cases series with
  | markPrice =>
    have price : task.price = .unsent := fresh
    simp only [taskSteps, BackfillTask.withFetch, price, fetchSteps]
    omega
  | premiumIndex =>
    have funding : task.funding = .unsent := fresh
    simp only [taskSteps, BackfillTask.withFetch, funding, fetchSteps]
    omega

theorem taskSteps_answer {task : BackfillTask} {series : KlineSeries} {fetch : Fetch}
    (sent : task.fetch series = .sent) (told : fetch ≠ .unsent ∧ fetch ≠ .sent) :
    taskSteps (task.withFetch fetch series) + 1 = taskSteps task := by
  have answered := fetchSteps_told told
  cases series with
  | markPrice =>
    have price : task.price = .sent := sent
    rw [taskSteps, taskSteps, BackfillTask.withFetch, answered, price]
    simp only [fetchSteps]
    omega
  | premiumIndex =>
    have funding : task.funding = .sent := sent
    rw [taskSteps, taskSteps, BackfillTask.withFetch, answered, funding]
    simp only [fetchSteps]
    omega

theorem taskSteps_over {task : BackfillTask} (running : task.finished = false) :
    taskSteps { task with finished := true } + 1 = taskSteps task := by
  simp [taskSteps, running, overSteps]

theorem taskSteps_new (symbols : List Symbol) :
    ((symbols.map fun symbol => ({ symbol := symbol } : BackfillTask)).map taskSteps).sum =
      5 * symbols.length := by
  induction symbols with
  | nil => rfl
  | cons symbol rest ih =>
    rw [List.map_cons, List.map_cons, List.sum_cons, ih, List.length_cons]
    have five : taskSteps { symbol := symbol } = 5 := rfl
    omega

/-- Each step uses up one. -/
theorem stepsLeft_turned (sized : 0 < p.batchSize) (settled : s.Settled p)
    (turned : s.Turned p now t) : stepsLeft p t + 1 ≤ stepsLeft p s := by
  cases turned with
  | sent series among fresh =>
    have fewer := taskSteps_send fresh
    simp [stepsLeft, among]
    omega
  | answered series among sent told =>
    have fewer := taskSteps_answer sent told
    simp [stepsLeft, among]
    omega
  | filled among running rows =>
    have fewer := taskSteps_over running
    simp [stepsLeft, among]
    omega
  | failed among running error =>
    have fewer := taskSteps_over running
    simp [stepsLeft, among]
    omega
  | paused busy done left => simp [stepsLeft, busy, phaseSteps]
  | finished busy done none_left => simp [stepsLeft, busy, phaseSteps]
  | woken asleep late =>
    have left := settled.more _ asleep
    rw [BackfillParams.loopHead, if_pos left]
    simp only [stepsLeft, List.map_append, List.sum_append, taskSteps_new, asleep, phaseSteps,
      BackfillParams.batch, List.length_take, List.length_drop]
    omega

/-- The program, the exchange or the clock can go on from here. -/
theorem goes_on (p : BackfillParams) (incomplete : s.phase ≠ .complete) :
    ∃ act start, ∀ now ≥ start, (p.step s (now, act)).isSome = true := by
  have timely : ∀ {act now}, s.clock ≤ now →
      p.step s (now, act) = p.turn { s with clock := now } now act := by
    intro act now later
    rw [BackfillParams.step, if_neg later.not_gt]
  cases phase : s.phase with
  | complete => exact absurd phase incomplete
  | sleeping since =>
    refine ⟨.wake, max s.clock (since + p.batchDelay), fun now late => ?_⟩
    rw [timely ((le_max_left ..).trans late), BackfillParams.turn]
    simp only [phase]
    rw [if_neg ((le_max_right ..).trans late).not_gt]
    rfl
  | gathering =>
    by_cases done : s.tasks.all (·.finished) = true
    · refine ⟨.gathered, s.clock, fun now later => ?_⟩
      rw [timely later, BackfillParams.turn]
      simp only [phase, done, and_self, if_true]
      split
      · rfl
      · rfl
    · -- some task still runs: it waits for a call to go out or to come back, or goes on
      rw [List.all_eq_true] at done
      push Not at done
      obtain ⟨task, member, running⟩ := done
      obtain ⟨k, found⟩ := List.mem_iff_getElem?.mp member
      replace running : task.finished = false := by simpa using running
      have sends : ∀ series, task.fetch series = .unsent →
          ∃ act start, ∀ now ≥ start, (p.step s (now, act)).isSome = true := by
        intro series fresh
        refine ⟨.send k series, s.clock, fun now later => ?_⟩
        rw [timely later]
        simp [BackfillParams.turn, found, fresh]
      have answers : ∀ series, task.fetch series = .sent →
          ∃ act start, ∀ now ≥ start, (p.step s (now, act)).isSome = true := by
        intro series sent
        refine ⟨.answer k series none, s.clock, fun now later => ?_⟩
        rw [timely later]
        simp [BackfillParams.turn, found, sent]
      cases result : task.gathered with
      | some gathered =>
        refine ⟨.resume k, s.clock, fun now later => ?_⟩
        rw [timely later]
        cases gathered <;> simp [BackfillParams.turn, found, running, result]
      | none =>
        cases price : task.price with
        | unsent => exact sends .markPrice price
        | sent => exact answers .markPrice price
        | returned rows =>
          cases funding : task.funding with
          | unsent => exact sends .premiumIndex funding
          | sent => exact answers .premiumIndex funding
          | returned others => simp [BackfillTask.gathered, price, funding] at result
          | raised => simp [BackfillTask.gathered, price, funding] at result
        | raised =>
          cases funding : task.funding with
          | unsent => exact sends .premiumIndex funding
          | sent => exact answers .premiumIndex funding
          | returned others => simp [BackfillTask.gathered, price, funding] at result
          | raised => simp [BackfillTask.gathered, price, funding] at result

theorem stepsLeft_start (p : BackfillParams) (sized : 0 < p.batchSize) (now : Timestamp) :
    stepsLeft p (p.start now) ≤ 7 * p.symbols.length + 2 := by
  rw [BackfillParams.start, BackfillParams.loopHead]
  split
  next some_left =>
    simp only [stepsLeft, List.nil_append, taskSteps_new, BackfillParams.batch, List.drop_zero,
      List.length_take, phaseSteps]
    omega
  next =>
    simp only [stepsLeft, List.map_nil, List.sum_nil, phaseSteps]
    omega

/-- No run takes more steps than there are for its symbols, and until the backfill is complete it
has a next one: it never waits for what cannot come. -/
theorem backfill_ends (p : BackfillParams) (sized : 0 < p.batchSize) (begun : Timestamp)
    (acts : List (Timestamp × BackfillAct)) (s : Backfill)
    (reached : run p.step (p.start begun) acts = some s) :
    acts.length ≤ 7 * p.symbols.length + 2 ∧ (s.phase ≠ .complete →
      ∃ act start, ∀ now ≥ start, (p.step s (now, act)).isSome = true) := by
  have keeps : ∀ s act t, s.Settled p → p.step s act = some t → t.Settled p :=
    fun s act t settled moved => (BackfillParams.turned_of_step moved).2.settled settled
  have used := length_add_le (fun s => s.Settled p) keeps (stepsLeft p)
    (fun s act t settled moved =>
      stepsLeft_turned sized settled (BackfillParams.turned_of_step moved).2)
    _ acts s (Backfill.settled_start p begun) reached
  have most := stepsLeft_start p sized begun
  exact ⟨by omega, goes_on p⟩

/-- Both calls of the only symbol fail. -/
def refused : List (Timestamp × BackfillAct) :=
  [(0, .send 0 .markPrice), (0, .send 0 .premiumIndex), (1, .answer 0 .premiumIndex none),
    (2, .resume 0), (3, .answer 0 .markPrice none)]

theorem backfill_ends_refused :
    ∃ s, run (BackfillParams.step ⟨minute, minute, ["BTCUSDT"], 20, 1000000⟩)
      (BackfillParams.start ⟨minute, minute, ["BTCUSDT"], 20, 1000000⟩ 0) refused = some s ∧
      refused.length ≤ 9 ∧ ∃ act start, ∀ now ≥ start,
        (BackfillParams.step ⟨minute, minute, ["BTCUSDT"], 20, 1000000⟩ s (now, act)).isSome =
          true := by
  obtain ⟨few, next⟩ := backfill_ends ⟨minute, minute, ["BTCUSDT"], 20, 1000000⟩ (by decide) 0
    refused _ rfl
  exact ⟨_, rfl, few, next (by simp [BackfillParams.start, BackfillParams.loopHead])⟩

end Binbot.BackfillEnds
