import Binbot.Backtest.Engine
import Binbot.Data.SortCut
import Binbot.Properties.NoLookahead

/-!
# What the future cannot change (`backtest/engine.py`)

Two backtests over the same bars up to some time are the same run up to that time, whatever
bars come later in the one and in the other.
-/
namespace Binbot

open Data

/-- The replay with more bars behind those it still has. -/
def Replay.awaiting (r : Replay) (more : List BarEvent) : Replay :=
  { r with upcoming := r.upcoming ++ more }

/-- What the replay has made of its bars so far: everything but the bars to come. -/
def Replay.soFar (r : Replay) : Replay := { r with upcoming := [] }

@[simp] theorem Replay.soFar_awaiting (r : Replay) (more : List BarEvent) :
    (r.awaiting more).soFar = r.soFar := rfl

@[simp] theorem Replay.awaiting_upcoming (r : Replay) (more : List BarEvent) :
    (r.awaiting more).upcoming = r.upcoming ++ more := rfl

@[simp] theorem Replay.awaiting_phase (r : Replay) (more : List BarEvent) :
    (r.awaiting more).phase = r.phase := rfl

/-- The bars the loop has taken so far. -/
def Replay.opened (r : Replay) (bars : List BarEvent) : List BarEvent :=
  (sortedBars bars).take (bars.length - r.upcoming.length)

/-- Bars up to a time are sorted apart from the later ones. -/
theorem sortedBars_cut (bars : List BarEvent) (now : Timestamp) :
    sortedBars bars = sortedBars (bars.filter fun b => b.ts ≤ now) ++
      sortedBars (bars.filter fun b => now < b.ts) := by
  have cut := insertionSort_cut (r := BarEvent.before) (fun b : BarEvent => decide (b.ts ≤ now)) bars
  rw [sortedBars, cut]
  · simp only [← decide_not, not_le, sortedBars]
  · intro a _ b _ early late
    simp only [decide_eq_true_eq, decide_eq_false_iff_not, not_le] at early late
    have strict : a.ts < b.ts := early.trans_lt late
    simp [BarEvent.before, strict, strict.le.not_gt, strict.ne']

namespace BacktestEngine

variable (engine : BacktestEngine)

theorem openBar_awaiting (r : Replay) (bar : BarEvent) (rest more : List BarEvent) :
    engine.openBar (r.awaiting more) bar (rest ++ more) =
      (engine.openBar r bar rest).awaiting more := by
  simp only [openBar, marketState, Replay.awaiting]
  split <;> rfl

theorem onSignal_awaiting (r : Replay) (bar : BarEvent) (signal : SignalEvent)
    (others : List SignalEvent) (more : List BarEvent) :
    engine.onSignal (r.awaiting more) bar signal others =
      (engine.onSignal r bar signal others).awaiting more := by
  have same : engine.checked (r.awaiting more) signal = engine.checked r signal := rfl
  simp only [onSignal, same]
  split <;> rfl

/-- A step that the replay can take, it takes with more bars behind as well. -/
theorem step_awaiting {r t : Replay} {u : Unit} (more : List BarEvent)
    (moved : engine.step r u = some t) :
    engine.step (r.awaiting more) u = some (t.awaiting more) := by
  rw [step] at moved
  rw [step, Replay.awaiting_phase, Replay.awaiting_upcoming]
  cases phase : r.phase with
  | betweenBars =>
    cases next : r.upcoming with
    | nil => simp [phase, next] at moved
    | cons bar rest =>
      simp only [phase, next, Option.some.injEq] at moved
      simp only [List.cons_append, openBar_awaiting, moved]
  | reacting bar signals =>
    cases signals with
    | nil =>
      simp only [phase, Option.some.injEq] at moved
      subst moved
      rfl
    | cons signal others =>
      simp only [phase, Option.some.injEq] at moved
      simp only [onSignal_awaiting, moved]
  | halted => simp [phase] at moved
  | raised message => simp [phase] at moved

/-- A step opens one of the bars to come or leaves them all. -/
theorem step_upcoming {r t : Replay} {u : Unit} (moved : engine.step r u = some t) :
    t.upcoming = r.upcoming ∨ ∃ bar, r.upcoming = bar :: t.upcoming := by
  rw [step] at moved
  split at moved
  next bar rest _ next =>
    cases moved
    right
    refine ⟨bar, ?_⟩
    rw [next, openBar]
    dsimp only
    split <;> rfl
  next => cases moved
  next bar signal others _ =>
    cases moved
    left
    rw [onSignal]
    split <;> rfl
  next bar _ =>
    cases moved
    exact .inl rfl
  next => cases moved
  next => cases moved

theorem run_upcoming {r t : Replay} (steps : List Unit)
    (reached : Machine.run engine.step r steps = some t) :
    ∃ taken, r.upcoming = taken ++ t.upcoming := by
  apply Machine.run_preserves (fun u : Replay => ∃ taken, r.upcoming = taken ++ u.upcoming)
    _ r steps t ⟨[], rfl⟩ reached
  rintro s u v ⟨taken, split⟩ moved
  rcases engine.step_upcoming moved with same | ⟨bar, next⟩
  · exact ⟨taken, by rw [same, split]⟩
  · exact ⟨taken ++ [bar], by rw [split, next]; simp⟩

theorem run_awaiting {r t : Replay} (more : List BarEvent) (steps : List Unit)
    (reached : Machine.run engine.step r steps = some t) :
    Machine.run engine.step (r.awaiting more) steps = some (t.awaiting more) := by
  induction steps generalizing r with
  | nil =>
    cases reached
    rfl
  | cons u us ih =>
    rw [Machine.run_cons, Option.bind_eq_some_iff] at reached
    obtain ⟨s, moved, rest⟩ := reached
    rw [Machine.run_cons, engine.step_awaiting more moved]
    exact ih rest

/-- As long as none of the later bars is opened, the replay does without them. -/
theorem run_of_awaiting {r t : Replay} {more : List BarEvent} (steps : List Unit)
    (reached : Machine.run engine.step (r.awaiting more) steps = some t)
    (unopened : more.length ≤ t.upcoming.length) :
    ∃ u, Machine.run engine.step r steps = some u ∧ t = u.awaiting more := by
  induction steps generalizing r with
  | nil =>
    cases reached
    exact ⟨r, rfl, rfl⟩
  | cons a as ih =>
    rw [Machine.run_cons, Option.bind_eq_some_iff] at reached
    obtain ⟨s, moved, rest⟩ := reached
    cases alone : engine.step r a with
    | some v =>
      -- the replay takes this step without the later bars as well
      have same : s = v.awaiting more := by
        rw [engine.step_awaiting more alone] at moved
        exact (Option.some.inj moved).symm
      subst same
      rw [Machine.run_cons, alone]
      exact ih rest
    | none =>
      -- it is out of bars, so this step opened one of the later ones
      exfalso
      obtain ⟨taken, split⟩ := engine.run_upcoming as rest
      have fewer := congrArg List.length split
      rw [List.length_append] at fewer
      rw [step, Replay.awaiting_phase, Replay.awaiting_upcoming] at moved
      rw [step] at alone
      cases phase : r.phase with
      | betweenBars =>
        cases next : r.upcoming with
        | cons bar rest => simp [phase, next] at alone
        | nil =>
          cases more with
          | nil => simp [phase, next] at moved
          | cons bar others =>
            simp only [phase, next, List.nil_append, Option.some.injEq] at moved
            have left : s.upcoming = others := by
              rw [← moved, openBar]
              dsimp only
              split <;> rfl
            rw [left] at fewer
            simp only [List.length_cons] at unopened
            omega
      | reacting bar signals =>
        cases signals with
        | nil => simp [phase] at alone
        | cons signal others => simp [phase] at alone
      | halted => simp [phase] at moved
      | raised message => simp [phase] at moved

/-- The replay begins alike whatever bars follow the first ones. -/
theorem begin_awaiting (riskEngine : RiskEngine) (startingEquity : ℚ) {past : List BarEvent}
    (some : past ≠ []) (bars later : List BarEvent)
    (split : sortedBars bars = sortedBars past ++ later) :
    ∃ start, begin riskEngine startingEquity past = .ok start ∧
      start.upcoming = sortedBars past ∧
      begin riskEngine startingEquity bars = .ok (start.awaiting later) := by
  rw [begin, begin, split]
  cases sorted : sortedBars past with
  | nil =>
    have empty := congrArg List.length sorted
    simp only [sortedBars, List.length_insertionSort, List.length_nil,
      List.length_eq_zero_iff] at empty
    exact absurd empty some
  | cons first rest => exact ⟨_, rfl, rfl, rfl⟩

/-- What the loop has taken is what it does not have before it any more. -/
theorem opened_eq {bars taken : List BarEvent} {r : Replay}
    (split : sortedBars bars = taken ++ r.upcoming) : r.opened bars = taken := by
  have lengths := congrArg List.length split
  rw [sortedBars, List.length_insertionSort, List.length_append] at lengths
  rw [Replay.opened, split, lengths, Nat.add_sub_cancel, List.take_left]

/-- While only bars up to `now` have been taken, all later ones are still to come. -/
theorem later_upcoming {past later taken upcoming : List BarEvent} {now : Timestamp}
    (split : past ++ later = taken ++ upcoming) (early : ∀ b ∈ taken, b.ts ≤ now)
    (late : ∀ b ∈ later, now < b.ts) : later.length ≤ upcoming.length := by
  rcases List.append_eq_append_iff.mp split with ⟨more, begins, rest⟩ | ⟨left, _, rest⟩
  · cases more with
    | nil => simp [rest]
    | cons b bs =>
      -- a later bar would be among those taken
      have taken' : b ∈ taken := by simp [begins]
      have later' : b ∈ later := by simp [rest]
      exact absurd (early b taken') (late b later').not_ge
  · simp [rest]

/-- Two backtests whose bars agree up to a time, of which there is one, agree on everything
but the bars to come, as long as no later bar has been opened. -/
theorem future_changes_nothing (riskEngine : RiskEngine) (startingEquity : ℚ)
    {bars other : List BarEvent} {now : Timestamp}
    (same : (bars.filter fun b => b.ts ≤ now) = other.filter fun b => b.ts ≤ now)
    (present : ∃ b ∈ bars, b.ts ≤ now) {count : ℕ} {start t : Replay}
    (reached : engine.replay riskEngine startingEquity bars count = some (start, t))
    (early : ∀ b ∈ t.opened bars, b.ts ≤ now) :
    ∃ start' t', engine.replay riskEngine startingEquity other count = some (start', t') ∧
      t'.soFar = t.soFar ∧ t'.opened other = t.opened bars := by
  have cut := sortedBars_cut bars now
  have cut' := sortedBars_cut other now
  rw [← same] at cut'
  generalize sortedBars (other.filter fun b => now < b.ts) = later' at cut'
  have nonempty : (bars.filter fun b => b.ts ≤ now) ≠ [] := by
    obtain ⟨b, member, inTime⟩ := present
    exact List.ne_nil_of_mem (List.mem_filter.mpr ⟨member, decide_eq_true inTime⟩)
  obtain ⟨first, begun, bare, begunLonger⟩ :=
    begin_awaiting riskEngine startingEquity nonempty bars _ cut
  obtain ⟨first', begun', -, begunOther⟩ :=
    begin_awaiting riskEngine startingEquity nonempty other _ cut'
  cases begun.symm.trans begun'
  obtain ⟨begunHere, ran⟩ := engine.replay_eq_some reached
  cases begunHere.symm.trans begunLonger
  obtain ⟨taken, split⟩ := engine.run_upcoming _ ran
  rw [Replay.awaiting_upcoming, bare] at split
  have taken_eq : t.opened bars = taken := opened_eq (cut.trans split)
  rw [taken_eq] at early ⊢
  have late : ∀ b ∈ sortedBars (bars.filter fun b => now < b.ts), now < b.ts := by
    intro b member
    rw [sortedBars, List.mem_insertionSort, List.mem_filter] at member
    exact of_decide_eq_true member.2
  obtain ⟨u, alone, rfl⟩ := engine.run_of_awaiting _ ran (later_upcoming split early late)
  -- the run over the shared bars alone goes through with any others behind them
  have ran' := engine.run_awaiting later' _ alone
  refine ⟨first.awaiting later', u.awaiting later', ?_, rfl, ?_⟩
  · simp only [replay, begunOther, Except.toOption, Option.bind_some, ran', Option.map_some]
  · apply opened_eq
    rw [Replay.awaiting_upcoming, ← List.append_assoc] at split
    rw [cut', Replay.awaiting_upcoming, ← List.append_assoc, List.append_cancel_right split]

/-- After the fill at time 2 the price of `NQ` is unchanged, or collapses. -/
def calmEnd : List BarEvent := NoLookahead.spaced ++ [NoLookahead.flatBar 3 "NQ"]

def crashEnd : List BarEvent := NoLookahead.spaced ++ [⟨3, "NQ", 100, 100, 1, 1, 100⟩]

theorem future_changes_nothing_crash :
    ∃ start t start' t',
      NoLookahead.crossBuyer.replay NoLookahead.riskDesk 10000 calmEnd 7 = some (start, t) ∧
      NoLookahead.crossBuyer.replay NoLookahead.riskDesk 10000 crashEnd 7 = some (start', t') ∧
      t.simulator.fills ≠ [] ∧ t'.soFar = t.soFar := by
  have ends : (NoLookahead.crossBuyer.replay NoLookahead.riskDesk 10000 calmEnd 7).map (fun run =>
      (run.2.simulator.fills.length, decide (∀ b ∈ run.2.opened calmEnd, b.ts ≤ 2))) =
      some (1, true) := by
    decide +kernel
  obtain ⟨⟨start, t⟩, reached, facts⟩ := Option.map_eq_some_iff.mp ends
  simp only [Prod.mk.injEq, decide_eq_true_eq] at facts
  have shared : (calmEnd.filter fun b => b.ts ≤ 2) = crashEnd.filter fun b => b.ts ≤ 2 := by
    decide +kernel
  obtain ⟨start', t', reached', same, -⟩ := future_changes_nothing NoLookahead.crossBuyer
    NoLookahead.riskDesk 10000 shared (by decide +kernel) reached facts.2
  refine ⟨start, t, start', t', reached, reached', ?_, same⟩
  intro none
  simp [none] at facts

end BacktestEngine

end Binbot
