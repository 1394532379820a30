import Binbot.Feeds.UniverseFeed
import Binbot.Machine.Run

/-!
# Seeding the universe feed (`BinanceUniverseFeed.backfill`)

At start-up the feed asks for the klines of all symbols, a batch at a time. The symbols of a
batch run side by side, each with two calls at once, and the exchange answers in any order.
-/
namespace Binbot

open Data

/-- `futures_mark_price_klines` and `futures_premium_index_klines`. -/
inductive KlineSeries where
  | markPrice
  | premiumIndex
  deriving DecidableEq

/-- A REST call for one-minute klines. -/
structure KlineCall where
  symbol : Symbol
  series : KlineSeries
  limit : ℤ
  deriving DecidableEq

/-- How far a call has come. -/
inductive Fetch where
  | unsent
  | sent
  | returned (rows : List KlineRow)
  | raised
  deriving DecidableEq

/-- What the gather of two calls comes to. -/
inductive Gathered where
  | rows (priceKlines fundingKlines : List KlineRow)
  | failed
  deriving DecidableEq

/-- A task of `backfill_one`. -/
structure BackfillTask where
  symbol : Symbol
  price : Fetch := .unsent
  funding : Fetch := .unsent
  finished : Bool := false
  deriving DecidableEq

namespace BackfillTask

variable (task : BackfillTask)

def fetch : KlineSeries → Fetch
  | .markPrice => task.price
  | .premiumIndex => task.funding

def withFetch (fetch : Fetch) : KlineSeries → BackfillTask
  | .markPrice => { task with price := fetch }
  | .premiumIndex => { task with funding := fetch }

/-- The first error ends the gather, and the other call goes on. Both calls have been made by
then: the loop begins the tasks in the order in which they are created. -/
def gathered : Option Gathered :=
  match task.price, task.funding with
  | .unsent, _ => none
  | _, .unsent => none
  | .returned priceKlines, .returned fundingKlines => some (.rows priceKlines fundingKlines)
  | .raised, _ => some .failed
  | _, .raised => some .failed
  | _, _ => none

end BackfillTask

inductive BackfillPhase where
  | gathering
  | sleeping (since : Timestamp)
  | complete
  deriving DecidableEq

/-- `i` is the loop's variable, and `calls` what has been sent to the exchange. -/
structure Backfill where
  feed : BinanceUniverseFeed
  i : ℕ := 0
  tasks : List BackfillTask := []
  phase : BackfillPhase := .complete
  filled : ℕ := 0
  failed : ℕ := 0
  clock : Timestamp
  calls : List (Timestamp × KlineCall) := []

structure BackfillParams where
  priceWindow : ℤ
  fundingWindow : ℤ
  symbols : List Symbol
  batchSize : ℕ := 20
  batchDelay : ℤ := 1000000

/-- What happens next: a call goes out, the exchange answers one (`none` where it fails), a task
goes on after its gather, the batch is done, or the sleep is over. -/
inductive BackfillAct where
  | send (k : ℕ) (series : KlineSeries)
  | answer (k : ℕ) (series : KlineSeries) (rows : Option (List KlineRow))
  | resume (k : ℕ)
  | gathered
  | wake
  deriving DecidableEq

/-- A minute in microseconds. -/
def minute : ℤ := 60000000

/-- `max(2, math.ceil(window.total_seconds() / 60) + 1)` -/
def klineLimit (window : ℤ) : ℤ := max 2 (⌈(window : ℚ) / minute⌉ + 1)

namespace BackfillParams

variable (p : BackfillParams)

def limit : KlineSeries → ℤ
  | .markPrice => klineLimit p.priceWindow
  | .premiumIndex => klineLimit p.fundingWindow

def call (symbol : Symbol) (series : KlineSeries) : KlineCall where
  symbol := symbol
  series := series
  limit := p.limit series

/-- `symbols[i : i + batch_size]` -/
def batch (i : ℕ) : List Symbol := (p.symbols.drop i).take p.batchSize

/-- The head of the loop over `range(0, len(symbols), batch_size)`. -/
def loopHead (s : Backfill) (i : ℕ) : Backfill :=
  if i < p.symbols.length then
    { s with
      i := i
      tasks := s.tasks ++ (p.batch i).map fun symbol => { symbol := symbol }
      phase := .gathering }
  else { s with phase := .complete }

def start (now : Timestamp) : Backfill :=
  p.loopHead
    { feed := { priceWindow := p.priceWindow, fundingWindow := p.fundingWindow }
      clock := now } 0

def turn (s : Backfill) (now : Timestamp) : BackfillAct → Option Backfill
  | .send k series =>
    match s.tasks[k]? with
    | none => none
    | some task =>
      if task.fetch series = .unsent then
        some { s with
          tasks := s.tasks.set k (task.withFetch .sent series)
          calls := s.calls ++ [(now, p.call task.symbol series)] }
      else none
  | .answer k series rows =>
    match s.tasks[k]? with
    | none => none
    | some task =>
      if task.fetch series = .sent then
        some { s with
          tasks := s.tasks.set k (task.withFetch (rows.elim .raised .returned) series) }
      else none
  | .resume k =>
    match s.tasks[k]? with
    | none => none
    | some task =>
      if task.finished then none
      else
        match task.gathered with
        | none => none
        | some (.rows priceKlines fundingKlines) =>
          some { s with
            feed := s.feed.backfillOne task.symbol priceKlines fundingKlines
            tasks := s.tasks.set k { task with finished := true }
            filled := s.filled + 1 }
        | some .failed =>
          some { s with
            tasks := s.tasks.set k { task with finished := true }
            failed := s.failed + 1 }
  | .gathered =>
    if s.phase = .gathering ∧ s.tasks.all (·.finished) then
      if s.i + p.batchSize < p.symbols.length then some { s with phase := .sleeping now }
      else some (p.loopHead s (s.i + p.batchSize))
    else none
  | .wake =>
    match s.phase with
    | .sleeping since =>
      if now < since + p.batchDelay then none else some (p.loopHead s (s.i + p.batchSize))
    | _ => none

/-- Time goes on. -/
def step (s : Backfill) : Timestamp × BackfillAct → Option Backfill
  | (now, act) => if now < s.clock then none else p.turn { s with clock := now } now act

end BackfillParams

/-! ### One step -/

namespace BackfillTask

variable {task : BackfillTask} {series : KlineSeries} {fetch : Fetch}

@[simp] theorem withFetch_symbol (task : BackfillTask) (fetch : Fetch) (series : KlineSeries) :
    (task.withFetch fetch series).symbol = task.symbol := by
  cases series <;> rfl

@[simp] theorem withFetch_over (task : BackfillTask) (fetch : Fetch) (series : KlineSeries) :
    (task.withFetch fetch series).finished = task.finished := by
  cases series <;> rfl

end BackfillTask

/-- What a step at a time can do. -/
inductive Backfill.Turned (p : BackfillParams) (now : Timestamp) (s : Backfill) : Backfill → Prop
  | sent {before after : List BackfillTask} {task : BackfillTask} (series : KlineSeries)
      (among : s.tasks = before ++ task :: after) (unsent : task.fetch series = .unsent) :
      Turned p now s { s with
        tasks := before ++ task.withFetch .sent series :: after
        calls := s.calls ++ [(now, p.call task.symbol series)]
        clock := now }
  | answered {before after : List BackfillTask} {task : BackfillTask} (series : KlineSeries)
      {fetch : Fetch} (among : s.tasks = before ++ task :: after)
      (sent : task.fetch series = .sent) (told : fetch ≠ .unsent ∧ fetch ≠ .sent) :
      Turned p now s { s with
        tasks := before ++ task.withFetch fetch series :: after
        clock := now }
  | filled {before after : List BackfillTask} {task : BackfillTask}
      {priceKlines fundingKlines : List KlineRow} (among : s.tasks = before ++ task :: after)
      (running : task.finished = false)
      (rows : task.gathered = some (.rows priceKlines fundingKlines)) :
      Turned p now s { s with
        feed := s.feed.backfillOne task.symbol priceKlines fundingKlines
        tasks := before ++ { task with finished := true } :: after
        filled := s.filled + 1
        clock := now }
  | failed {before after : List BackfillTask} {task : BackfillTask}
      (among : s.tasks = before ++ task :: after) (running : task.finished = false)
      (error : task.gathered = some .failed) :
      Turned p now s { s with
        tasks := before ++ { task with finished := true } :: after
        failed := s.failed + 1
        clock := now }
  | paused (busy : s.phase = .gathering) (done : ∀ task ∈ s.tasks, task.finished = true)
      (more : s.i + p.batchSize < p.symbols.length) :
      Turned p now s { s with phase := .sleeping now, clock := now }
  | finished (busy : s.phase = .gathering) (done : ∀ task ∈ s.tasks, task.finished = true)
      (all : p.symbols.length ≤ s.i + p.batchSize) :
      Turned p now s { s with phase := .complete, clock := now }
  | woken {since : Timestamp} (asleep : s.phase = .sleeping since)
      (late : since + p.batchDelay ≤ now) :
      Turned p now s (p.loopHead { s with clock := now } (s.i + p.batchSize))

namespace BackfillParams

variable {p : BackfillParams} {s t : Backfill} {now : Timestamp} {act : BackfillAct}

theorem split_set {tasks : List BackfillTask} {k : ℕ} {task : BackfillTask}
    (found : tasks[k]? = some task) (next : BackfillTask) :
    ∃ before after, tasks = before ++ task :: after ∧
      tasks.set k next = before ++ next :: after := by
  obtain ⟨inside, rfl⟩ := List.getElem?_eq_some_iff.mp found
  refine ⟨tasks.take k, tasks.drop (k + 1), ?_, ?_⟩
  · rw [List.getElem_cons_drop, List.take_append_drop]
  · rw [List.set_eq_take_append_cons_drop, if_pos inside]

theorem turned_of_step (moved : p.step s (now, act) = some t) :
    s.clock ≤ now ∧ s.Turned p now t := by
  rw [step] at moved
  split at moved
  · cases moved
  next later =>
    refine ⟨not_lt.mp later, ?_⟩
    cases act with
    | send k series =>
      simp only [turn] at moved
      split at moved
      · cases moved
      next task found =>
        split at moved
        next unsent =>
          obtain ⟨before, after, among, changed⟩ := split_set found (task.withFetch .sent series)
          rw [changed] at moved
          cases moved
          exact .sent series among unsent
        · cases moved
    | answer k series rows =>
      simp only [turn] at moved
      split at moved
      · cases moved
      next task found =>
        split at moved
        next sent =>
          obtain ⟨before, after, among, changed⟩ :=
            split_set found (task.withFetch (rows.elim .raised .returned) series)
          rw [changed] at moved
          cases moved
          apply Backfill.Turned.answered series among sent
          cases rows <;> simp
        · cases moved
    | resume k =>
      simp only [turn] at moved
      split at moved
      · cases moved
      next task found =>
        obtain ⟨before, after, among, changed⟩ := split_set found { task with finished := true }
        rw [changed] at moved
        split at moved
        · cases moved
        next running =>
          rw [Bool.not_eq_true] at running
          split at moved
          · cases moved
          next priceKlines fundingKlines rows =>
            cases moved
            exact .filled among running rows
          next error =>
            cases moved
            exact .failed among running error
    | gathered =>
      simp only [turn] at moved
      split at moved
      next done =>
        obtain ⟨busy, done⟩ := done
        rw [List.all_eq_true] at done
        split at moved
        next more =>
          cases moved
          exact .paused busy done more
        next all =>
          cases moved
          rw [loopHead, if_neg all]
          exact .finished busy done (not_lt.mp all)
      · cases moved
    | wake =>
      simp only [turn] at moved
      split at moved
      next since asleep =>
        split at moved
        · cases moved
        next late =>
          cases moved
          exact .woken asleep (not_lt.mp late)
      · cases moved

end BackfillParams

/-! ### What every state keeps -/

namespace BackfillTask

variable {task : BackfillTask} {series : KlineSeries} {fetch : Fetch}

/-- The gather waits for a call that has not gone out. -/
theorem gathered_unsent (series : KlineSeries) (unsent : task.fetch series = .unsent) :
    task.gathered = none := by
  cases series with
  | markPrice =>
    have price : task.price = .unsent := unsent
    simp [gathered, price]
  | premiumIndex =>
    have funding : task.funding = .unsent := unsent
    rw [gathered, funding]
    cases task.price <;> rfl

/-- An answer that comes after the first error changes nothing. -/
theorem gathered_late (sent : task.fetch series = .sent)
    (told : fetch ≠ .unsent ∧ fetch ≠ .sent) (finished : task.gathered ≠ none) :
    (task.withFetch fetch series).gathered = task.gathered := by
  cases series with
  | markPrice =>
    have price : task.price = .sent := sent
    simp only [gathered, withFetch, price] at finished ⊢
    cases funding : task.funding <;> cases fetch <;> simp_all
  | premiumIndex =>
    have funding : task.funding = .sent := sent
    simp only [gathered, withFetch, funding] at finished ⊢
    cases price : task.price <;> cases fetch <;> simp_all

end BackfillTask

/-- What is left of the batches, and what is over. -/
structure Backfill.Settled (p : BackfillParams) (s : Backfill) : Prop where
  asked : s.tasks.map (·.symbol) = p.symbols.take (s.i + p.batchSize)
  finished : ∀ task ∈ s.tasks, task.finished = true → task.gathered ≠ none
  quiet : s.phase ≠ .gathering → ∀ task ∈ s.tasks, task.finished = true
  more : ∀ since, s.phase = .sleeping since → s.i + p.batchSize < p.symbols.length
  all : s.phase = .complete → p.symbols.length ≤ s.i + p.batchSize

namespace Backfill

variable {p : BackfillParams} {s t : Backfill} {now : Timestamp}

theorem forall_replaced {P : BackfillTask → Prop} {tasks before after : List BackfillTask}
    {task next : BackfillTask} (all : ∀ other ∈ tasks, P other)
    (among : tasks = before ++ task :: after) (new : P task → P next) :
    ∀ other ∈ before ++ next :: after, P other := by
  subst among
  rw [List.forall_mem_append, List.forall_mem_cons] at all ⊢
  exact ⟨all.1, new all.2.1, all.2.2⟩

theorem settled_start (p : BackfillParams) (now : Timestamp) : (p.start now).Settled p := by
  rw [BackfillParams.start, BackfillParams.loopHead]
  split
  next some_left =>
    constructor
    · simp [BackfillParams.batch, Function.comp_def]
    · simp
    · intro quiet
      exact absurd rfl quiet
    · intro since asleep
      cases asleep
    · intro complete
      cases complete
  next none_left =>
    have empty : p.symbols = [] := List.eq_nil_of_length_eq_zero (by omega)
    constructor
    · simp [empty]
    · simp
    · simp
    · intro since asleep
      cases asleep
    · simp [empty]

theorem Turned.settled (turned : s.Turned p now t) (settled : s.Settled p) : t.Settled p := by
  obtain ⟨asked, finished, quiet, more, all⟩ := settled
  cases turned with
  | @sent before after task series among unsent =>
    constructor
    · rw [← asked, among]
      simp
    · apply forall_replaced finished among
      intro gone ended
      rw [BackfillTask.withFetch_over] at ended
      exact absurd (BackfillTask.gathered_unsent series unsent) (gone ended)
    · intro idle
      apply forall_replaced (quiet idle) among
      simp
    · exact more
    · exact all
  | @answered before after task series fetch among sent told =>
    constructor
    · rw [← asked, among]
      simp
    · apply forall_replaced finished among
      intro gone ended
      rw [BackfillTask.withFetch_over] at ended
      rw [BackfillTask.gathered_late sent told (gone ended)]
      exact gone ended
    · intro idle
      apply forall_replaced (quiet idle) among
      simp
    · exact more
    · exact all
  | @filled before after task priceKlines fundingKlines among running rows =>
    constructor
    · rw [← asked, among]
      simp
    · apply forall_replaced finished among
      intro _ _ none_yet
      have same : task.gathered = none := none_yet
      rw [rows] at same
      cases same
    · intro idle
      apply forall_replaced (quiet idle) among
      simp
    · exact more
    · exact all
  | @failed before after task among running error =>
    constructor
    · rw [← asked, among]
      simp
    · apply forall_replaced finished among
      intro _ _ none_yet
      have same : task.gathered = none := none_yet
      rw [error] at same
      cases same
    · intro idle
      apply forall_replaced (quiet idle) among
      simp
    · exact more
    · exact all
  | paused busy done left => exact ⟨asked, finished, fun _ => done, fun _ _ => left, by simp⟩
  | finished busy done none_left =>
    exact ⟨asked, finished, fun _ => done, by simp, fun _ => none_left⟩
  | woken asleep late =>
    have left := more _ asleep
    have done := quiet (by simp [asleep])
    rw [BackfillParams.loopHead, if_pos left]
    constructor
    · simp [asked, BackfillParams.batch, List.take_add, List.map_map, Function.comp_def]
    · intro task member ended
      rcases List.mem_append.mp member with old | new
      · exact finished task old ended
      · -- a new task is not over
        obtain ⟨symbol, -, rfl⟩ := List.mem_map.mp new
        cases ended
    · intro idle
      exact absurd rfl idle
    · intro since again
      cases again
    · intro complete
      cases complete

end Backfill

end Binbot
