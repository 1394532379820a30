import Binbot.Feeds.Backfill
import Binbot.Properties.FeedWindows

/-!
# The seeded feed

The tasks of a batch write into one feed, in the order in which their answers come. As each
writes the histories of its own symbol, the order does not show once the backfill is complete.
-/
namespace Binbot.SeededFeed

open Data Data.SlidingWindow FeedWindows Machine

/-! ## What a task has done -/

/-- What a task has come to, once it is over. -/
def outcome (task : BackfillTask) : Option Gathered := if task.finished then task.gathered else none

/-- What a task has put into the feed. -/
def entered (task : BackfillTask) : Option FeedAct :=
  match outcome task with
  | some (.rows priceKlines fundingKlines) =>
    some (.backfill task.symbol priceKlines fundingKlines)
  | _ => none

def fetchCalls (call : KlineCall) : Fetch → List KlineCall
  | .unsent => []
  | _ => [call]

/-- The calls of a task that have gone out. -/
def sentCalls (p : BackfillParams) (task : BackfillTask) : List KlineCall :=
  fetchCalls (p.call task.symbol .markPrice) task.price ++
    fetchCalls (p.call task.symbol .premiumIndex) task.funding

theorem fetchCalls_of_ne {fetch : Fetch} (call : KlineCall) (gone : fetch ≠ .unsent) :
    fetchCalls call fetch = [call] := by
  cases fetch with
  | unsent => exact absurd rfl gone
  | sent => rfl
  | returned rows => rfl
  | raised => rfl

section

variable {p : BackfillParams} {task : BackfillTask} {series : KlineSeries} {fetch : Fetch}

theorem outcome_running (running : task.finished = false) : outcome task = none := by
  simp [outcome, running]

/-- The task is still waiting when a call goes out. -/
theorem outcome_send (finished : task.finished = true → task.gathered ≠ none)
    (fresh : task.fetch series = .unsent) :
    outcome task = none ∧ outcome (task.withFetch .sent series) = none := by
  have running : task.finished = false := by
    by_contra ended
    rw [Bool.not_eq_false] at ended
    exact finished ended (BackfillTask.gathered_unsent series fresh)
  constructor
  · exact outcome_running running
  · apply outcome_running
    rw [BackfillTask.withFetch_over, running]

theorem outcome_answer (finished : task.finished = true → task.gathered ≠ none)
    (sent : task.fetch series = .sent) (told : fetch ≠ .unsent ∧ fetch ≠ .sent) :
    outcome (task.withFetch fetch series) = outcome task := by
  rw [outcome, outcome, BackfillTask.withFetch_over]
  split
  next ended => rw [BackfillTask.gathered_late sent told (finished ended)]
  · rfl

theorem sentCalls_send (fresh : task.fetch series = .unsent) :
    (sentCalls p (task.withFetch .sent series)).Perm
      (p.call task.symbol series :: sentCalls p task) := by
  cases series with
  | markPrice =>
    have price : task.price = .unsent := fresh
    simp [sentCalls, BackfillTask.withFetch, fetchCalls, price]
  | premiumIndex =>
    have funding : task.funding = .unsent := fresh
    simp only [sentCalls, BackfillTask.withFetch, fetchCalls, funding, List.append_nil]
    exact List.perm_append_singleton ..

theorem sentCalls_answer (sent : task.fetch series = .sent)
    (told : fetch ≠ .unsent ∧ fetch ≠ .sent) :
    sentCalls p (task.withFetch fetch series) = sentCalls p task := by
  cases series with
  | markPrice =>
    have price : task.price = .sent := sent
    rw [sentCalls, sentCalls, BackfillTask.withFetch, fetchCalls_of_ne _ told.1, price]
    rfl
  | premiumIndex =>
    have funding : task.funding = .sent := sent
    rw [sentCalls, sentCalls, BackfillTask.withFetch, fetchCalls_of_ne _ told.1, funding]
    rfl

/-- Two calls have gone out of a task that is over. -/
theorem sentCalls_over (finished : task.gathered ≠ none) :
    sentCalls p task = [p.call task.symbol .markPrice, p.call task.symbol .premiumIndex] := by
  have price : task.price ≠ .unsent := fun fresh =>
    finished (BackfillTask.gathered_unsent .markPrice fresh)
  have funding : task.funding ≠ .unsent := fun fresh =>
    finished (BackfillTask.gathered_unsent .premiumIndex fresh)
  rw [sentCalls, fetchCalls_of_ne _ price, fetchCalls_of_ne _ funding]
  rfl

end

/-! ## What a run keeps -/

/-- The calls and the counts are those of the tasks, and the feed has what they have entered, in
the order in which they have come to it. -/
structure Seeded (p : BackfillParams) (s : Backfill) (order : List FeedAct) : Prop where
  calls : (s.calls.map Prod.snd).Perm (s.tasks.flatMap (sentCalls p))
  filled : s.filled = (s.tasks.filterMap entered).length
  failed : s.failed = s.tasks.countP fun task => outcome task = some .failed
  arranged : order.Perm (s.tasks.filterMap entered)
  feed : s.feed = after p.priceWindow p.fundingWindow order

variable {p : BackfillParams} {s t : Backfill} {now : Timestamp} {order : List FeedAct}

/-- New tasks have done nothing yet. -/
theorem new_tasks (p : BackfillParams) (symbols : List Symbol) :
    (symbols.map fun symbol => ({ symbol := symbol } : BackfillTask)).flatMap (sentCalls p) = [] ∧
      (symbols.map fun symbol => ({ symbol := symbol } : BackfillTask)).filterMap entered = [] ∧
      (symbols.map fun symbol => ({ symbol := symbol } : BackfillTask)).countP
        (fun task => outcome task = some .failed) = 0 := by
  induction symbols with
  | nil => exact ⟨rfl, rfl, rfl⟩
  | cons symbol rest ih =>
    obtain ⟨calls, acts, errors⟩ := ih
    refine ⟨?_, ?_, ?_⟩
    · rw [List.map_cons, List.flatMap_cons, calls]
      rfl
    · rw [List.map_cons, List.filterMap_cons, acts]
      rfl
    · rw [List.map_cons, List.countP_cons, errors]
      rfl

/-- A step that changes no task's outcome, and sends nothing. -/
theorem Seeded.still {before after : List BackfillTask} {task next : BackfillTask}
    (seeded : Seeded p s order) (among : s.tasks = before ++ task :: after)
    (same : outcome next = outcome task) (symbol : next.symbol = task.symbol)
    (calls : sentCalls p next = sentCalls p task) :
    Seeded p { s with tasks := before ++ next :: after, clock := now } order := by
  obtain ⟨sent, filled, failed, arranged, feed⟩ := seeded
  have act : entered next = entered task := by rw [entered, same, symbol, entered]
  constructor
  · simpa [among, calls] using sent
  · simpa [among, List.filterMap_cons, act] using filled
  · simpa [among, List.countP_cons, same] using failed
  · simpa [among, List.filterMap_cons, act] using arranged
  · exact feed

theorem Seeded.sent {before after : List BackfillTask} {task : BackfillTask}
    {series : KlineSeries} (seeded : Seeded p s order) (settled : s.Settled p)
    (among : s.tasks = before ++ task :: after) (fresh : task.fetch series = .unsent) :
    Seeded p { s with
      tasks := before ++ task.withFetch .sent series :: after
      calls := s.calls ++ [(now, p.call task.symbol series)]
      clock := now } order := by
  obtain ⟨sent, filled, failed, arranged, feed⟩ := seeded
  have member : task ∈ s.tasks := by simp [among]
  obtain ⟨old, new⟩ := outcome_send (settled.finished task member) fresh
  have act : entered (task.withFetch .sent series) = entered task := by
    rw [entered, new, entered, old]
  constructor
  · -- the call goes from the end of the list to its task
    have moved : (before.flatMap (sentCalls p) ++
        (p.call task.symbol series :: sentCalls p task) ++ after.flatMap (sentCalls p)).Perm
        ((before ++ task.withFetch .sent series :: after).flatMap (sentCalls p)) := by
      rw [List.flatMap_append, List.flatMap_cons, ← List.append_assoc]
      exact ((sentCalls_send fresh).symm.append_left _).append_right _
    have front : (s.calls.map Prod.snd ++ [p.call task.symbol series]).Perm
        (p.call task.symbol series :: s.tasks.flatMap (sentCalls p)) :=
      (List.perm_append_singleton ..).trans (sent.cons _)
    rw [List.map_append]
    refine front.trans (.trans ?_ moved)
    rw [among, List.flatMap_append, List.flatMap_cons, List.append_assoc, List.cons_append]
    exact List.perm_middle.symm
  · simpa [among, List.filterMap_cons, act] using filled
  · simpa [among, List.countP_cons, old, new] using failed
  · simpa [among, List.filterMap_cons, act] using arranged
  · exact feed

/-- A task whose calls have both returned writes into the feed after all the others so far. -/
theorem Seeded.filled_step {before after : List BackfillTask} {task : BackfillTask}
    {priceKlines fundingKlines : List KlineRow} (seeded : Seeded p s order)
    (among : s.tasks = before ++ task :: after) (running : task.finished = false)
    (rows : task.gathered = some (.rows priceKlines fundingKlines)) :
    Seeded p { s with
      feed := s.feed.backfillOne task.symbol priceKlines fundingKlines
      tasks := before ++ { task with finished := true } :: after
      filled := s.filled + 1
      clock := now } (order ++ [.backfill task.symbol priceKlines fundingKlines]) := by
  obtain ⟨sent, filled, failed, arranged, feed⟩ := seeded
  have old : outcome task = none := outcome_running running
  have new : outcome { task with finished := true } = some (.rows priceKlines fundingKlines) := rows
  have nothing : entered task = none := by rw [entered, old]
  have act : entered { task with finished := true } =
      some (.backfill task.symbol priceKlines fundingKlines) := by rw [entered, new]
  have calls : sentCalls p { task with finished := true } = sentCalls p task := rfl
  constructor
  · simpa [among, calls] using sent
  · simp only [among, List.filterMap_append, List.filterMap_cons, nothing, act,
      List.length_append, List.length_cons] at filled ⊢
    omega
  · simpa [among, List.countP_cons, old, new] using failed
  · rw [List.filterMap_append, List.filterMap_cons, act]
    refine (List.perm_append_singleton ..).trans (.trans (arranged.cons _) ?_)
    rw [among, List.filterMap_append, List.filterMap_cons, nothing]
    exact List.perm_middle.symm
  · rw [FeedWindows.after, List.foldl_append, feed]
    rfl

theorem Seeded.failed_step {before after : List BackfillTask} {task : BackfillTask}
    (seeded : Seeded p s order) (among : s.tasks = before ++ task :: after)
    (running : task.finished = false) (error : task.gathered = some .failed) :
    Seeded p { s with
      tasks := before ++ { task with finished := true } :: after
      failed := s.failed + 1
      clock := now } order := by
  obtain ⟨sent, filled, failed, arranged, feed⟩ := seeded
  have old : outcome task = none := outcome_running running
  have new : outcome { task with finished := true } = some .failed := error
  have nothing : entered task = none := by rw [entered, old]
  have still : entered { task with finished := true } = none := by rw [entered, new]
  have calls : sentCalls p { task with finished := true } = sentCalls p task := rfl
  constructor
  · simpa [among, calls] using sent
  · simpa [among, nothing, still] using filled
  · simp [among, old, new] at failed ⊢
    omega
  · simpa [among, nothing, still] using arranged
  · exact feed

theorem Seeded.turned (seeded : Seeded p s order) (settled : s.Settled p)
    (turned : s.Turned p now t) : ∃ order, Seeded p t order := by
  cases turned with
  | sent series among fresh => exact ⟨order, seeded.sent settled among fresh⟩
  | @answered before after task series fetch among sent told =>
    have finished := settled.finished task (by simp [among])
    exact ⟨order, seeded.still among (outcome_answer finished sent told)
      (BackfillTask.withFetch_symbol ..) (sentCalls_answer sent told)⟩
  | filled among running rows => exact ⟨_, seeded.filled_step among running rows⟩
  | failed among running error => exact ⟨order, seeded.failed_step among running error⟩
  | paused busy all_over left =>
    obtain ⟨sent, filled, failed, arranged, feed⟩ := seeded
    exact ⟨order, sent, filled, failed, arranged, feed⟩
  | finished busy all_over none_left =>
    obtain ⟨sent, filled, failed, arranged, feed⟩ := seeded
    exact ⟨order, sent, filled, failed, arranged, feed⟩
  | woken sleeping late =>
    obtain ⟨sent, filled, failed, arranged, feed⟩ := seeded
    obtain ⟨calls, acts, errors⟩ := new_tasks p (p.batch (s.i + p.batchSize))
    rw [BackfillParams.loopHead, if_pos (settled.more _ sleeping)]
    refine ⟨order, ?_, ?_, ?_, ?_, feed⟩
    · simpa [List.flatMap_append, calls] using sent
    · simpa [List.filterMap_append, acts] using filled
    · simpa [List.countP_append, errors] using failed
    · simpa [List.filterMap_append, acts] using arranged

theorem seeded_start (p : BackfillParams) (now : Timestamp) : Seeded p (p.start now) [] := by
  obtain ⟨calls, acts, errors⟩ := new_tasks p (p.batch 0)
  rw [BackfillParams.start, BackfillParams.loopHead]
  split
  next =>
    constructor
    · simp [calls]
    · simp [acts]
    · simp [errors]
    · simp [acts]
    · rfl
  next =>
    constructor
    · simp
    · rfl
    · rfl
    · simp
    · rfl

theorem seeded_run {begun : Timestamp} {acts : List (Timestamp × BackfillAct)}
    (reached : run p.step (p.start begun) acts = some s) :
    s.Settled p ∧ ∃ order, Seeded p s order := by
  apply run_preserves (fun s => s.Settled p ∧ ∃ order, Seeded p s order) _ _ acts _
    ⟨Backfill.settled_start p begun, [], seeded_start p begun⟩ reached
  rintro s ⟨now, act⟩ t ⟨settled, order, seeded⟩ moved
  obtain ⟨-, turned⟩ := BackfillParams.turned_of_step moved
  exact ⟨turned.settled settled, seeded.turned settled turned⟩

/-! ## What each symbol has got -/

theorem appendPrices_latest (feed : BinanceUniverseFeed) (symbol : Symbol)
    (rows : List KlineRow) :
    (rows.foldl (fun feed row => feed.appendPrice symbol (row.openTime * 1000) row.close)
      feed).latestPrice = feed.latestPrice := by
  induction rows generalizing feed with
  | nil => rfl
  | cons row rest ih => exact ih _

theorem appendFundings_latest (feed : BinanceUniverseFeed) (symbol : Symbol)
    (rows : List KlineRow) :
    (rows.foldl (fun feed row => feed.appendFunding symbol (row.openTime * 1000) row.close)
      feed).latestPrice = feed.latestPrice := by
  induction rows generalizing feed with
  | nil => rfl
  | cons row rest ih => exact ih _

/-- The price of a symbol is that of its newest sample. -/
theorem apply_latest (feed : BinanceUniverseFeed) (act : FeedAct) (symbol : Symbol) :
    (act.apply feed).latestPrice.get? symbol =
      if act.symbol? = some symbol then
        (act.prices.getLast?.map Prod.snd).or (feed.latestPrice.get? symbol)
      else feed.latestPrice.get? symbol := by
  cases act with
  | backfill filled priceKlines fundingKlines =>
    rw [FeedAct.apply, BinanceUniverseFeed.backfillOne, appendFundings_latest, FeedAct.prices,
      FeedAct.symbol?, List.getLast?_map]
    cases newest : priceKlines.getLast? with
    | none => simp [appendPrices_latest]
    | some row =>
      simp only [appendPrices_latest, Dict.get?_set]
      by_cases own : symbol = filled
      · simp [own]
      · simp [own, Ne.symm own]
  | item time mark =>
    cases mark with
    | none => simp [FeedAct.apply, FeedAct.symbol?]
    | some mark =>
      simp only [FeedAct.apply, BinanceUniverseFeed.handleItem, FeedAct.prices, FeedAct.symbol?,
        Dict.get?_set]
      by_cases own : symbol = mark.symbol
      · simp [own]
      · simp [own, Ne.symm own, BinanceUniverseFeed.appendPrice,
          BinanceUniverseFeed.appendFunding]

theorem after_latest (priceWindow fundingWindow : ℤ) (acts : List FeedAct) (symbol : Symbol) :
    (after priceWindow fundingWindow acts).latestPrice.get? symbol =
      (priceSamples symbol acts).getLast?.map Prod.snd := by
  induction acts using List.reverseRecOn with
  | nil => rfl
  | append_singleton before act ih =>
    rw [after, List.foldl_append, List.foldl_cons, List.foldl_nil, ← after, apply_latest, ih]
    by_cases own : act.symbol? = some symbol
    · rw [if_pos own]
      simp [priceSamples, own, List.getLast?_append, Option.map_or]
    · rw [if_neg own]
      simp [priceSamples, own]

theorem entered_symbol {task : BackfillTask} {act : FeedAct} (did : entered task = some act) :
    act.symbol? = some task.symbol := by
  rw [entered] at did
  split at did
  · cases did
    rfl
  · cases did

/-- Tasks of other symbols have not written there. -/
theorem entered_elsewhere {tasks : List BackfillTask} {symbol : Symbol}
    (others : ∀ task ∈ tasks, task.symbol ≠ symbol) :
    (tasks.filterMap entered).filter (·.symbol? = some symbol) = [] := by
  apply List.filter_eq_nil_iff.mpr
  intro act member
  obtain ⟨task, held, did⟩ := List.mem_filterMap.mp member
  rw [entered_symbol did]
  simpa using others task held

/-- Whatever the order, a symbol's history is written by its own task. -/
theorem Seeded.own {task : BackfillTask} (seeded : Seeded p s order)
    (once : (s.tasks.map (·.symbol)).Nodup) (member : task ∈ s.tasks) :
    order.filter (·.symbol? = some task.symbol) = (entered task).toList := by
  obtain ⟨before, after, among⟩ := List.append_of_mem member
  rw [among, List.map_append, List.map_cons, List.nodup_middle, List.nodup_cons,
    ← List.map_append, List.mem_map] at once
  have apart : ∀ other ∈ before ++ after, other.symbol ≠ task.symbol :=
    fun other held same => once.1 ⟨other, held, same⟩
  rw [List.forall_mem_append] at apart
  have kept := seeded.arranged.filter (·.symbol? = some task.symbol)
  rw [among, List.filterMap_append, List.filter_append, entered_elsewhere apart.1,
    List.nil_append, List.filterMap_cons] at kept
  cases did : entered task with
  | none =>
    rw [did, entered_elsewhere apart.2] at kept
    exact kept.eq_nil
  | some act =>
    rw [did] at kept
    dsimp only at kept
    rw [List.filter_cons_of_pos (by simp [entered_symbol did]), entered_elsewhere apart.2] at kept
    exact kept.eq_singleton

/-- The klines a task has got, none where a call has failed. -/
def answered (task : BackfillTask) : List KlineRow × List KlineRow :=
  match task.gathered with
  | some (.rows priceKlines fundingKlines) => (priceKlines, fundingKlines)
  | _ => ([], [])

def samples (rows : List KlineRow) : List Sample :=
  rows.map fun row => (row.openTime * 1000, row.close)

theorem Seeded.own_samples {task : BackfillTask} (seeded : Seeded p s order)
    (once : (s.tasks.map (·.symbol)).Nodup) (member : task ∈ s.tasks)
    (finished : task.finished = true) :
    priceSamples task.symbol order = samples (answered task).1 ∧
      fundingSamples task.symbol order = samples (answered task).2 := by
  have come : outcome task = task.gathered := by rw [outcome, if_pos finished]
  rw [priceSamples, fundingSamples, seeded.own once member, entered, come, answered]
  split
  next => simp [FeedAct.prices, FeedAct.fundings, samples]
  next => exact ⟨rfl, rfl⟩

/-- Nothing is written to symbols that were not asked for. -/
theorem Seeded.elsewhere {symbol : Symbol} (seeded : Seeded p s order)
    (others : ∀ task ∈ s.tasks, task.symbol ≠ symbol) :
    order.filter (·.symbol? = some symbol) = [] := by
  have kept := seeded.arranged.filter (·.symbol? = some symbol)
  rw [entered_elsewhere others] at kept
  exact kept.eq_nil

/-- Over tasks have either entered their rows or failed. -/
theorem counts_over {tasks : List BackfillTask} (finished : ∀ task ∈ tasks, task.finished = true)
    (done : ∀ task ∈ tasks, task.gathered ≠ none) :
    (tasks.filterMap entered).length + tasks.countP (fun task => outcome task = some .failed) =
      tasks.length := by
  induction tasks with
  | nil => rfl
  | cons task rest ih =>
    obtain ⟨ended, finished⟩ := List.forall_mem_cons.mp finished
    obtain ⟨came, done⟩ := List.forall_mem_cons.mp done
    have come : outcome task = task.gathered := by rw [outcome, if_pos ended]
    have rest_counts := ih finished done
    rw [List.filterMap_cons, List.countP_cons, entered, come, List.length_cons]
    cases result : task.gathered with
    | none => exact absurd result came
    | some gathered =>
      cases gathered with
      | rows priceKlines fundingKlines =>
        simp
        omega
      | failed =>
        simp
        omega

/-- What is in the feed under a task's symbol is what the task has got. -/
theorem Seeded.histories {task : BackfillTask} (seeded : Seeded p s order)
    (once : (s.tasks.map (·.symbol)).Nodup) (member : task ∈ s.tasks)
    (finished : task.finished = true) :
    s.feed.prices task.symbol =
        (samples (answered task).1).foldl (pushTrimmed p.priceWindow Prod.fst) [] ∧
      s.feed.fundings task.symbol =
        (samples (answered task).2).foldl (pushTrimmed p.fundingWindow Prod.fst) [] ∧
      s.feed.latestPrice.get? task.symbol = (answered task).1.getLast?.map (·.close) := by
  obtain ⟨prices, fundings⟩ := seeded.own_samples once member finished
  rw [seeded.feed, (after_histories order task.symbol).1, (after_histories order task.symbol).2,
    after_latest, prices, fundings]
  refine ⟨rfl, rfl, ?_⟩
  rw [samples, List.getLast?_map, Option.map_map]
  rfl

/-- Once the loop is through, each symbol has a task, and all tasks are over. -/
theorem complete_run {begun : Timestamp} {acts : List (Timestamp × BackfillAct)}
    (reached : run p.step (p.start begun) acts = some s) (complete : s.phase = .complete) :
    s.tasks.map (·.symbol) = p.symbols ∧ (∀ task ∈ s.tasks, task.finished = true) ∧
      (∀ task ∈ s.tasks, task.gathered ≠ none) ∧ ∃ order, Seeded p s order := by
  obtain ⟨settled, order, seeded⟩ := seeded_run reached
  have finished := settled.quiet (by simp [complete])
  have done := fun task member => settled.finished task member (finished task member)
  refine ⟨?_, finished, done, order, seeded⟩
  rw [settled.asked, List.take_of_length_le (settled.all complete)]

/-- Once the backfill is complete, it has made two calls for each symbol, has counted it as filled
or failed, and holds the window of its klines, whatever the order of the answers. -/
theorem backfill_seeds (p : BackfillParams) (once : p.symbols.Nodup) (begun : Timestamp)
    (acts : List (Timestamp × BackfillAct)) (s : Backfill)
    (reached : run p.step (p.start begun) acts = some s) (complete : s.phase = .complete) :
    s.tasks.map (·.symbol) = p.symbols ∧
      (s.calls.map Prod.snd).Perm (p.symbols.flatMap fun symbol =>
        [p.call symbol .markPrice, p.call symbol .premiumIndex]) ∧
      s.filled + s.failed = p.symbols.length ∧
      s.failed = s.tasks.countP (fun task => task.gathered = some .failed) ∧
      (∀ task ∈ s.tasks,
        ((samples (answered task).1).Pairwise (·.1 ≤ ·.1) →
          s.feed.prices task.symbol =
            inWindow p.priceWindow Prod.fst (samples (answered task).1)) ∧
        ((samples (answered task).2).Pairwise (·.1 ≤ ·.1) →
          s.feed.fundings task.symbol =
            inWindow p.fundingWindow Prod.fst (samples (answered task).2)) ∧
        s.feed.latestPrice.get? task.symbol = (answered task).1.getLast?.map (·.close)) ∧
      ∀ symbol ∉ p.symbols, s.feed.prices symbol = [] ∧ s.feed.fundings symbol = [] ∧
        s.feed.latestPrice.get? symbol = none := by
  obtain ⟨asked, finished, done, order, seeded⟩ := complete_run reached complete
  have single : (s.tasks.map (·.symbol)).Nodup := asked ▸ once
  refine ⟨asked, ?_, ?_, ?_, ?_, ?_⟩
  · -- every task that is over has made its two calls
    have both : s.tasks.flatMap (sentCalls p) = s.tasks.flatMap fun task =>
        [p.call task.symbol .markPrice, p.call task.symbol .premiumIndex] :=
      List.flatMap_congr fun task member => sentCalls_over (done task member)
    rw [← asked, List.flatMap_map, ← both]
    exact seeded.calls
  · rw [seeded.filled, seeded.failed, counts_over finished done, ← asked, List.length_map]
  · rw [seeded.failed]
    apply List.countP_congr
    intro task member
    rw [outcome, if_pos (finished task member)]
  · intro task member
    obtain ⟨prices, fundings, latest⟩ := seeded.histories single member (finished task member)
    rw [prices, fundings, latest]
    exact ⟨fun ordered => foldl_pushTrimmed ordered _, fun ordered => foldl_pushTrimmed ordered _,
      rfl⟩
  · intro symbol absent
    have others : ∀ task ∈ s.tasks, task.symbol ≠ symbol := by
      rintro task member rfl
      exact absent (asked ▸ List.mem_map_of_mem member)
    rw [seeded.feed, (after_histories order symbol).1, (after_histories order symbol).2,
      after_latest, priceSamples, fundingSamples, seeded.elsewhere others]
    exact ⟨rfl, rfl, rfl⟩

def twoCoins : BackfillParams where
  priceWindow := 2 * minute
  fundingWindow := minute
  symbols := ["BTCUSDT", "ETHUSDT"]

/-- Three minutes of ETHUSDT. -/
def risen : List KlineRow :=
  [⟨0, 100, 100, 100, 100⟩, ⟨60000, 100, 104, 100, 103⟩, ⟨120000, 103, 120, 103, 116⟩]

/-- Two minutes of its premium. -/
def fallen : List KlineRow := [⟨60000, 0, 0, 0, 1 / 1000⟩, ⟨120000, 0, 0, 0, -1 / 1000⟩]

/-- The second symbol comes first, and the first one fails. -/
def lastFirst : List (Timestamp × BackfillAct) :=
  [(0, .send 0 .markPrice), (0, .send 0 .premiumIndex), (0, .send 1 .markPrice),
    (0, .send 1 .premiumIndex), (5, .answer 1 .premiumIndex (some fallen)),
    (6, .answer 1 .markPrice (some risen)), (7, .resume 1), (8, .answer 0 .markPrice none),
    (9, .resume 0), (9, .gathered)]

theorem backfill_seeds_lastFirst :
    ∃ s, run twoCoins.step (twoCoins.start 0) lastFirst = some s ∧ s.filled + s.failed = 2 ∧
      s.feed.latestPrice.get? "ETHUSDT" = some 116 ∧ s.feed.prices "SOLUSDT" = [] := by
  obtain ⟨-, -, counted, -, each, elsewhere⟩ :=
    backfill_seeds twoCoins (by decide) 0 lastFirst _ rfl rfl
  obtain ⟨-, -, latest⟩ := each ⟨"ETHUSDT", .returned risen, .returned fallen, true⟩
    (.tail _ (.head _))
  exact ⟨_, rfl, counted, latest, (elsewhere "SOLUSDT" (by decide)).1⟩

/-! ## Ready at once -/

/-- One kline a minute. -/
def Consecutive (rows : List KlineRow) : Prop :=
  rows.IsChain fun row next => next.openTime = row.openTime + 60000

instance (rows : List KlineRow) : Decidable (Consecutive rows) :=
  inferInstanceAs (Decidable (List.IsChain _ _))

theorem Consecutive.ordered {rows : List KlineRow} (consecutive : Consecutive rows) :
    (samples rows).Pairwise (·.1 ≤ ·.1) := by
  rw [samples, List.pairwise_map]
  have later : rows.IsChain fun row next => row.openTime ≤ next.openTime :=
    consecutive.imp fun row next step => by omega
  exact (List.isChain_iff_pairwise.mp later).imp
    fun le => Int.mul_le_mul_of_nonneg_right le (by decide)

/-- The newest kline is as many minutes after the oldest as there are klines between. -/
theorem Consecutive.newest {oldest newest : KlineRow} {rest : List KlineRow}
    (consecutive : Consecutive (oldest :: rest))
    (last : (oldest :: rest).getLast? = some newest) :
    newest.openTime = oldest.openTime + 60000 * rest.length := by
  induction rest generalizing oldest with
  | nil =>
    cases last
    simp
  | cons next rest ih =>
    obtain ⟨step, others⟩ := List.isChain_cons_cons.mp consecutive
    rw [List.getLast?_cons_cons] at last
    rw [ih others last, step, List.length_cons]
    push_cast
    omega

theorem klineLimit_minutes {n : ℕ} (positive : 0 < n) : klineLimit (n * minute) = n + 1 := by
  have whole : (((n * minute : ℤ) : ℚ) / minute) = (n : ℤ) := by
    push_cast
    rw [mul_div_assoc, div_self (by norm_num [minute]), mul_one]
  rw [klineLimit, whole, Int.ceil_intCast]
  omega

/-- A full answer spans the window from its first row to its last. -/
theorem ends_full {n : ℕ} {rows : List KlineRow} (positive : 0 < n)
    (consecutive : Consecutive rows) (full : (rows.length : ℤ) = klineLimit (n * minute)) :
    ∃ oldest newest, rows.head? = some oldest ∧ rows.getLast? = some newest ∧
      ends (n * minute) (inWindow (n * minute) Prod.fst (samples rows)) =
        some ((oldest.openTime * 1000, oldest.close), (newest.openTime * 1000, newest.close)) := by
  rw [klineLimit_minutes positive] at full
  cases rows with
  | nil => simp at full; omega
  | cons oldest rest =>
    obtain ⟨newest, last⟩ := Option.isSome_iff_exists.mp (List.getLast?_isSome.mpr
      (List.cons_ne_nil oldest rest))
    have span := consecutive.newest last
    have ordered := consecutive.ordered
    have minutes : rest.length = n := by
      rw [List.length_cons] at full
      omega
    have end_sample : (samples (oldest :: rest)).getLast? =
        some (newest.openTime * 1000, newest.close) := by
      rw [samples, List.getLast?_map, last]
      rfl
    -- the window reaches back to the first row
    have kept : inWindow (n * minute) Prod.fst (samples (oldest :: rest)) =
        samples (oldest :: rest) := by
      rw [inWindow, end_sample]
      apply List.filter_eq_self.mpr
      intro sample member
      have since : oldest.openTime * 1000 ≤ sample.1 := by
        rcases List.mem_cons.mp member with rfl | behind
        · exact le_rfl
        · exact (List.pairwise_cons.mp ordered).1 sample behind
      rw [span, minutes]
      apply decide_eq_true
      rw [minute]
      omega
    refine ⟨oldest, newest, rfl, last, ?_⟩
    rw [ends_inWindow_iff ordered]
    constructor
    · rw [kept, samples, List.length_map, List.length_cons]
      omega
    · rw [kept]
      rfl
    · exact end_sample
    · rw [nineTenths_le_iff ⟨n * 6000000, by rw [minute]; ring⟩, span, minutes, minute]
      push_cast
      have some_time : (0 : ℚ) < n := by exact_mod_cast positive
      linarith

/-- The scanner need not wait for a window to fill: the windows of the settings are whole minutes,
and if the exchange has answered in full, one kline a minute, the complete backfill has the change
and the trend over them. -/
theorem ready_at_once (p : BackfillParams) {priceMinutes fundingMinutes : ℕ}
    (priced : p.priceWindow = priceMinutes * minute) (some_price : 0 < priceMinutes)
    (funded : p.fundingWindow = fundingMinutes * minute) (some_funding : 0 < fundingMinutes)
    (once : p.symbols.Nodup) (begun : Timestamp) (acts : List (Timestamp × BackfillAct))
    (s : Backfill) (reached : run p.step (p.start begun) acts = some s)
    (complete : s.phase = .complete) (task : BackfillTask) (member : task ∈ s.tasks)
    (priceKlines fundingKlines : List KlineRow)
    (rows : task.gathered = some (.rows priceKlines fundingKlines))
    (price_minutes : Consecutive priceKlines) (funding_minutes : Consecutive fundingKlines)
    (price_full : priceKlines.length = p.limit .markPrice)
    (funding_full : fundingKlines.length = p.limit .premiumIndex) :
    ∃ oldest newest, priceKlines.head? = some oldest ∧ priceKlines.getLast? = some newest ∧
      s.feed.latestPrice.get? task.symbol = some newest.close ∧
      s.feed.priceChangePct task.symbol =
        (if oldest.close = 0 then none
        else some ((newest.close - oldest.close) / oldest.close * 100)) ∧
      ∃ first last, fundingKlines.head? = some first ∧ fundingKlines.getLast? = some last ∧
        s.feed.fundingTrend task.symbol = some (last.close, first.close) := by
  obtain ⟨asked, finished, -, order, seeded⟩ := complete_run reached complete
  have single : (s.tasks.map (·.symbol)).Nodup := asked ▸ once
  obtain ⟨prices, fundings, latest⟩ := seeded.histories single member (finished task member)
  have own : answered task = (priceKlines, fundingKlines) := by rw [answered, rows]
  rw [own] at prices fundings latest
  rw [foldl_pushTrimmed price_minutes.ordered, priced] at prices
  rw [foldl_pushTrimmed funding_minutes.ordered, funded] at fundings
  have windows := after_windows p.priceWindow p.fundingWindow order
  rw [← seeded.feed, priced, funded] at windows
  rw [BackfillParams.limit, priced] at price_full
  rw [BackfillParams.limit, funded] at funding_full
  obtain ⟨oldest, newest, head, last, spans⟩ := ends_full some_price price_minutes price_full
  obtain ⟨first, final, begins, finishes, funding_spans⟩ :=
    ends_full some_funding funding_minutes funding_full
  refine ⟨oldest, newest, head, last, ?_, ?_, first, final, begins, finishes, ?_⟩
  · rw [latest, last]
    rfl
  · rw [priceChangePct_eq, windows.1, prices, spans]
    rfl
  · rw [fundingTrend_eq, windows.2, fundings, funding_spans]
    rfl

theorem ready_at_once_lastFirst :
    ∃ s, run twoCoins.step (twoCoins.start 0) lastFirst = some s ∧
      s.feed.priceChangePct "ETHUSDT" = some 16 ∧
      s.feed.fundingTrend "ETHUSDT" = some (-1 / 1000, 1 / 1000) := by
  have price_full : (risen.length : ℤ) = twoCoins.limit .markPrice :=
    (klineLimit_minutes (n := 2) (by decide)).symm
  have funding_full : (fallen.length : ℤ) = twoCoins.limit .premiumIndex :=
    (klineLimit_minutes (n := 1) (by decide)).symm
  obtain ⟨oldest, newest, head, last, -, change, first, final, begins, finishes, trend⟩ :=
    @ready_at_once twoCoins 2 1 rfl (by decide) rfl (by decide) (by decide) 0 lastFirst _ rfl rfl
      ⟨"ETHUSDT", .returned risen, .returned fallen, true⟩ (.tail _ (.head _)) risen fallen rfl
      (by decide) (by decide) price_full funding_full
  cases head
  cases last
  cases begins
  cases finishes
  refine ⟨_, rfl, change.trans ?_, trend⟩
  norm_num
end Binbot.SeededFeed
