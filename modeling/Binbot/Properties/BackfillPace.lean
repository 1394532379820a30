import Binbot.Data.Bursts
import Binbot.Feeds.Backfill

/-!
# The pace of the backfill

A batch asks only when the one before it is done and the delay is over. So the calls come in
bursts, whatever the exchange takes for its answers, and no interval has more of them than the
bursts that fit into it.
-/
namespace Binbot.BackfillPace

open Data Data.Bursts Data.SlidingWindow Machine

def fetchesLeft : Fetch → ℕ
  | .unsent => 1
  | _ => 0

/-- The calls of a task that have not gone out. -/
def unsentCalls (task : BackfillTask) : ℕ := fetchesLeft task.price + fetchesLeft task.funding

def unsent (tasks : List BackfillTask) : ℕ := (tasks.map unsentCalls).sum

def sentTimes (s : Backfill) : List Timestamp := s.calls.map Prod.fst

@[simp] theorem unsent_append (before after : List BackfillTask) :
    unsent (before ++ after) = unsent before + unsent after := by
  simp [unsent]

@[simp] theorem unsent_cons (task : BackfillTask) (after : List BackfillTask) :
    unsent (task :: after) = unsentCalls task + unsent after := by
  simp [unsent]

/-- A new batch has two calls to make for each symbol. -/
theorem unsent_new (symbols : List Symbol) :
    unsent (symbols.map fun symbol => { symbol := symbol }) = 2 * symbols.length := by
  induction symbols with
  | nil => rfl
  | cons symbol rest ih =>
    rw [List.map_cons, unsent_cons, ih]
    simp [unsentCalls, fetchesLeft]
    omega

theorem fetchesLeft_of_ne {fetch : Fetch} (gone : fetch ≠ .unsent) : fetchesLeft fetch = 0 := by
  cases fetch with
  | unsent => exact absurd rfl gone
  | sent => rfl
  | returned rows => rfl
  | raised => rfl

theorem unsent_send {task : BackfillTask} {series : KlineSeries}
    (fresh : task.fetch series = .unsent) :
    unsentCalls (task.withFetch .sent series) + 1 = unsentCalls task := by
  cases series with
  | markPrice =>
    have price : task.price = .unsent := fresh
    simp [unsentCalls, BackfillTask.withFetch, price, fetchesLeft]
    omega
  | premiumIndex =>
    have funding : task.funding = .unsent := fresh
    simp [unsentCalls, BackfillTask.withFetch, funding, fetchesLeft]

theorem unsent_answer {task : BackfillTask} {series : KlineSeries} {fetch : Fetch}
    (sent : task.fetch series = .sent) (told : fetch ≠ .unsent ∧ fetch ≠ .sent) :
    unsentCalls (task.withFetch fetch series) = unsentCalls task := by
  cases series with
  | markPrice =>
    have price : task.price = .sent := sent
    rw [unsentCalls, unsentCalls, BackfillTask.withFetch, fetchesLeft_of_ne told.1, price]
    rfl
  | premiumIndex =>
    have funding : task.funding = .sent := sent
    rw [unsentCalls, unsentCalls, BackfillTask.withFetch, fetchesLeft_of_ne told.1, funding]
    rfl

/-- Tasks that are over have made their calls. -/
theorem unsent_over {tasks : List BackfillTask}
    (finished : ∀ task ∈ tasks, task.gathered ≠ none) : unsent tasks = 0 := by
  induction tasks with
  | nil => rfl
  | cons task rest ih =>
    obtain ⟨first, others⟩ := List.forall_mem_cons.mp finished
    have price : task.price ≠ .unsent := fun fresh =>
      first (BackfillTask.gathered_unsent .markPrice fresh)
    have funding : task.funding ≠ .unsent := fun fresh =>
      first (BackfillTask.gathered_unsent .premiumIndex fresh)
    rw [unsent_cons, ih others]
    simp [unsentCalls, fetchesLeft_of_ne price, fetchesLeft_of_ne funding]

/-- The calls so far are bursts of two for each symbol of a batch, and the batch that is running
has room for those it has not made. -/
structure Paced (p : BackfillParams) (s : Backfill) (done : List (List Timestamp))
    (current : List Timestamp) : Prop where
  bursts : InBursts p.batchDelay (2 * p.batchSize) (sentTimes s) (done ++ [current])
  past : ∀ t ∈ sentTimes s, t ≤ s.clock
  apart : ∀ t ∈ done.flatten, t + p.batchDelay ≤ s.clock
  room : s.phase = .gathering → current.length + unsent s.tasks ≤ 2 * p.batchSize
  asleep : ∀ since, s.phase = .sleeping since → ∀ t ∈ sentTimes s, t ≤ since

variable {p : BackfillParams} {s t : Backfill} {now : Timestamp}
  {done : List (List Timestamp)} {current : List Timestamp}

theorem batch_length (p : BackfillParams) (i : ℕ) : (p.batch i).length ≤ p.batchSize := by
  rw [BackfillParams.batch, List.length_take]
  exact Nat.min_le_left ..

theorem paced_start (p : BackfillParams) (now : Timestamp) : Paced p (p.start now) [] [] := by
  have nothing : sentTimes (p.start now) = [] := by
    rw [BackfillParams.start, BackfillParams.loopHead]
    split
    · rfl
    · rfl
  have size := batch_length p 0
  constructor
  · rw [nothing]
    exact (inBursts_nil _ _).opened
  · simp [nothing]
  · simp
  · intro busy
    rw [BackfillParams.start, BackfillParams.loopHead] at busy ⊢
    split at busy
    next some_left =>
      rw [if_pos some_left, List.nil_append, unsent_new, List.length_nil]
      omega
    next => cases busy
  · simp [nothing]

/-- A call goes out only while its batch is running, and so has room in its burst. -/
theorem Paced.sent {before after : List BackfillTask} {task : BackfillTask} {series : KlineSeries}
    (paced : Paced p s done current) (settled : s.Settled p) (later : s.clock ≤ now)
    (among : s.tasks = before ++ task :: after) (fresh : task.fetch series = .unsent) :
    Paced p { s with
      tasks := before ++ task.withFetch .sent series :: after
      calls := s.calls ++ [(now, p.call task.symbol series)]
      clock := now } done (current ++ [now]) := by
  have member : task ∈ s.tasks := by simp [among]
  have busy : s.phase = .gathering := by
    by_contra idle
    exact settled.finished task member (settled.quiet idle task member)
      (BackfillTask.gathered_unsent series fresh)
  have fewer := unsent_send fresh
  have room := paced.room busy
  simp only [among, unsent_append, unsent_cons] at room
  have grown : (s.calls ++ [(now, p.call task.symbol series)]).map Prod.fst =
      sentTimes s ++ [now] := by simp [sentTimes]
  constructor
  · rw [sentTimes, grown]
    apply paced.bursts.push (fun t held => (paced.apart t held).trans later)
    omega
  · intro t held
    rw [sentTimes, grown, List.mem_append, List.mem_singleton] at held
    rcases held with old | rfl
    · exact (paced.past t old).trans later
    · exact le_rfl
  · exact fun t held => (paced.apart t held).trans later
  · intro _
    simp only [unsent_append, unsent_cons, List.length_append, List.length_singleton]
    omega
  · intro since again
    rw [busy] at again
    cases again

/-- Nothing goes out, and nothing new is to go out. -/
theorem Paced.still (paced : Paced p s done current) (later : s.clock ≤ t.clock)
    (calls : t.calls = s.calls) (phase : t.phase = s.phase)
    (same : unsent t.tasks = unsent s.tasks) : Paced p t done current := by
  obtain ⟨bursts, past, apart, room, asleep⟩ := paced
  have times : sentTimes t = sentTimes s := by rw [sentTimes, calls, sentTimes]
  constructor
  · rw [times]
    exact bursts
  · rw [times]
    exact fun t held => (past t held).trans later
  · exact fun t held => (apart t held).trans later
  · rw [phase, same]
    exact room
  · rw [phase, times]
    exact asleep

/-- The next batch opens a burst. -/
theorem Paced.woken {since : Timestamp} (paced : Paced p s done current) (settled : s.Settled p)
    (sleeping : s.phase = .sleeping since) (later : s.clock ≤ now)
    (late : since + p.batchDelay ≤ now) :
    Paced p (p.loopHead { s with clock := now } (s.i + p.batchSize)) (done ++ [current]) [] := by
  have idle : s.phase ≠ .gathering := by simp [sleeping]
  have none_left : unsent s.tasks = 0 := unsent_over fun task member =>
    settled.finished task member (settled.quiet idle task member)
  have size := batch_length p (s.i + p.batchSize)
  rw [BackfillParams.loopHead, if_pos (settled.more since sleeping)]
  constructor
  · exact paced.bursts.opened
  · exact fun t held => (paced.past t held).trans later
  · intro t held
    rw [paced.bursts.whole] at held
    exact (add_le_add_left (paced.asleep since sleeping t held) _).trans late
  · intro _
    rw [unsent_append, none_left, unsent_new, List.length_nil]
    omega
  · intro again busy
    cases busy

theorem Paced.turned (paced : Paced p s done current) (settled : s.Settled p)
    (later : s.clock ≤ now) (turned : s.Turned p now t) :
    ∃ done current, Paced p t done current := by
  cases turned with
  | sent series among fresh => exact ⟨_, _, paced.sent settled later among fresh⟩
  | answered series among sent told =>
    refine ⟨done, current, paced.still later rfl rfl ?_⟩
    simp [among, unsent_answer sent told]
  | filled among running rows =>
    refine ⟨done, current, paced.still later rfl rfl ?_⟩
    simp [among, unsentCalls]
  | failed among running error =>
    refine ⟨done, current, paced.still later rfl rfl ?_⟩
    simp [among, unsentCalls]
  | paused busy all_over left =>
    obtain ⟨bursts, past, apart, room, asleep⟩ := paced
    refine ⟨done, current, bursts, fun t held => (past t held).trans later,
      fun t held => (apart t held).trans later, by simp, ?_⟩
    intro since begun t held
    cases begun
    exact (past t held).trans later
  | finished busy all_over none_left =>
    obtain ⟨bursts, past, apart, room, asleep⟩ := paced
    exact ⟨done, current, bursts, fun t held => (past t held).trans later,
      fun t held => (apart t held).trans later, by simp, by simp⟩
  | woken sleeping late => exact ⟨_, _, paced.woken settled sleeping later late⟩

theorem paced_run {begun : Timestamp} {acts : List (Timestamp × BackfillAct)}
    (reached : run p.step (p.start begun) acts = some s) :
    s.Settled p ∧ ∃ done current, Paced p s done current := by
  apply run_preserves (fun s => s.Settled p ∧ ∃ done current, Paced p s done current) _ _ acts _
    ⟨Backfill.settled_start p begun, [], [], paced_start p begun⟩ reached
  rintro s ⟨now, act⟩ t ⟨settled, done, current, paced⟩ moved
  obtain ⟨later, turned⟩ := BackfillParams.turned_of_step moved
  exact ⟨turned.settled settled, paced.turned settled later turned⟩

/-- However long the answers take: an interval has no more calls than two for each symbol of the
batches whose delays fit into it. -/
theorem calls_paced (p : BackfillParams) (delayed : 0 < p.batchDelay) (begun : Timestamp)
    (acts : List (Timestamp × BackfillAct)) (s : Backfill)
    (reached : run p.step (p.start begun) acts = some s) (first width : ℤ) (wide : 0 ≤ width) :
    ((s.calls.filter fun call => first ≤ call.1 ∧ call.1 ≤ first + width).length : ℤ) ≤
      2 * p.batchSize * (width / p.batchDelay + 1) := by
  obtain ⟨-, done, current, paced⟩ := paced_run reached
  have fit : 0 ≤ width / p.batchDelay := Int.ediv_nonneg wide delayed.le
  have short : first + width < first + ((width / p.batchDelay).toNat + 1) • p.batchDelay := by
    have next := Int.lt_ediv_add_one_mul_self width delayed
    rw [nsmul_eq_mul]
    push_cast
    rw [Int.toNat_of_nonneg fit]
    omega
  have counted := paced.bursts.length_between_le delayed.le short
  have same : (between first (first + width) (sentTimes s)).length =
      (s.calls.filter fun call => first ≤ call.1 ∧ call.1 ≤ first + width).length := by
    rw [between, sentTimes, List.filter_map, List.length_map]
    rfl
  rw [same] at counted
  calc ((s.calls.filter fun call => first ≤ call.1 ∧ call.1 ≤ first + width).length : ℤ)
      ≤ (2 * p.batchSize * ((width / p.batchDelay).toNat + 1) : ℕ) := by exact_mod_cast counted
    _ = 2 * p.batchSize * (width / p.batchDelay + 1) := by
      push_cast
      rw [Int.toNat_of_nonneg fit]

/-- Batches of two. -/
def threeCoins : BackfillParams where
  priceWindow := 15 * minute
  fundingWindow := 30 * minute
  symbols := ["BTCUSDT", "ETHUSDT", "SOLUSDT"]
  batchSize := 2

/-- The first batch takes most of a second, and one of its calls fails. -/
def oneFails : List (Timestamp × BackfillAct) :=
  [(0, .send 0 .markPrice), (0, .send 0 .premiumIndex), (1, .send 1 .markPrice),
    (1, .send 1 .premiumIndex), (500000, .answer 0 .markPrice none), (500000, .resume 0),
    (600000, .answer 1 .premiumIndex (some [])), (700000, .answer 1 .markPrice (some [])),
    (700000, .resume 1), (700000, .gathered), (1700000, .wake), (1700000, .send 2 .markPrice)]

theorem calls_paced_oneFails :
    ∃ s, run threeCoins.step (threeCoins.start 0) oneFails = some s ∧ s.calls.length = 5 ∧
      ((s.calls.filter fun call => (0 : ℤ) ≤ call.1 ∧ call.1 ≤ 0 + 999999).length : ℤ) ≤
        2 * threeCoins.batchSize * (999999 / threeCoins.batchDelay + 1) :=
  ⟨_, rfl, rfl, calls_paced threeCoins (by decide) 0 oneFails _ rfl 0 999999 (by decide)⟩

end Binbot.BackfillPace
