import Binbot.Data.Binary64
import Binbot.Machine.Run
import Binbot.Risk.CircuitBreaker
import Mathlib.Data.List.Infix

/-!
# Sessions of the circuit breaker

What a breaker comes to when it is fed any sequence of equity readings and halts:
exactly when it trips, how long a halt lasts, and when its baselines can stop being
positive.
-/
namespace Binbot

open Data

/-- What a session is fed. -/
inductive SessionOp where
  | update (equity : ℚ) (now : Timestamp)
  | forceHalt (reason : String)
  deriving DecidableEq

namespace SessionOp

def applyIn (r : Rounding) (b : DrawdownCircuitBreaker) : SessionOp → DrawdownCircuitBreaker
  | .update equity now => (b.updateIn r equity now).1
  | .forceHalt reason => b.forceHalt reason

def apply (b : DrawdownCircuitBreaker) : SessionOp → DrawdownCircuitBreaker
  | .update equity now => (b.update equity now).1
  | .forceHalt reason => b.forceHalt reason

/-- The date of a reading. -/
def date : SessionOp → Option Date
  | .update _ now => some now.date
  | .forceHalt _ => none

/-- The peak once the reading is in. -/
def raise (peak : ℚ) : SessionOp → ℚ
  | .update equity _ => max peak equity
  | .forceHalt _ => peak

/-- The reason a halted breaker gives afterwards. -/
def reason (given : String) : SessionOp → String
  | .update _ _ => given
  | .forceHalt reason => reason

end SessionOp

namespace DrawdownCircuitBreaker

/-- What a breaker has come to in an arithmetic that rounds. -/
def afterIn (r : Rounding) (b : DrawdownCircuitBreaker) (ops : List SessionOp) :
    DrawdownCircuitBreaker :=
  ops.foldl (SessionOp.applyIn r) b

def after (b : DrawdownCircuitBreaker) (ops : List SessionOp) : DrawdownCircuitBreaker :=
  ops.foldl SessionOp.apply b

theorem afterIn_append (r : Rounding) (b : DrawdownCircuitBreaker) (before later : List SessionOp) :
    b.afterIn r (before ++ later) = (b.afterIn r before).afterIn r later := List.foldl_append

theorem afterIn_snoc (r : Rounding) (b : DrawdownCircuitBreaker) (ops : List SessionOp)
    (op : SessionOp) : b.afterIn r (ops ++ [op]) = op.applyIn r (b.afterIn r ops) := by
  rw [afterIn_append]
  rfl

/-! ## Tripping -/

/-- The highest of the session's start and its readings. -/
def peakOf (start : ℚ) (ops : List SessionOp) : ℚ := ops.foldl SessionOp.raise start

/-- The operator has halted the session. -/
def Forced (ops : List SessionOp) : Prop := ∃ reason, SessionOp.forceHalt reason ∈ ops

/-- The drawdown of the reading from the start, or that from the peak, the reading included, comes
out at the limit or more. -/
def Breaches (r : Rounding) (limit start peak equity : ℚ) : Prop :=
  r.mul (r.div (r.sub start equity) start) 100 ≥ limit ∨
    r.mul (r.div (r.sub (max peak equity) equity) (max peak equity)) 100 ≥ limit

/-- Some reading so far breached the limit at the peak of its time. -/
def Breached (r : Rounding) (limit start : ℚ) (ops : List SessionOp) : Prop :=
  ∃ before equity now, before ++ [SessionOp.update equity now] <+: ops ∧
    Breaches r limit start (peakOf start before) equity

/-- Every reading is positive and taken on the session's date. -/
def InSession (today : Date) (ops : List SessionOp) : Prop :=
  ∀ equity now, SessionOp.update equity now ∈ ops → now.date = today ∧ 0 < equity

theorem peakOf_snoc (start : ℚ) (ops : List SessionOp) (op : SessionOp) :
    peakOf start (ops ++ [op]) = op.raise (peakOf start ops) := by
  rw [peakOf, List.foldl_append]
  rfl

theorem le_peakOf (start : ℚ) (ops : List SessionOp) : start ≤ peakOf start ops := by
  induction ops using List.reverseRecOn with
  | nil => exact le_refl start
  | append_singleton ops op ih =>
    rw [peakOf_snoc]
    cases op with
    | update equity now => exact ih.trans (le_max_left _ _)
    | forceHalt reason => exact ih

theorem forced_snoc_update (ops : List SessionOp) (equity : ℚ) (now : Timestamp) :
    Forced (ops ++ [.update equity now]) ↔ Forced ops := by
  simp [Forced]

section Session

variable {r : Rounding} {limit start : ℚ} {today : Date} {b : DrawdownCircuitBreaker}
  {ops : List SessionOp}

theorem breaches_iff (r : Rounding) (limit start peak equity : ℚ) :
    Breaches r limit start peak equity ↔
      drawdownPctIn r start (max peak equity) equity ≥ limit := le_max_iff.symm

/-- Without rounding, the reading lies the limit or more below the peak. -/
theorem breaches_exact {peak equity : ℚ} (start_pos : 0 < start) (ratchet : start ≤ peak)
    (solvent : 0 < equity) : Breaches .exact limit start peak equity ↔
      (max peak equity - equity) * 100 ≥ limit * max peak equity := by
  rw [breaches_iff, drawdownPctIn_exact]
  exact drawdownPct_ge_iff start_pos (ratchet.trans (le_max_left _ _)) solvent.le limit

theorem breached_snoc_update (ops : List SessionOp) (equity : ℚ) (now : Timestamp) :
    Breached r limit start (ops ++ [.update equity now]) ↔
      Breached r limit start ops ∨ Breaches r limit start (peakOf start ops) equity := by
  constructor
  · rintro ⟨before, e, t, early, deep⟩
    rcases List.prefix_concat_iff.mp early with whole | early
    · -- it is the new reading itself
      obtain ⟨rfl, last⟩ := List.append_inj' whole rfl
      cases last
      exact .inr deep
    · exact .inl ⟨before, e, t, early, deep⟩
  · rintro (⟨before, e, t, early, deep⟩ | deep)
    · exact ⟨before, e, t, early.trans (List.prefix_append _ _), deep⟩
    · exact ⟨ops, equity, now, List.prefix_refl _, deep⟩

/-- A breaker that has been fed `ops` since its session started. -/
structure Tracks (r : Rounding) (limit start : ℚ) (today : Date) (ops : List SessionOp)
    (b : DrawdownCircuitBreaker) : Prop where
  limit_eq : b.maxDailyDrawdownPct = limit
  date_eq : b.sessionDate = today
  start_eq : b.startingEquity = start
  peak_eq : b.peakEquity = peakOf start ops
  halted_iff : b.halted = true ↔ Forced ops ∨ Breached r limit start ops

theorem Tracks.positive (tracks : Tracks r limit start today ops b) (start_pos : 0 < start) :
    b.Positive := by
  constructor
  · rw [tracks.start_eq]
    exact start_pos
  · rw [tracks.peak_eq]
    exact start_pos.trans_le (le_peakOf start ops)

/-- What a reading returns, and what it does to the halt. -/
theorem Tracks.updateIn_spec (tracks : Tracks r limit start today ops b) (start_pos : 0 < start)
    {equity : ℚ} {now : Timestamp} (sameDay : now.date = today) :
    ((b.updateIn r equity now).2 = .ok true ↔
        b.halted = false ∧ Breaches r limit start (peakOf start ops) equity) ∧
      ((b.updateIn r equity now).1.halted = true ↔
        b.halted = true ∨ Breaches r limit start (peakOf start ops) equity) := by
  have onDate : now.date = b.sessionDate := sameDay.trans tracks.date_eq.symm
  rw [breaches_iff, ← tracks.peak_eq, ← tracks.start_eq, ← tracks.limit_eq]
  cases halted : b.halted with
  | true =>
    -- a halted breaker returns false at any depth
    rw [b.updateIn_whileHalted r equity now onDate halted]
    simp [halted]
  | false =>
    obtain ⟨returned, halts⟩ :=
      (tracks.positive start_pos).updateIn_running r equity now onDate halted
    rw [returned, halts]
    simp

/-- One more operation. -/
theorem Tracks.snoc (tracks : Tracks r limit start today ops b) (start_pos : 0 < start)
    {op : SessionOp} (inSession : InSession today [op]) :
    Tracks r limit start today (ops ++ [op]) (op.applyIn r b) := by
  cases op with
  | update equity now =>
    obtain ⟨sameDay, -⟩ := inSession equity now List.mem_cons_self
    obtain ⟨date, starting, peak⟩ :=
      b.updateIn_session r equity now (sameDay.trans tracks.date_eq.symm)
    constructor
    · exact (b.updateIn_limit r equity now).trans tracks.limit_eq
    · exact date.trans tracks.date_eq
    · exact starting.trans tracks.start_eq
    · rw [peakOf_snoc, SessionOp.raise, ← tracks.peak_eq]
      exact peak
    · rw [forced_snoc_update, breached_snoc_update, ← or_assoc, ← tracks.halted_iff]
      exact (tracks.updateIn_spec start_pos sameDay).2
  | forceHalt reason =>
    constructor
    · exact tracks.limit_eq
    · exact tracks.date_eq
    · exact tracks.start_eq
    · rw [peakOf_snoc]
      exact tracks.peak_eq
    · have forced : Forced (ops ++ [.forceHalt reason]) := ⟨reason, by simp⟩
      simp [SessionOp.applyIn, forced]

/-- A whole session, from its start. -/
theorem tracks_after (created : create limit start today = .ok b)
    (inSession : InSession today ops) : Tracks r limit start today ops (b.afterIn r ops) := by
  obtain ⟨start_pos, limit_eq, fresh⟩ := create_ok created
  simp only [snapshot, Saved.mk.injEq] at fresh
  induction ops using List.reverseRecOn with
  | nil =>
    constructor
    · exact limit_eq
    · exact fresh.1
    · exact fresh.2.1
    · exact fresh.2.2.1
    · simp [afterIn, fresh.2.2.2.1, Forced, Breached]
  | append_singleton ops op ih =>
    rw [afterIn_snoc]
    apply (ih fun e t member => inSession e t (List.mem_append_left _ member)).snoc start_pos
    exact fun e t member => inSession e t (List.mem_append_right _ member)

/-- Once halted, a session stays halted, and only a forced halt changes the reason. -/
theorem afterIn_halted (r : Rounding) (halted : b.halted = true) (date : b.sessionDate = today)
    (sameDay : ∀ equity now, SessionOp.update equity now ∈ ops → now.date = today) :
    (b.afterIn r ops).halted = true ∧
      (b.afterIn r ops).haltReason = ops.foldl SessionOp.reason b.haltReason := by
  induction ops generalizing b with
  | nil => exact ⟨halted, rfl⟩
  | cons op rest ih =>
    have later : ∀ equity now, SessionOp.update equity now ∈ rest → now.date = today :=
      fun e t member => sameDay e t (List.mem_cons_of_mem op member)
    cases op with
    | update equity now =>
      have onDate : now.date = b.sessionDate :=
        (sameDay equity now List.mem_cons_self).trans date.symm
      have unchanged := b.updateIn_whileHalted r equity now onDate halted
      -- only the peak has moved, and the rest of the session does not look back at it
      have moved : b.afterIn r (.update equity now :: rest) =
          { b with peakEquity := max b.peakEquity equity : DrawdownCircuitBreaker }.afterIn r
            rest := by
        rw [afterIn, List.foldl_cons, SessionOp.applyIn, unchanged]
        rfl
      rw [moved]
      exact ih (b := { b with peakEquity := max b.peakEquity equity }) halted date later
    | forceHalt reason => exact ih (b := b.forceHalt reason) rfl date later

end Session

/-- The trip of a session, exactly, in any arithmetic. The peak is the highest of start and
readings. It is halted when an operator halted it or the drawdown of a reading came out at the
limit. An update returns true at the first such reading, unless a halt came before it, and so at
most once. What halts it stays until the session is over. Without rounding, such a reading is one
that lies the limit below the peak of its time. -/
theorem trips_exactly (r : Rounding) {limit start : ℚ} {today : Date} {b : DrawdownCircuitBreaker}
    (created : create limit start today = .ok b) (ops : List SessionOp)
    (inSession : InSession today ops) :
    (b.afterIn r ops).peakEquity = peakOf start ops ∧
      ((b.afterIn r ops).halted = true ↔ Forced ops ∨ Breached r limit start ops) ∧
      (∀ before equity now, before ++ [SessionOp.update equity now] <+: ops →
        (((b.afterIn r before).updateIn r equity now).2 = .ok true ↔ ¬ Forced before ∧
          ¬ Breached r limit start before ∧ Breaches r limit start (peakOf start before) equity)) ∧
      (∀ first e₁ t₁ second e₂ t₂, first ++ [SessionOp.update e₁ t₁] <+: ops →
        second ++ [SessionOp.update e₂ t₂] <+: ops →
        ((b.afterIn r first).updateIn r e₁ t₁).2 = .ok true →
        ((b.afterIn r second).updateIn r e₂ t₂).2 = .ok true → first = second) ∧
      (∀ before later, ops = before ++ later → (b.afterIn r before).halted = true →
        (b.afterIn r ops).halted = true ∧ (b.afterIn r ops).haltReason =
          later.foldl SessionOp.reason (b.afterIn r before).haltReason) ∧
      ∀ before equity now, before ++ [SessionOp.update equity now] <+: ops →
        (Breaches .exact limit start (peakOf start before) equity ↔
          (max (peakOf start before) equity - equity) * 100 ≥
            limit * max (peakOf start before) equity) := by
  obtain ⟨start_pos, -⟩ := create_ok created
  have prefixes : ∀ before, before <+: ops →
      Tracks r limit start today before (b.afterIn r before) :=
    fun before early => tracks_after created fun e t member => inSession e t (early.subset member)
  have returns : ∀ before equity now, before ++ [SessionOp.update equity now] <+: ops →
      (((b.afterIn r before).updateIn r equity now).2 = .ok true ↔ ¬ Forced before ∧
        ¬ Breached r limit start before ∧ Breaches r limit start (peakOf start before) equity) := by
    intro before equity now early
    have tracks := prefixes before ((List.prefix_append _ _).trans early)
    obtain ⟨sameDay, -⟩ := inSession equity now (early.subset (by simp))
    rw [(tracks.updateIn_spec start_pos sameDay).1, ← Bool.not_eq_true, tracks.halted_iff]
    tauto
  refine ⟨(prefixes ops (List.prefix_refl _)).peak_eq, (prefixes ops (List.prefix_refl _)).halted_iff,
    returns, ?_, ?_, ?_⟩
  · -- a later update would find the session breached already
    have once : ∀ first e₁ t₁ second e₂ t₂, first ++ [SessionOp.update e₁ t₁] <+: ops →
        second ++ [SessionOp.update e₂ t₂] <+: ops →
        ((b.afterIn r first).updateIn r e₁ t₁).2 = .ok true →
        ((b.afterIn r second).updateIn r e₂ t₂).2 = .ok true →
        ¬ first.length < second.length := by
      intro first e₁ t₁ second e₂ t₂ early late trips again shorter
      have deep := ((returns first e₁ t₁ early).mp trips).2.2
      apply ((returns second e₂ t₂ late).mp again).2.1
      refine ⟨first, e₁, t₁, ?_, deep⟩
      apply List.prefix_of_prefix_length_le early ((List.prefix_append _ _).trans late)
      rw [List.length_append]
      exact shorter
    intro first e₁ t₁ second e₂ t₂ early late trips again
    have same : first.length = second.length := by
      have := once first e₁ t₁ second e₂ t₂ early late trips again
      have := once second e₂ t₂ first e₁ t₁ late early again trips
      omega
    have inside : first <+: second := by
      apply List.prefix_of_prefix_length_le ((List.prefix_append _ _).trans early)
        ((List.prefix_append _ _).trans late)
      omega
    exact inside.eq_of_length same
  · rintro before later rfl halted
    rw [afterIn_append]
    apply afterIn_halted r halted (prefixes before (List.prefix_append _ _)).date_eq
    exact fun e t member => (inSession e t (List.mem_append_right _ member)).1
  · intro before equity now early
    exact breaches_exact start_pos (le_peakOf start before) (inSession equity now
      (early.subset (by simp))).2

/-- Five percent a day, from 1000. -/
def demoBreaker : DrawdownCircuitBreaker where
  maxDailyDrawdownPct := 5
  startingEquity := 1000
  sessionDate := 0
  peakEquity := 1000
  halted := false
  haltReason := ""
  autoResetPending := false
  pct_pos := by norm_num
  pct_le := by norm_num

theorem demoBreaker_created : create 5 1000 0 = .ok demoBreaker := by
  rw [create, if_neg (by norm_num), dif_pos (by norm_num)]
  rfl

/-- 960 does not trip, 940 does, 1 after it does not again. -/
theorem trips_exactly_at_940 :
    (demoBreaker.afterIn .binary64 [.update 960 0, .update 940 1, .update 1 2]).peakEquity = 1000 ∧
      ((demoBreaker.afterIn .binary64 [.update 960 0]).updateIn .binary64 940 1).2 = .ok true ∧
      ((demoBreaker.afterIn .binary64 [.update 960 0, .update 940 1]).updateIn .binary64 1 2).2 ≠
        .ok true := by
  have session : InSession 0 [.update 960 0, .update 940 1, .update 1 2] := by
    intro equity now member
    simp only [List.mem_cons, SessionOp.update.injEq, List.not_mem_nil, or_false] at member
    rcases member with ⟨rfl, rfl⟩ | ⟨rfl, rfl⟩ | ⟨rfl, rfl⟩
    all_goals exact ⟨by decide, by norm_num⟩
  obtain ⟨peak, -, returns, once, -⟩ := trips_exactly .binary64 demoBreaker_created _ session
  have tripped : ((demoBreaker.afterIn .binary64 [.update 960 0]).updateIn .binary64 940 1).2 =
      .ok true := by
    decide +kernel
  refine ⟨?_, tripped, ?_⟩
  · rw [peak]
    decide +kernel
  · intro again
    have same := once [.update 960 0] 940 1 [.update 960 0, .update 940 1] 1 2 (by simp) (by simp)
      tripped again
    simp at same

/-- With a limit of 7.25 a reading of 92.75 lies exactly the limit below 100. In doubles its
drawdown comes out as the number below 7.25, and nothing is halted. -/
theorem limit_missed_in_doubles :
    ¬ ∀ (limit start : ℚ) (today : Date) (b : DrawdownCircuitBreaker) (ops : List SessionOp),
      create limit start today = .ok b → InSession today ops →
      ((b.afterIn .binary64 ops).halted = true ↔ Forced ops ∨
        ∃ before equity now, before ++ [SessionOp.update equity now] <+: ops ∧
          (max (peakOf start before) equity - equity) * 100 ≥
            limit * max (peakOf start before) equity) := by
  intro claim
  obtain ⟨b, created⟩ : ∃ b, create (29 / 4) 100 0 = .ok b := by
    rw [create, if_neg (by norm_num), dif_pos (by norm_num)]
    exact ⟨_, rfl⟩
  have halts := (claim (29 / 4) 100 0 b [.update (371 / 4) 0] created (by
    intro equity now member
    simp only [List.mem_singleton, SessionOp.update.injEq] at member
    obtain ⟨rfl, rfl⟩ := member
    exact ⟨by decide, by norm_num⟩)).mpr
      (.inr ⟨[], 371 / 4, 0, List.prefix_refl _, by decide +kernel⟩)
  rw [create, if_neg (by norm_num), dif_pos (by norm_num)] at created
  cases created
  revert halts
  decide +kernel

/-! ## No recovery on the same day -/

/-- The reading is taken on another date. -/
def Leaves (day : Date) (op : SessionOp) : Prop := ∃ date, op.date = some date ∧ date ≠ day

/-- Every reading of the day finds the session halted. -/
def StaysHalted (b : DrawdownCircuitBreaker) (day : Date) (ops : List SessionOp) : Prop :=
  ∀ before equity now, before ++ [SessionOp.update equity now] <+: ops → now.date = day →
    (b.after (before ++ [.update equity now])).halted = true

/-- Once a reading is off the day, none is on it again. -/
def NeverReturns (day : Date) (ops : List SessionOp) : Prop :=
  ops.Pairwise fun op later => Leaves day op → later.date ≠ some day

section SameDay

variable {b : DrawdownCircuitBreaker} {day : Date} {ops : List SessionOp}

theorem staysHalted_nil : StaysHalted b day [] := by
  intro before equity now early
  simp at early

theorem staysHalted_cons (op : SessionOp) : StaysHalted b day (op :: ops) ↔
    (op.date = some day → (op.apply b).halted = true) ∧ StaysHalted (op.apply b) day ops := by
  constructor
  · intro stays
    constructor
    · intro onDay
      cases op with
      | update equity now =>
        exact stays [] equity now (by simp) (Option.some.inj onDay)
      | forceHalt reason => cases onDay
    · intro before equity now early
      exact stays (op :: before) equity now (List.cons_prefix_cons.mpr ⟨rfl, early⟩)
  · rintro ⟨first, rest⟩ before equity now early onDay
    cases before with
    | nil =>
      obtain ⟨rfl, -⟩ := List.cons_prefix_cons.mp early
      exact first (congrArg some onDay)
    | cons op' before =>
      obtain ⟨rfl, tail⟩ := List.cons_prefix_cons.mp early
      exact rest before equity now tail onDay

/-- Off the day, the first reading back on it starts a fresh session. -/
theorem staysHalted_away (away : b.sessionDate ≠ day) :
    StaysHalted b day ops ↔ ∀ op ∈ ops, op.date ≠ some day := by
  induction ops generalizing b with
  | nil => exact ⟨fun _ op member => absurd member List.not_mem_nil, fun _ => staysHalted_nil⟩
  | cons op rest ih =>
    rw [staysHalted_cons, List.forall_mem_cons]
    cases op with
    | update equity now =>
      by_cases onDay : now.date = day
      · have otherDay : now.date ≠ b.sessionDate := fun same => away (same.symm.trans onDay)
        simp [SessionOp.date, SessionOp.apply, b.update_otherDay equity now otherDay, onDay]
      · have stillAway : (b.update equity now).1.sessionDate ≠ day := by
          by_cases same : now.date = b.sessionDate
          · rw [(b.update_session equity now same).1]
            exact away
          · rw [b.update_otherDay equity now same]
            exact onDay
        simp [SessionOp.date, SessionOp.apply, onDay, ih stillAway]
    | forceHalt reason =>
      have stillAway : (b.forceHalt reason).sessionDate ≠ day := away
      simp [SessionOp.date, SessionOp.apply, ih stillAway]

/-- A halt is in force for every later reading of its day, in every order of readings in
which the clock does not come back to the day after leaving it, and in no other. -/
theorem staysHalted_iff_neverReturns (halted : b.halted = true) (date : b.sessionDate = day) :
    StaysHalted b day ops ↔ NeverReturns day ops := by
  induction ops generalizing b with
  | nil => exact ⟨fun _ => List.Pairwise.nil, fun _ => staysHalted_nil⟩
  | cons op rest ih =>
    rw [staysHalted_cons, NeverReturns, List.pairwise_cons]
    cases op with
    | update equity now =>
      by_cases onDay : now.date = day
      · -- still the day: the halt stays
        have same : now.date = b.sessionDate := onDay.trans date.symm
        have kept := b.update_halted equity now same halted
        have later := ih kept ((b.update_session equity now same).1.trans date)
        simp [SessionOp.apply, Leaves, SessionOp.date, onDay, kept, later, NeverReturns]
      · -- the clock leaves the day: no reading may be on it any more
        have otherDay : now.date ≠ b.sessionDate := fun same => onDay (same.trans date)
        have away : (b.update equity now).1.sessionDate ≠ day := by
          rw [b.update_otherDay equity now otherDay]
          exact onDay
        have left : Leaves day (.update equity now) := ⟨now.date, rfl, onDay⟩
        have unread : SessionOp.date (.update equity now) ≠ some day :=
          fun same => onDay (Option.some.inj same)
        constructor
        · rintro ⟨-, stays⟩
          have never := (staysHalted_away away).mp stays
          exact ⟨fun later member _ => never later member,
            List.pairwise_of_forall_mem_list fun _ _ later member _ => never later member⟩
        · rintro ⟨never, -⟩
          refine ⟨fun onIt => absurd onIt unread, (staysHalted_away away).mpr ?_⟩
          exact fun later member => never later member left
    | forceHalt reason =>
      have later := ih (b := b.forceHalt reason) rfl date
      have undated : ¬ Leaves day (.forceHalt reason) := fun ⟨_, dated, _⟩ => by cases dated
      constructor
      · rintro ⟨-, stays⟩
        exact ⟨fun _ _ left => absurd left undated, later.mp stays⟩
      · rintro ⟨-, never⟩
        exact ⟨fun _ => rfl, later.mpr never⟩

end SameDay

/-- Halted, a reading dated the day before, and back: the same day starts afresh. -/
theorem backward_clock_recovers :
    ((demoBreaker.after [.update 900 0]).halted = true ∧
      (demoBreaker.after [.update 900 0]).sessionDate = 0) ∧
      ¬ StaysHalted (demoBreaker.after [.update 900 0]) 0 [.update 900 (-1), .update 900 1] := by
  refine ⟨by decide +kernel, fun stays => ?_⟩
  have still := stays [.update 900 (-1)] 900 1 (by simp) (by decide)
  revert still
  decide +kernel

/-- Halted at 900 and read again the same day and the next: halted while the day lasts. -/
theorem staysHalted_iff_neverReturns_onward :
    StaysHalted (demoBreaker.after [.update 900 0]) 0 [.update 900 1, .update 900 86400000000] := by
  have halted : (demoBreaker.after [.update 900 0]).halted = true := by decide +kernel
  apply (staysHalted_iff_neverReturns halted (by decide +kernel)).mpr
  refine List.pairwise_pair.mpr ?_
  rintro ⟨date, same, other⟩
  cases same
  exact absurd (by decide) other

/-! ## Positive baselines -/

/-- Everything that happens to a breaker, over days and restarts. -/
inductive BreakerAct where
  | session (op : SessionOp)
  | consumeAutoResetFlag
  | resetSession (equity : ℚ) (date : Date)
  | snapshot
  /-- Only what was saved comes back. -/
  | restore (saved : Saved)
  /-- A new process constructs its breaker. -/
  | construct (maxDailyDrawdownPct startingEquity : ℚ) (today : Date)

structure BreakerHistory where
  breaker : DrawdownCircuitBreaker
  saved : List Saved

namespace BreakerHistory

def step (h : BreakerHistory) : BreakerAct → Option BreakerHistory
  | .session op => some { h with breaker := op.apply h.breaker }
  | .consumeAutoResetFlag => some { h with breaker := h.breaker.consumeAutoResetFlag.2 }
  | .resetSession equity date => some { h with breaker := h.breaker.resetSession equity date }
  | .snapshot => some { h with saved := h.breaker.snapshot :: h.saved }
  | .restore saved =>
    if saved ∈ h.saved then some { h with breaker := h.breaker.restore saved } else none
  | .construct limit equity today =>
    match create limit equity today with
    | .ok b => some { h with breaker := b }
    | .error _ => none

/-- Whatever becomes the baseline of a session is positive. -/
def Funded (h : BreakerHistory) : BreakerAct → Prop
  | .session (.update equity now) => now.date ≠ h.breaker.sessionDate → 0 < equity
  | .resetSession equity _ => 0 < equity
  | _ => True

/-- The baselines are positive, so no reading divides by zero, and none shows a
negative drawdown. -/
structure Guarded (b : DrawdownCircuitBreaker) : Prop where
  positive : b.Positive
  returns : ∀ equity now, ∃ tripped, (b.update equity now).2 = .ok tripped
  drawdown : ∀ equity,
    0 ≤ drawdownPct b.startingEquity (max b.peakEquity equity) equity

theorem Guarded.of_positive {b : DrawdownCircuitBreaker} (positive : b.Positive) : Guarded b :=
  ⟨positive, positive.update_returns, positive.drawdown_nonneg⟩

/-- The baselines are positive, and so are those that can come back. -/
structure Solvent (h : BreakerHistory) : Prop where
  breaker : h.breaker.Positive
  saved : ∀ s ∈ h.saved, 0 < s.startingEquity ∧ 0 < s.peakEquity

theorem Solvent.step {h h' : BreakerHistory} {act : BreakerAct} (solvent : h.Solvent)
    (funded : h.Funded act) (moved : h.step act = some h') : h'.Solvent := by
  cases act with
  | session op =>
    cases moved
    refine ⟨?_, solvent.saved⟩
    cases op with
    | update equity now =>
      -- within the day the start stays and the peak only rises; a new day starts at the reading
      by_cases sameDay : now.date = h.breaker.sessionDate
      · obtain ⟨-, start, peak⟩ := h.breaker.update_session equity now sameDay
        constructor
        · exact start ▸ solvent.breaker.start_pos
        · exact peak ▸ lt_max_of_lt_left solvent.breaker.peak_pos
      · rw [SessionOp.apply, h.breaker.update_otherDay equity now sameDay]
        exact ⟨funded sameDay, funded sameDay⟩
    | forceHalt reason => exact ⟨solvent.breaker.start_pos, solvent.breaker.peak_pos⟩
  | consumeAutoResetFlag =>
    cases moved
    exact ⟨⟨solvent.breaker.start_pos, solvent.breaker.peak_pos⟩, solvent.saved⟩
  | resetSession equity date =>
    cases moved
    exact ⟨⟨funded, funded⟩, solvent.saved⟩
  | snapshot =>
    cases moved
    refine ⟨solvent.breaker, ?_⟩
    intro s member
    rcases List.mem_cons.mp member with rfl | old
    · exact ⟨solvent.breaker.start_pos, solvent.breaker.peak_pos⟩
    · exact solvent.saved s old
  | restore saved =>
    simp only [BreakerHistory.step] at moved
    split at moved
    -- only what was saved can be restored
    next member =>
      cases moved
      exact ⟨⟨(solvent.saved saved member).1, (solvent.saved saved member).2⟩, solvent.saved⟩
    · cases moved
  | construct limit equity today =>
    simp only [BreakerHistory.step] at moved
    split at moved
    next b created =>
      cases moved
      obtain ⟨positive, -, fresh⟩ := create_ok created
      simp only [DrawdownCircuitBreaker.snapshot, Saved.mk.injEq] at fresh
      refine ⟨⟨?_, ?_⟩, solvent.saved⟩
      · rw [fresh.2.1]
        exact positive
      · rw [fresh.2.2.1]
        exact positive
    · cases moved

/-- A baseline that leaves the breaker positive was positive. -/
theorem funded_of_positive {h h' : BreakerHistory} {act : BreakerAct}
    (moved : h.step act = some h') (positive : h'.breaker.Positive) : h.Funded act := by
  cases act with
  | session op =>
    cases moved
    cases op with
    | update equity now =>
      intro otherDay
      have fresh := positive.start_pos
      rw [SessionOp.apply, h.breaker.update_otherDay equity now otherDay] at fresh
      exact fresh
    | forceHalt reason => trivial
  | resetSession equity date =>
    cases moved
    exact positive.start_pos
  | _ => trivial

theorem funded_of_idle {h : BreakerHistory} {act : BreakerAct} (idle : h.step act = none) :
    h.Funded act := by
  cases act with
  | session op => cases idle
  | resetSession equity date => cases idle
  | _ => trivial

/-- Over every history from a constructed breaker the baselines stay positive exactly when
every equity that becomes a baseline is: one read at a rollover, or given to a reset. -/
theorem guarded_iff_funded {limit start : ℚ} {today : Date} {b : DrawdownCircuitBreaker}
    (created : create limit start today = .ok b) (acts : List BreakerAct) :
    Machine.Always step (fun h => Guarded h.breaker) ⟨b, []⟩ acts ↔
      Machine.Meets step Funded ⟨b, []⟩ acts := by
  obtain ⟨positive, -, fresh⟩ := create_ok created
  simp only [DrawdownCircuitBreaker.snapshot, Saved.mk.injEq] at fresh
  refine (Machine.meets_iff_always Solvent _ ?_ ?_ ?_ ?_ _ acts ?_).symm
  · exact fun h solvent => .of_positive solvent.breaker
  · exact fun h act h' solvent funded moved => solvent.step funded moved
  · exact fun h act h' _ moved guarded => funded_of_positive moved guarded.positive
  · exact fun h act idle => funded_of_idle idle
  · refine ⟨⟨?_, ?_⟩, by simp⟩
    · rw [fresh.2.1]
      exact positive
    · rw [fresh.2.2.1]
      exact positive

/-- An empty account at midnight makes the next reading divide by zero; an overdrawn one
makes every further loss a negative drawdown, which never trips. -/
theorem rollover_unguarded :
    (∃ h : BreakerHistory,
      Machine.run step ⟨demoBreaker, []⟩ [.session (.update 0 86400000000)] = some h ∧
        ¬ Guarded h.breaker ∧
        (h.breaker.update 1000 86400000001).2 = .error "ZeroDivisionError") ∧
      ∃ h : BreakerHistory,
        Machine.run step ⟨demoBreaker, []⟩ [.session (.update (-10) 86400000000)] = some h ∧
          drawdownPct h.breaker.startingEquity (max h.breaker.peakEquity (-1000)) (-1000) < 0 ∧
          (h.breaker.update (-1000) 86400000001).2 = .ok false := by
  constructor
  · refine ⟨_, rfl, ?_, by decide +kernel⟩
    intro guarded
    have start := guarded.positive.start_pos
    revert start
    decide +kernel
  · exact ⟨_, rfl, by decide +kernel, by decide +kernel⟩

/-- Over a day's end with money in the account. -/
theorem guarded_iff_funded_overnight : Machine.Always step (fun h => Guarded h.breaker)
    ⟨demoBreaker, []⟩ [.session (.update 960 1), .snapshot, .session (.update 970 86400000000)] := by
  rw [guarded_iff_funded demoBreaker_created]
  refine ⟨fun _ => by norm_num, fun _ _ => ⟨trivial, fun _ _ => ⟨fun _ => by norm_num, ?_⟩⟩⟩
  intros
  trivial

end BreakerHistory

end DrawdownCircuitBreaker

end Binbot
