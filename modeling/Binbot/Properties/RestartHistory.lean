import Binbot.Machine.Run
import Binbot.Properties.DailyHistory
import Binbot.Server.DashboardClients

/-!
# The dashboard's history across restarts

What the bridge keeps for new tabs is in the memory of its process, and in a daily log. A process
that dies takes its memory along, and the next one starts from the log. The closed trades and the
audit lines are kept in this way, each with a bound of its own.
-/
namespace Binbot.RestartHistory

open Data DailyJsonlLog DailyHistory Machine

/-- The file system, the list in the memory of the process that runs, and all that has ever been
recorded. -/
structure HistoryDesk where
  files : Files := .empty
  startedAt : Option Timestamp := none
  recent : List Json := []
  entries : List Entry := []
  clock : Timestamp

inductive Act where
  /-- Whatever ran before has died. -/
  | start (now : Timestamp)
  | record (entry : Entry)

/-- `read_recent`'s default. -/
def recentHours : ℤ := 48

variable (log : DailyJsonlLog) (bound : ℕ)

/-- `start` reads the log; `push_audit` and a closed trade extend the list and then the log. -/
def step (s : HistoryDesk) : Act → Option HistoryDesk
  | .start now =>
    if now < s.clock then none
    else
      match log.readRecent s.files now recentHours with
      | .error _ => some { s with startedAt := none, recent := [], clock := now }
      | .ok recovered => some { s with startedAt := some now, recent := recovered, clock := now }
  | .record entry =>
    if entry.time < s.clock ∨ s.startedAt = none then none
    else
      some { s with
        files := log.append s.files entry.time entry.record
        recent := ClientState.latest bound (s.recent ++ [entry.record.json])
        entries := s.entries ++ [entry]
        clock := entry.time }

/-- The list is the end of the history, and what has gone from it was old when the process started
or has given way to newer entries. -/
def Reaches (s : HistoryDesk) (started : Timestamp) : Prop :=
  ∃ older kept, s.entries = older ++ kept ∧ s.recent = kept.map (·.record.json) ∧
    ∀ e ∈ older, e.time < started - recentHours * 3600000000 ∨ bound ≤ kept.length

structure Inv (s : HistoryDesk) : Prop where
  files : s.files = appended log s.entries
  ordered : s.entries.Pairwise (·.time ≤ ·.time)
  past : ∀ e ∈ s.entries, e.time ≤ s.clock
  reaches : ∀ started, s.startedAt = some started → Reaches bound s started

variable {log bound} {s t : HistoryDesk} {now : Timestamp}

/-- A reading that comes to its end has come by no day out of the calendar. -/
theorem readDays_valid {files : Files} {days : List Date} {read : List Json}
    (ended : log.readDays files days = .ok read) : ∀ day ∈ days, InCalendar day := by
  induction days generalizing read with
  | nil => simp
  | cons day later ih =>
    rw [readDays] at ended
    split at ended
    next valid =>
      rw [List.forall_mem_cons]
      refine ⟨valid, ?_⟩
      cases rest : log.readDays files later with
      | ok after => exact ih rest
      | error raised =>
        -- then the whole reading fails, whatever this day's file holds
        rw [rest] at ended
        cases found : files.get? (log.pathFor day) with
        | none =>
          rw [found] at ended
          cases ended
        | some bytes =>
          rw [found] at ended
          cases content : readFile bytes with
          | error raised =>
            simp only [content] at ended
            cases ended
          | ok here =>
            simp only [content] at ended
            cases ended
    · cases ended

/-- A new process has read all that is recent. -/
theorem reaches_start {entries : List Entry} {recovered : List Json}
    (ordered : entries.Pairwise (·.time ≤ ·.time)) (past : ∀ e ∈ entries, e.time ≤ now)
    (read : log.readRecent (appended log entries) now recentHours = .ok recovered) :
    ∃ older kept, entries = older ++ kept ∧ recovered = kept.map (·.record.json) ∧
      ∀ e ∈ older, e.time < now - recentHours * 3600000000 := by
  have found := readRecent_holds (holds_appended log entries).1
    (List.pairwise_map.mpr (ordered.imp date_le)) (readDays_valid read)
    (List.forall_mem_map.mpr fun e held => date_le (past e held))
  rw [read] at found
  set first := now.date - daysBack recentHours
  have all : ((entries.map whole).dropWhile (·.time.date < first)).filter (·.visible) =
      (entries.dropWhile (·.time.date < first)).map whole := by
    rw [List.dropWhile_map]
    exact List.filter_eq_self.mpr (List.forall_mem_map.mpr fun _ _ => rfl)
  rw [all, List.map_map] at found
  refine ⟨_, _, List.takeWhile_append_dropWhile.symm, Except.ok.inj found, ?_⟩
  intro e taken
  have before := List.mem_takeWhile_imp taken
  exact older_of_before (of_decide_eq_true before)

/-- One more entry goes to the end, and the oldest ones give way to it. -/
theorem Reaches.record {started : Timestamp} (reaches : Reaches bound s started) (entry : Entry)
    (files : Files) (clock : Timestamp) (startedAt : Option Timestamp) :
    Reaches bound
      { files, startedAt, clock
        recent := ClientState.latest bound (s.recent ++ [entry.record.json])
        entries := s.entries ++ [entry] } started := by
  obtain ⟨older, kept, split, recent, gone⟩ := reaches
  have grown : s.recent ++ [entry.record.json] = (kept ++ [entry]).map (·.record.json) := by
    simp [recent]
  have longer : kept.length ≤ (kept ++ [entry]).length := by simp
  rw [Reaches, grown, ClientState.latest, List.length_map]
  split
  next full =>
    -- what is left has the bound's length
    have left : ((kept ++ [entry]).drop ((kept ++ [entry]).length - bound)).length = bound := by
      rw [List.length_drop]
      omega
    refine ⟨older ++ (kept ++ [entry]).take ((kept ++ [entry]).length - bound),
      (kept ++ [entry]).drop ((kept ++ [entry]).length - bound), ?_, List.map_drop.symm, ?_⟩
    · rw [List.append_assoc, List.take_append_drop, split, List.append_assoc]
    · exact fun e _ => .inr left.ge
  next =>
    refine ⟨older, kept ++ [entry], ?_, rfl, ?_⟩
    · rw [split, List.append_assoc]
    · exact fun e member => (gone e member).imp_right longer.trans'

theorem step_inv (inv : Inv log bound s) (act : Act) (moved : step log bound s act = some t) :
    Inv log bound t := by
  obtain ⟨files, ordered, past, reaches⟩ := inv
  cases act with
  | start now =>
    rw [step] at moved
    split at moved
    · cases moved
    next later =>
      have past_now : ∀ e ∈ s.entries, e.time ≤ now :=
        fun e member => (past e member).trans (not_lt.mp later)
      split at moved
      next raised _ =>
        cases moved
        exact ⟨files, ordered, past_now, by simp⟩
      next recovered read =>
        cases moved
        refine ⟨files, ordered, past_now, ?_⟩
        rintro started ⟨⟩
        rw [files] at read
        obtain ⟨older, kept, split, recent, old⟩ := reaches_start ordered past_now read
        exact ⟨older, kept, split, recent, fun e member => .inl (old e member)⟩
  | record entry =>
    rw [step] at moved
    split at moved
    · cases moved
    next timely =>
      rw [not_or, not_lt] at timely
      cases moved
      constructor
      · rw [appended_concat, files]
      · rw [List.pairwise_append]
        refine ⟨ordered, List.pairwise_singleton _ _, ?_⟩
        intro e member last only
        obtain rfl := List.mem_singleton.mp only
        exact (past e member).trans timely.1
      · intro e member
        rcases List.mem_append.mp member with earlier | last
        · exact (past e earlier).trans timely.1
        · obtain rfl := List.mem_singleton.mp last
          exact le_rfl
      · exact fun started running => (reaches started running).record entry _ _ _

/-- However often the process dies and is started again: what it keeps for new tabs is the end of
all that has ever been recorded, in its order, and nothing is missing of the hours before its
start and of the time since, unless as many newer entries as the bound allows are there. -/
theorem recent_is_suffix (log : DailyJsonlLog) (bound : ℕ) (installed : Timestamp)
    (acts : List Act) (s : HistoryDesk)
    (reached : run (step log bound) { clock := installed } acts = some s) (started : Timestamp)
    (running : s.startedAt = some started) :
    ∃ older kept, s.entries = older ++ kept ∧ s.recent = kept.map (·.record.json) ∧
      ∀ e ∈ older, e.time < started - recentHours * 3600000000 ∨ bound ≤ kept.length := by
  have fresh : Inv log bound { clock := installed } := ⟨rfl, .nil, by simp, by simp⟩
  exact (run_preserves (Inv log bound) (fun _ act _ inv moved => step_inv inv act moved) _ acts s
    fresh reached).reaches started running

/-- A record, and the next one by another process. -/
def restarted : List Act :=
  .start 0 :: (twoDays.take 1).map .record ++ .start 86400000000 :: (twoDays.drop 1).map .record

theorem recent_is_suffix_restarted :
    ∃ s, run (step ⟨"data_store", "audit"⟩ 5000) { clock := 0 } restarted = some s ∧
      ∃ older kept, s.entries = older ++ kept ∧ s.recent = kept.map (·.record.json) ∧
        ∀ e ∈ older, e.time < 86400000000 - recentHours * 3600000000 ∨ 5000 ≤ kept.length := by
  have started : (run (step ⟨"data_store", "audit"⟩ 5000) { clock := 0 } restarted).map
      (·.startedAt) = some (some 86400000000) := by decide +kernel
  obtain ⟨s, reached, running⟩ := Option.map_eq_some_iff.mp started
  exact ⟨s, reached, recent_is_suffix _ _ 0 restarted s reached _ running⟩

end Binbot.RestartHistory
