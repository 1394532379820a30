import Binbot.Machine.Run
import Binbot.Properties.DailyHistory

/-!
# Appends that a crash cuts off

A crash may leave any prefix of a line at the end of a file. The reader skips such a line. But
an append does not look at what it continues: after a line without its newline it writes on the
same line, and then both are lost. As long as no append goes to such a file, a crash costs the
record that it interrupted and nothing else.
-/
namespace Binbot.TornAppends

open Data DailyJsonlLog DailyHistory

/-- Whoever reads the files later finds all completed records of the last hours, in order, and
beside them at most records whose append was interrupted. -/
def Faithful (log : DailyJsonlLog) (t : LogStore) : Prop :=
  ∀ now hours, (∀ a ∈ t.attempts, a.time ≤ now) → (∀ day ∈ days now hours, InCalendar day) →
    ∃ older kept shown, t.attempts = older ++ kept ∧
      (∀ a ∈ older, a.time < now - hours * 3600000000) ∧
      (kept.filter (·.completed)).Sublist shown ∧ shown.Sublist kept ∧
      log.readRecent t.files now hours = .ok (shown.map (·.record.json))

/-- The day's file is empty or ends with a newline, and the clock has not gone back to an earlier
day. -/
def StartsLine (log : DailyJsonlLog) (t : LogStore) (a : Attempt) : Prop :=
  EndsLine (t.files.getD (log.pathFor a.time.date) []) ∧
    ∀ earlier ∈ t.attempts, earlier.time.date ≤ a.time.date

instance (log : DailyJsonlLog) (t : LogStore) (a : Attempt) : Decidable (StartsLine log t a) :=
  inferInstanceAs (Decidable (_ ∧ _))

structure Inv (log : DailyJsonlLog) (t : LogStore) : Prop where
  holds : Holds log t.files t.attempts
  ordered : t.attempts.Pairwise (·.time.date ≤ ·.time.date)

variable {log : DailyJsonlLog} {t u : LogStore} {a : Attempt}

theorem inv_step (inv : Inv log t) (starts : StartsLine log t a)
    (moved : LogStore.step log t a = some u) : Inv log u := by
  cases moved
  obtain ⟨ends, later⟩ := starts
  constructor
  · exact inv.holds.write ends
  · rw [List.pairwise_append]
    refine ⟨inv.ordered, List.pairwise_singleton _ _, fun earlier held => ?_⟩
    simpa using later earlier held

theorem faithful_of_inv (inv : Inv log t) : Faithful log t := by
  intro now hours past valid
  have read := readRecent_holds inv.holds inv.ordered valid fun a held => date_le (past a held)
  set start := now.date - daysBack hours with first_day
  set kept := t.attempts.dropWhile (·.time.date < start) with listed
  refine ⟨t.attempts.takeWhile (·.time.date < start), kept, kept.filter (·.visible),
    List.takeWhile_append_dropWhile.symm, ?_, ?_, List.filter_sublist, read⟩
  · -- What is not read is of days that were over before the hours began.
    intro a taken
    have before := List.mem_takeWhile_imp taken
    exact older_of_before (by simpa using before)
  · -- A completed record can be read.
    have also : kept.filter (·.completed) = (kept.filter (·.visible)).filter (·.completed) := by
      rw [List.filter_filter]
      refine List.filter_congr fun a _ => ?_
      cases completed : a.completed with
      | false => rfl
      | true => simp [Attempt.visible_of_completed completed]
    rw [also]
    exact List.filter_sublist

/-- In every run of appends that each start a line, the files are faithful all along, whatever is
cut off. -/
theorem always_faithful (log : DailyJsonlLog) (attempts : List Attempt)
    (start : Machine.Meets (LogStore.step log) (StartsLine log) {} attempts) :
    Machine.Always (LogStore.step log) (Faithful log) {} attempts := by
  apply start.always (Inv log) (Faithful log) (fun _ => faithful_of_inv)
  · exact fun _ _ _ inv starts moved => inv_step inv starts moved
  · exact ⟨holds_empty log, List.Pairwise.nil⟩

/-! ### A crash and a restart -/

/-- An append that is cut off after five bytes, and one of the next process, so much later. -/
def crashed (later : Timestamp) (valid : InCalendar later.date) : List Attempt :=
  [⟨⟨0, symbolRecord "BTCUSDT", by decide⟩, some 5⟩, ⟨⟨later, symbolRecord "ETHUSDT", valid⟩, none⟩]

def auditLog : DailyJsonlLog := ⟨"data_store", "audit"⟩

theorem crashed_nextDay :
    Machine.Always (LogStore.step auditLog) (Faithful auditLog) {}
      (crashed 86400000000 (by decide)) :=
  always_faithful auditLog (crashed 86400000000 (by decide)) (by decide +kernel)

/-- A minute after the crash. -/
def restarted : Attempt := ⟨⟨60000000, symbolRecord "ETHUSDT", by decide⟩, none⟩

theorem crashed_sameDay_lost :
    (Machine.run (LogStore.step auditLog) {} (crashed 60000000 (by decide))).map
        (fun t => (auditLog.readRecent t.files 60000000 48).toOption.map List.length) =
      some (some 0) := by
  decide +kernel

/-- On the same day the second record is lost with the first one. -/
theorem crashed_sameDay_not_faithful :
    ¬ Machine.Always (LogStore.step auditLog) (Faithful auditLog) {}
      (crashed 60000000 (by decide)) := by
  intro always
  obtain ⟨t, reached, lost⟩ := Option.map_eq_some_iff.mp crashed_sameDay_lost
  have attempts : t.attempts = crashed 60000000 (by decide) := by
    cases reached
    rfl
  obtain ⟨older, kept, shown, split, old, completed, _, read⟩ := always.reached reached 60000000 48
    (by rw [attempts]; decide) (by decide)
  rw [read] at lost
  have none_shown : shown = [] := by simpa [Except.toOption] using lost
  have appended : restarted ∈ older ++ kept := by
    rw [← split, attempts]
    exact List.mem_cons_of_mem _ List.mem_cons_self
  rcases List.mem_append.mp appended with before | within
  · exact absurd (old restarted before) (by decide)
  · -- It was appended in full, a moment ago, and it is not read.
    have found := completed.subset (List.mem_filter.mpr ⟨within, rfl⟩)
    rw [none_shown] at found
    cases found

end Binbot.TornAppends
