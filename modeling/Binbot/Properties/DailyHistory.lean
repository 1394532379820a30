import Binbot.Data.MergeRuns
import Binbot.Data.SlidingWindow
import Binbot.Utils.DailyLog

/-!
# The history that a daily log gives back

The files are of whole days, and what is asked for is a number of hours. What is read is a
suffix of what was appended, and nothing within the hours is left out of it.

Strategy:
1. The file of each day holds the records of that day (`Holds`); one write keeps this if the file
   ends with a complete line
2. The days that are read, one after the other, are the end of the sequence (`readRecent_holds`)
3. What is older than these days is older than the hours
-/
namespace Binbot

open Data DailyJsonlLog
open SlidingWindow (dropWhile_eq_filter)

namespace DailyHistory

/-- What has been written of the line. -/
def written (a : Attempt) : List Char :=
  match a.cut with
  | none => a.record.line
  | some k => a.record.line.take k

theorem ascii_written (a : Attempt) : Ascii (written a) := by
  unfold written
  split
  · exact LogRecord.ascii_line
  · exact fun c member => LogRecord.ascii_line c (List.mem_of_mem_take member)

theorem bytes_eq (a : Attempt) : a.bytes = Utf8.encode (written a) := by
  cases cut : a.cut with
  | none => simp only [Attempt.bytes, written, cut]
  | some k =>
    have part : Ascii (a.record.line.take k) :=
      fun c member => LogRecord.ascii_line c (List.mem_of_mem_take member)
    simp only [Attempt.bytes, written, cut]
    rw [Utf8.encode_ascii LogRecord.ascii_line, Utf8.encode_ascii part, List.map_take]

theorem records_written (a : Attempt) :
    records (written a) = if a.visible then [a.record.json] else [] := by
  unfold written
  split
  next whole => simp [records_line, Attempt.visible, whole]
  next k cut =>
    have visible : a.visible = decide (a.record.text.length ≤ k) := by simp [Attempt.visible, cut]
    by_cases newline : k ≤ a.record.text.length
    · rw [LogRecord.line, List.take_append_of_le_length newline, records_cut, visible]
      simp
    · have whole : a.record.line.length ≤ k := by
        rw [LogRecord.line, List.length_append, List.length_singleton]
        omega
      have shown : a.record.text.length ≤ k := by omega
      rw [List.take_of_length_le whole, records_line, visible]
      simp [shown]

/-- The file of each day holds the records of that day that can be read. -/
def Holds (log : DailyJsonlLog) (files : Files) (attempts : List Attempt) : Prop :=
  ∀ day, InCalendar day → ∃ text, Ascii text ∧ files.getD (log.pathFor day) [] = Utf8.encode text ∧
    records text = ((attempts.filter (·.time.date = day)).filter (·.visible)).map (·.record.json)

variable {log : DailyJsonlLog} {files : Files} {attempts : List Attempt}

theorem holds_empty (log : DailyJsonlLog) : Holds log .empty [] :=
  fun _ _ => ⟨[], by simp [Ascii], rfl, rfl⟩

/-- The line end of a file is one of its text. -/
theorem lineStart_of_encode {text : List Char} (ascii : Ascii text)
    (ends : EndsLine (Utf8.encode text)) : LineStart text := by
  rw [Utf8.encode_ascii ascii] at ends
  rcases ends with empty | last
  · exact .inl (List.map_eq_nil_iff.mp empty)
  · rw [List.getLast?_map, Option.map_eq_some_iff] at last
    obtain ⟨c, final, newline⟩ := last
    have small : c.toNat < 128 := ascii c (List.mem_of_getLast? final)
    have code : c.toNat = 10 := by
      have value := congrArg UInt8.toNat newline
      rw [UInt8.toNat_ofNat', Nat.mod_eq_of_lt (by omega)] at value
      exact value
    exact .inr (final.trans (congrArg some (Char.toNat_inj.mp code)))

/-- A write after a complete line adds one record to its day, or none, and leaves the others. -/
theorem Holds.write (holds : Holds log files attempts) {a : Attempt}
    (ends : EndsLine (files.getD (log.pathFor a.time.date) [])) :
    Holds log (DailyJsonlLog.write files (log.pathFor a.time.date) a.bytes) (attempts ++ [a]) := by
  intro day valid
  obtain ⟨text, ascii, file, read⟩ := holds day valid
  by_cases same : a.time.date = day
  · -- The file ends with a newline, so that what is written starts a line.
    subst same
    rw [file] at ends
    refine ⟨text ++ written a, ?_, ?_, ?_⟩
    · exact fun c member => (List.mem_append.mp member).elim (ascii c) (ascii_written a c)
    · rw [DailyJsonlLog.write, Dict.getD, Dict.get?_set_self, Option.getD_some, file, bytes_eq,
        Utf8.encode, Utf8.encode, Utf8.encode, List.flatMap_append]
    · rw [records_append (lineStart_of_encode ascii ends), read, records_written]
      cases shown : a.visible <;> simp [shown]
  · have other : log.pathFor day ≠ log.pathFor a.time.date := fun path =>
      same (log.pathFor_inj a.valid valid path.symm)
    refine ⟨text, ascii, ?_, ?_⟩
    · rw [DailyJsonlLog.write, Dict.getD, Dict.get?_set_ne _ _ other]
      exact file
    · rw [read]
      simp [same]

-- ═══════════════════════════════════════════════════════════════
-- Reading
-- ═══════════════════════════════════════════════════════════════

/-- The files of the days follow each other. A day without a file has no records. -/
theorem readDays_ok {each : Date → List Json} {days : List Date}
    (valid : ∀ day ∈ days, InCalendar day)
    (read : ∀ day ∈ days, readFile (files.getD (log.pathFor day) []) = .ok (each day)) :
    log.readDays files days = .ok (days.flatMap each) := by
  induction days with
  | nil => rfl
  | cons day later ih =>
    obtain ⟨valid_here, valid_later⟩ := List.forall_mem_cons.mp valid
    obtain ⟨read_here, read_later⟩ := List.forall_mem_cons.mp read
    rw [readDays, if_pos valid_here, ih valid_later read_later, List.flatMap_cons]
    cases file : files.get? (log.pathFor day) with
    | none =>
      -- A file that does not exist is skipped, and reads like an empty one.
      rw [Dict.getD, file] at read_here
      have none_here : each day = [] := (Except.ok.inj read_here).symm
      rw [none_here]
      rfl
    | some bytes =>
      rw [Dict.getD, file, Option.getD_some] at read_here
      dsimp only
      rw [read_here]
      rfl

/-- So many integers in a row. -/
theorem mem_map_range_add {first day : ℤ} {count : ℕ} :
    day ∈ (List.range count).map (fun i : ℕ => first + i) ↔ first ≤ day ∧ day < first + count := by
  rw [List.mem_map]
  constructor
  · rintro ⟨i, within, rfl⟩
    rw [List.mem_range] at within
    omega
  · rintro ⟨above, below⟩
    exact ⟨(day - first).toNat, by rw [List.mem_range]; omega, by omega⟩

theorem pairwise_map_range_add (first : ℤ) (count : ℕ) :
    ((List.range count).map fun i : ℕ => first + i).Pairwise (· < ·) := by
  rw [List.pairwise_map]
  exact List.pairwise_lt_range.imp fun below => by omega

theorem mem_days {now : Timestamp} {hours : ℤ} {day : Date} :
    day ∈ days now hours ↔ now.date - daysBack hours ≤ day ∧ day ≤ now.date := by
  have last (today back day : ℤ) (positive : 1 ≤ back) :
      day < today - back + ((back.toNat + 1 : ℕ) : ℤ) ↔ day ≤ today := by omega
  exact mem_map_range_add.trans (and_congr_right fun _ => last now.date _ day (le_max_left 1 _))

/-- What is read is the end of the sequence, from the first of the days on. -/
theorem readRecent_holds (holds : Holds log files attempts)
    (ordered : attempts.Pairwise (·.time.date ≤ ·.time.date)) {now : Timestamp} {hours : ℤ}
    (valid : ∀ day ∈ days now hours, InCalendar day)
    (past : ∀ a ∈ attempts, a.time.date ≤ now.date) :
    log.readRecent files now hours =
      .ok (((attempts.dropWhile (·.time.date < now.date - daysBack hours)).filter (·.visible)).map
        (·.record.json)) := by
  set start := now.date - daysBack hours with first_day
  set shown := (attempts.dropWhile (·.time.date < start)).filter (·.visible) with listed
  -- The attempts come day by day, so that those from the first day on are the rest of them.
  have from_start : attempts.dropWhile (·.time.date < start) =
      attempts.filter fun a => !decide (a.time.date < start) :=
    dropWhile_eq_filter (ordered.imp fun earlier late => by
      simp only [decide_eq_true_eq] at late ⊢
      exact earlier.trans_lt late)
  have of_day : ∀ day ∈ days now hours, (attempts.filter (·.time.date = day)).filter (·.visible) =
      shown.filter (·.time.date = day) := by
    intro day among
    have late : start ≤ day := (mem_days.mp among).1
    rw [listed, from_start]
    simp only [List.filter_filter]
    refine List.filter_congr fun a _ => ?_
    by_cases here : a.time.date = day
    · simp [here, late]
    · simp [here]
  -- Each file has its day's share of them.
  have read : ∀ day ∈ days now hours, readFile (files.getD (log.pathFor day) []) =
      .ok ((shown.filter (·.time.date = day)).map (·.record.json)) := by
    intro day among
    obtain ⟨text, ascii, file, read⟩ := holds day (valid day among)
    rw [file, readFile_encode ascii, read, of_day day among]
  have covered : ∀ a ∈ shown, a.time.date ∈ days now hours := by
    intro a kept
    rw [listed, from_start] at kept
    have held := List.mem_filter.mp (List.mem_filter.mp kept).1
    have late : start ≤ a.time.date := by simpa using held.2
    exact mem_days.mpr ⟨late, past a held.1⟩
  have ascending : shown.Pairwise (·.time.date ≤ ·.time.date) :=
    (ordered.sublist (List.dropWhile_sublist _)).filter _
  have sorted : (days now hours).Pairwise (· < ·) := pairwise_map_range_add _ _
  rw [readRecent, readDays_ok valid read, ← List.map_flatMap,
    flatMap_filter_key sorted ascending covered]

theorem date_le {t u : Timestamp} (le : t ≤ u) : t.date ≤ u.date := Int.ediv_le_ediv (by decide) le

/-- The day before the first one that is read is over before the hours begin. -/
theorem older_of_before {now t : Timestamp} {hours : ℤ}
    (before : t.date < now.date - daysBack hours) : t < now - hours * 3600000000 := by
  have days (now t hours : ℤ)
      (before : t / 86400000000 < now / 86400000000 - max 1 (hours / 24 + 2)) :
      t < now - hours * 3600000000 := by omega
  exact days now t hours before

-- ═══════════════════════════════════════════════════════════════
-- Logs without a crash
-- ═══════════════════════════════════════════════════════════════

/-- The files after these appends. Instances with the same path are equal. -/
def appended (log : DailyJsonlLog) (entries : List Entry) : Files :=
  entries.foldl (fun files e => log.append files e.time e.record) .empty

def whole (e : Entry) : Attempt := { e with cut := none }

theorem appended_concat (log : DailyJsonlLog) (entries : List Entry) (e : Entry) :
    appended log (entries ++ [e]) = log.append (appended log entries) e.time e.record := by
  rw [appended, List.foldl_append]
  rfl

/-- An append ends its file with a newline, and touches no other one. -/
theorem endsLine_append (log : DailyJsonlLog) (now : Timestamp) (record : LogRecord)
    (ends : ∀ path, EndsLine (files.getD path [])) (path : FilePath) :
    EndsLine ((log.append files now record).getD path []) := by
  rw [append, DailyJsonlLog.write, Dict.getD, Dict.get?_set]
  split
  · right
    rw [Option.getD_some, LogRecord.line, Utf8.encode, List.flatMap_append, ← List.append_assoc,
      List.getLast?_append]
    rfl
  · exact ends path

theorem holds_appended (log : DailyJsonlLog) (entries : List Entry) :
    Holds log (appended log entries) (entries.map whole) ∧
      ∀ path, EndsLine ((appended log entries).getD path []) := by
  induction entries using List.reverseRecOn with
  | nil => exact ⟨holds_empty log, fun _ => .inl rfl⟩
  | append_singleton entries e ih =>
    obtain ⟨holds, ends⟩ := ih
    rw [appended_concat, List.map_append]
    exact ⟨holds.write (a := whole e) (ends _), endsLine_append log e.time e.record ends⟩

/-- What is read of the last hours is a suffix of what was appended, and what it leaves out is
older than the hours. -/
theorem readRecent_suffix (log : DailyJsonlLog) (entries : List Entry)
    (ordered : entries.Pairwise (·.time ≤ ·.time)) (now : Timestamp)
    (past : ∀ e ∈ entries, e.time ≤ now) (hours : ℤ)
    (valid : ∀ day ∈ days now hours, InCalendar day) :
    ∃ older kept, entries = older ++ kept ∧ (∀ e ∈ older, e.time < now - hours * 3600000000) ∧
      log.readRecent (appended log entries) now hours = .ok (kept.map (·.record.json)) := by
  have read := readRecent_holds (holds_appended log entries).1
    (List.pairwise_map.mpr (ordered.imp date_le)) valid
    (List.forall_mem_map.mpr fun e held => date_le (past e held))
  set start := now.date - daysBack hours with first_day
  -- Nothing was cut off, so that all records of these days can be read.
  have all : ((entries.map whole).dropWhile (·.time.date < start)).filter (·.visible) =
      (entries.dropWhile (·.time.date < start)).map whole := by
    rw [List.dropWhile_map]
    exact List.filter_eq_self.mpr (List.forall_mem_map.mpr fun _ _ => rfl)
  rw [all, List.map_map] at read
  refine ⟨entries.takeWhile (·.time.date < start), entries.dropWhile (·.time.date < start),
    List.takeWhile_append_dropWhile.symm, ?_, read⟩
  intro e taken
  have before := List.mem_takeWhile_imp taken
  exact older_of_before (by simpa using before)

/-! ### Records of two days -/

/-- `{"symbol": name}`. -/
def symbolRecord (name : String) : LogRecord :=
  .ofWellFormed [(SnapshotFile.codePoints "symbol", .string (SnapshotFile.codePoints name))] <| by
    apply Json.WellFormed.object
    · exact List.forall_mem_singleton.mpr (SnapshotFile.scalar_codePoints _)
    · exact List.forall_mem_singleton.mpr (.string _ (SnapshotFile.scalar_codePoints _))

/-- One record at the end of the first day, and one three hours later. -/
def twoDays : List Entry :=
  [⟨79200000000, symbolRecord "BTCUSDT", by decide⟩, ⟨90000000000, symbolRecord "ETHUSDT", by decide⟩]

theorem twoDays_suffix : ∃ older kept, twoDays = older ++ kept ∧
    (∀ e ∈ older, e.time < 93600000000 - 4 * 3600000000) ∧
      (DailyJsonlLog.mk "data_store" "audit").readRecent (appended ⟨"data_store", "audit"⟩ twoDays)
        93600000000 4 = .ok (kept.map (·.record.json)) :=
  readRecent_suffix ⟨"data_store", "audit"⟩ twoDays (by decide) 93600000000 (by decide) 4 (by decide)

end DailyHistory

end Binbot
