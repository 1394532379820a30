import Binbot.Data.Calendar
import Binbot.Data.Dict
import Binbot.Data.JsonLines
import Binbot.Data.TextLines
import Binbot.Utils.SnapshotFile

/-!
# Daily logs (`utils/daily_log.py`)

A log of records with a file for each UTC day and a line for each record. Whoever appends
only knows the path; the files are all there is between two calls.
-/
namespace Binbot

open Data
open SnapshotFile (codePoints charOf)

structure FilePath where
  parent : String
  name : CodePoints
  deriving DecidableEq

/-- The contents of each file there is. -/
abbrev Files : Type := Dict FilePath (List UInt8)

/-- A record that its encoding decodes to. -/
structure LogRecord where
  members : List (CodePoints × Json)
  literals : Json.Literals (.object members)
  decodes : Json.loads (Json.dumps (.object members)) = some (.object members)

namespace LogRecord

def ofWellFormed (members : List (CodePoints × Json)) (wellFormed : Json.WellFormed (.object members)) :
    LogRecord := ⟨members, wellFormed.literals, Json.loads_dumps wellFormed⟩

variable (record : LogRecord)

def json : Json := .object record.members

def text : List Char := Json.dumps record.json

/-- What is written for the record. -/
def line : List Char := record.text ++ ['\n']

/-! A record's text is in braces, and nothing in it is no printable character. -/

variable {record}

theorem legible_text : Json.Legible record.text := Json.legible_dumps record.literals

theorem text_head? : record.text.head? = some '{' := rfl

theorem text_getLast? : record.text.getLast? = some '}' := Json.dumps_object_ends record.members

theorem newline_not_mem_text : '\n' ∉ record.text :=
  fun member => absurd (legible_text '\n' member) (by decide)

theorem return_not_mem_text : '\r' ∉ record.text :=
  fun member => absurd (legible_text '\r' member) (by decide)

theorem loads_text : Json.loads record.text = some record.json := record.decodes

theorem text_ne_nil : record.text ≠ [] := by
  intro empty
  have opens : record.text.head? = some '{' := text_head?
  rw [empty] at opens
  cases opens

theorem ascii_line : Ascii record.line := by
  intro c member
  rcases List.mem_append.mp member with inner | last
  · exact legible_text.ascii c inner
  · obtain rfl := List.mem_singleton.mp last
    decide

end LogRecord

structure DailyJsonlLog where
  parent : String
  name : String

namespace DailyJsonlLog

variable (self : DailyJsonlLog)

/-- `_path_for`. -/
def pathFor (day : Date) : FilePath :=
  ⟨self.parent, codePoints self.name ++ codePoints "_" ++ isoformat day ++ codePoints ".jsonl"⟩

/-- The file at this path, opened with `"a"`, has these bytes written to it. -/
def write (files : Files) (path : FilePath) (bytes : List UInt8) : Files :=
  files.set path (files.getD path [] ++ bytes)

def append (files : Files) (now : Timestamp) (record : LogRecord) : Files :=
  write files (self.pathFor now.date) (Utf8.encode record.line)

/-- What the lines of a text hold. Blank and malformed ones are skipped. -/
def records (text : List Char) : List Json :=
  ((lines (universalNewlines text)).map strip).filterMap fun line =>
    if line = [] then none else Json.loads line

def readFile (bytes : List UInt8) : Except String (List Json) :=
  match Utf8.decode false bytes with
  | none => .error "UnicodeDecodeError"
  | some points => .ok (records (points.map charOf))

def daysBack (hours : ℤ) : ℤ := max 1 (hours / 24 + 2)

/-- The days that are read, oldest first. -/
def days (now : Timestamp) (hours : ℤ) : List Date :=
  (List.range ((daysBack hours).toNat + 1)).map fun i : ℕ => now.date - daysBack hours + i

def readDays (files : Files) : List Date → Except String (List Json)
  | [] => .ok []
  | day :: later =>
    if InCalendar day then do
      let here ←
        match files.get? (self.pathFor day) with
        | none => pure []
        | some bytes => readFile bytes
      let after ← readDays files later
      pure (here ++ after)
    else .error "date value out of range"

def readRecent (files : Files) (now : Timestamp) (hours : ℤ) : Except String (List Json) :=
  self.readDays files (days now hours)

/-- Nothing is in a file, or its last line has its newline. -/
def EndsLine (bytes : List UInt8) : Prop := bytes = [] ∨ bytes.getLast? = some 10

instance (bytes : List UInt8) : Decidable (EndsLine bytes) := inferInstanceAs (Decidable (_ ∨ _))

/-! ## What is read of what was written -/

section Rules

variable {record : LogRecord} {text more : List Char}

/-- Each date has a file of its own. -/
theorem pathFor_inj {day other : Date} (valid : InCalendar day) (valid' : InCalendar other)
    (same : self.pathFor day = self.pathFor other) : day = other := by
  have names := congrArg FilePath.name same
  have dates : isoformat day = isoformat other := by simpa [pathFor] using names
  have read := fromisoformat_isoformat valid
  rw [dates, fromisoformat_isoformat valid'] at read
  exact (Option.some.inj read).symm

theorem readFile_encode (ascii : Ascii text) : readFile (Utf8.encode text) = .ok (records text) := by
  rw [readFile, Utf8.decode_encode_ascii false ascii]
  exact congrArg (fun text => Except.ok (records text)) (SnapshotFile.map_charOf_toNat text)

@[simp] theorem records_nil : records [] = [] := rfl

/-- Records that are written after a complete line are read by themselves. -/
theorem records_append (start : LineStart text) :
    records (text ++ more) = records text ++ records more := by
  have ends : text.getLast? ≠ some '\r' := by
    rcases start with rfl | ends
    · simp
    · simp [ends]
  rw [records, universalNewlines_append ends, lines_append start.universalNewlines, List.map_append,
    List.filterMap_append, records, records]

theorem strip_text : strip record.text = record.text := by
  apply strip_eq_self
  · rintro _ ⟨⟩
    decide
  · rw [LogRecord.text_getLast?]
    rintro _ ⟨⟩
    decide

theorem records_line : records record.line = [record.json] := by
  have no_return : '\r' ∉ record.line := by
    simpa [LogRecord.line] using LogRecord.return_not_mem_text
  rw [records, universalNewlines_of_not_mem no_return, LogRecord.line,
    lines_newline LogRecord.newline_not_mem_text]
  simp [strip_text, LogRecord.text_ne_nil, LogRecord.loads_text]

/-- A text that is cut short is no record, with its trailing space or without. -/
theorem loads_strip_cut {k : ℕ} (short : k < record.text.length) :
    Json.loads (strip (record.text.take k)) = none := by
  have starts : ∀ c ∈ (record.text.take k).head?, isWhitespace c = false := by
    rw [List.head?_take]
    split
    · simp
    · rintro _ ⟨⟩
      decide
  have kept := List.prefix_iff_eq_take.mp (strip_is_start starts)
  rw [List.take_take] at kept
  rw [kept]
  exact Json.loads_cut LogRecord.loads_text LogRecord.text_head? LogRecord.text_getLast?
    (Nat.lt_of_le_of_lt (Nat.min_le_right _ _) short)

/-- A line that is cut short is no record, unless only its newline is missing. -/
theorem records_cut (k : ℕ) : records (record.text.take k) =
    if record.text.length ≤ k then [record.json] else [] := by
  cases k with
  | zero =>
    have some_ : 0 < record.text.length := List.length_pos_of_ne_nil LogRecord.text_ne_nil
    rw [List.take_zero, records_nil, if_neg (by omega)]
  | succ k =>
    have part : ∀ c ∈ record.text.take (k + 1), c ∈ record.text := fun _ => List.mem_of_mem_take
    have some_ : record.text.take (k + 1) ≠ [] := by simp [LogRecord.text_ne_nil]
    rw [records, universalNewlines_of_not_mem fun member =>
      LogRecord.return_not_mem_text (part _ member),
      lines_single some_ fun member => LogRecord.newline_not_mem_text (part _ member)]
    split
    next whole =>
      -- The newline is all that may be missing.
      rw [List.take_of_length_le whole]
      simp [strip_text, LogRecord.text_ne_nil, LogRecord.loads_text]
    next short =>
      rw [Nat.not_le] at short
      simp [loads_strip_cut short]

end Rules

end DailyJsonlLog

/-! ## Appends -/

/-- An append, at a time that the clock shows. -/
structure Entry where
  time : Timestamp
  record : LogRecord
  valid : InCalendar time.date

/-- An append that a crash may have cut off after so many bytes. -/
structure Attempt extends Entry where
  cut : Option ℕ

namespace Attempt

variable (a : Attempt)

/-- What has reached the file. -/
def bytes : List UInt8 :=
  match a.cut with
  | none => Utf8.encode a.record.line
  | some k => (Utf8.encode a.record.line).take k

def completed : Bool := a.cut.all fun k => a.record.line.length ≤ k

/-- Nothing but the newline may be missing. -/
def visible : Bool := a.cut.all fun k => a.record.text.length ≤ k

theorem visible_of_completed {a : Attempt} (completed : a.completed = true) : a.visible = true := by
  unfold Attempt.completed at completed
  unfold visible
  cases cut : a.cut with
  | none => rfl
  | some k =>
    rw [cut] at completed
    simp only [LogRecord.line, Option.all_some, decide_eq_true_eq, List.length_append,
      List.length_singleton] at completed ⊢
    omega

end Attempt

/-- The files, and what has been appended to them. -/
structure LogStore where
  files : Files := .empty
  attempts : List Attempt := []

/-- A process appends. After a crash it is another one that does so next. -/
def LogStore.step (log : DailyJsonlLog) (t : LogStore) (a : Attempt) : Option LogStore :=
  some ⟨DailyJsonlLog.write t.files (log.pathFor a.time.date) a.bytes, t.attempts ++ [a]⟩

end Binbot
