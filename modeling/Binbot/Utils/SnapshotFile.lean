import Binbot.Data.Calendar
import Binbot.Data.JsonTexts
import Binbot.Utils.StateRecovery

/-!
# The snapshot file (`utils/state_recovery.py`)

The text of the state file: a JSON object that `persist` writes, and `_read_snapshot`
reads with everything it checks on the way.
-/
namespace Binbot

open Data

/-- What the interpreter makes of numbers, and of values that are no strings. -/
structure PythonTexts where
  /-- `float.__repr__` of a finite float. -/
  repr : ℚ → List Char
  /-- `float` of the number a literal stands for; an error is an `OverflowError`. -/
  floatOfLiteral : List Char → Except String ℚ
  /-- `float` of a string; none is a `ValueError`. -/
  floatOfString : CodePoints → Option ℚ
  /-- `str` of a decoded value that is no string. -/
  str : Json → String

/-- What reading a snapshot may raise. -/
inductive ReadError where
  | jsonDecodeError
  | keyError (key : CodePoints)
  | valueError
  | typeError
  | overflowError (text : String)

/-- `except (json.JSONDecodeError, KeyError, ValueError, OSError)`. -/
def ReadError.caught : ReadError → Bool
  | .jsonDecodeError | .keyError _ | .valueError => true
  | .typeError | .overflowError _ => false

def ReadError.text : ReadError → String
  | .jsonDecodeError => "JSONDecodeError"
  | .keyError _ => "KeyError"
  | .valueError => "ValueError"
  | .typeError => "TypeError"
  | .overflowError text => text

namespace SnapshotFile

def codePoints (s : String) : CodePoints := s.toList.map Char.toNat

/-- A lone surrogate, which no `Char` is, reads as the replacement character. -/
def charOf (n : ℕ) : Char := if n.isValidChar then Char.ofNat n else Char.ofNat 0xFFFD

def text (s : CodePoints) : String := String.ofList (s.map charOf)

theorem charOf_toNat (c : Char) : charOf c.toNat = c := by
  have valid : c.toNat.isValidChar := c.valid
  rw [charOf, if_pos valid, Char.ofNat_toNat]

theorem map_charOf_toNat (chars : List Char) : (chars.map Char.toNat).map charOf = chars := by
  have same : charOf ∘ Char.toNat = id := funext charOf_toNat
  rw [List.map_map, same, List.map_id]

theorem text_codePoints (s : String) : text (codePoints s) = s := by
  rw [text, codePoints, map_charOf_toNat, String.ofList_toList]

@[simp] theorem codePoints_inj {s t : String} : codePoints s = codePoints t ↔ s = t := by
  constructor
  · intro same
    rw [← text_codePoints s, same, text_codePoints]
  · exact congrArg codePoints

theorem scalar_codePoints (s : String) : Json.Scalar (codePoints s) := by
  intro n member
  obtain ⟨c, _, rfl⟩ := List.mem_map.mp member
  rcases c.valid with low | high
  · exact Or.inl low
  · exact Or.inr ⟨Nat.succ_le_of_lt high.1, high.2⟩

variable (python : PythonTexts)

/-- `{**circuit_breaker.snapshot(), "environment_id": environment_id}`. -/
def payload (snapshot : SessionSnapshot) : List (CodePoints × Json) :=
  [(codePoints "session_date", .string (isoformat snapshot.session.sessionDate)),
    (codePoints "starting_equity", .number (python.repr snapshot.session.startingEquity)),
    (codePoints "peak_equity", .number (python.repr snapshot.session.peakEquity)),
    (codePoints "halted", .bool snapshot.session.halted),
    (codePoints "halt_reason", .string (codePoints snapshot.session.haltReason)),
    (codePoints "environment_id", .string (codePoints snapshot.environmentId))]

def write (snapshot : SessionSnapshot) : List Char := Json.dumps (.object (payload python snapshot))

/-- `raw[key]`. -/
def getItem (raw : Json) (key : String) : Except ReadError Json :=
  match raw with
  | .object members =>
    match Json.member? members (codePoints key) with
    | some value => .ok value
    | none => .error (.keyError (codePoints key))
  | _ => .error .typeError

/-- `raw.get(key, default)`. -/
def getD (raw : Json) (key : String) (default : Json) : Json :=
  match raw with
  | .object members => (Json.member? members (codePoints key)).getD default
  | _ => default

def dateOf : Json → Except ReadError Date
  | .string s =>
    match fromisoformat s with
    | some date => .ok date
    | none => .error .valueError
  | _ => .error .typeError

def floatOf : Json → Except ReadError ℚ
  | .number literal => (python.floatOfLiteral literal).mapError .overflowError
  | .bool value => .ok (if value then 1 else 0)
  | .string s =>
    match python.floatOfString s with
    | some value => .ok value
    | none => .error .valueError
  | _ => .error .typeError

def boolOf : Json → Bool
  | .null => false
  | .bool value => value
  | .number literal =>
    match python.floatOfLiteral literal with
    | .ok value => value ≠ 0
    | .error _ => true
  | .string s => s ≠ []
  | .array items => !items.isEmpty
  | .object members => !members.isEmpty

def strOf : Json → String
  | .string s => text s
  | value => python.str value

/-- The `try` block. -/
def parse (contents : List Char) : Except ReadError SessionSnapshot :=
  match Json.loads contents with
  | none => .error .jsonDecodeError
  | some raw => do
    let sessionDate ← dateOf (← getItem raw "session_date")
    let startingEquity ← floatOf python (← getItem raw "starting_equity")
    let peakEquity ← floatOf python (← getItem raw "peak_equity")
    let halted := boolOf python (← getItem raw "halted")
    let haltReason := strOf python (← getItem raw "halt_reason")
    pure
      { session := ⟨sessionDate, startingEquity, peakEquity, halted, haltReason⟩
        environmentId := strOf python (getD raw "environment_id" (.string [])) }

def read (contents : List Char) : Except String (Option SessionSnapshot) :=
  match parse python contents with
  | .ok snapshot => .ok (some snapshot)
  | .error e => if e.caught then .ok none else .error e.text

/-- The format of the state file. -/
def format : SnapshotFormat (List Char) := ⟨write python, read python⟩

/-- A float: its text is the literal of a number, and reads as the float itself. -/
structure IsFloat (x : ℚ) : Prop where
  literal : Json.scanAtom (python.repr x) = some (.number (python.repr x), [])
  value : python.floatOfLiteral (python.repr x) = .ok x

/-- A snapshot of a breaker: its date is one of `datetime`'s and its baselines are floats. -/
structure Proper (snapshot : SessionSnapshot) : Prop where
  date : InCalendar snapshot.session.sessionDate
  start : IsFloat python snapshot.session.startingEquity
  peak : IsFloat python snapshot.session.peakEquity

variable {python} {snapshot : SessionSnapshot}

theorem payload_wellFormed (proper : Proper python snapshot) :
    Json.WellFormed (.object (payload python snapshot)) := by
  apply Json.WellFormed.object
  · intro entry member
    simp only [payload, List.mem_cons, List.not_mem_nil, or_false] at member
    rcases member with rfl | rfl | rfl | rfl | rfl | rfl <;> exact scalar_codePoints _
  · intro entry member
    simp only [payload, List.mem_cons, List.not_mem_nil, or_false] at member
    rcases member with rfl | rfl | rfl | rfl | rfl | rfl
    · exact .string _ (isoformat_scalar _)
    · exact .number _ proper.start.literal
    · exact .number _ proper.peak.literal
    · exact .bool _
    · exact .string _ (scalar_codePoints _)
    · exact .string _ (scalar_codePoints _)

theorem payload_distinct (python : PythonTexts) (snapshot : SessionSnapshot) :
    ((payload python snapshot).map Prod.fst).Nodup := by
  simp [payload]

/-- `persist` writes every key that is read, once. -/
theorem getItem_payload (python : PythonTexts) (snapshot : SessionSnapshot) (key : String)
    {value : Json} (member : (codePoints key, value) ∈ payload python snapshot) :
    getItem (.object (payload python snapshot)) key = .ok value := by
  rw [getItem, Json.member?_of_mem (payload_distinct python snapshot) member]

theorem ok_bind {α β : Type} (value : α) (next : α → Except ReadError β) :
    ((.ok value : Except ReadError α) >>= next) = next value := rfl

/-- What is written is read back. -/
theorem read_write (proper : Proper python snapshot) :
    read python (write python snapshot) = .ok (some snapshot) := by
  have decoded := Json.loads_dumps (payload_wellFormed proper)
  obtain ⟨session, environmentId⟩ := snapshot
  obtain ⟨sessionDate, startingEquity, peakEquity, halted, haltReason⟩ := session
  generalize same : payload python ⟨⟨sessionDate, startingEquity, peakEquity, halted, haltReason⟩,
    environmentId⟩ = members at decoded
  have item (key : String) (value : Json) (member : (codePoints key, value) ∈ members) :
      getItem (.object members) key = .ok value := by
    rw [← same] at member ⊢
    exact getItem_payload python _ key member
  have date := item "session_date" (.string (isoformat sessionDate)) (by simp [← same, payload])
  have start := item "starting_equity" (.number (python.repr startingEquity))
    (by simp [← same, payload])
  have peak := item "peak_equity" (.number (python.repr peakEquity)) (by simp [← same, payload])
  have halt := item "halted" (.bool halted) (by simp [← same, payload])
  have reason := item "halt_reason" (.string (codePoints haltReason)) (by simp [← same, payload])
  have environment : getD (.object members) "environment_id" (.string []) =
      .string (codePoints environmentId) := by
    have member : (codePoints "environment_id", Json.string (codePoints environmentId)) ∈ members := by
      simp [← same, payload]
    rw [← same] at member ⊢
    rw [getD, Json.member?_of_mem (payload_distinct python _) member]
    rfl
  have readDate : dateOf (.string (isoformat sessionDate)) = .ok sessionDate := by
    rw [dateOf, fromisoformat_isoformat proper.date]
  have readStart : floatOf python (.number (python.repr startingEquity)) = .ok startingEquity := by
    rw [floatOf, proper.start.value]
    rfl
  have readPeak : floatOf python (.number (python.repr peakEquity)) = .ok peakEquity := by
    rw [floatOf, proper.peak.value]
    rfl
  rw [read, parse, write, same, decoded]
  simp only [date, start, peak, halt, reason, environment, ok_bind, readDate, readStart, readPeak,
    boolOf, strOf, text_codePoints]
  rfl

/-- A file that was cut short reads as no snapshot. -/
theorem read_torn (proper : Proper python snapshot) {k : ℕ}
    (short : k < (write python snapshot).length) :
    read python ((write python snapshot).take k) = .ok none := by
  have torn := Json.loads_torn (payload_wellFormed proper) short
  rw [read, parse, write, torn]
  rfl

end SnapshotFile

end Binbot
