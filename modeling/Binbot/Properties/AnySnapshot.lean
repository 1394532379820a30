import Binbot.Properties.RestartTransparency
import Binbot.Utils.SnapshotBytes

/-!
# Recovery from any state file

The reader takes what it finds through `float`, `bool` and `str`, and catches some of the
exceptions on the way. Recovery survives exactly the files that raise nothing else and that have
no session of today with values of other types than those that are written.

Strategy:
1. What the fields have to be for the reader to return a snapshot, and for it to raise nothing
   (`parse_eq_ok`, `caught_parse`)
2. The three ends of the reading: an exception, no snapshot, a snapshot
3. What recovery makes of each
-/
namespace Binbot.AnySnapshot

open Async Data
open SnapshotFile (codePoints getItem getD dateOf floatOf boolOf strOf IsFloat Proper)

variable {python : PythonTexts} {members : List (CodePoints × Json)} {snapshot : SessionSnapshot}

-- ═══════════════════════════════════════════════════════════════
-- Fields
-- ═══════════════════════════════════════════════════════════════

/-- `members[key]` is this value. -/
def Field (members : List (CodePoints × Json)) (key : String) (value : Json) : Prop :=
  Json.member? members (codePoints key) = some value

/-- The fields convert to those of the snapshot. A snapshot from before there was an environment
has the empty one. -/
structure Converts (python : PythonTexts) (members : List (CodePoints × Json))
    (snapshot : SessionSnapshot) : Prop where
  date : ∃ s, Field members "session_date" (.string s) ∧
    fromisoformat s = some snapshot.session.sessionDate
  start : ∃ value, Field members "starting_equity" value ∧
    floatOf python value = .ok snapshot.session.startingEquity
  peak : ∃ value, Field members "peak_equity" value ∧
    floatOf python value = .ok snapshot.session.peakEquity
  halted : ∃ value, Field members "halted" value ∧ boolOf python value = snapshot.session.halted
  reason : ∃ value, Field members "halt_reason" value ∧
    strOf python value = snapshot.session.haltReason
  environment : strOf python (getD (.object members) "environment_id" (.string [])) =
    snapshot.environmentId

/-- The fields are of the types that are written. -/
structure WellTyped (members : List (CodePoints × Json)) : Prop where
  start : ∃ literal, Field members "starting_equity" (.number literal)
  peak : ∃ literal, Field members "peak_equity" (.number literal)
  halted : ∃ value, Field members "halted" (.bool value)
  reason : ∃ s, Field members "halt_reason" (.string s)
  environment : ∀ value, Field members "environment_id" value → ∃ s, value = .string s

/-- The exception, if this is one, is among those that the reader catches. -/
def Caught {α : Type} (result : Except ReadError α) : Prop :=
  ∀ e, result = .error e → e.caught = true

/-- Every conversion that the reader comes to either succeeds or raises what it catches: the date
is a string, and the equities are no arrays, objects or `null`, and no integers that are too
large for a float. -/
structure Convertible (python : PythonTexts) (members : List (CodePoints × Json)) : Prop where
  date : ∀ value, Field members "session_date" value → ∃ s, value = .string s
  start : ∀ s date value, Field members "session_date" (.string s) → fromisoformat s = some date →
    Field members "starting_equity" value → Caught (floatOf python value)
  peak : ∀ s date first x value, Field members "session_date" (.string s) →
    fromisoformat s = some date → Field members "starting_equity" first →
    floatOf python first = .ok x → Field members "peak_equity" value → Caught (floatOf python value)

section Bind

variable {α β : Type} {result : Except ReadError α} {next : α → Except ReadError β}

theorem bind_eq_ok {b : β} : (result >>= next) = .ok b ↔ ∃ a, result = .ok a ∧ next a = .ok b := by
  cases result with
  | error e => simp [bind, Except.bind]
  | ok a => simp [bind, Except.bind]

theorem caught_ok (a : α) : Caught (.ok a) := by
  rintro e ⟨⟩

theorem caught_error {e : ReadError} : Caught (.error e : Except ReadError α) ↔ e.caught = true :=
  ⟨fun caught => caught e rfl, fun caught _ same => by cases same; exact caught⟩

theorem caught_bind :
    Caught (result >>= next) ↔ Caught result ∧ ∀ a, result = .ok a → Caught (next a) := by
  cases result with
  | error e => simp [bind, Except.bind, caught_error]
  | ok a => simp [bind, Except.bind, caught_ok]

end Bind

theorem getItem_eq_ok {key : String} {value : Json} :
    getItem (.object members) key = .ok value ↔ Field members key value := by
  unfold getItem Field
  dsimp only
  split
  next found present => simp [present]
  next absent => simp [absent]

theorem caught_getItem (key : String) : Caught (getItem (.object members) key) := by
  unfold getItem
  dsimp only
  split
  · exact caught_ok _
  · exact caught_error.mpr rfl

theorem dateOf_eq_ok {value : Json} {date : Date} :
    dateOf value = .ok date ↔ ∃ s, value = .string s ∧ fromisoformat s = some date := by
  cases value with
  | string s => cases read : fromisoformat s <;> simp [dateOf, read]
  | _ => simp [dateOf]

theorem caught_dateOf {value : Json} : Caught (dateOf value) ↔ ∃ s, value = .string s := by
  cases value with
  | string s =>
    cases read : fromisoformat s <;> simp [dateOf, read, caught_ok, caught_error, ReadError.caught]
  | _ => simp [dateOf, caught_error, ReadError.caught]

variable {text : List Char}

/-- The reader returns the snapshot that the fields convert to. -/
theorem parse_eq_ok (loaded : Json.loads text = some (.object members)) :
    SnapshotFile.parse python text = .ok snapshot ↔ Converts python members snapshot := by
  -- The reader has returned exactly if each of its steps has.
  rw [SnapshotFile.parse, loaded]
  simp only [bind_eq_ok, getItem_eq_ok, dateOf_eq_ok]
  constructor
  · rintro ⟨_, date_field, date, ⟨s, rfl, read⟩, start, start_field, start_value, start_read, peak,
      peak_field, peak_value, peak_read, halted, halted_field, reason, reason_field, same⟩
    cases same
    exact ⟨⟨s, date_field, read⟩, ⟨start, start_field, start_read⟩, ⟨peak, peak_field, peak_read⟩,
      ⟨halted, halted_field, rfl⟩, ⟨reason, reason_field, rfl⟩, rfl⟩
  · rintro ⟨⟨s, date_field, read⟩, ⟨start, start_field, start_read⟩, ⟨peak, peak_field, peak_read⟩,
      ⟨halted, halted_field, halted_read⟩, ⟨reason, reason_field, reason_read⟩, environment⟩
    refine ⟨_, date_field, _, ⟨s, rfl, read⟩, start, start_field, _, start_read, peak, peak_field, _,
      peak_read, halted, halted_field, reason, reason_field, ?_⟩
    rw [halted_read, reason_read, environment]
    rfl

theorem caught_parse (loaded : Json.loads text = some (.object members)) :
    Caught (SnapshotFile.parse python text) ↔ Convertible python members := by
  -- A missing key is caught; a step raises something else only once all before it have returned.
  rw [SnapshotFile.parse, loaded]
  simp only [caught_bind, getItem_eq_ok, dateOf_eq_ok, caught_getItem, caught_dateOf, true_and]
  constructor
  · intro caught
    constructor
    · exact fun value field => (caught value field).1
    · intro s date value date_field read field
      exact ((caught _ date_field).2 date ⟨s, rfl, read⟩ value field).1
    · intro s date first x value date_field read first_field converted field
      exact (((caught _ date_field).2 date ⟨s, rfl, read⟩ first first_field).2 x converted value field).1
  · intro convertible value date_field
    refine ⟨convertible.date value date_field, ?_⟩
    rintro date ⟨s, rfl, read⟩ first first_field
    refine ⟨convertible.start s date first date_field read first_field, ?_⟩
    intro x converted peak peak_field
    refine ⟨convertible.peak s date first x peak date_field read first_field converted peak_field, ?_⟩
    -- After the floats nothing but a missing key is raised.
    exact fun _ _ _ _ _ _ => caught_ok _

theorem parse_malformed (malformed : Json.loads text = none) :
    SnapshotFile.parse python text = .error .jsonDecodeError := by
  rw [SnapshotFile.parse, malformed]

theorem parse_noObject {value : Json} (loaded : Json.loads text = some value)
    (other : ∀ members, value ≠ .object members) :
    SnapshotFile.parse python text = .error .typeError := by
  rw [SnapshotFile.parse, loaded]
  cases value with
  | object members => exact absurd rfl (other members)
  | _ => rfl

-- ═══════════════════════════════════════════════════════════════
-- Files
-- ═══════════════════════════════════════════════════════════════

open SnapshotBytes (readText value?)

/-- Recovery can deal with a file of these contents. -/
structure Harmless (python : Interpreter) (environmentId : String) (today : Date)
    (contents : List UInt8) : Prop where
  shallow : ∀ text, readText contents = some text → python.limit text ≠ some .recursion
  object : ∀ value, value? python contents = some value → ∃ members, value = .object members
  convertible : ∀ members, value? python contents = some (.object members) →
    Convertible python.texts members
  /-- What converts to a session of today is of the types that are written. -/
  typed : ∀ members snapshot, value? python contents = some (.object members) →
    Converts python.texts members snapshot → snapshot.session.sessionDate = today →
    snapshot.environmentId = environmentId → WellTyped members

section Files

variable {interpreter : Interpreter} {contents : List UInt8} {environmentId : String} {today : Date}

theorem snapshotRead_eq_some :
    SnapshotFile.read python text = .ok (some snapshot) ↔
      SnapshotFile.parse python text = .ok snapshot := by
  unfold SnapshotFile.read
  split
  next found parsed => simp [parsed]
  next e parsed =>
    rw [parsed]
    split <;> simp

theorem snapshotRead_isOk :
    (∃ found, SnapshotFile.read python text = .ok found) ↔ Caught (SnapshotFile.parse python text) := by
  unfold SnapshotFile.read
  split
  next found parsed => simp [parsed, caught_ok]
  next e parsed =>
    rw [parsed, caught_error]
    split
    next caught => simp [caught]
    next uncaught => simp [uncaught]

/-- The value of a file is that of its text, where no limit is met. -/
theorem value?_eq {text : List Char} (decoded : readText contents = some text)
    (within : interpreter.limit text = none) :
    value? interpreter contents = Json.loads text := by
  rw [value?, decoded, Option.bind_some, if_pos within]

theorem value?_eq_some {value : Json} (held : value? interpreter contents = some value) :
    ∃ text, readText contents = some text ∧ interpreter.limit text = none ∧
      Json.loads text = some value := by
  obtain ⟨text, decoded, loaded⟩ := Option.bind_eq_some_iff.mp held
  split at loaded
  next within => exact ⟨text, decoded, within, loaded⟩
  next => cases loaded

theorem read_eq_some :
    SnapshotBytes.read interpreter contents = .ok (some snapshot) ↔
      ∃ members, value? interpreter contents = some (.object members) ∧
        Converts interpreter.texts members snapshot := by
  constructor
  · intro read
    rw [SnapshotBytes.read] at read
    split at read
    next => cases read
    next text decoded =>
      split at read
      next => cases read
      next => cases read
      next within =>
        rw [snapshotRead_eq_some] at read
        rw [value?_eq decoded within]
        cases loaded : Json.loads text with
        | none =>
          rw [parse_malformed loaded] at read
          cases read
        | some value =>
          by_cases object : ∃ members, value = .object members
          · obtain ⟨members, rfl⟩ := object
            exact ⟨members, rfl, (parse_eq_ok loaded).mp read⟩
          · rw [parse_noObject loaded (not_exists.mp object)] at read
            cases read
  · rintro ⟨members, held, converts⟩
    obtain ⟨text, decoded, within, loaded⟩ := value?_eq_some held
    rw [SnapshotBytes.read, decoded]
    simp only [within]
    exact snapshotRead_eq_some.mpr ((parse_eq_ok loaded).mpr converts)

/-- The reader raises nothing that it does not catch. -/
theorem read_isOk :
    (∃ found, SnapshotBytes.read interpreter contents = .ok found) ↔
      (∀ text, readText contents = some text → interpreter.limit text ≠ some .recursion) ∧
      (∀ value, value? interpreter contents = some value → ∃ members, value = .object members) ∧
      ∀ members, value? interpreter contents = some (.object members) →
        Convertible interpreter.texts members := by
  rw [SnapshotBytes.read]
  cases decoded : readText contents with
  | none => simp [value?, decoded]
  | some text =>
    dsimp only
    cases limit : interpreter.limit text with
    | some limit' =>
      -- Too many digits are a `ValueError`, too much nesting is nothing that is caught.
      cases limit' with
      | recursion => simp [limit]
      | digits => simp [value?, decoded, limit]
    | none =>
      dsimp only
      rw [snapshotRead_isOk, value?_eq decoded limit]
      cases loaded : Json.loads text with
      | none => simp [parse_malformed loaded, caught_error, ReadError.caught, limit]
      | some value =>
        by_cases object : ∃ members, value = .object members
        · obtain ⟨members, rfl⟩ := object
          rw [caught_parse loaded]
          simp [limit]
        · simp [parse_noObject loaded (not_exists.mp object), caught_error, ReadError.caught, object]

end Files

-- ═══════════════════════════════════════════════════════════════
-- Recovery
-- ═══════════════════════════════════════════════════════════════

open LiveParams (runOn account)

/-- The deployment with its state file in bytes. -/
def onBytes (python : Interpreter) (p : LiveParams (List UInt8)) : LiveParams (List UInt8) :=
  { p with format := SnapshotBytes.format python }

/-- The file holds this session of today: complete, of the types that are written, and of this
environment. -/
def Stored (python : Interpreter) (environmentId : String) (today : Date) (contents : List UInt8)
    (snapshot : SessionSnapshot) : Prop :=
  ∃ members, value? python contents = some (.object members) ∧ WellTyped members ∧
    Converts python.texts members snapshot ∧ snapshot.session.sessionDate = today ∧
    snapshot.environmentId = environmentId

/-- A recovery of this process has returned. It says that it has restored the session that is
stored, and has; or there is none, and it has started afresh. What it leaves on file is read
back as the session it ends in. -/
structure Recovered (python : Interpreter) (p : LiveParams (List UInt8)) (contents : List UInt8)
    (equity : ℚ) (m : Process (List UInt8))
    (outcome : Coro.Outcome Unit (Process (List UInt8)) RecoveryResult) (result : RecoveryResult) :
    Prop where
  returned : outcome.result = .ok result
  restored : result.circuitBreakerRestoredFromDisk = true →
    ∃ snapshot, Stored python p.environmentId m.clock.now.date contents snapshot ∧
      outcome.memory.riskEngine.circuitBreaker =
        m.riskEngine.circuitBreaker.restore snapshot.session
  fresh : result.circuitBreakerRestoredFromDisk = false →
    (∀ snapshot, ¬ Stored python p.environmentId m.clock.now.date contents snapshot) ∧
      outcome.memory.riskEngine.circuitBreaker =
        m.riskEngine.circuitBreaker.resetSession equity m.clock.now.date
  readable : (onBytes python p).readFile outcome.memory.stateFile =
    .ok (some ⟨outcome.memory.riskEngine.circuitBreaker.snapshot, p.environmentId⟩)

/-- Recovery does what it should with a file of these contents. -/
def Survives (python : Interpreter) (p : LiveParams (List UInt8)) (book : Dict Symbol ℤ) (equity : ℚ)
    (m : Process (List UInt8)) (contents : List UInt8) : Prop :=
  ∃ result, Recovered python p contents equity m
    (runOn (account book equity) (onBytes python p).scanner.recovery.recover m) result

/-- What is relied on: `float` returns floats, and the text of a snapshot is within the limits. -/
structure Reliable (python : Interpreter) : Prop where
  literal : ∀ literal x, python.texts.floatOfLiteral literal = .ok x → IsFloat python.texts x
  string : ∀ s x, python.texts.floatOfString s = some x → IsFloat python.texts x
  zero : IsFloat python.texts 0
  one : IsFloat python.texts 1
  within : ∀ snapshot, Proper python.texts snapshot →
    python.limit (SnapshotFile.write python.texts snapshot) = none

theorem Reliable.isFloat {python : Interpreter} (reliable : Reliable python) {value : Json} {x : ℚ}
    (converted : floatOf python.texts value = .ok x) : IsFloat python.texts x := by
  cases value with
  | number literal =>
    cases read : python.texts.floatOfLiteral literal with
    | ok y =>
      simp only [floatOf, read, Except.mapError, Except.ok.injEq] at converted
      exact converted ▸ reliable.literal literal y read
    | error e => simp [floatOf, read, Except.mapError] at converted
  | string s =>
    cases read : python.texts.floatOfString s with
    | some y =>
      simp only [floatOf, read, Except.ok.injEq] at converted
      exact converted ▸ reliable.string s y read
    | none => simp [floatOf, read] at converted
  | bool value =>
    simp only [floatOf, Except.ok.injEq] at converted
    subst converted
    cases value with
    | true => exact reliable.one
    | false => exact reliable.zero
  | _ => simp [floatOf] at converted

section Recovery

variable {python : Interpreter} {p : LiveParams (List UInt8)} {book : Dict Symbol ℤ} {equity : ℚ}
variable {m : Process (List UInt8)} {contents : List UInt8}

theorem readFile_eq (held : m.stateFile.contents = some contents) :
    (onBytes python p).readFile m.stateFile = SnapshotBytes.read python contents := by
  simp [LiveParams.readFile, held, onBytes, SnapshotBytes.format]

/-- Whatever was read, the session that recovery ends in can be written. -/
theorem proper_recovered (reliable : Reliable python) (float : IsFloat python.texts equity)
    (calendar : InCalendar m.clock.now.date) {found : Option SessionSnapshot}
    (read : SnapshotBytes.read python contents = .ok found) (b : DrawdownCircuitBreaker) :
    Proper python.texts
      ⟨((onBytes python p).recoveredBreaker found equity m.clock.now.date b).snapshot,
        p.environmentId⟩ := by
  cases found with
  | none => exact ⟨calendar, float, float⟩
  | some snapshot =>
    by_cases own : snapshot.session.sessionDate = m.clock.now.date ∧
        snapshot.environmentId = p.environmentId
    · obtain ⟨_, _, converts⟩ := read_eq_some.mp read
      obtain ⟨_, _, start⟩ := converts.start
      obtain ⟨_, _, peak⟩ := converts.peak
      rw [(onBytes python p).recoveredBreaker_restores own.1 own.2]
      exact ⟨own.1 ▸ calendar, reliable.isFloat start, reliable.isFloat peak⟩
    · have other : snapshot.session.sessionDate ≠ m.clock.now.date ∨
          snapshot.environmentId ≠ (onBytes python p).environmentId := not_and_or.mp own
      rw [(onBytes python p).recoveredBreaker_fresh other]
      exact ⟨calendar, float, float⟩

/-- What is stored is what is read. -/
theorem Stored.eq_read {snapshot : SessionSnapshot} {environmentId : String} {today : Date}
    {found : Option SessionSnapshot} (stored : Stored python environmentId today contents snapshot)
    (read : SnapshotBytes.read python contents = .ok found) : found = some snapshot := by
  obtain ⟨members, held, _, converts, _, _⟩ := stored
  rw [read_eq_some.mpr ⟨members, held, converts⟩] at read
  exact (Except.ok.inj read).symm

/-- Where nothing is raised, what is restored has to be stored. -/
theorem survives_of_read (reliable : Reliable python) (float : IsFloat python.texts equity)
    (calendar : InCalendar m.clock.now.date) (held : m.stateFile.contents = some contents)
    {found : Option SessionSnapshot} (read : SnapshotBytes.read python contents = .ok found) :
    Survives python p book equity m contents ↔
      ∀ snapshot, found = some snapshot → snapshot.session.sessionDate = m.clock.now.date →
        snapshot.environmentId = p.environmentId →
        Stored python p.environmentId m.clock.now.date contents snapshot := by
  have spec := (onBytes python p).recover_spec book equity m ((readFile_eq held).trans read)
  rw [Survives, spec]
  constructor
  · rintro ⟨result, recovered⟩ snapshot rfl date own
    have same := Except.ok.inj recovered.returned
    have flag : result.circuitBreakerRestoredFromDisk = true := by
      rw [← same]
      exact (onBytes python p).restoredFromDisk_some.mpr ⟨date, own⟩
    obtain ⟨other, stored, _⟩ := recovered.restored flag
    cases stored.eq_read read
    exact stored
  · intro typed
    refine ⟨_, rfl, ?_, ?_, ?_⟩
    · -- It says that it has restored what it has read, so that is what is stored.
      intro flag
      cases found with
      | none => cases flag
      | some snapshot =>
        obtain ⟨date, own⟩ := (onBytes python p).restoredFromDisk_some.mp flag
        exact ⟨snapshot, typed snapshot rfl date own,
          (onBytes python p).recoveredBreaker_restores date own equity _⟩
    · -- Nothing was read, or it is of another day or environment: nothing is stored.
      intro flag
      cases found with
      | none =>
        constructor
        · intro snapshot stored
          cases stored.eq_read read
        · rfl
      | some snapshot =>
        have rejected : ¬ (snapshot.session.sessionDate = m.clock.now.date ∧
            snapshot.environmentId = (onBytes python p).environmentId) := by
          rw [← (onBytes python p).restoredFromDisk_some]
          exact Bool.eq_false_iff.mp flag
        constructor
        · intro other stored
          cases stored.eq_read read
          obtain ⟨_, _, _, _, date, own⟩ := stored
          exact rejected ⟨date, own⟩
        · exact (onBytes python p).recoveredBreaker_fresh (not_and_or.mp rejected) equity _
    · have proper := proper_recovered (p := p) reliable float calendar read
        m.riskEngine.circuitBreaker
      exact SnapshotBytes.read_write proper (reliable.within _ proper)

/-- Recovery does what it should with exactly the files that it can deal with. -/
theorem recover_survives_iff (python : Interpreter) (p : LiveParams (List UInt8))
    (book : Dict Symbol ℤ) (equity : ℚ) (m : Process (List UInt8)) (contents : List UInt8)
    (reliable : Reliable python) (float : IsFloat python.texts equity)
    (calendar : InCalendar m.clock.now.date) (held : m.stateFile.contents = some contents) :
    Survives python p book equity m contents ↔
      Harmless python p.environmentId m.clock.now.date contents := by
  cases read : SnapshotBytes.read python contents with
  | error e =>
    have raised := (onBytes python p).recover_raised book equity m ((readFile_eq held).trans read)
    -- What is not caught ends the recovery.
    apply iff_of_false
    · rintro ⟨result, recovered⟩
      have returned := recovered.returned
      rw [raised] at returned
      cases returned
    · intro harmless
      obtain ⟨found, same⟩ :=
        read_isOk.mpr ⟨harmless.shallow, harmless.object, harmless.convertible⟩
      rw [read] at same
      cases same
  | ok found =>
    rw [survives_of_read reliable float calendar held read]
    constructor
    · intro typed
      obtain ⟨shallow, object, convertible⟩ := read_isOk.mp ⟨found, read⟩
      refine ⟨shallow, object, convertible, ?_⟩
      intro members snapshot decoded converts date own
      have same := read_eq_some.mpr ⟨members, decoded, converts⟩
      rw [read] at same
      obtain ⟨others, decoded', wellTyped, _⟩ := typed snapshot (Except.ok.inj same) date own
      rw [decoded] at decoded'
      cases decoded'
      exact wellTyped
    · rintro harmless snapshot rfl date own
      obtain ⟨members, decoded, converts⟩ := read_eq_some.mp read
      exact ⟨members, decoded, harmless.typed members snapshot decoded converts date own, converts,
        date, own⟩

end Recovery

/-- Three floats, and no text is beyond the limits. -/
def threeFloats : Interpreter where
  texts :=
    { repr := fun x =>
        if x = 0 then ['0', '.', '0'] else if x = 1 then ['1', '.', '0']
        else ['1', '0', '0', '.', '0']
      floatOfLiteral := fun literal =>
        if literal = ['0', '.', '0'] then .ok 0
        else if literal = ['1', '.', '0'] then .ok 1
        else if literal = ['1', '0', '0', '.', '0'] then .ok 100
        else .error "OverflowError"
      floatOfString := fun _ => none
      str := fun _ => "" }
  limit _ := none

theorem threeFloats_reliable : Reliable threeFloats where
  literal := by
    intro literal x read
    simp only [threeFloats] at read
    split at read
    · cases read
      exact ⟨rfl, rfl⟩
    · split at read
      · cases read
        exact ⟨rfl, rfl⟩
      · split at read
        · cases read
          exact ⟨rfl, rfl⟩
        · cases read
  string := by
    rintro s x ⟨⟩
  zero := ⟨rfl, rfl⟩
  one := ⟨rfl, rfl⟩
  within _ _ := rfl

def testnet : LiveParams (List UInt8) where
  getStepSize _ := 1 / 1000
  leverage := 10
  format := ⟨fun _ => [], fun _ => .ok none⟩
  environmentId := "testnet:0"

/-- It starts with this state file. -/
def startedWith (contents : List UInt8) : Process (List UInt8) where
  riskEngine := LiveParams.demoProcess.riskEngine
  clock := ⟨0, 0⟩
  stateFile := ⟨some contents⟩
  scanner := LiveParams.demoProcess.scanner

/-- An opening brace and a quote are no JSON. -/
theorem recover_survives_torn : Survives threeFloats testnet .empty 100
    (startedWith [0x7B, 0x22]) [0x7B, 0x22] := by
  have malformed : value? threeFloats [0x7B, 0x22] = none := rfl
  refine (recover_survives_iff threeFloats testnet .empty 100 (startedWith [0x7B, 0x22])
    [0x7B, 0x22] threeFloats_reliable ⟨rfl, rfl⟩ (by decide +kernel) rfl).mpr ⟨?_, ?_, ?_, ?_⟩
  · intro text _ deep
    cases deep
  · intro value decoded
    rw [malformed] at decoded
    cases decoded
  · intro members decoded
    rw [malformed] at decoded
    cases decoded
  · intro members snapshot decoded
    rw [malformed] at decoded
    cases decoded

/-- An empty array is JSON, and no object. -/
theorem emptyArray_not_survives : ¬ Survives threeFloats testnet .empty 100
    (startedWith [0x5B, 0x5D]) [0x5B, 0x5D] := by
  have raised : SnapshotBytes.read threeFloats [0x5B, 0x5D] = .error "TypeError" := rfl
  rintro ⟨result, recovered⟩
  have returned := recovered.returned
  rw [(onBytes threeFloats testnet).recover_raised .empty 100 (startedWith [0x5B, 0x5D])
    ((readFile_eq rfl).trans raised)] at returned
  cases returned

end Binbot.AnySnapshot
