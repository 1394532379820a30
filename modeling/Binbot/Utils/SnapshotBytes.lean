import Binbot.Data.JsonLines
import Binbot.Data.TextLines
import Binbot.Utils.SnapshotFile

/-!
# The bytes of the snapshot file (`utils/state_recovery.py`)

The text of a snapshot is written and read as UTF-8, and it is decoded within the limits that
the interpreter has.
-/
namespace Binbot

open Data

/-- What a text may run into while it is decoded. -/
inductive TextLimit where
  /-- Its nesting is too deep: a `RecursionError`. -/
  | recursion
  /-- An integer has too many digits: a `ValueError`. -/
  | digits
  deriving DecidableEq

/-- A float that is not finite is represented by a number that no other float is. -/
structure Interpreter where
  texts : PythonTexts
  limit : List Char → Option TextLimit

namespace SnapshotBytes

/-- `read_text(encoding="utf-8")`; none for a `UnicodeDecodeError`. -/
def readText (contents : List UInt8) : Option (List Char) :=
  (Utf8.decode false contents).map fun points =>
    universalNewlines (points.map SnapshotFile.charOf)

variable (python : Interpreter)

/-- The JSON value that the file holds. -/
def value? (contents : List UInt8) : Option Json :=
  (readText contents).bind fun text =>
    if python.limit text = none then Json.loads text else none

def write (snapshot : SessionSnapshot) : List UInt8 :=
  Utf8.encode (SnapshotFile.write python.texts snapshot)

/-- `_read_snapshot` of a file that exists. -/
def read (contents : List UInt8) : Except String (Option SessionSnapshot) :=
  match readText contents with
  -- a `UnicodeDecodeError` is a `ValueError`
  | none => .ok none
  | some text =>
    match python.limit text with
    | some .recursion => .error "RecursionError"
    | some .digits => .ok none
    | none => SnapshotFile.read python.texts text

/-- The format of the state file. -/
def format : SnapshotFormat (List UInt8) := ⟨write python, read python⟩

variable {python} {snapshot : SessionSnapshot}

theorem readText_write (proper : SnapshotFile.Proper python.texts snapshot) :
    readText (write python snapshot) = some (SnapshotFile.write python.texts snapshot) := by
  have legible : Json.Legible (SnapshotFile.write python.texts snapshot) :=
    Json.legible_dumps (SnapshotFile.payload_wellFormed proper).literals
  have no_return : '\r' ∉ SnapshotFile.write python.texts snapshot :=
    fun member => absurd (legible '\r' member) (by decide)
  rw [readText, write, Utf8.decode_encode_ascii false legible.ascii, Option.map_some,
    SnapshotFile.map_charOf_toNat, universalNewlines_of_not_mem no_return]

/-- What is written is read back, if it is within the limits. -/
theorem read_write (proper : SnapshotFile.Proper python.texts snapshot)
    (within : python.limit (SnapshotFile.write python.texts snapshot) = none) :
    read python (write python snapshot) = .ok (some snapshot) := by
  rw [read, readText_write proper]
  simp only [within]
  exact SnapshotFile.read_write proper

end SnapshotBytes

end Binbot
