import Binbot.Data.Utf
import Binbot.Server.DashboardClients
import Binbot.Utils.SnapshotFile

/-!
# Control channel of the dashboard (`server/dashboard_bridge.py`)

A client's messages ask for commands. Anyone who reaches the port can send one, so each has to
carry the control token.
-/
namespace Binbot

open Async Data
open SnapshotFile (codePoints)

inductive Command where
  | pause
  | resume
  | flatten
  | killSwitch
  | resetKillSwitch
  deriving DecidableEq, Repr

def Command.text : Command → String
  | .pause => "pause"
  | .resume => "resume"
  | .flatten => "flatten"
  | .killSwitch => "kill_switch"
  | .resetKillSwitch => "reset_kill_switch"

/-- What a client has sent: a text frame, or a binary one. -/
inductive RawMessage where
  | text (chars : List Char)
  | bytes (frame : List UInt8)

/-- The message as a string; none for a `UnicodeDecodeError`. -/
def RawMessage.decoded : RawMessage → Option CodePoints
  | .text chars => some (chars.map Char.toNat)
  | .bytes frame => (detectEncoding frame).decode frame

inductive ChannelRequest where
  | invoke (command : Command)
  /-- The audit log's write. -/
  | append (line : AuditLine)
  | broadcast (line : AuditLine)
  deriving DecidableEq

abbrev channelSig : Sig := ⟨ChannelRequest, fun _ => Unit⟩

structure ControlChannel where
  controlToken : List Char
  logsAudit : Bool
  /-- What the interpreter's limits raise on a text: on nesting that is too deep for it, or on
  an integer of too many digits. -/
  limit : CodePoints → Option String

/-- What `json.loads` may raise. -/
inductive LoadsError where
  | jsonDecodeError
  | other (error : String)

/-- The name of a decoded value's type. -/
def pythonType : Json → String
  | .null => "NoneType"
  | .bool _ => "bool"
  | .number literal => if literal.all fun c => c = '-' || Json.isDigit c then "int" else "float"
  | .string _ => "str"
  | .array _ => "list"
  | .object _ => "dict"

namespace ControlChannel

/-- `_commands`. -/
def commands : List (CodePoints × Command) :=
  [Command.pause, .resume, .flatten, .killSwitch, .resetKillSwitch].map fun command =>
    (codePoints command.text, command)

def rejectedLine : AuditLine :=
  ⟨.error, "dashboard_bridge", "Rejected a dashboard command: missing or invalid control token"⟩

def failedLine (command : Command) : AuditLine :=
  ⟨.error, "dashboard_bridge", s!"Command '{command.text}' failed — see server logs"⟩

variable (self : ControlChannel)

/-- A character that the token does not have. -/
def standIn : Char :=
  (((List.range (self.controlToken.length + 1)).map fun i => Char.ofNat (0xE000 + i)).find?
    (· ∉ self.controlToken)).getD (Char.ofNat 0xFFFD)

/-- A lone surrogate is no `Char`. All that is asked of a string is whether it is the token or
one of a few ASCII words, and no such string has one: another character does as well. -/
def charOf (n : ℕ) : Char := if n.isValidChar then Char.ofNat n else self.standIn

/-- The JSON value that a message is. -/
def content (raw : RawMessage) : Option Json :=
  raw.decoded.bind fun points => Json.loads (points.map self.charOf)

/-- `json.loads(raw)`. -/
def loads (raw : RawMessage) : Except LoadsError Json :=
  match raw.decoded with
  | none => .error (.other "UnicodeDecodeError")
  | some points =>
    match self.limit points with
    | some error => .error (.other error)
    | none =>
      match self.content raw with
      | none => .error .jsonDecodeError
      | some value => .ok value

/-- Whether this is the token. Without a token of its own the channel accepts none. -/
def accepts (token : Option Json) : Bool :=
  match token with
  | some (.string s) => self.controlToken ≠ [] && s = self.controlToken.map Char.toNat
  | _ => false

section Programs

variable {σ : Type} [Part σ ClientState]

/-- `push_audit`. The audit log raises nothing. -/
def pushAudit (line : AuditLine) : Coro σ channelSig Unit := do
  Coro.update fun m : ClientState => m.recordAudit line
  Coro.onlyIf self.logsAudit
    (tryCatch (Coro.request (S := channelSig) (.append line)) fun _ => pure ())
  Coro.request (S := channelSig) (.broadcast line)

end Programs

end ControlChannel

end Binbot
