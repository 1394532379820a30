import Binbot.Server.ControlChannel

/-!
# Robustness of the control channel

Strategy:
1. `handleIncoming` takes one of seven courses, each with what the message has to be for it
   (`handleIncoming_course`)
2. The four courses that raise nothing themselves are right, if their broadcast raises nothing
3. A session goes from one message to the next, by induction, until one raises
-/
namespace Binbot.CommandChannel

open Async Data ControlChannel
open SnapshotFile (codePoints)

-- ═══════════════════════════════════════════════════════════════
-- What a message should come to
-- ═══════════════════════════════════════════════════════════════

variable {σ : Type} [Part σ ClientState]

/-- How each call ends that a message leads to. -/
abbrev Answers : Type := (q : ChannelRequest) → Answer channelSig q

/-- A program with the calls that it makes. -/
def run (answers : Answers) (program : Coro σ channelSig Unit) (made : List ChannelRequest)
    (s : σ) : Coro.Outcome (List ChannelRequest) σ Unit :=
  program.exec (fun made q => (answers q, made ++ [q])) made s

/-- Each call may end as it likes, after the calls before it. -/
def runAmid (replies : List ChannelRequest → Answers) (program : Coro σ channelSig Unit)
    (made : List ChannelRequest) (s : σ) : Coro.Outcome (List ChannelRequest) σ Unit :=
  program.exec (fun made q => (replies made q, made ++ [q])) made s

def invoked (made : List ChannelRequest) : List Command :=
  made.filterMap fun
    | .invoke command => some command
    | _ => none

/-- The message is an object with the channel's token. -/
structure Carries (channel : ControlChannel) (raw : RawMessage)
    (members : List (CodePoints × Json)) : Prop where
  content : channel.content raw = some (.object members)
  nonempty : channel.controlToken ≠ []
  token : Json.member? members (codePoints "token") =
    some (.string (channel.controlToken.map Char.toNat))

def Authorised (channel : ControlChannel) (raw : RawMessage) : Prop :=
  ∃ members, Carries channel raw members

def Asks (channel : ControlChannel) (raw : RawMessage) (command : Command) : Prop :=
  ∃ members, Carries channel raw members ∧
    Json.member? members (codePoints "command") = some (.string (codePoints command.text))

/-- Neither the decoding nor an interpreter's limit ends the reading. -/
def Readable (channel : ControlChannel) (raw : RawMessage) : Prop :=
  ∃ points, raw.decoded = some points ∧ channel.limit points = none

def Hashable : Json → Prop
  | .array _ | .object _ => False
  | _ => True

inductive Course (channel : ControlChannel) (raw : RawMessage) : Coro σ channelSig Unit → Prop where
  | unreadable (error : String) (unreadable : ¬ Readable channel raw) :
    Course channel raw (throw error)
  | malformed (readable : Readable channel raw) (malformed : channel.content raw = none) :
    Course channel raw (pure ())
  | noObject (error : String) (value : Json) (content : channel.content raw = some value)
      (other : ∀ members, value ≠ .object members) : Course channel raw (throw error)
  | rejected (readable : Readable channel raw) (members : List (CodePoints × Json))
      (content : channel.content raw = some (.object members))
      (unauthorised : ¬ Authorised channel raw) :
    Course channel raw (channel.pushAudit rejectedLine)
  | unhashable (error : String) (members : List (CodePoints × Json))
      (carries : Carries channel raw members) (command : Json)
      (named : Json.member? members (codePoints "command") = some command)
      (unhashable : ¬ Hashable command) : Course channel raw (throw error)
  | unknown (readable : Readable channel raw) (members : List (CodePoints × Json))
      (carries : Carries channel raw members)
      (hashable : ∀ command, Json.member? members (codePoints "command") = some command →
        Hashable command)
      (unknown : ∀ command, ¬ Asks channel raw command) : Course channel raw (pure ())
  | asks (readable : Readable channel raw) (command : Command) (asks : Asks channel raw command) :
    Course channel raw (tryCatch (Coro.request (S := channelSig) (.invoke command)) fun _ =>
      channel.pushAudit (failedLine command))

variable {channel : ControlChannel} {raw : RawMessage} {members : List (CodePoints × Json)}

theorem Carries.unique (carries : Carries channel raw members) {others : List (CodePoints × Json)}
    (content : channel.content raw = some (.object others)) : others = members := by
  have same := carries.content.symm.trans content
  cases same
  rfl

theorem object_of_content (content : channel.content raw = some (.object members)) (value : Json)
    (found : channel.content raw = some value) : ∃ members, value = .object members := by
  rw [content] at found
  exact ⟨members, (Option.some.inj found).symm⟩

theorem find_commands {s : CodePoints} {command : Command} :
    (commands.find? fun entry => entry.1 = s).map Prod.snd = some command ↔
      s = codePoints command.text := by
  constructor
  · intro mapped
    obtain ⟨entry, found, same⟩ := Option.map_eq_some_iff.mp mapped
    obtain ⟨source, _, rfl⟩ := List.mem_map.mp (List.mem_of_find?_eq_some found)
    have equal := List.find?_some found
    simp only [decide_eq_true_eq] at equal same
    rw [← equal, same]
  · rintro rfl
    cases command <;> decide

/-- The calls that an audit line leads to. -/
def auditCalls (channel : ControlChannel) (line : AuditLine) : List ChannelRequest :=
  (if channel.logsAudit then [.append line] else []) ++ [.broadcast line]

theorem runAmid_pushAudit (replies : List ChannelRequest → Answers) (line : AuditLine)
    (made : List ChannelRequest) (s : σ) :
    runAmid replies (channel.pushAudit line) made s =
      ⟨replies (made ++ (auditCalls channel line).dropLast) (.broadcast line),
        made ++ auditCalls channel line,
        Part.set s ((Part.view s : ClientState).recordAudit line)⟩ := by
  simp only [runAmid, pushAudit, Coro.exec_bind, Coro.exec_update, Coro.Outcome.andThen_ok,
    auditCalls]
  cases channel.logsAudit with
  | false =>
    simp only [Coro.onlyIf, Bool.false_eq_true, if_false, Coro.exec_pure, Coro.Outcome.andThen_ok,
      Coro.exec_request, List.nil_append, List.dropLast_singleton, List.append_nil]
  | true =>
    -- What the log's write raises is caught, so that the broadcast follows either way.
    simp only [Coro.onlyIf, if_true, Coro.exec_tryCatch, Coro.exec_request]
    cases replies made (.append line) <;> simp

theorem invoked_append_auditCalls (made : List ChannelRequest) (line : AuditLine) :
    invoked (made ++ auditCalls channel line) = invoked made := by
  unfold invoked auditCalls
  split <;> simp

theorem Asks.authorised {command : Command} (asks : Asks channel raw command) :
    Authorised channel raw :=
  asks.imp fun _ found => found.1

theorem Asks.unique {command other : Command} (asks : Asks channel raw command)
    (also : Asks channel raw other) : other = command := by
  obtain ⟨members, carries, named⟩ := asks
  obtain ⟨others, carries', named'⟩ := also
  rw [carries.unique carries'.content, named] at named'
  have same : codePoints command.text = codePoints other.text := by simpa using named'
  have found := find_commands.mpr same
  rw [find_commands.mpr (rfl : codePoints command.text = _)] at found
  exact (Option.some.inj found).symm

/-- The channel raises nothing of its own at the message. -/
structure Decent (channel : ControlChannel) (raw : RawMessage) : Prop where
  readable : Readable channel raw
  object : ∀ value, channel.content raw = some value → ∃ members, value = .object members
  hashable : ∀ members, Carries channel raw members → ∀ command,
    Json.member? members (codePoints "command") = some command → Hashable command

/-- What becomes of one message: the command that it asks for, if any, is invoked, and audit
lines are recorded. -/
structure Handled (channel : ControlChannel) (replies : List ChannelRequest → Answers)
    (raw : RawMessage) (made : List ChannelRequest) (s : σ) (asked : Option Command)
    (lines : List AuditLine) (o : Coro.Outcome (List ChannelRequest) σ Unit) : Prop where
  hears : ∀ command, asked = some command ↔ Readable channel raw ∧ Asks channel raw command
  invokes : invoked o.outside = invoked made ++ asked.toList
  records : (Part.view o.memory : ClientState) =
    lines.foldl ClientState.recordAudit (Part.view s)
  decent : o.result = .ok () → Decent channel raw
  returns : Decent channel raw → (∀ made line, replies made (.broadcast line) = .ok ()) →
    o.result = .ok ()

section Session

variable (replies : List ChannelRequest → Answers) (made : List ChannelRequest) (s : σ)

/-- A message that raises leads to nothing. -/
theorem handled_raised (error : String) (indecent : ¬ Decent channel raw)
    (none_asked : ∀ command, ¬ (Readable channel raw ∧ Asks channel raw command)) :
    Handled channel replies raw made s none [] ⟨.error error, made, s⟩ where
  hears command := by simpa using none_asked command
  invokes := by simp
  records := rfl
  decent returned := by cases returned
  returns decent := absurd decent indecent

theorem handled_quiet (decent : Decent channel raw)
    (none_asked : ∀ command, ¬ (Readable channel raw ∧ Asks channel raw command)) :
    Handled channel replies raw made s none [] ⟨.ok (), made, s⟩ where
  hears command := by simpa using none_asked command
  invokes := by simp
  records := rfl
  decent _ := decent
  returns _ _ := rfl

theorem Course.handled {program : Coro σ channelSig Unit} (course : Course channel raw program) :
    ∃ asked lines,
      Handled channel replies raw made s asked lines (runAmid replies program made s) := by
  cases course with
  | unreadable error unreadable =>
    refine ⟨none, [], handled_raised replies made s error ?_ ?_⟩
    · exact fun decent => unreadable decent.readable
    · exact fun _ heard => unreadable heard.1
  | malformed readable malformed =>
    refine ⟨none, [], handled_quiet replies made s ?_ ?_⟩
    · constructor
      · exact readable
      · simp [malformed]
      · intro members carries
        cases malformed.symm.trans carries.content
    · rintro command ⟨-, members, carries, -⟩
      cases malformed.symm.trans carries.content
  | noObject error value content other =>
    refine ⟨none, [], handled_raised replies made s error ?_ ?_⟩
    · intro decent
      obtain ⟨members, same⟩ := decent.object value content
      exact other members same
    · rintro command ⟨-, members, carries, -⟩
      exact other members (Option.some.inj (content.symm.trans carries.content))
  | rejected readable members content unauthorised =>
    refine ⟨none, [rejectedLine], ?_⟩
    rw [runAmid_pushAudit]
    constructor
    · intro command
      constructor
      · intro asked
        cases asked
      · exact fun heard => absurd heard.2.authorised unauthorised
    · rw [invoked_append_auditCalls, Option.toList_none, List.append_nil]
    · exact Part.view_set _ _
    · intro _
      constructor
      · exact readable
      · exact object_of_content content
      · exact fun members carries => absurd ⟨members, carries⟩ unauthorised
    · exact fun _ told => told _ _
  | unhashable error members carries command named unhashable =>
    refine ⟨none, [], handled_raised replies made s error ?_ ?_⟩
    · exact fun decent => unhashable (decent.hashable members carries command named)
    · rintro other ⟨-, others, also, asks⟩
      rw [carries.unique also.content, named] at asks
      cases asks
      exact unhashable trivial
  | unknown readable members carries hashable unknown =>
    refine ⟨none, [], handled_quiet replies made s ?_ fun command heard => unknown _ heard.2⟩
    constructor
    · exact readable
    · exact object_of_content carries.content
    · intro others also
      rw [carries.unique also.content]
      exact hashable
  | asks readable command asks =>
    obtain ⟨members, carries, named⟩ := id asks
    have hears : ∀ other, some command = some other ↔
        Readable channel raw ∧ Asks channel raw other := by
      intro other
      constructor
      · rintro ⟨⟩
        exact ⟨readable, asks⟩
      · exact fun heard => congrArg some (asks.unique heard.2).symm
    have decent : Decent channel raw := by
      constructor
      · exact readable
      · exact object_of_content carries.content
      · intro others also other found
        rw [carries.unique also.content, named] at found
        cases found
        trivial
    rw [runAmid, Coro.exec_tryCatch, Coro.exec_request]
    dsimp only
    cases replies made (.invoke command) with
    | ok value =>
      rw [Coro.Outcome.orElse_ok]
      exact ⟨some command, [], hears, by simp [invoked], rfl, fun _ => decent, fun _ _ => rfl⟩
    | error error =>
      -- what the handler raises is caught, and told in an audit line
      have told : runAmid replies (channel.pushAudit (failedLine command))
        (made ++ [.invoke command]) s = _ := runAmid_pushAudit replies _ _ s
      rw [runAmid] at told
      rw [Coro.Outcome.orElse_error, told]
      refine ⟨some command, [failedLine command], hears, ?_, Part.view_set _ _, fun _ => decent,
        fun _ quiet => quiet _ _⟩
      rw [invoked_append_auditCalls]
      simp [invoked]

/-- A session that has read these messages of all that came. -/
structure Session (channel : ControlChannel) (replies : List ChannelRequest → Answers)
    (read unread : List RawMessage) (made : List ChannelRequest) (s : σ)
    (asked : List (Option Command)) (lines : List AuditLine)
    (o : Coro.Outcome (List ChannelRequest) σ Unit) : Prop where
  returns : o.result = .ok ()
  hears : List.Forall₂ (fun raw asked => ∀ command, asked = some command ↔
    Readable channel raw ∧ Asks channel raw command) read asked
  invokes : invoked o.outside = invoked made ++ asked.reduceOption
  records : (Part.view o.memory : ClientState) =
    lines.foldl ClientState.recordAudit (Part.view s)
  decent : ∀ raw ∈ read.dropLast, Decent channel raw
  /-- Only a message that raises ends the reading. -/
  ends : (∀ made line, replies made (.broadcast line) = .ok ()) →
    unread = [] ∨ ∃ last ∈ read.getLast?, ¬ Decent channel last

end Session

end Binbot.CommandChannel
