import Binbot.Machine.Run
import Binbot.Scripts.LiveInterface

/-!
# Restarts of a session

A session that persists after every change can be restarted on its own date at any
point: the recovered breaker goes on as the old one would have. The clock may move in
any way; only the date at a restart matters.
-/
namespace Binbot

open Async Data

namespace DrawdownCircuitBreaker

variable {b c : DrawdownCircuitBreaker}

/-- Breakers that only differ in the flag that no snapshot holds. -/
structure Same (b c : DrawdownCircuitBreaker) : Prop where
  limit : b.maxDailyDrawdownPct = c.maxDailyDrawdownPct
  snapshot : b.snapshot = c.snapshot

theorem Same.exists_flag (same : Same b c) : ∃ flag, c = { b with autoResetPending := flag } := by
  obtain ⟨limit, snapshot⟩ := same
  rcases b with ⟨_, _, _, _, _, _, _, _, _⟩
  rcases c with ⟨_, _, _, _, _, _, flag, _, _⟩
  simp only [DrawdownCircuitBreaker.snapshot, Saved.mk.injEq] at limit snapshot
  obtain ⟨rfl, rfl, rfl, rfl, rfl⟩ := snapshot
  subst limit
  exact ⟨flag, rfl⟩

/-- The flag has no part in an update. -/
theorem Same.update (same : Same b c) (equity : ℚ) (now : Timestamp) :
    Same (b.update equity now).1 (c.update equity now).1 ∧
      (b.update equity now).2 = (c.update equity now).2 := by
  obtain ⟨flag, rfl⟩ := same.exists_flag
  unfold DrawdownCircuitBreaker.update DrawdownCircuitBreaker.updateIn
  split
  · exact ⟨⟨rfl, rfl⟩, rfl⟩
  · dsimp only
    split
    · exact ⟨⟨rfl, rfl⟩, rfl⟩
    · split
      · exact ⟨⟨rfl, rfl⟩, rfl⟩
      · split
        · exact ⟨⟨rfl, rfl⟩, rfl⟩
        · exact ⟨⟨rfl, rfl⟩, rfl⟩

theorem Same.forceHalt (same : Same b c) (reason : String) :
    Same (b.forceHalt reason) (c.forceHalt reason) := by
  obtain ⟨flag, rfl⟩ := same.exists_flag
  exact ⟨rfl, rfl⟩

theorem Same.resetSession (same : Same b c) (equity : ℚ) (date : Date) :
    Same (b.resetSession equity date) (c.resetSession equity date) := ⟨same.limit, rfl⟩

/-- What was saved is what `restore` brings back, on any breaker of the same limit. -/
theorem same_restore (limit : b.maxDailyDrawdownPct = c.maxDailyDrawdownPct) :
    Same (b.restore c.snapshot) c := ⟨limit, rfl⟩

end DrawdownCircuitBreaker

/-- What happens to a process that persists its session after every change. -/
inductive RestartAct where
  | clock (clock : Clock)
  | update (equity : ℚ)
  | forceHalt (reason : String)
  | resetSession (equity : ℚ)
  /-- A new process constructs its engine and breaker, and recovers. -/
  | restart (engine : RiskEngine) (startingEquity : ℚ) (book : Dict Symbol ℤ) (equity : ℚ)

def RestartAct.isRestart : RestartAct → Bool
  | .restart _ _ _ _ => true
  | _ => false

namespace LiveParams

variable {F : Type} (p : LiveParams F)

/-- The broker's answers to a recovery. -/
def account (book : Dict Symbol ℤ) (equity : ℚ) : LiveReply
  | .accountEquity => .ok equity
  | .positions => .ok book
  | _ => .error "not asked"

@[simp] theorem account_positions (book : Dict Symbol ℤ) (equity : ℚ) :
    account book equity .positions = .ok book := rfl

@[simp] theorem account_accountEquity (book : Dict Symbol ℤ) (equity : ℚ) :
    account book equity .accountEquity = .ok equity := rfl

/-- Run a program against fixed answers. -/
def runOn {α : Type} (reply : LiveReply) (c : Coro (Process F) liveSig α) (m : Process F) :
    Coro.Outcome Unit (Process F) α := c.exec (fun w q => (reply q, w)) () m

/-- `recover()`. -/
def recovered (book : Dict Symbol ℤ) (equity : ℚ) (m : Process F) : Process F :=
  (runOn (account book equity) p.scanner.recovery.recover m).memory

def persisted (m : Process F) : Process F :=
  (runOn (account .empty 0) p.scanner.recovery.persist m).memory

/-- What a restarted process has before it recovers: a new engine around a new breaker
of the same limit, and the state file. -/
def booted (engine : RiskEngine) (startingEquity : ℚ) (m : Process F) : Except String (Process F) := do
  let breaker ← DrawdownCircuitBreaker.create m.riskEngine.circuitBreaker.maxDailyDrawdownPct
    startingEquity m.clock.now.date
  pure
    { riskEngine := { engine with circuitBreaker := breaker }
      clock := m.clock
      stateFile := m.stateFile
      scanner := ⟨false, .empty, .empty⟩ }

/-- A process, the date of the session it last persisted, and what each update has
returned so far. -/
structure Lifetime (F : Type) where
  process : Process F
  persisted : Option Date := none
  returned : List (Except String Bool) := []

namespace Lifetime

/-- The process has changed and persists. -/
def persist (s : Lifetime F) (m : Process F) : Lifetime F :=
  { s with
    process := p.persisted m
    persisted := some m.riskEngine.circuitBreaker.sessionDate }

def step (s : Lifetime F) : RestartAct → Option (Lifetime F)
  | .clock clock => some { s with process := { s.process with clock := clock } }
  | .update equity =>
    let outcome := runOn (account .empty 0) (LiveScanner.updateBreaker equity) s.process
    some { persist p s outcome.memory with returned := s.returned ++ [outcome.result] }
  | .forceHalt reason =>
    let engine := s.process.riskEngine
    some (persist p s { s.process with riskEngine :=
      { engine with circuitBreaker := engine.circuitBreaker.forceHalt reason } })
  | .resetSession equity =>
    let engine := s.process.riskEngine
    some (persist p s { s.process with riskEngine :=
      { engine with
        circuitBreaker := engine.circuitBreaker.resetSession equity s.process.clock.now.date } })
  | .restart engine startingEquity book equity =>
    match booted engine startingEquity s.process with
    | .ok m => some { s with process := p.recovered book equity m }
    | .error _ => none

/-- Restarts happen on the date of the session that was last persisted. -/
def SameDate (s : Lifetime F) : RestartAct → Prop
  | .restart _ _ _ _ => s.persisted = some s.process.clock.now.date
  | _ => True

instance (s : Lifetime F) : (act : RestartAct) → Decidable (s.SameDate act)
  | .restart _ _ _ _ => inferInstanceAs (Decidable (_ = _))
  | .clock _ => .isTrue trivial
  | .update _ => .isTrue trivial
  | .forceHalt _ => .isTrue trivial
  | .resetSession _ => .isTrue trivial

end Lifetime

/-! ## What the programs do -/

theorem persisted_eq (m : Process F) : p.persisted m = { m with stateFile :=
    ⟨some (p.format.write ⟨m.riskEngine.circuitBreaker.snapshot, p.environmentId⟩)⟩ } := rfl

theorem updateBreaker_spec (reply : LiveReply) (equity : ℚ) (m : Process F) :
    let updated := m.riskEngine.circuitBreaker.update equity m.clock.now
    runOn reply (LiveScanner.updateBreaker equity) m =
      ⟨updated.2, (), { m with riskEngine := { m.riskEngine with circuitBreaker := updated.1 } }⟩ := by
  simp only [runOn, LiveScanner.updateBreaker, Coro.exec_bind, Coro.exec_view, Coro.exec_update,
    Coro.Outcome.andThen_ok, Process.view_riskEngine, Process.view_clock, Process.set_riskEngine]
  split
  next tripped returned => rw [returned]; rfl
  next e raised => rw [raised]; rfl

/-- The session that recovery ends in, of what the file holds. -/
def recoveredBreaker (snapshot : Option SessionSnapshot) (equity : ℚ) (today : Date)
    (b : DrawdownCircuitBreaker) : DrawdownCircuitBreaker :=
  match snapshot.filter fun s => s.session.sessionDate = today ∧ s.environmentId = p.environmentId with
  | some saved => b.restore { saved.session with sessionDate := today }
  | none => b.resetSession equity today

/-- Whether recovery says that it has restored what the file holds. -/
def restoredFromDisk (snapshot : Option SessionSnapshot) (today : Date) : Bool :=
  (snapshot.filter fun s =>
    s.session.sessionDate = today ∧ s.environmentId = p.environmentId).isSome

/-- What the reader makes of the file. -/
def readFile (file : StateFile F) : Except String (Option SessionSnapshot) :=
  match file.contents with
  | none => .ok none
  | some text => p.format.read text

theorem readSnapshot_spec (reply : LiveReply) (m : Process F) :
    runOn reply p.scanner.recovery.readSnapshot m = ⟨p.readFile m.stateFile, (), m⟩ := by
  simp only [runOn, StateRecoveryService.readSnapshot, Coro.exec_bind, Coro.exec_view,
    Coro.Outcome.andThen_ok, Process.view_stateFile, readFile]
  cases m.stateFile.contents with
  | none => rfl
  | some text =>
    simp only [scanner]
    cases p.format.read text with
    | ok snapshot => rfl
    | error e => rfl

/-- The session is restored from the file, or starts afresh. -/
theorem restoreCircuitBreaker_spec (reply : LiveReply) (equity : ℚ) (m : Process F)
    {snapshot : Option SessionSnapshot} (read : p.readFile m.stateFile = .ok snapshot) :
    runOn reply (p.scanner.recovery.restoreCircuitBreaker equity) m =
      ⟨.ok (p.restoredFromDisk snapshot m.clock.now.date), (),
        { m with riskEngine := { m.riskEngine with
          circuitBreaker :=
            p.recoveredBreaker snapshot equity m.clock.now.date m.riskEngine.circuitBreaker } }⟩ := by
  have spec := p.readSnapshot_spec reply m
  rw [read] at spec
  rw [runOn] at spec
  simp only [runOn, StateRecoveryService.restoreCircuitBreaker, Coro.exec_bind, spec,
    Coro.Outcome.andThen_ok, Coro.exec_view, Process.view_clock, recoveredBreaker, restoredFromDisk]
  have service : p.scanner.recovery.environmentId = p.environmentId := rfl
  rw [service]
  cases snapshot.filter fun s =>
      s.session.sessionDate = m.clock.now.date ∧ s.environmentId = p.environmentId with
  | some saved => rfl
  | none => rfl

/-- Recovery with a file that the reader does not raise on. -/
theorem recover_spec (book : Dict Symbol ℤ) (equity : ℚ) (m : Process F)
    {snapshot : Option SessionSnapshot} (read : p.readFile m.stateFile = .ok snapshot) :
    let breaker :=
      p.recoveredBreaker snapshot equity m.clock.now.date m.riskEngine.circuitBreaker
    runOn (account book equity) p.scanner.recovery.recover m =
      ⟨.ok ⟨book, equity, p.restoredFromDisk snapshot m.clock.now.date, breaker.isHalted⟩, (),
        p.persisted { m with riskEngine :=
          { m.riskEngine.updatePositions book with circuitBreaker := breaker } }⟩ := by
  have counted : (m.riskEngine.updatePositions book).circuitBreaker = m.riskEngine.circuitBreaker := by
    rw [RiskEngine.updatePositions_eq]
  have spec := p.restoreCircuitBreaker_spec (account book equity) equity
    { m with riskEngine := m.riskEngine.updatePositions book } read
  rw [runOn, counted] at spec
  have asked : p.scanner.recovery.broker = liveBroker := rfl
  rw [runOn, StateRecoveryService.recover, asked]
  simp only [liveBroker, Coro.exec_bind, Coro.exec_request, account_positions,
    account_accountEquity, Coro.Outcome.andThen_ok,
    Coro.exec_update, Process.view_riskEngine, Process.set_riskEngine, spec]
  rfl

theorem recovered_spec (book : Dict Symbol ℤ) (equity : ℚ) (m : Process F)
    {snapshot : Option SessionSnapshot} (read : p.readFile m.stateFile = .ok snapshot) :
    p.recovered book equity m = p.persisted
      { m with riskEngine := { m.riskEngine.updatePositions book with
        circuitBreaker :=
          p.recoveredBreaker snapshot equity m.clock.now.date m.riskEngine.circuitBreaker } } := by
  rw [recovered, p.recover_spec book equity m read]

/-- A file that the reader raises on ends the recovery before anything is restored. -/
theorem recover_raised (book : Dict Symbol ℤ) (equity : ℚ) (m : Process F) {e : String}
    (raised : p.readFile m.stateFile = .error e) :
    runOn (account book equity) p.scanner.recovery.recover m =
      ⟨.error e, (), { m with riskEngine := m.riskEngine.updatePositions book }⟩ := by
  have spec := p.readSnapshot_spec (account book equity)
    { m with riskEngine := m.riskEngine.updatePositions book }
  rw [raised, runOn] at spec
  have asked : p.scanner.recovery.broker = liveBroker := rfl
  rw [runOn, StateRecoveryService.recover, asked]
  simp only [liveBroker, Coro.exec_bind, Coro.exec_request, account_positions,
    account_accountEquity, Coro.Outcome.andThen_ok,
    Coro.exec_update, Process.view_riskEngine, Process.set_riskEngine,
    StateRecoveryService.restoreCircuitBreaker, spec, Coro.Outcome.andThen_error]

theorem recovered_raised (book : Dict Symbol ℤ) (equity : ℚ) (m : Process F) {e : String}
    (raised : p.readFile m.stateFile = .error e) :
    p.recovered book equity m = { m with riskEngine := m.riskEngine.updatePositions book } := by
  rw [recovered, p.recover_raised book equity m raised]

/-- A file that holds a session of today and of this environment brings it back. -/
theorem recoveredBreaker_restores {snapshot : SessionSnapshot} {today : Date}
    (date : snapshot.session.sessionDate = today) (own : snapshot.environmentId = p.environmentId)
    (equity : ℚ) (b : DrawdownCircuitBreaker) :
    p.recoveredBreaker (some snapshot) equity today b = b.restore snapshot.session := by
  have taken : snapshot.session.sessionDate = today ∧ snapshot.environmentId = p.environmentId :=
    ⟨date, own⟩
  subst date
  simp [recoveredBreaker, Option.filter, taken.2]

/-- Any other file starts a fresh session. -/
theorem recoveredBreaker_fresh {snapshot : SessionSnapshot} {today : Date}
    (other : snapshot.session.sessionDate ≠ today ∨ snapshot.environmentId ≠ p.environmentId)
    (equity : ℚ) (b : DrawdownCircuitBreaker) :
    p.recoveredBreaker (some snapshot) equity today b = b.resetSession equity today := by
  have rejected : ¬ (snapshot.session.sessionDate = today ∧
      snapshot.environmentId = p.environmentId) := by tauto
  simp [recoveredBreaker, Option.filter, rejected]

theorem restoredFromDisk_some {snapshot : SessionSnapshot} {today : Date} :
    p.restoredFromDisk (some snapshot) today = true ↔
      snapshot.session.sessionDate = today ∧ snapshot.environmentId = p.environmentId := by
  simp [restoredFromDisk]

/-- Either way the session is today's. -/
theorem recoveredBreaker_date (snapshot : Option SessionSnapshot) (equity : ℚ) (today : Date)
    (b : DrawdownCircuitBreaker) :
    (p.recoveredBreaker snapshot equity today b).sessionDate = today := by
  rw [recoveredBreaker]
  split
  · rfl
  · rfl

/-! ## The two runs -/

/-- The state file round-trips what is written. -/
def RoundTrips : Prop := ∀ snapshot, p.format.read (p.format.write snapshot) = .ok (some snapshot)

variable {p}

/-- A second recovery of the same day changes neither the breaker nor the file. -/
theorem recovered_twice (roundTrips : p.RoundTrips) (m : Process F) (book book' : Dict Symbol ℤ)
    (equity equity' : ℚ) :
    let once := p.recovered book equity m
    (p.recovered book' equity' once).riskEngine.circuitBreaker = once.riskEngine.circuitBreaker ∧
      (p.recovered book' equity' once).stateFile = once.stateFile := by
  intro once
  cases read : p.readFile m.stateFile with
  | error e =>
    have first : once = _ := p.recovered_raised book equity m read
    rw [first, p.recovered_raised book' equity'
      { m with riskEngine := m.riskEngine.updatePositions book } read]
    simp only [RiskEngine.updatePositions_eq, and_self]
  | ok snapshot =>
    have first : once = _ := p.recovered_spec book equity m read
    rw [first]
    generalize result : p.recoveredBreaker snapshot equity m.clock.now.date
      m.riskEngine.circuitBreaker = b
    have date : b.sessionDate = m.clock.now.date := by
      rw [← result]
      exact p.recoveredBreaker_date _ _ _ _
    have again : p.recoveredBreaker (some ⟨b.snapshot, p.environmentId⟩) equity' m.clock.now.date b =
        b := p.recoveredBreaker_restores date rfl equity' b
    -- the first recovery has written what the second reads
    have written : p.readFile
        ⟨some (p.format.write ⟨b.snapshot, p.environmentId⟩)⟩ =
          .ok (some ⟨b.snapshot, p.environmentId⟩) := roundTrips _
    simp only [persisted_eq]
    rw [p.recovered_spec book' equity' _ written]
    simp only [persisted_eq, RiskEngine.updatePositions_eq, again, and_self]

namespace Lifetime

/-- The file holds the session that was last persisted, and that is the breaker's. -/
def OnFile (s : Lifetime F) : Prop :=
  ∀ date, s.persisted = some date →
    s.process.riskEngine.circuitBreaker.sessionDate = date ∧
      s.process.stateFile.contents = some (p.format.write
        ⟨s.process.riskEngine.circuitBreaker.snapshot, p.environmentId⟩)

/-- Two lifetimes with the same clock, session and returned values. -/
structure Agree (s t : Lifetime F) : Prop where
  clock : s.process.clock = t.process.clock
  breaker : s.process.riskEngine.circuitBreaker.Same t.process.riskEngine.circuitBreaker
  persisted : s.persisted = t.persisted
  returned : s.returned = t.returned

theorem onFile_persist (s : Lifetime F) (m : Process F) : OnFile (p := p) (s.persist p m) := by
  rintro date same
  cases same
  exact ⟨rfl, rfl⟩

/-- Anything but a restart keeps two lifetimes together. -/
theorem Agree.step {s s' t : Lifetime F} {act : RestartAct} (agree : Agree s t)
    (plain : act.isRestart = false) (moved : s.step p act = some s') :
    ∃ t', t.step p act = some t' ∧ Agree s' t' := by
  cases act with
  | clock clock =>
    cases moved
    exact ⟨_, rfl, rfl, agree.breaker, agree.persisted, agree.returned⟩
  | update equity =>
    simp only [Lifetime.step, updateBreaker_spec] at moved ⊢
    cases moved
    refine ⟨_, rfl, agree.clock, ?_, ?_, ?_⟩
    · rw [← agree.clock]
      exact (agree.breaker.update equity _).1
    · rw [← agree.clock]
      have same := (agree.breaker.update equity s.process.clock.now).1.snapshot
      exact congrArg (fun saved => some saved.sessionDate) same
    · rw [← agree.clock]
      have same := (agree.breaker.update equity s.process.clock.now).2
      exact congrArg₂ (fun past last => past ++ [last]) agree.returned same
  | forceHalt reason =>
    cases moved
    refine ⟨_, rfl, agree.clock, agree.breaker.forceHalt reason, ?_, agree.returned⟩
    exact congrArg (fun saved => some saved.sessionDate) agree.breaker.snapshot
  | resetSession equity =>
    cases moved
    refine ⟨_, rfl, agree.clock, ?_, ?_, agree.returned⟩
    · rw [← agree.clock]
      exact agree.breaker.resetSession equity _
    · exact congrArg (fun clock : Clock => some clock.now.date) agree.clock
  | restart engine startingEquity book equity => cases plain

/-- A restart on the session's date changes nothing that the next steps read. -/
theorem Agree.restart (roundTrips : p.RoundTrips) {s s' t : Lifetime F} {act : RestartAct}
    (agree : Agree s t) (onFile : OnFile (p := p) s) (again : act.isRestart = true)
    (sameDate : s.SameDate act) (moved : s.step p act = some s') :
    Agree s' t ∧ OnFile (p := p) s' := by
  cases act with
  | restart engine startingEquity book equity =>
    obtain ⟨date, contents⟩ := onFile _ sameDate
    simp only [Lifetime.step] at moved
    split at moved
    next m booting =>
      cases moved
      cases created : DrawdownCircuitBreaker.create
          s.process.riskEngine.circuitBreaker.maxDailyDrawdownPct startingEquity
          s.process.clock.now.date with
      | error e =>
        rw [booted, created] at booting
        cases booting
      | ok fresh =>
        rw [booted, created] at booting
        cases booting
        have limit := (DrawdownCircuitBreaker.create_ok created).2.1
        -- the file holds this breaker, which the new one is restored to
        have read : p.readFile s.process.stateFile =
            .ok (some ⟨s.process.riskEngine.circuitBreaker.snapshot, p.environmentId⟩) := by
          simp only [readFile, contents]
          exact roundTrips _
        have back := p.recovered_spec book equity
          { riskEngine := { engine with circuitBreaker := fresh }
            clock := s.process.clock
            stateFile := s.process.stateFile
            scanner := ⟨false, .empty, .empty⟩ } read
        rw [p.recoveredBreaker_restores date rfl] at back
        have same := DrawdownCircuitBreaker.same_restore limit
        constructor
        · simp only [back]
          refine ⟨agree.clock, ?_, agree.persisted, agree.returned⟩
          exact ⟨same.limit.trans agree.breaker.limit, same.snapshot.trans agree.breaker.snapshot⟩
        · simp only [back]
          intro day recorded
          refine ⟨?_, rfl⟩
          rw [← (onFile day recorded).1]
          rfl
    · cases moved
  | _ => cases again

theorem OnFile.step {s s' : Lifetime F} {act : RestartAct} (onFile : OnFile (p := p) s)
    (plain : act.isRestart = false) (moved : s.step p act = some s') : OnFile (p := p) s' := by
  cases act with
  | clock clock =>
    cases moved
    exact onFile
  | update equity =>
    cases moved
    exact onFile_persist s _
  | forceHalt reason =>
    cases moved
    exact onFile_persist s _
  | resetSession equity =>
    cases moved
    exact onFile_persist s _
  | restart engine startingEquity book equity => cases plain

/-- A run with restarts, and the same run without them. -/
theorem agree_run (roundTrips : p.RoundTrips) {s s' t : Lifetime F} (acts : List RestartAct)
    (agree : Agree s t) (onFile : OnFile (p := p) s)
    (meets : Machine.Meets (Lifetime.step p) SameDate s acts)
    (reached : Machine.run (Lifetime.step p) s acts = some s') :
    ∃ t', Machine.run (Lifetime.step p) t (acts.filter fun act => !act.isRestart) = some t' ∧
      Agree s' t' := by
  induction acts generalizing s t with
  | nil =>
    cases reached
    exact ⟨t, rfl, agree⟩
  | cons act rest ih =>
    rw [Machine.run_cons, Option.bind_eq_some_iff] at reached
    obtain ⟨u, moved, later⟩ := reached
    cases kind : act.isRestart with
    | true =>
      -- the other run does nothing
      obtain ⟨together, kept⟩ := agree.restart roundTrips onFile kind meets.1 moved
      rw [List.filter_cons_of_neg (by simp [kind])]
      exact ih together kept (meets.2 u moved) later
    | false =>
      obtain ⟨v, same, together⟩ := agree.step kind moved
      rw [List.filter_cons_of_pos (by simp [kind]), Machine.run_cons, same]
      exact ih together (onFile.step kind moved) (meets.2 u moved) later

end Lifetime

/-- Restarts are transparent. With any restarts on the date of the last persisted session,
every run has the session and the returned values of the run without them; a second
recovery changes nothing; and a file of another date or environment starts a fresh
session from the current equity. -/
theorem restarts_transparent (roundTrips : p.RoundTrips) :
    (∀ (m : Process F) (acts : List RestartAct) (s : Lifetime F),
      Machine.Meets (Lifetime.step p) Lifetime.SameDate ⟨m, none, []⟩ acts →
      Machine.run (Lifetime.step p) ⟨m, none, []⟩ acts = some s →
      ∃ t, Machine.run (Lifetime.step p) ⟨m, none, []⟩
          (acts.filter fun act => !act.isRestart) = some t ∧
        s.process.riskEngine.circuitBreaker.snapshot = t.process.riskEngine.circuitBreaker.snapshot ∧
        s.returned = t.returned) ∧
    (∀ (m : Process F) book equity book' equity',
      let once := p.recovered book equity m
      (p.recovered book' equity' once).riskEngine.circuitBreaker = once.riskEngine.circuitBreaker ∧
        (p.recovered book' equity' once).stateFile = once.stateFile) ∧
    ∀ (m : Process F) book equity snapshot,
      m.stateFile.contents = some (p.format.write snapshot) →
      snapshot.session.sessionDate ≠ m.clock.now.date ∨ snapshot.environmentId ≠ p.environmentId →
      (p.recovered book equity m).riskEngine.circuitBreaker.snapshot =
        ⟨m.clock.now.date, equity, equity, false, ""⟩ := by
  refine ⟨?_, ?_, ?_⟩
  · intro m acts s meets reached
    have start : Lifetime.Agree (F := F) ⟨m, none, []⟩ ⟨m, none, []⟩ := ⟨rfl, ⟨rfl, rfl⟩, rfl, rfl⟩
    have unfiled : Lifetime.OnFile (p := p) ⟨m, none, []⟩ := fun date none => by cases none
    obtain ⟨t, same, agree⟩ := Lifetime.agree_run roundTrips acts start unfiled meets reached
    exact ⟨t, same, agree.breaker.snapshot, agree.returned⟩
  · intro m book equity book' equity'
    exact recovered_twice roundTrips m book book' equity equity'
  · intro m book equity snapshot contents other
    have read : p.readFile m.stateFile = .ok (some snapshot) := by
      simp only [readFile, contents]
      exact roundTrips snapshot
    rw [p.recovered_spec book equity m read, p.recoveredBreaker_fresh other]
    rfl

/-- Down from 1 to 1/2, which trips; restarted; and read again. -/
def trippedThenRestarted : List RestartAct :=
  [.update (1 / 2), .restart demoProcess.riskEngine 7 .empty 3, .update 3]

/-- The halt is there after the restart, as without it. -/
theorem restarts_transparent_tripped : ∃ s t : Lifetime SessionSnapshot,
    Machine.run (Lifetime.step demo) ⟨demoProcess, none, []⟩ trippedThenRestarted = some s ∧
      Machine.run (Lifetime.step demo) ⟨demoProcess, none, []⟩ [.update (1 / 2), .update 3] = some t ∧
      s.process.riskEngine.circuitBreaker.snapshot = t.process.riskEngine.circuitBreaker.snapshot ∧
      s.returned = t.returned ∧ s.process.halted = true := by
  have ends : (Machine.run (Lifetime.step demo) ⟨demoProcess, none, []⟩ trippedThenRestarted).map
      (fun s => s.process.halted) = some true := by decide +kernel
  obtain ⟨s, reached, halted⟩ := Option.map_eq_some_iff.mp ends
  have transparent := (restarts_transparent (p := demo) fun _ => rfl).1
  obtain ⟨t, same, session, returned⟩ := transparent demoProcess trippedThenRestarted s
    (by decide +kernel) reached
  exact ⟨s, t, reached, same, session, returned, halted⟩

end LiveParams

end Binbot
