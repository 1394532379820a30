import Binbot.Properties.RestartTransparency

/-!
# Switching accounts (`utils/state_recovery.py`, `scripts/run_live_binance_scanner.py`)

Processes of any accounts run one after the other on one state file. A session only ever rests
on readings of its own account, of its own day, and only its own halts are inherited.
-/
namespace Binbot

open Async Data

/-- The Binance settings that a process is started with. -/
structure Account where
  testnet : Bool
  apiKey : String
  deriving DecidableEq

/-- `environment_id`; `fingerprint` is the start of the key's SHA-256 digest. -/
def Account.environmentId (fingerprint : String → String) (a : Account) : String :=
  (if a.testnet then "testnet" else "live") ++ ":" ++ fingerprint a.apiKey

/-- The same network, and keys of the same fingerprint. -/
def Account.Same (fingerprint : String → String) (a b : Account) : Prop :=
  a.testnet = b.testnet ∧ fingerprint a.apiKey = fingerprint b.apiKey

/-- The machine that the processes run on, one at a time: its clock and state file are those of
`process`. What they have read of their accounts, and which sessions were halted. -/
structure Host (F : Type) where
  process : Process F
  running : Option Account := none
  readings : List (Account × Date × ℚ) := []
  halts : List (Account × Date) := []

inductive HostAct (F : Type) where
  | clock (clock : Clock)
  /-- The file is lost or damaged. -/
  | damage (contents : Option F)
  | boot (account : Account) (limit : ℚ) (engine : RiskEngine) (book : Dict Symbol ℤ) (equity : ℚ)
  | update (equity : ℚ)
  | forceHalt (reason : String)
  | resetSession (equity : ℚ)
  | persist
  | crash

namespace Host

variable {F : Type} (p : LiveParams F) (fingerprint : String → String)

/-- The deployment, with the credentials of an account. -/
def on (account : Account) : LiveParams F :=
  { p with environmentId := account.environmentId fingerprint }

/-- A new process before it recovers. -/
def constructed (breaker : DrawdownCircuitBreaker) (engine : RiskEngine) (m : Process F) :
    Process F where
  riskEngine := { engine with circuitBreaker := breaker }
  clock := m.clock
  stateFile := m.stateFile
  scanner := ⟨false, .empty, .empty⟩

/-- `main` up to the end of the recovery: a breaker of equity 1, and what recovery makes of it. -/
def boot (account : Account) (limit : ℚ) (engine : RiskEngine) (book : Dict Symbol ℤ) (equity : ℚ)
    (m : Process F) : Except String (Process F) := do
  let breaker ← DrawdownCircuitBreaker.create limit 1 m.clock.now.date
  let outcome := LiveParams.runOn (LiveParams.account book equity)
    (on p fingerprint account).scanner.recovery.recover (constructed breaker engine m)
  let _ ← outcome.result
  pure outcome.memory

/-- The running process goes on with this breaker. -/
def withBreaker (h : Host F) (b : DrawdownCircuitBreaker) : Host F :=
  { h with process := { h.process with riskEngine :=
    { h.process.riskEngine with circuitBreaker := b } } }

def step (h : Host F) : HostAct F → Option (Host F)
  | .clock clock => some { h with process := { h.process with clock := clock } }
  | .damage contents =>
    match contents.map p.format.read with
    | none | some (.ok none) => some { h with process := { h.process with stateFile := ⟨contents⟩ } }
    | some (.ok (some _)) | some (.error _) => none
  | .boot account limit engine book equity =>
    match boot p fingerprint account limit engine book equity h.process with
    | .error _ => some { h with running := none }
    | .ok m => some
        { h with
          process := m
          running := some account
          readings := (account, m.clock.now.date, equity) :: h.readings }
  | .update equity => h.running.map fun account =>
    let breaker := h.process.riskEngine.circuitBreaker.update equity h.process.clock.now
    { h.withBreaker breaker.1 with
      readings := (account, h.process.clock.now.date, equity) :: h.readings
      halts := if breaker.2 = .ok true then (account, breaker.1.sessionDate) :: h.halts else h.halts }
  | .forceHalt reason => h.running.map fun account =>
    { h.withBreaker (h.process.riskEngine.circuitBreaker.forceHalt reason) with
      halts := (account, h.process.riskEngine.circuitBreaker.sessionDate) :: h.halts }
  | .resetSession equity => h.running.map fun account =>
    { h.withBreaker
        (h.process.riskEngine.circuitBreaker.resetSession equity h.process.clock.now.date) with
      readings := (account, h.process.clock.now.date, equity) :: h.readings }
  | .persist => h.running.map fun account =>
    { h with process := (on p fingerprint account).persisted h.process }
  | .crash => some { h with running := none }

/-- The session rests on readings that accounts of this environment made on its day, and is
halted only if they halted it. -/
structure RestsOn (readings : List (Account × Date × ℚ)) (halts : List (Account × Date))
    (id : String) (saved : DrawdownCircuitBreaker.Saved) : Prop where
  start : ∃ a, a.environmentId fingerprint = id ∧
    (a, saved.sessionDate, saved.startingEquity) ∈ readings
  peak : ∃ a, a.environmentId fingerprint = id ∧ (a, saved.sessionDate, saved.peakEquity) ∈ readings
  halted : saved.halted = true → ∃ a, a.environmentId fingerprint = id ∧ (a, saved.sessionDate) ∈ halts

/-- So does the session of the running process, and any session in the file. -/
structure Inv (h : Host F) : Prop where
  session : ∀ a, h.running = some a → RestsOn fingerprint h.readings h.halts
    (a.environmentId fingerprint) h.process.riskEngine.circuitBreaker.snapshot
  file : ∀ text snapshot, h.process.stateFile.contents = some text →
    p.format.read text = .ok (some snapshot) →
      RestsOn fingerprint h.readings h.halts snapshot.environmentId snapshot.session

variable {p} {fingerprint} {h h' : Host F}

/-- More readings and halts do no harm. -/
theorem RestsOn.mono {readings readings' : List (Account × Date × ℚ)}
    {halts halts' : List (Account × Date)} {id : String} {saved : DrawdownCircuitBreaker.Saved}
    (rests : RestsOn fingerprint readings halts id saved) (more : readings ⊆ readings')
    (moreHalts : halts ⊆ halts') : RestsOn fingerprint readings' halts' id saved := by
  obtain ⟨⟨a, own, read⟩, ⟨b, own', read'⟩, halted⟩ := rests
  refine ⟨⟨a, own, more read⟩, ⟨b, own', more read'⟩, fun isHalted => ?_⟩
  obtain ⟨c, own'', halts⟩ := halted isHalted
  exact ⟨c, own'', moreHalts halts⟩

/-- A session that starts at a reading rests on it. -/
theorem RestsOn.fresh (a : Account) (b : DrawdownCircuitBreaker) (date : Date) (equity : ℚ)
    (readings : List (Account × Date × ℚ)) (halts : List (Account × Date)) :
    RestsOn fingerprint ((a, date, equity) :: readings) halts (a.environmentId fingerprint)
      (b.resetSession equity date).snapshot := by
  constructor
  · exact ⟨a, rfl, List.mem_cons_self⟩
  · exact ⟨a, rfl, List.mem_cons_self⟩
  · intro halted
    cases halted

/-- An update halts nothing without saying so. -/
theorem halted_or_tripped {b : DrawdownCircuitBreaker} {equity : ℚ} {now : Timestamp}
    (halted : (b.update equity now).1.halted = true) :
    b.halted = true ∨ (b.update equity now).2 = .ok true := by
  cases before : b.halted with
  | true => exact .inl rfl
  | false =>
    right
    unfold DrawdownCircuitBreaker.update DrawdownCircuitBreaker.updateIn at halted ⊢
    split at halted
    · cases halted
    next today =>
      rw [if_neg today]
      simp only [before, Bool.false_eq_true, if_false] at halted ⊢
      split at halted
      · simp at halted
      next divides =>
        rw [if_neg divides]
        split at halted
        next deep => rw [if_pos deep]
        · simp at halted

/-- A reading goes into the session of its own account. -/
theorem RestsOn.update {a : Account} {b : DrawdownCircuitBreaker}
    (rests : RestsOn fingerprint h.readings h.halts (a.environmentId fingerprint) b.snapshot)
    (equity : ℚ) (now : Timestamp) :
    RestsOn fingerprint ((a, now.date, equity) :: h.readings)
      (if (b.update equity now).2 = .ok true then (a, (b.update equity now).1.sessionDate) :: h.halts
        else h.halts)
      (a.environmentId fingerprint) (b.update equity now).1.snapshot := by
  by_cases today : now.date = b.sessionDate
  · obtain ⟨date, start, peak⟩ := b.update_session equity now today
    obtain ⟨⟨c, own, read⟩, ⟨d, own', read'⟩, halted⟩ := rests
    refine ⟨⟨c, own, ?_⟩, ?_, ?_⟩
    · simp only [DrawdownCircuitBreaker.snapshot, date, start] at read ⊢
      exact List.mem_cons_of_mem _ read
    · -- the peak is the old one, or this reading
      simp only [DrawdownCircuitBreaker.snapshot, date, peak]
      rcases max_choice b.peakEquity equity with old | new
      · rw [old]
        exact ⟨d, own', List.mem_cons_of_mem _ read'⟩
      · rw [new, ← today]
        exact ⟨a, rfl, List.mem_cons_self⟩
    · intro isHalted
      rcases halted_or_tripped isHalted with before | trips
      · obtain ⟨c, own, recorded⟩ := halted before
        simp only [DrawdownCircuitBreaker.snapshot, date] at recorded ⊢
        refine ⟨c, own, ?_⟩
        split
        · exact List.mem_cons_of_mem _ recorded
        · exact recorded
      · rw [if_pos trips]
        exact ⟨a, rfl, List.mem_cons_self⟩
  · rw [b.update_otherDay equity now today]
    exact RestsOn.fresh a b now.date equity h.readings h.halts

/-- A boot ends in the session that recovery makes of the file, and writes it back. -/
theorem boot_ok {account : Account} {limit equity : ℚ} {engine : RiskEngine} {book : Dict Symbol ℤ}
    {m m' : Process F} (booted : boot p fingerprint account limit engine book equity m = .ok m') :
    ∃ snapshot breaker, p.readFile m.stateFile = .ok snapshot ∧
      m'.clock = m.clock ∧
      m'.riskEngine.circuitBreaker = (on p fingerprint account).recoveredBreaker snapshot equity
        m.clock.now.date breaker ∧
      m'.stateFile.contents = some (p.format.write
        ⟨m'.riskEngine.circuitBreaker.snapshot, account.environmentId fingerprint⟩) := by
  rw [boot] at booted
  cases created : DrawdownCircuitBreaker.create limit 1 m.clock.now.date with
  | error message =>
    rw [created] at booted
    cases booted
  | ok breaker =>
    rw [created] at booted
    simp only [bind, Except.bind] at booted
    cases read : p.readFile m.stateFile with
    | error e =>
      have raised := (on p fingerprint account).recover_raised book equity
        (constructed breaker engine m) read
      rw [raised] at booted
      cases booted
    | ok snapshot =>
      have recovers := (on p fingerprint account).recover_spec book equity
        (constructed breaker engine m) read
      rw [recovers] at booted
      cases booted
      exact ⟨snapshot, breaker, rfl, rfl, rfl, rfl⟩

/-- What recovery comes up with rests on the account's own readings. -/
theorem restsOn_recovered (inv : Inv p fingerprint h) (account : Account) (equity : ℚ)
    {snapshot : Option SessionSnapshot} (read : p.readFile h.process.stateFile = .ok snapshot)
    (today : Date) (b : DrawdownCircuitBreaker) :
    RestsOn fingerprint ((account, today, equity) :: h.readings) h.halts
      (account.environmentId fingerprint)
      ((on p fingerprint account).recoveredBreaker snapshot equity today b).snapshot := by
  rw [LiveParams.recoveredBreaker]
  split
  next saved taken =>
    -- the file holds today's session of this environment
    rw [Option.filter_eq_some_iff] at taken
    obtain ⟨rfl, own⟩ := taken
    obtain ⟨date, environment⟩ := of_decide_eq_true own
    obtain ⟨text, contents, parsed⟩ : ∃ text, h.process.stateFile.contents = some text ∧
        p.format.read text = .ok (some saved) := by
      rw [LiveParams.readFile] at read
      split at read
      · cases read
      next text contents => exact ⟨text, contents, read⟩
    have rests := inv.file text saved contents parsed
    rw [environment] at rests
    have same : (b.restore { saved.session with sessionDate := today }).snapshot = saved.session := by
      rw [← date]
      rfl
    rw [same]
    exact rests.mono (List.subset_cons_self _ _) (List.Subset.refl _)
  next => exact RestsOn.fresh account b today equity h.readings h.halts

theorem Inv.step (roundTrips : p.RoundTrips) (inv : Inv p fingerprint h) {act : HostAct F}
    (moved : h.step p fingerprint act = some h') : Inv p fingerprint h' := by
  -- what the file holds stays good with more readings and halts
  have keeps {readings : List (Account × Date × ℚ)} {halts : List (Account × Date)}
      (more : h.readings ⊆ readings) (moreHalts : h.halts ⊆ halts) :
      ∀ text snapshot, h.process.stateFile.contents = some text →
        p.format.read text = .ok (some snapshot) →
          RestsOn fingerprint readings halts snapshot.environmentId snapshot.session :=
    fun text snapshot contents read => (inv.file text snapshot contents read).mono more moreHalts
  cases act with
  | clock clock =>
    cases moved
    exact ⟨inv.session, inv.file⟩
  | damage contents =>
    simp only [Host.step] at moved
    -- the reader makes no session of what is put there
    have unread {put : Option F} (rejected : ∀ text, put = some text → p.format.read text = .ok none) :
        Inv p fingerprint { h with process := { h.process with stateFile := ⟨put⟩ } } := by
      refine ⟨inv.session, fun text snapshot present read => ?_⟩
      rw [rejected text present] at read
      cases read
    split at moved
    next gone =>
      cases moved
      exact unread fun text present => by simp [present] at gone
    next refused =>
      cases moved
      refine unread fun text present => ?_
      rw [present, Option.map_some, Option.some.injEq] at refused
      exact refused
    next => cases moved
    next => cases moved
  | boot account limit engine book equity =>
    simp only [Host.step] at moved
    split at moved
    next message failed =>
      cases moved
      exact ⟨nofun, inv.file⟩
    next m booted =>
      cases moved
      obtain ⟨snapshot, breaker, read, clock, session, written⟩ := boot_ok booted
      have rests := restsOn_recovered inv account equity read h.process.clock.now.date breaker
      rw [← session, ← clock] at rests
      constructor
      · rintro a same
        cases same
        exact rests
      · intro text snapshot contents read
        rw [written] at contents
        cases contents
        rw [roundTrips] at read
        cases read
        exact rests
  | update equity =>
    simp only [Host.step, Option.map_eq_some_iff] at moved
    obtain ⟨a, running, rfl⟩ := moved
    constructor
    · rintro b same
      cases running.symm.trans same
      exact (inv.session a running).update equity h.process.clock.now
    · refine keeps (List.subset_cons_self _ _) ?_
      split
      · exact List.subset_cons_self _ _
      · exact List.Subset.refl _
  | forceHalt reason =>
    simp only [Host.step, Option.map_eq_some_iff] at moved
    obtain ⟨a, running, rfl⟩ := moved
    constructor
    · rintro b same
      cases running.symm.trans same
      obtain ⟨start, peak, -⟩ := inv.session a running
      exact ⟨start, peak, fun _ => ⟨a, rfl, List.mem_cons_self⟩⟩
    · exact keeps (List.Subset.refl _) (List.subset_cons_self _ _)
  | resetSession equity =>
    simp only [Host.step, Option.map_eq_some_iff] at moved
    obtain ⟨a, running, rfl⟩ := moved
    constructor
    · rintro b same
      cases running.symm.trans same
      exact RestsOn.fresh a _ _ equity h.readings h.halts
    · exact keeps (List.subset_cons_self _ _) (List.Subset.refl _)
  | persist =>
    simp only [Host.step, Option.map_eq_some_iff] at moved
    obtain ⟨a, running, rfl⟩ := moved
    constructor
    · exact inv.session
    · intro text snapshot contents read
      simp only [LiveParams.persisted_eq, Option.some.injEq] at contents
      rw [← contents] at read
      have written : snapshot = ⟨h.process.riskEngine.circuitBreaker.snapshot,
          a.environmentId fingerprint⟩ := by
        have again := (roundTrips _).symm.trans read
        cases again
        rfl
      rw [written]
      exact inv.session a running
  | crash =>
    cases moved
    exact ⟨nofun, inv.file⟩

end Host

end Binbot
