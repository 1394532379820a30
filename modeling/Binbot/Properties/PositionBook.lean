import Binbot.Scripts.LiveInterface

/-!
# The position book against the broker

Every synchronisation assigns the broker's positions over the recorded ones, so
a symbol the broker no longer lists keeps its last quantity. The book is the
broker's exactly as long as no recorded position has left the broker's list.
-/
namespace Binbot

open Async Data

namespace LiveParams

variable {F : Type}

/-- What a delivered answer assigns to the book. -/
def assigned (book : Dict Symbol ℤ) : Event liveSig → Dict Symbol ℤ
  | ⟨.positions, .ok listed⟩ => book.overlay listed
  | _ => book

/-- The book that the main task's answers add up to. -/
def bookOf (log : List (Event liveSig)) : Dict Symbol ℤ := log.foldl assigned .empty

def listedOf : Event liveSig → Option (Dict Symbol ℤ)
  | ⟨.positions, .ok listed⟩ => some listed
  | _ => none

/-- The broker's list in the last synchronisation. -/
def lastListed : List (Event liveSig) → Option (Dict Symbol ℤ) := lastAnswer listedOf

@[simp] theorem bookOf_snoc (log : List (Event liveSig)) (e : Event liveSig) :
    bookOf (log ++ [e]) = assigned (bookOf log) e := by
  simp [bookOf]

theorem lastListed_snoc (log : List (Event liveSig)) (e : Event liveSig) :
    lastListed (log ++ [e]) = (listedOf e).or (lastListed log) :=
  lastAnswer_snoc listedOf log e

/-- An answer that is not a list of positions. -/
theorem lastListed_snoc_other (log : List (Event liveSig)) (q : LiveReq) (r : Answer liveSig q)
    (other : ∀ listed, (⟨q, r⟩ : Event liveSig) ≠ ⟨.positions, .ok listed⟩) :
    lastListed (log ++ [⟨q, r⟩]) = lastListed log ∧
      bookOf (log ++ [⟨q, r⟩]) = bookOf log := by
  rw [lastListed_snoc, bookOf_snoc]
  cases q with
  | positions =>
    cases r with
    | error e => exact ⟨rfl, rfl⟩
    | ok listed => exact absurd rfl (other listed)
  | _ => exact ⟨rfl, rfl⟩

/-! ## Who writes the book

The main task owns the book: everyone else leaves it alone, and between any two
of its segments the book is what its answers add up to. -/

def bookDiscipline : Discipline LiveTask (Process F) liveSig where
  issue i log _ m := i = .main → m.riskEngine.positions = bookOf log
  answer _ _ := True
  others i _ m m' := i = .main → m'.riskEngine.positions = m.riskEngine.positions
  guar i m m' := i ≠ .main → m'.riskEngine.positions = m.riskEngine.positions
  ended i log m := i = .main → m.riskEngine.positions = bookOf log
  refl _ _ _ _ := rfl
  trans first second main := (second main).trans (first main)

/-- Between the delivery of a list and the assignment the book is behind; nothing
suspends there. -/
abbrev BookKept (i : LiveTask) : List (Event liveSig) → Process F → Prop :=
  (bookDiscipline (F := F)).ended i

variable {i : LiveTask} {α : Type}

abbrev KeepsBook (i : LiveTask) (c : Coro (Process F) liveSig α) : Prop :=
  c.Keeps (bookDiscipline.contract i) (BookKept i)

/-- A request whose answer the main task does not assign. -/
theorem keepsBook_request {q : LiveReq} (other : i ≠ .main ∨ q ≠ .positions) :
    KeepsBook i (Coro.request (S := liveSig) q : Coro (Process F) liveSig (liveSig.Reply q)) := by
  apply Coro.keeps_request
  · intro log m held
    exact held
  · rintro r log m _ m' held ⟨rfl, -, kept⟩ main
    have silent := (lastListed_snoc_other log q r fun listed same => by
      rcases other with outsider | unlisted
      · exact outsider main
      · exact unlisted (congrArg Sigma.fst same)).2
    rw [silent, kept main, held main]

/-- A write elsewhere. -/
theorem keepsBook_update {τ : Type} [Part (Process F) τ] {f : τ → τ}
    (elsewhere : ∀ m : Process F,
      (Part.set m (f (Part.view m))).riskEngine.positions = m.riskEngine.positions) :
    KeepsBook i (Coro.update f : Coro (Process F) liveSig Unit) := by
  apply Coro.keeps_update
  intro log m held
  exact ⟨fun _ => elsewhere m, fun main => (elsewhere m).trans (held main)⟩

/-- A list of positions and its assignment to the book. -/
theorem keepsBook_sync {rest : Dict Symbol ℤ → Coro (Process F) liveSig α}
    (after : ∀ listed, KeepsBook .main (rest listed)) :
    KeepsBook .main (Coro.request (S := liveSig) .positions >>= fun listed : Dict Symbol ℤ =>
      Coro.update (fun e : RiskEngine => e.updatePositions listed) >>= fun _ => rest listed) := by
  intro log m held
  rw [Coro.obeys_bind, Coro.obeys_request]
  refine ⟨held, ?_⟩
  rintro r _ m' ⟨rfl, -, kept⟩
  cases r with
  | error e =>
    intro main
    rw [bookOf_snoc, kept main, held main]
    rfl
  | ok listed =>
    simp only [Coro.obeys_bind, Coro.obeys_update]
    refine ⟨fun outsider => absurd rfl outsider, ?_⟩
    apply after listed
    intro main
    rw [bookOf_snoc, ← held main, ← kept main]
    exact congrArg RiskEngine.positions (m'.riskEngine.updatePositions_eq listed)

variable (p : LiveParams F)

theorem keepsBook_persist : KeepsBook i p.scanner.recovery.persist :=
  Coro.keeps_view.bind fun _ => keepsBook_update fun _ => rfl

theorem keepsBook_restoreCircuitBreaker (equity : ℚ) :
    KeepsBook i (p.scanner.recovery.restoreCircuitBreaker equity) := by
  refine Coro.Keeps.bind (Coro.keeps_view.bind fun file => ?_) fun snapshot =>
    Coro.keeps_view.bind fun clock => ?_
  · split
    · exact Coro.keeps_pure none
    · split
      · exact Coro.keeps_pure _
      · exact Coro.keeps_throw _
  · dsimp only
    split
    · exact (keepsBook_update fun _ => rfl).bind fun _ => Coro.keeps_pure true
    · exact (keepsBook_update fun _ => rfl).bind fun _ => Coro.keeps_pure false

theorem keepsBook_recover : KeepsBook .main p.scanner.recovery.recover := by
  apply keepsBook_sync
  intro listed
  refine (keepsBook_request (.inr (by simp))).bind fun equity => ?_
  refine (keepsBook_restoreCircuitBreaker p equity).bind fun restored => ?_
  refine (keepsBook_persist p).bind fun _ => ?_
  exact Coro.keeps_view.bind fun _ => Coro.keeps_pure _

theorem keepsBook_updateBreaker (equity : ℚ) :
    KeepsBook (F := F) i (LiveScanner.updateBreaker equity) := by
  refine Coro.keeps_view.bind fun engine => Coro.keeps_view.bind fun clock => ?_
  refine (keepsBook_update fun _ => rfl).bind fun _ => ?_
  split
  · exact Coro.keeps_pure _
  · exact Coro.keeps_throw _

theorem keepsBook_consumeAutoResetFlag :
    KeepsBook (F := F) i LiveScanner.consumeAutoResetFlag :=
  Coro.keeps_view.bind fun _ => (keepsBook_update fun _ => rfl).bind fun _ => Coro.keeps_pure _

theorem keepsBook_monitorTurn : KeepsBook .main p.scanner.monitorTurn := by
  refine Coro.Keeps.tryCatch ?_ fun _ => Coro.keeps_pure ()
  refine (keepsBook_request (.inr (by simp))).bind fun equity => ?_
  apply keepsBook_sync
  intro listed
  refine (keepsBook_updateBreaker equity).bind fun tripped => ?_
  refine (Coro.keeps_onlyIf tripped (keepsBook_request (.inr (by simp)))).bind fun _ => ?_
  refine keepsBook_consumeAutoResetFlag.bind fun resumed => ?_
  refine (Coro.keeps_onlyIf resumed ?_).bind fun _ => keepsBook_persist p
  exact (keepsBook_request (.inr (by simp))).bind fun _ => keepsBook_request (.inr (by simp))

theorem keepsBook_checkOrder (signal : SignalEvent) (account : AccountState) :
    KeepsBook (F := F) i (LiveScanner.checkOrder signal account) := by
  intro log m held
  obtain ⟨limiter, counted⟩ := m.riskEngine.checkOrder_engine signal account m.clock.monotonic
  -- a check writes the rate limiter only
  have same : (m.riskEngine.checkOrder signal account m.clock.monotonic).2.positions =
      m.riskEngine.positions := by rw [counted]
  simp only [LiveScanner.checkOrder, Coro.obeys_bind, Coro.obeys_view, Coro.obeys_update,
    Coro.obeys_pure]
  exact ⟨fun _ => same, fun main => same.trans (held main)⟩

theorem keepsBook_onSignal (signal : SignalEvent) :
    KeepsBook .signals (p.scanner.onSignal signal) := by
  have outsider : LiveTask.signals ≠ .main := by simp
  refine (keepsBook_request (.inl outsider)).bind fun equity => ?_
  refine (keepsBook_request (.inl outsider)).bind fun positions => ?_
  refine Coro.keeps_view.bind fun seen => ?_
  refine (keepsBook_request (.inl outsider)).bind fun margin => ?_
  refine (keepsBook_checkOrder signal _).bind fun result => ?_
  split
  · refine (keepsBook_request (.inl outsider)).bind fun _ => ?_
    refine (keepsBook_request (.inl outsider)).bind fun _ => ?_
    exact Coro.keeps_view.bind fun _ => keepsBook_request (.inl outsider)
  · exact keepsBook_request (.inl outsider)

section Clients

variable {n : ℕ}

theorem keepsBook_pause : KeepsBook (F := F) i LiveScanner.doPause := keepsBook_update fun _ => rfl

theorem keepsBook_resume : KeepsBook (F := F) i LiveScanner.doResume :=
  keepsBook_update fun _ => rfl

theorem keepsBook_flatten : KeepsBook (.client n) p.scanner.flattenAllPositions := by
  refine (keepsBook_request (.inl (by simp))).bind fun positions => ?_
  dsimp only
  split
  · exact keepsBook_request (.inl (by simp))
  · refine (keepsBook_request (.inl (by simp))).bind fun _ => Coro.keeps_forEach (fun e => ?_) _
    exact Coro.keeps_view.bind fun _ => keepsBook_request (.inl (by simp))

theorem keepsBook_engageKillSwitch : KeepsBook (.client n) p.scanner.engageKillSwitch := by
  refine keepsBook_pause.bind fun _ => (keepsBook_request (.inl (by simp))).bind fun _ => ?_
  refine (keepsBook_update fun _ => rfl).bind fun _ => (keepsBook_persist p).bind fun _ => ?_
  exact keepsBook_request (.inl (by simp))

theorem keepsBook_resetKillSwitch : KeepsBook (.client n) p.scanner.resetKillSwitch := by
  refine (keepsBook_request (.inl (by simp))).bind fun equity => Coro.keeps_view.bind fun clock => ?_
  refine (keepsBook_update fun _ => rfl).bind fun _ => keepsBook_resume.bind fun _ => ?_
  exact (keepsBook_persist p).bind fun _ => keepsBook_request (.inl (by simp))

end Clients

/-- Every program a task can be started with keeps the book. -/
theorem keepsBook_body {task : LiveTask} {command : LiveCommand}
    {c : Coro (Process F) liveSig Unit} (started : p.body task command = some c) :
    KeepsBook task c := by
  simp only [body] at started
  split at started
  · cases started
    exact (keepsBook_recover p).bind fun _ => Coro.keeps_pure ()
  · cases started; exact keepsBook_monitorTurn p
  · cases started; exact keepsBook_onSignal p _
  · cases started; exact keepsBook_pause
  · cases started; exact keepsBook_resume
  · cases started; exact keepsBook_flatten p
  · cases started; exact keepsBook_engageKillSwitch p
  · cases started; exact keepsBook_resetKillSwitch p
  · cases started

theorem drift_positions (m : Process F) (move : LiveMove) :
    (p.drift m move).riskEngine.positions = m.riskEngine.positions := by
  cases move <;> rfl

/-- Any step leaves every task as the discipline says. -/
theorem book_step {w v : LiveWorld F} {l : LiveLabel} (held : bookDiscipline.TasksOk w)
    (moved : p.live.step w l = some v) : bookDiscipline.TasksOk v := by
  have starts : ∀ i command c, l = .start i command → p.live.body i command = some c →
      bookDiscipline.TaskOk i ⟨.idle, (w.task i).log⟩ w.memory →
      c.Obeys (bookDiscipline.contract i) (fun _ => bookDiscipline.ended i)
        (w.task i).log w.memory := by
    rintro i command c - started ⟨past, ended, since⟩
    apply keepsBook_body p started
    intro main
    rw [since main, ended main]
  apply held.step moved starts
  · intros
    trivial
  · -- the main task is quiet, so someone else moved
    rintro j rests unstarted rfl
    apply held.memory moved starts (fun m m' => m'.riskEngine.positions = m.riskEngine.positions)
      (fun _ => rfl) (fun first second => second.trans first)
    · rintro i mover m m' kept
      apply kept
      rintro rfl
      rcases mover with resumed | ⟨command, started⟩
      · exact rests resumed
      · exact unstarted command started
    · rintro move memory outside rfl drifted
      cases drifted
      exact drift_positions p _ move

/-- Wherever the main task stands, the book is what its answers add up to. -/
theorem book_eq {w : LiveWorld F} (held : bookDiscipline.TasksOk w) :
    w.memory.riskEngine.positions = bookOf (w.task .main).log := by
  have main := held .main
  rw [Discipline.TaskOk] at main
  split at main
  · obtain ⟨past, ended, since⟩ := main
    rw [since rfl, ended rfl]
  · obtain ⟨⟨past, issued, since⟩, -⟩ := main
    rw [since rfl, issued rfl]
  · obtain ⟨⟨past, issued, since⟩, -⟩ := main
    rw [since rfl, issued rfl]

/-! ## Synchronisations -/

/-- The book is the broker's last list, with 0 for what it leaves out. -/
def Synced (w : LiveWorld F) : Prop :=
  ∀ listed, lastListed (w.task .main).log = some listed →
    ∀ s, w.memory.recorded s = listed.getD s 0

/-- The broker's list that a step hands to the main task, for `recover` or for a
turn of the monitor loop. -/
def delivered (w : LiveWorld F) : LiveLabel → Option (Dict Symbol ℤ)
  | .resume .main =>
    match (w.task .main).phase with
    | .answered .positions (.ok listed) _ => some listed
    | _ => none
  | _ => none

/-- A list that is delivered has every symbol with a recorded position. -/
def Covered (w : LiveWorld F) (l : LiveLabel) : Prop :=
  ∀ listed, delivered w l = some listed → ∀ s, w.memory.recorded s ≠ 0 → s ∈ listed.keys

instance (w : LiveWorld F) (l : LiveLabel) : Decidable (Covered w l) :=
  match found : delivered w l with
  | none => .isTrue (by simp [Covered, found])
  | some listed =>
    decidable_of_iff
      (∀ e ∈ w.memory.riskEngine.positions.entries, e.2 ≠ 0 → e.1 ∈ listed.keys)
      (by
        rw [← Dict.forall_getD_iff _ 0 fun s quantity => quantity ≠ 0 → s ∈ listed.keys]
        · simp [Covered, found, Process.recorded]
        · simp)

theorem delivered_resume {w : LiveWorld F} {q : LiveReq} {r : Answer liveSig q}
    {next : Answer liveSig q → Coro (Process F) liveSig Unit}
    (answered : (w.task .main).phase = .answered q r next) (listed : Dict Symbol ℤ) :
    delivered w (.resume .main) = some listed ↔
      (⟨q, r⟩ : Event liveSig) = ⟨.positions, .ok listed⟩ := by
  simp only [delivered, answered]
  constructor
  · intro found
    split at found
    next same =>
      cases same
      cases found
      rfl
    · cases found
  · intro same
    cases same
    rfl

/-- One step, from a book that is the broker's. -/
theorem synced_step {w v : LiveWorld F} {l : LiveLabel} (held : bookDiscipline.TasksOk w)
    (synced : Synced w) (moved : p.live.step w l = some v) : Synced v ↔ Covered w l := by
  have before := book_eq held
  have after := book_eq (book_step p held moved)
  rcases p.live.log_cases moved .main with ⟨q, r, next, rfl, answered, grown⟩ | ⟨other, same⟩
  · by_cases list : ∃ listed, (⟨q, r⟩ : Event liveSig) = ⟨.positions, .ok listed⟩
    · obtain ⟨listed, same⟩ := list
      cases same
      have assigned : ∀ s, v.memory.recorded s = listed.getD s (w.memory.recorded s) := by
        intro s
        rw [Process.recorded, after, grown, bookOf_snoc, ← before]
        exact Dict.getD_overlay _ _ _ _
      constructor
      · intro agrees other found s
        cases (delivered_resume answered other).mp found
        rw [← Dict.getD_eq_getD_iff, ← assigned]
        exact agrees listed (by rw [grown, lastListed_snoc]; rfl) s
      · intro covered other last s
        rw [grown, lastListed_snoc] at last
        cases last
        rw [assigned, Dict.getD_eq_getD_iff]
        exact covered listed ((delivered_resume answered listed).mpr rfl) s
    · -- an answer that is not a list changes neither side
      have silent := lastListed_snoc_other (w.task .main).log q r fun listed same =>
        list ⟨listed, same⟩
      have unchanged : v.memory.recorded = w.memory.recorded := by
        funext s
        rw [Process.recorded, Process.recorded, after, grown, silent.2, ← before]
      refine iff_of_true ?_ fun listed found =>
        absurd ⟨listed, (delivered_resume answered listed).mp found⟩ list
      rw [Synced, grown, silent.1, unchanged]
      exact synced
  · have unchanged : v.memory.recorded = w.memory.recorded := by
      funext s
      rw [Process.recorded, Process.recorded, after, same, ← before]
    have idle : delivered w l = none := by
      unfold delivered
      split
      · exact absurd rfl other
      · rfl
    refine iff_of_true ?_ fun listed found => by simp [idle] at found
    rw [Synced, same, unchanged]
    exact synced

theorem start_ok (memory : Process F) (flat : memory.riskEngine.positions = .empty) :
    bookDiscipline.TasksOk (start memory) := by
  intro task
  refine ⟨memory, ?_, fun _ => rfl⟩
  intro main
  exact flat

/-- From a fresh process the recorded positions are the broker's in every state of
a run if and only if no synchronisation of the run misses a recorded position. -/
theorem position_book_synced (memory : Process F)
    (flat : memory.riskEngine.positions = .empty) (labels : List LiveLabel) :
    Machine.Meets p.live.step (fun w l => ∀ v, p.live.step w l = some v → Synced v)
        (start memory) labels ↔
      Machine.Meets p.live.step Covered (start memory) labels := by
  apply Machine.meets_iff fun w => bookDiscipline.TasksOk w ∧ Synced w
  · rintro w l v ⟨held, synced⟩ covered moved
    exact ⟨book_step p held moved, (synced_step p held synced moved).mpr covered⟩
  · rintro w l ⟨held, synced⟩
    constructor
    · intro sound listed found
      -- a delivery can always be taken
      obtain ⟨v, moved⟩ : ∃ v, p.live.step w l = some v := by
        simp only [delivered] at found
        split at found
        · split at found
          next phase => simp only [System.step, phase]; exact ⟨_, rfl⟩
          · cases found
        · cases found
      exact (synced_step p held synced moved).mp (sound v moved) listed found
    · intro covered v moved
      exact (synced_step p held synced moved).mpr covered
  · refine ⟨start_ok memory flat, ?_⟩
    intro listed last
    cases last

/-- Recovery reads `first`, the next turn of the monitor loop reads `second`. -/
def twoSyncs (first second : Dict Symbol ℤ) : List LiveLabel :=
  [.start .main .recover] ++ exchanged .main (quiet first) 2 ++
    [.start .main .monitorTurn] ++ exchanged .main (quiet second) 2

/-- Five lots of BTCUSDT, closed at the exchange before the monitor loop looks: the
turn completes, the broker lists nothing, and the book still says five. -/
theorem position_book_keeps_closed :
    ∃ w : LiveWorld SessionSnapshot,
      Machine.run demo.live.step (start demoProcess)
        (twoSyncs (.ofList [("BTCUSDT", 5)]) .empty) = some w ∧
      (w.task .main).pending = none ∧ lastListed (w.task .main).log = some .empty ∧
      w.memory.recorded "BTCUSDT" = 5 ∧ ¬ Synced w := by
  have ends : (Machine.run demo.live.step (start demoProcess)
      (twoSyncs (.ofList [("BTCUSDT", 5)]) .empty)).map (fun w =>
        ((w.task .main).pending, lastListed (w.task .main).log, w.memory.recorded "BTCUSDT")) =
      some (none, some .empty, 5) := by decide +kernel
  obtain ⟨w, reached, seen⟩ := Option.map_eq_some_iff.mp ends
  simp only [Prod.mk.injEq] at seen
  refine ⟨w, reached, seen.1, seen.2.1, seen.2.2, ?_⟩
  intro synced
  have flat := synced .empty seen.2.1 "BTCUSDT"
  rw [seen.2.2] at flat
  cases flat

/-- A position that is reduced but stays open is followed. -/
theorem position_book_synced_reduced :
    Machine.Meets demo.live.step (fun w l => ∀ v, demo.live.step w l = some v → Synced v)
      (start demoProcess) (twoSyncs (.ofList [("BTCUSDT", 5)]) (.ofList [("BTCUSDT", 3)])) := by
  apply (position_book_synced demo demoProcess rfl _).mpr
  decide +kernel

end LiveParams

end Binbot
