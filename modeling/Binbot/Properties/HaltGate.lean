import Binbot.Scripts.LiveInterface

/-!
# Entries and the halt

The signal handler looks at the circuit breaker once, inside `check_order`, and
suspends twice before it submits. Nothing looks again, so an entry is kept out
of a halt exactly by the halt not coming in between.
-/
namespace Binbot

open Async Data

namespace LiveParams

variable {F : Type}

/-- The requests a handler makes after its checks have passed, up to the submission. -/
def cleared : LiveReq → Bool
  | .pushAudit entry => entry.message = "pre-trade checks passed"
  | .ensureSymbolReady _ => true
  | _ => false

/-- The requests that say the handler's order has passed its checks. -/
def entering : LiveReq → Bool
  | .submit _ _ => true
  | q => cleared q

/-- A refusal is never announced as a passed check. -/
theorem rejection_not_entering (code message : String) (level : AuditLevel)
    (source : AuditSource) :
    entering (.pushAudit ⟨level, source, s!"REJECTED [{code}] {message}"⟩) = false := by
  simp only [entering, cleared, decide_eq_false_iff_not]
  intro same
  have first := congrArg (fun text => text.toList.head?) same
  have rejected : (toString "REJECTED [").toList.head? = some 'R' := by decide
  simp only [String.toList_append, List.head?_append, rejected, Option.some_or] at first
  exact absurd first (by decide)

def haltDiscipline : Discipline LiveTask (Process F) liveSig where
  issue i _ q m := i = .signals → entering q = true → m.halted = false
  answer _ _ := True
  others i pending m m' := i = .signals → (∃ q, pending = some q ∧ cleared q = true) →
    m.halted = false → m'.halted = false
  guar _ _ _ := True
  ended _ _ _ := True
  refl _ _ _ _ _ held := held
  trans first second signals waits held := second signals waits (first signals waits held)

variable (p : LiveParams F)

/-- The shared engine's check passes only while the breaker is not halted, and
does not touch the breaker. -/
theorem checkOrder_unhalted (e : RiskEngine) (signal : SignalEvent) (account : AccountState)
    (now : ℚ) (passed : (e.checkOrder signal account now).1.passed = true) :
    (e.checkOrder signal account now).2.circuitBreaker.isHalted = false := by
  obtain ⟨limiter, counted⟩ := e.checkOrder_engine signal account now
  rw [counted]
  exact (e.checkOrder_passed signal account now passed).1

section Handler

variable {α : Type}

/-- The handler under the discipline of its task. -/
abbrev EntersFree (c : Coro (Process F) liveSig α) (log : List (Event liveSig))
    (m : Process F) : Prop :=
  c.Obeys (haltDiscipline.contract .signals) (fun _ => haltDiscipline.ended .signals) log m

/-- Before the checks nothing is promised about the breaker. -/
theorem entersFree_request {q : LiveReq}
    {rest : liveSig.Reply q → Coro (Process F) liveSig α} (before : entering q = false)
    (next : ∀ a log m, EntersFree (rest a) log m) (log : List (Event liveSig)) (m : Process F) :
    EntersFree (Coro.request (S := liveSig) q >>= rest) log m := by
  rw [EntersFree, Coro.obeys_bind, Coro.obeys_request]
  constructor
  · intro _ enters
    rw [before] at enters
    cases enters
  · rintro r _ m' ⟨rfl, -, -⟩
    cases r with
    | error e => trivial
    | ok a => exact next a _ m'

/-- After them the breaker is not halted when the request is made, and so not when
it is answered. -/
theorem entersFree_cleared {q : LiveReq}
    {rest : liveSig.Reply q → Coro (Process F) liveSig α} (clear : cleared q = true)
    (next : ∀ a log m, m.halted = false → EntersFree (rest a) log m)
    (log : List (Event liveSig)) (m : Process F) (unhalted : m.halted = false) :
    EntersFree (Coro.request (S := liveSig) q >>= rest) log m := by
  rw [EntersFree, Coro.obeys_bind, Coro.obeys_request]
  refine ⟨fun _ _ => unhalted, ?_⟩
  rintro r _ m' ⟨rfl, -, kept⟩
  cases r with
  | error e => trivial
  | ok a => exact next a _ m' (kept rfl ⟨q, rfl, clear⟩ unhalted)

theorem entersFree_last {q : LiveReq} (log : List (Event liveSig)) (m : Process F)
    (allowed : entering q = true → m.halted = false) :
    EntersFree (Coro.request (S := liveSig) q) log m := by
  rw [EntersFree, Coro.obeys_request]
  exact ⟨fun _ => allowed, fun _ _ _ _ => trivial⟩

theorem onSignal_entersFree (signal : SignalEvent) (log : List (Event liveSig))
    (m : Process F) : EntersFree (p.scanner.onSignal signal) log m := by
  apply entersFree_request rfl
  intro equity log m
  apply entersFree_request rfl
  intro positions log m
  rw [EntersFree, Coro.obeys_bind, Coro.obeys_view]
  apply entersFree_request rfl
  intro margin log m
  simp only [LiveScanner.checkOrder, EntersFree, Coro.obeys_bind, Coro.obeys_view,
    Coro.obeys_update, Coro.obeys_pure]
  refine ⟨trivial, ?_⟩
  split
  next passed =>
    -- the check and everything up to the next request are one segment
    apply entersFree_cleared (by decide)
    · intro _ log m unhalted
      apply entersFree_cleared rfl _ log m unhalted
      intro _ log m unhalted
      exact entersFree_last log m fun _ => unhalted
    · exact checkOrder_unhalted _ signal _ _ passed
  next failed =>
    apply entersFree_last
    intro enters
    rw [rejection_not_entering] at enters
    cases enters

end Handler

/-- Every program obeys; only the handler's has anything to obey. -/
theorem halt_starts (i : LiveTask) (command : LiveCommand) {c : Coro (Process F) liveSig Unit}
    (started : p.body i command = some c) (log : List (Event liveSig)) (m : Process F) :
    c.Obeys (haltDiscipline.contract i) (fun _ => haltDiscipline.ended i) log m := by
  by_cases handler : i = .signals
  · subst handler
    cases command with
    | signal event => cases started; exact onSignal_entersFree p event log m
    | _ => cases started
  · apply Coro.obeys_free
    · intro _ _ _ signals
      exact absurd signals handler
    · intros; trivial
    · intros; trivial

/-! ## Steps -/

/-- A step that turns the halt on finds no handler between its checks and its
submission. -/
def HaltsBetween (w : LiveWorld F) (l : LiveLabel) : Prop :=
  ∀ v, p.live.step w l = some v → w.memory.halted = false → v.memory.halted = true →
    ∀ q, (w.task .signals).pending = some q → cleared q = false

instance (w : LiveWorld F) (l : LiveLabel) : Decidable (p.HaltsBetween w l) :=
  match moved : p.live.step w l with
  | none => .isTrue (by simp [HaltsBetween, moved])
  | some v =>
    decidable_of_iff
      (w.memory.halted = false → v.memory.halted = true →
        ∀ q ∈ (w.task .signals).pending, cleared q = false)
      (by simp [HaltsBetween, moved])

/-- A step after which the handler hands an order over, or says that its order has
passed, leaves the breaker not halted. -/
def EntersUnhalted (w : LiveWorld F) (l : LiveLabel) : Prop :=
  ∀ v, p.live.step w l = some v →
    (l = .resume .signals ∨ ∃ command, l = .start .signals command) →
    ∀ q, (v.task .signals).pending = some q → entering q = true → v.memory.halted = false

theorem halt_step {w v : LiveWorld F} {l : LiveLabel} (held : haltDiscipline.TasksOk w)
    (between : p.HaltsBetween w l) (moved : p.live.step w l = some v) :
    haltDiscipline.TasksOk v := by
  apply held.step moved
  · intro i command c _ started _
    exact halt_starts p i command started _ _
  · intros; trivial
  · -- a halt that comes in is one the condition speaks of
    rintro j - - rfl ⟨q, waits, clear⟩ unhalted
    by_contra halted
    rw [Bool.not_eq_false] at halted
    rw [between v moved unhalted halted q waits] at clear
    cases clear

/-- Entries are made only while the breaker is not halted, in every run in which no
halt comes in between a handler's checks and its submission. -/
theorem entries_unhalted (memory : Process F) (labels : List LiveLabel)
    (between : Machine.Meets p.live.step p.HaltsBetween (start memory) labels) :
    Machine.Meets p.live.step p.EntersUnhalted (start memory) labels := by
  apply Machine.Meets.imp (fun w => haltDiscipline.TasksOk w) _ _ _ _ _ between
  · intro w l v held between moved
    exact halt_step p held between moved
  · rintro w l held - v moved mine q asked enters
    refine held.issued moved ?_ mine asked rfl enters
    intro i command c _ started _
    exact halt_starts p i command started _ _
  · intro task
    exact ⟨memory, trivial, fun _ _ unhalted => unhalted⟩

def demoEntry : SignalEvent where
  symbol := "BTCUSDT"
  strategyId := "funding-momentum-scanner"
  side := .buy
  targetQuantity := 1

/-- The handler's checks have passed when the kill switch is thrown; its two last
calls are answered after that. -/
def lateHalt : List LiveLabel :=
  [.start .signals (.signal demoEntry)] ++ exchanged .signals (quiet .empty) 3 ++
    [.start (.client 0) .killSwitch] ++ exchanged (.client 0) (quiet .empty) 1 ++
    exchanged .signals (quiet .empty) 1 ++ [.serve .signals (quiet .empty)]

/-- The breaker is halted, the dashboard says so, and the entry goes out. -/
theorem entry_after_halt :
    ∃ w v : LiveWorld SessionSnapshot,
      Machine.run demo.live.step (start demoProcess) lateHalt = some w ∧
      w.memory.halted = true ∧ demo.live.step w (.resume .signals) = some v ∧
      (v.task .signals).pending = some (.submit demoEntry (some 50000)) ∧
      ¬ demo.EntersUnhalted w (.resume .signals) := by
  have ends : ((Machine.run demo.live.step (start demoProcess) lateHalt).bind fun w =>
      (demo.live.step w (.resume .signals)).map fun v =>
        (w.memory.halted, (v.task .signals).pending, v.memory.halted)) =
      some (true, some (.submit demoEntry (some 50000)), true) := by decide +kernel
  obtain ⟨w, reached, rest⟩ := Option.bind_eq_some_iff.mp ends
  obtain ⟨v, moved, seen⟩ := Option.map_eq_some_iff.mp rest
  simp only [Prod.mk.injEq] at seen
  refine ⟨w, v, reached, seen.1, moved, seen.2.1, ?_⟩
  intro unhalted
  have still := unhalted v moved (.inl rfl) _ seen.2.1 rfl
  rw [seen.2.2] at still
  cases still

/-- The kill switch thrown once the entry is with the order manager. -/
theorem entries_unhalted_orderly :
    Machine.Meets demo.live.step demo.EntersUnhalted (start demoProcess)
      ([.start .signals (.signal demoEntry)] ++ exchanged .signals (quiet .empty) 5 ++
        [.start (.client 0) .killSwitch] ++ exchanged (.client 0) (quiet .empty) 2) := by
  apply entries_unhalted
  decide +kernel

end LiveParams

end Binbot
