import Binbot.Async.Logic
import Binbot.Machine.Run
import Mathlib.Logic.Function.Basic

/-!
# Interleaved tasks

Tasks share one memory and run one at a time, from suspension point to
suspension point. A request is served by the outside at some moment after it
was issued, and its answer is delivered at some moment after that, so a task
may act on an answer that has meanwhile gone stale. Each task keeps the log of
the answers delivered to it.
-/
namespace Binbot.Async

/-- One answer a task has received. -/
abbrev Event (S : Sig) : Type := Σ q : S.Req, Answer S q

/-- The last answer of some kind in a log. -/
def lastAnswer {S : Sig} {τ : Type} (pick : Event S → Option τ) : List (Event S) → Option τ
  | [] => none
  | e :: rest => (lastAnswer pick rest).or (pick e)

theorem lastAnswer_snoc {S : Sig} {τ : Type} (pick : Event S → Option τ) (log : List (Event S))
    (e : Event S) : lastAnswer pick (log ++ [e]) = (pick e).or (lastAnswer pick log) := by
  induction log with
  | nil => simp [lastAnswer]
  | cons x rest ih => rw [List.cons_append, lastAnswer, ih, lastAnswer, Option.or_assoc]

inductive Phase (σ : Type) (S : Sig) where
  | idle
  | waiting (q : S.Req) (next : Answer S q → Coro σ S Unit)
  | answered (q : S.Req) (r : Answer S q) (next : Answer S q → Coro σ S Unit)

structure Task (σ : Type) (S : Sig) where
  phase : Phase σ S
  log : List (Event S)

structure World (ι σ ε : Type) (S : Sig) where
  memory : σ
  outside : ε
  task : ι → Task σ S

/-- `body` is what each slot may be started with, `serve` how the outside answers
a request under a choice of `φ`, `drift` what happens without any task. -/
structure System (ι κ φ δ σ ε : Type) (S : Sig) where
  body : ι → κ → Option (Coro σ S Unit)
  serve : ε → φ → (q : S.Req) → Option (Answer S q × ε)
  drift : σ → ε → δ → Option (σ × ε)

inductive Label (ι κ φ δ : Type) where
  | start (i : ι) (command : κ)
  | serve (i : ι) (choice : φ)
  | resume (i : ι)
  | drift (move : δ)

variable {ι κ φ δ σ ε : Type} {S : Sig}

/-- Where a program stands after a segment. -/
def Phase.of : Coro σ S Unit → Phase σ S
  | .await q next => .waiting q next
  | _ => .idle

/-- The exception that a program has ended with. -/
def Coro.error? {α : Type} : Coro σ S α → Option String
  | .fail e => some e
  | _ => none

/-- The request a task is suspended on. -/
def Task.pending (t : Task σ S) : Option S.Req :=
  match t.phase with
  | .idle => none
  | .waiting q _ => some q
  | .answered q _ _ => some q

section Step

variable [DecidableEq ι]

def World.setTask (w : World ι σ ε S) (i : ι) (t : Task σ S) : World ι σ ε S :=
  { w with task := Function.update w.task i t }

/-- Run a program of slot `i` for one segment. -/
def World.segment (w : World ι σ ε S) (i : ι) (c : Coro σ S Unit) (log : List (Event S)) :
    World ι σ ε S :=
  { w with
    memory := (c.advance w.memory).2
    task := Function.update w.task i ⟨Phase.of (c.advance w.memory).1, log⟩ }

def System.step (sys : System ι κ φ δ σ ε S) (w : World ι σ ε S) :
    Label ι κ φ δ → Option (World ι σ ε S)
  | .start i command =>
    match (w.task i).phase with
    | .idle => (sys.body i command).map fun c => w.segment i c (w.task i).log
    | _ => none
  | .serve i choice =>
    match (w.task i).phase with
    | .waiting q next => (sys.serve w.outside choice q).map fun (r, outside) =>
        { w.setTask i ⟨.answered q r next, (w.task i).log⟩ with outside }
    | _ => none
  | .resume i =>
    match (w.task i).phase with
    | .answered q r next => some (w.segment i (next r) ((w.task i).log ++ [⟨q, r⟩]))
    | _ => none
  | .drift move => (sys.drift w.memory w.outside move).map fun (memory, outside) =>
      { w with memory, outside }

/-- What the program of the task that takes the step raises, if the step ends it so. -/
def System.raised (sys : System ι κ φ δ σ ε S) (w : World ι σ ε S) :
    Label ι κ φ δ → Option String
  | .start i command => (sys.body i command).bind fun c => (c.advance w.memory).1.error?
  | .resume i =>
    match (w.task i).phase with
    | .answered _ r next => ((next r).advance w.memory).1.error?
    | _ => none
  | _ => none

@[simp] theorem World.setTask_same (w : World ι σ ε S) (i : ι) (t : Task σ S) :
    (w.setTask i t).task i = t := by simp [setTask]

theorem World.setTask_ne (w : World ι σ ε S) {i j : ι} (t : Task σ S) (distinct : j ≠ i) :
    (w.setTask i t).task j = w.task j := by simp [setTask, distinct]

@[simp] theorem World.segment_same (w : World ι σ ε S) (i : ι) (c : Coro σ S Unit)
    (log : List (Event S)) :
    (w.segment i c log).task i = ⟨Phase.of (c.advance w.memory).1, log⟩ := by simp [segment]

theorem World.segment_ne (w : World ι σ ε S) {i j : ι} (c : Coro σ S Unit)
    (log : List (Event S)) (distinct : j ≠ i) : (w.segment i c log).task j = w.task j := by
  simp [segment, distinct]

/-- What a step can do. -/
theorem System.step_cases (sys : System ι κ φ δ σ ε S) {w v : World ι σ ε S}
    {l : Label ι κ φ δ} (moved : sys.step w l = some v) :
    (∃ i command c, l = .start i command ∧ (w.task i).phase = .idle ∧
      sys.body i command = some c ∧ v = w.segment i c (w.task i).log) ∨
    (∃ i choice q next r outside, l = .serve i choice ∧ (w.task i).phase = .waiting q next ∧
      sys.serve w.outside choice q = some (r, outside) ∧
      v = { w.setTask i ⟨.answered q r next, (w.task i).log⟩ with outside }) ∨
    (∃ i q r next, l = .resume i ∧ (w.task i).phase = .answered q r next ∧
      v = w.segment i (next r) ((w.task i).log ++ [⟨q, r⟩])) ∨
    (∃ move memory outside, l = .drift move ∧
      sys.drift w.memory w.outside move = some (memory, outside) ∧
      v = { w with memory, outside }) := by
  cases l with
  | start i command =>
    simp only [step] at moved
    split at moved
    next idle =>
      obtain ⟨c, found, rfl⟩ := Option.map_eq_some_iff.mp moved
      exact .inl ⟨i, command, c, rfl, idle, found, rfl⟩
    · cases moved
  | serve i choice =>
    simp only [step] at moved
    split at moved
    next q next waiting =>
      obtain ⟨⟨r, outside⟩, served, rfl⟩ := Option.map_eq_some_iff.mp moved
      exact .inr (.inl ⟨i, choice, q, next, r, outside, rfl, waiting, served, rfl⟩)
    · cases moved
  | resume i =>
    simp only [step] at moved
    split at moved
    next q r next answered =>
      cases moved
      exact .inr (.inr (.inl ⟨i, q, r, next, rfl, answered, rfl⟩))
    · cases moved
  | drift move =>
    simp only [step] at moved
    obtain ⟨⟨memory, outside⟩, drifted, rfl⟩ := Option.map_eq_some_iff.mp moved
    exact .inr (.inr (.inr ⟨move, memory, outside, rfl, drifted, rfl⟩))

/-- A task's log grows by the answer it is resumed with, and not otherwise. -/
theorem System.log_cases (sys : System ι κ φ δ σ ε S) {w v : World ι σ ε S}
    {l : Label ι κ φ δ} (moved : sys.step w l = some v) (i : ι) :
    (∃ q r next, l = .resume i ∧ (w.task i).phase = .answered q r next ∧
      (v.task i).log = (w.task i).log ++ [⟨q, r⟩]) ∨
    (l ≠ .resume i ∧ (v.task i).log = (w.task i).log) := by
  rcases sys.step_cases moved with ⟨j, command, c, rfl, idle, found, rfl⟩ |
    ⟨j, choice, q, next, r, outside, rfl, waiting, served, rfl⟩ |
    ⟨j, q, r, next, rfl, answered, rfl⟩ | ⟨move, memory, outside, rfl, drifted, rfl⟩
  · refine .inr ⟨by simp, ?_⟩
    by_cases same : i = j
    · subst same; rw [World.segment_same]
    · rw [World.segment_ne _ _ _ same]
  · refine .inr ⟨by simp, ?_⟩
    change ((w.setTask j _).task i).log = _
    by_cases same : i = j
    · subst same; rw [World.setTask_same]
    · rw [World.setTask_ne _ _ same]
  · by_cases same : i = j
    · subst same
      exact .inl ⟨q, r, next, rfl, answered, by rw [World.segment_same]⟩
    · refine .inr ⟨fun resumed => same (by cases resumed; rfl), ?_⟩
      rw [World.segment_ne _ _ _ same]
  · exact .inr ⟨by simp, rfl⟩

end Step

/-! ## Disciplines

A discipline is one contract for each slot. `others i p` is what slot `i` relies
on while suspended on `p` (`none` when idle); `ended` holds between its runs. -/

structure Discipline (ι σ : Type) (S : Sig) where
  issue : ι → List (Event S) → S.Req → σ → Prop
  answer : (q : S.Req) → Answer S q → Prop
  others : ι → Option S.Req → σ → σ → Prop
  guar : ι → σ → σ → Prop
  ended : ι → List (Event S) → σ → Prop
  refl : ∀ i p s, others i p s s
  trans : ∀ {i p s t u}, others i p s t → others i p t u → others i p s u

namespace Discipline

variable (D : Discipline ι σ S)

def contract (i : ι) : Contract (List (Event S)) σ S where
  issue q log s := D.issue i log q s
  rely q r log s log' s' := log' = log ++ [⟨q, r⟩] ∧ D.answer q r ∧ D.others i (some q) s s'
  guar := D.guar i

/-- A task between two segments: what it issued was allowed when it issued it,
and it will obey whatever it is told next. -/
def TaskOk (i : ι) (t : Task σ S) (s : σ) : Prop :=
  match t.phase with
  | .idle => ∃ past, D.ended i t.log past ∧ D.others i none past s
  | .waiting q next =>
    (∃ past, D.issue i t.log q past ∧ D.others i (some q) past s) ∧
    ∀ r s', D.answer q r → D.others i (some q) s s' →
      (next r).Obeys (D.contract i) (fun _ => D.ended i) (t.log ++ [⟨q, r⟩]) s'
  | .answered q r next =>
    (∃ past, D.issue i t.log q past ∧ D.others i (some q) past s) ∧ D.answer q r ∧
    ∀ s', D.others i (some q) s s' →
      (next r).Obeys (D.contract i) (fun _ => D.ended i) (t.log ++ [⟨q, r⟩]) s'

def TasksOk (w : World ι σ ε S) : Prop := ∀ i, D.TaskOk i (w.task i) w.memory

variable {D}

/-- A task that is not running survives what it relies on. -/
theorem TaskOk.quiet {i : ι} {t : Task σ S} {s s' : σ} (held : D.TaskOk i t s)
    (quiet : D.others i t.pending s s') : D.TaskOk i t s' := by
  obtain ⟨phase, log⟩ := t
  cases phase with
  | idle =>
    obtain ⟨past, ended, since⟩ := held
    exact ⟨past, ended, D.trans since quiet⟩
  | waiting q next =>
    obtain ⟨⟨past, issued, since⟩, future⟩ := held
    exact ⟨⟨past, issued, D.trans since quiet⟩,
      fun r u answer kept => future r u answer (D.trans quiet kept)⟩
  | answered q r next =>
    obtain ⟨⟨past, issued, since⟩, answer, future⟩ := held
    exact ⟨⟨past, issued, D.trans since quiet⟩, answer,
      fun u kept => future u (D.trans quiet kept)⟩

/-- A segment of an obedient program leaves an obedient task. -/
theorem taskOk_of_obeys {i : ι} {c : Coro σ S Unit} {log : List (Event S)} {s : σ}
    (obeys : c.Obeys (D.contract i) (fun _ => D.ended i) log s) :
    D.TaskOk i ⟨Phase.of (c.advance s).1, log⟩ (c.advance s).2 := by
  have after := obeys.advance
  cases stand : (c.advance s).1 with
  | await q next =>
    rw [stand] at after
    exact ⟨⟨_, after.1, D.refl _ _ _⟩, fun r s' answer kept => after.2 r _ s' ⟨rfl, answer, kept⟩⟩
  | done a => rw [stand] at after; exact ⟨_, after, D.refl _ _ _⟩
  | fail e => rw [stand] at after; exact ⟨_, after, D.refl _ _ _⟩
  | get next => exact absurd stand (Coro.advance_ne_get c s next)
  | put t next => exact absurd stand (Coro.advance_ne_put c s t next)

/-- What a segment ends by asking for is allowed in the memory it leaves. -/
theorem issue_of_obeys {i : ι} {c : Coro σ S Unit} {log : List (Event S)} {s : σ}
    (obeys : c.Obeys (D.contract i) (fun _ => D.ended i) log s) {q : S.Req}
    (asked : (Task.mk (Phase.of (c.advance s).1) log).pending = some q) :
    D.issue i log q (c.advance s).2 := by
  have after := obeys.advance
  cases stand : (c.advance s).1 with
  | await q' next =>
    rw [stand] at after asked
    cases asked
    exact after.1
  | _ => rw [stand] at asked; cases asked

variable [DecidableEq ι]

theorem TasksOk.segment {w : World ι σ ε S} (held : D.TasksOk w) {i : ι} {c : Coro σ S Unit}
    {log : List (Event S)}
    (obeys : c.Obeys (D.contract i) (fun _ => D.ended i) log w.memory)
    (quiet : ∀ j, j ≠ i → D.others j (w.task j).pending w.memory (c.advance w.memory).2) :
    D.TasksOk (w.segment i c log) := by
  intro j
  by_cases same : j = i
  · subst same
    rw [World.segment_same]
    exact taskOk_of_obeys obeys
  · rw [World.segment_ne _ _ _ same]
    exact (held j).quiet (quiet j same)

/-- Every step keeps every task obedient, when the programs started obey, the
outside answers as the discipline says, and each step stays within what the
tasks that do not take it rely on. -/
theorem TasksOk.step {sys : System ι κ φ δ σ ε S} {w v : World ι σ ε S} {l : Label ι κ φ δ}
    (held : D.TasksOk w) (moved : sys.step w l = some v)
    (starts : ∀ i command c, l = .start i command → sys.body i command = some c →
      D.TaskOk i ⟨.idle, (w.task i).log⟩ w.memory →
      c.Obeys (D.contract i) (fun _ => D.ended i) (w.task i).log w.memory)
    (answers : ∀ i choice q r outside, l = .serve i choice → (w.task i).pending = some q →
      sys.serve w.outside choice q = some (r, outside) → D.answer q r)
    (quiet : ∀ j, l ≠ .resume j → (∀ command, l ≠ .start j command) →
      D.others j (w.task j).pending w.memory v.memory) : D.TasksOk v := by
  rcases sys.step_cases moved with ⟨i, command, c, rfl, idle, found, rfl⟩ |
    ⟨i, choice, q, next, r, outside, rfl, waiting, served, rfl⟩ |
    ⟨i, q, r, next, rfl, answered, rfl⟩ | ⟨move, memory, outside, rfl, drifted, rfl⟩
  · refine held.segment ?_ fun j distinct =>
      quiet j (by simp) fun other same => distinct (by cases same; rfl)
    have before := held i
    rw [show w.task i = ⟨.idle, (w.task i).log⟩ by rw [← idle]] at before
    exact starts i command c rfl found before
  · intro j
    by_cases same : j = i
    · subst same
      have before := held j
      change D.TaskOk j ((w.setTask j _).task j) w.memory
      rw [World.setTask_same]
      simp only [TaskOk, waiting] at before
      have answer := answers j choice q r outside rfl (by simp [Task.pending, waiting]) served
      exact ⟨before.1, answer, fun s' kept => before.2 r s' answer kept⟩
    · change D.TaskOk j ((w.setTask i _).task j) w.memory
      rw [World.setTask_ne _ _ same]
      exact held j
  · have before := held i
    simp only [TaskOk, answered] at before
    refine held.segment (before.2.2 _ (D.refl _ _ _)) fun j distinct =>
      quiet j (fun same => distinct (by cases same; rfl)) (by simp)
  · exact fun j => (held j).quiet (quiet j (by simp) (by simp))

/-- A task that moves asks only for what it may ask in the memory it leaves. -/
theorem TasksOk.issued {sys : System ι κ φ δ σ ε S} {w v : World ι σ ε S} {l : Label ι κ φ δ}
    (held : D.TasksOk w) (moved : sys.step w l = some v)
    (starts : ∀ i command c, l = .start i command → sys.body i command = some c →
      D.TaskOk i ⟨.idle, (w.task i).log⟩ w.memory →
      c.Obeys (D.contract i) (fun _ => D.ended i) (w.task i).log w.memory)
    {i : ι} (mover : l = .resume i ∨ ∃ command, l = .start i command) {q : S.Req}
    (asked : (v.task i).pending = some q) : D.issue i (v.task i).log q v.memory := by
  have before := held i
  rcases mover with rfl | ⟨command, rfl⟩
  · simp only [System.step] at moved
    split at moved
    next q' r next answered =>
      cases moved
      simp only [TaskOk, answered] at before
      rw [World.segment_same] at asked ⊢
      exact issue_of_obeys (before.2.2 _ (D.refl _ _ _)) asked
    · cases moved
  · simp only [System.step] at moved
    split at moved
    next idle =>
      obtain ⟨c, found, rfl⟩ := Option.map_eq_some_iff.mp moved
      rw [show w.task i = ⟨.idle, (w.task i).log⟩ by rw [← idle]] at before
      rw [World.segment_same] at asked ⊢
      exact issue_of_obeys (starts i command c rfl found before) asked
    · cases moved

/-- A step changes the memory by the writes of the task that takes it, or by a drift. -/
theorem TasksOk.memory {sys : System ι κ φ δ σ ε S} {w v : World ι σ ε S} {l : Label ι κ φ δ}
    (held : D.TasksOk w) (moved : sys.step w l = some v)
    (starts : ∀ i command c, l = .start i command → sys.body i command = some c →
      D.TaskOk i ⟨.idle, (w.task i).log⟩ w.memory →
      c.Obeys (D.contract i) (fun _ => D.ended i) (w.task i).log w.memory)
    (R : σ → σ → Prop) (refl : ∀ s, R s s) (trans : ∀ {s t u}, R s t → R t u → R s u)
    (covers : ∀ i, (l = .resume i ∨ ∃ command, l = .start i command) →
      ∀ {s t}, D.guar i s t → R s t)
    (drifts : ∀ move memory outside, l = .drift move →
      sys.drift w.memory w.outside move = some (memory, outside) → R w.memory memory) :
    R w.memory v.memory := by
  rcases sys.step_cases moved with ⟨i, command, c, rfl, idle, found, rfl⟩ |
    ⟨i, choice, q, next, r, outside, rfl, waiting, served, rfl⟩ |
    ⟨i, q, r, next, rfl, answered, rfl⟩ | ⟨move, memory, outside, rfl, drifted, rfl⟩
  · have before := held i
    rw [show w.task i = ⟨.idle, (w.task i).log⟩ by rw [← idle]] at before
    apply Coro.Obeys.advance_guar (C := D.contract i) R refl trans (covers i (.inr ⟨command, rfl⟩))
    exact starts i command c rfl found before
  · exact refl w.memory
  · have before := held i
    simp only [TaskOk, answered] at before
    apply Coro.Obeys.advance_guar (C := D.contract i) R refl trans (covers i (.inl rfl))
    exact before.2.2 _ (D.refl _ _ _)
  · exact drifts move memory outside rfl drifted

end Discipline

end Binbot.Async
