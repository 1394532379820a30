import Binbot.Core.Dispatcher
import Binbot.Machine.Run

/-!
# Shutdown of the event bus

`stop()` clears the running flag before it waits for the queue, and the loop tests the
flag before each event. So the loop takes at most the one event that it is already
waiting for, and `stop()` comes back exactly when that is all there is.
-/
namespace Binbot

namespace LoopPhase

/-- The event that is being dispatched. -/
def inHand : LoopPhase → List BusEvent
  | .dispatching event _ _ => [event]
  | _ => []

/-- How many of `n` queued events the loop leaves behind once it is told to stop. -/
def leaves (n : ℕ) : LoopPhase → ℕ
  | .getting => n - 1
  | _ => n

@[simp] theorem inHand_created : created.inHand = [] := rfl
@[simp] theorem inHand_getting : getting.inHand = [] := rfl
@[simp] theorem inHand_exited : exited.inHand = [] := rfl
@[simp] theorem inHand_cancelled : cancelled.inHand = [] := rfl
@[simp] theorem inHand_dispatching (event : BusEvent) (current : Recipient)
    (rest : List Recipient) : (dispatching event current rest).inHand = [event] := rfl

@[simp] theorem leaves_created (n : ℕ) : created.leaves n = n := rfl
@[simp] theorem leaves_getting (n : ℕ) : getting.leaves n = n - 1 := rfl
@[simp] theorem leaves_exited (n : ℕ) : exited.leaves n = n := rfl
@[simp] theorem leaves_dispatching (n : ℕ) (event : BusEvent) (current : Recipient)
    (rest : List Recipient) : (dispatching event current rest).leaves n = n := rfl

@[simp] theorem leaves_zero (phase : LoopPhase) : phase.leaves 0 = 0 := by
  cases phase with
  | _ => rfl

end LoopPhase

namespace Dispatcher

variable (d : Dispatcher)

/-- How many queued events the loop leaves behind once it is told to stop. -/
def surplus : ℕ := d.loop.leaves d.bus.queue.length

/-- `stop()` is called with nothing queued beyond the event that the loop is waiting
for, and nothing is accepted while it waits. -/
def Quiet : Act → Prop
  | .stop => d.stopping = .notCalled → d.surplus = 0
  | .publish _ => d.stopping = .joining → ¬ d.bus.HasRoom
  | _ => True

instance : (act : Act) → Decidable (d.Quiet act)
  | .stop => inferInstanceAs (Decidable (_ → _))
  | .publish _ => inferInstanceAs (Decidable (_ → ¬ _))
  | .subscribe _ _ => .isTrue trivial
  | .subscribeAll _ => .isTrue trivial
  | .begin => .isTrue trivial
  | .wake => .isTrue trivial
  | .finish _ => .isTrue trivial
  | .resumeStop => .isTrue trivial

/-- `stop()` waits for events that the loop will not take. -/
def Wedged : Prop := d.stopping = .joining ∧ 0 < d.surplus

/-- The loop can go on. -/
def CanProceed : Prop := (d.step .wake).isSome ∨ (d.step (.finish false)).isSome

/-- While `stop()` waits the loop can go on, and has not returned over unfinished events;
once it has waited, all that was accepted before it has been dispatched. -/
structure Drains (d : Dispatcher) : Prop where
  unwedged : ¬ d.Wedged
  proceeds : d.stopping = .joining → d.CanProceed ∧ d.loop ≠ .exited
  delivered : d.stopping = .joined ∨ d.stopping = .stopped → d.promised <+: d.dispatched

/-- What holds between two actions. -/
structure Inv (d : Dispatcher) : Prop where
  count : d.unfinished = d.loop.inHand.length + d.bus.queue.length
  history : d.accepted = d.dispatched ++ d.loop.inHand ++ d.bus.queue
  running : d.running = true ↔ d.stopping = .notCalled
  active : d.stopping = .notCalled → d.loop ≠ .exited ∧ d.loop ≠ .cancelled
  joining : d.stopping = .joining → d.promised = d.accepted ∧ d.surplus = 0 ∧
    0 < d.unfinished ∧ d.loop ≠ .cancelled ∧ d.loop ≠ .created
  settled : d.stopping = .joined ∨ d.stopping = .stopped →
    d.promised <+: d.dispatched ∧ (d.loop = .exited ∨ d.loop = .cancelled)

/-- What holds at the head of the loop, with the queue `q`. -/
structure AtHead (d : Dispatcher) (q : List BusEvent) : Prop where
  count : d.unfinished = q.length
  history : d.accepted = d.dispatched ++ q
  running : d.running = true ↔ d.stopping = .notCalled
  resolved : d.stopping ≠ .joining
  settled : d.stopping ≠ .notCalled → d.promised <+: d.dispatched

variable {d}

/-- One event is done; `q` is left. -/
theorem atHead_taskDone {event : BusEvent} {q : List BusEvent}
    (count : d.unfinished = q.length + 1) (history : d.accepted = d.dispatched ++ event :: q)
    (running : d.running = true ↔ d.stopping = .notCalled)
    (phase : d.stopping = .notCalled ∨
      d.stopping = .joining ∧ d.promised = d.accepted ∧ q = []) :
    AtHead (d.taskDone event) q := by
  have left : d.unfinished - 1 = q.length := by omega
  have past : (d.taskDone event).accepted = (d.taskDone event).dispatched ++ q := by
    simp [taskDone, history]
  rcases phase with notCalled | ⟨waits, promised, none⟩
  · have still : (d.taskDone event).stopping = .notCalled := by simp [taskDone, notCalled]
    constructor
    · exact left
    · exact past
    · rw [still]
      simpa [taskDone, notCalled] using running
    · simp [still]
    · exact fun called => absurd still called
  · -- that was the last one, and resolves the join
    have zero : d.unfinished - 1 = 0 := by rw [left, none, List.length_nil]
    have resolved : (d.taskDone event).stopping = .joined := by simp [taskDone, waits, zero]
    constructor
    · exact left
    · exact past
    · rw [resolved]
      simpa [taskDone, waits] using running
    · simp [resolved]
    · intro _
      change d.promised <+: _
      rw [promised, history, none]
      exact List.prefix_refl _

/-- From the head of the loop to the next suspension. -/
theorem inv_loopHead {q : List BusEvent} (head : AtHead d q) : Inv (d.loopHead q) := by
  induction q generalizing d with
  | nil =>
    rw [loopHead]
    constructor
    · cases d.running <;> simpa using head.count
    · cases d.running <;> simpa using head.history
    · exact head.running
    · intro notCalled
      simp [head.running.mpr notCalled]
    · exact fun waits => absurd waits head.resolved
    · -- the join is resolved or over, and the loop returns
      intro done
      have called : d.stopping ≠ .notCalled := by
        rcases done with joined | stopped
        · simp [show d.stopping = .joined from joined]
        · simp [show d.stopping = .stopped from stopped]
      refine ⟨head.settled called, .inl ?_⟩
      simp [head.running, called]
  | cons event rest ih =>
    rw [loopHead]
    cases running : d.running with
    | false =>
      -- the flag is cleared, so `stop()` has been called
      have called : d.stopping ≠ .notCalled := fun notCalled => by
        rw [head.running.mpr notCalled] at running
        cases running
      rw [if_neg Bool.false_ne_true]
      constructor
      · simpa using head.count
      · simpa using head.history
      · simp [called]
      · exact fun notCalled => absurd notCalled called
      · exact fun waits => absurd waits head.resolved
      · exact fun _ => ⟨head.settled called, .inl rfl⟩
    | true =>
      have notCalled := head.running.mp running
      rw [if_pos rfl]
      split
      · -- nobody takes the event, and it is done at once
        apply ih
        exact atHead_taskDone head.count head.history head.running (.inl notCalled)
      next current others some =>
        constructor
        · simp [head.count, Nat.add_comm]
        · simp [head.history]
        · simp [notCalled]
        · simp
        · exact fun waits => absurd (notCalled.symm.trans waits) (by simp)
        · rintro (done | done)
          · exact absurd (notCalled.symm.trans done) (by simp)
          · exact absurd (notCalled.symm.trans done) (by simp)

/-- Where the loop still runs, `stop()` has not been called or waits. -/
theorem Inv.phase (held : Inv d) (unfinished : d.loop ≠ .exited ∧ d.loop ≠ .cancelled) :
    d.stopping = .notCalled ∨ d.stopping = .joining ∧ d.promised = d.accepted ∧ d.surplus = 0 := by
  cases phase : d.stopping with
  | notCalled => exact .inl rfl
  | joining => exact .inr ⟨rfl, (held.joining phase).1, (held.joining phase).2.1⟩
  | joined =>
    rcases (held.settled (.inl phase)).2 with exited | cancelled
    · exact absurd exited unfinished.1
    · exact absurd cancelled unfinished.2
  | stopped =>
    rcases (held.settled (.inr phase)).2 with exited | cancelled
    · exact absurd exited unfinished.1
    · exact absurd cancelled unfinished.2

/-- The waiting task takes the first event. -/
theorem inv_take {d' : Dispatcher} (held : Inv d) (waiting : d.loop = .getting)
    (took : d.take = some d') : Inv d' := by
  have count : d.unfinished = d.bus.queue.length := by simpa [waiting] using held.count
  have history : d.accepted = d.dispatched ++ d.bus.queue := by simpa [waiting] using held.history
  have phase := held.phase (by simp [waiting])
  rw [take] at took
  split at took
  · cases took
  next event rest queued =>
    simp only [surplus, waiting, queued, List.length_cons, LoopPhase.leaves_getting,
      Nat.add_sub_cancel, List.length_eq_zero_iff] at phase
    rw [queued] at count history
    split at took
    · cases took
      apply inv_loopHead
      exact atHead_taskDone count history held.running phase
    next current others _ =>
      cases took
      constructor
      · simp [count, Nat.add_comm]
      · simp [history]
      · exact held.running
      · simp
      · -- while `stop()` waits this was the last event in the queue
        intro waits
        obtain ⟨promised, -, busy, -⟩ := held.joining waits
        refine ⟨promised, ?_, busy, by simp, by simp⟩
        rcases phase with notCalled | ⟨-, -, none⟩
        · exact absurd (notCalled.symm.trans waits) (by simp)
        · simp [surplus, none]
      · intro done
        have ended := (held.settled done).2
        rw [waiting] at ended
        rcases ended with exited | cancelled
        · cases exited
        · cases cancelled

/-- Only the counters of a full queue change. -/
theorem inv_publish (held : Inv d) {event : BusEvent} (quiet : d.Quiet (.publish event)) :
    Inv (d.publish event) := by
  rw [publish]
  split
  next room =>
    have idle : d.stopping ≠ .joining := fun waits => quiet waits room
    have queue := d.bus.publish_queue room event
    constructor
    · have := held.count
      simp only [queue, List.length_append, List.length_singleton] at this ⊢
      omega
    · simp [queue, held.history]
    · exact held.running
    · exact held.active
    · exact fun waits => absurd waits idle
    · exact held.settled
  next full =>
    have queue := d.bus.publish_full full event
    constructor
    · simpa [queue] using held.count
    · simpa [queue] using held.history
    · exact held.running
    · exact held.active
    · intro waits
      simpa [surplus, queue] using held.joining waits
    · exact held.settled

theorem inv_stop (held : Inv d) (first : d.stopping = .notCalled) (quiet : d.Quiet .stop) :
    Inv d.stop := by
  have active := held.active first
  rw [stop]
  dsimp only
  split
  next idle =>
    have count := held.count
    have queue : d.bus.queue = [] := List.eq_nil_of_length_eq_zero (by omega)
    have hand : d.loop.inHand = [] := List.eq_nil_of_length_eq_zero (by omega)
    have history : d.accepted = d.dispatched := by simpa [queue, hand] using held.history
    constructor
    · simp [queue, idle]
    · simp [queue, history]
    · simp
    · simp
    · simp
    · intro _
      have whole : d.accepted <+: d.dispatched := by simp [history]
      exact ⟨whole, .inr rfl⟩
  next busy =>
    constructor
    · exact held.count
    · exact held.history
    · simp
    · simp
    · intro _
      refine ⟨rfl, quiet first, Nat.pos_of_ne_zero busy, active.2, ?_⟩
      -- a task that has not run would leave the whole queue behind
      intro unborn
      change d.loop = .created at unborn
      have count := held.count
      have none : d.surplus = 0 := quiet first
      simp only [surplus, unborn, LoopPhase.inHand_created, LoopPhase.leaves_created,
        List.length_nil] at count none
      exact busy (by omega)
    · rintro (done | done)
      · cases done
      · cases done

/-- The last recipient has returned, or one has raised. -/
theorem inv_finish (held : Inv d) {event : BusEvent} {current : Recipient} {rest : List Recipient}
    (dispatching : d.loop = .dispatching event current rest) :
    Inv ((d.taskDone event).loopHead d.bus.queue) := by
  have phase := held.phase (by simp [dispatching])
  simp only [surplus, dispatching, LoopPhase.leaves_dispatching, List.length_eq_zero_iff] at phase
  apply inv_loopHead
  apply atHead_taskDone
  · rw [held.count, dispatching]
    exact Nat.add_comm _ _
  · rw [held.history, dispatching]
    simp
  · exact held.running
  · exact phase

theorem inv_step {d' : Dispatcher} {act : Act} (held : Inv d) (quiet : d.Quiet act)
    (moved : d.step act = some d') : Inv d' := by
  cases act with
  | publish event =>
    cases moved
    exact inv_publish held quiet
  | subscribe type handler =>
    cases moved
    exact ⟨held.count, held.history, held.running, held.active, held.joining, held.settled⟩
  | subscribeAll handler =>
    cases moved
    exact ⟨held.count, held.history, held.running, held.active, held.joining, held.settled⟩
  | begin =>
    simp only [step] at moved
    split at moved
    next unborn =>
      cases moved
      apply inv_loopHead
      constructor
      · simpa [unborn] using held.count
      · simpa [unborn] using held.history
      · exact held.running
      · exact fun waits => (held.joining waits).2.2.2.2 unborn
      · intro called
        rcases held.phase (by simp [unborn]) with notCalled | ⟨waits, -⟩
        · exact absurd notCalled called
        · exact absurd unborn (held.joining waits).2.2.2.2
    · cases moved
  | wake =>
    simp only [step] at moved
    split at moved
    next waiting => exact inv_take held waiting moved
    · cases moved
  | finish raised =>
    simp only [step] at moved
    split at moved
    next event current rest dispatching =>
      split at moved
      next others next_ =>
        -- the next recipient of the same event
        cases moved
        constructor
        · simpa [dispatching] using held.count
        · simpa [dispatching] using held.history
        · exact held.running
        · simp
        · intro waits
          obtain ⟨promised, none, busy, -⟩ := held.joining waits
          exact ⟨promised, by simpa [surplus, dispatching] using none, busy, by simp, by simp⟩
        · intro done
          have ended := (held.settled done).2
          rw [dispatching] at ended
          rcases ended with exited | cancelled
          · cases exited
          · cases cancelled
      · cases moved
        exact inv_finish held dispatching
    · cases moved
  | stop =>
    simp only [step] at moved
    split at moved
    next first =>
      cases moved
      exact inv_stop held first quiet
    · cases moved
  | resumeStop =>
    simp only [step] at moved
    split at moved
    next resolved =>
      cases moved
      obtain ⟨promised, ended⟩ := held.settled (.inl resolved)
      have still : d.running = false := by
        rw [← Bool.not_eq_true, held.running, resolved]
        simp
      rcases ended with exited | cancelled
      · constructor
        · simpa [exited] using held.count
        · simpa [exited] using held.history
        · simp [still]
        · simp
        · simp
        · exact fun _ => ⟨promised, by simp [exited]⟩
      · constructor
        · simpa [cancelled] using held.count
        · simpa [cancelled] using held.history
        · simp [still]
        · simp
        · simp
        · exact fun _ => ⟨promised, by simp [cancelled]⟩
    · cases moved

theorem inv_started (bus : EventBus) (subscribers : Data.Dict EventType (List HandlerId))
    (globalSubscribers : List HandlerId) (redisConnected : Bool) :
    Inv (started bus subscribers globalSubscribers redisConnected) := by
  constructor
  · simp [started]
  · simp [started]
  · simp [started]
  · simp [started]
  · intro waits
    cases waits
  · rintro (done | done)
    · cases done
    · cases done

/-- Under the invariant the bus drains. -/
theorem Inv.drains (held : Inv d) : Drains d := by
  constructor
  · rintro ⟨waits, left⟩
    have none := (held.joining waits).2.1
    omega
  · intro waits
    obtain ⟨-, none, busy, uncancelled, born⟩ := held.joining waits
    have count := held.count
    cases loop : d.loop with
    | created => exact absurd loop born
    | cancelled => exact absurd loop uncancelled
    | exited =>
      simp only [surplus, loop, LoopPhase.inHand_exited, LoopPhase.leaves_exited,
        List.length_nil] at count none
      omega
    | getting =>
      refine ⟨.inl ?_, by simp⟩
      simp only [loop, LoopPhase.inHand_getting, List.length_nil] at count
      simp only [step, loop, if_pos, take]
      cases queue : d.bus.queue with
      | nil =>
        rw [queue, List.length_nil] at count
        omega
      | cons event rest =>
        dsimp only
        split
        · rfl
        · rfl
    | dispatching event current rest =>
      refine ⟨.inr ?_, by simp⟩
      simp only [step, loop]
      split
      · rfl
      · rfl
  · exact fun done => (held.settled done).1

/-- A step that breaks the condition leaves the bus wedged. -/
theorem wedged_of_not_quiet {d' : Dispatcher} {act : Act} (held : Inv d) (loud : ¬ d.Quiet act)
    (moved : d.step act = some d') : d'.Wedged := by
  cases act with
  | publish event =>
    cases moved
    -- the event is accepted while `stop()` waits
    have waits : d.stopping = .joining := by
      by_contra idle
      exact loud fun waits => absurd waits idle
    have room : d.bus.HasRoom := by
      by_contra full
      exact loud fun _ => full
    obtain ⟨-, none, busy, uncancelled, born⟩ := held.joining waits
    have count := held.count
    have queue := d.bus.publish_queue room event
    rw [publish, if_pos room]
    refine ⟨waits, ?_⟩
    simp only [surplus, queue, List.length_append, List.length_singleton] at none ⊢
    cases loop : d.loop with
    | getting =>
      simp only [loop, LoopPhase.inHand_getting, List.length_nil] at count
      simp only [LoopPhase.leaves_getting]
      omega
    | created => exact absurd loop born
    | cancelled => exact absurd loop uncancelled
    | exited => simp
    | dispatching event current rest => simp
  | stop =>
    simp only [step] at moved
    split at moved
    next first =>
      cases moved
      -- more is queued than the one event that the loop waits for
      have left : 0 < d.surplus := Nat.pos_of_ne_zero fun none => loud fun _ => none
      have busy : d.unfinished ≠ 0 := by
        have count := held.count
        intro zero
        have queue : d.bus.queue = [] := List.eq_nil_of_length_eq_zero (by omega)
        simp [surplus, queue] at left
      rw [stop]
      dsimp only
      rw [if_neg busy]
      exact ⟨rfl, left⟩
    · cases moved
  | _ => exact absurd trivial loud

/-- A loop that has been told to stop leaves at its next head. -/
theorem loopHead_stopped (stopped : d.running = false) (q : List BusEvent) :
    d.loopHead q = { d with bus := { d.bus with queue := q }, loop := .exited } := by
  cases q with
  | nil => simp [loopHead, stopped]
  | cons event rest => simp [loopHead, stopped]

/-- A wedged bus stays wedged, whatever happens: `stop()` never comes back. -/
structure WedgedFor (d : Dispatcher) : Prop where
  wedged : d.Wedged
  stopped : d.running = false
  count : d.unfinished = d.loop.inHand.length + d.bus.queue.length

theorem wedgedFor_taskDone {event : BusEvent} {q : List BusEvent} (waits : d.stopping = .joining)
    (stopped : d.running = false) (count : d.unfinished = q.length + 1) (left : 0 < q.length) :
    WedgedFor ((d.taskDone event).loopHead q) := by
  have zero : d.unfinished - 1 ≠ 0 := by omega
  have still : (d.taskDone event).stopping = .joining := by
    simp only [taskDone]
    rw [if_neg (not_and.mpr fun _ => zero)]
    exact waits
  rw [loopHead_stopped (d := d.taskDone event) stopped]
  refine ⟨⟨still, left⟩, stopped, ?_⟩
  simp only [taskDone, LoopPhase.inHand_exited, List.length_nil]
  omega

theorem WedgedFor.step {d' : Dispatcher} {act : Act} (held : WedgedFor d)
    (moved : d.step act = some d') : WedgedFor d' := by
  obtain ⟨⟨waits, left⟩, stopped, count⟩ := held
  cases act with
  | publish event =>
    cases moved
    rw [publish]
    split
    -- an accepted event joins those that are left behind
    next room =>
      have queue := d.bus.publish_queue room event
      refine ⟨⟨waits, ?_⟩, stopped, ?_⟩
      · simp only [surplus, queue, List.length_append, List.length_singleton] at left ⊢
        cases loop : d.loop with
        | getting =>
          rw [loop, LoopPhase.leaves_getting] at left
          rw [LoopPhase.leaves_getting]
          omega
        | _ => exact Nat.succ_pos _
      · simp only [queue, List.length_append, List.length_singleton]
        omega
    next full =>
      have queue := d.bus.publish_full full event
      refine ⟨⟨waits, ?_⟩, stopped, ?_⟩
      · simpa [surplus, queue] using left
      · simpa [queue] using count
  | subscribe type handler =>
    cases moved
    exact ⟨⟨waits, left⟩, stopped, count⟩
  | subscribeAll handler =>
    cases moved
    exact ⟨⟨waits, left⟩, stopped, count⟩
  | begin =>
    simp only [Dispatcher.step] at moved
    split at moved
    -- a loop that has not begun finds the flag cleared and takes nothing
    next unborn =>
      cases moved
      simp only [surplus, unborn, LoopPhase.leaves_created, LoopPhase.inHand_created,
        List.length_nil] at left count
      rw [loopHead_stopped stopped]
      exact ⟨⟨waits, left⟩, stopped, by simpa using count⟩
    · cases moved
  | wake =>
    simp only [Dispatcher.step] at moved
    split at moved
    next waiting =>
      rw [take] at moved
      split at moved
      · cases moved
      -- the event that the loop waits for is not one of those left behind
      next event rest queued =>
        simp only [surplus, waiting, queued, LoopPhase.leaves_getting, LoopPhase.inHand_getting,
          List.length_nil, List.length_cons] at left count
        split at moved
        · cases moved
          exact wedgedFor_taskDone waits stopped (by omega) (by omega)
        next current others _ =>
          cases moved
          refine ⟨⟨waits, ?_⟩, stopped, ?_⟩
          · simp only [surplus, LoopPhase.leaves_dispatching]
            omega
          · simp only [LoopPhase.inHand_dispatching, List.length_singleton]
            omega
    · cases moved
  | finish raised =>
    simp only [Dispatcher.step] at moved
    split at moved
    -- once this event is done the loop finds the flag cleared
    next event current rest dispatching =>
      simp only [surplus, dispatching, LoopPhase.leaves_dispatching, LoopPhase.inHand_dispatching,
        List.length_singleton] at left count
      split at moved
      · cases moved
        exact ⟨⟨waits, left⟩, stopped, count⟩
      · cases moved
        exact wedgedFor_taskDone waits stopped (by omega) left
    · cases moved
  | stop =>
    simp only [Dispatcher.step] at moved
    rw [if_neg (by simp [waits])] at moved
    cases moved
  | resumeStop =>
    simp only [Dispatcher.step] at moved
    rw [if_neg (by simp [waits])] at moved
    cases moved

/-- From a wedged bus every run leaves `stop()` waiting. -/
theorem wedgedFor_run {acts : List Act} {d' : Dispatcher} (held : WedgedFor d)
    (reached : Machine.run step d acts = some d') : d'.stopping = .joining :=
  (Machine.run_preserves WedgedFor (fun _ _ _ held moved => held.step moved) d acts d' held
    reached).wedged.1

/-- The bus drains in a run exactly when `stop()` is called with nothing queued beyond the
event that the loop is waiting for, and nothing is accepted while it waits. -/
theorem drains_iff_quiet (bus : EventBus) (subscribers : Data.Dict EventType (List HandlerId))
    (globalSubscribers : List HandlerId) (redisConnected : Bool) (acts : List Act) :
    Machine.Always step Drains (started bus subscribers globalSubscribers redisConnected) acts ↔
      Machine.Meets step Quiet (started bus subscribers globalSubscribers redisConnected) acts := by
  refine (Machine.meets_iff_always Inv Drains ?_ ?_ ?_ ?_ _ acts ?_).symm
  · exact fun d held => held.drains
  · exact fun d act d' held quiet moved => inv_step held quiet moved
  · intro d act d' held moved drains
    by_contra loud
    exact drains.unwedged (wedged_of_not_quiet held loud moved)
  · intro d act idle
    cases act with
    | stop =>
      intro first
      simp only [step] at idle
      rw [if_pos first] at idle
      cases idle
    | publish event => cases idle
    | _ => trivial
  · exact inv_started bus subscribers globalSubscribers redisConnected

/-- Two heartbeats, each for one handler. -/
def twoBeats : Dispatcher :=
  started { queue := [.heartbeat ⟨0, "feed", true⟩, .heartbeat ⟨1, "feed", true⟩] }
    (.ofList [(.heartbeat, [0])]) [] false

/-- `stop()` while the first of two events is handled: the loop returns and leaves the
second, and from there no run brings `stop()` back. -/
theorem stop_strands_second : ∃ d : Dispatcher,
    Machine.run step twoBeats [.begin, .stop, .finish false] = some d ∧ d.loop = .exited ∧
      d.unfinished = 1 ∧ d.promised.length = 2 ∧ d.dispatched.length = 1 ∧
      ∀ acts d', Machine.run step d acts = some d' → d'.stopping = .joining := by
  have ends : (Machine.run step twoBeats [.begin, .stop, .finish false]).map (fun d =>
      ((d.loop, d.stopping, d.running), d.unfinished, d.bus.queue.length, d.promised.length,
        d.dispatched.length)) = some ((.exited, .joining, false), 1, 1, 2, 1) := by decide +kernel
  obtain ⟨d, reached, seen⟩ := Option.map_eq_some_iff.mp ends
  simp only [Prod.mk.injEq] at seen
  obtain ⟨⟨exited, waits, stopped⟩, unfinished, queued, promised, dispatched⟩ := seen
  refine ⟨d, reached, exited, unfinished, promised, dispatched, ?_⟩
  intro acts d' later
  apply wedgedFor_run ⟨⟨waits, ?_⟩, stopped, ?_⟩ later
  · simp [surplus, exited, queued]
  · simp [exited, queued, unfinished]

end Dispatcher

end Binbot
