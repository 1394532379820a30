import Binbot.Core.Dispatcher
import Binbot.Machine.Run

/-!
# Delivery of events

The loop calls the handlers of an event one after the other inside one `try`. So a
handler that raises keeps the event from the handlers after it. The loop itself goes on,
and every event before and after reaches its handlers in publish order.
-/
namespace Binbot

def Recipient.handler? : Recipient → Option HandlerId
  | .handler id => some id
  | .redis => none

namespace LoopPhase

/-- The handler call that the loop stands in. -/
def current : LoopPhase → List (BusEvent × HandlerId)
  | .dispatching event current _ => current.handler?.toList.map (event, ·)
  | _ => []

/-- The handler calls still to be made for the event in hand. -/
def ahead : LoopPhase → List (BusEvent × HandlerId)
  | .dispatching event _ rest => (rest.filterMap Recipient.handler?).map (event, ·)
  | _ => []

end LoopPhase

namespace Dispatcher

/-- The acts in which the loop itself runs. -/
def Act.turns : Act → Bool
  | .begin | .wake | .finish _ => true
  | _ => false

variable (d : Dispatcher)

/-- Whoever is subscribed to the type of an event, and whoever is to all. -/
def handlers (event : BusEvent) : List HandlerId :=
  d.subscribers.getD event.eventType [] ++ d.globalSubscribers

def addressed (events : List BusEvent) : List (BusEvent × List HandlerId) :=
  events.map fun event => (event, d.handlers event)

end Dispatcher

/-- The bus with a record of who was called with what. -/
structure Delivery where
  bus : Dispatcher
  /-- Each accepted event, with the handlers it had when it was published. -/
  posted : List (BusEvent × List HandlerId)
  /-- Each event taken off the queue, with the handlers it had then. -/
  taken : List (BusEvent × List HandlerId) := []
  /-- The calls of handlers, in their order. -/
  called : List (BusEvent × HandlerId) := []

/-- Each handler once, for one event after the other. -/
def owed (taken : List (BusEvent × List HandlerId)) : List (BusEvent × HandlerId) :=
  taken.flatMap fun entry => entry.2.map (entry.1, ·)

/-- The same event, and no handler lost. -/
def Covers (posted taken : BusEvent × List HandlerId) : Prop :=
  posted.1 = taken.1 ∧ posted.2.Sublist taken.2

namespace Delivery

/-- Right after `start()`. -/
def started (bus : EventBus) (subscribers : Data.Dict EventType (List HandlerId))
    (globalSubscribers : List HandlerId) (redisConnected : Bool) : Delivery :=
  let d := Dispatcher.started bus subscribers globalSubscribers redisConnected
  { bus := d, posted := d.addressed bus.queue }

variable (s : Delivery)

def step (act : Dispatcher.Act) : Option Delivery :=
  (s.bus.step act).map fun after =>
    let gone := s.bus.bus.queue.length - after.bus.queue.length
    { bus := after
      posted := s.posted ++ s.bus.addressed (after.accepted.drop s.bus.accepted.length)
      taken := s.taken ++ s.bus.addressed (s.bus.bus.queue.take gone)
      called := s.called ++ if act.turns then after.loop.current else [] }

/-- What the handlers have received and what the bus still holds for them. -/
structure Delivered : Prop where
  /-- Nothing is lost, doubled or overtaken between publication and dispatch. -/
  ordered : s.taken.map Prod.fst ++ s.bus.bus.queue = s.bus.accepted
  /-- Every handler of a dispatched event is called with it exactly once, in order. -/
  once : s.called ++ s.bus.loop.ahead = owed s.taken
  /-- No event is kept from a handler it had when it was published. -/
  everyone : List.Forall₂ Covers s.posted (s.taken ++ s.bus.addressed s.bus.bus.queue)
  /-- The loop is there for what is still to come. -/
  alive : s.bus.loop ≠ .exited ∧ s.bus.loop ≠ .cancelled

/-- A handler raises only where no other handler comes after it. -/
def RaisesLast : Dispatcher.Act → Prop
  | .finish true => s.bus.running = true → s.bus.loop.ahead = []
  | _ => True

end Delivery

section Coverage

theorem covers_refl (entries : List (BusEvent × List HandlerId)) :
    List.Forall₂ Covers entries entries := by
  induction entries with
  | nil => exact .nil
  | cons entry rest ih => exact .cons ⟨rfl, List.Sublist.refl _⟩ ih

theorem covers_trans {a b c : List (BusEvent × List HandlerId)} (first : List.Forall₂ Covers a b)
    (second : List.Forall₂ Covers b c) : List.Forall₂ Covers a c := by
  induction first generalizing c with
  | nil => exact second
  | cons here _ ih =>
    cases second with
    | cons there rest => exact .cons ⟨here.1.trans there.1, here.2.trans there.2⟩ (ih rest)

theorem covers_append {a b c d : List (BusEvent × List HandlerId)}
    (first : List.Forall₂ Covers a b) (second : List.Forall₂ Covers c d) :
    List.Forall₂ Covers (a ++ c) (b ++ d) := by
  induction first with
  | nil => exact second
  | cons here _ ih => exact .cons here ih

/-- Later subscriptions only add handlers. -/
theorem covers_addressed {d e : Dispatcher}
    (grows : ∀ event, (d.handlers event).Sublist (e.handlers event)) (events : List BusEvent) :
    List.Forall₂ Covers (d.addressed events) (e.addressed events) := by
  induction events with
  | nil => exact .nil
  | cons event rest ih => exact .cons ⟨rfl, grows event⟩ ih

end Coverage

namespace Dispatcher

variable {d : Dispatcher}

theorem recipients_filterMap (event : BusEvent) :
    (d.recipients event).filterMap Recipient.handler? = d.handlers event := by
  have named : ∀ ids : List HandlerId,
      (ids.map Recipient.handler).filterMap Recipient.handler? = ids := by
    intro ids
    induction ids with
    | nil => rfl
    | cons id rest ih => simpa [Recipient.handler?] using ih
  have redis : (if d.redisConnected then [Recipient.redis] else []).filterMap
      Recipient.handler? = [] := by
    split
    · rfl
    · rfl
  rw [recipients, List.filterMap_append, named, redis, List.append_nil, handlers]

/-- What a turn of the loop does with the queue `q`. -/
structure Turned (d : Dispatcher) (q : List BusEvent) (e : Dispatcher) : Prop where
  /-- The queue loses a front part, and the calls made and begun are those owed for it. -/
  gone : ∃ front, q = front ++ e.bus.queue ∧
    e.loop.current ++ e.loop.ahead = owed (d.addressed front)
  accepted : e.accepted = d.accepted
  handlers : ∀ event, e.handlers event = d.handlers event
  running : e.running = true
  idle : d.stopping = .notCalled → e.stopping = .notCalled
  alive : e.loop ≠ .exited ∧ e.loop ≠ .cancelled

theorem taskDone_idle (event : BusEvent) (notCalled : d.stopping = .notCalled) :
    (d.taskDone event).stopping = .notCalled := by
  simp [taskDone, notCalled]

/-- The first recipient of an event is called. -/
theorem turned_dispatch {event : BusEvent} {rest : List BusEvent} {current : Recipient}
    {others : List Recipient} (running : d.running = true)
    (some : d.recipients event = current :: others) :
    Turned d (event :: rest)
      { d with bus := { d.bus with queue := rest }, loop := .dispatching event current others } where
  gone := by
    -- what is owed for the event is the call that is begun and those after it
    refine ⟨[event], rfl, ?_⟩
    have all := d.recipients_filterMap event
    rw [some] at all
    rw [addressed, List.map_singleton, owed, List.flatMap_singleton, ← all]
    cases current with
    | handler id => rfl
    | redis => rfl
  accepted := rfl
  handlers _ := rfl
  running := running
  idle := id
  alive := by simp

theorem turned_loopHead (running : d.running = true) (q : List BusEvent) :
    Turned d q (d.loopHead q) := by
  induction q generalizing d with
  | nil =>
    rw [loopHead, if_pos running]
    exact ⟨⟨[], rfl, rfl⟩, rfl, fun _ => rfl, running, id, by simp⟩
  | cons event rest ih =>
    rw [loopHead, if_pos running]
    split
    next nobody =>
      -- an event without recipients owes nothing
      have later : Turned (d.taskDone event) rest ((d.taskDone event).loopHead rest) := ih running
      obtain ⟨front, split, calls⟩ := later.gone
      have none : d.handlers event = [] := by
        rw [← d.recipients_filterMap event, nobody]
        rfl
      refine ⟨⟨event :: front, congrArg (event :: ·) split, ?_⟩, later.accepted, later.handlers,
        later.running, fun notCalled => later.idle (taskDone_idle event notCalled), later.alive⟩
      rw [calls, addressed, addressed, List.map_cons, owed, owed, List.flatMap_cons, none]
      rfl
    next current others some => exact turned_dispatch running some

/-- The waiting task goes through the head of the loop. -/
theorem turned_take {e : Dispatcher} (running : d.running = true) (took : d.take = some e) :
    Turned d d.bus.queue e := by
  rw [take] at took
  split at took
  · cases took
  next event rest queued =>
    have head := turned_loopHead running (event :: rest)
    rw [loopHead, if_pos running] at head
    rw [queued]
    split at took
    next nobody =>
      cases took
      simpa only [nobody] using head
    next current others some =>
      cases took
      exact turned_dispatch running some

/-- A loop that is created or wakes up has no call left to make. -/
theorem turned_begin {e : Dispatcher} (running : d.running = true)
    (begun : d.step .begin = some e) : d.loop.ahead = [] ∧ Turned d d.bus.queue e := by
  rw [step] at begun
  split at begun
  next created =>
    cases begun
    exact ⟨by rw [created]; rfl, turned_loopHead running d.bus.queue⟩
  next => cases begun

theorem turned_wake {e : Dispatcher} (running : d.running = true)
    (woken : d.step .wake = some e) : d.loop.ahead = [] ∧ Turned d d.bus.queue e := by
  rw [step] at woken
  split at woken
  next waiting => exact ⟨by rw [waiting]; rfl, turned_take running woken⟩
  next => cases woken

end Dispatcher

namespace Dispatcher

@[simp] theorem loopHead_running (d : Dispatcher) (q : List BusEvent) :
    (d.loopHead q).running = d.running := by
  induction q generalizing d with
  | nil => rfl
  | cons event rest ih =>
    rw [loopHead]
    split
    · split
      · exact ih (d.taskDone event)
      · rfl
    · rfl

@[simp] theorem stop_running (d : Dispatcher) : d.stop.running = false := by
  rw [stop]
  dsimp only
  split
  · rfl
  · rfl

/-- Nothing starts a stopped bus again. -/
theorem running_of_step {d e : Dispatcher} {act : Act} (taken : d.step act = some e)
    (up : e.running = true) : d.running = true := by
  cases act with
  | publish event =>
    cases taken
    rw [publish] at up
    split at up
    · exact up
    · exact up
  | subscribe type handler =>
    cases taken
    exact up
  | subscribeAll handler =>
    cases taken
    exact up
  | begin =>
    rw [step] at taken
    split at taken
    · cases taken
      rwa [loopHead_running] at up
    · cases taken
  | wake =>
    rw [step] at taken
    split at taken
    · rw [take] at taken
      split at taken
      · cases taken
      · split at taken
        · cases taken
          rwa [loopHead_running] at up
        · cases taken
          exact up
    · cases taken
  | finish raised =>
    rw [step] at taken
    split at taken
    · split at taken
      · cases taken
        exact up
      · cases taken
        rwa [loopHead_running] at up
    · cases taken
  | stop =>
    rw [step] at taken
    split at taken
    · cases taken
      rw [stop_running] at up
      cases up
    · cases taken
  | resumeStop =>
    rw [step] at taken
    split at taken
    · cases taken
      exact up
    · cases taken

/-- Publishing appends the event, or nothing when it is dropped. -/
theorem publish_appends (d : Dispatcher) (event : BusEvent) :
    ∃ new, (d.publish event).bus.queue = d.bus.queue ++ new ∧
      (d.publish event).accepted = d.accepted ++ new ∧ (d.publish event).loop = d.loop ∧
      ∀ other, (d.publish event).handlers other = d.handlers other := by
  rw [publish]
  split
  next room =>
    refine ⟨[event], ?_, rfl, rfl, fun _ => rfl⟩
    exact d.bus.publish_queue room event
  next full =>
    refine ⟨[], ?_, ?_, rfl, fun _ => rfl⟩
    · rw [List.append_nil]
      exact d.bus.publish_full full event
    · rw [List.append_nil]

end Dispatcher

namespace Delivery

variable {s t : Delivery}

theorem delivered_started (bus : EventBus) (subscribers : Data.Dict EventType (List HandlerId))
    (globalSubscribers : List HandlerId) (redisConnected : Bool) :
    Delivered (started bus subscribers globalSubscribers redisConnected) where
  ordered := rfl
  once := rfl
  everyone := covers_refl _
  alive := by simp [started, Dispatcher.started]

/-- The record after a turn of the loop, whatever the calls of the last event came to. -/
theorem step_turn {act : Dispatcher.Act} {e : Dispatcher} (turns : act.turns = true)
    (taken : s.bus.step act = some e) (turned : Dispatcher.Turned s.bus s.bus.bus.queue e)
    (moved : s.step act = some t) :
    t.bus = e ∧ t.posted = s.posted ∧
      ∃ front, s.bus.bus.queue = front ++ e.bus.queue ∧
        t.taken = s.taken ++ s.bus.addressed front ∧
        t.called ++ e.loop.ahead = s.called ++ owed (s.bus.addressed front) := by
  obtain ⟨front, split, calls⟩ := turned.gone
  rw [step, taken, Option.map_some, Option.some.injEq] at moved
  subst moved
  have length : s.bus.bus.queue.length - e.bus.queue.length = front.length := by
    rw [split, List.length_append, Nat.add_sub_cancel]
  have left : s.bus.bus.queue.take (s.bus.bus.queue.length - e.bus.queue.length) = front := by
    rw [length, split, List.take_left]
  refine ⟨rfl, ?_, front, split, ?_, ?_⟩
  · simp [turned.accepted, Dispatcher.addressed]
  · dsimp only
    rw [left]
  · rw [turns, if_pos rfl, List.append_assoc, calls]

/-- A turn of the loop in which no call was skipped. -/
theorem Delivered.turn {act : Dispatcher.Act} {e : Dispatcher} (held : Delivered s)
    (turns : act.turns = true) (done : s.bus.loop.ahead = []) (taken : s.bus.step act = some e)
    (turned : Dispatcher.Turned s.bus s.bus.bus.queue e) (moved : s.step act = some t) :
    Delivered t := by
  obtain ⟨bus, posted, front, split, later, calls⟩ := step_turn turns taken turned moved
  -- nothing was skipped, so that all that was owed has been called
  have called : s.called = owed s.taken := by simpa [done] using held.once
  have addressed : e.addressed = s.bus.addressed := by
    funext events
    rw [Dispatcher.addressed, Dispatcher.addressed]
    simp only [turned.handlers]
  constructor
  · rw [bus, later, turned.accepted, ← held.ordered, split]
    simp [Dispatcher.addressed, Function.comp_def]
  · rw [bus, calls, called, later, owed, owed, owed, List.flatMap_append]
  · rw [bus, posted, later, addressed, List.append_assoc]
    have everyone := held.everyone
    rw [split] at everyone
    simpa [Dispatcher.addressed] using everyone
  · rw [bus]
    exact turned.alive

/-- A turn that skips a call is never made up for. -/
theorem Delivered.not_skipped {act : Dispatcher.Act} {e : Dispatcher} (held : Delivered s)
    (turns : act.turns = true) (taken : s.bus.step act = some e)
    (turned : Dispatcher.Turned s.bus s.bus.bus.queue e) (moved : s.step act = some t)
    (after : Delivered t) : s.bus.loop.ahead = [] := by
  obtain ⟨bus, -, front, -, later, calls⟩ := step_turn turns taken turned moved
  have once := after.once
  rw [bus, calls, later, owed, owed, List.flatMap_append] at once
  have called : s.called = owed s.taken := List.append_cancel_right once
  -- the calls that the turn adds are those of new events, so nothing was left of the old one
  have before := held.once
  rw [← called] at before
  exact List.append_right_eq_self.mp before

/-- An act outside the loop leaves the calls alone. -/
theorem Delivered.elsewhere {e : Dispatcher} (held : Delivered s) (loop : e.loop = s.bus.loop)
    {new : List BusEvent} (queue : e.bus.queue = s.bus.bus.queue ++ new)
    (accepted : e.accepted = s.bus.accepted ++ new)
    (grows : ∀ event, (s.bus.handlers event).Sublist (e.handlers event)) :
    Delivered
      { bus := e
        posted := s.posted ++ s.bus.addressed new
        taken := s.taken
        called := s.called } where
  ordered := by
    simp only
    rw [queue, accepted, ← held.ordered, List.append_assoc]
  once := by
    simp only
    rw [loop, held.once]
  everyone := by
    have split : e.addressed e.bus.queue = e.addressed s.bus.bus.queue ++ e.addressed new := by
      rw [queue, Dispatcher.addressed, List.map_append]
      rfl
    simp only
    rw [split, ← List.append_assoc]
    -- events in the queue gain handlers, and new ones come with those of now
    apply covers_append
    · exact covers_trans held.everyone
        (covers_append (covers_refl _) (covers_addressed grows s.bus.bus.queue))
    · exact covers_addressed grows new
  alive := loop ▸ held.alive

/-- What a step of the record is when the loop does not run. -/
theorem step_elsewhere {act : Dispatcher.Act} {e : Dispatcher} {new : List BusEvent}
    (rests : act.turns = false) (taken : s.bus.step act = some e)
    (queue : e.bus.queue = s.bus.bus.queue ++ new) (accepted : e.accepted = s.bus.accepted ++ new)
    (moved : s.step act = some t) :
    t = { bus := e
          posted := s.posted ++ s.bus.addressed new
          taken := s.taken
          called := s.called } := by
  rw [step, taken, Option.map_some, Option.some.injEq] at moved
  rw [← moved]
  simp [rests, queue, accepted, Dispatcher.addressed]

theorem Delivered.publish {event : BusEvent} (held : Delivered s)
    (moved : s.step (.publish event) = some t) : Delivered t := by
  obtain ⟨new, queue, accepted, loop, handlers⟩ := s.bus.publish_appends event
  rw [step_elsewhere rfl rfl queue accepted moved]
  exact held.elsewhere loop queue accepted fun other => handlers other ▸ List.Sublist.refl _

theorem Delivered.subscribe {act : Dispatcher.Act} {e : Dispatcher} (held : Delivered s)
    (rests : act.turns = false) (taken : s.bus.step act = some e) (bus : e.bus = s.bus.bus)
    (accepted : e.accepted = s.bus.accepted) (loop : e.loop = s.bus.loop)
    (grows : ∀ event, (s.bus.handlers event).Sublist (e.handlers event))
    (moved : s.step act = some t) : Delivered t := by
  have queue : e.bus.queue = s.bus.bus.queue ++ [] := by rw [bus, List.append_nil]
  have accepted' : e.accepted = s.bus.accepted ++ [] := by rw [accepted, List.append_nil]
  rw [step_elsewhere rests taken queue accepted' moved]
  exact held.elsewhere loop queue accepted' grows

/-- A finished call leads to the next handler, or ends the event. -/
theorem step_finish {raised : Bool} {e : Dispatcher} (running : s.bus.running = true)
    (taken : s.bus.step (.finish raised) = some e) :
    (∃ event current next others, s.bus.loop = .dispatching event current (next :: others) ∧
      raised = false ∧ e = { s.bus with loop := .dispatching event next others }) ∨
    (raised = false → s.bus.loop.ahead = []) ∧
      Dispatcher.Turned s.bus s.bus.bus.queue e := by
  rw [Dispatcher.step] at taken
  split at taken
  next event current rest loop =>
    split at taken
    next next others =>
      cases taken
      exact .inl ⟨event, current, next, others, loop, rfl, rfl⟩
    next last =>
      cases taken
      -- an exception or the last handler: `task_done`, and back to the head of the loop
      refine .inr ⟨?_, ?_⟩
      · rintro rfl
        cases rest with
        | nil => rw [loop]; rfl
        | cons next others => exact absurd rfl (last next others rfl)
      · have turned :=
          Dispatcher.turned_loopHead (d := s.bus.taskDone event) running s.bus.bus.queue
        have idle : s.bus.stopping = .notCalled →
            ((s.bus.taskDone event).loopHead s.bus.bus.queue).stopping = .notCalled := by
          intro notCalled
          exact turned.idle (Dispatcher.taskDone_idle event notCalled)
        exact ⟨turned.gone, turned.accepted, turned.handlers, turned.running, idle, turned.alive⟩
  · cases taken

/-- The invariant of a running bus. -/
def Inv (s : Delivery) : Prop :=
  s.bus.running = true → Delivered s ∧ s.bus.stopping = .notCalled

theorem inv_turn {act : Dispatcher.Act} {e : Dispatcher} (held : Delivered s)
    (idle : s.bus.stopping = .notCalled) (turns : act.turns = true)
    (done : s.bus.loop.ahead = []) (taken : s.bus.step act = some e)
    (turned : Dispatcher.Turned s.bus s.bus.bus.queue e) (moved : s.step act = some t) : Inv t := by
  intro _
  obtain ⟨bus, -⟩ := step_turn turns taken turned moved
  exact ⟨held.turn turns done taken turned moved, by rw [bus]; exact turned.idle idle⟩

/-- The next handler of the event in hand is called. -/
theorem inv_next {event : BusEvent} {current next : Recipient} {others : List Recipient}
    (held : Delivered s) (idle : s.bus.stopping = .notCalled)
    (loop : s.bus.loop = .dispatching event current (next :: others))
    (taken : s.bus.step (.finish false) =
      some { s.bus with loop := .dispatching event next others })
    (moved : s.step (.finish false) = some t) : Inv t := by
  intro _
  rw [step, taken, Option.map_some, Option.some.injEq] at moved
  subst moved
  refine ⟨⟨?_, ?_, ?_, by simp⟩, idle⟩
  · simpa [Dispatcher.addressed] using held.ordered
  · -- one call less is ahead, and one more has been made
    have once := held.once
    rw [loop] at once
    simp only [Dispatcher.Act.turns, if_true, Nat.sub_self, List.take_zero, Dispatcher.addressed,
      List.map_nil, List.append_nil, ← once, List.append_assoc, LoopPhase.current, LoopPhase.ahead]
    cases next with
    | handler id => rfl
    | redis => rfl
  · simp only [Nat.sub_self, List.take_zero, Dispatcher.addressed, List.map_nil, List.append_nil,
      List.drop_length]
    exact held.everyone

theorem inv_step {act : Dispatcher.Act} (held : Inv s) (last : s.RaisesLast act)
    (moved : s.step act = some t) : Inv t := by
  intro up
  obtain ⟨e, taken, bus⟩ := Option.map_eq_some_iff.mp moved
  have same : t.bus = e := by rw [← bus]
  rw [same] at up
  have running := Dispatcher.running_of_step taken up
  obtain ⟨delivered, idle⟩ := held running
  cases act with
  | publish event =>
    refine ⟨delivered.publish moved, ?_⟩
    cases taken
    rw [same, Dispatcher.publish]
    split
    · exact idle
    · exact idle
  | subscribe type handler =>
    have shape := Option.some.inj taken
    refine ⟨delivered.subscribe rfl taken (by rw [← shape]) (by rw [← shape]) (by rw [← shape])
      ?_ moved, by rw [same, ← shape]; exact idle⟩
    intro event
    rw [← shape]
    apply List.Sublist.append _ (List.Sublist.refl _)
    simp only [Data.Dict.getD, Data.Dict.get?_set]
    split
    next here => simp [here]
    next => exact List.Sublist.refl _
  | subscribeAll handler =>
    have shape := Option.some.inj taken
    refine ⟨delivered.subscribe rfl taken (by rw [← shape]) (by rw [← shape]) (by rw [← shape])
      ?_ moved, by rw [same, ← shape]; exact idle⟩
    intro event
    rw [← shape]
    exact List.Sublist.append (List.Sublist.refl _) (List.sublist_append_left _ _)
  | begin =>
    obtain ⟨done, turned⟩ := Dispatcher.turned_begin running taken
    exact inv_turn delivered idle rfl done taken turned moved (by rw [same]; exact up)
  | wake =>
    obtain ⟨done, turned⟩ := Dispatcher.turned_wake running taken
    exact inv_turn delivered idle rfl done taken turned moved (by rw [same]; exact up)
  | finish raised =>
    rcases step_finish running taken with ⟨event, current, next, others, loop, calm, shape⟩ | ended
    · -- the next handler of the same event
      subst calm shape
      exact inv_next delivered idle loop taken moved (by rw [same]; exact up)
    · obtain ⟨returned, turned⟩ := ended
      have done : s.bus.loop.ahead = [] := by
        cases raised with
        | false => exact returned rfl
        | true => exact last running
      exact inv_turn delivered idle rfl done taken turned moved (by rw [same]; exact up)
  | stop =>
    -- `stop()` takes the bus down
    rw [Dispatcher.step, if_pos idle, Option.some.injEq] at taken
    rw [← taken, Dispatcher.stop_running] at up
    cases up
  | resumeStop =>
    -- no `stop()` has been called that could go on
    rw [Dispatcher.step, if_neg (by simp [idle])] at taken
    cases taken

/-- Where a handler is skipped, its call stays missing. -/
theorem raisesLast_of_delivered {act : Dispatcher.Act} (held : Inv s)
    (moved : s.step act = some t) (after : t.bus.running = true → Delivered t) :
    s.RaisesLast act := by
  rcases act with _ | _ | _ | _ | _ | ⟨_ | _⟩ | _ | _
  case finish.true =>
    intro running
    obtain ⟨e, taken, bus⟩ := Option.map_eq_some_iff.mp moved
    rcases step_finish running taken with ⟨_, _, _, _, _, calm, _⟩ | ⟨-, turned⟩
    · cases calm
    · have up : t.bus.running = true := by
        rw [← bus]
        exact turned.running
      exact (held running).1.not_skipped rfl taken turned moved (after up)
  all_goals trivial

theorem raisesLast_of_idle {act : Dispatcher.Act} (idle : s.step act = none) :
    s.RaisesLast act := by
  rcases act with _ | _ | _ | _ | _ | ⟨_ | _⟩ | _ | _
  case finish.true =>
    intro _
    rw [step, Option.map_eq_none_iff, Dispatcher.step] at idle
    split at idle
    · split at idle
      · cases idle
      · cases idle
    next other =>
      cases loop : s.bus.loop with
      | dispatching event current rest => exact absurd loop (other event current rest)
      | _ => rfl
  all_goals trivial

/-- While the bus runs every accepted event reaches every handler it has exactly once, in
publish order, exactly as long as a handler raises only where no handler comes after it. -/
theorem delivery (bus : EventBus) (subscribers : Data.Dict EventType (List HandlerId))
    (globalSubscribers : List HandlerId) (redisConnected : Bool) (acts : List Dispatcher.Act) :
    Machine.Meets step RaisesLast
        (started bus subscribers globalSubscribers redisConnected) acts ↔
      Machine.Always step (fun s => s.bus.running = true → Delivered s)
        (started bus subscribers globalSubscribers redisConnected) acts := by
  apply Machine.meets_iff_always Inv
  · exact fun s held running => (held running).1
  · exact fun s act t held last moved => inv_step held last moved
  · exact fun s act t held moved after => raisesLast_of_delivered held moved after
  · exact fun s act idle => raisesLast_of_idle idle
  · exact fun _ => ⟨delivered_started bus subscribers globalSubscribers redisConnected, rfl⟩

/-- Two handlers of all events, of which the first raises: the second gets nothing. -/
theorem first_handler_raises :
    ¬ ∀ (bus : EventBus) (subscribers : Data.Dict EventType (List HandlerId))
      (globalSubscribers : List HandlerId) (redisConnected : Bool) (acts : List Dispatcher.Act),
      Machine.Always step (fun s => s.bus.running = true → Delivered s)
        (started bus subscribers globalSubscribers redisConnected) acts := by
  intro claim
  have always := claim {} .empty [1, 2] false
    [.publish (.heartbeat ⟨0, "feed", true⟩), .begin, .finish true]
  have delivered := always.reached rfl rfl
  have once := delivered.once
  revert once
  decide

end Delivery

end Binbot
