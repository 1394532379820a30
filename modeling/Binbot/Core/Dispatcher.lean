import Binbot.Core.EventBus
import Binbot.Data.Dict

/-!
# Dispatch loop of the event bus (`core/event_bus.py`)

The bus with its dispatch task and a call of `stop()`. The loop runs without
interruption from one suspension point to the next: it waits in `queue.get()`, or in
a handler, which may publish, return or raise whenever it is resumed.
-/
namespace Binbot

open Data

/-- A subscribed handler. -/
abbrev HandlerId : Type := ℕ

/-- What one event is handed to, one after the other. -/
inductive Recipient where
  | handler (id : HandlerId)
  /-- `_publish_redis`. -/
  | redis
  deriving DecidableEq, Repr

/-- Where the dispatch task stands. -/
inductive LoopPhase where
  /-- The task exists and has not run yet. -/
  | created
  /-- In `queue.get()`. -/
  | getting
  | dispatching (event : BusEvent) (current : Recipient) (rest : List Recipient)
  /-- The loop found `_running` false and returned. -/
  | exited
  | cancelled
  deriving DecidableEq

/-- Where a call of `stop()` stands. -/
inductive StopPhase where
  | notCalled
  /-- In `queue.join()`. -/
  | joining
  /-- The join is resolved; `stop()` has yet to be resumed. -/
  | joined
  | stopped
  deriving DecidableEq, Repr

structure Dispatcher where
  bus : EventBus
  subscribers : Dict EventType (List HandlerId) := .empty
  globalSubscribers : List HandlerId := []
  redisConnected : Bool := false
  running : Bool
  loop : LoopPhase
  /-- The queue's count of events that are put and not done. -/
  unfinished : ℕ
  stopping : StopPhase := .notCalled
  /-- Every event that was accepted, and every one that was dispatched. -/
  accepted : List BusEvent
  dispatched : List BusEvent := []
  /-- What was accepted before `stop()` was called. -/
  promised : List BusEvent := []

namespace Dispatcher

/-- The bus right after `start()`, with whatever was published before. -/
def started (bus : EventBus) (subscribers : Dict EventType (List HandlerId))
    (globalSubscribers : List HandlerId) (redisConnected : Bool) : Dispatcher where
  bus := bus
  subscribers := subscribers
  globalSubscribers := globalSubscribers
  redisConnected := redisConnected
  running := true
  loop := .created
  unfinished := bus.queue.length
  accepted := bus.queue

variable (d : Dispatcher)

/-- `(*handlers, *self._global_subscribers)`, and Redis after them. -/
def recipients (event : BusEvent) : List Recipient :=
  ((d.subscribers.getD event.eventType [] ++ d.globalSubscribers).map Recipient.handler) ++
    if d.redisConnected then [.redis] else []

/-- `publish`. -/
def publish (event : BusEvent) : Dispatcher :=
  if d.bus.HasRoom then
    { d with
      bus := d.bus.publish event
      unfinished := d.unfinished + 1
      accepted := d.accepted ++ [event] }
  else { d with bus := d.bus.publish event }

/-- `task_done()`, which resolves a pending join when nothing is left. -/
def taskDone (event : BusEvent) : Dispatcher :=
  { d with
    unfinished := d.unfinished - 1
    dispatched := d.dispatched ++ [event]
    stopping := if d.stopping = .joining ∧ d.unfinished - 1 = 0 then .joined else d.stopping }

/-- From the head of the loop to its next suspension, with this queue. An event that
nobody takes is done at once. -/
def loopHead (d : Dispatcher) : List BusEvent → Dispatcher
  | [] =>
    { d with
      bus := { d.bus with queue := [] }
      loop := if d.running then .getting else .exited }
  | event :: rest =>
    if d.running then
      match d.recipients event with
      | [] => loopHead (d.taskDone event) rest
      | current :: others =>
        { d with
          bus := { d.bus with queue := rest }
          loop := .dispatching event current others }
    else { d with bus := { d.bus with queue := event :: rest }, loop := .exited }

/-- `queue.get()` returns the first event. -/
def take : Option Dispatcher :=
  match d.bus.queue with
  | [] => none
  | event :: rest =>
    match d.recipients event with
    | [] => some ((d.taskDone event).loopHead rest)
    | current :: others =>
      some
        { d with
          bus := { d.bus with queue := rest }
          loop := .dispatching event current others }

/-- `stop()` up to its first suspension. An idle queue is joined at once, and the
task is cancelled. -/
def stop : Dispatcher :=
  let stopping := { d with running := false, promised := d.accepted }
  if d.unfinished = 0 then { stopping with loop := .cancelled, stopping := .stopped }
  else { stopping with stopping := .joining }

inductive Act where
  /-- Some task publishes; a handler may be that task. -/
  | publish (event : BusEvent)
  | subscribe (type : EventType) (handler : HandlerId)
  | subscribeAll (handler : HandlerId)
  /-- The dispatch task runs for the first time. -/
  | begin
  /-- The task waiting in `queue.get()` is resumed. -/
  | wake
  /-- The current recipient returns, or raises. -/
  | finish (raised : Bool)
  | stop
  /-- `stop()` goes on after the join. -/
  | resumeStop
  deriving DecidableEq

def step : Act → Option Dispatcher
  | .publish event => some (d.publish event)
  | .subscribe type handler =>
    some { d with subscribers := d.subscribers.set type (d.subscribers.getD type [] ++ [handler]) }
  | .subscribeAll handler => some { d with globalSubscribers := d.globalSubscribers ++ [handler] }
  | .begin => if d.loop = .created then some (d.loopHead d.bus.queue) else none
  | .wake => if d.loop = .getting then d.take else none
  | .finish raised =>
    match d.loop with
    | .dispatching event _ rest =>
      match rest, raised with
      | next :: others, false => some { d with loop := .dispatching event next others }
      -- the last has returned, or one has raised: the rest is skipped
      | _, _ => some ((d.taskDone event).loopHead d.bus.queue)
    | _ => none
  | .stop => if d.stopping = .notCalled then some d.stop else none
  | .resumeStop =>
    if d.stopping = .joined then
      some
        { d with
          stopping := .stopped
          -- cancelling a task that has returned does nothing
          loop := if d.loop = .exited then .exited else .cancelled }
    else none

end Dispatcher

end Binbot
