import Binbot.Core.Events

/-! # Event bus (`core/event_bus.py`) -/
namespace Binbot

inductive EventType where
  | tick
  | bar
  | orderBook
  | signal
  | orderAck
  | orderReject
  | execution
  | riskHalt
  | heartbeat
  deriving DecidableEq, Repr

inductive BusEvent where
  | signal (event : SignalEvent)
  | bar (event : BarEvent)
  | order (event : BrokerEvent)
  | tick (event : TickEvent)
  /-- The book of a symbol; no subscriber of this code reads its levels. -/
  | orderBook (symbol : Symbol)
  | riskHalt (event : RiskHaltEvent)
  | heartbeat (event : HeartbeatEvent)
  deriving DecidableEq

def BusEvent.eventType : BusEvent → EventType
  | .signal _ => .signal
  | .bar _ => .bar
  | .order (.ack _) => .orderAck
  | .order (.reject _) => .orderReject
  | .order (.execution _) => .execution
  | .tick _ => .tick
  | .orderBook _ => .orderBook
  | .riskHalt _ => .riskHalt
  | .heartbeat _ => .heartbeat

/-- The bounded queue of the dispatch loop and its counters. -/
structure EventBus where
  maxsize : ℕ := 100000
  queue : List BusEvent := []
  publishedCount : ℕ := 0
  droppedCount : ℕ := 0
  deriving DecidableEq

namespace EventBus

variable (self : EventBus)

/-- `publish`: an event that finds the queue full is dropped. A queue of size 0 is
unbounded. -/
def publish (event : BusEvent) : EventBus :=
  if 0 < self.maxsize ∧ self.maxsize ≤ self.queue.length then
    { self with droppedCount := self.droppedCount + 1 }
  else { self with queue := self.queue ++ [event], publishedCount := self.publishedCount + 1 }

/-- There is room for one more event. -/
def HasRoom : Prop := self.maxsize = 0 ∨ self.queue.length < self.maxsize

instance : Decidable self.HasRoom := inferInstanceAs (Decidable (_ ∨ _))

theorem publish_queue (room : self.HasRoom) (event : BusEvent) :
    (self.publish event).queue = self.queue ++ [event] := by
  rw [publish]
  rw [if_neg]
  rintro ⟨bounded, full⟩
  rcases room with unbounded | short
  · omega
  · omega

theorem publish_full (full : ¬ self.HasRoom) (event : BusEvent) :
    (self.publish event).queue = self.queue := by
  rw [publish]
  rw [if_pos]
  rw [HasRoom] at full
  omega

end EventBus

end Binbot
