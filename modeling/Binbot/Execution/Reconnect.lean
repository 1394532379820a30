import Binbot.Core.Events
import Binbot.Machine.Run

/-!
# Connecting again

Each connection of the program is kept by a loop of one form: it tries, it waits after a failure,
twice as long each time up to a bound, and a connection that opens sets the wait back. What uses
the connection ends in a failure as well.
-/
namespace Binbot

/-- `reconnect_backoff_s` and `reconnect_backoff_max_s`, in microseconds. -/
structure Backoff where
  backoff : ℤ := 2000000
  backoffMax : ℤ := 60000000

inductive LinkPhase where
  | connecting
  | connected
  | waiting (since : Timestamp) (delay : ℤ)
  deriving DecidableEq

/-- A loop, and the times at which it has tried to connect. -/
structure Link where
  phase : LinkPhase := .connecting
  backoff : ℤ
  clock : Timestamp
  attempts : List Timestamp
  deriving DecidableEq

inductive LinkAct where
  | opened
  /-- The attempt fails, or the connection is lost. -/
  | lost
  /-- The wait is over. -/
  | wake
  deriving DecidableEq

namespace Backoff

variable (p : Backoff)

def start (now : Timestamp) : Link where
  backoff := p.backoff
  clock := now
  attempts := [now]

/-- The wait is doubled when it begins, which is when the browser does it; the loops in Python do
it when it ends, and nothing reads it in between. -/
def turn (s : Link) (now : Timestamp) : LinkAct → Option Link
  | .opened =>
    match s.phase with
    | .connecting => some { s with phase := .connected, backoff := p.backoff }
    | _ => none
  | .lost =>
    match s.phase with
    | .waiting _ _ => none
    | _ =>
      some { s with
        phase := .waiting now s.backoff
        backoff := min (s.backoff * 2) p.backoffMax }
  | .wake =>
    match s.phase with
    | .waiting since delay =>
      if now < since + delay then none
      else some { s with phase := .connecting, attempts := s.attempts ++ [now] }
    | _ => none

def step (s : Link) : Timestamp × LinkAct → Option Link
  | (now, act) => if now < s.clock then none else p.turn { s with clock := now } now act

end Backoff

/-- `connect`, which stops at the first client. -/
def BinanceFuturesBroker.connectLoop : Backoff := {}

/-- `_consume_user_stream` -/
def BinanceFuturesBroker.consumeUserStreamLoop : Backoff := {}

/-- `_connect_with_retry`, which stops at the first connection. -/
def IbkrBroker.connectWithRetryLoop : Backoff := {}

/-- `connect` and `scheduleReconnect` of the browser. -/
def LiveWebSocketClient.connectLoop : Backoff where
  backoff := 1000000
  backoffMax := 15000000

/-! ## The heartbeat of the IBKR adapter -/

/-- `heartbeat_interval_s` and `heartbeat_timeout_s`, in microseconds. -/
structure HeartbeatParams where
  link : Backoff := IbkrBroker.connectWithRetryLoop
  interval : ℤ := 5000000
  timeout : ℤ := 15000000

inductive HeartbeatStage where
  | starting
  | reconnecting
  /-- `reconcile_state` after a reconnect. -/
  | reconciling
  | sleeping (since : Timestamp)
  /-- The connection is asked for its time. -/
  | asking
  /-- The task has ended. -/
  | dead
  deriving DecidableEq

/-- The loop that connects runs inside the one that watches the connection. -/
structure Heartbeat where
  link : Link
  stage : HeartbeatStage := .starting
  lastHeartbeatOk : Timestamp := 0
  deriving DecidableEq

inductive HeartbeatAct where
  | link (act : LinkAct)
  | reconciled (ok : Bool)
  | beat
  /-- The connection answers, or not. -/
  | answered (ok : Bool)
  deriving DecidableEq

namespace HeartbeatParams

variable (p : HeartbeatParams)

def start (now : Timestamp) : Heartbeat where
  link := p.link.start now

/-- `connect`, then `_heartbeat_loop`. What `reconcile_state` raises ends the task. -/
def turn (s : Heartbeat) (now : Timestamp) : HeartbeatAct → Option Heartbeat
  | .link act =>
    if s.stage = .starting ∨ s.stage = .reconnecting then
      (p.link.turn s.link now act).map fun link =>
        if link.phase = .connected then
          { link
            stage := if s.stage = .starting then .sleeping now else .reconciling
            lastHeartbeatOk := now }
        else { s with link }
    else none
  | .reconciled ok =>
    if s.stage = .reconciling then some { s with stage := if ok then .sleeping now else .dead }
    else none
  | .beat =>
    match s.stage with
    | .sleeping since =>
      if now < since + p.interval then none else some { s with stage := .asking }
    | _ => none
  | .answered ok =>
    if s.stage = .asking then
      if ok then some { s with stage := .sleeping now, lastHeartbeatOk := now }
      else if now - s.lastHeartbeatOk < p.timeout then some { s with stage := .sleeping now }
      else
        some { s with
          stage := .reconnecting
          link := { s.link with
            phase := .connecting
            backoff := p.link.backoff
            attempts := s.link.attempts ++ [now] } }
    else none

def step (s : Heartbeat) : Timestamp × HeartbeatAct → Option Heartbeat
  | (now, act) =>
    if now < s.link.clock then none
    else p.turn { s with link := { s.link with clock := now } } now act

end HeartbeatParams

end Binbot
