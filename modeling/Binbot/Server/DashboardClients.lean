import Binbot.Core.EventBus
import Binbot.Data.LiveSet
import Binbot.Server.CandleCache
import Binbot.Server.DashboardBridge

/-!
# Clients of the dashboard (`server/dashboard_bridge.py`)

Tabs connect and leave while the bridge is telling them of events. A broadcast goes through
the set of clients itself, one send after the other, and whatever happens in the meantime
changes that set under it. A tab that connects is first caught up on what it has missed.
-/
namespace Binbot

open Async Data

/-- A connection. Each is an object of its own. -/
abbrev ClientId : Type := ℕ

/-- The source's name in an audit line. -/
def AuditSource.text : AuditSource → String
  | .operator => "operator"
  | .riskEngine => "risk_engine"
  | .circuitBreaker => "circuit_breaker"
  | .positionMonitor => "position_monitor"
  | .orderManager => "order_manager"
  | .tradeTracker => "trade_tracker"

structure AuditLine where
  level : AuditLevel
  source : String
  message : String
  deriving DecidableEq

inductive ClientMessage where
  | order (message : DashboardMessage)
  | audit (line : AuditLine)
  | candle (message : CandleMessage)
  | risk (haltReason : String)
  /-- The status, the running figures and the open trades, which `_kpi_loop` pushes. -/
  | telemetry (type : String)
  | closedTradesBackfill (trades : List ClosedTrade)
  | auditBackfill (lines : List AuditLine)
  deriving DecidableEq

/-- `_MAX_RECENT_CLOSED_TRADES`. -/
def maxRecentClosedTrades : ℕ := 2000

/-- `_MAX_RECENT_AUDIT_EVENTS`. -/
def maxRecentAuditEvents : ℕ := 5000

structure ClientState where
  clients : LiveSet ClientId := .empty
  closedTradesRecent : List ClosedTrade := []
  auditRecent : List AuditLine := []

namespace ClientState

variable (m : ClientState)

/-- `del` of the oldest when there are too many. -/
def latest {α : Type} (bound : ℕ) (recent : List α) : List α :=
  if recent.length > bound then recent.drop (recent.length - bound) else recent

def recordTrade (trade : ClosedTrade) : ClientState :=
  { m with closedTradesRecent := latest maxRecentClosedTrades (m.closedTradesRecent ++ [trade]) }

def recordAudit (line : AuditLine) : ClientState :=
  { m with auditRecent := latest maxRecentAuditEvents (m.auditRecent ++ [line]) }

@[simp] theorem clients_recordTrade (trade : ClosedTrade) :
    (m.recordTrade trade).clients = m.clients := by simp only [recordTrade]

@[simp] theorem clients_recordAudit (line : AuditLine) :
    (m.recordAudit line).clients = m.clients := by simp only [recordAudit]

end ClientState

structure BridgeMemory where
  manager : ManagerState
  tracker : TradeTracker := {}
  reasons : CloseReasons := ⟨.empty⟩
  candles : CandleState := {}
  desk : ClientState := {}

/-- The fill of an event, if its order is known. -/
def BridgeMemory.knownFills (d : BridgeMemory) : BusEvent → List ExecutionEvent
  | .order (.execution fill) => if d.manager.orders.contains fill.orderId then [fill] else []
  | _ => []

section Parts

instance : Part BridgeMemory ManagerState where
  view := BridgeMemory.manager
  set d m := { d with manager := m }
  view_set _ _ := rfl
  set_set _ _ _ := rfl

instance : Part BridgeMemory TradeTracker where
  view := BridgeMemory.tracker
  set d tracker := { d with tracker := tracker }
  view_set _ _ := rfl
  set_set _ _ _ := rfl

instance : Part BridgeMemory CloseReasons where
  view := BridgeMemory.reasons
  set d reasons := { d with reasons := reasons }
  view_set _ _ := rfl
  set_set _ _ _ := rfl

instance : Part BridgeMemory CandleState where
  view := BridgeMemory.candles
  set d m := { d with candles := m }
  view_set _ _ := rfl
  set_set _ _ _ := rfl

instance : Part BridgeMemory ClientState where
  view := BridgeMemory.desk
  set d m := { d with desk := m }
  view_set _ _ := rfl
  set_set _ _ _ := rfl

end Parts

inductive BridgeRequest where
  | broadcast (message : ClientMessage)
  | send (client : ClientId) (message : ClientMessage)
  | klines (symbol : Symbol) (limit : ℕ)
  | notify (text : String)
  deriving DecidableEq

abbrev BridgeRequest.Reply : BridgeRequest → Type
  | .klines _ _ => List Candle
  | _ => Unit

abbrev bridgeSig : Sig := ⟨BridgeRequest, BridgeRequest.Reply⟩

/-- The bridge of a bot, with a provider of candles and a notifier or without, and the
contract multipliers of the trade tracker. -/
structure ClientBridge where
  chartSymbol : Symbol
  provides : Bool
  notifies : Bool
  multiplier : Symbol → Except String ℚ

namespace ClientBridge

def broadcast (message : ClientMessage) : Coro BridgeMemory bridgeSig Unit :=
  Coro.request (S := bridgeSig) (.broadcast message)

def send (client : ClientId) (message : ClientMessage) : Coro BridgeMemory bridgeSig Unit :=
  Coro.request (S := bridgeSig) (.send client message)

def pushAudit (line : AuditLine) : Coro BridgeMemory bridgeSig Unit := do
  Coro.update fun m : ClientState => m.recordAudit line
  broadcast (.audit line)

variable (self : ClientBridge)

def notifier : Option (String → Coro BridgeMemory bridgeSig Unit) :=
  if self.notifies then some fun text => Coro.request (S := bridgeSig) (.notify text) else none

theorem notifier_eq_some {notify : String → Coro BridgeMemory bridgeSig Unit}
    (found : self.notifier = some notify) : self.notifies = true ∧
      notify = fun text => Coro.request (S := bridgeSig) (.notify text) := by
  rw [notifier] at found
  split at found
  next notifies => exact ⟨notifies, (Option.some.inj found).symm⟩
  next => cases found

def toDashboard : DashboardBridge BridgeMemory bridgeSig where
  broadcast message :=
    match message with
    | .closedTrade trade => do
      Coro.update fun m : ClientState => m.recordTrade trade
      broadcast (.order (.closedTrade trade))
    | _ => broadcast (.order message)
  pushAudit entry := pushAudit ⟨entry.level, entry.source.text, entry.message⟩
  notifier := self.notifier
  multiplierLookup symbol :=
    match self.multiplier symbol with
    | .ok multiplier => pure multiplier
    | .error e => throw e

def feed : CandleFeed BridgeMemory bridgeSig where
  chartSymbol := self.chartSymbol
  openTrades := do
    let tracker : TradeTracker ← Coro.view
    pure (some tracker.openTrades)
  historicalKlinesProvider :=
    if self.provides then
      some fun symbol limit => Coro.request (S := bridgeSig) (.klines symbol limit)
    else none
  broadcast message := broadcast (.candle message)

/-- `_on_event`. -/
def onEvent : BusEvent → Coro BridgeMemory bridgeSig Unit
  | .bar event => self.feed.onBarEvent event
  | .signal event => pushAudit ⟨.signal, event.strategyId,
      s!"{event.side.text} {event.targetQuantity} {event.symbol} signal generated"⟩
  | .order event => self.toDashboard.handleOrderEvent event
  | .riskHalt event => do
    broadcast (.risk event.reason)
    pushAudit ⟨.error, event.triggeredBy, event.reason⟩
    match self.notifier with
    | none => pure ()
    | some notify => notify s!"🚨 *Circuit breaker tripped*\n{event.reason}"
  | .tick _ | .orderBook _ | .heartbeat _ => pure ()

/-- One pass of the loop over the cached candles. The caches only grow, so that a symbol
keeps its place among them. -/
def sendCandles (client : ClientId) (size : ℕ) (symbol : Symbol) :
    Coro BridgeMemory bridgeSig Unit := do
  let m : CandleState ← Coro.view
  if m.candlesBySymbol.size ≠ size then throw "dictionary changed size during iteration"
  else
    Coro.onlyIf (m.cache symbol ≠ [])
      (send client (.candle (.candlesBackfill symbol (m.cache symbol))))

/-- `_send_backfill`. -/
def sendBackfill (client : ClientId) : Coro BridgeMemory bridgeSig Unit :=
  tryCatch (do
    let m : ClientState ← Coro.view
    Coro.onlyIf (m.closedTradesRecent ≠ []) (send client (.closedTradesBackfill m.closedTradesRecent))
    let m : ClientState ← Coro.view
    Coro.onlyIf (m.auditRecent ≠ []) (send client (.auditBackfill m.auditRecent))
    let m : CandleState ← Coro.view
    Coro.forEach (sendCandles client m.candlesBySymbol.size) m.candlesBySymbol.keys)
    fun _ => pure ()

end ClientBridge

/-! ## The bridge among its clients -/

inductive Worker where
  /-- The bus's dispatch task. -/
  | dispatcher
  /-- A task that broadcasts besides: `_kpi_loop`, or one that pushes an audit line. -/
  | background (n : ℕ)
  /-- `_handle_client`, up to its message loop. -/
  | client (id : ClientId)
  deriving DecidableEq

/-- A broadcast that waits for one of its sends. -/
structure Sweep where
  message : ClientMessage
  cursor : LiveSet.Cursor
  client : ClientId
  dead : List ClientId

/-- The clients that are dead once this send has ended. -/
def Sweep.deadAfter (sweep : Sweep) (ok : Bool) : List ClientId :=
  if ok then sweep.dead else sweep.client :: sweep.dead

inductive Work where
  | idle
  | sweeping (sweep : Sweep) (next : Except String Unit → Coro BridgeMemory bridgeSig Unit)
  | waiting (q : BridgeRequest) (next : Answer bridgeSig q → Coro BridgeMemory bridgeSig Unit)

/-- Where a program stands after a segment, and what it has raised if that was its end. -/
structure Stand where
  work : Work
  raised : Option String
  memory : BridgeMemory

/-- Run to the next suspension. `_broadcast` begins with its first send, and returns at once
when there is no client. -/
def Stand.of : Coro BridgeMemory bridgeSig Unit → BridgeMemory → Stand
  | .done _, d => ⟨.idle, none, d⟩
  | .fail e, d => ⟨.idle, some e, d⟩
  | .get next, d => Stand.of (next d) d
  | .put d next, _ => Stand.of next d
  | .await (.broadcast message) next, d =>
    match d.desk.clients.next d.desk.clients.iter with
    | .item client cursor => ⟨.sweeping ⟨message, cursor, client, []⟩ next, none, d⟩
    | _ => Stand.of (next (.ok ())) d
  | .await q next, d => ⟨.waiting q next, none, d⟩

structure ClientDesk where
  memory : BridgeMemory
  work : Worker → Work
  /-- Every connection there has been. -/
  met : List ClientId
  /-- What each connection has received. -/
  inbox : ClientId → List ClientMessage
  /-- The connections on which a send has failed. -/
  failed : List ClientId
  /-- What the bus has logged of the handler's exceptions. -/
  logged : List String
  /-- The closed trades that the bridge found on disk. -/
  recovered : List ClosedTrade
  /-- The executions of known orders, as they were dispatched. -/
  fills : List ExecutionEvent

namespace ClientDesk

/-- What a background task does in one go. -/
inductive Job where
  | audit (line : AuditLine)
  | telemetry (type : String)

def Job.body : Job → Coro BridgeMemory bridgeSig Unit
  | .audit line => ClientBridge.pushAudit line
  | .telemetry type => ClientBridge.broadcast (.telemetry type)

inductive Act where
  | dispatch (event : BusEvent)
  | push (n : ℕ) (job : Job)
  | connect (client : ClientId) (layout : List (Option ClientId))
  /-- The message loop of the client has ended. -/
  | disconnect (client : ClientId)
  /-- The send that a worker waits for is through or has failed. -/
  | sent (worker : Worker) (ok : Bool) (layout : Option (List (Option ClientId)))
  | fetched (candles : Except String (List Candle))
  /-- The notifier is through; it raises nothing. -/
  | notified
  /-- What other code does to the manager's orders and to the close reasons. -/
  | elsewhere (manager : ManagerState) (reasons : CloseReasons)

variable (t : ClientDesk)

/-- A send has ended. -/
def told (client : ClientId) (message : ClientMessage) (ok : Bool) : ClientDesk :=
  { t with
    inbox := if ok then Function.update t.inbox client (t.inbox client ++ [message]) else t.inbox
    failed := if ok then t.failed else client :: t.failed }

def setWork (worker : Worker) (work : Work) : ClientDesk :=
  { t with work := Function.update t.work worker work }

@[simp] theorem setWork_same (worker : Worker) (work : Work) :
    (t.setWork worker work).work worker = work := by simp [setWork]

theorem setWork_ne {worker other : Worker} (work : Work) (distinct : other ≠ worker) :
    (t.setWork worker work).work other = t.work other := by simp [setWork, distinct]

/-- The worker runs on with this program. The bus catches what its handlers raise. -/
def resume (worker : Worker) (program : Coro BridgeMemory bridgeSig Unit) : ClientDesk :=
  let stand := Stand.of program t.memory
  { t.setWork worker stand.work with
    memory := stand.memory
    logged := if worker = .dispatcher then t.logged ++ stand.raised.toList else t.logged }

@[simp] theorem resume_memory (worker : Worker) (program : Coro BridgeMemory bridgeSig Unit) :
    (t.resume worker program).memory = (Stand.of program t.memory).memory := rfl

@[simp] theorem resume_work (worker : Worker) (program : Coro BridgeMemory bridgeSig Unit) :
    (t.resume worker program).work worker = (Stand.of program t.memory).work :=
  t.setWork_same worker _

theorem resume_work_ne {worker other : Worker} (distinct : other ≠ worker)
    (program : Coro BridgeMemory bridgeSig Unit) :
    (t.resume worker program).work other = t.work other :=
  t.setWork_ne _ distinct

def setClients (clients : LiveSet ClientId) : ClientDesk :=
  { t with memory := { t.memory with desk := { t.memory.desk with clients } } }

/-- `_handle_client` has added its connection, which has received nothing. -/
def joined (client : ClientId) (layout : List (Option ClientId)) : ClientDesk :=
  { t.setClients (t.memory.desk.clients.insert client layout) with
    met := client :: t.met
    inbox := Function.update t.inbox client [] }

/-- `_broadcast`, from one send to the next. -/
def sweepOn (worker : Worker) (sweep : Sweep)
    (next : Except String Unit → Coro BridgeMemory bridgeSig Unit) (ok : Bool)
    (layout : Option (List (Option ClientId))) : ClientDesk :=
  let told := t.told sweep.client sweep.message ok
  let dead := sweep.deadAfter ok
  let clients := t.memory.desk.clients
  match clients.next sweep.cursor with
  | .changed => told.resume worker (next (.error "Set changed size during iteration"))
  | .stop => (told.setClients (clients.diff dead layout)).resume worker (next (.ok ()))
  | .item client cursor => told.setWork worker (.sweeping { sweep with client, cursor, dead } next)

def step (bridge : ClientBridge) (t : ClientDesk) : Act → Option ClientDesk
  | .dispatch event =>
    match t.work .dispatcher with
    | .idle => some ({ t with fills := t.fills ++ t.memory.knownFills event }.resume .dispatcher
        (bridge.onEvent event))
    | _ => none
  | .push n job =>
    match t.work (.background n) with
    | .idle => some (t.resume (.background n) job.body)
    | _ => none
  | .connect client layout =>
    if client ∈ t.met then none
    else
      some ((t.joined client layout).resume (.client client) (ClientBridge.sendBackfill client))
  | .disconnect client =>
    match t.work (.client client) with
    | .idle => some (t.setClients (t.memory.desk.clients.discard client))
    | _ => none
  | .sent worker ok layout =>
    match t.work worker with
    | .sweeping sweep next => some (t.sweepOn worker sweep next ok layout)
    | .waiting (.send client message) next =>
      some ((t.told client message ok).resume worker
        (next (if ok then .ok () else .error "connection closed")))
    | _ => none
  | .fetched candles =>
    match t.work .dispatcher with
    | .waiting (.klines _ _) next => some (t.resume .dispatcher (next candles))
    | _ => none
  | .notified =>
    match t.work .dispatcher with
    | .waiting (.notify _) next => some (t.resume .dispatcher (next (.ok ())))
    | _ => none
  | .elsewhere manager reasons => some { t with memory := { t.memory with manager, reasons } }

/-- The bridge right after `start()`, with what it found on disk. -/
def started (manager : ManagerState) (recovered : List ClosedTrade) (lines : List AuditLine) :
    ClientDesk where
  memory :=
    { manager := manager
      desk := { closedTradesRecent := recovered, auditRecent := lines } }
  work _ := .idle
  met := []
  inbox _ := []
  failed := []
  logged := []
  recovered := recovered
  fills := []

end ClientDesk

end Binbot
