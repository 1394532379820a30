import Binbot.Server.DashboardClients

/-!
# Tabs of the dashboard (`dashboard/store/useTradingStore.ts`)

A tab keeps its list of closed trades for as long as it is open. Its connection may end, and
it connects again; what the bridge has told of in between it learns from the backfill only.
-/
namespace Binbot

open Async Data

/-- `MAX_CLOSED_TRADES`. -/
def maxClosedTrades : ℕ := 1500

/-- `pushClosedTrade`. -/
def pushClosedTrade (closedTrades : List ClosedTrade) (trade : ClosedTrade) : List ClosedTrade :=
  (trade :: closedTrades).take maxClosedTrades

/-- `setClosedTradesBackfill`. -/
def setClosedTradesBackfill (trades : List ClosedTrade) : List ClosedTrade :=
  trades.reverse.take maxClosedTrades

/-- `handleMessage`, as far as it is about the closed trades. -/
def ClientMessage.handle (closedTrades : List ClosedTrade) : ClientMessage → List ClosedTrade
  | .order (.closedTrade trade) => pushClosedTrade closedTrades trade
  | .closedTradesBackfill trades => setClosedTradesBackfill trades
  | _ => closedTrades

/-- A tab of a browser. -/
abbrev TabId : Type := ℕ

/-- The client that a send is for, and its message. -/
def Work.sending : Work → Option (ClientId × ClientMessage)
  | .sweeping sweep _ => some (sweep.client, sweep.message)
  | .waiting (.send client message) _ => some (client, message)
  | _ => none

/-- The trades that a connection's backfill is sending. -/
def Work.backfilling : Work → Option (List ClosedTrade)
  | .waiting (.send _ (.closedTradesBackfill trades)) _ => some trades
  | _ => none

namespace ClientDesk

variable (t : ClientDesk)

/-- What a step brings to its client. -/
def arrives : Act → Option (ClientId × ClientMessage)
  | .sent worker true _ => (t.work worker).sending
  | _ => none

/-- A broadcast's send is through before the backfill of the closed trades, which was the
first to be sent on the connection. -/
def overtakes : Act → Bool
  | .sent worker _ _ =>
    match t.work worker with
    | .sweeping sweep _ => (t.work (.client sweep.client)).backfilling.isSome
    | _ => false
  | _ => false

end ClientDesk

structure TabDesk where
  desk : ClientDesk
  /-- The connection that a tab has. -/
  connection : TabId → Option ClientId
  closedTrades : TabId → List ClosedTrade

namespace TabDesk

inductive Act where
  /-- A step of the bridge. -/
  | bridge (act : ClientDesk.Act)
  | connect (tab : TabId) (client : ClientId) (layout : List (Option ClientId))
  /-- The tab's connection is gone; the bridge may not know yet. -/
  | leave (tab : TabId)

variable (t : TabDesk)

/-- The tab of the connection handles what has arrived. -/
def handled (arrived : Option (ClientId × ClientMessage)) : TabId → List ClosedTrade := fun tab =>
  match arrived with
  | some (client, message) =>
    if t.connection tab = some client then message.handle (t.closedTrades tab)
    else t.closedTrades tab
  | none => t.closedTrades tab

/-- What is sent on a connection arrives in its order. -/
def step (bridge : ClientBridge) (t : TabDesk) : Act → Option TabDesk
  | .bridge act =>
    if t.desk.overtakes act then none
    else
      (t.desk.step bridge act).map fun desk =>
        { t with desk, closedTrades := t.handled (t.desk.arrives act) }
  | .connect tab client layout =>
    match t.connection tab with
    | some _ => none
    | none =>
      (t.desk.step bridge (.connect client layout)).map fun desk =>
        { t with desk, connection := Function.update t.connection tab (some client) }
  | .leave tab => some { t with connection := Function.update t.connection tab none }

/-- The bridge has just started. A tab may still show the trades of an earlier process. -/
def started (manager : ManagerState) (recovered : List ClosedTrade) (lines : List AuditLine)
    (shown : TabId → List ClosedTrade) : TabDesk where
  desk := .started manager recovered lines
  connection _ := none
  closedTrades := shown

end TabDesk

end Binbot
