import Binbot.Data.Newest
import Binbot.Server.ClientRules
import Binbot.Server.DashboardTabs
import Binbot.Server.WorkRules

/-!
# What the workers say of closed trades

The bridge records a trade and begins to tell of it without a suspension in between, so that
at every suspension a tab learns the same from the recent trades as from all of them. Nothing
is assumed here of how a call ends: a broadcast that raises ends its handler, and what has
been recorded stays recorded.
-/
namespace Binbot

open Async Data

/-- Closed trades are only ever added. -/
theorem TradeTracker.closedTrades_prefix (tracker : TradeTracker) (multiplier : ℚ)
    (fill : ExecutionEvent) :
    tracker.closedTrades <+: (tracker.onExecution multiplier fill).1.closedTrades := by
  cases closes : (tracker.onExecution multiplier fill).2 with
  | none => simp [onExecution_leaves closes]
  | some closed =>
    rw [(onExecution_closed closes).1]
    exact List.prefix_append _ _

/-- What a tab shows that has heard of these trades. -/
abbrev shownOf (trades : List ClosedTrade) : List ClosedTrade := newest maxClosedTrades trades

theorem setClosedTradesBackfill_eq (trades : List ClosedTrade) :
    setClosedTradesBackfill trades = shownOf trades := rfl

theorem shownOf_append (before trades : List ClosedTrade) :
    shownOf (before ++ trades) = trades.foldl pushClosedTrade (shownOf before) :=
  newest_append maxClosedTrades before trades

/-- The bridge keeps more of the recent trades than a tab shows. -/
theorem shownOf_latest (trades : List ClosedTrade) :
    shownOf (ClientState.latest maxRecentClosedTrades trades) = shownOf trades := by
  have window : ClientState.latest maxRecentClosedTrades trades =
      trades.drop (trades.length - maxRecentClosedTrades) := by
    rw [ClientState.latest]
    split
    next => rfl
    next few => rw [Nat.sub_eq_zero_of_le (by omega), List.drop_zero]
  rw [window]
  exact newest_drop (by decide) trades

/-- The recent trades and all trades of the bridge look alike to a tab. -/
def RecentInStep (recovered : List ClosedTrade) (s : BridgeMemory) : Prop :=
  shownOf s.desk.closedTradesRecent = shownOf (recovered ++ s.tracker.closedTrades)

theorem RecentInStep.recent_eq_nil {recovered : List ClosedTrade} {s : BridgeMemory}
    (inStep : RecentInStep recovered s) :
    s.desk.closedTradesRecent = [] ↔ recovered ++ s.tracker.closedTrades = [] := by
  have some_ : maxClosedTrades ≠ 0 := by decide
  have same : newest maxClosedTrades s.desk.closedTradesRecent =
      newest maxClosedTrades (recovered ++ s.tracker.closedTrades) := inStep
  rw [← newest_eq_nil some_, same, newest_eq_nil some_]

/-- A message that the list of closed trades does not depend on. -/
structure ClientMessage.Quiet (message : ClientMessage) : Prop where
  trades : message.trades = []
  handle : ∀ shown, message.handle shown = shown

theorem ClientMessage.Live.handle {message : ClientMessage} (live : message.Live)
    (shown : List ClosedTrade) :
    message.handle shown = message.trades.foldl pushClosedTrade shown := by
  cases message with
  | order message => cases message <;> rfl
  | closedTradesBackfill trades => exact absurd rfl (live trades)
  | _ => rfl

namespace Worker

/-- For the dispatcher the ghost is the trades that it has told of, for a client's worker those
that its backfill is still to tell. -/
def tradeRules (recovered : List ClosedTrade) :
    Worker → Contract (List ClosedTrade) BridgeMemory bridgeSig
  | .dispatcher =>
    { issue := fun q told s => (∀ client message, q ≠ .send client message) ∧
        (∀ message, q = .broadcast message → message.Live) ∧
        s.tracker.closedTrades = told ++ q.trades ∧ RecentInStep recovered s
      rely := fun _ _ _ s told s' => s'.tracker = s.tracker ∧
        s'.desk.closedTradesRecent = s.desk.closedTradesRecent ∧ told = s.tracker.closedTrades
      guar := fun s s' => s'.desk.clients = s.desk.clients ∧
        s.tracker.closedTrades <+: s'.tracker.closedTrades }
  | .background _ =>
    { issue := fun q _ _ => ∃ message, q = .broadcast message ∧ message.Quiet
      rely := fun _ _ _ _ _ _ => True
      guar := fun s s' => s'.desk.clients = s.desk.clients ∧ s'.tracker = s.tracker ∧
        s'.desk.closedTradesRecent = s.desk.closedTradesRecent }
  | .client id =>
    { issue := fun q missed _ => ∃ message, q = .send id message ∧ message.trades = missed ∧
        (message.Quiet ∨ message = .closedTradesBackfill missed ∧ missed ≠ [])
      rely := fun _ _ _ _ missed _ => missed = []
      guar := fun s s' => s'.desk.clients = s.desk.clients ∧ s'.tracker = s.tracker ∧
        s'.desk.closedTradesRecent = s.desk.closedTradesRecent }

/-- All closed trades have been told of, and the recent ones are in step. -/
def TradesTold (recovered : List ClosedTrade) (told : List ClosedTrade) (s : BridgeMemory) : Prop :=
  told = s.tracker.closedTrades ∧ RecentInStep recovered s

/-- How a program of the worker ends, whether it returns or raises. -/
def TradeEnds (recovered : List ClosedTrade) :
    Worker → Except String Unit → List ClosedTrade → BridgeMemory → Prop
  | .dispatcher, _, told, s => TradesTold recovered told s
  | .background _, _, _, _ => True
  | .client _, _, missed, _ => missed = []

end Worker

namespace ClientBridge

open Worker

section Dispatcher

variable (bridge : ClientBridge) {recovered : List ClosedTrade}

/-- A call that is not about closed trades. -/
theorem keeps_ask {q : BridgeRequest} (none_ : q.trades = [])
    (broadcasts : ∀ client message, q ≠ .send client message)
    (live : ∀ message, q = .broadcast message → message.Live) :
    (Coro.request (S := bridgeSig) q : Coro BridgeMemory bridgeSig q.Reply).Keeps
      (tradeRules recovered .dispatcher) (TradesTold recovered) := by
  apply Coro.keeps_request (S := bridgeSig)
  · rintro told s ⟨rfl, inStep⟩
    exact ⟨broadcasts, live, by rw [none_, List.append_nil], inStep⟩
  · rintro r told s told' s' ⟨rfl, inStep⟩ ⟨same, recent, rfl⟩
    exact ⟨by rw [same], by rw [RecentInStep, recent, same, inStep]⟩

/-- The dispatcher goes on or raises, and all trades have been told of. -/
theorem incidental_keeps (recovered : List ClosedTrade) :
    Incidental fun c => c.Keeps (tradeRules recovered .dispatcher) (TradesTold recovered) where
  pure := Coro.keeps_pure
  view := Coro.keeps_view
  bind first next := first.bind next
  write clients same recent := by
    apply Coro.keeps_update
    rintro told s ⟨rfl, inStep⟩
    refine ⟨⟨clients s, ?_⟩, ?_, ?_⟩
    · simp [same]
    · rw [same]
    · rw [RecentInStep, recent, same, inStep]
  broadcast message none_ live := by
    apply keeps_ask (q := .broadcast message) none_ (by simp)
    rintro _ ⟨⟩
    exact live
  notify text := keeps_ask rfl (by simp) (by simp)
  klines symbol limit := by
    refine Coro.Keeps.tryCatch ?_ fun _ => Coro.keeps_pure _
    exact keeps_ask (q := .klines symbol limit) rfl (by simp) (by simp)

/-- The window of recent trades and the whole list grow by the same trade. -/
theorem inStep_recordTrade {closed : ClosedTrade} {told : List ClosedTrade} {s : BridgeMemory}
    (closes : s.tracker.closedTrades = told ++ [closed])
    (inStep : shownOf s.desk.closedTradesRecent = shownOf (recovered ++ told)) :
    RecentInStep recovered { s with desk := s.desk.recordTrade closed } := by
  change shownOf (ClientState.latest _ (s.desk.closedTradesRecent ++ [closed])) =
    shownOf (recovered ++ s.tracker.closedTrades)
  rw [shownOf_latest, closes, ← List.append_assoc]
  exact newest_append_congr inStep [closed]

/-- A trade that the tracker has just closed is recorded and told of at once. -/
theorem announceClosed_tells (closed : ClosedTrade) {told : List ClosedTrade} {s : BridgeMemory}
    (closes : s.tracker.closedTrades = told ++ [closed])
    (inStep : shownOf s.desk.closedTradesRecent = shownOf (recovered ++ told)) :
    (bridge.toDashboard.announceClosed closed).Obeys (tradeRules recovered .dispatcher)
      (fun _ => TradesTold recovered) told s := by
  have recorded := inStep_recordTrade closes inStep
  rw [DashboardBridge.announceClosed]
  change (((Coro.update fun m : ClientState => m.recordTrade closed) >>= fun _ =>
    broadcast (.order (.closedTrade closed))) >>= _).Obeys _ _ told s
  rw [Coro.bind_bind, Coro.obeys_bind, Coro.obeys_update]
  refine ⟨⟨s.desk.clients_recordTrade closed, List.prefix_rfl⟩, ?_⟩
  refine Coro.Obeys.followed ((Coro.obeys_request (S := bridgeSig) (.broadcast _)).mpr
    ⟨⟨by simp, ?_, closes, recorded⟩, ?_⟩) fun _ => ?_
  · rintro _ ⟨⟩
    simp [ClientMessage.Live]
  · -- nobody else records trades while it is being told of
    rintro r told' s' ⟨same, recent, rfl⟩
    refine ⟨by rw [same], ?_⟩
    rw [RecentInStep, recent, same]
    exact recorded
  · have incidental := incidental_keeps recovered
    refine (incidental.pushAudit _).bind fun _ => ?_
    split
    · exact Coro.keeps_pure ()
    next notify found =>
      refine Coro.keeps_view.bind fun reasons => ?_
      refine (incidental.write (fun _ => rfl) (fun _ => rfl) fun _ => rfl).bind fun _ => ?_
      exact incidental.announce bridge found _

/-- What the dispatcher says of a fill that the tracker has just been given. -/
theorem announce_tells (fill : ExecutionEvent) (multiplier : ℚ) {tracker : TradeTracker}
    {s : BridgeMemory} (same : s.tracker = (tracker.onExecution multiplier fill).1)
    (inStep : shownOf s.desk.closedTradesRecent = shownOf (recovered ++ tracker.closedTrades)) :
    (do
      Coro.onlyIf (!tracker.openTrades.contains fill.symbol &&
          (tracker.onExecution multiplier fill).1.openTrades.contains fill.symbol)
        (bridge.toDashboard.announceOpened fill)
      match (tracker.onExecution multiplier fill).2 with
      | some closed => bridge.toDashboard.announceClosed closed
      | none => pure () : Coro BridgeMemory bridgeSig Unit).Obeys (tradeRules recovered .dispatcher)
      (fun _ => TradesTold recovered) tracker.closedTrades s := by
  cases closes : (tracker.onExecution multiplier fill).2 with
  | none =>
    have leaves := TradeTracker.onExecution_leaves closes
    have held : TradesTold recovered tracker.closedTrades s := by
      refine ⟨by rw [same, leaves], ?_⟩
      rw [RecentInStep, same, leaves]
      exact inStep
    have opened := (incidental_keeps recovered).announceOpened bridge fill
    exact ((Coro.keeps_onlyIf _ opened) _ _ held).followed fun _ => Coro.keeps_pure ()
  | some closed =>
    -- what closes a trade opens none, so that nothing comes before the closing
    obtain ⟨recorded, gone⟩ := TradeTracker.onExecution_closed closes
    rw [gone, Bool.and_false]
    exact bridge.announceClosed_tells closed (by rw [same, recorded]) inStep

theorem handleOrderEvent_tells (event : BrokerEvent) :
    (bridge.toDashboard.handleOrderEvent event).Keeps (tradeRules recovered .dispatcher)
      (TradesTold recovered) := by
  have incidental := incidental_keeps recovered
  simp only [DashboardBridge.handleOrderEvent]
  refine Coro.keeps_view.bind fun m => ?_
  split
  next => exact Coro.keeps_pure ()
  next managed found =>
    have ordered := incidental.broadcast (.order (.order managed)) rfl (by simp [ClientMessage.Live])
    refine ordered.bind fun _ => ?_
    cases event with
    | ack event => exact Coro.keeps_pure ()
    | reject event => exact Coro.keeps_pure ()
    | execution fill =>
      have marked := incidental.broadcast (.order (.executionMarker fill)) rfl
        (by simp [ClientMessage.Live])
      refine marked.bind fun _ => (incidental.pushAudit _).bind fun _ => ?_
      have lookup : (bridge.toDashboard.multiplierLookup fill.symbol).Keeps
          (tradeRules recovered .dispatcher) (TradesTold recovered) := by
        simp only [ClientBridge.toDashboard]
        split
        next multiplier _ => exact Coro.keeps_pure multiplier
        next e _ => exact Coro.keeps_throw e
      refine lookup.bind fun multiplier => Coro.keeps_view_bind ?_
      -- from here to the next broadcast nothing is suspended
      rintro told s ⟨rfl, inStep⟩
      rw [Coro.obeys_bind, Coro.obeys_update]
      refine ⟨⟨rfl, s.tracker.closedTrades_prefix multiplier fill⟩, ?_⟩
      exact bridge.announce_tells fill multiplier rfl inStep

/-- Whatever becomes of an event's handler, all closed trades have been told of. -/
theorem onEvent_tells (event : BusEvent) : (bridge.onEvent event).Keeps
    (tradeRules recovered .dispatcher) (TradesTold recovered) := by
  cases event with
  | order event => exact bridge.handleOrderEvent_tells event
  | _ => exact (incidental_keeps recovered).onEvent bridge (by simp)

end Dispatcher

theorem job_quiet (recovered : List ClosedTrade) (job : ClientDesk.Job) (n : ℕ)
    (told : List ClosedTrade) (s : BridgeMemory) :
    job.body.Obeys (tradeRules recovered (.background n)) (TradeEnds recovered (.background n))
      told s := by
  cases job with
  | audit line =>
    refine (Coro.obeys_bind _ _).mpr ((Coro.obeys_update _).mpr ?_)
    refine ⟨⟨s.desk.clients_recordAudit line, rfl, rfl⟩, ?_⟩
    exact (Coro.obeys_request (S := bridgeSig) _).mpr
      ⟨⟨_, rfl, rfl, fun _ => rfl⟩, fun _ _ _ _ => trivial⟩
  | telemetry type =>
    exact (Coro.obeys_request (S := bridgeSig) _).mpr
      ⟨⟨_, rfl, rfl, fun _ => rfl⟩, fun _ _ _ _ => trivial⟩

/-- The backfill starts with all recent trades, if there are any. -/
theorem sendBackfill_tells (recovered : List ClosedTrade) (id : ClientId) (s : BridgeMemory) :
    (sendBackfill id).Obeys (tradeRules recovered (.client id)) (TradeEnds recovered (.client id))
      s.desk.closedTradesRecent s := by
  apply sendBackfill_caughtUp
  · intro some_
    refine (Coro.obeys_request (S := bridgeSig) _).mpr ⟨⟨_, rfl, rfl, .inr ⟨rfl, some_⟩⟩, ?_⟩
    exact fun r missed s' caught => caught
  · intro message none_ live
    have quiet : message.Quiet := ⟨none_, fun shown => by rw [live.handle, none_, List.foldl_nil]⟩
    apply Coro.keeps_request
    · rintro missed s rfl
      exact ⟨message, rfl, none_, .inl quiet⟩
    · exact fun r missed s missed' s' _ caught => caught

end ClientBridge

end Binbot
