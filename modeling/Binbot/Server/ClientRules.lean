import Binbot.Async.Logic
import Binbot.Server.DashboardClients

/-!
# Rules for the bridge's workers

The dispatcher is the only worker that tells of closed trades. It tells of each right after
the tracker has closed it, and asks for nothing else before it has done so. A client's own
worker tells it of the trades it has missed, and first of these. What a handler does beside
that is gone through once, for any property of programs.
-/
namespace Binbot

open Async Data

namespace TradeTracker

variable {tracker : TradeTracker} {multiplier : ℚ} {fill : ExecutionEvent}

/-- What closes a trade is recorded, and opens none. -/
theorem onExecution_closed {closed : ClosedTrade}
    (closes : (tracker.onExecution multiplier fill).2 = some closed) :
    (tracker.onExecution multiplier fill).1.closedTrades = tracker.closedTrades ++ [closed] ∧
      (tracker.onExecution multiplier fill).1.openTrades.contains fill.symbol = false := by
  rw [onExecution] at closes ⊢
  cases present : tracker.openTrades.get? fill.symbol with
  | none =>
    simp only [present] at closes
    split at closes
    · cases closes
    · cases closes
  | some trade =>
    simp only [present] at closes ⊢
    split at closes
    · cases closes
    · split at closes
      · cases closes
      next against empty =>
        cases closes
        rw [if_neg against, if_neg empty]
        exact ⟨rfl, by simp [Dict.contains]⟩

theorem onExecution_leaves (none_ : (tracker.onExecution multiplier fill).2 = none) :
    (tracker.onExecution multiplier fill).1.closedTrades = tracker.closedTrades := by
  rw [onExecution] at none_ ⊢
  cases present : tracker.openTrades.get? fill.symbol with
  | none =>
    dsimp only
    split
    · rfl
    · rfl
  | some trade =>
    simp only [present] at none_ ⊢
    split
    · rfl
    next against =>
      rw [if_neg against] at none_
      split
      · rfl
      next empty =>
        rw [if_neg empty] at none_
        cases none_

end TradeTracker

/-- The closed trades that a message tells of. -/
def ClientMessage.trades : ClientMessage → List ClosedTrade
  | .order (.closedTrade trade) => [trade]
  | .closedTradesBackfill trades => trades
  | _ => []

def BridgeRequest.trades : BridgeRequest → List ClosedTrade
  | .broadcast message => message.trades
  | .send _ message => message.trades
  | _ => []

/-- Nothing but a backfill replaces a tab's list. -/
def ClientMessage.Live (message : ClientMessage) : Prop :=
  ∀ trades, message ≠ .closedTradesBackfill trades

/-- A fetch may fail, and nothing else. -/
def BridgeRequest.Fair : (q : BridgeRequest) → Answer bridgeSig q → Prop
  | .klines _ _, _ => True
  | _, r => r.isOk = true

namespace Worker

/-- For the dispatcher the ghost is the trades that it has told of, for a client's worker those
that the client is still to be told of. -/
def rules : Worker → Contract (List ClosedTrade) BridgeMemory bridgeSig
  | .dispatcher =>
    { issue := fun q told s => (∀ client message, q ≠ .send client message) ∧
        s.tracker.closedTrades = told ++ q.trades
      rely := fun q r _ s told s' =>
        q.Fair r ∧ s'.tracker = s.tracker ∧ told = s.tracker.closedTrades
      guar := fun s s' => s'.desk.clients = s.desk.clients }
  | .background _ =>
    { issue := fun q _ _ => ∃ message, q = .broadcast message ∧ message.trades = []
      rely := fun _ _ _ _ _ _ => True
      guar := fun s s' => s'.desk.clients = s.desk.clients ∧ s'.tracker = s.tracker }
  | .client id =>
    { issue := fun q missed _ => ∃ message, q = .send id message ∧ message.trades = missed
      rely := fun _ _ _ _ missed _ => missed = []
      guar := fun s s' => s'.desk.clients = s.desk.clients ∧ s'.tracker = s.tracker }

/-- How a program of the worker ends; the dispatcher's leaves this tracker. -/
def Ends (tracker : TradeTracker) : Worker → Except String Unit → List ClosedTrade → BridgeMemory → Prop
  | .dispatcher, r, told, s => r.isOk = true ∧ s.tracker = tracker ∧ told = tracker.closedTrades
  | .background _, _, _, _ => True
  | .client _, _, missed, _ => missed = []

end Worker

namespace ClientBridge

/-! ### What is not about closed trades -/

/-- A property of programs that nothing takes away but what is about closed trades. -/
structure Incidental (P : {α : Type} → Coro BridgeMemory bridgeSig α → Prop) : Prop where
  pure : ∀ {α : Type} (a : α), P (pure a : Coro BridgeMemory bridgeSig α)
  view : ∀ {τ : Type} [Part BridgeMemory τ], P (Coro.view : Coro BridgeMemory bridgeSig τ)
  bind : ∀ {α β : Type} {first : Coro BridgeMemory bridgeSig α}
    {next : α → Coro BridgeMemory bridgeSig β}, P first → (∀ a, P (next a)) → P (first >>= next)
  write : ∀ {τ : Type} [Part BridgeMemory τ] {f : τ → τ},
    (∀ s : BridgeMemory, (Part.set s (f (Part.view s))).desk.clients = s.desk.clients) →
    (∀ s : BridgeMemory, (Part.set s (f (Part.view s))).tracker = s.tracker) →
    (∀ s : BridgeMemory, (Part.set s (f (Part.view s))).desk.closedTradesRecent =
      s.desk.closedTradesRecent) →
    P (Coro.update f : Coro BridgeMemory bridgeSig Unit)
  broadcast : ∀ message : ClientMessage, message.trades = [] → message.Live →
    P (ClientBridge.broadcast message)
  notify : ∀ text, P (Coro.request (S := bridgeSig) (.notify text))
  /-- A fetch that fails brings no candles. -/
  klines : ∀ symbol limit, P (tryCatch (Coro.request (S := bridgeSig) (.klines symbol limit))
    fun _ => Pure.pure [] : Coro BridgeMemory bridgeSig (List Candle))

namespace Incidental

variable {P : {α : Type} → Coro BridgeMemory bridgeSig α → Prop} (incidental : Incidental P)
  (bridge : ClientBridge)

include incidental

theorem pushAudit (line : AuditLine) : P (ClientBridge.pushAudit line) := by
  apply incidental.bind
  · exact incidental.write (fun s => s.desk.clients_recordAudit line) (fun _ => rfl) fun _ => rfl
  · exact fun _ => incidental.broadcast _ rfl (by simp [ClientMessage.Live])

theorem announce {notify : String → Coro BridgeMemory bridgeSig Unit}
    (notifies : bridge.notifier = some notify) (text : String) : P (notify text) := by
  rw [(bridge.notifier_eq_some notifies).2]
  exact incidental.notify text

theorem backfillCandlesOnce (symbol : Symbol) : P (bridge.feed.backfillCandlesOnce symbol) := by
  rw [CandleFeed.backfillCandlesOnce, feed]
  cases bridge.provides with
  | false => exact incidental.pure ()
  | true =>
    refine incidental.bind incidental.view fun m => ?_
    split
    · exact incidental.pure ()
    · refine incidental.bind (incidental.write (fun _ => rfl) (fun _ => rfl) fun _ => rfl)
        fun _ => incidental.bind (incidental.klines symbol _) fun candles => ?_
      split
      · exact incidental.pure ()
      · refine incidental.bind (incidental.write (fun _ => rfl) (fun _ => rfl) fun _ => rfl)
          fun _ => ?_
        exact incidental.broadcast _ rfl (by simp [ClientMessage.Live])

theorem wantsChartFor (symbol : Symbol) : P (bridge.feed.wantsChartFor symbol) := by
  rw [CandleFeed.wantsChartFor]
  split
  · exact incidental.pure _
  · have open_ : P bridge.feed.openTrades :=
      incidental.bind incidental.view fun _ => incidental.pure _
    refine incidental.bind open_ fun trades => ?_
    cases trades with
    | none => exact incidental.pure _
    | some trades => exact incidental.pure _

theorem onBarEvent (event : BarEvent) : P (bridge.feed.onBarEvent event) := by
  refine incidental.bind (incidental.wantsChartFor bridge event.symbol) fun charted => ?_
  split
  · refine incidental.bind (incidental.backfillCandlesOnce bridge event.symbol) fun _ => ?_
    refine incidental.bind (incidental.write (fun _ => rfl) (fun _ => rfl) fun _ => rfl)
      fun _ => ?_
    exact incidental.broadcast _ rfl (by simp [ClientMessage.Live])
  · exact incidental.pure ()

theorem announceOpened (fill : ExecutionEvent) :
    P (bridge.toDashboard.announceOpened fill) := by
  rw [DashboardBridge.announceOpened]
  split
  · exact incidental.pure ()
  next notify found => exact incidental.announce bridge found _

/-- Only an order's events are about closed trades. -/
theorem onEvent {event : BusEvent} (other : ∀ broker, event ≠ .order broker) :
    P (bridge.onEvent event) := by
  cases event with
  | order broker => exact absurd rfl (other broker)
  | bar event => exact incidental.onBarEvent bridge event
  | signal event => exact incidental.pushAudit _
  | riskHalt event =>
    refine incidental.bind (incidental.broadcast _ rfl (by simp [ClientMessage.Live])) fun _ => ?_
    refine incidental.bind (incidental.pushAudit _) fun _ => ?_
    split
    · exact incidental.pure ()
    next notify found => exact incidental.announce bridge found _
  | tick event => exact incidental.pure ()
  | orderBook symbol => exact incidental.pure ()
  | heartbeat event => exact incidental.pure ()

end Incidental

section Dispatcher

variable (bridge : ClientBridge) {tracker : TradeTracker}

/-- The tracker is this one, and all of its closed trades have been told of. -/
def Settled (tracker : TradeTracker) (told : List ClosedTrade) (s : BridgeMemory) : Prop :=
  s.tracker = tracker ∧ told = tracker.closedTrades

/-- The dispatcher goes on, with the tracker as it is. -/
theorem incidental_returns (tracker : TradeTracker) :
    Incidental fun c => c.Returns (Worker.rules .dispatcher) (Settled tracker) where
  pure := Coro.returns_pure
  view := Coro.returns_view
  bind first next := first.bind next
  write clients same _ := by
    apply Coro.returns_update
    rintro told s ⟨rfl, rfl⟩
    exact ⟨clients s, same s, rfl⟩
  broadcast message none_ _ := by
    apply Coro.returns_request
    · rintro told s ⟨rfl, rfl⟩
      exact ⟨by simp, by rw [BridgeRequest.trades, none_, List.append_nil]⟩
    · rintro r told s told' s' ⟨rfl, rfl⟩ ⟨fair, same, rfl⟩
      exact ⟨fair, same, rfl⟩
  notify text := by
    apply Coro.returns_request
    · rintro told s ⟨rfl, rfl⟩
      exact ⟨by simp, (List.append_nil _).symm⟩
    · rintro r told s told' s' ⟨rfl, rfl⟩ ⟨fair, same, rfl⟩
      exact ⟨fair, same, rfl⟩
  klines symbol limit := by
    refine Coro.returns_tryCatch ?_ fun _ => Coro.returns_pure _
    apply Coro.keeps_request (S := bridgeSig) (q := .klines symbol limit)
    · rintro told s ⟨rfl, rfl⟩
      exact ⟨by simp, (List.append_nil _).symm⟩
    · rintro r told s told' s' ⟨rfl, rfl⟩ ⟨-, same, rfl⟩
      exact ⟨same, rfl⟩

theorem ends_of_returns {program : Coro BridgeMemory bridgeSig Unit} {told : List ClosedTrade}
    {s : BridgeMemory} (returns : program.Returns (Worker.rules .dispatcher) (Settled tracker))
    (settled : Settled tracker told s) :
    program.Obeys (Worker.rules .dispatcher) (Worker.Ends tracker .dispatcher) told s :=
  returns told s settled

/-- The trade that the tracker has just closed is told of first. -/
theorem announceClosed_obeys (closed : ClosedTrade) {told : List ClosedTrade} {s : BridgeMemory}
    (same : s.tracker = tracker) (recorded : tracker.closedTrades = told ++ [closed]) :
    (bridge.toDashboard.announceClosed closed).Obeys (Worker.rules .dispatcher)
      (Worker.Ends tracker .dispatcher) told s := by
  rw [DashboardBridge.announceClosed, Coro.obeys_bind]
  change ((Coro.update fun m : ClientState => m.recordTrade closed) >>= fun _ =>
    broadcast (.order (.closedTrade closed))).Obeys _ _ told s
  rw [Coro.obeys_bind, Coro.obeys_update]
  refine ⟨s.desk.clients_recordTrade closed,
    (Coro.obeys_request (S := bridgeSig) (.broadcast _)).mpr ⟨⟨by simp, ?_⟩, ?_⟩⟩
  · exact (congrArg TradeTracker.closedTrades same).trans recorded
  · rintro r told' s' ⟨fair, kept, rfl⟩
    cases r with
    | error e => cases fair
    | ok _ =>
      refine ends_of_returns ?_ ⟨kept.trans same, congrArg TradeTracker.closedTrades same⟩
      refine ((incidental_returns tracker).pushAudit _).bind fun _ => ?_
      split
      · exact Coro.returns_pure ()
      next notify found =>
        refine Coro.returns_view.bind fun reasons => ?_
        refine ((incidental_returns tracker).write (fun _ => rfl) (fun _ => rfl) fun _ => rfl).bind
          fun _ => ?_
        exact (incidental_returns _).announce bridge found _

/-- What the dispatcher says of a fill that it has just applied. -/
theorem announce_obeys (fill : ExecutionEvent) (multiplier : ℚ) {s : BridgeMemory}
    (same : s.tracker = (tracker.onExecution multiplier fill).1) :
    (do
      Coro.onlyIf (!tracker.openTrades.contains fill.symbol &&
          (tracker.onExecution multiplier fill).1.openTrades.contains fill.symbol)
        (bridge.toDashboard.announceOpened fill)
      match (tracker.onExecution multiplier fill).2 with
      | some closed => bridge.toDashboard.announceClosed closed
      | none => pure () : Coro BridgeMemory bridgeSig Unit).Obeys (Worker.rules .dispatcher)
      (Worker.Ends (tracker.onExecution multiplier fill).1 .dispatcher) tracker.closedTrades s := by
  cases closes : (tracker.onExecution multiplier fill).2 with
  | none =>
    have leaves := TradeTracker.onExecution_leaves closes
    refine Coro.Returns.obeys_bind 
      (Coro.returns_onlyIf _ ((incidental_returns _).announceOpened bridge fill))
      ⟨same, leaves.symm⟩ fun _ told s' held => ?_
    exact ends_of_returns (Coro.returns_pure ()) held
  | some closed =>
    -- what closes a trade opens none, so that nothing comes before the closing
    obtain ⟨recorded, gone⟩ := TradeTracker.onExecution_closed closes
    rw [gone, Bool.and_false]
    exact bridge.announceClosed_obeys closed same recorded

/-- What these fills make of a tracker, one after the other. -/
def after (tracker : TradeTracker) (fills : List ExecutionEvent) : TradeTracker :=
  fills.foldl (fun tracker fill =>
    match bridge.multiplier fill.symbol with
    | .ok multiplier => (tracker.onExecution multiplier fill).1
    | .error _ => tracker) tracker

/-- The order event and its fill are told of before the tracker has seen the fill. -/
theorem handleOrderEvent_obeys (event : BrokerEvent) {s : BridgeMemory}
    (known : ∀ fill ∈ s.knownFills (.order event), (bridge.multiplier fill.symbol).isOk = true) :
    (bridge.toDashboard.handleOrderEvent event).Obeys (Worker.rules .dispatcher)
      (Worker.Ends (bridge.after s.tracker (s.knownFills (.order event))) .dispatcher)
      s.tracker.closedTrades s := by
  have start : Settled s.tracker s.tracker.closedTrades s := ⟨rfl, rfl⟩
  simp only [DashboardBridge.handleOrderEvent]
  rw [Coro.obeys_bind, Coro.obeys_view]
  dsimp only
  split
  next absent =>
    -- an unknown order is not handled at all
    have nothing : s.knownFills (.order event) = [] := by
      cases event with
      | execution fill =>
        rw [BridgeMemory.knownFills, if_neg]
        exact (Dict.contains_eq_false absent).trans_ne Bool.false_ne_true
      | _ => rfl
    rw [nothing]
    exact ends_of_returns (Coro.returns_pure ()) start
  next managed found =>
    have ordered := (incidental_returns s.tracker).broadcast (.order (.order managed))
      rfl (by simp [ClientMessage.Live])
    refine Coro.Returns.obeys_bind ordered start fun _ told₁ s₁ held₁ => ?_
    cases event with
    | ack event => exact ends_of_returns (Coro.returns_pure ()) held₁
    | reject event => exact ends_of_returns (Coro.returns_pure ()) held₁
    | execution fill =>
      have one : s.knownFills (.order (.execution fill)) = [fill] := by
        rw [BridgeMemory.knownFills, if_pos]
        exact Dict.contains_of_get? found
      rw [one] at known ⊢
      have looked := known fill List.mem_cons_self
      have marked := (incidental_returns s.tracker).broadcast
        (.order (.executionMarker fill)) rfl (by simp [ClientMessage.Live])
      refine Coro.Returns.obeys_bind marked held₁ fun _ told₂ s₂ held₂ => ?_
      refine Coro.Returns.obeys_bind ((incidental_returns _).pushAudit _) held₂
        fun _ told₃ s₃ held₃ => ?_
      -- from here to the next broadcast nothing is suspended
      have lookup : bridge.toDashboard.multiplierLookup fill.symbol =
          match bridge.multiplier fill.symbol with
          | .ok multiplier => pure multiplier
          | .error e => throw e := rfl
      rw [lookup, after, List.foldl_cons, List.foldl_nil]
      cases multiplied : bridge.multiplier fill.symbol with
      | error e =>
        rw [multiplied] at looked
        cases looked
      | ok multiplier =>
        dsimp only
        rw [Coro.obeys_bind, Coro.obeys_pure]
        dsimp only
        rw [Coro.obeys_bind, Coro.obeys_view]
        dsimp only
        rw [Coro.obeys_bind, Coro.obeys_update]
        obtain ⟨same, rfl⟩ := held₃
        have read : (Part.view s₃ : TradeTracker) = s.tracker := same
        rw [read]
        refine ⟨rfl, ?_⟩
        exact bridge.announce_obeys fill multiplier rfl

/-- An event leaves the tracker with its fill, if that is one of a known order. -/
theorem onEvent_obeys (event : BusEvent) {s : BridgeMemory}
    (known : ∀ fill ∈ s.knownFills event, (bridge.multiplier fill.symbol).isOk = true) :
    (bridge.onEvent event).Obeys (Worker.rules .dispatcher)
      (Worker.Ends (bridge.after s.tracker (s.knownFills event)) .dispatcher)
      s.tracker.closedTrades s := by
  have start : Settled s.tracker s.tracker.closedTrades s := ⟨rfl, rfl⟩
  cases event with
  | order event => exact bridge.handleOrderEvent_obeys event known
  | _ => exact ends_of_returns ((incidental_returns _).onEvent bridge (by simp)) start

end Dispatcher

theorem job_obeys (job : ClientDesk.Job) (tracker : TradeTracker) (n : ℕ) (told : List ClosedTrade)
    (s : BridgeMemory) :
    job.body.Obeys (Worker.rules (.background n)) (Worker.Ends tracker (.background n)) told s := by
  cases job with
  | audit line =>
    refine (Coro.obeys_bind _ _).mpr ((Coro.obeys_update _).mpr ?_)
    refine ⟨⟨s.desk.clients_recordAudit line, rfl⟩, ?_⟩
    exact (Coro.obeys_request (S := bridgeSig) _).mpr ⟨⟨_, rfl, rfl⟩, fun _ _ _ _ => trivial⟩
  | telemetry type =>
    exact (Coro.obeys_request (S := bridgeSig) _).mpr ⟨⟨_, rfl, rfl⟩, fun _ _ _ _ => trivial⟩

section Client

/-- Nothing is left to tell the client of. -/
def CaughtUp (missed : List ClosedTrade) (_ : BridgeMemory) : Prop := missed = []

/-- The backfill starts with all the trades there are, and goes on with other things. -/
theorem sendBackfill_caughtUp {C : Contract (List ClosedTrade) BridgeMemory bridgeSig}
    (id : ClientId) (s : BridgeMemory)
    (trades : s.desk.closedTradesRecent ≠ [] →
      (send id (.closedTradesBackfill s.desk.closedTradesRecent)).Obeys C (fun _ => CaughtUp)
        s.desk.closedTradesRecent s)
    (others : ∀ message : ClientMessage, message.trades = [] → message.Live →
      (send id message).Keeps C CaughtUp) :
    (sendBackfill id).Obeys C (fun _ => CaughtUp) s.desk.closedTradesRecent s := by
  rw [sendBackfill]
  refine Coro.Obeys.handled (I := CaughtUp) ?_ fun _ => Coro.keeps_pure ()
  rw [Coro.obeys_bind, Coro.obeys_view]
  dsimp only
  refine Coro.Obeys.followed ?_ fun _ => Coro.keeps_view.bind fun m => ?_
  · change (Coro.onlyIf (s.desk.closedTradesRecent ≠ []) _).Obeys _ _ _ _
    by_cases none_ : s.desk.closedTradesRecent = []
    · rw [decide_eq_false (not_not.mpr none_)]
      exact none_
    · rw [decide_eq_true none_]
      exact trades none_
  · refine (Coro.keeps_onlyIf _ (others _ rfl (by simp [ClientMessage.Live]))).bind fun _ => ?_
    refine Coro.keeps_view.bind fun m => Coro.keeps_forEach (fun symbol => ?_) _
    refine Coro.keeps_view.bind fun now => ?_
    split
    · exact Coro.keeps_throw _
    · exact Coro.keeps_onlyIf _ (others _ rfl (by simp [ClientMessage.Live]))

theorem sendBackfill_obeys (id : ClientId) (tracker : TradeTracker) (s : BridgeMemory) :
    (sendBackfill id).Obeys (Worker.rules (.client id)) (Worker.Ends tracker (.client id))
      s.desk.closedTradesRecent s := by
  apply sendBackfill_caughtUp
  · intro _
    refine (Coro.obeys_request (S := bridgeSig) _).mpr ⟨⟨_, rfl, rfl⟩, ?_⟩
    exact fun r missed s' caught => caught
  · intro message none_ _
    apply Coro.keeps_request
    · rintro missed s rfl
      exact ⟨message, rfl, none_⟩
    · exact fun r missed s missed' s' _ caught => caught

end Client

end ClientBridge

end Binbot
