import Binbot.Execution.ExchangeBook
import Binbot.Properties.FillPipeline
import Binbot.Scripts.CallerRules

/-!
# The tracker's book and the account

Between the exchange and the trade tracker a fill passes two lookups of its order in the
order manager, one in the adapter and one of the symbol's filters. All of them succeed for
the orders of the running process, so that the book agrees with the account as soon as
nothing is in flight, as long as no fill gets lost or passes through zero.
-/
namespace Binbot

open Async Data BinanceFuturesBroker FillPipeline

namespace TrackedBook

/-! ## Tasks without a fill in their hands -/

section Calm

variable (p : DeskParams) (rules : ExchangeRules)

/-- A plain order that is sent is known. -/
def Sent (d : Desk) (q : WireReq) : Prop :=
  ∀ params, q = .createOrder params → Exchange.wireLots rules params.symbol params.order ≠ none →
    Known params.symbol d params.newClientOrderId

theorem Sent.stable {d d' : Desk} {q : WireReq} (sent : Sent rules d q) (stable : Stable d d') :
    Sent rules d' q := fun params same plain => (sent params same plain).stable stable

def calmContract : Contract Unit Desk wireSig where
  issue q _ d := q ≠ .streamRecv ∧ Sent rules d q
  rely _ _ _ d _ d' := Stable d d'
  guar := Calm

abbrev Calmly {α : Type} (c : Coro Desk wireSig α) : Prop :=
  c.Keeps (calmContract rules) fun _ _ => True

/-- From this desk on, the program is calm. -/
abbrev CalmFrom {α : Type} (d : Desk) (c : Coro Desk wireSig α) : Prop :=
  c.Obeys (calmContract rules) (fun _ _ _ => True) () d

variable {rules} {α : Type}

theorem calm_request {q : WireReq} (other : q ≠ .streamRecv)
    (unplaced : ∀ params, q = .createOrder params →
      Exchange.wireLots rules params.symbol params.order = none) :
    Calmly rules (Coro.request (S := wireSig) q : Coro Desk wireSig (wireSig.Reply q)) := by
  apply Coro.keeps_request
  · exact fun w d _ => ⟨other, fun params same plain => absurd (unplaced params same) plain⟩
  · exact fun _ _ _ _ _ _ _ => trivial

theorem calm_update {τ : Type} [Part Desk τ] {f : τ → τ}
    (calm : ∀ d : Desk, Calm d (Part.set d (f (Part.view d)))) :
    Calmly rules (Coro.update f : Coro Desk wireSig Unit) :=
  Coro.keeps_update fun _ d _ => ⟨calm d, trivial⟩

/-- The adapter puts an event without a fill into its queue. -/
theorem Calm.put (d : Desk) {event : BrokerEvent} (empty : ∀ s, eventFills s event = []) :
    Calm d { d with broker := d.broker.put event } := by
  refine ⟨⟨fun _ member => member, fun _ member => member⟩, rfl, rfl, rfl, id, [event], rfl, ?_⟩
  intro other member
  rw [List.mem_singleton.mp member]
  exact empty

theorem register_own {broker : BrokerState} (own : OwnIds broker) (request : BrokerOrderRequest) :
    OwnIds (broker.register request) := by
  have ids : (broker.register request).clientOrderToInternalId =
      broker.clientOrderToInternalId.set request.orderId request.orderId := by
    rw [BrokerState.register]
    split
    · rfl
    · split
      · rfl
      · rfl
  intro id other found
  rw [ids] at found
  by_cases here : id = request.orderId
  · subst here
    rw [Dict.get?_set_self, Option.some.injEq] at found
    exact found.symm
  · rw [Dict.get?_set_ne _ _ here] at found
    exact own id other found

theorem Calm.register (d : Desk) (request : BrokerOrderRequest) :
    Calm d { d with broker := d.broker.register request } := by
  have filters := BrokerState.register_filters d.broker request
  have queue : (d.broker.register request).eventQueue = d.broker.eventQueue := by
    rw [BrokerState.register]
    split
    · rfl
    · split
      · rfl
      · rfl
  refine ⟨⟨fun _ member => member, fun s member => ?_⟩, rfl, rfl, filters,
    fun own => register_own own request, [], ?_, by simp⟩
  · rw [filters]
    exact member
  · rw [queue, List.append_nil]

/-- A recorded order is sent, or comes back as a reject. -/
theorem calm_placeOrder (request : BrokerOrderRequest) {d : Desk}
    (recorded : request.orderId ∈ d.manager.orders.keys) :
    CalmFrom rules d (p.broker.placeOrder request) := by
  simp only [placeOrder, Coro.obeys_bind, Coro.obeys_view]
  split
  · trivial
  next filt found =>
    split
    · exact ⟨Calm.put d fun _ => rfl, trivial⟩
    · rw [Coro.obeys_bind, Coro.obeys_update]
      refine ⟨Calm.register d request, ?_⟩
      dsimp only
      split
      · trivial
      next order wired =>
        simp only [Coro.obeys_tryCatch, Coro.obeys_bind, p.broker_createOrder, Coro.obeys_request]
        refine ⟨⟨by simp, ?_⟩, ?_⟩
        · -- the symbol's filters were read, and the order was recorded
          rintro params same -
          cases same
          refine ⟨recorded, ?_⟩
          have loaded : d.broker.filters.get? request.symbol = some filt := found
          change request.symbol ∈ (d.broker.register request).filters.keys
          rw [BrokerState.register_filters]
          exact Dict.mem_keys_of_get? loaded
        · intro r w' d' _
          cases r with
          | ok stop => trivial
          | error e => exact ⟨Calm.put d' fun _ => rfl, trivial⟩

theorem Calm.manager (d : Desk) {manager : ManagerState}
    (submitted : ∀ id ∈ d.manager.orders.keys, id ∈ manager.orders.keys) :
    Calm d { d with manager := manager } :=
  ⟨⟨submitted, fun _ member => member⟩, rfl, rfl, rfl, id, [], (List.append_nil _).symm, by simp⟩

/-- The parts that no fill passes through. -/
theorem Calm.elsewhere {d d' : Desk} (manager : d'.manager = d.manager)
    (broker : d'.broker = d.broker) (bus : d'.bus = d.bus) (tracker : d'.tracker = d.tracker) :
    Calm d d' := by
  refine ⟨.of_eq manager broker, tracker, bus, ?_, ?_, [], ?_, by simp⟩
  · rw [broker]
  · rw [broker]
    exact id
  · rw [broker, List.append_nil]

theorem calm_uuid4 : Calmly rules (OrderLifecycleManager.uuid4 : Coro Desk wireSig OrderId) :=
  Coro.keeps_view.bind fun _ =>
    (calm_update fun _ => Calm.elsewhere rfl rfl rfl rfl).bind fun _ => Coro.keeps_pure _

/-- The record is there before the adapter is asked. -/
theorem calm_submit (signal : SignalEvent) (expectedPrice : Option ℚ) :
    Calmly rules (p.orderManager.submit signal expectedPrice) := by
  refine calm_uuid4.bind fun id => ?_
  intro w d _
  rw [Coro.obeys_bind, Coro.obeys_update]
  refine ⟨Calm.manager d fun other member => (Dict.mem_keys_set _ _ _ _).mpr (.inr member), ?_⟩
  have recorded : (ManagedOrder.ofSignal id signal expectedPrice).request.orderId ∈
      (d.manager.orders.set id (ManagedOrder.ofSignal id signal expectedPrice)).keys :=
    (Dict.mem_keys_set _ _ _ _).mpr (.inl rfl)
  exact (calm_placeOrder p _ recorded).bind (fun _ _ _ _ => trivial) fun _ _ _ _ => trivial

/-- What a caller does is calm. -/
theorem calm_rules : CallerRules p (calmContract rules) fun _ _ => True where
  calls _ other unplaced := calm_request other fun params same => absurd same (unplaced params)
  stops params price symbol ms stop _ := by
    -- a native stop is no plain order
    apply calm_request
    · simp
    · rintro params same
      cases same
      rw [stop]
      rfl
  draws := calm_uuid4
  submits := calm_submit p
  marks id order _ d _ _ := by
    refine ⟨Calm.manager d fun other member => ?_, trivial⟩
    exact (Dict.mem_keys_set _ _ _ _).mpr (.inr member)

theorem calm_handleOcaFill (id : OrderId) : Calmly rules (p.broker.handleOcaFill id) := by
  refine Coro.keeps_view.bind fun m => ?_
  split
  · exact Coro.keeps_pure ()
  · split
    · exact Coro.keeps_pure ()
    · refine (Coro.keeps_forEach (calm_rules p).cancelOrder _).bind fun _ => ?_
      exact calm_update fun d => ⟨⟨fun _ member => member, fun _ member => member⟩, rfl, rfl, rfl,
        fun own => own, [], (List.append_nil _).symm, by simp⟩

end Calm

/-! ## The dispatcher -/

section Bridge

variable (p : DeskParams) (rules : ExchangeRules) (s : Symbol) (event : BrokerEvent) (n : ℤ)

/-- The book of the symbol while the dispatcher handles the event: `n`, or what the event's
fill has made of it. -/
def Booked (done : Bool) (d : Desk) : Prop :=
  Held d.tracker ∧ d.tracker.net s = if done then n + (eventFills s event).sum else n

/-- The event is handled against a book of `n` lots. Until the tracker has a fill of the
symbol, no call of the bridge raises. -/
def bridgeContract : Contract Unit Desk wireSig where
  issue q _ d := (q ≠ .streamRecv ∧ Sent rules d q) ∧ Booked s event n (!beforeTracker q) d
  rely q r _ d _ d' := Stable d d' ∧ d'.tracker = d.tracker ∧
    (beforeTracker q = true → eventFills s event ≠ [] → r.isOk = true)
  guar d d' := d'.manager = d.manager ∧ d'.broker = d.broker ∧ d'.bus = d.bus

/-- The program ends with the event's fill in the book. -/
abbrev Books {α : Type} (d : Desk) (c : Coro Desk wireSig α) : Prop :=
  c.Obeys (bridgeContract rules s event n) (fun _ _ after => Booked s event n true after) () d

variable {rules s event n}

theorem Booked.stable {done : Bool} {d d' : Desk} (booked : Booked s event n done d)
    (tracker : d'.tracker = d.tracker) : Booked s event n done d' := by
  rw [Booked, tracker]
  exact booked

theorem booked_nothing {d : Desk} (nothing : eventFills s event = [])
    (booked : Booked s event n false d) : Booked s event n true d := by
  obtain ⟨held, net⟩ := booked
  refine ⟨held, net.trans ?_⟩
  simp [nothing]

/-- Once the tracker has the fill, the bridge only tells others. -/
theorem booked_request {q : WireReq} (late : beforeTracker q = false)
    (other : q ≠ .streamRecv) (unplaced : ∀ params, q ≠ .createOrder params) :
    (Coro.request (S := wireSig) q : Coro Desk wireSig (wireSig.Reply q)).Keeps
      (bridgeContract rules s event n) fun _ d => Booked s event n true d := by
  apply Coro.keeps_request
  · intro w d booked
    refine ⟨⟨other, fun params same => absurd same (unplaced params)⟩, ?_⟩
    rw [late]
    exact booked
  · rintro r w d w' d' booked ⟨-, tracker, -⟩
    exact booked.stable tracker

theorem booked_announceOpened (fill : ExecutionEvent) :
    (p.bridge.announceOpened fill).Keeps (bridgeContract rules s event n)
      fun _ d => Booked s event n true d := by
  rw [DashboardBridge.announceOpened]
  split
  · exact Coro.keeps_pure ()
  next send found =>
    rw [p.bridge_notifier found]
    exact booked_request rfl (by simp) (by simp)

theorem booked_announceClosed (closed : ClosedTrade) :
    (p.bridge.announceClosed closed).Keeps (bridgeContract rules s event n)
      fun _ d => Booked s event n true d := by
  refine (booked_request rfl (by simp) (by simp)).bind fun _ => ?_
  refine (booked_request rfl (by simp) (by simp)).bind fun _ => ?_
  split
  · exact Coro.keeps_pure ()
  next send found =>
    refine Coro.keeps_view.bind fun reasons => ?_
    refine Coro.Keeps.bind (Coro.keeps_update fun w d booked => ?_) fun _ => ?_
    · exact ⟨⟨rfl, rfl, rfl⟩, booked⟩
    · rw [p.bridge_notifier found]
      exact booked_request rfl (by simp) (by simp)

/-- The rest of a handler that has returned from a call before the tracker. -/
theorem obeys_before {q : WireReq} {α : Type} {next : wireSig.Reply q → Coro Desk wireSig α}
    {d : Desk} (early : beforeTracker q = true) (booked : Booked s event n false d)
    (other : q ≠ .streamRecv) (unplaced : ∀ params, q ≠ .createOrder params)
    (goes : ∀ a d', Stable d d' → Booked s event n false d' → Books rules s event n d' (next a)) :
    Books rules s event n d (Coro.request (S := wireSig) q >>= next) := by
  rw [Books, Coro.obeys_bind, Coro.obeys_request]
  refine ⟨⟨⟨other, fun params same => absurd same (unplaced params)⟩, ?_⟩, ?_⟩
  · rw [early]
    exact booked
  · rintro r w' d' ⟨stable, tracker, returned⟩
    have after := booked.stable tracker
    cases r with
    | ok a => exact goes a d' stable after
    | error e =>
      -- only an event without a fill of the symbol is lost
      apply booked_nothing _ after
      by_contra some
      cases returned early some

/-- The bridge hands a fill to the tracker. -/
theorem booked_handleOrderEvent {d : Desk} (booked : Booked s event n false d)
    (straight : Straight n (eventFills s event))
    (known : eventFills s event ≠ [] → Known s d event.orderId) :
    Books rules s event n d (p.bridge.handleOrderEvent event) := by
  simp only [DashboardBridge.handleOrderEvent]
  rw [Books, Coro.obeys_bind, Coro.obeys_view]
  dsimp only
  split
  next absent =>
    apply booked_nothing _ booked
    by_contra some
    exact (Dict.get?_eq_none_iff _ _).mp absent (known some).1
  next managed found =>
    refine obeys_before (q := .broadcast (.order managed)) rfl booked (by simp) (by simp) ?_
    intro _ d₁ stable₁ booked₁
    cases event with
    | ack ack => exact booked_nothing rfl booked₁
    | reject reject => exact booked_nothing rfl booked₁
    | execution fill =>
      refine obeys_before (q := .broadcast (.executionMarker fill)) rfl booked₁
        (by simp) (by simp) ?_
      intro _ d₂ stable₂ booked₂
      refine obeys_before (q := .pushAudit ⟨.fill, .orderManager, _⟩) rfl booked₂
        (by simp) (by simp) ?_
      intro _ d₃ stable₃ booked₃
      have looked : p.bridge.multiplierLookup fill.symbol = getStepSize fill.symbol := rfl
      rw [looked, getStepSize, filtersOf]
      simp only [Coro.obeys_bind, Coro.obeys_view]
      split
      next result filt loaded =>
        simp only [Coro.obeys_pure, Coro.obeys_update]
        refine ⟨⟨rfl, rfl, rfl⟩, ?_⟩
        have after : Booked s (.execution fill) n true
            { d₃ with tracker := (d₃.tracker.onExecution filt.stepSize fill).1 } := by
          obtain ⟨held, net⟩ := booked₃
          have same : d₃.tracker.net s = n := net
          refine ⟨onExecution_held filt.stepSize fill held, ?_⟩
          rw [← same] at straight ⊢
          exact handed_net filt.stepSize s (.execution fill) held straight
        -- whatever is announced now, the book stays
        refine (Coro.keeps_onlyIf _ (booked_announceOpened p fill) () _ after).mono ?_
        intro r w' d' kept
        cases r with
        | error e => exact kept
        | ok _ =>
          dsimp only
          split
          · exact booked_announceClosed p _ w' d' kept
          · exact kept
      next result unloaded =>
        apply booked_nothing _ booked₃
        by_contra some
        have loaded := (known some).2
        rw [← eventFills_symbol some] at loaded
        exact (Dict.get?_eq_none_iff _ _).mp unloaded
          (stable₃.filters _ (stable₂.filters _ (stable₁.filters _ loaded)))

end Bridge

/-! ## The tasks between two segments -/

section Tasks

variable (p : DeskParams) (rules : ExchangeRules) (s : Symbol)

/-- Suspended or not, the task has no fill in its hands. -/
def CalmTask (task : Task Desk wireSig) (d : Desk) : Prop :=
  match task.phase with
  | .idle => True
  | .waiting q next => (q ≠ .streamRecv ∧ Sent rules d q) ∧
      ∀ r d', Stable d d' → CalmFrom rules d' (next r)
  | .answered q r next => q ≠ .streamRecv ∧
      ∀ d', Stable d d' → CalmFrom rules d' (next r)

/-- What the stream loop does with an answer. -/
def afterRecv : Answer wireSig .streamRecv → Coro Desk wireSig Unit
  | .ok message => p.broker.handleUserStreamMessage message
  | .error e => throw e

/-- The stream loop waits for a message, or has been given one. -/
def Receiving (task : Task Desk wireSig) : Prop :=
  match task.phase with
  | .waiting .streamRecv next => next = afterRecv p
  | .answered .streamRecv _ next => next = afterRecv p
  | _ => False

/-- The dispatcher is idle, or in one of the bridge's calls. -/
def Handling (taken : Option BusEvent) (task : Task Desk wireSig) (d : Desk) : Prop :=
  match task.phase with
  | .idle => True
  | .waiting q next => ∃ event n, taken = some (.order event) ∧ Straight n (eventFills s event) ∧
      (bridgeContract rules s event n).issue q () d ∧
      ∀ r d', (bridgeContract rules s event n).rely q r () d () d' →
        Books rules s event n d' (next r)
  | .answered q r next => ∃ event n, taken = some (.order event) ∧
      Straight n (eventFills s event) ∧ (bridgeContract rules s event n).issue q () d ∧
      (beforeTracker q = true → eventFills s event ≠ [] → r.isOk = true) ∧
      ∀ d', Stable d d' → d'.tracker = d.tracker →
        Books rules s event n d' (next r)

def TaskOk (taken : Option BusEvent) : TradingTask → Task Desk wireSig → Desk → Prop
  | .caller _, task, d => CalmTask rules task d
  | .stream, task, d => Receiving p task ∨ CalmTask rules task d
  | .consumer, task, _ => task.phase = .idle
  | .dispatcher, task, d => Handling rules s taken task d

variable {p rules s} {d d' : Desk} {task : Task Desk wireSig} {taken : Option BusEvent}

theorem CalmTask.stable (calm : CalmTask rules task d) (stable : Stable d d') :
    CalmTask rules task d' := by
  obtain ⟨phase, log⟩ := task
  cases phase with
  | idle => trivial
  | waiting q next =>
    obtain ⟨⟨other, sent⟩, goes⟩ := calm
    exact ⟨⟨other, sent.stable rules stable⟩, fun r d'' later => goes r d'' (stable.trans later)⟩
  | answered q r next =>
    obtain ⟨other, goes⟩ := calm
    exact ⟨other, fun d'' later => goes d'' (stable.trans later)⟩

theorem Handling.stable (handling : Handling rules s taken task d) (stable : Stable d d')
    (tracker : d'.tracker = d.tracker) : Handling rules s taken task d' := by
  obtain ⟨phase, log⟩ := task
  cases phase with
  | idle => trivial
  | waiting q next =>
    obtain ⟨event, n, same, straight, ⟨⟨other, sent⟩, booked⟩, goes⟩ := handling
    refine ⟨event, n, same, straight, ⟨⟨other, sent.stable rules stable⟩, ?_⟩, ?_⟩
    · exact booked.stable tracker
    · rintro r d'' ⟨later, still, fair⟩
      exact goes r d'' ⟨stable.trans later, still.trans tracker, fair⟩
  | answered q r next =>
    obtain ⟨event, n, same, straight, ⟨⟨other, sent⟩, booked⟩, fair, goes⟩ := handling
    exact ⟨event, n, same, straight, ⟨⟨other, sent.stable rules stable⟩, booked.stable tracker⟩,
      fair, fun d'' later still => goes d'' (stable.trans later) (still.trans tracker)⟩

theorem TaskOk.stable {i : TradingTask} (held : TaskOk p rules s taken i task d)
    (stable : Stable d d') (tracker : d'.tracker = d.tracker) :
    TaskOk p rules s taken i task d' := by
  cases i with
  | caller n => exact CalmTask.stable held stable
  | stream => exact held.imp id fun calm => calm.stable stable
  | consumer => exact held
  | dispatcher => exact Handling.stable held stable tracker

/-- A segment of a calm program. -/
theorem calm_segment {c : Coro Desk wireSig Unit}
    (calm : CalmFrom rules d c) (log : List (Async.Event wireSig)) :
    Calm d (c.advance d).2 ∧ CalmTask rules ⟨Phase.of (c.advance d).1, log⟩ (c.advance d).2 := by
  constructor
  · exact Coro.Obeys.advance_guar Calm Calm.refl Calm.trans id calm
  · have after := Coro.Obeys.advance calm
    cases stand : (c.advance d).1 with
    | await q next =>
      rw [stand] at after
      exact ⟨after.1, fun r d' stable => after.2 r () d' stable⟩
    | done a => trivial
    | fail e => trivial
    | get next => trivial
    | put t next => trivial

/-- What the dispatcher has in its hands, from the call it is in. -/
theorem stands_of_booked {event : BrokerEvent} {n : ℤ} {q : WireReq}
    (booked : Booked s event n (!beforeTracker q) d) :
    Stands n (eventFills s event) (handFills s (some (.order event)) (some q))
      (d.tracker.net s) := by
  obtain ⟨-, net⟩ := booked
  cases early : beforeTracker q with
  | true =>
    rw [early] at net
    exact .inHand (by rw [handFills, early]; rfl) net
  | false =>
    rw [early] at net
    exact .booked (by rw [handFills, early]; rfl) net

/-- A segment of the bridge's handler. -/
theorem handling_segment {c : Coro Desk wireSig Unit} {event : BrokerEvent} {n : ℤ}
    (books : Books rules s event n d c)
    (straight : Straight n (eventFills s event)) (log : List (Async.Event wireSig)) :
    Handling rules s (some (.order event)) ⟨Phase.of (c.advance d).1, log⟩ (c.advance d).2 ∧
      Held (c.advance d).2.tracker ∧
      Stands n (eventFills s event)
        (handFills s (some (.order event)) (Task.mk (Phase.of (c.advance d).1) log).pending)
        ((c.advance d).2.tracker.net s) := by
  have after := Coro.Obeys.advance books
  cases stand : (c.advance d).1 with
  | await q next =>
    rw [stand] at after
    obtain ⟨issued, goes⟩ := after
    exact ⟨⟨event, n, rfl, straight, issued, fun r d' kept => goes r () d' kept⟩, issued.2.1,
      stands_of_booked issued.2⟩
  | done a =>
    rw [stand] at after
    exact ⟨trivial, after.1, .booked rfl after.2⟩
  | fail e =>
    rw [stand] at after
    exact ⟨trivial, after.1, .booked rfl after.2⟩
  | get next => exact absurd stand (Coro.advance_ne_get c d next)
  | put t next => exact absurd stand (Coro.advance_ne_put c d t next)

/-- The bridge writes the tracker and its reasons, and nothing else. -/
theorem bridge_writes {c : Coro Desk wireSig Unit} {event : BrokerEvent} {n : ℤ}
    {Q : Except String Unit → Unit → Desk → Prop}
    (obeys : c.Obeys (bridgeContract rules s event n) Q () d) :
    (c.advance d).2.manager = d.manager ∧ (c.advance d).2.broker = d.broker ∧
      (c.advance d).2.bus = d.bus := by
  apply obeys.advance_guar (fun d d' : Desk =>
    d'.manager = d.manager ∧ d'.broker = d.broker ∧ d'.bus = d.bus)
  · exact fun d => ⟨rfl, rfl, rfl⟩
  · rintro d d' d'' ⟨manager, broker, bus⟩ ⟨manager', broker', bus'⟩
    exact ⟨manager'.trans manager, broker'.trans broker, bus'.trans bus⟩
  · exact id

end Tasks

/-! ## What becomes of a message -/

section Segments

variable (p : DeskParams) {rules : ExchangeRules} {s : Symbol} {strays : List OrderId}
  {hand : List ℤ} {d : Desk} {x : Exchange}

/-- The lots that the adapter makes of a trade update of a known order. -/
theorem eventFills_executionEvent {o : OrderTradeUpdate} {filt : SymbolFilters} (id : OrderId)
    (trade : o.execType = .trade)
    (loaded : o.symbol = s → filt = rules.spec s) :
    eventFills s (.execution (executionEvent filt id o)) =
      messageFills rules s (.orderTradeUpdate o) := by
  simp only [messageFills, trade, if_true, eventFills, executionEvent, ExecutionEvent.signedFill,
    messageLots]
  by_cases here : o.symbol = s
  · rw [loaded here, here]
  · rw [fillOf, fillOf, if_neg fun both => here both.1, if_neg fun both => here both.1]

/-- A trade update is a fill in the adapter's queue, before anything is awaited. -/
theorem advance_trade {o : OrderTradeUpdate} (trade : o.execType = .trade) {filt : SymbolFilters}
    (found : d.broker.filters.get? o.symbol = some filt) {id : OrderId}
    (named : d.broker.clientOrderToInternalId.getD o.clientOrderId o.clientOrderId = id) :
    (p.broker.handleUserStreamMessage (.orderTradeUpdate o)).advance d =
      (Coro.onlyIf (o.status = .filled) (p.broker.handleOcaFill id)).advance
        { d with broker := d.broker.put (.execution (executionEvent filt id o)) } := by
  have read : (Part.view d : BrokerState).filters.get? o.symbol = some filt := found
  have own : (Part.view d : BrokerState).clientOrderToInternalId.getD o.clientOrderId
      o.clientOrderId = id := named
  simp only [handleUserStreamMessage, trade, Coro.advance_view_bind, filtersOf, Coro.bind_bind]
  rw [read, own]
  rfl

theorem advance_unloaded {o : OrderTradeUpdate} (trade : o.execType = .trade)
    (absent : d.broker.filters.get? o.symbol = none) :
    (p.broker.handleUserStreamMessage (.orderTradeUpdate o)).advance d = (.fail "KeyError", d) := by
  have read : (Part.view d : BrokerState).filters.get? o.symbol = none := absent
  simp only [handleUserStreamMessage, trade, Coro.advance_view_bind, filtersOf, Coro.bind_bind]
  rw [read]
  rfl

/-- Any other update is an ack, a reject or nothing. -/
theorem advance_notice {o : OrderTradeUpdate} (other : o.execType = .other) :
    ∃ d', (p.broker.handleUserStreamMessage (.orderTradeUpdate o)).advance d = (.done (), d') ∧
      Calm d d' := by
  simp only [handleUserStreamMessage, other, Coro.advance_view_bind]
  cases o.status.orderStatus with
  | none => exact ⟨d, rfl, .refl d⟩
  | some status =>
    refine ⟨_, rfl, Calm.put d ?_⟩
    intro s
    split
    · rfl
    · rfl

/-- The stream loop looks at a message. -/
theorem stream_segment {message : UserStreamMessage}
    (flow : Flow rules s strays hand [message] d x) (log : List (Async.Event wireSig)) :
    let after := (p.broker.handleUserStreamMessage message).advance d
    Flow rules s strays hand [] after.2 x ∧ CalmTask rules ⟨Phase.of after.1, log⟩ after.2 ∧
      Stable d after.2 ∧ after.2.tracker = d.tracker := by
  cases message with
  | other => exact ⟨flow.dropped rfl, trivial, .refl d, rfl⟩
  | orderTradeUpdate o =>
    cases trade : o.execType with
    | other =>
      obtain ⟨d', after, calm⟩ := advance_notice p (d := d) trade
      have empty : [UserStreamMessage.orderTradeUpdate o].flatMap (messageFills rules s) = [] := by
        simp [messageFills, trade]
      dsimp only
      rw [after]
      exact ⟨(flow.dropped empty).calm calm, trivial, calm.stable, calm.tracker⟩
    | trade =>
      have known := flow.streamed o (by simp)
      cases found : d.broker.filters.get? o.symbol with
      | none =>
        -- a fill of the symbol finds its filters
        have empty :
            [UserStreamMessage.orderTradeUpdate o].flatMap (messageFills rules s) = [] := by
          rw [List.flatMap_singleton]
          by_contra some
          have here : o.symbol = s := messageFills_symbol some
          rw [here] at found
          exact (Dict.get?_eq_none_iff _ _).mp found (known some).2
        dsimp only
        rw [advance_unloaded p trade found]
        exact ⟨flow.dropped empty, trivial, .refl d, rfl⟩
      | some filt =>
        have own := flow.own.getD o.clientOrderId
        let event : BrokerEvent := .execution (executionEvent filt o.clientOrderId o)
        have lots : eventFills s event = messageFills rules s (.orderTradeUpdate o) :=
          eventFills_executionEvent o.clientOrderId trade
            fun here => flow.loaded filt (here ▸ found)
        have put : Flow rules s strays hand [] { d with broker := d.broker.put event } x := by
          refine flow.put ?_ fun some => known (lots ▸ some)
          rw [List.flatMap_singleton, lots]
        have rest : Calmly rules
            (Coro.onlyIf (o.status = .filled) (p.broker.handleOcaFill o.clientOrderId)) :=
          Coro.keeps_onlyIf _ (calm_handleOcaFill p _)
        dsimp only
        rw [advance_trade p trade found own]
        obtain ⟨calm, task⟩ := calm_segment (rest () _ trivial) log
        exact ⟨put.calm calm, task, ⟨calm.stable.submitted, calm.stable.filters⟩, calm.tracker⟩

/-- The consumer takes an event and the manager looks at it, without a suspension. -/
theorem advance_consumeOne {event : BrokerEvent} {rest : List BrokerEvent}
    (first : d.broker.eventQueue = event :: rest) :
    OrderLifecycleManager.consumeOne.advance d =
      (tryCatch (match (d.manager.handleEvent event).2 with
        | none => pure ()
        | some published => Coro.update fun bus : EventBus => bus.publish (.order published))
        fun _ => pure () : Coro Desk wireSig Unit).advance
        { d with
          broker := { d.broker with eventQueue := rest }
          manager := (d.manager.handleEvent event).1 } := by
  have read : (Part.view d : BrokerState).eventQueue = event :: rest := first
  simp only [OrderLifecycleManager.consumeOne, Coro.advance_view_bind]
  rw [read]
  rfl

theorem advance_unknown {event : BrokerEvent} {rest : List BrokerEvent}
    (first : d.broker.eventQueue = event :: rest)
    (absent : d.manager.orders.get? event.orderId = none) :
    OrderLifecycleManager.consumeOne.advance d =
      (.done (), { d with broker := { d.broker with eventQueue := rest } }) := by
  have handled : d.manager.handleEvent event = (d.manager, none) := by
    rw [ManagerState.handleEvent, absent]
  rw [advance_consumeOne first, handled]
  rfl

theorem advance_consumed {event : BrokerEvent} {rest : List BrokerEvent}
    (first : d.broker.eventQueue = event :: rest) {order : ManagedOrder}
    (found : d.manager.orders.get? event.orderId = some order) :
    OrderLifecycleManager.consumeOne.advance d =
      (.done (), { d with
        broker := { d.broker with eventQueue := rest }
        manager := (d.manager.handleEvent event).1
        bus := d.bus.publish (.order (order.after event).2) }) := by
  have handled : (d.manager.handleEvent event).2 = some (order.after event).2 := by
    rw [ManagerState.handleEvent, found]
  rw [advance_consumeOne first, handled]
  rfl

/-- The consumer's turn. -/
theorem consumer_segment {messages : List UserStreamMessage}
    (flow : Flow rules s strays hand messages d x)
    (room : ∀ event ∈ d.broker.eventQueue.head?, eventFills s event ≠ [] → d.bus.HasRoom) :
    let after := OrderLifecycleManager.consumeOne.advance d
    Flow rules s strays hand messages after.2 x ∧ after.1 = .done () ∧ Stable d after.2 ∧
      after.2.tracker = d.tracker := by
  cases first : d.broker.eventQueue with
  | nil =>
    have read : (Part.view d : BrokerState).eventQueue = [] := first
    have nothing : OrderLifecycleManager.consumeOne.advance d = (.done (), d) := by
      simp only [OrderLifecycleManager.consumeOne, Coro.advance_view_bind]
      rw [read]
      rfl
    dsimp only
    rw [nothing]
    exact ⟨flow, rfl, .refl d, rfl⟩
  | cons event rest =>
    dsimp only
    cases found : d.manager.orders.get? event.orderId with
    | none =>
      rw [advance_unknown first found]
      exact ⟨flow.unknown first found, rfl, ⟨fun _ member => member, fun _ member => member⟩, rfl⟩
    | some order =>
      rw [advance_consumed first found]
      refine ⟨flow.consumed first (room event ?_) found, rfl, ?_, rfl⟩
      · rw [first]
        rfl
      · exact ⟨d.manager.handleEvent_keys event, fun _ member => member⟩

/-- The dispatcher takes an event and hands it on. -/
theorem dispatcher_segment (earlier : Except String Unit) {messages : List UserStreamMessage}
    (flow : Flow rules s strays [] messages d x)
    (returned : ∀ event ∈ d.bus.queue.head?, busFills s event ≠ [] → earlier.isOk = true)
    (log : List (Async.Event wireSig)) :
    let after := (p.dispatch earlier).advance d
    let task : Task Desk wireSig := ⟨Phase.of after.1, log⟩
    Flow rules s strays (handFills s d.bus.queue.head? task.pending) messages after.2 x ∧
      Handling rules s d.bus.queue.head? task after.2 ∧ Stable d after.2 := by
  cases first : d.bus.queue with
  | nil =>
    have read : (Part.view d : EventBus).queue = [] := first
    have nothing : (p.dispatch earlier).advance d = (.done (), d) := by
      simp only [DeskParams.dispatch, Coro.advance_view_bind]
      rw [read]
      rfl
    dsimp only
    rw [nothing]
    exact ⟨flow, trivial, .refl d⟩
  | cons event rest =>
    have read : (Part.view d : EventBus).queue = event :: rest := first
    have taken := flow.taken first
    have handled : (p.dispatch earlier).advance d =
        (tryCatch (p.handle earlier event) fun _ => pure ()).advance
          { d with bus := { d.bus with queue := rest } } := by
      simp only [DeskParams.dispatch, Coro.advance_view_bind]
      rw [read]
      rfl
    dsimp only
    rw [handled]
    -- an event without a fill of the symbol may be lost, or do whatever it does
    have lost : busFills s event = [] → ∀ after : Coro Desk wireSig Unit × Desk,
        after = (.done (), { d with bus := { d.bus with queue := rest } }) →
        Flow rules s strays
            (handFills s (some event) (Task.mk (Phase.of after.1) log).pending) messages after.2 x ∧
          Handling rules s (some event) ⟨Phase.of after.1, log⟩ after.2 ∧ Stable d after.2 := by
      rintro empty after rfl
      rw [empty] at taken
      exact ⟨taken, trivial, ⟨fun _ member => member, fun _ member => member⟩⟩
    cases earlier with
    | error e =>
      -- an earlier handler raised, so that there was no fill to hand on
      apply lost _ _ rfl
      by_contra some
      cases returned event (by rw [first]; rfl) some
    | ok _ =>
      cases event with
      | order event =>
        have straight : Straight (d.tracker.net s) (eventFills s event) :=
          ((straight_append _ _ _).mp taken.balanced.straight).1
        have known := flow.published event (by rw [first]; exact List.mem_cons_self)
        have booked : Booked s event (d.tracker.net s) false
            { d with bus := { d.bus with queue := rest } } := ⟨flow.held, rfl⟩
        -- the bus catches what the handler raises, which changes nothing of the book
        have caught : Books rules s event (d.tracker.net s)
            { d with bus := { d.bus with queue := rest } }
            (tryCatch (p.handle (.ok ()) (.order event)) fun _ => pure ()) := by
          apply (booked_handleOrderEvent p booked straight known).caught
          · exact fun _ _ _ booked => booked
          · exact fun _ _ _ booked => booked
        obtain ⟨handling, held, stands⟩ := handling_segment caught straight log
        obtain ⟨manager, broker, bus⟩ := bridge_writes caught
        refine ⟨?_, handling, ?_⟩
        · exact taken.rebooked manager broker bus held straight (.inHand rfl rfl) stands
        · exact .of_eq manager broker
      | _ => exact lost rfl _ rfl

/-- The dispatcher goes on after a call. -/
theorem resumed_segment {taken : Option BusEvent} {messages : List UserStreamMessage}
    {task : Task Desk wireSig} {q : WireReq} {r : Answer wireSig q}
    {next : Answer wireSig q → Coro Desk wireSig Unit} (answered : task.phase = .answered q r next)
    (handling : Handling rules s taken task d)
    (flow : Flow rules s strays (handFills s taken (some q)) messages d x)
    (log : List (Async.Event wireSig)) :
    let after := (next r).advance d
    let task : Task Desk wireSig := ⟨Phase.of after.1, log⟩
    Flow rules s strays (handFills s taken task.pending) messages after.2 x ∧
      Handling rules s taken task after.2 ∧ Stable d after.2 := by
  rw [Handling, answered] at handling
  obtain ⟨event, n, rfl, straight, issued, -, goes⟩ := handling
  have obeys := goes d (.refl d) rfl
  obtain ⟨handling, held, stands⟩ := handling_segment obeys straight log
  obtain ⟨manager, broker, bus⟩ := bridge_writes obeys
  refine ⟨?_, handling, .of_eq manager broker⟩
  exact flow.rebooked manager broker bus held straight (stands_of_booked issued.2) stands

end Segments

/-! ## The condition on a run -/

/-- No handler before the bridge's raises. -/
def handlersReturn : TradingCommand → Bool
  | .dispatch earlier => earlier.isOk
  | _ => true

/-- The book can follow this step: no fill of the symbol passes through zero, is of an order
of an earlier process or gets lost on its way, no native stop triggers while the symbol is
held, and no process starts while it is. -/
def Follows (rules : ExchangeRules) (s : Symbol) (t : Trading) : Trading.Act → Prop
  | .task (.drift (.exchange (.fill id lots _))) =>
    ∀ o ∈ t.world.outside.findWorking id, o.symbol = s →
      o.id ∉ t.strays ∧ ¬ Crosses (t.world.outside.position s) (o.side.sign * lots)
  | .task (.drift (.exchange (.trigger id _))) =>
    ∀ stop ∈ t.world.outside.stops.find? (·.orderId = id), stop.symbol = s →
      t.world.outside.position s = 0
  | .restart _ => t.world.outside.position s = 0
  -- the call that returns a message with a fill does not raise
  | .task (.serve .stream service) =>
    (t.world.task .stream).pending = some .streamRecv →
      ∀ message ∈ t.world.outside.stream.head?, messageFills rules s message ≠ [] →
        service.acts = true → service.raises = none
  -- the bus has room for a fill
  | .task (.start .consumer _) =>
    ∀ event ∈ t.world.memory.broker.eventQueue.head?, eventFills s event ≠ [] →
      t.world.memory.bus.HasRoom
  -- no handler raises before the tracker has a fill
  | .task (.start .dispatcher command) =>
    ∀ event ∈ t.world.memory.bus.queue.head?, busFills s event ≠ [] → handlersReturn command = true
  | .task (.serve .dispatcher service) =>
    inHand s t ≠ [] → service.acts = true ∧ service.raises = none
  | _ => True

instance (rules : ExchangeRules) (s : Symbol) (t : Trading) :
    (act : Trading.Act) → Decidable (Follows rules s t act)
  | .restart _ => inferInstanceAs (Decidable (_ = _))
  | .task (.start (.caller _) _) => .isTrue trivial
  | .task (.start .stream _) => .isTrue trivial
  | .task (.start .consumer _) => inferInstanceAs (Decidable (∀ _ ∈ (_ : Option _), _))
  | .task (.start .dispatcher _) => inferInstanceAs (Decidable (∀ _ ∈ (_ : Option _), _))
  | .task (.serve (.caller _) _) => .isTrue trivial
  | .task (.serve .stream _) => inferInstanceAs (Decidable (_ → _))
  | .task (.serve .consumer _) => .isTrue trivial
  | .task (.serve .dispatcher _) => inferInstanceAs (Decidable (_ → _))
  | .task (.resume _) => .isTrue trivial
  | .task (.drift (.exchange (.fill _ _ _))) =>
    inferInstanceAs (Decidable (∀ _ ∈ (_ : Option _), _))
  | .task (.drift (.exchange (.trigger _ _))) =>
    inferInstanceAs (Decidable (∀ _ ∈ (_ : Option _), _))
  | .task (.drift (.exchange (.expire _))) => .isTrue trivial
  | .task (.drift (.exchange (.cancel _))) => .isTrue trivial
  | .task (.drift (.load _)) => .isTrue trivial
  | .task (.drift (.publish _)) => .isTrue trivial
  | .task (.drift (.clock _)) => .isTrue trivial

/-! ## Whole steps -/

section Steps

variable {p : DeskParams} {rules : ExchangeRules} {s : Symbol} {strays : List OrderId}
  {taken : Option BusEvent} {w : TradingWorld}

/-- Between two segments. -/
structure Inv (p : DeskParams) (rules : ExchangeRules) (s : Symbol) (strays : List OrderId)
    (taken : Option BusEvent) (w : TradingWorld) : Prop where
  flow : Flow rules s strays (handFills s taken (w.task .dispatcher).pending)
    (received (w.task .stream)) w.memory w.outside
  tasks : ∀ i, TaskOk p rules s taken i (w.task i) w.memory

/-- A request that is not for a message, served by the exchange. -/
theorem calmMarket_serve {d : Desk} (x : Exchange) (service : Service) {q : WireReq}
    (other : q ≠ .streamRecv) (sent : Sent rules d q) :
    CalmMarket rules d x (x.serve rules service q).2 := by
  rw [Exchange.serve]
  split
  · cases q with
    | createOrder params => exact calmMarket_accept d x params (sent params rfl)
    | cancelOrder symbol id => exact calmMarket_endOrders d x _ _ _ (by simp)
    | cancelOrderById symbol id => exact ⟨rfl, ⟨[], (List.append_nil _).symm, by simp⟩,
        fun _ member _ => .inl member⟩
    | cancelAllOpenOrders symbol =>
      have ended : CalmMarket rules d x
          (x.endOrders rules .cancelled .canceled (·.symbol = symbol)) :=
        calmMarket_endOrders d x _ _ _ (by simp)
      exact ⟨ended.position, ended.stream, ended.working⟩
    | streamRecv => exact absurd rfl other
    | _ => exact .refl rules d x
  · exact .refl rules d x

/-- One task moves, and the others notice nothing of it. -/
theorem Inv.segment (held : Inv p rules s strays taken w) (i : TradingTask)
    {taken' : Option BusEvent} {c : Coro Desk wireSig Unit} {log : List (Async.Event wireSig)}
    (stable : Stable w.memory (c.advance w.memory).2)
    (quiet : i ≠ .dispatcher →
      taken' = taken ∧ (c.advance w.memory).2.tracker = w.memory.tracker)
    (own : TaskOk p rules s taken' i ⟨Phase.of (c.advance w.memory).1, log⟩ (c.advance w.memory).2)
    (flow : Flow rules s strays (handFills s taken' ((w.segment i c log).task .dispatcher).pending)
      (received ((w.segment i c log).task .stream)) (c.advance w.memory).2 w.outside) :
    Inv p rules s strays taken' (w.segment i c log) := by
  refine ⟨flow, fun j => ?_⟩
  by_cases here : j = i
  · subst here
    rw [World.segment_same]
    exact own
  · rw [World.segment_ne _ _ _ here]
    by_cases moves : i = .dispatcher
    · -- only the dispatcher itself looks at the tracker
      subst moves
      have before := held.tasks j
      cases j with
      | caller n => exact CalmTask.stable before stable
      | stream => exact before.imp id fun calm => calm.stable stable
      | consumer => exact before
      | dispatcher => exact absurd rfl here
    · obtain ⟨rfl, tracker⟩ := quiet moves
      exact (held.tasks j).stable stable tracker

theorem pending_of_waiting {task : Task Desk wireSig} {q : WireReq}
    {next : Answer wireSig q → Coro Desk wireSig Unit} (waiting : task.phase = .waiting q next) :
    task.pending = some q := by rw [Task.pending, waiting]

theorem handFills_none (taken : Option BusEvent) : handFills s taken none = [] := by
  cases taken <;> rfl

/-- The stream loop asks for the next message. -/
theorem advance_receive (p : DeskParams) (d : Desk) :
    p.receive.advance d = (.await .streamRecv (afterRecv p), d) := by
  have next : p.receive = .await .streamRecv (afterRecv p) := by
    apply congrArg (Coro.await (σ := Desk) (S := wireSig) WireReq.streamRecv)
    funext r
    cases r with
    | ok message => rfl
    | error e => rfl
  rw [next]
  rfl

theorem received_of (c : Coro Desk wireSig Unit) (log : List (Async.Event wireSig)) :
    received ⟨Phase.of c, log⟩ = [] := by cases c <;> rfl

theorem received_calm {task : Task Desk wireSig} {d : Desk} (calm : CalmTask rules task d) :
    received task = [] := by
  obtain ⟨phase, log⟩ := task
  cases phase with
  | idle => rfl
  | waiting q next => rfl
  | answered q r next =>
    cases q with
    | streamRecv => exact absurd rfl calm.1
    | _ => rfl

variable {t : Trading}

theorem start_inv (held : Inv p rules s t.strays t.event t.world) {i : TradingTask}
    {command : TradingCommand} {c : Coro Desk wireSig Unit} (idle : (t.world.task i).phase = .idle)
    (found : p.tradingBody i command = some c)
    (follows : Follows rules s t (.task (.start i command))) :
    Inv p rules s t.strays (t.eventAfter (.start i command))
      (t.world.segment i c (t.world.task i).log) := by
  cases i with
  | caller n =>
    obtain ⟨calm, task⟩ := calm_segment ((calm_rules p).caller found () t.world.memory trivial)
      (t.world.task (.caller n)).log
    refine held.segment (.caller n) calm.stable (fun _ => ⟨rfl, calm.tracker⟩) task ?_
    rw [World.segment_ne _ _ _ (by simp), World.segment_ne _ _ _ (by simp)]
    exact held.flow.calm calm
  | stream =>
    cases command with
    | receive =>
      cases found
      -- the loop only asks for the next message
      have stays := advance_receive p t.world.memory
      refine held.segment .stream ?_ (fun _ => ⟨rfl, ?_⟩) ?_ ?_
      · rw [stays]
        exact .refl _
      · rw [stays]
      · rw [stays]
        exact .inl rfl
      · have before := held.flow
        rw [World.segment_ne _ _ _ (by simp), World.segment_same, stays]
        rw [received, idle] at before
        exact before
    | _ => cases found
  | consumer =>
    cases command with
    | consume =>
      cases found
      obtain ⟨flow, done, stable, tracker⟩ := consumer_segment held.flow follows
      refine held.segment .consumer stable (fun _ => ⟨rfl, tracker⟩) ?_ ?_
      · rw [done]
        rfl
      · rw [World.segment_ne _ _ _ (by simp), World.segment_ne _ _ _ (by simp)]
        exact flow
    | _ => cases found
  | dispatcher =>
    cases command with
    | dispatch earlier =>
      cases found
      have before := held.flow
      rw [Task.pending, idle, handFills_none] at before
      obtain ⟨flow, handling, stable⟩ := dispatcher_segment p earlier before follows
        (t.world.task .dispatcher).log
      refine held.segment .dispatcher stable (fun other => absurd rfl other) handling ?_
      rw [World.segment_same, World.segment_ne _ _ _ (by simp)]
      exact flow
    | _ => cases found

theorem resume_inv (held : Inv p rules s t.strays t.event t.world) {i : TradingTask} {q : WireReq}
    {r : Answer wireSig q} {next : Answer wireSig q → Coro Desk wireSig Unit}
    (answered : (t.world.task i).phase = .answered q r next) (log : List (Async.Event wireSig)) :
    Inv p rules s t.strays t.event (t.world.segment i (next r) log) := by
  -- a task without a fill in its hands
  have calm : i ≠ .dispatcher → CalmTask rules (t.world.task i) t.world.memory →
      (received (t.world.task .stream) =
        received ((t.world.segment i (next r) log).task .stream)) →
      (∀ task, CalmTask rules task ((next r).advance t.world.memory).2 →
        TaskOk p rules s t.event i task ((next r).advance t.world.memory).2) →
      Inv p rules s t.strays t.event (t.world.segment i (next r) log) := by
    intro other calm same ok
    rw [CalmTask, answered] at calm
    obtain ⟨writes, task⟩ := calm_segment (calm.2 _ (.refl _)) log
    refine held.segment i writes.stable (fun _ => ⟨rfl, writes.tracker⟩) (ok _ task) ?_
    rw [World.segment_ne _ _ _ (Ne.symm other), ← same]
    exact held.flow.calm writes
  cases i with
  | caller n =>
    refine calm (by simp) (held.tasks (.caller n)) ?_ fun task ok => ok
    rw [World.segment_ne _ _ _ (by simp)]
  | stream =>
    cases held.tasks .stream with
    | inl receiving =>
      rw [Receiving, answered] at receiving
      cases q with
      | streamRecv =>
        have before := held.flow
        rw [received, answered] at before
        cases receiving
        cases r with
        | ok message =>
          obtain ⟨flow, task, stable, tracker⟩ := stream_segment p before log
          refine held.segment .stream stable (fun _ => ⟨rfl, tracker⟩) (.inr task) ?_
          rw [World.segment_ne _ _ _ (by simp), World.segment_same, received_of]
          exact flow
        | error e =>
          refine held.segment .stream (.refl _) (fun _ => ⟨rfl, rfl⟩) (.inr trivial) ?_
          rw [World.segment_ne _ _ _ (by simp), World.segment_same, received_of]
          exact before
      | _ => cases receiving
    | inr task =>
      refine calm (by simp) task ?_ fun task ok => .inr ok
      rw [World.segment_same, received_of, received_calm task]
  | consumer =>
    have idle : (t.world.task .consumer).phase = .idle := held.tasks .consumer
    rw [answered] at idle
    cases idle
  | dispatcher =>
    have before := held.flow
    rw [Task.pending, answered] at before
    obtain ⟨flow, handling, stable⟩ := resumed_segment answered (held.tasks .dispatcher) before log
    refine held.segment .dispatcher stable (fun other => absurd rfl other) handling ?_
    rw [World.segment_same, World.segment_ne _ _ _ (by simp)]
    exact flow

/-- An answer is on its way to a task. -/
theorem Inv.served (held : Inv p rules s strays taken w) {i : TradingTask} {q : WireReq}
    {next : Answer wireSig q → Coro Desk wireSig Unit}
    (waiting : (w.task i).phase = .waiting q next) (r : Answer wireSig q) {y : Exchange}
    (own : TaskOk p rules s taken i ⟨.answered q r next, (w.task i).log⟩ w.memory)
    (flow : Flow rules s strays (handFills s taken (w.task .dispatcher).pending)
      (received ((w.setTask i ⟨.answered q r next, (w.task i).log⟩).task .stream)) w.memory y) :
    Inv p rules s strays taken
      { w.setTask i ⟨.answered q r next, (w.task i).log⟩ with outside := y } := by
  have pending : ((w.setTask i ⟨.answered q r next, (w.task i).log⟩).task .dispatcher).pending =
      (w.task .dispatcher).pending := by
    by_cases here : TradingTask.dispatcher = i
    · subst here
      rw [World.setTask_same, Task.pending, Task.pending, waiting]
    · rw [World.setTask_ne _ _ here]
  refine ⟨?_, fun j => ?_⟩
  · change Flow rules s strays (handFills s taken
      ((w.setTask i ⟨.answered q r next, (w.task i).log⟩).task .dispatcher).pending) _ _ _
    rw [pending]
    exact flow
  · change TaskOk p rules s taken j ((w.setTask i ⟨.answered q r next, (w.task i).log⟩).task j)
      w.memory
    by_cases here : j = i
    · subst here
      rw [World.setTask_same]
      exact own
    · rw [World.setTask_ne _ _ here]
      exact held.tasks j

/-- The exchange answers the stream loop. -/
theorem serve_message {hand : List ℤ} {d : Desk} {x : Exchange}
    (flow : Flow rules s strays hand [] d x) (service : Service)
    (kept : ∀ message ∈ x.stream.head?, messageFills rules s message ≠ [] →
      service.acts = true → service.raises = none)
    (next : Answer wireSig .streamRecv → Coro Desk wireSig Unit)
    (log : List (Async.Event wireSig)) :
    Flow rules s strays hand
      (received ⟨.answered .streamRecv (x.serve rules service .streamRecv).1 next, log⟩) d
      (x.serve rules service .streamRecv).2 := by
  cases acts : service.acts with
  | false =>
    simp only [Exchange.serve, acts]
    exact flow
  | true =>
    simp only [Exchange.serve, acts, if_true, Exchange.act]
    have given := flow.given
    cases raises : service.raises with
    | none => exact given
    | some e =>
      -- the message is lost, and it was none with a fill
      apply given.dropped
      rw [List.flatMap_singleton]
      cases first : x.stream.head? with
      | none => rfl
      | some message =>
        by_contra some
        rw [kept message first some acts] at raises
        cases raises

theorem serve_inv (held : Inv p rules s t.strays t.event t.world) {i : TradingTask}
    {service : Service} {q : WireReq} {next : Answer wireSig q → Coro Desk wireSig Unit}
    (waiting : (t.world.task i).phase = .waiting q next)
    (follows : Follows rules s t (.task (.serve i service))) :
    Inv p rules s t.strays t.event
      { t.world.setTask i ⟨.answered q (t.world.outside.serve rules service q).1 next,
          (t.world.task i).log⟩ with
        outside := (t.world.outside.serve rules service q).2 } := by
  cases i with
  | caller n =>
    have task : CalmTask rules (t.world.task (.caller n)) t.world.memory := held.tasks (.caller n)
    rw [CalmTask, waiting] at task
    obtain ⟨⟨other, sent⟩, goes⟩ := task
    refine held.served waiting _ ⟨other, fun d' stable => goes _ d' stable⟩ ?_
    rw [World.setTask_ne _ _ (by simp)]
    exact held.flow.calmMarket (calmMarket_serve _ service other sent)
  | stream =>
    cases held.tasks .stream with
    | inl receiving =>
      -- a receive takes the next message off the stream
      rw [Receiving, waiting] at receiving
      cases q with
      | streamRecv =>
        have before := held.flow
        rw [received, waiting] at before
        refine held.served waiting _ (.inl receiving) ?_
        rw [World.setTask_same]
        exact serve_message before service (follows (pending_of_waiting waiting)) next _
      | _ => cases receiving
    | inr task =>
      rw [CalmTask, waiting] at task
      obtain ⟨⟨other, sent⟩, goes⟩ := task
      have calm : CalmTask rules ⟨.answered q (t.world.outside.serve rules service q).1 next,
          (t.world.task .stream).log⟩ t.world.memory := ⟨other, fun d' stable => goes _ d' stable⟩
      refine held.served waiting _ (.inr calm) ?_
      have before := held.flow
      rw [received, waiting] at before
      rw [World.setTask_same, received_calm calm]
      exact before.calmMarket (calmMarket_serve _ service other sent)
  | consumer =>
    have idle : (t.world.task .consumer).phase = .idle := held.tasks .consumer
    rw [waiting] at idle
    cases idle
  | dispatcher =>
    have task : Handling rules s t.event (t.world.task .dispatcher) t.world.memory :=
      held.tasks .dispatcher
    rw [Handling, waiting] at task
    obtain ⟨event, n, same, straight, issued, goes⟩ := task
    -- what comes before the tracker is answered when there is a fill at stake
    have fair : beforeTracker q = true → eventFills s event ≠ [] →
        (t.world.outside.serve rules service q).1.isOk = true := by
      intro early some
      have hand : inHand s t = eventFills s event := by
        rw [inHand, same, pending_of_waiting waiting, handFills, early]
        rfl
      obtain ⟨acts, raises⟩ := follows (hand ▸ some)
      simp only [Exchange.serve, acts, raises]
      rfl
    refine held.served waiting _ ⟨event, n, same, straight, issued, fair, ?_⟩ ?_
    · exact fun d' stable tracker => goes _ d' ⟨stable, tracker, fair⟩
    · rw [World.setTask_ne _ _ (by simp)]
      exact held.flow.calmMarket (calmMarket_serve _ service issued.1.1 issued.1.2)

theorem move_inv (held : Inv p rules s t.strays t.event t.world) {m : Exchange.Move} {y : Exchange}
    (moved : t.world.outside.move rules m = some y)
    (follows : Follows rules s t (.task (.drift (.exchange m)))) :
    Inv p rules s t.strays t.event { t.world with outside := y } := by
  refine ⟨?_, held.tasks⟩
  cases m with
  | fill id lots detail =>
    simp only [Exchange.move, Option.bind_eq_some_iff] at moved
    obtain ⟨o, found, filled⟩ := moved
    split at filled
    next sized =>
      cases filled
      obtain ⟨member, -, works⟩ :=
        (t.world.outside.mem_working _ _).mp (t.world.outside.findWorking_spec found)
      exact held.flow.filled member works sized.1 detail (fun here => (follows o found here).1)
        fun here => (follows o found here).2
    · cases filled
  | trigger id detail =>
    obtain ⟨stop, found, rfl⟩ := Option.map_eq_some_iff.mp moved
    exact held.flow.triggered detail (follows stop found)
  | expire id =>
    cases moved
    exact held.flow.calmMarket (calmMarket_endOrders _ _ _ _ _ (by simp))
  | cancel id =>
    cases moved
    exact held.flow.calmMarket (calmMarket_endOrders _ _ _ _ _ (by simp))

theorem drift_inv (held : Inv p rules s t.strays t.event t.world) {move : TradingMove} {d : Desk}
    {y : Exchange} (moved : tradingDrift rules t.world.memory t.world.outside move = some (d, y))
    (follows : Follows rules s t (.task (.drift move))) :
    Inv p rules s t.strays t.event { t.world with memory := d, outside := y } := by
  cases move with
  | exchange m =>
    obtain ⟨x, happened, same⟩ := Option.map_eq_some_iff.mp moved
    cases same
    exact move_inv held happened follows
  | load symbol =>
    cases moved
    refine ⟨held.flow.load symbol, fun i => (held.tasks i).stable ?_ rfl⟩
    exact ⟨fun _ member => member, fun _ member => (Dict.mem_keys_set _ _ _ _).mpr (.inr member)⟩
  | publish event =>
    cases event with
    | order event => cases moved
    | _ =>
      cases moved
      refine ⟨held.flow.publish (by simp), fun i => (held.tasks i).stable ?_ rfl⟩
      exact ⟨fun _ member => member, fun _ member => member⟩
  | clock clock =>
    cases moved
    have calm : Calm t.world.memory { t.world.memory with clock := clock } :=
      Calm.elsewhere rfl rfl rfl rfl
    exact ⟨held.flow.calm calm, fun i => (held.tasks i).stable calm.stable rfl⟩

/-- A process starts with an empty book, and the account is flat in the symbol. -/
theorem started_inv (p : DeskParams) (rules : ExchangeRules) {s : Symbol} (symbols : List Symbol)
    (uuids : Uuids) (clock : Clock) {x : Exchange} (flat : x.position s = 0) :
    Inv p rules s (Trading.started rules symbols uuids clock x).strays none
      (Trading.started rules symbols uuids clock x).world := by
  refine ⟨⟨?_, ?_, ?_, ?_, ?_, ?_, ?_, ?_⟩, fun i => ?_⟩
  · intro s trade found
    cases found
  · change Balanced 0 [] (x.position s)
    rw [flat]
    exact .nil 0
  · intro event member
    cases member
  · intro event member
    cases member
  · intro o member
    cases member
  · intro o member works here ours
    have stray : o.id ∈ (x.orders.filter (·.standing = .working)).map (·.id) :=
      List.mem_map_of_mem (List.mem_filter.mpr ⟨member, by simpa using works⟩)
    exact absurd stray ours
  · intro id other found
    cases found
  · exact fun filt found => Desk.fresh_loaded found
  · cases i with
    | caller n => trivial
    | stream => exact .inr trivial
    | consumer => rfl
    | dispatcher => trivial

theorem step_inv {t' : Trading} {act : Trading.Act}
    (held : Inv p rules s t.strays t.event t.world) (follows : Follows rules s t act)
    (moved : Trading.step rules p t act = some t') :
    Inv p rules s t'.strays t'.event t'.world := by
  cases act with
  | restart symbols =>
    cases moved
    exact started_inv p rules symbols _ _ follows
  | task label =>
    obtain ⟨v, stepped, rfl⟩ := Option.map_eq_some_iff.mp moved
    rcases System.step_cases _ stepped with ⟨i, command, c, rfl, idle, found, rfl⟩ |
      ⟨i, service, q, next, r, y, rfl, waiting, served, rfl⟩ |
      ⟨i, q, r, next, rfl, answered, rfl⟩ | ⟨move, d, y, rfl, drifted, rfl⟩
    · exact start_inv held idle found follows
    · have answer : t.world.outside.serve rules service q = (r, y) := Option.some.inj served
      obtain rfl : r = (t.world.outside.serve rules service q).1 := by rw [answer]
      obtain rfl : y = (t.world.outside.serve rules service q).2 := by rw [answer]
      exact serve_inv held waiting follows
    · exact resume_inv held answered _
    · exact drift_inv held drifted follows

end Steps

/-- In every run that the book can follow for a symbol, the tracker's book and the fills in
flight make up the account's position, so that they agree once all messages have been
processed. A fill that finds no trade entered a flat account, and no fill exceeds the
trade that it closes. -/
theorem tracked_book (p : DeskParams) (rules : ExchangeRules) (s : Symbol) (symbols : List Symbol)
    (uuids : Uuids) (clock : Clock) (x : Exchange) (acts : List Trading.Act) (t : Trading)
    (flat : x.position s = 0)
    (follows : Machine.Meets (Trading.step rules p) (Follows rules s)
      (Trading.started rules symbols uuids clock x) acts)
    (reached : Machine.run (Trading.step rules p)
      (Trading.started rules symbols uuids clock x) acts = some t) :
    (Quiet t → t.world.memory.tracker.net s = t.world.outside.position s) ∧
    t.world.memory.tracker.net s + (inFlight rules s t).sum = t.world.outside.position s ∧
    ∀ fill rest, inFlight rules s t = fill :: rest →
      ¬ Crosses (t.world.memory.tracker.net s) fill ∧
      (t.world.memory.tracker.openTrades.get? s = none →
        t.world.outside.position s - (fill :: rest).sum = 0) := by
  have held : Inv p rules s t.strays t.event t.world :=
    Machine.run_invariant (fun t : Trading => Inv p rules s t.strays t.event t.world)
      (fun _ _ _ => step_inv) _ acts t (started_inv p rules symbols uuids clock flat) follows
      reached
  have balanced : Balanced (t.world.memory.tracker.net s) (inFlight rules s t)
      (t.world.outside.position s) := held.flow.balanced
  refine ⟨fun quiet => ?_, balanced.sum, fun fill rest flying => ?_⟩
  · have sum := balanced.sum
    rw [quiet.inFlight rules s, List.sum_nil, add_zero] at sum
    exact sum
  · rw [flying] at balanced
    refine ⟨balanced.straight.1, fun absent => ?_⟩
    have sum := balanced.sum
    rw [net_of_none absent, zero_add] at sum
    rw [sum, sub_self]

/-! ## Some runs -/

/-- A turn of a task that makes so many calls. -/
def turn (i : TradingTask) (command : TradingCommand) (calls : ℕ) (service : Service) :
    List Trading.Act :=
  .task (.start i command) ::
    (List.replicate calls [Trading.Act.task (.serve i service), .task (.resume i)]).flatten

/-- The next message on its whole way; the bridge makes so many calls about it. -/
def passed (calls : ℕ) (service : Service) : List Trading.Act :=
  turn .stream .receive 1 {} ++ turn .consumer .consume 0 {} ++
    turn .dispatcher (.dispatch (.ok ())) calls service

/-- A market order of BTCUSDT, accepted and reported. -/
def sent (side : OrderSide) (lots : ℤ) : List Trading.Act :=
  let signal : SignalEvent :=
    { symbol := "BTCUSDT", strategyId := "pairs", side := side, targetQuantity := lots }
  turn (.caller 0) (.submit signal none) 1 {} ++ passed 1 {}

def filling (draw : ℕ) (lots : ℤ) : Trading.Act :=
  .task (.drift (.exchange (.fill (.hex draw) lots ⟨100, 0, false, 0⟩)))

def flatStart : Trading := .started demoRules ["BTCUSDT"] ⟨0⟩ ⟨0, 0⟩ { position := fun _ => 0 }

abbrev ran (acts : List Trading.Act) : Option Trading :=
  Machine.run (Trading.step demoRules DeskParams.demoDesk) flatStart acts

/-- Whether all messages are processed, the tracker's net quantity, the account's position,
and the closed trades, all for BTCUSDT. -/
def seen (t : Trading) : Bool × ℤ × ℤ × List (OrderSide × ℤ) :=
  (decide (Quiet t), t.world.memory.tracker.net "BTCUSDT", t.world.outside.position "BTCUSDT",
    t.world.memory.tracker.closedTrades.map fun closed => (closed.side, closed.quantity))

/-- All messages are processed, and the book and the account are these. -/
def Ends (acts : List Trading.Act) (net position : ℤ) (closed : List (OrderSide × ℤ)) : Prop :=
  ∃ t, ran acts = some t ∧ Quiet t ∧ t.world.memory.tracker.net "BTCUSDT" = net ∧
    t.world.outside.position "BTCUSDT" = position ∧
    t.world.memory.tracker.closedTrades.map (fun closed => (closed.side, closed.quantity)) = closed

theorem ends_of_seen {acts : List Trading.Act} {net position : ℤ} {closed : List (OrderSide × ℤ)}
    (ends : (ran acts).map seen = some (true, net, position, closed)) :
    Ends acts net position closed := by
  obtain ⟨t, reached, state⟩ := Option.map_eq_some_iff.mp ends
  simp only [seen, Prod.mk.injEq, decide_eq_true_eq] at state
  exact ⟨t, reached, state⟩

/-- Five lots bought in two parts and sold again. -/
def roundTrip : List Trading.Act :=
  sent .buy 5 ++ [filling 0 2, filling 0 3] ++ passed 3 {} ++ passed 3 {} ++
    sent .sell 5 ++ [filling 1 5] ++ passed 5 {}

theorem tracked_book_roundTrip : ∃ t, ran roundTrip = some t ∧ Quiet t ∧
    t.world.memory.tracker.net "BTCUSDT" = t.world.outside.position "BTCUSDT" ∧
    t.world.memory.tracker.closedTrades.length = 1 := by
  obtain ⟨t, reached, quiet, -, -, closed⟩ :=
    ends_of_seen (show (ran roundTrip).map seen = some (true, 0, 0, [(.buy, 5)]) by decide +kernel)
  have agrees := tracked_book DeskParams.demoDesk demoRules "BTCUSDT" ["BTCUSDT"] ⟨0⟩ ⟨0, 0⟩
    { position := fun _ => 0 } roundTrip t rfl (by decide +kernel) reached
  exact ⟨t, reached, quiet, agrees.1 quiet, by simpa using congrArg List.length closed⟩

def bought : List Trading.Act := sent .buy 5 ++ [filling 0 5] ++ passed 3 {}

/-- A native stop triggers. -/
def stopped : List Trading.Act :=
  bought ++ turn (.caller 0) (.placeStopLoss "BTCUSDT" true 100 5 (1 / 10)) 1 {} ++
    [.task (.drift (.exchange (.trigger 1 ⟨80, 0, false, 0⟩)))] ++ passed 0 {}

/-- The process starts again with the position, sells it, and buys it once more. -/
def restarted : List Trading.Act :=
  bought ++ [.restart ["BTCUSDT"]] ++ sent .sell 5 ++ [filling 1 5] ++ passed 3 {} ++
    sent .buy 5 ++ [filling 2 5] ++ passed 5 {}

/-- More is sold than is held. -/
def flipped : List Trading.Act :=
  bought ++ sent .sell 8 ++ [filling 1 8] ++ passed 5 {}

/-- The broadcast of the fill raises. -/
def raised : List Trading.Act :=
  sent .buy 5 ++ [filling 0 5] ++ passed 1 { raises := some "Set changed size during iteration" }

/-- A stop that triggers, a start with an open position, a fill through zero and a broadcast
that raises each leave the book wrong for good. After the start the tracker takes the
closing fill for an entry, and the next entry closes a trade that never was. -/
theorem book_parts_from_account :
    Ends stopped 5 0 [] ∧ Ends restarted 0 5 [(.sell, 5)] ∧ Ends flipped 0 (-3) [(.buy, 5)] ∧
      Ends raised 0 5 [] := by
  refine ⟨ends_of_seen ?_, ends_of_seen ?_, ends_of_seen ?_, ends_of_seen ?_⟩
  · decide +kernel
  · decide +kernel
  · decide +kernel
  · decide +kernel

end TrackedBook

end Binbot
