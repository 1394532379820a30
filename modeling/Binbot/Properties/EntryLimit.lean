import Binbot.Machine.Reservation
import Binbot.Scripts.EntryDesk

/-!
# The limit on open positions

The gate of the strategy looks at a polled book and at a map that forgets after ten
seconds. It keeps the limit as long as the two together hold every symbol that is taken
or on its way when a bar passes; a symbol that neither of them names is the way past it.
-/
namespace Binbot

open Async Data Machine

namespace EntryDesk

/-- The symbol of an order that is on its way to the exchange. -/
def handedOn (d : EntryDesk) : Option Symbol :=
  match (d.world.task .dispatcher).phase with
  | .waiting (.live (.submit signal _)) _ => some signal.symbol
  | _ => none

/-- The symbols that are taken stay within the limit, and an order is handed on for none of
them. -/
structure WithinLimit (limit : ℕ) (d : EntryDesk) : Prop where
  counted : d.world.outside.live.card ≤ limit
  distinct : ∀ symbol ∈ d.handedOn, symbol ∉ d.world.outside.live

instance (limit : ℕ) (d : EntryDesk) : Decidable (WithinLimit limit d) :=
  decidable_of_iff (d.world.outside.live.card ≤ limit ∧
      ∀ symbol ∈ d.handedOn, symbol ∉ d.world.outside.live)
    ⟨fun ⟨counted, distinct⟩ => ⟨counted, distinct⟩,
      fun ⟨counted, distinct⟩ => ⟨counted, distinct⟩⟩

/-! ## The condition on a run -/

section

variable (p : EntryParams)

/-- The gate lets the bar through, with a setup for an entry. -/
def Passes (m : EntryProcess) (bar : BarEvent) : Prop :=
  bar.symbol ∉ m.seen ∧ m.seen.card < p.scannerParams.maxOpenPositions ∧
    (evaluateEntry (m.feed.priceChangePct.get? bar.symbol) (m.feed.fundingTrend.get? bar.symbol)
      p.scannerParams.priceJumpPct).isSome

instance (m : EntryProcess) (bar : BarEvent) : Decidable (Passes p m bar) :=
  inferInstanceAs (Decidable (_ ∧ _ ∧ _))

/-- What the gate counts when a bar passes holds every symbol that is taken, and every one
whose signal is on the way. -/
def SeesAll (d : EntryDesk) (event : BusEvent) : Prop :=
  match event with
  | .bar bar => Passes p d.world.memory bar →
      d.world.outside.live ∪ d.world.memory.queued.toFinset ⊆ d.world.memory.seen
  | _ => True

instance (d : EntryDesk) : (event : BusEvent) → Decidable (SeesAll p d event)
  | .bar _ => inferInstanceAs (Decidable (_ → (_ : Finset Symbol) ⊆ _))
  | .signal _ => .isTrue trivial
  | .order _ => .isTrue trivial
  | .tick _ => .isTrue trivial
  | .orderBook _ => .isTrue trivial
  | .riskHalt _ => .isTrue trivial
  | .heartbeat _ => .isTrue trivial

/-- A bar is judged on everything that is taken or on its way. -/
def Covered (d : EntryDesk) : EntryLabel → Prop
  | .start .dispatcher (.dispatch (.ok _)) => ∀ event ∈ d.world.memory.bus.queue.head?,
      SeesAll p d event
  | _ => True

instance (d : EntryDesk) : (label : EntryLabel) → Decidable (Covered p d label)
  | .start .dispatcher (.dispatch (.ok _)) =>
    inferInstanceAs (Decidable (∀ event ∈ (_ : Option BusEvent), _))
  | .start .dispatcher (.dispatch (.error _)) => .isTrue trivial
  | .start .dispatcher (.poll _) => .isTrue trivial
  | .start .monitor _ => .isTrue trivial
  | .serve _ _ => .isTrue trivial
  | .resume _ => .isTrue trivial
  | .drift _ => .isTrue trivial

end

/-! ## The handlers -/

def submits : EntryReq → Bool
  | .live (.submit _ _) => true
  | _ => false

/-- What a handler of the event may wait for. -/
def Awaits (event : BusEvent) (q : EntryReq) : Prop :=
  match event with
  | .bar _ => submits q = false
  | .signal signal => ∀ other price, q = .live (.submit other price) → other = signal
  | _ => False

/-- A handler that asks has published nothing in the segment that started with `w.1`, and has
not handed its order on; `w.2` is the request that the segment was resumed from. -/
structure Asks (p : EntryParams) (event : BusEvent) (q : EntryReq)
    (w : EntryProcess × Option EntryReq) (m : EntryProcess) : Prop where
  unplaced : ∀ answered ∈ w.2, submits answered = false
  unpublished : m.queued = w.1.queued
  awaits : Awaits event q
  passes : ∀ bar, event = .bar bar → w.2 = none → Passes p w.1 bar

def handlerContract (p : EntryParams) (event : BusEvent) :
    Contract (EntryProcess × Option EntryReq) EntryProcess entrySig where
  issue := Asks p event
  rely q _ _ _ w' m' := w' = (m', some q)
  guar _ _ := True

/-- A handler of a bar that was suspended may have published one signal for its symbol. -/
def Ends (event : BusEvent) (_ : Except String Unit) (w : EntryProcess × Option EntryReq)
    (m : EntryProcess) : Prop :=
  m.queued = w.1.queued ∨
    w.2 ≠ none ∧ ∃ bar, event = .bar bar ∧ m.queued = w.1.queued ++ [bar.symbol]

abbrev Handler (p : EntryParams) (event : BusEvent) (c : Coro EntryProcess entrySig Unit)
    (w : EntryProcess × Option EntryReq) (m : EntryProcess) : Prop :=
  c.Obeys (handlerContract p event) (Ends event) w m

section Handlers

variable (p : EntryParams) {event : BusEvent} {m : EntryProcess}

/-- A signal that is published is queued, or dropped by a full bus. -/
theorem queued_publish (m : EntryProcess) (signal : SignalEvent) :
    { m with bus := m.bus.publish (.signal signal) }.queued = m.queued ∨
      { m with bus := m.bus.publish (.signal signal) }.queued = m.queued ++ [signal.symbol] := by
  by_cases room : m.bus.HasRoom
  · right
    rw [EntryProcess.queued, m.bus.publish_queue room, List.filterMap_append]
    rfl
  · left
    rw [EntryProcess.queued, m.bus.publish_full room, EntryProcess.queued]

theorem handler_enter {bar : BarEvent} (side : OrderSide) (price equity : ℚ) (q : EntryReq) :
    Handler p (.bar bar) (p.strategy.enter bar.symbol side price equity) (m, some q) m := by
  simp only [FundingMomentumScanner.enter]
  split
  · exact .inl rfl
  · simp only [Handler, Coro.obeys_bind, Coro.obeys_view, Coro.obeys_update]
    refine ⟨trivial, trivial, ?_⟩
    rcases queued_publish _ _ with dropped | queued
    · exact .inl dropped
    · exact .inr ⟨Option.some_ne_none q, bar, rfl, queued⟩

theorem handler_dispatchBar (bar : BarEvent) :
    Handler p (.bar bar) (p.strategy.dispatchBar bar) (m, none) m := by
  rw [FundingMomentumScanner.dispatchBar, Handler, Coro.obeys_bind, Coro.obeys_view]
  dsimp only
  rw [Coro.onlyIf]
  split
  · simp only [FundingMomentumScanner.onBar, Coro.obeys_bind, Coro.obeys_view, Coro.obeys_update]
    refine ⟨trivial, ?_⟩
    split
    · exact .inl rfl
    next new =>
      split
      · exact .inl rfl
      next room =>
        rw [Coro.obeys_bind, Coro.obeys_view]
        dsimp only
        split
        · exact .inl rfl
        next side setup =>
          -- the gate is passed and the setup is there: the one request is for the equity
          change Coro.Obeys _ (Coro.request (S := entrySig) (.live .accountEquity) >>= _) _ _ _
          rw [Coro.obeys_bind, Coro.obeys_request]
          constructor
          · refine ⟨fun _ none => (Option.not_mem_none _ none).elim, rfl, rfl, ?_⟩
            rintro _ ⟨⟩ -
            exact ⟨new, not_le.mp room, Option.isSome_iff_exists.mpr ⟨side, setup⟩⟩
          · rintro r w' m' rfl
            cases r with
            -- without an equity nothing is published
            | error e => exact .inl rfl
            | ok equity => exact handler_enter p side _ equity _
  · exact .inl rfl

/-- A request of the signal handler before it submits. -/
theorem handler_request {signal : SignalEvent} {q : LiveReq}
    {w : EntryProcess × Option EntryReq} {rest : q.Reply → Coro EntryProcess entrySig Unit}
    (plain : submits (.live q) = false)
    (next : ∀ a m, Handler p (.signal signal) (rest a) (m, some (.live q)) m)
    (unplaced : ∀ answered ∈ w.2, submits answered = false) (same : m.queued = w.1.queued) :
    Handler p (.signal signal) (Coro.request (S := entrySig) (.live q) >>= rest) w m := by
  rw [Handler, Coro.obeys_bind, Coro.obeys_request]
  constructor
  · refine ⟨unplaced, same, ?_, ?_⟩
    · intro other price own
      rw [own] at plain
      cases plain
    · rintro _ ⟨⟩
  · rintro r w' m' rfl
    cases r with
    | error e => exact .inl rfl
    | ok a => exact next a m'

theorem handler_onSignal (signal : SignalEvent) :
    Handler p (.signal signal) (p.main.onSignal signal) (m, none) m := by
  have after : ∀ {q : LiveReq}, submits (.live q) = false →
      ∀ answered ∈ some (EntryReq.live q), submits answered = false := by
    rintro q plain answered ⟨⟩
    exact plain
  apply handler_request p rfl _ (fun _ none => (Option.not_mem_none _ none).elim) rfl
  intro equity m
  apply handler_request p rfl _ (after rfl) rfl
  intro positions m
  rw [Handler, Coro.obeys_bind, Coro.obeys_view]
  apply handler_request p rfl _ (after rfl) rfl
  intro margin m
  simp only [LiveScanner.checkOrder, Handler, Coro.obeys_bind, Coro.obeys_view,
    Coro.obeys_update, Coro.obeys_pure]
  refine ⟨trivial, ?_⟩
  split
  next passed =>
    -- both checks passed: the leverage and the margin type are set, then the order is handed on
    refine handler_request p rfl ?_ (after rfl) (by rfl)
    intro _ m
    apply handler_request p rfl _ (after rfl) rfl
    intro _ m
    rw [Handler, Coro.obeys_bind, Coro.obeys_view]
    change Coro.Obeys _ (Coro.request (S := entrySig) (.live (.submit signal _))) _ _ _
    rw [Coro.obeys_request]
    constructor
    · refine ⟨after rfl, rfl, ?_, ?_⟩
      · rintro other price own
        cases own
        rfl
      · rintro _ ⟨⟩
    · rintro r w' m' rfl
      exact .inl rfl
  next refused =>
    -- a refused signal goes to the audit trail only
    change Coro.Obeys _ (Coro.request (S := entrySig) (.live (.pushAudit _))) _ _ _
    rw [Coro.obeys_request]
    constructor
    · refine ⟨after rfl, rfl, ?_, ?_⟩
      · rintro other price own
        cases own
      · rintro _ ⟨⟩
    · rintro r w' m' rfl
      exact .inl rfl

/-- Whatever the event is and whatever its handlers before have raised. -/
theorem handler_handle (earlier : Except String Unit) (event : BusEvent) :
    Handler p event (p.handle earlier event) (m, none) m := by
  cases earlier with
  | error e => exact .inl rfl
  | ok _ =>
    cases event with
    | bar bar => exact handler_dispatchBar p bar
    | signal signal => exact handler_onSignal p signal
    | _ => exact .inl rfl

theorem handler_caught (earlier : Except String Unit) (event : BusEvent) :
    Handler p event (tryCatch (p.handle earlier event) fun _ => pure ()) (m, none) m := by
  apply (handler_handle p earlier event).caught
  · exact fun _ _ _ ended => ended
  · exact fun _ _ _ ended => ended

end Handlers

/-! ## What is on the way -/

/-- The symbol that a handler of the event may claim. -/
def claimOf : BusEvent → List Symbol
  | .bar bar => [bar.symbol]
  | .signal signal => [signal.symbol]
  | _ => []

/-- What the event in the dispatcher's hands may still claim. -/
def coming (hand : Option BusEvent) : Phase EntryProcess entrySig → List Symbol
  | .idle => []
  | .waiting _ _ => (hand.map claimOf).getD []
  | .answered q _ _ => if submits q then [] else (hand.map claimOf).getD []

/-- A handler that is suspended awaits what it may await, and so will what is left of it. -/
def Suspended (p : EntryParams) (hand : Option BusEvent) (q : EntryReq)
    (next : Answer entrySig q → Coro EntryProcess entrySig Unit) : Prop :=
  ∃ event, hand = some event ∧ Awaits event q ∧
    ∀ r m, Handler p event (next r) (m, some q) m

def Handles (p : EntryParams) (hand : Option BusEvent) : Phase EntryProcess entrySig → Prop
  | .idle => True
  | .waiting q next => Suspended p hand q next
  | .answered q _ next => Suspended p hand q next

/-- A poll publishes nothing and hands on no entry. -/
def pollContract : Contract Unit EntryProcess entrySig where
  issue q _ _ := submits q = false
  rely _ _ _ _ _ _ := True
  guar m n := n.queued = m.queued

abbrev Polling (c : Coro EntryProcess entrySig Unit) : Prop :=
  ∀ m, c.Obeys pollContract (fun _ _ _ => True) () m

def Polls : Phase EntryProcess entrySig → Prop
  | .idle => True
  | .waiting q next => submits q = false ∧ ∀ r, Polling (next r)
  | .answered _ _ next => ∀ r, Polling (next r)

/-- Every symbol is claimed once, and all of them fit the limit. -/
structure Inv (p : EntryParams) (limit : ℕ) (d : EntryDesk) : Prop where
  polls : Polls (d.world.task .monitor).phase
  handles : Handles p d.hand (d.world.task .dispatcher).phase
  reserved : Reserved limit d.world.outside.live
    (d.world.memory.queued ++ coming d.hand (d.world.task .dispatcher).phase)

section Steps

variable {p : EntryParams} {limit : ℕ} {event : BusEvent}
  {c : Coro EntryProcess entrySig Unit} {w : EntryProcess × Option EntryReq} {m : EntryProcess}

/-- A segment of a handler ends the handling, or suspends it. -/
theorem handler_segment (obeys : Handler p event c w m) :
    Handles p (some event) (Phase.of (c.advance m).1) ∧
      ((coming (some event) (Phase.of (c.advance m).1) = [] ∧
          Ends event (.ok ()) w (c.advance m).2) ∨
        coming (some event) (Phase.of (c.advance m).1) = claimOf event ∧
          ∃ q, Asks p event q w (c.advance m).2) := by
  have after := obeys.advance
  cases stand : (c.advance m).1 with
  | done a =>
    rw [stand] at after
    exact ⟨trivial, .inl ⟨rfl, after⟩⟩
  | fail e =>
    rw [stand] at after
    exact ⟨trivial, .inl ⟨rfl, after⟩⟩
  | get next => exact absurd stand (Coro.advance_ne_get c m next)
  | put t next => exact absurd stand (Coro.advance_ne_put c m t next)
  | await q next =>
    rw [stand] at after
    obtain ⟨asks, future⟩ := after
    exact ⟨⟨event, rfl, asks.awaits, fun r m => future r _ m rfl⟩, .inr ⟨rfl, q, asks⟩⟩

/-- A handler that goes on claims no more than it had to come. -/
theorem resumed_claims {q : EntryReq} (awaits : Awaits event q)
    (obeys : Handler p event c (m, some q) m) :
    ((c.advance m).2.queued ++ coming (some event) (Phase.of (c.advance m).1)).Sublist
      (m.queued ++ if submits q then [] else claimOf event) := by
  obtain ⟨-, ⟨ended, same | ⟨-, bar, rfl, published⟩⟩ | ⟨more, q', asks⟩⟩ := handler_segment obeys
  · rw [ended, same, List.append_nil]
    exact List.sublist_append_left _ _
  · -- the bar's symbol is now claimed by the signal that it has published
    have plain : submits q = false := awaits
    rw [ended, published, List.append_nil, plain]
    exact List.Sublist.refl _
  · have plain : submits q = false := asks.unplaced q rfl
    rw [more, asks.unpublished, plain]
    exact List.Sublist.refl _

/-- The process once the dispatcher has taken the first event. -/
def popped (m : EntryProcess) (rest : List BusEvent) : EntryProcess :=
  { m with bus := { m.bus with queue := rest } }

theorem advance_dispatch (p : EntryParams) (earlier : Except String Unit) {rest : List BusEvent}
    (next : m.bus.queue = event :: rest) :
    (p.dispatch earlier).advance m =
      (tryCatch (p.handle earlier event) fun _ => pure ()).advance (popped m rest) := by
  have first : (Part.view m : EventBus).queue = event :: rest := next
  rw [EntryParams.dispatch, Coro.advance_view_bind]
  simp only [first]
  rfl

theorem advance_dispatch_empty (p : EntryParams) (earlier : Except String Unit)
    (empty : m.bus.queue = []) : (p.dispatch earlier).advance m = (pure (), m) := by
  have first : (Part.view m : EventBus).queue = [] := empty
  rw [EntryParams.dispatch, Coro.advance_view_bind]
  simp only [first]
  rfl

theorem queued_popped {rest : List BusEvent} (next : m.bus.queue = event :: rest) :
    (popped m rest).queued.Sublist m.queued := by
  rw [EntryProcess.queued, EntryProcess.queued, next]
  exact (List.sublist_cons_self event rest).filterMap _

/-- A handler starts with what the bus has promised, and a bar that passes the gate finds room
for its own symbol. -/
theorem started_reserved {earlier : Except String Unit} {rest : List BusEvent}
    {live : Finset Symbol} (next : m.bus.queue = event :: rest)
    (held : Reserved limit live m.queued) (roomy : p.scannerParams.maxOpenPositions ≤ limit)
    (covered : ∀ u, earlier = .ok u → ∀ bar, event = .bar bar → Passes p m bar →
      live ∪ m.queued.toFinset ⊆ m.seen) :
    Reserved limit live (((p.dispatch earlier).advance m).2.queued ++
      coming (some event) (Phase.of ((p.dispatch earlier).advance m).1)) := by
  rw [advance_dispatch p earlier next]
  obtain ⟨-, ⟨ended, same | ⟨resumed, -⟩⟩ | ⟨more, q, asks⟩⟩ :=
    handler_segment (handler_caught p (m := popped m rest) earlier event)
  · rw [ended, same, List.append_nil]
    exact held.leave (Finset.Subset.refl _) (queued_popped next)
  · exact absurd rfl resumed
  · rw [more, asks.unpublished]
    cases event with
    | bar bar =>
      -- a bar in the queue claims nothing
      have kept : (popped m rest).queued = m.queued := by
        rw [EntryProcess.queued, EntryProcess.queued, next]
        rfl
      have passes : Passes p m bar := asks.passes bar rfl rfl
      rw [kept]
      cases earlier with
      | error e =>
        -- the bar was never handed to the strategy
        have none : [] = [bar.symbol] := more
        cases none
      | ok u =>
        apply held.enter (covered u rfl bar rfl passes) passes.1
        exact lt_of_lt_of_le passes.2.1 roomy
    | signal signal =>
      -- the signal's own symbol goes from the queue into the dispatcher's hands
      apply held.perm
      have first : m.queued = signal.symbol :: (popped m rest).queued := by
        rw [EntryProcess.queued, EntryProcess.queued, next]
        rfl
      rw [first]
      exact List.perm_append_singleton _ _
    | _ => exact asks.awaits.elim

/-! ### The exchange -/

theorem live_accept (x : EntryMarket) (symbol : Symbol) :
    (x.accept symbol).live = insert symbol x.live := by
  ext other
  simp only [EntryMarket.live, EntryMarket.accept, List.map_append, List.map_cons, List.map_nil,
    Finset.mem_union, List.mem_toFinset, List.mem_append, List.mem_singleton, Finset.mem_insert]
  tauto

theorem live_subset {x y : EntryMarket} (positions : ∀ s ∈ y.positions.keys, s ∈ x.live)
    (entries : ∀ order ∈ y.entries, order ∈ x.entries) : y.live ⊆ x.live := by
  intro s member
  rcases Finset.mem_union.mp member with held | ordered
  · exact positions s (List.mem_toFinset.mp held)
  · obtain ⟨order, there, rfl⟩ := List.mem_map.mp (List.mem_toFinset.mp ordered)
    apply Finset.mem_union_right
    exact List.mem_toFinset.mpr (List.mem_map_of_mem (entries order there))

theorem mem_live_of_open {x : EntryMarket} {s : Symbol} (held : s ∈ x.positions.keys) :
    s ∈ x.live :=
  Finset.mem_union_left _ (List.mem_toFinset.mpr held)

theorem mem_live_of_entry {x : EntryMarket} {order : EntryOrder} (there : order ∈ x.entries) :
    order.symbol ∈ x.live :=
  Finset.mem_union_right _ (List.mem_toFinset.mpr (List.mem_map_of_mem there))

/-- Only the strategy publishes signals. -/
theorem queued_publish_other (m : EntryProcess) {event : BusEvent}
    (other : ∀ signal, event ≠ .signal signal) :
    EntryProcess.queued { m with bus := m.bus.publish event } = m.queued := by
  by_cases room : m.bus.HasRoom
  · rw [EntryProcess.queued, m.bus.publish_queue room, List.filterMap_append]
    cases event with
    | signal signal => exact absurd rfl (other signal)
    | _ => exact List.append_nil _
  · rw [EntryProcess.queued, m.bus.publish_full room, EntryProcess.queued]

/-- A move takes no new symbol and publishes no signal. -/
theorem entryDrift_leaves {x y : EntryMarket} {m n : EntryProcess} {move : EntryMove}
    (moved : entryDrift m x move = some (n, y)) : y.live ⊆ x.live ∧ n.queued = m.queued := by
  cases move with
  | fill id held whole =>
    obtain ⟨order, found, same⟩ := Option.map_eq_some_iff.mp moved
    cases same
    -- a fill turns the order's symbol into a held one
    refine ⟨live_subset ?_ ?_, rfl⟩
    · intro s member
      rcases (Dict.mem_keys_set _ _ _ _).mp member with rfl | before
      · exact mem_live_of_entry (List.mem_of_find?_eq_some found)
      · exact mem_live_of_open before
    · intro other member
      dsimp only at member
      split at member
      · exact (List.mem_filter.mp member).1
      · exact member
  | finish id =>
    cases moved
    refine ⟨live_subset (fun s member => mem_live_of_open member) ?_, rfl⟩
    exact fun other member => (List.mem_filter.mp member).1
  | reduce symbol held =>
    simp only [entryDrift] at moved
    split at moved
    next open_ =>
      cases moved
      refine ⟨live_subset ?_ fun _ member => member, rfl⟩
      intro s member
      rcases (Dict.mem_keys_set _ _ _ _).mp member with rfl | before
      · exact mem_live_of_open ((Dict.get?_isSome_iff _ _).mp open_)
      · exact mem_live_of_open before
    · cases moved
  | close symbol =>
    cases moved
    refine ⟨live_subset ?_ fun _ member => member, rfl⟩
    intro s member
    exact mem_live_of_open ((List.filter_sublist.map Prod.fst).mem member)
  | publish event =>
    cases event with
    | signal signal => cases moved
    | _ =>
      cases moved
      exact ⟨Finset.Subset.refl _, queued_publish_other m (by simp)⟩
  | _ =>
    cases moved
    exact ⟨Finset.Subset.refl _, rfl⟩

/-- Serving a request takes at most the symbol of the order that it hands on. -/
theorem serve_live (x : EntryMarket) (service : EntryService) (q : EntryReq) :
    (x.serve service q).2.live = x.live ∨ ∃ signal price, q = .live (.submit signal price) ∧
      (x.serve service q).2.live = insert signal.symbol x.live := by
  cases q with
  | monitor q =>
    cases q with
    | _ => exact .inl rfl
  | live q =>
    cases q with
    | submit signal price =>
      cases acts : service.acts with
      | false =>
        left
        simp only [EntryMarket.serve, acts, Bool.false_eq_true, if_false]
      | true =>
        refine .inr ⟨signal, price, rfl, ?_⟩
        simp only [EntryMarket.serve, acts, if_true]
        exact live_accept x signal.symbol
    | _ => exact .inl rfl

theorem polling_poll (p : EntryParams) (latestPrice : Symbol → Option ℚ) :
    Polling (p.poll latestPrice) := by
  intro m
  apply Coro.obeys_within
  · exact fun _ _ _ => rfl
  · exact fun _ _ => rfl
  · exact fun _ _ _ => trivial

theorem polling_segment (polls : Polling c) (m : EntryProcess) :
    (c.advance m).2.queued = m.queued ∧ Polls (Phase.of (c.advance m).1) := by
  constructor
  · apply (polls m).advance_guar fun m n => n.queued = m.queued
    · exact fun _ => rfl
    · intro _ _ _ first second
      exact second.trans first
    · exact fun same => same
  · have after := (polls m).advance
    cases stand : (c.advance m).1 with
    | await q next =>
      rw [stand] at after
      exact ⟨after.1, fun r n => after.2 r () n trivial⟩
    | get next => exact absurd stand (Coro.advance_ne_get c m next)
    | put t next => exact absurd stand (Coro.advance_ne_put c m t next)
    | _ => trivial

end Steps

/-! ## Runs -/

section Runs

variable {p : EntryParams} {limit : ℕ}

/-- The dispatcher takes the next event, if there is one. -/
theorem inv_dispatch {d : EntryDesk} {earlier : Except String Unit}
    {log : List (Async.Event entrySig)} (held : Inv p limit d) (idle : (d.world.task .dispatcher).phase = .idle)
    (roomy : p.scannerParams.maxOpenPositions ≤ limit)
    (covered : Covered p d (.start .dispatcher (.dispatch earlier))) :
    Inv p limit
      ⟨d.world.segment .dispatcher (p.dispatch earlier) log, d.world.memory.bus.queue.head?⟩ := by
  have reserved := held.reserved
  rw [idle, coming, List.append_nil] at reserved
  cases queue : d.world.memory.bus.queue with
  | nil =>
    have nothing := advance_dispatch_empty p earlier queue
    constructor
    · rw [World.segment_ne _ _ _ (by simp)]
      exact held.polls
    · rw [World.segment_same, nothing]
      trivial
    · rw [World.segment_same]
      simp only [World.segment, nothing]
      change Reserved limit _ (_ ++ [])
      rw [List.append_nil]
      exact reserved
  | cons event rest =>
    constructor
    · rw [World.segment_ne _ _ _ (by simp)]
      exact held.polls
    · rw [World.segment_same]
      dsimp only
      rw [advance_dispatch p earlier queue]
      exact (handler_segment (handler_caught p earlier event)).1
    · rw [World.segment_same]
      -- an entry passes the gate only while a seat is free
      apply started_reserved queue reserved roomy
      rintro u rfl bar rfl passes
      have sees := covered (.bar bar) (by rw [queue]; rfl)
      exact sees passes

/-- The dispatcher is resumed. -/
theorem inv_resumed {d : EntryDesk} {q : EntryReq} {r : Answer entrySig q}
    {next : Answer entrySig q → Coro EntryProcess entrySig Unit}
    {log : List (Async.Event entrySig)} (held : Inv p limit d)
    (answered : (d.world.task .dispatcher).phase = .answered q r next) :
    Inv p limit ⟨d.world.segment .dispatcher (next r) log, d.hand⟩ := by
  obtain ⟨polls, handles, reserved⟩ := held
  rw [answered] at handles reserved
  obtain ⟨event, hand, awaits, future⟩ := handles
  have obeys := future r d.world.memory
  constructor
  · rw [World.segment_ne _ _ _ (by simp)]
    exact polls
  · rw [World.segment_same, hand]
    exact (handler_segment obeys).1
  · rw [World.segment_same, hand]
    rw [hand] at reserved
    exact reserved.leave (Finset.Subset.refl _) (resumed_claims awaits obeys)

/-- A request of the dispatcher is served. -/
theorem inv_served {d : EntryDesk} {service : EntryService} {q : EntryReq}
    {next : Answer entrySig q → Coro EntryProcess entrySig Unit} (held : Inv p limit d)
    (waiting : (d.world.task .dispatcher).phase = .waiting q next) :
    Inv p limit
      ⟨{ d.world.setTask .dispatcher
          ⟨.answered q (d.world.outside.serve service q).1 next, (d.world.task .dispatcher).log⟩ with
        outside := (d.world.outside.serve service q).2 }, d.hand⟩ := by
  obtain ⟨polls, handles, reserved⟩ := held
  rw [waiting] at handles reserved
  obtain ⟨event, hand, awaits, future⟩ := handles
  constructor
  · dsimp only
    rw [World.setTask_ne _ _ (by simp)]
    exact polls
  · dsimp only
    rw [World.setTask_same]
    exact ⟨event, hand, awaits, future⟩
  · dsimp only
    rw [World.setTask_same]
    -- an order that has been handed on is no longer to come
    have fewer : (d.world.memory.queued ++ coming d.hand (.answered q
        (d.world.outside.serve service q).1 next)).Sublist
          (d.world.memory.queued ++ coming d.hand (.waiting q next)) := by
      apply List.Sublist.append_left
      rw [coming, coming]
      split
      · exact List.nil_sublist _
      · exact List.Sublist.refl _
    rcases serve_live d.world.outside service q with same | ⟨signal, price, rfl, taken⟩
    · rw [same]
      exact reserved.leave (Finset.Subset.refl _) fewer
    · -- the order is the one of the signal in hand, and takes what was promised to it
      rw [taken]
      cases event with
      | signal own =>
        cases awaits signal price rfl
        rw [hand] at reserved ⊢
        change Reserved limit _ (_ ++ [])
        rw [List.append_nil]
        exact Reserved.take reserved
      | bar bar => cases awaits
      | _ => exact awaits.elim

/-- A segment of a poll. -/
theorem inv_polling {d : EntryDesk} {c : Coro EntryProcess entrySig Unit}
    {log : List (Async.Event entrySig)} (held : Inv p limit d)
    (polls : Polls (Phase.of (c.advance d.world.memory).1))
    (same : (c.advance d.world.memory).2.queued = d.world.memory.queued) :
    Inv p limit ⟨d.world.segment .monitor c log, d.hand⟩ := by
  constructor
  · rw [World.segment_same]
    exact polls
  · rw [World.segment_ne _ _ _ (by simp)]
    exact held.handles
  · rw [World.segment_ne _ _ _ (by simp)]
    change Reserved limit _ (EntryProcess.queued (Coro.advance _ _).2 ++ _)
    rw [same]
    exact held.reserved

/-- A poll places nothing that is counted. -/
theorem inv_polled {d : EntryDesk} {service : EntryService} {q : EntryReq}
    {next : Answer entrySig q → Coro EntryProcess entrySig Unit} (held : Inv p limit d)
    (waiting : (d.world.task .monitor).phase = .waiting q next) : Inv p limit
      ⟨{ d.world.setTask .monitor
          ⟨.answered q (d.world.outside.serve service q).1 next, (d.world.task .monitor).log⟩ with
        outside := (d.world.outside.serve service q).2 }, d.hand⟩ := by
  have polls := held.polls
  rw [waiting] at polls
  constructor
  · dsimp only
    rw [World.setTask_same]
    exact polls.2
  · dsimp only
    rw [World.setTask_ne _ _ (by simp)]
    exact held.handles
  · dsimp only
    rw [World.setTask_ne _ _ (by simp)]
    rcases serve_live d.world.outside service q with same | ⟨signal, price, rfl, -⟩
    · rw [same]
      exact held.reserved
    · cases polls.1

theorem inv_step {d e : EntryDesk} {label : EntryLabel} (held : Inv p limit d)
    (roomy : p.scannerParams.maxOpenPositions ≤ limit) (covered : Covered p d label)
    (moved : step p d label = some e) : Inv p limit e := by
  obtain ⟨world, stepped, rfl⟩ := Option.map_eq_some_iff.mp moved
  rcases (entrySystem p).step_cases stepped with ⟨i, command, c, rfl, idle, found, rfl⟩ |
    ⟨i, service, q, next, r, outside, rfl, waiting, served, rfl⟩ |
    ⟨i, q, r, next, rfl, answered, rfl⟩ | ⟨move, memory, outside, rfl, drifted, rfl⟩
  · cases i with
    | dispatcher =>
      cases command with
      | poll latestPrice => cases found
      | dispatch earlier =>
        cases found
        exact inv_dispatch held idle roomy covered
    | monitor =>
      cases command with
      | dispatch earlier => cases found
      | poll latestPrice =>
        cases found
        obtain ⟨same, polls⟩ := polling_segment (polling_poll p latestPrice) d.world.memory
        exact inv_polling held polls same
  · obtain ⟨rfl, rfl⟩ : (d.world.outside.serve service q).1 = r ∧
        (d.world.outside.serve service q).2 = outside := by
      rw [Option.some.inj served]
      exact ⟨rfl, rfl⟩
    cases i with
    | dispatcher => exact inv_served held waiting
    | monitor => exact inv_polled held waiting
  · cases i with
    | dispatcher => exact inv_resumed held answered
    | monitor =>
      have polls := held.polls
      rw [answered] at polls
      obtain ⟨same, polls⟩ := polling_segment (polls r) d.world.memory
      exact inv_polling held polls same
  · obtain ⟨fewer, same⟩ := entryDrift_leaves drifted
    refine ⟨held.polls, held.handles, ?_⟩
    dsimp only
    rw [same]
    exact held.reserved.leave fewer (List.Sublist.refl _)

theorem withinLimit_of_inv {d : EntryDesk} (held : Inv p limit d) : WithinLimit limit d := by
  obtain ⟨-, handles, reserved⟩ := held
  constructor
  · have seats := reserved.seats
    omega
  · intro symbol handed
    rw [handedOn] at handed
    split at handed
    next signal price next waiting =>
      cases handed
      rw [waiting] at handles reserved
      obtain ⟨event, hand, awaits, -⟩ := handles
      rw [hand] at reserved
      cases event with
      | signal own =>
        -- the order on its way is the one of the signal in hand
        cases awaits signal price rfl
        apply reserved.seatless
        exact List.mem_append_right _ (List.mem_singleton.mpr rfl)
      | bar bar => cases awaits
      | _ => exact awaits.elim
    next => cases handed

end Runs

/-- As long as every bar is judged on all that is taken or on its way, the symbols with an open
position or an entry in flight stay within the limit, or within what was open at startup, and no
entry is for a symbol that has one. -/
theorem entries_within_limit (p : EntryParams) (engine : RiskEngine) (clock : Clock)
    (scanner : ScannerState) (positions : Dict Symbol HeldPosition) (labels : List EntryLabel)
    (d : EntryDesk)
    (covered : Machine.Meets (step p) (Covered p) (started engine clock scanner positions) labels)
    (reached : Machine.run (step p) (started engine clock scanner positions) labels = some d) :
    WithinLimit (max p.scannerParams.maxOpenPositions positions.size) d := by
  apply withinLimit_of_inv (p := p)
  apply Machine.run_invariant (Inv p _) _ _ labels d _ covered reached
  · intro d label e held covered moved
    exact inv_step held (le_max_left _ _) covered moved
  · refine ⟨trivial, trivial, List.nodup_nil, fun _ member => absurd member List.not_mem_nil, ?_⟩
    have counted : (EntryMarket.live { positions := positions }).card ≤ positions.size := by
      rw [EntryMarket.live, List.map_nil, List.toFinset_nil, Finset.union_empty]
      apply (List.toFinset_card_le _).trans
      rw [Dict.keys, List.length_map]
      exact le_refl _
    exact counted.trans (le_max_right _ _)

/-! ### A position that the monitor has not seen -/

/-- Two symbols may be held, each with a margin of 0.05 % of the equity. -/
def twoSymbols : EntryParams where
  scannerParams := ⟨2, 1 / 20, 10, 15, by decide⟩
  symbols := ["BTCUSDT", "ETHUSDT"]
  getStepSize _ := 1 / 1000
  leverage := 10
  monitor := .demo

def btcBar : BarEvent := ⟨0, "BTCUSDT", 40000, 50000, 40000, 50000, 1⟩

/-- The price is up by a fifth while the funding rate falls. -/
def btcSetup : UniverseFeed where
  priceChangePct := .ofList [("BTCUSDT", 20)]
  fundingTrend := .ofList [("BTCUSDT", (-2, -1))]
  latestPrice := .ofList [("BTCUSDT", 50000)]

/-- An outside that accepts every order, and raises at a poll or not. -/
def quietly (poll : Except String Unit) : EntryService where
  reply
    | .live q => LiveParams.quiet .empty q
    | .monitor .positionDetails => poll.map fun _ => []
    | .monitor .accountEquity => .ok (1000 : ℚ)
    | .monitor (.placeStopLoss ..) => .ok (none : Option StopId)
    | .monitor (.cancelStopLoss ..) => .ok ()
    | .monitor (.closeEvent ..) => .ok ()
    | .monitor (.submit ..) => .ok ()

/-- The next `n` requests of a task, each answered and delivered at once. -/
def answered (task : EntryTask) (poll : Except String Unit) (n : ℕ) : List EntryLabel :=
  (List.replicate n [.serve task (quietly poll), .resume task]).flatten

/-- A poll, and then a bar with a setup up to the order that comes of it. -/
def entering (poll : Except String Unit) : List EntryLabel :=
  [.drift (.feed btcSetup), .start .monitor (.poll fun _ => none)] ++ answered .monitor poll 1 ++
    [.drift (.publish (.bar btcBar)), .start .dispatcher (.dispatch (.ok ()))] ++
    answered .dispatcher poll 1 ++ [.start .dispatcher (.dispatch (.ok ()))] ++
    answered .dispatcher poll 5

/-- The order is accepted and fills, and a poll confirms the position. -/
def entered : List EntryLabel :=
  entering (.ok ()) ++ answered .dispatcher (.ok ()) 1 ++
    [.drift (.fill 0 ⟨1, 50000, by decide⟩ true), .start .monitor (.poll fun _ => none)] ++
    answered .monitor (.ok ()) 3 ++
    [.drift (.publish (.bar btcBar)), .start .dispatcher (.dispatch (.ok ()))]

def demoStart (positions : Dict Symbol HeldPosition) : EntryDesk :=
  started LiveParams.demoProcess.riskEngine ⟨0, 0⟩ LiveParams.demoProcess.scanner positions

theorem entries_within_limit_entered :
    (Machine.run (step twoSymbols) (demoStart .empty) entered).isSome ∧
      ∀ d, Machine.run (step twoSymbols) (demoStart .empty) entered = some d →
        WithinLimit 2 d :=
  ⟨by decide +kernel, fun d reached =>
    entries_within_limit twoSymbols LiveParams.demoProcess.riskEngine ⟨0, 0⟩
      LiveParams.demoProcess.scanner .empty entered d (by decide +kernel) reached⟩

/-- A long that is open at startup. The first poll fails, and a bar of the same symbol makes it
through the gate. -/
theorem unseen_position_entered :
    ¬ ∀ (p : EntryParams) (engine : RiskEngine) (clock : Clock) (scanner : ScannerState)
      (positions : Dict Symbol HeldPosition) (labels : List EntryLabel) (d : EntryDesk),
      Machine.run (step p) (started engine clock scanner positions) labels = some d →
        WithinLimit (max p.scannerParams.maxOpenPositions positions.size) d := by
  intro claim
  let positions : Dict Symbol HeldPosition := .ofList [("BTCUSDT", fiveLong)]
  have never : ∀ d ∈ Machine.run (step twoSymbols) (demoStart positions)
      (entering (.error "timeout")), WithinLimit 2 d :=
    fun d reached => claim twoSymbols _ _ _ positions _ d reached
  revert never
  decide +kernel

end EntryDesk

end Binbot
