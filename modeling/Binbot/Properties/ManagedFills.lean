import Binbot.Data.CatchUp
import Binbot.Properties.OcaRecords

/-!
# What the records know of the exchange

A fill report carries the order's whole filled quantity, and the order manager's record takes
over each that it gets. So a record is never ahead of its order at the exchange, whatever is
submitted, cancelled and filled meanwhile, and level with it once no report is on its way: a
report that gets lost is made up for by the next one about the same order.
-/
namespace Binbot

open Async Data BinanceFuturesBroker FillPipeline

namespace ManagedFills

/-! ## Reports on their way -/

/-- What an event reports of an order: its filled quantity, and what remains of it. -/
def eventReport (id : OrderId) : BrokerEvent → Option (ℤ × ℤ)
  | .execution fill =>
    if fill.orderId = id then some (fill.cumulativeQuantity, fill.remainingQuantity) else none
  | _ => none

/-- The same of a message, in lots. -/
def messageReport (rules : ExchangeRules) (id : OrderId) : UserStreamMessage → Option (ℤ × ℤ)
  | .orderTradeUpdate o =>
    if o.execType = .trade ∧ o.clientOrderId = id then
      let filt := rules.spec o.symbol
      let cumulative := filt.quantityToLots o.cumulativeFilled
      some (cumulative, max (filt.quantityToLots o.originalQuantity - cumulative) 0)
    else none
  | .other => none

/-- The reports about an order that its record has not seen yet, oldest first. -/
def reports (rules : ExchangeRules) (id : OrderId) (messages : List UserStreamMessage) (d : Desk)
    (x : Exchange) : List (ℤ × ℤ) :=
  d.broker.eventQueue.filterMap (eventReport id) ++
    (messages ++ x.stream).filterMap (messageReport rules id)

/-! ## Writes beside the fills -/

/-- Whatever else has changed of a record, its quantities have not. -/
structure SameFills (r r' : ManagedOrder) : Prop where
  symbol : r'.symbol = r.symbol
  quantity : r'.quantity = r.quantity
  filled : r'.filledQuantity = r.filledQuantity
  remaining : r'.remainingQuantity = r.remainingQuantity

/-- A record that has seen no fill. -/
structure Untouched (r : ManagedOrder) : Prop where
  filled : r.filledQuantity = 0
  remaining : r.remainingQuantity = r.quantity

/-- What the desk does between two fills of the order: it queues no report about it, leaves its
record's quantities as they are, and makes a record of it only under an id just drawn. -/
structure Gentle (n : ℕ) (d d' : Desk) : Prop where
  drawn : d.uuids.drawn ≤ d'.uuids.drawn
  filters : d'.broker.filters = d.broker.filters
  own : OwnIds d.broker → OwnIds d'.broker
  queue : d'.broker.eventQueue.filterMap (eventReport (.hex n)) =
    d.broker.eventQueue.filterMap (eventReport (.hex n))
  known : ∀ r, d.manager.getOrder (.hex n) = some r →
    ∃ r', d'.manager.getOrder (.hex n) = some r' ∧ SameFills r r'
  fresh : d.manager.getOrder (.hex n) = none → ∀ r', d'.manager.getOrder (.hex n) = some r' →
    d.uuids.drawn ≤ n ∧ n < d'.uuids.drawn ∧ Untouched r'

section

variable {n : ℕ} {d d' d'' : Desk} {r r' r'' : ManagedOrder}

theorem SameFills.refl (r : ManagedOrder) : SameFills r r := ⟨rfl, rfl, rfl, rfl⟩

theorem SameFills.trans (first : SameFills r r') (second : SameFills r' r'') : SameFills r r'' :=
  ⟨second.symbol.trans first.symbol, second.quantity.trans first.quantity,
    second.filled.trans first.filled, second.remaining.trans first.remaining⟩

theorem SameFills.untouched (same : SameFills r r') (untouched : Untouched r) : Untouched r' :=
  ⟨same.filled.trans untouched.filled,
    same.remaining.trans (untouched.remaining.trans same.quantity.symm)⟩

theorem Gentle.refl (n : ℕ) (d : Desk) : Gentle n d d where
  drawn := le_rfl
  filters := rfl
  own := id
  queue := rfl
  known r found := ⟨r, found, .refl r⟩
  fresh absent r found := by
    rw [absent] at found
    cases found

theorem Gentle.trans (first : Gentle n d d') (second : Gentle n d' d'') : Gentle n d d'' where
  drawn := first.drawn.trans second.drawn
  filters := second.filters.trans first.filters
  own own := second.own (first.own own)
  queue := second.queue.trans first.queue
  known r found := by
    obtain ⟨r', found', same⟩ := first.known r found
    obtain ⟨r'', found'', same'⟩ := second.known r' found'
    exact ⟨r'', found'', same.trans same'⟩
  fresh absent r'' found := by
    cases between : d'.manager.getOrder (.hex n) with
    | none =>
      obtain ⟨above, below, untouched⟩ := second.fresh between r'' found
      exact ⟨first.drawn.trans above, below, untouched⟩
    | some r' =>
      obtain ⟨above, below, untouched⟩ := first.fresh absent r' between
      obtain ⟨same, found', fills⟩ := second.known r' between
      cases found.symm.trans found'
      exact ⟨above, below.trans_le second.drawn, fills.untouched untouched⟩

/-- A write that leaves the records and the adapter alone. -/
theorem Gentle.elsewhere (drawn : d.uuids.drawn ≤ d'.uuids.drawn) (manager : d'.manager = d.manager)
    (broker : d'.broker = d.broker) : Gentle n d d' where
  drawn := drawn
  filters := by rw [broker]
  own := by rw [broker]; exact id
  queue := by rw [broker]
  known r found := ⟨r, by rw [manager, found], .refl r⟩
  fresh absent r found := by
    rw [manager, absent] at found
    cases found

/-- A write of the adapter that queues no report about the order. -/
theorem Gentle.adapter {broker : BrokerState} (filters : broker.filters = d.broker.filters)
    (own : OwnIds d.broker → OwnIds broker)
    (queue : broker.eventQueue.filterMap (eventReport (.hex n)) =
      d.broker.eventQueue.filterMap (eventReport (.hex n))) :
    Gentle n d { d with broker := broker } where
  drawn := le_rfl
  filters := filters
  own := own
  queue := queue
  known r found := ⟨r, found, .refl r⟩
  fresh absent r found := by
    have known : d.manager.getOrder (.hex n) = some r := found
    rw [absent] at known
    cases known

/-- An event that is no fill. -/
theorem Gentle.put (d : Desk) {event : BrokerEvent} (silent : eventReport (.hex n) event = none) :
    Gentle n d { d with broker := d.broker.put event } := by
  have queue : (d.broker.put event).eventQueue.filterMap (eventReport (.hex n)) =
      d.broker.eventQueue.filterMap (eventReport (.hex n)) := by simp [BrokerState.put, silent]
  exact .adapter rfl id queue

theorem Gentle.register (d : Desk) (request : BrokerOrderRequest) :
    Gentle n d { d with broker := d.broker.register request } := by
  have queue : (d.broker.register request).eventQueue = d.broker.eventQueue := by
    rw [BrokerState.register]
    split
    · rfl
    · split
      · rfl
      · rfl
  have own : OwnIds d.broker → OwnIds (d.broker.register request) :=
    fun own => TrackedBook.register_own own request
  exact .adapter (BrokerState.register_filters _ _) own (by rw [queue])

/-- A cancel marks the record. -/
theorem Gentle.marked {id : OrderId} {order : ManagedOrder} (d : Desk)
    (found : d.manager.orders.get? id = some order) :
    Gentle n d { d with manager := { d.manager with
      orders := d.manager.orders.set id { order with status := .cancelPending } } } where
  drawn := le_rfl
  filters := rfl
  own := fun own => own
  queue := rfl
  known r known := by
    by_cases here : OrderId.hex n = id
    · subst here
      cases known.symm.trans found
      exact ⟨_, Dict.get?_set_self _ _ _, ⟨rfl, rfl, rfl, rfl⟩⟩
    · exact ⟨r, (Dict.get?_set_ne _ _ here).trans known, .refl r⟩
  fresh absent r known := by
    have other : OrderId.hex n ≠ id := by
      rintro rfl
      cases absent.symm.trans found
    have same : d.manager.getOrder (.hex n) = some r :=
      (Dict.get?_set_ne _ _ other).symm.trans known
    rw [absent] at same
    cases same

end

/-! ## What the tasks do -/

section Tasks

variable (p : DeskParams) (rules : ExchangeRules) (n : ℕ)

/-- The filters are the exchange's, orders go by their own ids, and a recorded id was drawn. -/
structure Sound (d : Desk) : Prop where
  loaded : ∀ symbol filt, d.broker.filters.get? symbol = some filt → filt = rules.spec symbol
  own : OwnIds d.broker
  early : d.manager.getOrder (.hex n) ≠ none → n < d.uuids.drawn

/-- The exchange is asked for the order of a record that has seen no fill. -/
structure Asked (d : Desk) (params : OrderParams) (r : ManagedOrder) : Prop where
  recorded : d.manager.getOrder (.hex n) = some r
  untouched : Untouched r
  symbol : params.symbol = r.symbol
  lots : Exchange.wireLots rules params.symbol params.order = some r.quantity
  loaded : params.symbol ∈ d.broker.filters.keys

/-- The order is sent in the segment that has drawn its id. The outside of a task is the memory
that it last went on from. -/
def fillContract : Contract Desk Desk wireSig where
  issue q since d := Gentle n since d ∧ q ≠ .streamRecv ∧
    ∀ params, q = .createOrder params → params.newClientOrderId = .hex n →
      since.uuids.drawn ≤ n ∧ n < d.uuids.drawn ∧ ∃ r, Asked rules n d params r
  rely _ _ _ _ since' d' := since' = d' ∧ Sound rules n d'
  guar _ _ := True

def Since (since d : Desk) : Prop := Sound rules n since ∧ Gentle n since d

abbrev Gently {α : Type} (c : Coro Desk wireSig α) : Prop :=
  c.Keeps (fillContract rules n) (Since rules n)

variable {rules n} {α : Type} {since d d' : Desk}

theorem Sound.gentle (sound : Sound rules n d) (gentle : Gentle n d d') : Sound rules n d' where
  loaded := by
    rw [gentle.filters]
    exact sound.loaded
  own := gentle.own sound.own
  early := by
    intro known
    cases before : d.manager.getOrder (.hex n) with
    | none =>
      obtain ⟨r, found⟩ := Option.ne_none_iff_exists'.mp known
      exact (gentle.fresh before r found).2.1
    | some r => exact (sound.early (by simp [before])).trans_le gentle.drawn

theorem Since.gentle (held : Since rules n since d) (gentle : Gentle n d d') :
    Since rules n since d' := ⟨held.1, held.2.trans gentle⟩

theorem gently_request {q : WireReq} (other : q ≠ .streamRecv)
    (unplaced : ∀ params, q = .createOrder params → params.newClientOrderId ≠ .hex n) :
    Gently rules n (Coro.request (S := wireSig) q : Coro Desk wireSig (wireSig.Reply q)) := by
  apply Coro.keeps_request
  · exact fun since d held =>
      ⟨held.2, other, fun params same named => absurd named (unplaced params same)⟩
  · rintro r since d since' d' - ⟨rfl, sound⟩
    exact ⟨sound, .refl n since'⟩

theorem gently_update {τ : Type} [Part Desk τ] {f : τ → τ}
    (gentle : ∀ d : Desk, Gentle n d (Part.set d (f (Part.view d)))) :
    Gently rules n (Coro.update f : Coro Desk wireSig Unit) :=
  Coro.keeps_update fun _ d held => ⟨trivial, held.gentle (gentle d)⟩

/-- The lots of a request, on the wire. -/
theorem wireLots_wireOrder {request : BrokerOrderRequest} {order : WireOrder}
    (wired : wireOrder request (rules.spec request.symbol) = .ok order) :
    Exchange.wireLots rules request.symbol order = some request.quantity := by
  have sent : (rules.spec request.symbol).quantityToLots
      ((rules.spec request.symbol).lotsToQuantity request.quantity) = request.quantity := by
    rw [(rules.regular request.symbol).lotsToQuantity_eq,
      (rules.regular request.symbol).quantityToLots_lots]
  rw [wireOrder] at wired
  cases type : request.orderType with
  | limit =>
    rw [type] at wired
    cases price : request.limitPrice with
    | none =>
      rw [price] at wired
      cases wired
    | some price' =>
      rw [price] at wired
      cases wired
      simp [Exchange.wireLots, sent]
  | _ =>
    rw [type] at wired
    cases wired
    simp [Exchange.wireLots, sent]

/-- An order is sent for the record that was made under its id. -/
theorem gently_placeOrder {k : ℕ} {signal : SignalEvent} {expectedPrice : Option ℚ}
    (held : Since rules n since d)
    (own : k = n → since.uuids.drawn ≤ n ∧ n < d.uuids.drawn ∧
      d.manager.getOrder (.hex n) = some (.ofSignal (.hex n) signal expectedPrice)) :
    (p.broker.placeOrder (ManagedOrder.ofSignal (.hex k) signal expectedPrice).request).Obeys
      (fillContract rules n) (fun _ => Since rules n) since d := by
  simp only [placeOrder, Coro.obeys_bind, Coro.obeys_view]
  split
  · exact held
  next filt found =>
    have loaded : signal.symbol ∈ d.broker.filters.keys := Dict.mem_keys_of_get? found
    have same : filt = rules.spec signal.symbol := (held.1.gentle held.2).loaded _ _ found
    split
    · exact ⟨trivial, held.gentle (.put d rfl)⟩
    · rw [Coro.obeys_bind, Coro.obeys_update]
      refine ⟨trivial, ?_⟩
      dsimp only
      have after := held.gentle (.register d (ManagedOrder.ofSignal (.hex k) signal
        expectedPrice).request)
      split
      · exact after
      next order wired =>
        simp only [Coro.obeys_tryCatch, Coro.obeys_bind, p.broker_createOrder, Coro.obeys_request]
        refine ⟨⟨after.2, by simp, ?_⟩, ?_⟩
        · rintro params sent named
          cases sent
          cases named
          obtain ⟨above, below, recorded⟩ := own rfl
          rw [same] at wired
          refine ⟨above, below, _, recorded, ⟨rfl, rfl⟩, rfl, wireLots_wireOrder wired, ?_⟩
          change signal.symbol ∈ (d.broker.register _).filters.keys
          rw [BrokerState.register_filters]
          exact loaded
        · -- refused or not, the record stays, and a reject is no fill
          rintro r since' d' ⟨rfl, sound⟩
          have again : Since rules n since' since' := ⟨sound, .refl n since'⟩
          cases r with
          | ok stop => exact again
          | error e => exact ⟨trivial, again.gentle (.put since' rfl)⟩

theorem gently_submit (signal : SignalEvent) (expectedPrice : Option ℚ) :
    Gently rules n (p.orderManager.submit signal expectedPrice) := by
  intro since d held
  have sound := held.1.gentle held.2
  -- the id was drawn just now, so that it has no record yet
  have noted : Since rules n since
      { d with
        uuids := { d.uuids with drawn := d.uuids.drawn + 1 }
        manager := d.manager.noting (.hex d.uuids.drawn) signal expectedPrice } := by
    apply held.gentle
    refine ⟨Nat.le_succ _, rfl, fun own => own, rfl, fun r found => ?_, fun absent r found => ?_⟩
    · have before : n < d.uuids.drawn := sound.early (by simp [found])
      have other : OrderId.hex n ≠ .hex d.uuids.drawn := by
        rw [ne_eq, OrderId.hex.injEq]
        exact before.ne
      refine ⟨r, ?_, .refl r⟩
      rw [ManagerState.noting_getOrder, if_neg other, found]
    · rw [ManagerState.noting_getOrder] at found
      split at found
      next here =>
        cases here
        cases found
        exact ⟨le_rfl, Nat.lt_succ_self _, rfl, rfl⟩
      next =>
        rw [absent] at found
        cases found
  rw [OrderLifecycleManager.submit, OrderLifecycleManager.uuid4]
  simp only [Coro.obeys_bind, Coro.obeys_view, Coro.obeys_update, Coro.obeys_pure]
  refine ⟨trivial, trivial, ?_⟩
  refine (gently_placeOrder p noted ?_).mono ?_
  · rintro rfl
    have found : (d.manager.noting (.hex d.uuids.drawn) signal expectedPrice).getOrder
        (.hex d.uuids.drawn) = some (.ofSignal (.hex d.uuids.drawn) signal expectedPrice) :=
      (ManagerState.noting_getOrder _ _ signal expectedPrice).trans (if_pos rfl)
    exact ⟨held.2.drawn, Nat.lt_succ_self _, found⟩
  · intro r since' d' held'
    cases r with
    | ok _ => exact held'
    | error _ => exact held'

theorem gently_uuid4 : Gently rules n (OrderLifecycleManager.uuid4 : Coro Desk wireSig OrderId) :=
  Coro.keeps_view.bind fun _ =>
    (gently_update fun _ => .elsewhere (Nat.le_succ _) rfl rfl).bind fun _ => Coro.keeps_pure _

/-- What a caller does. -/
theorem gently_rules : CallerRules p (fillContract rules n) (Since rules n) where
  calls _ other unplaced := gently_request other fun params same => absurd same (unplaced params)
  stops params price symbol ms _ named := by
    -- a native stop goes under an id of its own
    apply gently_request
    · simp
    · rintro params same
      cases same
      rw [named]
      simp
  draws := gently_uuid4
  submits := gently_submit p
  marks id order since d held known := ⟨trivial, held.gentle (.marked d known)⟩

/-- The bridge writes neither the records nor the adapter. -/
theorem gently_bridge : BridgeRules (fillContract rules n) (Since rules n) where
  calls _ other unplaced := gently_request other fun params same => absurd same (unplaced params)
  tracks _ := gently_update fun _ => .elsewhere le_rfl rfl rfl
  explains _ := gently_update fun _ => .elsewhere le_rfl rfl rfl
  takes _ := gently_update fun _ => .elsewhere le_rfl rfl rfl

/-- What the stream loop does once it has queued a message. -/
theorem gently_handleOcaFill (id : OrderId) : Gently rules n (p.broker.handleOcaFill id) := by
  refine Coro.keeps_view.bind fun m => ?_
  split
  · exact Coro.keeps_pure ()
  · split
    · exact Coro.keeps_pure ()
    · refine (Coro.keeps_forEach (gently_rules p).cancelOrder _).bind fun _ => ?_
      exact gently_update fun d => .adapter rfl (fun own => own) rfl

end Tasks

/-! ## A record and its order -/

section Book

variable (rules : ExchangeRules) (n : ℕ)

/-- What the exchange has under the id: quantity, symbol and filled quantity. -/
def placed (x : Exchange) : List (ℤ × Symbol × ℤ) :=
  (x.orders.filter (·.id = .hex n)).map fun o => (o.quantity, o.symbol, o.filled)

/-- The exchange has not heard of the order, and nothing about it is on its way. -/
structure Unheard (messages : List UserStreamMessage) (d : Desk) (x : Exchange) : Prop where
  orders : placed n x = []
  stops : ∀ stop ∈ x.stops, stop.clientId ≠ .hex n
  silent : reports rules (.hex n) messages d x = []

/-- The exchange has filled so many lots of the record's order, and the record catches up. -/
structure Heard (messages : List UserStreamMessage) (d : Desk) (x : Exchange) (r : ManagedOrder)
    (lots : ℤ) : Prop where
  orders : placed n x = [(r.quantity, r.symbol, lots)]
  stops : ∀ stop ∈ x.stops, stop.clientId ≠ .hex n
  loaded : r.symbol ∈ d.broker.filters.keys
  streamed : ∀ o, .orderTradeUpdate o ∈ messages ++ x.stream →
    messageReport rules (.hex n) (.orderTradeUpdate o) ≠ none → o.symbol = r.symbol
  remaining : r.remainingQuantity = r.quantity - r.filledQuantity
  whole : ∀ report ∈ reports rules (.hex n) messages d x, report.2 = r.quantity - report.1
  catchesUp : CatchesUp r.filledQuantity
    ((reports rules (.hex n) messages d x).map Prod.fst) lots

/-- The record has seen no fill of an order that is not at the exchange yet, or it catches up. -/
def Told (messages : List UserStreamMessage) (d : Desk) (x : Exchange) (r : ManagedOrder) : Prop :=
  Unheard rules n messages d x ∧ Untouched r ∨ ∃ lots, Heard rules n messages d x r lots

/-- The order is recorded, or its id may still be drawn. -/
def Relevant (d : Desk) : Prop := d.manager.getOrder (.hex n) ≠ none ∨ d.uuids.drawn ≤ n

/-- What happens at the desk while the exchange stands still, up to the fills that the record
takes over. -/
structure Carries (x : Exchange) (messages : List UserStreamMessage) (d : Desk)
    (messages' : List UserStreamMessage) (d' : Desk) : Prop where
  drawn : d.uuids.drawn ≤ d'.uuids.drawn
  filters : ∀ s ∈ d.broker.filters.keys, s ∈ d'.broker.filters.keys
  known : ∀ r, d.manager.getOrder (.hex n) = some r →
    ∃ r', d'.manager.getOrder (.hex n) = some r' ∧ SameFills r r'
  fresh : d.manager.getOrder (.hex n) = none → ∀ r', d'.manager.getOrder (.hex n) = some r' →
    d.uuids.drawn ≤ n ∧ n < d'.uuids.drawn ∧ Untouched r'
  kept : ∀ message ∈ messages', message ∈ messages
  same : Relevant n d → reports rules (.hex n) messages' d' x = reports rules (.hex n) messages d x

/-- What happens at the exchange to another order. -/
structure Still (messages : List UserStreamMessage) (x : Exchange)
    (messages' : List UserStreamMessage) (y : Exchange) : Prop where
  orders : placed n y = placed n x
  stops : ∀ stop ∈ y.stops, stop.clientId = .hex n → stop ∈ x.stops
  kept : ∀ message ∈ messages' ++ y.stream, messageReport rules (.hex n) message ≠ none →
    message ∈ messages ++ x.stream
  same : (messages' ++ y.stream).filterMap (messageReport rules (.hex n)) =
    (messages ++ x.stream).filterMap (messageReport rules (.hex n))

variable {rules n} {messages messages' messages'' : List UserStreamMessage} {d d' d'' : Desk}
  {x y : Exchange} {r r' : ManagedOrder} {lots : ℤ}

theorem Gentle.carries (gentle : Gentle n d d') : Carries rules n x messages d messages d' where
  drawn := gentle.drawn
  filters := by
    rw [gentle.filters]
    exact fun s member => member
  known := gentle.known
  fresh := gentle.fresh
  kept _ member := member
  same _ := by rw [reports, reports, gentle.queue]

theorem Carries.gentle (first : Carries rules n x messages d messages' d')
    (gentle : Gentle n d' d'') : Carries rules n x messages d messages' d'' where
  drawn := first.drawn.trans gentle.drawn
  filters s member := by
    rw [gentle.filters]
    exact first.filters s member
  known r found := by
    obtain ⟨r', found', same⟩ := first.known r found
    obtain ⟨r'', found'', same'⟩ := gentle.known r' found'
    exact ⟨r'', found'', same.trans same'⟩
  fresh absent r'' found := by
    cases between : d'.manager.getOrder (.hex n) with
    | none =>
      obtain ⟨above, below, untouched⟩ := gentle.fresh between r'' found
      exact ⟨first.drawn.trans above, below, untouched⟩
    | some r' =>
      obtain ⟨above, below, untouched⟩ := first.fresh absent r' between
      obtain ⟨same, found', fills⟩ := gentle.known r' between
      cases found.symm.trans found'
      exact ⟨above, below.trans_le gentle.drawn, fills.untouched untouched⟩
  kept := first.kept
  same relevant := by
    rw [← first.same relevant, reports, reports, gentle.queue]

theorem Unheard.carried (unheard : Unheard rules n messages d x)
    (carries : Carries rules n x messages d messages' d') (relevant : Relevant n d) :
    Unheard rules n messages' d' x :=
  ⟨unheard.orders, unheard.stops, (carries.same relevant).trans unheard.silent⟩

theorem Told.carried (told : Told rules n messages d x r)
    (carries : Carries rules n x messages d messages' d') (relevant : Relevant n d)
    (fills : SameFills r r') : Told rules n messages' d' x r' := by
  cases told with
  | inl before => exact .inl ⟨before.1.carried carries relevant, fills.untouched before.2⟩
  | inr heard =>
    obtain ⟨lots, heard⟩ := heard
    refine .inr ⟨lots, ?_, heard.stops, ?_, ?_, ?_, ?_, ?_⟩
    · rw [fills.quantity, fills.symbol]
      exact heard.orders
    · rw [fills.symbol]
      exact carries.filters _ heard.loaded
    · intro o member about
      rw [fills.symbol]
      apply heard.streamed o _ about
      rcases List.mem_append.mp member with old | there
      · exact List.mem_append_left _ (carries.kept _ old)
      · exact List.mem_append_right _ there
    · rw [fills.remaining, fills.quantity, fills.filled]
      exact heard.remaining
    · rw [carries.same relevant, fills.quantity]
      exact heard.whole
    · rw [carries.same relevant, fills.filled]
      exact heard.catchesUp

theorem Still.refl (x : Exchange) : Still rules n messages x messages x :=
  ⟨rfl, fun _ member _ => member, fun _ member _ => member, rfl⟩

theorem Still.reports (still : Still rules n messages x messages' y) (d : Desk) :
    ManagedFills.reports rules (.hex n) messages' d y =
      ManagedFills.reports rules (.hex n) messages d x := by
  rw [ManagedFills.reports, ManagedFills.reports, still.same]

theorem Unheard.still (unheard : Unheard rules n messages d x)
    (still : Still rules n messages x messages' y) : Unheard rules n messages' d y where
  orders := still.orders.trans unheard.orders
  stops stop member named := unheard.stops stop (still.stops stop member named) named
  silent := (still.reports d).trans unheard.silent

theorem Told.still (told : Told rules n messages d x r)
    (still : Still rules n messages x messages' y) : Told rules n messages' d y r := by
  cases told with
  | inl before => exact .inl ⟨before.1.still still, before.2⟩
  | inr heard =>
    obtain ⟨lots, heard⟩ := heard
    refine .inr ⟨lots, still.orders.trans heard.orders, ?_, heard.loaded, ?_, heard.remaining,
      ?_, ?_⟩
    · exact fun stop member named => heard.stops stop (still.stops stop member named) named
    · exact fun o member about => heard.streamed o (still.kept _ member about) about
    · rw [still.reports]
      exact heard.whole
    · rw [still.reports]
      exact heard.catchesUp

/-- The exchange takes the order of an untouched record. -/
theorem Unheard.accepted (unheard : Unheard rules n messages d x) (untouched : Untouched r)
    (orders : placed n y = [(r.quantity, r.symbol, 0)]) (stops : y.stops = x.stops)
    (stream : (messages ++ y.stream).filterMap (messageReport rules (.hex n)) =
      (messages ++ x.stream).filterMap (messageReport rules (.hex n)))
    (loaded : r.symbol ∈ d.broker.filters.keys) : Heard rules n messages d y r 0 := by
  have silent : reports rules (.hex n) messages d y = [] := by
    rw [reports, stream]
    exact unheard.silent
  refine ⟨orders, ?_, loaded, ?_, ?_, ?_, ?_⟩
  · rw [stops]
    exact unheard.stops
  · intro o member about
    -- a report about the order would be on its way
    obtain ⟨report, found⟩ := Option.ne_none_iff_exists'.mp about
    have mine : report ∈ (messages ++ y.stream).filterMap (messageReport rules (.hex n)) :=
      List.mem_filterMap.mpr ⟨_, member, found⟩
    rw [(List.append_eq_nil_iff.mp silent).2] at mine
    cases mine
  · rw [untouched.remaining, untouched.filled, sub_zero]
  · simp [silent]
  · rw [silent, untouched.filled]
    exact .level 0

/-- More of the order fills, and the report sets out. -/
theorem Heard.grown {more : ℤ} {message : UserStreamMessage}
    (heard : Heard rules n messages d x r lots) (positive : 0 ≤ more)
    (orders : placed n y = [(r.quantity, r.symbol, lots + more)]) (stops : y.stops = x.stops)
    (stream : y.stream = x.stream ++ [message])
    (about : messageReport rules (.hex n) message =
      some (lots + more, r.quantity - (lots + more)))
    (symbol : ∀ o, message = .orderTradeUpdate o → o.symbol = r.symbol) :
    Heard rules n messages d y r (lots + more) := by
  have reported : reports rules (.hex n) messages d y =
      reports rules (.hex n) messages d x ++ [(lots + more, r.quantity - (lots + more))] := by
    simp [reports, stream, about]
  refine ⟨orders, ?_, heard.loaded, ?_, heard.remaining, ?_, ?_⟩
  · rw [stops]
    exact heard.stops
  · intro o member mine
    rw [stream, ← List.append_assoc] at member
    rcases List.mem_append.mp member with old | new
    · exact heard.streamed o old mine
    · exact symbol o (List.mem_singleton.mp new).symm
  · intro report member
    rw [reported] at member
    rcases List.mem_append.mp member with old | new
    · exact heard.whole report old
    · rw [List.mem_singleton.mp new]
  · rw [reported, List.map_append, List.map_singleton]
    exact heard.catchesUp.reported (by omega)

/-- The first message about the order that is on its way gets lost, and a later one is not. -/
theorem Heard.dropped {lost : UserStreamMessage} (heard : Heard rules n [] d x r lots)
    (stream : x.stream = lost :: y.stream) (orders : y.orders = x.orders)
    (stops : y.stops = x.stops)
    (more : messageReport rules (.hex n) lost ≠ none →
      y.stream.filterMap (messageReport rules (.hex n)) ≠ []) : Heard rules n [] d y r lots := by
  have fewer : ∀ {report}, report ∈ reports rules (.hex n) [] d y →
      report ∈ reports rules (.hex n) [] d x := by
    intro report member
    rcases List.mem_append.mp member with queued | sent
    · exact List.mem_append_left _ queued
    · obtain ⟨message, there, found⟩ := List.mem_filterMap.mp sent
      refine List.mem_append_right _ (List.mem_filterMap.mpr ⟨message, ?_, found⟩)
      rw [stream]
      exact List.mem_cons_of_mem _ there
  refine ⟨?_, ?_, heard.loaded, ?_, heard.remaining, ?_, ?_⟩
  · rw [placed, orders]
    exact heard.orders
  · rw [stops]
    exact heard.stops
  · intro o member about
    apply heard.streamed o _ about
    rw [stream]
    exact List.mem_cons_of_mem _ member
  · exact fun report member => heard.whole report (fewer member)
  · have catchesUp := heard.catchesUp
    rw [reports, stream] at catchesUp
    cases found : messageReport rules (.hex n) lost with
    | none => simpa [reports, found] using catchesUp
    | some report =>
      -- the later report makes up for the lost one
      have later := more (by simp [found])
      have split : CatchesUp r.filledQuantity
          ((d.broker.eventQueue.filterMap (eventReport (.hex n))).map Prod.fst ++
            report.1 :: (y.stream.filterMap (messageReport rules (.hex n))).map Prod.fst) lots := by
        simpa [found] using catchesUp
      simpa [reports] using split.dropped (by simpa using later)

end Book

end ManagedFills

end Binbot
