import Binbot.Execution.ManagerCalls
import Binbot.Properties.TrackedBook
import Binbot.Scripts.OcaDesk
import Binbot.Scripts.TaskRules

/-!
# The records behind a group

An order is recorded with its group before the adapter hears of it, and registered in the
group before it is sent. No task but the stream loop takes an order out of a group again.
-/
namespace Binbot

open Async Data BinanceFuturesBroker FillPipeline

namespace OcaDesk

/-- Not one of the ids that have been drawn since. -/
def Early (base : ℕ) (id : OrderId) : Prop := ∀ n, id = .hex n → n < base

/-- The records of a process that draws its ids from `base` on. -/
structure Records (base : ℕ) (d : Desk) : Prop where
  since : base ≤ d.uuids.drawn
  drawn : ∀ id, d.manager.getOrder id ≠ none → ∃ n, base ≤ n ∧ n < d.uuids.drawn ∧ id = .hex n
  own : OwnIds d.broker
  grouped : ∀ id g, d.broker.orderToOcaGroup.get? id = some g →
    d.manager.groupOf id = some g ∧ d.broker.orderSymbol.get? id ≠ none
  members : ∀ g, ∀ id ∈ d.broker.ocaGroups.getD g [], d.broker.orderToOcaGroup.get? id = some g

/-- Nothing that is known of an order gets lost. -/
structure Grows (d d' : Desk) : Prop where
  records : ∀ id, d.manager.getOrder id ≠ none →
    d'.manager.getOrder id ≠ none ∧ d'.manager.groupOf id = d.manager.groupOf id
  filters : ∀ s ∈ d.broker.filters.keys, s ∈ d'.broker.filters.keys
  groups : ∀ id g, d.broker.orderToOcaGroup.get? id = some g →
    d'.broker.orderToOcaGroup.get? id = some g

/-- The members of a group stay, and whoever is new in it becomes one. -/
def Joins (d d' : Desk) : Prop := ∀ id g,
  (d.broker.orderToOcaGroup.get? id = some g → id ∈ d.broker.ocaGroups.getD g []) →
    d'.broker.orderToOcaGroup.get? id = some g → id ∈ d'.broker.ocaGroups.getD g []

/-- What every task but the stream loop writes. -/
def Orderly (base : ℕ) (d d' : Desk) : Prop :=
  Records base d → Records base d' ∧ Grows d d' ∧ Joins d d'

/-- The order is recorded and registered, and its symbol's filters are loaded. -/
structure Entered (d : Desk) (id : OrderId) (symbol : Symbol) : Prop where
  recorded : d.manager.getOrder id ≠ none
  loaded : symbol ∈ d.broker.filters.keys
  registered : ∀ g, d.manager.groupOf id = some g → d.broker.orderToOcaGroup.get? id = some g

section

variable {base : ℕ} {d d' d'' : Desk}

theorem groupOf_recorded {m : ManagerState} {id : OrderId} {g : String}
    (grouped : m.groupOf id = some g) : m.getOrder id ≠ none := by
  intro absent
  rw [ManagerState.groupOf, absent] at grouped
  cases grouped

theorem Grows.refl (d : Desk) : Grows d d :=
  ⟨fun _ known => ⟨known, rfl⟩, fun _ member => member, fun _ _ found => found⟩

theorem Grows.trans (first : Grows d d') (second : Grows d' d'') : Grows d d'' := by
  constructor
  · intro id known
    obtain ⟨there, same⟩ := first.records id known
    obtain ⟨still, again⟩ := second.records id there
    exact ⟨still, again.trans same⟩
  · exact fun s member => second.filters s (first.filters s member)
  · exact fun id g found => second.groups id g (first.groups id g found)

theorem Orderly.refl (d : Desk) : Orderly base d d :=
  fun held => ⟨held, .refl d, fun _ _ joined => joined⟩

theorem Orderly.trans (first : Orderly base d d') (second : Orderly base d' d'') :
    Orderly base d d'' := by
  intro held
  obtain ⟨held', grows, joins⟩ := first held
  obtain ⟨held'', grows', joins'⟩ := second held'
  exact ⟨held'', grows.trans grows', fun id g joined => joins' id g (joins id g joined)⟩

theorem Entered.grows {id : OrderId} {symbol : Symbol} (entered : Entered d id symbol)
    (grows : Grows d d') : Entered d' id symbol := by
  obtain ⟨known, same⟩ := grows.records id entered.recorded
  refine ⟨known, grows.filters symbol entered.loaded, fun g grouped => ?_⟩
  rw [same] at grouped
  exact grows.groups id g (entered.registered g grouped)

/-- A recorded order is none of an earlier process. -/
theorem Records.not_early (held : Records base d) {id : OrderId}
    (known : d.manager.getOrder id ≠ none) : ¬ Early base id := by
  obtain ⟨n, since, -, rfl⟩ := held.drawn id known
  intro early
  exact absurd (early n rfl) (Nat.not_lt.mpr since)

/-- Writes that change no group and no set of records. -/
theorem Orderly.kept (drawn : d.uuids.drawn ≤ d'.uuids.drawn)
    (recorded : ∀ id, d'.manager.getOrder id ≠ none ↔ d.manager.getOrder id ≠ none)
    (groupOf : ∀ id, d'.manager.groupOf id = d.manager.groupOf id)
    (broker : ∃ queue, d'.broker = { d.broker with eventQueue := queue }) : Orderly base d d' := by
  intro held
  obtain ⟨queue, broker⟩ := broker
  refine ⟨?_, ?_, ?_⟩
  · constructor
    · exact held.since.trans drawn
    · intro id known
      obtain ⟨n, since, before, same⟩ := held.drawn id ((recorded id).mp known)
      exact ⟨n, since, before.trans_le drawn, same⟩
    · rw [broker]
      exact held.own
    · rw [broker]
      intro id g found
      rw [groupOf]
      exact held.grouped id g found
    · rw [broker]
      exact held.members
  · constructor
    · exact fun id known => ⟨(recorded id).mpr known, groupOf id⟩
    · rw [broker]
      exact fun _ member => member
    · rw [broker]
      exact fun _ _ found => found
  · rw [Joins, broker]
    exact fun _ _ joined => joined

/-- Writes to other parts of the memory. -/
theorem Orderly.elsewhere (drawn : d.uuids.drawn ≤ d'.uuids.drawn)
    (manager : d'.manager = d.manager) (broker : d'.broker = d.broker) : Orderly base d d' := by
  apply Orderly.kept drawn
  · rw [manager]
    exact fun _ => Iff.rfl
  · rw [manager]
    exact fun _ => rfl
  · exact ⟨d.broker.eventQueue, broker⟩

/-- The adapter puts an event into its queue. -/
theorem Orderly.put (d : Desk) (event : BrokerEvent) :
    Orderly base d { d with broker := d.broker.put event } :=
  .kept le_rfl (fun _ => Iff.rfl) (fun _ => rfl) ⟨_, rfl⟩

theorem orderly_cancelling (d : Desk) (id : OrderId) :
    Orderly base d { d with manager := d.manager.cancelling id } := by
  refine Orderly.kept le_rfl (fun other => ?_) (fun other => ?_) ⟨d.broker.eventQueue, by rfl⟩
  · exact ManagerState.cancelling_known id other
  · dsimp only [ManagerState.groupOf]
    rw [ManagerState.cancelling_getOrder]
    split
    · rw [Option.bind_map]
      rfl
    · rfl

theorem orderly_handleEvent (d : Desk) (event : BrokerEvent) :
    Orderly base d { d with manager := (d.manager.handleEvent event).1 } := by
  refine Orderly.kept le_rfl (fun id => ?_) (fun id => ?_) ⟨d.broker.eventQueue, by rfl⟩
  · dsimp only
    rw [ManagerState.handleEvent_getOrder]
    split
    · rw [ne_eq, Option.map_eq_none_iff]
    · exact Iff.rfl
  · dsimp only [ManagerState.groupOf]
    rw [ManagerState.handleEvent_getOrder]
    split
    · rw [Option.bind_map]
      cases event with
      | ack event => rfl
      | reject event => rfl
      | execution event => rfl
    · rfl

/-- The manager notes an order under an id that has just been drawn. -/
theorem orderly_noting {n : ℕ} (since : base ≤ n) (before : n < d.uuids.drawn)
    (fresh : d.manager.getOrder (.hex n) = none) (signal : SignalEvent)
    (expectedPrice : Option ℚ) :
    Orderly base d { d with manager := d.manager.noting (.hex n) signal expectedPrice } := by
  intro held
  -- the id is new, so that every record that there was is another's
  have other : ∀ id, d.manager.getOrder id ≠ none → id ≠ .hex n := by
    rintro id known rfl
    exact known fresh
  have kept : ∀ id, d.manager.getOrder id ≠ none →
      (d.manager.noting (.hex n) signal expectedPrice).getOrder id = d.manager.getOrder id := by
    intro id known
    rw [ManagerState.noting_getOrder, if_neg (other id known)]
  refine ⟨⟨held.since, ?_, held.own, ?_, held.members⟩, ⟨?_, ?_, ?_⟩, fun _ _ joined => joined⟩
  · intro id known
    dsimp only at known
    rw [ManagerState.noting_getOrder] at known
    split at known
    next here => exact ⟨n, since, before, here⟩
    next => exact held.drawn id known
  · intro id g found
    obtain ⟨grouped, symbol⟩ := held.grouped id g found
    refine ⟨?_, symbol⟩
    rw [ManagerState.groupOf, kept id (groupOf_recorded grouped)]
    exact grouped
  · intro id known
    dsimp only [ManagerState.groupOf]
    rw [kept id known]
    exact ⟨known, rfl⟩
  · exact fun _ member => member
  · exact fun _ _ found => found

end

/-! ## Registering an order -/

section Register

variable {m : BrokerState} {request : BrokerOrderRequest}

theorem register_symbols :
    (m.register request).orderSymbol = m.orderSymbol.set request.orderId request.symbol := by
  rw [BrokerState.register]
  split
  · rfl
  · split
    · rfl
    · rfl

theorem register_ungrouped (none : request.ocaGroup.filter (· ≠ "") = none) :
    (m.register request).orderToOcaGroup = m.orderToOcaGroup ∧
      (m.register request).ocaGroups = m.ocaGroups := by
  rw [BrokerState.register]
  split
  · exact ⟨rfl, rfl⟩
  next g named =>
    split
    · exact ⟨rfl, rfl⟩
    next some =>
      rw [named] at none
      simp [some] at none

theorem register_grouped {g : String} (named : request.ocaGroup.filter (· ≠ "") = some g) :
    (m.register request).orderToOcaGroup = m.orderToOcaGroup.set request.orderId g ∧
      (m.register request).ocaGroups = m.ocaGroups.set g
        ((m.ocaGroups.getD g []).filter (· ≠ request.orderId) ++ [request.orderId]) := by
  obtain ⟨group, some⟩ := Option.filter_eq_some_iff.mp named
  rw [BrokerState.register, group]
  have other : g ≠ "" := by simpa using some
  dsimp only
  rw [if_neg other]
  exact ⟨rfl, rfl⟩

theorem register_symbol {id : OrderId} (known : m.orderSymbol.get? id ≠ none) :
    (m.register request).orderSymbol.get? id ≠ none := by
  rw [register_symbols]
  by_cases here : id = request.orderId
  · subst here
    simp
  · rwa [Dict.get?_set_ne _ _ here]

variable {base : ℕ} {d : Desk}

variable (request) in
/-- What registering leaves alone whichever group the request is of. -/
theorem register_frame (held : Records base d) :
    (∀ {id}, d.broker.orderSymbol.get? id ≠ none →
      (d.broker.register request).orderSymbol.get? id ≠ none) ∧
    OwnIds (d.broker.register request) ∧
    ∀ s ∈ d.broker.filters.keys, s ∈ (d.broker.register request).filters.keys := by
  refine ⟨fun known => register_symbol known, TrackedBook.register_own held.own request, ?_⟩
  rw [BrokerState.register_filters]
  exact fun _ member => member

theorem orderly_register_ungrouped (named : request.ocaGroup.filter (· ≠ "") = none) :
    Orderly base d { d with broker := d.broker.register request } := by
  intro held
  obtain ⟨symbols, own, filters⟩ := register_frame request held
  obtain ⟨groups, members⟩ := register_ungrouped (m := d.broker) named
  refine ⟨⟨held.since, held.drawn, own, ?_, ?_⟩, ⟨fun _ known => ⟨known, rfl⟩, filters, ?_⟩, ?_⟩
  · intro id g found
    rw [groups] at found
    exact ⟨(held.grouped id g found).1, symbols (held.grouped id g found).2⟩
  · rw [groups, members]
    exact held.members
  · rw [groups]
    exact fun _ _ found => found
  · intro id g joined
    rw [groups, members]
    exact joined

theorem orderly_register_grouped {group : String}
    (grouped : d.manager.groupOf request.orderId = some group)
    (named : request.ocaGroup.filter (· ≠ "") = some group) :
    Orderly base d { d with broker := d.broker.register request } := by
  intro held
  obtain ⟨symbols, own, filters⟩ := register_frame request held
  obtain ⟨groups, members⟩ := register_grouped (m := d.broker) named
  -- an order that is registered again stays in its group
  have same : ∀ {id g}, d.broker.orderToOcaGroup.get? id = some g → id = request.orderId →
      g = group := by
    rintro id g found rfl
    have other := (held.grouped _ g found).1
    rw [grouped, Option.some.injEq] at other
    exact other.symm
  have kept : ∀ id g, d.broker.orderToOcaGroup.get? id = some g →
      (d.broker.orderToOcaGroup.set request.orderId group).get? id = some g := by
    intro id g found
    rw [Dict.get?_set]
    split
    next this => rw [same found this]
    next => exact found
  refine ⟨⟨held.since, held.drawn, own, ?_, ?_⟩, ⟨fun _ known => ⟨known, rfl⟩, filters, ?_⟩, ?_⟩
  · intro id g found
    rw [groups, Dict.get?_set] at found
    split at found
    next this =>
      cases found
      subst this
      refine ⟨grouped, ?_⟩
      rw [register_symbols, Dict.get?_set_self]
      exact Option.some_ne_none _
    next => exact ⟨(held.grouped id g found).1, symbols (held.grouped id g found).2⟩
  · intro g id member
    rw [groups]
    rw [members, Dict.getD, Dict.get?_set] at member
    split at member
    next this =>
      subst this
      rcases List.mem_append.mp member with old | new
      · exact kept id g (held.members g id (List.mem_filter.mp old).1)
      · rw [List.mem_singleton.mp new, Dict.get?_set_self]
    next => exact kept id g (held.members g id member)
  · rw [groups]
    exact kept
  · -- the order comes last in its group, whose other members stay where they are
    intro id g joined found
    rw [groups, Dict.get?_set] at found
    rw [members, Dict.getD, Dict.get?_set]
    split at found
    next this =>
      cases found
      subst this
      rw [if_pos rfl]
      exact List.mem_append_right _ (List.mem_singleton.mpr rfl)
    next other =>
      split
      next this =>
        subst this
        refine List.mem_append_left _ (List.mem_filter.mpr ⟨joined found, ?_⟩)
        simpa using other
      next => exact joined found

/-- A recorded order enters the group of its record. -/
theorem orderly_register
    (grouped : d.manager.groupOf request.orderId = request.ocaGroup.filter (· ≠ "")) :
    Orderly base d { d with broker := d.broker.register request } := by
  cases named : request.ocaGroup.filter (· ≠ "") with
  | none => exact orderly_register_ungrouped named
  | some group => exact orderly_register_grouped (grouped.trans named) named

/-- A recorded order of a loaded symbol is entered once it is registered. -/
theorem entered_register (recorded : d.manager.getOrder request.orderId ≠ none)
    (grouped : d.manager.groupOf request.orderId = request.ocaGroup.filter (· ≠ ""))
    (loaded : request.symbol ∈ d.broker.filters.keys) :
    Entered { d with broker := d.broker.register request } request.orderId request.symbol := by
  refine ⟨recorded, ?_, ?_⟩
  · dsimp only
    rw [BrokerState.register_filters]
    exact loaded
  · intro g found
    have named : request.ocaGroup.filter (· ≠ "") = some g := grouped.symm.trans found
    dsimp only
    rw [(register_grouped named).1, Dict.get?_set_self]

end Register

/-! ## What the tasks send -/

section Tasks

variable (p : DeskParams) (rules : ExchangeRules) (base : ℕ)

/-- A plain order has been recorded and entered since the task last went on. Any other goes
under an id of its own. -/
structure Sends (since d : Desk) (q : WireReq) : Prop where
  plain : ∀ params, q = .createOrder params →
    Exchange.wireLots rules params.symbol params.order ≠ none →
      Entered d params.newClientOrderId params.symbol ∧
        since.manager.getOrder params.newClientOrderId = none
  native : ∀ params, q = .createOrder params →
    Exchange.wireLots rules params.symbol params.order = none →
      ∃ symbol ms, params.newClientOrderId = .native symbol ms

/-- The outside of a task is the memory that it last went on from. -/
def ocaContract : Contract Desk Desk wireSig where
  issue q since d := q ≠ .streamRecv ∧ Sends rules since d q
  rely _ _ _ d since' d' := since' = d' ∧ Records base d' ∧ Grows d d'
  guar := Orderly base

def Since (since d : Desk) : Prop := Records base d ∧ Grows since d

abbrev Groups {α : Type} (c : Coro Desk wireSig α) : Prop :=
  c.Keeps (ocaContract rules base) (Since base)

variable {rules base} {α : Type}

theorem groups_request {q : WireReq} (other : q ≠ .streamRecv)
    (sends : ∀ since d, Sends rules since d q) :
    Groups rules base (Coro.request (S := wireSig) q : Coro Desk wireSig (wireSig.Reply q)) := by
  apply Coro.keeps_request
  · exact fun since d _ => ⟨other, sends since d⟩
  · rintro r since d since' d' - ⟨rfl, held, grows⟩
    exact ⟨held, .refl since'⟩

theorem sends_other {q : WireReq} (unplaced : ∀ params, q ≠ .createOrder params)
    (since d : Desk) : Sends rules since d q :=
  ⟨fun params same => absurd same (unplaced params),
    fun params same => absurd same (unplaced params)⟩

theorem Since.orderly {since d d' : Desk} (held : Since base since d)
    (orderly : Orderly base d d') : Since base since d' := by
  obtain ⟨held', grows, -⟩ := orderly held.1
  exact ⟨held', held.2.trans grows⟩

theorem groups_update {τ : Type} [Part Desk τ] {f : τ → τ}
    (orderly : ∀ d : Desk, Orderly base d (Part.set d (f (Part.view d)))) :
    Groups rules base (Coro.update f : Coro Desk wireSig Unit) :=
  Coro.keeps_update fun _ d held => ⟨orderly d, held.orderly (orderly d)⟩

/-- Whichever its type, the order of a request has a quantity. -/
theorem plain_of_wireOrder {request : BrokerOrderRequest} {filt : SymbolFilters}
    {order : WireOrder} (wired : wireOrder request filt = .ok order) (symbol : Symbol) :
    Exchange.wireLots rules symbol order ≠ none := by
  cases order with
  | closePosition price =>
    rw [wireOrder] at wired
    cases type : request.orderType with
    | limit =>
      rw [type] at wired
      cases price : request.limitPrice with
      | none =>
        rw [price] at wired
        cases wired
      | some price' =>
        rw [price] at wired
        cases wired
    | _ =>
      rw [type] at wired
      cases wired
  | _ => exact Option.some_ne_none _

/-- An order that has just been recorded is registered and sent, or comes back as a reject. -/
theorem groups_placeOrder (request : BrokerOrderRequest) {since d : Desk}
    (held : Since base since d) (fresh : since.manager.getOrder request.orderId = none)
    (recorded : d.manager.getOrder request.orderId ≠ none)
    (grouped : d.manager.groupOf request.orderId = request.ocaGroup.filter (· ≠ "")) :
    (p.broker.placeOrder request).Obeys (ocaContract rules base) (fun _ => Since base) since d := by
  simp only [placeOrder, Coro.obeys_bind, Coro.obeys_view]
  split
  · exact held
  next filt found =>
    have loaded : request.symbol ∈ d.broker.filters.keys := Dict.mem_keys_of_get? found
    split
    · -- below the exchange's minimum: a reject event, and no request
      exact ⟨.put d _, held.orderly (.put d _)⟩
    · -- the adapter registers the order before it builds the wire form
      have orderly : Orderly base d { d with broker := d.broker.register request } :=
        orderly_register grouped
      rw [Coro.obeys_bind, Coro.obeys_update]
      refine ⟨orderly, ?_⟩
      dsimp only
      split
      · exact held.orderly orderly
      next order wired =>
        simp only [Coro.obeys_tryCatch, Coro.obeys_bind, p.broker_createOrder, Coro.obeys_request]
        refine ⟨⟨by simp, ?_, ?_⟩, ?_⟩
        · rintro params same -
          cases same
          exact ⟨entered_register recorded grouped loaded, fresh⟩
        · rintro params same bare
          cases same
          exact absurd bare (plain_of_wireOrder wired request.symbol)
        · -- refused or not, only the event queue changes
          rintro r since' d' ⟨rfl, held', -⟩
          have again : Since base since' since' := ⟨held', .refl since'⟩
          cases r with
          | ok stop => exact again
          | error e => exact ⟨.put since' _, again.orderly (.put since' _)⟩

/-- An order is recorded under a new id before the adapter is asked. -/
theorem groups_submit (signal : SignalEvent) (expectedPrice : Option ℚ) :
    Groups rules base (p.orderManager.submit signal expectedPrice) := by
  intro since d held
  -- every recorded id has been drawn before
  have unknown : d.manager.getOrder (.hex d.uuids.drawn) = none := by
    by_contra known
    obtain ⟨n, -, before, same⟩ := held.1.drawn _ known
    cases same
    exact absurd before (lt_irrefl _)
  have fresh : since.manager.getOrder (.hex d.uuids.drawn) = none := by
    by_contra known
    exact (held.2.records _ known).1 unknown
  have drew : Orderly base d { d with uuids := { d.uuids with drawn := d.uuids.drawn + 1 } } :=
    .elsewhere (Nat.le_succ _) rfl rfl
  have noted : Orderly base { d with uuids := { d.uuids with drawn := d.uuids.drawn + 1 } }
      { d with
        uuids := { d.uuids with drawn := d.uuids.drawn + 1 }
        manager := d.manager.noting (.hex d.uuids.drawn) signal expectedPrice } :=
    orderly_noting (d := { d with uuids := { d.uuids with drawn := d.uuids.drawn + 1 } })
      held.1.since (Nat.lt_succ_self _) unknown signal expectedPrice
  rw [OrderLifecycleManager.submit, OrderLifecycleManager.uuid4]
  simp only [Coro.obeys_bind, Coro.obeys_view, Coro.obeys_update, Coro.obeys_pure]
  refine ⟨drew, noted, ?_⟩
  have found : (d.manager.noting (.hex d.uuids.drawn) signal expectedPrice).getOrder
      (.hex d.uuids.drawn) = some (.ofSignal (.hex d.uuids.drawn) signal expectedPrice) := by
    rw [ManagerState.noting_getOrder, if_pos rfl]
  refine (groups_placeOrder p (ManagedOrder.ofSignal (.hex d.uuids.drawn) signal
    expectedPrice).request ((held.orderly drew).orderly noted) fresh ?_ ?_).mono ?_
  · dsimp only
    exact fun absent => Option.some_ne_none _ (found.symm.trans absent)
  · exact congrArg (fun order : Option ManagedOrder =>
      order.bind fun order => order.ocaGroup.filter (· ≠ "")) found
  · intro r since' d' held'
    cases r with
    | ok _ => exact held'
    | error _ => exact held'

theorem groups_uuid4 : Groups rules base (OrderLifecycleManager.uuid4 : Coro Desk wireSig OrderId) :=
  Coro.keeps_view.bind fun _ =>
    (groups_update fun _ => .elsewhere (Nat.le_succ _) rfl rfl).bind fun _ => Coro.keeps_pure _

/-- What a caller does keeps the groups. -/
theorem groups_rules : CallerRules p (ocaContract rules base) (Since base) where
  calls _ other unplaced := groups_request other (sends_other unplaced)
  stops params price symbol ms stop named := by
    -- a native stop goes under an id of its own
    refine groups_request (by simp) fun since d => ⟨?_, ?_⟩
    · rintro params same plain
      cases same
      rw [stop] at plain
      exact absurd rfl plain
    · rintro params same -
      cases same
      exact ⟨symbol, ms, named⟩
  draws := groups_uuid4
  submits := groups_submit p
  marks id order since d held known := by
    have orderly : Orderly base d { d with manager := d.manager.cancelling id } :=
      orderly_cancelling d id
    rw [ManagerState.cancelling, known] at orderly
    exact ⟨orderly, held.orderly orderly⟩

theorem groups_consumeOne :
    Groups rules base (OrderLifecycleManager.consumeOne : Coro Desk wireSig Unit) := by
  intro since d held
  rw [OrderLifecycleManager.consumeOne, Coro.obeys_bind, Coro.obeys_view]
  dsimp only
  split
  · exact held
  next event rest first =>
    -- the event is taken off the queue, then handled
    have taken : Orderly base d { d with broker := { d.broker with eventQueue := rest } } :=
      .kept le_rfl (fun _ => Iff.rfl) (fun _ => rfl) ⟨rest, rfl⟩
    have handled : Groups rules base
        (OrderLifecycleManager.handleBrokerEvent event : Coro Desk wireSig Unit) := by
      apply Coro.keeps_view_bind
      intro since d held
      have orderly : Orderly base d { d with manager := (d.manager.handleEvent event).1 } :=
        orderly_handleEvent d event
      rw [Coro.obeys_bind, Coro.obeys_update]
      refine ⟨orderly, ?_⟩
      dsimp only
      split
      · exact held.orderly orderly
      · exact groups_update (fun d => .elsewhere le_rfl rfl rfl) since _ (held.orderly orderly)
    rw [Coro.obeys_bind, Coro.obeys_update]
    exact ⟨taken, handled.tryCatch (fun _ => Coro.keeps_pure ()) since _ (held.orderly taken)⟩

theorem groups_bridge : BridgeRules (ocaContract rules base) (Since base) where
  calls _ other unplaced := groups_request other (sends_other unplaced)
  tracks _ := groups_update fun _ => .elsewhere le_rfl rfl rfl
  explains _ := groups_update fun _ => .elsewhere le_rfl rfl rfl
  takes _ := groups_update fun _ => .elsewhere le_rfl rfl rfl

/-- Every task but the stream loop keeps the groups. -/
theorem groups_body {i : TradingTask} (other : i ≠ .stream) {command : TradingCommand}
    {c : Coro Desk wireSig Unit} (started : p.tradingBody i command = some c) :
    Groups rules base c := by
  cases i with
  | caller n => exact (groups_rules p).caller started
  | stream => exact absurd rfl other
  | consumer =>
    cases command with
    | consume =>
      cases started
      exact groups_consumeOne
    | _ => cases started
  | dispatcher =>
    cases command with
    | dispatch earlier =>
      cases started
      exact groups_bridge.dispatch earlier
    | _ => cases started

end Tasks

end OcaDesk

end Binbot
