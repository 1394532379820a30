import Binbot.Properties.TrackerAgreement
import Binbot.Scripts.Trading

/-!
# The way of a fill

A fill at the exchange reaches the trade tracker through the user stream, the adapter's
queue, the order manager and the event bus. What is in flight is the fills in these
queues and in the hands of the tasks between them, oldest first; together with the
tracker's book it makes up the account's position.
-/
namespace Binbot

open Async Data

namespace FillPipeline

/-! ## Fills in flight -/

/-- A fill, if it is one of the symbol and not empty. -/
def fillOf (s symbol : Symbol) (signed : ℤ) : List ℤ :=
  if symbol = s ∧ signed ≠ 0 then [signed] else []

def eventFills (s : Symbol) : BrokerEvent → List ℤ
  | .execution fill => fillOf s fill.symbol fill.signedFill
  | _ => []

theorem eventFills_symbol {s : Symbol} {fill : ExecutionEvent}
    (some : eventFills s (.execution fill) ≠ []) : fill.symbol = s := by
  by_contra other
  exact some (if_neg fun both => other both.1)

def busFills (s : Symbol) : BusEvent → List ℤ
  | .order event => eventFills s event
  | _ => []

/-- The signed lots that a trade update reports. -/
def messageLots (rules : ExchangeRules) (o : OrderTradeUpdate) : ℤ :=
  (rules.spec o.symbol).quantityToLots o.lastFilled * o.side.sign

def messageFills (rules : ExchangeRules) (s : Symbol) : UserStreamMessage → List ℤ
  | .orderTradeUpdate o =>
    if o.execType = .trade then fillOf s o.symbol (messageLots rules o) else []
  | .other => []

theorem messageFills_symbol {rules : ExchangeRules} {s : Symbol} {o : OrderTradeUpdate}
    (some : messageFills rules s (.orderTradeUpdate o) ≠ []) : o.symbol = s := by
  by_contra other
  apply some
  rw [messageFills]
  split
  · exact if_neg fun both => other both.1
  · rfl

/-- A request that the bridge makes before it hands a fill to the tracker. -/
def beforeTracker : WireReq → Bool
  | .broadcast (.order _) => true
  | .broadcast (.executionMarker _) => true
  | .pushAudit entry => entry.source = .orderManager
  | _ => false

/-- The fill in the dispatcher's hands, until the tracker has it. -/
def handFills (s : Symbol) : Option BusEvent → Option WireReq → List ℤ
  | some event, some q => if beforeTracker q then busFills s event else []
  | _, _ => []

def inHand (s : Symbol) (t : Trading) : List ℤ :=
  handFills s t.event (t.world.task .dispatcher).pending

/-- The message that the stream loop has been given and has not looked at yet. -/
def received (task : Task Desk wireSig) : List UserStreamMessage :=
  match task.phase with
  | .answered .streamRecv (.ok message) _ => [message]
  | _ => []

/-- The fills of the symbol in the queues of the bot and the exchange. -/
def queued (rules : ExchangeRules) (s : Symbol) (messages : List UserStreamMessage) (d : Desk)
    (x : Exchange) : List ℤ :=
  d.bus.queue.flatMap (busFills s) ++ (d.broker.eventQueue.flatMap (eventFills s) ++
    (messages ++ x.stream).flatMap (messageFills rules s))

/-- The fills of the symbol that the tracker has not seen yet, oldest first. -/
def inFlight (rules : ExchangeRules) (s : Symbol) (t : Trading) : List ℤ :=
  inHand s t ++
    queued rules s (received (t.world.task .stream)) t.world.memory t.world.outside

/-- All messages have been processed. -/
structure Quiet (t : Trading) : Prop where
  stream : t.world.outside.stream = []
  received : received (t.world.task .stream) = []
  queue : t.world.memory.broker.eventQueue = []
  bus : t.world.memory.bus.queue = []
  dispatcher : (t.world.task .dispatcher).pending = none

instance (t : Trading) : Decidable (Quiet t) :=
  decidable_of_iff (t.world.outside.stream = [] ∧
      FillPipeline.received (t.world.task .stream) = [] ∧
      t.world.memory.broker.eventQueue = [] ∧ t.world.memory.bus.queue = [] ∧
      (t.world.task .dispatcher).pending = none)
    ⟨fun ⟨stream, received, queue, bus, dispatcher⟩ => ⟨stream, received, queue, bus, dispatcher⟩,
      fun quiet => ⟨quiet.stream, quiet.received, quiet.queue, quiet.bus, quiet.dispatcher⟩⟩

theorem Quiet.inFlight {t : Trading} (quiet : Quiet t) (rules : ExchangeRules) (s : Symbol) :
    inFlight rules s t = [] := by
  have hand : inHand s t = [] := by
    rw [inHand, quiet.dispatcher]
    cases t.event <;> rfl
  simp [FillPipeline.inFlight, queued, hand, quiet.stream, quiet.received, quiet.queue, quiet.bus]

/-! ## Fills one after the other -/

/-- The fill takes a position of `n` lots from one side of flat to the other. -/
def Crosses (n fill : ℤ) : Prop := 0 < n ∧ n + fill < 0 ∨ n < 0 ∧ 0 < n + fill

instance (n fill : ℤ) : Decidable (Crosses n fill) := inferInstanceAs (Decidable (_ ∨ _))

/-- One after the other, the fills never cross. -/
def Straight : ℤ → List ℤ → Prop
  | _, [] => True
  | n, fill :: rest => ¬ Crosses n fill ∧ Straight (n + fill) rest

theorem straight_append (n : ℤ) (fills later : List ℤ) :
    Straight n (fills ++ later) ↔ Straight n fills ∧ Straight (n + fills.sum) later := by
  induction fills generalizing n with
  | nil => simp [Straight]
  | cons first rest ih =>
    rw [List.cons_append, Straight, Straight, ih, List.sum_cons, and_assoc, add_assoc]

/-- From `n` lots the fills lead to the position, and none of them crosses. -/
structure Balanced (n : ℤ) (fills : List ℤ) (position : ℤ) : Prop where
  sum : n + fills.sum = position
  straight : Straight n fills

namespace Balanced

variable {n position : ℤ} {fills later : List ℤ}

theorem nil (n : ℤ) : Balanced n [] n := ⟨by simp, trivial⟩

/-- The first of the fills move into the book. -/
theorem booked (balanced : Balanced n (fills ++ later) position) :
    Balanced (n + fills.sum) later position := by
  obtain ⟨sum, straight⟩ := balanced
  constructor
  · rw [List.sum_append, ← add_assoc] at sum
    exact sum
  · exact ((straight_append n fills later).mp straight).2

/-- The first of the fills move out of the book again. -/
theorem unbooked (straight : Straight n fills)
    (balanced : Balanced (n + fills.sum) later position) :
    Balanced n (fills ++ later) position := by
  constructor
  · rw [List.sum_append, ← add_assoc]
    exact balanced.sum
  · exact (straight_append n fills later).mpr ⟨straight, balanced.straight⟩

/-- One more fill that does not cross the position. -/
theorem filled (balanced : Balanced n fills position) {fill : ℤ}
    (straight : ¬ Crosses position fill) : Balanced n (fills ++ [fill]) (position + fill) := by
  constructor
  · rw [List.sum_append, ← add_assoc, balanced.sum, List.sum_singleton]
  · rw [straight_append, balanced.sum]
    exact ⟨balanced.straight, straight, trivial⟩

end Balanced

/-! ## The tracker's net quantity -/

/-- Every open trade is of something. -/
def Held (tracker : TradeTracker) : Prop :=
  ∀ s trade, tracker.openTrades.get? s = some trade → 0 < trade.quantity

section Tracker

open TradeTracker

variable {tracker : TradeTracker} (multiplier : ℚ) (fill : ExecutionEvent)

theorem net_of_get? {s : Symbol} {trade : OpenTrade}
    (present : tracker.openTrades.get? s = some trade) : tracker.net s = trade.signed := by
  rw [TradeTracker.net, present]
  rfl

theorem net_of_none {s : Symbol} (absent : tracker.openTrades.get? s = none) :
    tracker.net s = 0 := by
  rw [TradeTracker.net, absent]
  rfl

/-- A fill changes no other symbol's trade. -/
theorem onExecution_other {s : Symbol} (other : s ≠ fill.symbol) :
    (tracker.onExecution multiplier fill).1.openTrades.get? s = tracker.openTrades.get? s := by
  rw [onExecution]
  split
  · split
    · rfl
    · exact Dict.get?_set_ne _ _ other
  · split
    · exact Dict.get?_set_ne _ _ other
    · dsimp only
      split
      · exact Dict.get?_set_ne _ _ other
      · exact Dict.get?_erase_ne _ other

theorem onExecution_held (held : Held tracker) : Held (tracker.onExecution multiplier fill).1 := by
  intro s trade
  by_cases here : s = fill.symbol
  · subst here
    rw [onExecution]
    split
    next absent =>
      split
      · exact held _ trade
      next moves =>
        intro found
        rw [Dict.get?_set_self, Option.some.injEq] at found
        rw [← found]
        exact abs_pos.mpr moves
    next running present =>
      have positive := held _ running present
      split
      · intro found
        rw [Dict.get?_set_self, Option.some.injEq] at found
        rw [← found]
        have := abs_nonneg fill.signedFill
        simp only [extended]
        omega
      · dsimp only
        split
        -- what a part leaves is positive, and a whole one leaves no trade
        next left =>
          intro found
          rw [Dict.get?_set_self, Option.some.injEq] at found
          rw [← found]
          exact left
        · intro found
          rw [Dict.get?_erase_self] at found
          cases found
  · rw [onExecution_other multiplier fill here]
    exact held s trade

/-- An empty fill moves nothing. -/
theorem onExecution_empty (held : Held tracker) (empty : fill.signedFill = 0) :
    (tracker.onExecution multiplier fill).1.net fill.symbol = tracker.net fill.symbol := by
  cases present : tracker.openTrades.get? fill.symbol with
  | none => simp [onExecution, present, empty]
  | some trade =>
    have positive := held _ trade present
    rw [net_of_get? present]
    by_cases same : fill.signedFill > 0 ↔ trade.signed > 0
    · rw [onExecution_extends multiplier present same, net_of_get? (Dict.get?_set_self _ _ _)]
      simp [OpenTrade.signed, extended, empty]
    · have kept : (reduced multiplier trade fill).quantity = trade.quantity := by
        simp only [reduced, empty, abs_zero]
        omega
      rw [onExecution_reduces multiplier present same (by omega),
        net_of_get? (Dict.get?_set_self _ _ _)]
      rw [OpenTrade.signed, OpenTrade.signed, kept]
      rfl

/-- A fill that does not cross moves the tracker's net quantity by itself. -/
theorem onExecution_net (held : Held tracker) (moves : fill.signedFill ≠ 0)
    (straight : ¬ Crosses (tracker.net fill.symbol) fill.signedFill) :
    (tracker.onExecution multiplier fill).1.net fill.symbol =
      tracker.net fill.symbol + fill.signedFill := by
  cases present : tracker.openTrades.get? fill.symbol with
  | none =>
    rw [onExecution_first multiplier present moves, net_of_none present,
      net_of_get? (Dict.get?_set_self _ _ _), opened_signed, zero_add]
  | some trade =>
    have positive := held _ trade present
    rw [net_of_get? present] at straight ⊢
    by_cases same : fill.signedFill > 0 ↔ trade.signed > 0
    · rw [onExecution_extends multiplier present same, net_of_get? (Dict.get?_set_self _ _ _)]
      exact extended_signed positive moves same
    · have size := OpenTrade.abs_signed positive
      have nonzero := OpenTrade.signed_ne_zero positive
      -- against the trade, and not past it
      have within : |fill.signedFill| ≤ trade.quantity := by
        rw [← size]
        rw [Crosses] at straight
        rcases lt_or_gt_of_ne nonzero with short | long
        · rw [abs_of_neg short, abs_of_pos (by omega)]
          omega
        · rw [abs_of_pos long, abs_of_neg (by omega)]
          omega
      have signed := reduced_signed multiplier positive moves same within
      by_cases left : (reduced multiplier trade fill).quantity > 0
      · rw [onExecution_reduces multiplier present same left,
          net_of_get? (Dict.get?_set_self _ _ _), signed]
      · rw [onExecution_closes multiplier present same left, net_of_none (Dict.get?_erase_self _ _),
          ← signed, OpenTrade.signed]
        have out : (reduced multiplier trade fill).quantity = 0 := by
          simp only [reduced, min_eq_left within] at left ⊢
          omega
        rw [out, zero_mul]

/-- What an order event does to the tracker. -/
def handed (multiplier : ℚ) (tracker : TradeTracker) : BrokerEvent → TradeTracker
  | .execution fill => (tracker.onExecution multiplier fill).1
  | _ => tracker

theorem handed_net (s : Symbol) (event : BrokerEvent) (held : Held tracker)
    (straight : Straight (tracker.net s) (eventFills s event)) :
    (handed multiplier tracker event).net s = tracker.net s + (eventFills s event).sum := by
  cases event with
  | execution fill =>
    simp only [handed, eventFills, fillOf] at straight ⊢
    by_cases here : fill.symbol = s
    · subst here
      by_cases moves : fill.signedFill = 0
      · rw [onExecution_empty multiplier fill held moves]
        simp [moves]
      · rw [if_pos ⟨rfl, moves⟩] at straight ⊢
        rw [onExecution_net multiplier fill held moves straight.1, List.sum_singleton]
    · rw [if_neg (fun both => here both.1), List.sum_nil, add_zero, TradeTracker.net,
        onExecution_other multiplier fill (Ne.symm here)]
      rfl
  | ack event => exact (add_zero _).symm
  | reject event => exact (add_zero _).symm

end Tracker

/-- Fills that are all in hand, or all in a book that held `n` without them. -/
inductive Stands (n : ℤ) (fills hand : List ℤ) (net : ℤ) : Prop
  | inHand (all : hand = fills) (still : net = n)
  | booked (none : hand = []) (moved : net = n + fills.sum)

/-! ## What the lookups on the way rely on -/

/-- The manager has recorded the order, and the filters of the symbol are loaded. -/
def Known (s : Symbol) (d : Desk) (id : OrderId) : Prop :=
  id ∈ d.manager.orders.keys ∧ s ∈ d.broker.filters.keys

/-- Nothing recorded or loaded gets lost. -/
structure Stable (d d' : Desk) : Prop where
  submitted : ∀ id ∈ d.manager.orders.keys, id ∈ d'.manager.orders.keys
  filters : ∀ s ∈ d.broker.filters.keys, s ∈ d'.broker.filters.keys

theorem Stable.refl (d : Desk) : Stable d d := ⟨fun _ member => member, fun _ member => member⟩

theorem Stable.trans {d d' d'' : Desk} (first : Stable d d') (second : Stable d' d'') :
    Stable d d'' :=
  ⟨fun id member => second.submitted id (first.submitted id member),
    fun s member => second.filters s (first.filters s member)⟩

theorem Stable.of_eq {d d' : Desk} (manager : d'.manager = d.manager)
    (broker : d'.broker = d.broker) : Stable d d' := by
  constructor
  · rw [manager]
    exact fun _ member => member
  · rw [broker]
    exact fun _ member => member

theorem Known.stable {s : Symbol} {d d' : Desk} {id : OrderId} (known : Known s d id)
    (stable : Stable d d') : Known s d' id :=
  ⟨stable.submitted id known.1, stable.filters s known.2⟩

/-- The adapter reports every order under its own id. -/
def OwnIds (broker : BrokerState) : Prop :=
  ∀ id other, broker.clientOrderToInternalId.get? id = some other → other = id

theorem OwnIds.getD {broker : BrokerState} (own : OwnIds broker) (id : OrderId) :
    broker.clientOrderToInternalId.getD id id = id := by
  rw [Dict.getD]
  cases found : broker.clientOrderToInternalId.get? id with
  | none => rfl
  | some other => exact own id other found

/-- The desk and the exchange between two segments, with a fill of `hand` lots in the
dispatcher's hands and these messages in the stream loop's. -/
structure Flow (rules : ExchangeRules) (s : Symbol) (strays : List OrderId) (hand : List ℤ)
    (messages : List UserStreamMessage) (d : Desk) (x : Exchange) : Prop where
  held : Held d.tracker
  balanced : Balanced (d.tracker.net s) (hand ++ queued rules s messages d x) (x.position s)
  published : ∀ event, .order event ∈ d.bus.queue → eventFills s event ≠ [] →
    Known s d event.orderId
  reported : ∀ event ∈ d.broker.eventQueue, eventFills s event ≠ [] → Known s d event.orderId
  streamed : ∀ o, .orderTradeUpdate o ∈ messages ++ x.stream →
    messageFills rules s (.orderTradeUpdate o) ≠ [] → Known s d o.clientOrderId
  working : ∀ o ∈ x.orders, o.standing = .working → o.symbol = s → o.id ∉ strays → Known s d o.id
  own : OwnIds d.broker
  loaded : ∀ filt, d.broker.filters.get? s = some filt → filt = rules.spec s

/-- What a task may write that has no fill in its hands. -/
structure Calm (d d' : Desk) : Prop where
  stable : Stable d d'
  tracker : d'.tracker = d.tracker
  bus : d'.bus = d.bus
  filters : d'.broker.filters = d.broker.filters
  own : OwnIds d.broker → OwnIds d'.broker
  queue : ∃ more, d'.broker.eventQueue = d.broker.eventQueue ++ more ∧
    ∀ event ∈ more, ∀ s, eventFills s event = []

/-- What a request does to the exchange that is not for a message. -/
structure CalmMarket (rules : ExchangeRules) (d : Desk) (x y : Exchange) : Prop where
  position : y.position = x.position
  stream : ∃ more, y.stream = x.stream ++ more ∧
    ∀ message ∈ more, ∀ s, messageFills rules s message = []
  working : ∀ o ∈ y.orders, o.standing = .working → o ∈ x.orders ∨ Known o.symbol d o.id

section

variable {rules : ExchangeRules} {d d' d'' : Desk} {x y : Exchange}

theorem Calm.refl (d : Desk) : Calm d d :=
  ⟨.refl d, rfl, rfl, rfl, id, [], (List.append_nil _).symm, by simp⟩

theorem Calm.trans (first : Calm d d') (second : Calm d' d'') : Calm d d'' := by
  obtain ⟨more, queue, calm⟩ := first.queue
  obtain ⟨later, queue', calm'⟩ := second.queue
  refine ⟨first.stable.trans second.stable, second.tracker.trans first.tracker,
    second.bus.trans first.bus, second.filters.trans first.filters,
    fun own => second.own (first.own own), more ++ later, ?_, ?_⟩
  · rw [queue', queue, List.append_assoc]
  · intro event member
    rcases List.mem_append.mp member with early | late
    · exact calm event early
    · exact calm' event late

theorem CalmMarket.refl (rules : ExchangeRules) (d : Desk) (x : Exchange) :
    CalmMarket rules d x x :=
  ⟨rfl, ⟨[], (List.append_nil _).symm, by simp⟩, fun _ member _ => .inl member⟩

/-- Nothing but reports without a fill. -/
theorem flatMap_quiet {α : Type} {fills : α → List ℤ} {items : List α}
    (quiet : ∀ item ∈ items, fills item = []) : items.flatMap fills = [] := by
  rw [List.flatMap_eq_nil_iff]
  exact quiet

theorem messageFills_notice (s : Symbol) (o : ExchangeOrder) (status : WireStatus) :
    messageFills rules s (Exchange.notice rules o status) = [] := rfl

theorem messageFills_report (s : Symbol) (o : ExchangeOrder) (status : WireStatus) (lots : ℤ)
    (detail : FillDetail) :
    messageFills rules s (Exchange.report rules o .trade status lots detail) =
      fillOf s o.symbol (o.side.sign * lots) := by
  simp only [messageFills, Exchange.report, messageLots,
    (rules.regular o.symbol).quantityToLots_lots, if_pos]
  rw [mul_comm]

theorem calmMarket_endOrders (d : Desk) (x : Exchange) (standing : Standing) (status : WireStatus)
    (test : ExchangeOrder → Bool) (ends : standing ≠ .working) :
    CalmMarket rules d x (x.endOrders rules standing status test) := by
  refine ⟨rfl, ⟨_, rfl, ?_⟩, ?_⟩
  · intro message member s
    obtain ⟨o, -, rfl⟩ := List.mem_map.mp member
    exact messageFills_notice s o status
  · intro o member works
    obtain ⟨before, listed, rfl⟩ := List.mem_map.mp member
    left
    by_cases ended : before.standing = .working ∧ test before = true
    · rw [if_pos ended] at works
      exact absurd works ends
    · rw [if_neg ended]
      exact listed

theorem calmMarket_accept (d : Desk) (x : Exchange) (params : OrderParams)
    (known : Exchange.wireLots rules params.symbol params.order ≠ none →
      Known params.symbol d params.newClientOrderId) :
    CalmMarket rules d x (x.accept rules params) := by
  cases plain : Exchange.wireLots rules params.symbol params.order with
  | none =>
    simp only [Exchange.accept, plain]
    exact ⟨rfl, ⟨[], (List.append_nil _).symm, by simp⟩, fun _ member _ => .inl member⟩
  | some lots =>
    simp only [Exchange.accept, plain]
    refine ⟨rfl, ⟨_, rfl, ?_⟩, ?_⟩
    · intro message member s
      rw [List.mem_singleton.mp member]
      exact messageFills_notice s _ _
    · intro o member _
      rcases List.mem_append.mp member with old | new
      · exact .inl old
      · right
        rw [List.mem_singleton.mp new]
        exact known (by rw [plain]; exact Option.some_ne_none lots)

end

/-! ## One fill on its way -/

section

variable {rules : ExchangeRules} {s : Symbol} {strays : List OrderId} {hand : List ℤ}
  {messages : List UserStreamMessage} {d d' : Desk} {x y : Exchange}

namespace Flow

/-- Writes that touch no fill. -/
theorem calm (flow : Flow rules s strays hand messages d x) (calm : Calm d d') :
    Flow rules s strays hand messages d' x := by
  obtain ⟨more, queue, quiet⟩ := calm.queue
  constructor
  · rw [calm.tracker]
    exact flow.held
  · have same : queued rules s messages d' x = queued rules s messages d x := by
      rw [queued, queued, calm.bus, queue, List.flatMap_append,
        flatMap_quiet fun event member => quiet event member s, List.append_nil]
    rw [calm.tracker, same]
    exact flow.balanced
  · intro event member fills
    rw [calm.bus] at member
    exact (flow.published event member fills).stable calm.stable
  · intro event member fills
    rw [queue] at member
    rcases List.mem_append.mp member with old | new
    · exact (flow.reported event old fills).stable calm.stable
    · exact absurd (quiet event new s) fills
  · intro o member fills
    exact (flow.streamed o member fills).stable calm.stable
  · intro o member works here ours
    exact (flow.working o member works here ours).stable calm.stable
  · exact calm.own flow.own
  · rw [calm.filters]
    exact flow.loaded

/-- Reports without a fill, and orders that end or are new. -/
theorem calmMarket (flow : Flow rules s strays hand messages d x) (calm : CalmMarket rules d x y) :
    Flow rules s strays hand messages d y := by
  obtain ⟨more, stream, quiet⟩ := calm.stream
  refine ⟨flow.held, ?_, flow.published, flow.reported, ?_, ?_, flow.own, flow.loaded⟩
  · have empty := flatMap_quiet fun message member => quiet message member s
    have same : queued rules s messages d y = queued rules s messages d x := by
      simp only [queued, stream, List.flatMap_append, empty, List.append_nil]
    rw [calm.position, same]
    exact flow.balanced
  · intro o member fills
    rw [stream, ← List.append_assoc] at member
    rcases List.mem_append.mp member with old | new
    · exact flow.streamed o old fills
    · exact absurd (quiet _ new s) fills
  · intro o member works here ours
    rcases calm.working o member works with old | new
    · exact flow.working o old works here ours
    · exact here ▸ new

/-- The exchange hands the stream loop the first message. -/
theorem given (flow : Flow rules s strays hand [] d x) :
    Flow rules s strays hand [x.stream.head?.getD .other] d { x with stream := x.stream.tail } := by
  have same : ∀ stream : List UserStreamMessage, stream ≠ [] →
      [stream.head?.getD .other] ++ stream.tail = stream := by
    intro stream some
    cases stream with
    | nil => exact absurd rfl some
    | cons message rest => rfl
  by_cases empty : x.stream = []
  · -- the call returns something else than an order update
    have nothing : queued rules s [x.stream.head?.getD .other] d
        { x with stream := x.stream.tail } = queued rules s [] d x := by
      simp [queued, empty, messageFills]
    refine ⟨flow.held, ?_, flow.published, flow.reported, ?_, flow.working, flow.own, flow.loaded⟩
    · rw [nothing]
      exact flow.balanced
    · intro o member
      simp [empty] at member
  · have whole := same x.stream empty
    refine ⟨flow.held, ?_, flow.published, flow.reported, ?_, flow.working, flow.own, flow.loaded⟩
    · have moved : queued rules s [x.stream.head?.getD .other] d
          { x with stream := x.stream.tail } = queued rules s [] d x := by
        simp only [queued, whole, List.nil_append]
      rw [moved]
      exact flow.balanced
    · intro o member
      dsimp only at member
      rw [whole] at member
      exact flow.streamed o member

/-- The adapter puts a fill into its own queue. -/
theorem put (flow : Flow rules s strays hand messages d x) {event : BrokerEvent}
    (same : messages.flatMap (messageFills rules s) = eventFills s event)
    (known : eventFills s event ≠ [] → Known s d event.orderId) :
    Flow rules s strays hand [] { d with broker := d.broker.put event } x := by
  refine ⟨flow.held, ?_, flow.published, ?_, ?_, flow.working, flow.own, flow.loaded⟩
  · have moved : queued rules s [] { d with broker := d.broker.put event } x =
        queued rules s messages d x := by
      simp [queued, BrokerState.put, same]
    rw [moved]
    exact flow.balanced
  · intro other member fills
    rcases List.mem_append.mp member with old | new
    · exact flow.reported other old fills
    · rw [List.mem_singleton.mp new] at fills ⊢
      exact known fills
  · intro o member fills
    exact flow.streamed o (List.mem_append_right _ member) fills

/-- A message without a fill is dropped. -/
theorem dropped (flow : Flow rules s strays hand messages d x)
    (empty : messages.flatMap (messageFills rules s) = []) :
    Flow rules s strays hand [] d x := by
  refine ⟨flow.held, ?_, flow.published, flow.reported, ?_, flow.working, flow.own, flow.loaded⟩
  · have same : queued rules s [] d x = queued rules s messages d x := by
      simp only [queued, List.flatMap_append, empty, List.flatMap_nil]
    rw [same]
    exact flow.balanced
  · intro o member fills
    exact flow.streamed o (List.mem_append_right _ member) fills

/-- The dispatcher takes the first event of the bus. -/
theorem taken (flow : Flow rules s strays [] messages d x) {event : BusEvent}
    {rest : List BusEvent} (first : d.bus.queue = event :: rest) :
    Flow rules s strays (busFills s event) messages
      { d with bus := { d.bus with queue := rest } } x := by
  refine ⟨flow.held, ?_, ?_, flow.reported, flow.streamed, flow.working, flow.own, flow.loaded⟩
  · have balanced := flow.balanced
    simp only [queued, first, List.flatMap_cons, List.nil_append, List.append_assoc] at balanced
    exact balanced
  · intro other member fills
    apply flow.published other _ fills
    rw [first]
    exact List.mem_cons_of_mem event member

/-- What the dispatcher has in its hands is either there or in the book. -/
theorem rebooked (flow : Flow rules s strays hand messages d x) (manager : d'.manager = d.manager)
    (broker : d'.broker = d.broker) (bus : d'.bus = d.bus) (held : Held d'.tracker) {n : ℤ}
    {fills hand' : List ℤ} (straight : Straight n fills)
    (before : Stands n fills hand (d.tracker.net s))
    (after : Stands n fills hand' (d'.tracker.net s)) :
    Flow rules s strays hand' messages d' x := by
  -- before the event the book and the fills make up the position, wherever its fills are
  have whole : Balanced n (fills ++ queued rules s messages d x) (x.position s) := by
    have balanced := flow.balanced
    cases before with
    | inHand all still => rwa [all, still] at balanced
    | booked none moved =>
      rw [none, moved] at balanced
      exact balanced.unbooked straight
  -- nothing that waits elsewhere has moved
  have same : queued rules s messages d' x = queued rules s messages d x := by
    rw [queued, queued, bus, broker]
  have known : ∀ {symbol id}, Known symbol d id → Known symbol d' id := by
    intro symbol id known
    rw [Known, manager, broker]
    exact known
  refine ⟨held, ?_, ?_, ?_, ?_, ?_, ?_, ?_⟩
  · rw [same]
    cases after with
    | inHand all still => rwa [all, still]
    | booked none moved =>
      rw [none, moved]
      exact whole.booked
  · exact fun event member some => known (flow.published event (bus ▸ member) some)
  · exact fun event member some => known (flow.reported event (broker ▸ member) some)
  · exact fun o member some => known (flow.streamed o member some)
  · exact fun o member works here ours => known (flow.working o member works here ours)
  · rw [broker]
    exact flow.own
  · rw [broker]
    exact flow.loaded

/-- The manager passes an event on to the bus. -/
theorem consumed (flow : Flow rules s strays hand messages d x) {event : BrokerEvent}
    {rest : List BrokerEvent} (first : d.broker.eventQueue = event :: rest)
    (room : eventFills s event ≠ [] → d.bus.HasRoom) {order : ManagedOrder}
    (found : d.manager.orders.get? event.orderId = some order) :
    Flow rules s strays hand messages
      { d with
        broker := { d.broker with eventQueue := rest }
        manager := (d.manager.handleEvent event).1
        bus := d.bus.publish (.order (order.after event).2) } x := by
  have fills : eventFills s (order.after event).2 = eventFills s event := by cases event <;> rfl
  have named : (order.after event).2.orderId = event.orderId := by cases event <;> rfl
  have stable : Stable d { d with
      broker := { d.broker with eventQueue := rest }
      manager := (d.manager.handleEvent event).1
      bus := d.bus.publish (.order (order.after event).2) } :=
    ⟨d.manager.handleEvent_keys event, fun _ member => member⟩
  have reported : eventFills s event ≠ [] → Known s d event.orderId :=
    flow.reported event (by rw [first]; exact List.mem_cons_self)
  -- a full bus drops an event that reports no fill
  have queue : (d.bus.publish (.order (order.after event).2)).queue.flatMap (busFills s) =
      d.bus.queue.flatMap (busFills s) ++ eventFills s event := by
    by_cases space : d.bus.HasRoom
    · rw [d.bus.publish_queue space]
      simp [busFills, fills]
    · have empty : eventFills s event = [] := by
        by_contra some
        exact space (room some)
      rw [d.bus.publish_full space, empty, List.append_nil]
  refine ⟨flow.held, ?_, ?_, ?_, ?_, ?_, flow.own, flow.loaded⟩
  · have same : queued rules s messages { d with
        broker := { d.broker with eventQueue := rest }
        manager := (d.manager.handleEvent event).1
        bus := d.bus.publish (.order (order.after event).2) } x = queued rules s messages d x := by
      simp only [queued, queue, first, List.flatMap_cons, List.append_assoc]
    rw [same]
    exact flow.balanced
  · intro other member some
    by_cases space : d.bus.HasRoom
    · dsimp only at member
      rw [d.bus.publish_queue space] at member
      rcases List.mem_append.mp member with old | new
      · exact (flow.published other old some).stable stable
      · cases List.mem_singleton.mp new
        rw [fills] at some
        rw [named]
        exact (reported some).stable stable
    · dsimp only at member
      rw [d.bus.publish_full space] at member
      exact (flow.published other member some).stable stable
  · intro other member some
    apply (flow.reported other _ some).stable stable
    rw [first]
    exact List.mem_cons_of_mem event member
  · intro o member some
    exact (flow.streamed o member some).stable stable
  · intro o member works here ours
    exact (flow.working o member works here ours).stable stable

/-- An event of an order that the manager does not know has no fill of the symbol. -/
theorem unknown (flow : Flow rules s strays hand messages d x) {event : BrokerEvent}
    {rest : List BrokerEvent} (first : d.broker.eventQueue = event :: rest)
    (absent : d.manager.orders.get? event.orderId = none) :
    Flow rules s strays hand messages
      { d with broker := { d.broker with eventQueue := rest } } x := by
  have empty : eventFills s event = [] := by
    by_contra some
    have known := (flow.reported event (by rw [first]; exact List.mem_cons_self) some).1
    exact (Dict.get?_eq_none_iff _ _).mp absent known
  refine ⟨flow.held, ?_, flow.published, ?_, flow.streamed, flow.working, flow.own, flow.loaded⟩
  · have same : queued rules s messages
        { d with broker := { d.broker with eventQueue := rest } } x =
          queued rules s messages d x := by
      simp only [queued, first, List.flatMap_cons, empty, List.nil_append]
    rw [same]
    exact flow.balanced
  · intro other member some
    apply flow.reported other _ some
    rw [first]
    exact List.mem_cons_of_mem event member

/-- Someone else publishes. -/
theorem publish (flow : Flow rules s strays hand messages d x) {event : BusEvent}
    (other : ∀ e, event ≠ .order e) :
    Flow rules s strays hand messages { d with bus := d.bus.publish event } x := by
  have nothing : busFills s event = [] := by
    cases event with
    | order e => exact absurd rfl (other e)
    | _ => rfl
  have queue : (d.bus.publish event).queue = d.bus.queue ∨
      (d.bus.publish event).queue = d.bus.queue ++ [event] := by
    by_cases space : d.bus.HasRoom
    · exact .inr (d.bus.publish_queue space event)
    · exact .inl (d.bus.publish_full space event)
  refine ⟨flow.held, ?_, ?_, flow.reported, flow.streamed, flow.working, flow.own, flow.loaded⟩
  · have same : queued rules s messages { d with bus := d.bus.publish event } x =
        queued rules s messages d x := by
      rcases queue with full | put
      · simp only [queued, full]
      · simp only [queued, put, List.flatMap_append, List.flatMap_singleton, nothing,
          List.append_nil]
    rw [same]
    exact flow.balanced
  · intro e member some
    apply flow.published e _ some
    rcases queue with full | put
    · exact full ▸ member
    · rw [put] at member
      rcases List.mem_append.mp member with old | new
      · exact old
      · exact absurd (List.mem_singleton.mp new).symm (other e)

/-- The adapter loads filters as the exchange publishes them. -/
theorem load (flow : Flow rules s strays hand messages d x) (symbol : Symbol) :
    Flow rules s strays hand messages
      { d with broker :=
        { d.broker with filters := d.broker.filters.set symbol (rules.spec symbol) } } x := by
  have stable : Stable d { d with broker :=
      { d.broker with filters := d.broker.filters.set symbol (rules.spec symbol) } } :=
    ⟨fun _ member => member, fun s member => (Dict.mem_keys_set _ _ _ _).mpr (.inr member)⟩
  refine ⟨flow.held, flow.balanced, ?_, ?_, ?_, ?_, flow.own, ?_⟩
  · exact fun event member some => (flow.published event member some).stable stable
  · exact fun event member some => (flow.reported event member some).stable stable
  · exact fun o member some => (flow.streamed o member some).stable stable
  · exact fun o member works here ours => (flow.working o member works here ours).stable stable
  · intro filt found
    by_cases here : s = symbol
    · subst here
      rw [Dict.get?_set_self, Option.some.injEq] at found
      exact found.symm
    · rw [Dict.get?_set_ne _ _ here] at found
      exact flow.loaded filt found

/-- A part of a working order fills. -/
theorem filled (flow : Flow rules s strays hand messages d x) {o : ExchangeOrder}
    (member : o ∈ x.orders) (works : o.standing = .working) {lots : ℤ} (positive : 0 < lots)
    (detail : FillDetail) (ours : o.symbol = s → o.id ∉ strays)
    (straight : o.symbol = s → ¬ Crosses (x.position s) (o.side.sign * lots)) :
    Flow rules s strays hand messages d (x.fillOrder rules o lots detail) := by
  have moves : o.side.sign * lots ≠ 0 := by
    cases o.side with
    | buy => simp only [OrderSide.sign]; omega
    | sell => simp only [OrderSide.sign]; omega
  have reported : queued rules s messages d (x.fillOrder rules o lots detail) =
      queued rules s messages d x ++ fillOf s o.symbol (o.side.sign * lots) := by
    simp only [queued, Exchange.fillOrder, List.flatMap_append, List.flatMap_singleton,
      messageFills_report, List.append_assoc]
    rfl
  refine ⟨flow.held, ?_, flow.published, flow.reported, ?_, ?_, flow.own, flow.loaded⟩
  · rw [reported, ← List.append_assoc]
    by_cases here : o.symbol = s
    · subst here
      rw [fillOf, if_pos ⟨rfl, moves⟩]
      simp only [Exchange.fillOrder, Function.update_self]
      exact flow.balanced.filled (straight rfl)
    · rw [fillOf, if_neg fun both => here both.1, List.append_nil]
      simp only [Exchange.fillOrder, Function.update_of_ne (Ne.symm here)]
      exact flow.balanced
  · intro update listed some
    simp only [Exchange.fillOrder, ← List.append_assoc] at listed
    rcases List.mem_append.mp listed with old | new
    · exact flow.streamed update old some
    · -- the report names the order
      have report := List.mem_singleton.mp new
      rw [report, messageFills_report, fillOf] at some
      by_cases here : o.symbol = s
      · simp only [Exchange.report, UserStreamMessage.orderTradeUpdate.injEq] at report
        rw [report]
        exact flow.working o member works here (ours here)
      · exact absurd (if_neg fun both => here both.1) some
  · intro other listed works' here other'
    obtain ⟨before, old, rfl⟩ := List.mem_map.mp listed
    by_cases same : before = o
    · subst same
      rw [if_pos rfl] at here other' ⊢
      exact flow.working before old works here other'
    · rw [if_neg same] at works' here other' ⊢
      exact flow.working before old works' here other'

/-- A stop triggers, and the symbol is flat. -/
theorem triggered (flow : Flow rules s strays hand messages d x) {stop : NativeStop}
    (detail : FillDetail) (flat : stop.symbol = s → x.position s = 0) :
    Flow rules s strays hand messages d (x.triggerStop rules stop detail) := by
  have nothing : fillOf s stop.symbol ((OrderSide.closing (x.position stop.symbol)).sign *
      |x.position stop.symbol|) = [] := by
    rw [fillOf, if_neg]
    rintro ⟨here, moves⟩
    rw [here, flat here] at moves
    simp at moves
  have reported : queued rules s messages d (x.triggerStop rules stop detail) =
      queued rules s messages d x := by
    simp only [queued, Exchange.triggerStop, List.flatMap_append, List.flatMap_singleton,
      messageFills_report, nothing, List.append_nil]
  refine ⟨flow.held, ?_, flow.published, flow.reported, ?_, flow.working, flow.own, flow.loaded⟩
  · rw [reported]
    by_cases here : stop.symbol = s
    · have still : (x.triggerStop rules stop detail).position s = x.position s := by
        simp [Exchange.triggerStop, here, flat here]
      rw [still]
      exact flow.balanced
    · simp only [Exchange.triggerStop, Function.update_of_ne (Ne.symm here)]
      exact flow.balanced
  · intro update listed some
    simp only [Exchange.triggerStop, ← List.append_assoc] at listed
    rcases List.mem_append.mp listed with old | new
    · exact flow.streamed update old some
    · rw [List.mem_singleton.mp new, messageFills_report] at some
      exact absurd nothing some

end Flow

end

end FillPipeline

end Binbot
