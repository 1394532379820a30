import Binbot.Async.Among
import Binbot.Machine.Run
import Binbot.Properties.ReduceOnly
import Binbot.Scripts.LiveDesk

/-!
# Symbols being closed and their orders

`_closing` is set before the closing order is submitted and cleared when the symbol
leaves the account, whatever became of the order. So a symbol in it has a live closing
order exactly as long as no close fails on the way. Which orders are those of a close is
told by the uuids: a record beside the state keeps, of each symbol's latest close, those
that were drawn in its poll.
-/
namespace Binbot

open Async Data BinanceFuturesBroker

/-- Neither refused nor ended unfilled. -/
def Standing.isLive : Standing → Bool
  | .working | .filled => true
  | .cancelled | .expired => false

namespace ClosingLive

/-- What runs beside the monitor's loop. -/
inductive Beside where
  /-- The adapter takes one message off the user stream. -/
  | receive (service : Service)
  /-- The order manager takes one event off the adapter's queue. -/
  | consume
  | move (m : Exchange.Move)
  | feed (symbol : Symbol) (price : ℚ)
  | clock (clock : Clock)

/-- While a poll waits for an answer: what happens before its request is served, how it is
served, and what happens before the poll goes on. -/
structure Turn where
  before : List Beside := []
  service : Service := {}
  after : List Beside := []

/-- The outside of one poll: its decision for the `n`-th request. -/
abbrev Turns : Type := ℕ → WireReq → Turn

inductive Act where
  | poll (turns : Turns)
  | beside (b : Beside)

section

variable (p : DeskParams) (rules : ExchangeRules)

def receiveOne : Coro Desk wireSig Unit := do
  let message ← Coro.request (S := wireSig) .streamRecv
  p.broker.handleUserStreamMessage message

def happen (s : DeskState) : Beside → DeskState
  | .receive service => s.alone rules (receiveOne p) service
  | .consume => s.alone rules OrderLifecycleManager.consumeOne {}
  -- a move that is not possible does not happen
  | .move m => { s with exchange := (s.exchange.move rules m).getD s.exchange }
  | .feed symbol price =>
    { s with desk :=
      { s.desk with scanner :=
        { s.desk.scanner with feed := s.desk.scanner.feed.set symbol price } } }
  | .clock clock => { s with desk := { s.desk with clock := clock } }

def happened (s : DeskState) (bs : List Beside) : DeskState := bs.foldl (happen p rules) s

/-- One suspension of a poll. -/
def serveAmong (turns : Turns) (w : Exchange × ℕ) (d : Desk) (q : WireReq) :
    Answer wireSig q × (Exchange × ℕ) × Desk :=
  let turn := turns w.2 q
  let s := happened p rules ⟨d, w.1⟩ turn.before
  let served := s.exchange.serve rules turn.service q
  let t := happened p rules ⟨s.desk, served.2⟩ turn.after
  (served.1, (t.exchange, w.2 + 1), t.desk)

/-- Of a close: the position in the monitor's book, and the uuids that were drawn in the
poll in which the symbol entered `_closing`. -/
structure Close where
  position : ℤ
  first : ℕ
  last : ℕ

/-- The desk and the exchange, and on record beside them the latest close of each symbol. -/
structure Watched where
  state : DeskState
  closes : Symbol → Option Close := fun _ => none

/-- A poll puts a close on record for each symbol that enters `_closing` in it. -/
def closesAfter (before after : DeskState) (closes : Symbol → Option Close) (symbol : Symbol) :
    Option Close :=
  if symbol ∈ after.desk.monitor.closing ∧ symbol ∉ before.desk.monitor.closing then
    some ⟨after.desk.monitor.positions.getD symbol 0, before.desk.uuids.drawn,
      after.desk.uuids.drawn⟩
  else closes symbol

def polled (s : DeskState) (turns : Turns) : DeskState :=
  let outcome := p.positionMonitor.checkOnce.runAmong (serveAmong p rules turns) (s.exchange, 0) s.desk
  ⟨outcome.memory, outcome.outside.1⟩

def step (s : Watched) : Act → Option Watched
  | .poll turns =>
    let after := polled p rules s.state turns
    some ⟨after, closesAfter s.state after s.closes⟩
  | .beside b => some { s with state := happen p rules s.state b }

end

/-- A market order against the position, submitted by the manager with a uuid of the close. -/
structure Closes (close : Close) (manager : ManagerState) (symbol : Symbol) (o : ExchangeOrder) :
    Prop where
  symbol : o.symbol = symbol
  side : o.side = .closing close.position
  market : o.orderType = .market
  drawn : ∃ n, close.first ≤ n ∧ n < close.last ∧ o.id = .hex n
  submitted : o.id ∈ manager.orders.keys

/-- An order of the close that the exchange has neither refused, cancelled nor let expire. -/
def HasLive (close : Close) (manager : ManagerState) (x : Exchange) (s : Symbol) : Prop :=
  ∃ o ∈ x.orders, Closes close manager s o ∧ o.standing.isLive = true

/-- Every symbol that is being closed and is still open has a live order of its close. -/
def AllLive (s : Watched) : Prop :=
  ∀ symbol ∈ s.state.desk.monitor.closing,
    s.state.desk.monitor.positions.contains symbol = true →
    ∃ close ∈ s.closes symbol, HasLive close s.state.desk.manager s.state.exchange symbol

/-- An order that the manager has submitted, in a symbol that is being closed. -/
def IsClosing (d : Desk) (o : ExchangeOrder) : Prop :=
  o.id ∈ d.manager.orders.keys ∧ o.symbol ∈ d.monitor.closing

instance (d : Desk) (o : ExchangeOrder) : Decidable (IsClosing d o) :=
  inferInstanceAs (Decidable (_ ∧ _))

/-! ## The condition on a run -/

section

variable (p : DeskParams) (rules : ExchangeRules)

/-- No closing order is cancelled or expires. -/
def Spares (s : DeskState) : Beside → Prop
  | .move (.expire id) | .move (.cancel id) =>
    ∀ o ∈ s.exchange.orders, o.id = id → o.standing = .working → ¬ IsClosing s.desk o
  | _ => True

instance (s : DeskState) : (b : Beside) → Decidable (Spares s b)
  | .move (.expire _) => inferInstanceAs (Decidable (∀ _ ∈ _, _))
  | .move (.cancel _) => inferInstanceAs (Decidable (∀ _ ∈ _, _))
  | .move (.fill _ _ _) => .isTrue trivial
  | .move (.trigger _ _) => .isTrue trivial
  | .receive _ => .isTrue trivial
  | .consume => .isTrue trivial
  | .feed _ _ => .isTrue trivial
  | .clock _ => .isTrue trivial

def SpareAll (s : DeskState) : List Beside → Prop
  | [] => True
  | b :: bs => Spares s b ∧ SpareAll (happen p rules s b) bs

instance decidableSpareAll (s : DeskState) : (bs : List Beside) → Decidable (SpareAll p rules s bs)
  | [] => .isTrue trivial
  | b :: bs =>
    have := decidableSpareAll (happen p rules s b) bs
    inferInstanceAs (Decidable (_ ∧ _))

/-- No listed position is smaller than the exchange's minimum order. -/
def BigEnough (filters : Dict Symbol SymbolFilters) (rows : List PositionRow) : Prop :=
  ∀ e ∈ openRows filters rows, e.2.minQty ≤ e.2.lotsToQuantity |lotsHeld e.1 e.2|

instance (filters : Dict Symbol SymbolFilters) (rows : List PositionRow) :
    Decidable (BigEnough filters rows) := inferInstanceAs (Decidable (∀ _ ∈ _, _))

/-- The callback does not raise, a plain order is taken, and no listed position is too small. -/
def Grants (s : DeskState) (service : Service) : WireReq → Prop
  | .pushAudit _ => service.acts = true ∧ service.raises = none
  | .createOrder params =>
    Exchange.wireLots rules params.symbol params.order ≠ none → service.acts = true
  | .positionInformation =>
    BigEnough s.desk.broker.filters (service.marks.map (s.exchange.row rules))
  | _ => True

instance (s : DeskState) (service : Service) : (q : WireReq) → Decidable (Grants rules s service q)
  | .pushAudit _ => inferInstanceAs (Decidable (_ ∧ _))
  | .createOrder _ => inferInstanceAs (Decidable (_ → _))
  | .positionInformation => inferInstanceAs (Decidable (BigEnough _ _))
  | .exchangeInfo => .isTrue trivial
  | .changeMarginType _ _ => .isTrue trivial
  | .changeLeverage _ _ => .isTrue trivial
  | .leverageBracket _ => .isTrue trivial
  | .cancelOrder _ _ => .isTrue trivial
  | .cancelOrderById _ _ => .isTrue trivial
  | .cancelAllOpenOrders _ => .isTrue trivial
  | .account => .isTrue trivial
  | .streamRecv => .isTrue trivial
  | .broadcast _ => .isTrue trivial
  | .notify _ => .isTrue trivial

/-- No close fails at this suspension. -/
def Unfailing (turns : Turns) (w : Exchange × ℕ) (d : Desk) (q : WireReq) : Prop :=
  let turn := turns w.2 q
  let s := happened p rules ⟨d, w.1⟩ turn.before
  SpareAll p rules ⟨d, w.1⟩ turn.before ∧ Grants rules s turn.service q ∧
    SpareAll p rules ⟨s.desk, (s.exchange.serve rules turn.service q).2⟩ turn.after

instance (turns : Turns) (w : Exchange × ℕ) (d : Desk) (q : WireReq) :
    Decidable (Unfailing p rules turns w d q) := inferInstanceAs (Decidable (_ ∧ _ ∧ _))

/-- No close fails in this step. -/
def NoCloseFails (s : Watched) : Act → Prop
  | .poll turns =>
    p.positionMonitor.checkOnce.RunMeets (serveAmong p rules turns) (Unfailing p rules turns)
      (s.state.exchange, 0) s.state.desk
  | .beside b => Spares s.state b

instance (s : Watched) : (a : Act) → Decidable (NoCloseFails p rules s a)
  | .poll _ => Coro.decideRunMeets _ (fun _ _ _ => inferInstance) _ _ _
  | .beside b => inferInstanceAs (Decidable (Spares s.state b))

end

/-! ## What the others leave alone -/

/-- What stays as it is while a poll waits. -/
structure Frame (d d' : Desk) : Prop where
  monitor : d'.monitor = d.monitor
  filters : d'.broker.filters = d.broker.filters
  groups : d'.broker.orderToOcaGroup = d.broker.orderToOcaGroup
  submitted : ∀ id ∈ d.manager.orders.keys, id ∈ d'.manager.orders.keys
  drawn : d.uuids.drawn ≤ d'.uuids.drawn

/-- What writes none of the five is not seen. -/
theorem Frame.aside {d d' : Desk}
    (same : (d'.monitor, d'.broker.filters, d'.broker.orderToOcaGroup, d'.manager.orders, d'.uuids) =
      (d.monitor, d.broker.filters, d.broker.orderToOcaGroup, d.manager.orders, d.uuids)) :
    Frame d d' := by
  simp only [Prod.mk.injEq] at same
  obtain ⟨monitor, filters, groups, orders, uuids⟩ := same
  constructor
  · exact monitor
  · exact filters
  · exact groups
  · intro id member
    rw [orders]
    exact member
  · exact (congrArg Uuids.drawn uuids).ge

theorem Frame.refl (d : Desk) : Frame d d := .aside rfl

theorem Frame.trans {d d' d'' : Desk} (first : Frame d d') (second : Frame d' d'') : Frame d d'' :=
  ⟨second.monitor.trans first.monitor, second.filters.trans first.filters,
    second.groups.trans first.groups, fun id member => second.submitted id (first.submitted id member),
    first.drawn.trans second.drawn⟩

/-- What an order is, whatever becomes of it. -/
structure SameOrder (o o' : ExchangeOrder) : Prop where
  id : o'.id = o.id
  symbol : o'.symbol = o.symbol
  side : o'.side = o.side
  orderType : o'.orderType = o.orderType

theorem SameOrder.refl (o : ExchangeOrder) : SameOrder o o := ⟨rfl, rfl, rfl, rfl⟩

theorem SameOrder.trans {o o' o'' : ExchangeOrder} (first : SameOrder o o')
    (second : SameOrder o' o'') : SameOrder o o'' :=
  ⟨second.id.trans first.id, second.symbol.trans first.symbol, second.side.trans first.side,
    second.orderType.trans first.orderType⟩

/-- Every live closing order is still there, and live. -/
def Survives (d : Desk) (x y : Exchange) : Prop :=
  ∀ o ∈ x.orders, IsClosing d o → o.standing.isLive = true →
    ∃ o' ∈ y.orders, SameOrder o o' ∧ o'.standing.isLive = true

section

variable {d d' : Desk} {x y z : Exchange}

theorem IsClosing.frame {o : ExchangeOrder} (closing : IsClosing d o) (frame : Frame d d') :
    IsClosing d' o := ⟨frame.submitted o.id closing.1, by rw [frame.monitor]; exact closing.2⟩

theorem Survives.of_subset (kept : ∀ o ∈ x.orders, o ∈ y.orders) : Survives d x y :=
  fun o member _ live => ⟨o, kept o member, SameOrder.refl o, live⟩

theorem Survives.refl (d : Desk) (x : Exchange) : Survives d x x :=
  Survives.of_subset fun _ member => member

theorem Survives.trans (first : Survives d x y) (frame : Frame d d') (second : Survives d' y z) :
    Survives d x z := by
  intro o member closing live
  obtain ⟨o', member', same, live'⟩ := first o member closing live
  have closing' : IsClosing d' o' := by
    obtain ⟨submitted, symbol⟩ := closing.frame frame
    exact ⟨same.id ▸ submitted, same.symbol ▸ symbol⟩
  obtain ⟨o'', member'', same', live''⟩ := second o' member' closing' live'
  exact ⟨o'', member'', same.trans same', live''⟩

theorem Closes.mono {close : Close} {s : Symbol} {o o' : ExchangeOrder} {last : ℕ}
    (closes : Closes close d.manager s o) (frame : Frame d d') (same : SameOrder o o')
    (later : close.last ≤ last) : Closes { close with last := last } d'.manager s o' := by
  obtain ⟨n, first, below, id⟩ := closes.drawn
  constructor
  · exact same.symbol.trans closes.symbol
  · exact same.side.trans closes.side
  · exact same.orderType.trans closes.market
  · exact ⟨n, first, below.trans_le later, same.id.trans id⟩
  · rw [same.id]
    exact frame.submitted o.id closes.submitted

/-- A live order stays one of its close, to which the poll may add uuids. -/
theorem HasLive.mono {close : Close} {s : Symbol} {last : ℕ} (held : HasLive close d.manager x s)
    (closing : s ∈ d.monitor.closing) (frame : Frame d d') (survives : Survives d x y)
    (later : close.last ≤ last) : HasLive { close with last := last } d'.manager y s := by
  obtain ⟨o, member, closes, live⟩ := held
  obtain ⟨o', member', same, live'⟩ :=
    survives o member ⟨closes.submitted, closes.symbol ▸ closing⟩ live
  exact ⟨o', member', closes.mono frame same later, live'⟩

end

section Others

variable (p : DeskParams) (rules : ExchangeRules)

/-- Ending orders that are no closing orders. -/
theorem survives_endOrders {d : Desk} {x : Exchange} {id : OrderId} (standing : Standing)
    (status : WireStatus)
    (spared : ∀ o ∈ x.orders, o.id = id → o.standing = .working → ¬ IsClosing d o) :
    Survives d x (x.endOrders rules standing status (·.id = id)) := by
  intro o member closing live
  refine ⟨o, ?_, SameOrder.refl o, live⟩
  -- of the working orders only those end that are not closing ones
  have kept : ¬ (o.standing = .working ∧ o.id = id) := fun ⟨works, same⟩ =>
    spared o member same works closing
  simp only [Exchange.endOrders, List.mem_map]
  exact ⟨o, member, by simp only [decide_eq_true_eq, if_neg kept]⟩

theorem survives_move {d : Desk} {x y : Exchange} {m : Exchange.Move}
    (spared : Spares ⟨d, x⟩ (.move m)) (moved : x.move rules m = some y) : Survives d x y := by
  cases m with
  | fill id lots detail =>
    simp only [Exchange.move, Option.bind_eq_some_iff] at moved
    obtain ⟨o, found, filled⟩ := moved
    split at filled
    · cases filled
      intro other member closing live
      refine ⟨_, x.mem_fillOrder rules member lots detail, ?_⟩
      by_cases same : other = o
      · subst same
        rw [if_pos rfl]
        refine ⟨⟨rfl, rfl, rfl, rfl⟩, ?_⟩
        -- a partial fill leaves it working, the last one filled
        simp only [ExchangeOrder.fill]
        split
        · rfl
        · rfl
      · rw [if_neg same]
        exact ⟨SameOrder.refl other, live⟩
    · cases filled
  | trigger id detail =>
    obtain ⟨stop, found, rfl⟩ := Option.map_eq_some_iff.mp moved
    exact Survives.of_subset fun o member => member
  | expire id =>
    cases moved
    exact survives_endOrders rules _ _ spared
  | cancel id =>
    cases moved
    exact survives_endOrders rules _ _ spared

/-- The contract of programs that ask nothing of the outside. -/
def silent : Contract Exchange Desk wireSig where
  issue _ _ _ := False
  rely _ _ _ _ _ _ := True
  guar _ _ := True

/-- Since `d`, on an exchange that nothing has touched. -/
def Since (d : Desk) (x y : Exchange) (d' : Desk) : Prop := y = x ∧ Frame d d'

variable {d : Desk} {x : Exchange}

theorem since_update {τ : Type} [Part Desk τ] {f : τ → τ}
    (frame : ∀ d : Desk, Frame d (Part.set d (f (Part.view d)))) :
    (Coro.update f : Coro Desk wireSig Unit).Keeps silent (Since d x) := by
  apply Coro.keeps_update
  rintro y d' ⟨same, since⟩
  exact ⟨trivial, same, since.trans (frame d')⟩

/-- Run alone, a program that asks nothing only writes. -/
theorem alone_since {c : Coro Desk wireSig Unit} (keeps : c.Keeps silent (Since d x))
    (service : Service) :
    (DeskState.alone rules c service ⟨d, x⟩).exchange = x ∧
      Frame d (DeskState.alone rules c service ⟨d, x⟩).desk :=
  (keeps x d ⟨rfl, Frame.refl d⟩).exec fun _ _ _ asked => asked.elim

theorem since_handleBrokerEvent (event : BrokerEvent) :
    (OrderLifecycleManager.handleBrokerEvent event : Coro Desk wireSig Unit).Keeps silent
      (Since d x) := by
  apply Coro.keeps_view_bind
  rintro y d' ⟨same, since⟩
  have frame : Frame d' { d' with manager := (d'.manager.handleEvent event).1 } :=
    ⟨rfl, rfl, rfl, d'.manager.handleEvent_keys event, le_rfl⟩
  rw [Coro.obeys_bind, Coro.obeys_update]
  refine ⟨trivial, ?_⟩
  dsimp only
  split
  · exact ⟨same, since.trans frame⟩
  · refine since_update (fun _ => .aside rfl) _ _ ?_
    exact ⟨same, since.trans frame⟩

theorem since_consumeOne : OrderLifecycleManager.consumeOne.Keeps silent (Since d x) := by
  refine Coro.keeps_view.bind fun broker => ?_
  split
  · exact Coro.keeps_pure ()
  · refine Coro.Keeps.bind (since_update fun _ => ?_) fun _ => ?_
    · exact .aside rfl
    · exact (since_handleBrokerEvent _).tryCatch fun _ => Coro.keeps_pure ()

/-- Outside any group a fill cancels nothing. -/
theorem since_handleOcaFill (ungrouped : d.broker.orderToOcaGroup = .empty) (id : OrderId) :
    (p.broker.handleOcaFill id).Keeps silent (Since d x) := by
  apply Coro.keeps_view_bind
  rintro y d' ⟨same, since⟩
  have none : (Part.view d' : BrokerState).orderToOcaGroup.get? id = none := by
    rw [show (Part.view d' : BrokerState).orderToOcaGroup = .empty from
      since.groups.trans ungrouped]
    rfl
  rw [none]
  exact ⟨same, since⟩

theorem since_put (event : BrokerEvent) :
    (Coro.update fun m : BrokerState => m.put event : Coro Desk wireSig Unit).Keeps silent
      (Since d x) := since_update fun _ => .aside rfl

theorem since_handleUserStreamMessage (ungrouped : d.broker.orderToOcaGroup = .empty)
    (message : UserStreamMessage) :
    (p.broker.handleUserStreamMessage message).Keeps silent (Since d x) := by
  cases message with
  | other => exact Coro.keeps_pure ()
  | orderTradeUpdate o =>
    refine Coro.keeps_view.bind fun m => ?_
    dsimp only
    split
    · refine Coro.Keeps.bind (Coro.keeps_view.bind fun m => ?_) fun filt => ?_
      · split
        · exact Coro.keeps_pure _
        · exact Coro.keeps_throw _
      · refine (since_put _).bind fun _ => Coro.keeps_onlyIf _ ?_
        exact since_handleOcaFill p ungrouped _
    · split
      · exact Coro.keeps_pure ()
      · exact since_put _

/-- What happens beside a poll leaves its desk and every live closing order. -/
theorem happen_frame {s : DeskState} (ungrouped : s.desk.broker.orderToOcaGroup = .empty) {b : Beside}
    (spared : Spares s b) :
    Frame s.desk (happen p rules s b).desk ∧
      Survives s.desk s.exchange (happen p rules s b).exchange := by
  cases b with
  | receive service =>
    simp only [happen, DeskState.alone, receiveOne, Coro.exec_bind, Coro.exec_request]
    -- the exchange loses a message, or nothing at all
    have orders : (s.exchange.serve rules service .streamRecv).2.orders = s.exchange.orders := by
      rw [Exchange.serve]
      split
      · rfl
      · rfl
    have survives : Survives s.desk s.exchange (s.exchange.serve rules service .streamRecv).2 :=
      Survives.of_subset fun o member => orders ▸ member
    cases (s.exchange.serve rules service .streamRecv).1 with
    | error e => exact ⟨Frame.refl _, survives⟩
    | ok message =>
      have keeps := since_handleUserStreamMessage (x := (s.exchange.serve rules service .streamRecv).2)
        p ungrouped message
      obtain ⟨same, frame⟩ := alone_since rules keeps service
      rw [← same] at survives
      exact ⟨frame, survives⟩
  | consume =>
    obtain ⟨same, frame⟩ := alone_since rules (since_consumeOne (d := s.desk) (x := s.exchange)) {}
    exact ⟨frame, by rw [happen, same]; exact Survives.refl _ _⟩
  | move m =>
    refine ⟨Frame.refl _, ?_⟩
    simp only [happen]
    cases moved : s.exchange.move rules m with
    | none => exact Survives.refl _ _
    | some y => exact survives_move rules spared moved
  | feed symbol price => exact ⟨.aside rfl, Survives.refl _ _⟩
  | clock clock => exact ⟨.aside rfl, Survives.refl _ _⟩

theorem happened_frame {s : DeskState} (ungrouped : s.desk.broker.orderToOcaGroup = .empty)
    {bs : List Beside} (spared : SpareAll p rules s bs) :
    Frame s.desk (happened p rules s bs).desk ∧
      Survives s.desk s.exchange (happened p rules s bs).exchange := by
  induction bs generalizing s with
  | nil => exact ⟨Frame.refl _, Survives.refl _ _⟩
  | cons b bs ih =>
    obtain ⟨frame, survives⟩ := happen_frame p rules ungrouped spared.1
    obtain ⟨later, still⟩ := ih (frame.groups.trans ungrouped) spared.2
    exact ⟨frame.trans later, survives.trans frame still⟩

end Others

/-! ## The contract of a poll -/

section Poll

variable (p : DeskParams) (rules : ExchangeRules)

/-- A request that cancels no plain order. -/
def calm : WireReq → Bool
  | .cancelOrder _ _ => false
  | .cancelAllOpenOrders _ => false
  | _ => true

/-- A plain order is one that the manager has recorded, in a symbol being closed. -/
def Recorded (d : Desk) (q : WireReq) : Prop :=
  ∀ params, q = .createOrder params → Exchange.wireLots rules params.symbol params.order ≠ none →
    params.newClientOrderId ∈ d.manager.orders.keys ∧ params.symbol ∈ d.monitor.closing

/-- The order that a request has placed. -/
structure Sent (params : OrderParams) (o : ExchangeOrder) : Prop where
  id : o.id = params.newClientOrderId
  symbol : o.symbol = params.symbol
  side : o.side = params.side
  orderType : o.orderType = params.order.orderType

/-- What an answer says where no close fails: the callback has returned, a plain order is
live, and no position listed is too small. -/
def Fair (filters : Dict Symbol SymbolFilters) (x : Exchange) :
    (q : WireReq) → Answer wireSig q → Prop
  | .pushAudit _, r => r.isOk = true
  | .createOrder params, _ =>
    Exchange.wireLots rules params.symbol params.order ≠ none →
      ∃ o ∈ x.orders, Sent params o ∧ o.standing.isLive = true
  | .positionInformation, r => ∀ rows, r = .ok rows → BigEnough filters rows
  | _, _ => True

def pollContract : Contract (Exchange × ℕ) Desk wireSig where
  issue q _ d := calm q = true ∧ d.broker.orderToOcaGroup = .empty ∧ Recorded rules d q
  rely q r w d w' d' := Frame d d' ∧ Survives d w.1 w'.1 ∧ Fair rules d.broker.filters w'.1 q r
  guar _ _ := True

theorem accept_orders (x : Exchange) (params : OrderParams) :
    ∀ o ∈ x.orders, o ∈ (x.accept rules params).orders := by
  intro o member
  rw [Exchange.accept]
  split
  · exact List.mem_append_left _ member
  · exact member

theorem survives_serve {d : Desk} (x : Exchange) (service : Service) {q : WireReq}
    (quiet : calm q = true) : Survives d x (x.serve rules service q).2 := by
  rw [Exchange.serve]
  split
  · cases q with
    | createOrder params => exact Survives.of_subset (accept_orders rules x params)
    | cancelOrder symbol id => cases quiet
    | cancelAllOpenOrders symbol => cases quiet
    | _ => exact Survives.refl d x
  · exact Survives.refl d x

/-- An accepted plain order works. -/
theorem serve_createOrder_live (x : Exchange) {service : Service} {params : OrderParams}
    (plain : Exchange.wireLots rules params.symbol params.order ≠ none)
    (acts : service.acts = true) :
    ∃ o ∈ (x.serve rules service (.createOrder params)).2.orders, Sent params o ∧
      o.standing.isLive = true := by
  obtain ⟨lots, found⟩ := Option.ne_none_iff_exists'.mp plain
  refine ⟨⟨params.newClientOrderId, params.symbol, params.side, params.order.orderType, lots, 0,
    .working⟩, ?_, ⟨rfl, rfl, rfl, rfl⟩, rfl⟩
  simp only [Exchange.serve, acts, if_true, Exchange.act, Exchange.accept, found]
  exact List.mem_append_right _ (List.mem_singleton_self _)

/-- A suspension at which no close fails keeps to the contract. -/
theorem serveAmong_rely (turns : Turns) {q : WireReq} {w : Exchange × ℕ} {d : Desk}
    (issued : (pollContract rules).issue q w d) (unfailing : Unfailing p rules turns w d q) :
    (pollContract rules).rely q (serveAmong p rules turns w d q).1 w d
      (serveAmong p rules turns w d q).2.1 (serveAmong p rules turns w d q).2.2 := by
  obtain ⟨quiet, ungrouped, recorded⟩ := issued
  obtain ⟨spared, grants, spared'⟩ := unfailing
  obtain ⟨frame, survives⟩ := happened_frame p rules (s := ⟨d, w.1⟩) ungrouped spared
  set s := happened p rules ⟨d, w.1⟩ (turns w.2 q).before with before
  obtain ⟨frame', survives'⟩ := happened_frame p rules
    (s := ⟨s.desk, (s.exchange.serve rules (turns w.2 q).service q).2⟩)
    (frame.groups.trans ungrouped) spared'
  have served : Survives s.desk s.exchange (s.exchange.serve rules (turns w.2 q).service q).2 :=
    survives_serve rules s.exchange _ quiet
  refine ⟨frame.trans frame', survives.trans frame (served.trans (Frame.refl _) survives'), ?_⟩
  cases q with
  | pushAudit entry =>
    obtain ⟨acts, raises⟩ := grants
    change ((s.exchange.serve rules (turns w.2 (.pushAudit entry)).service
      (.pushAudit entry)).1).isOk = true
    simp only [Exchange.serve, acts, raises]
    rfl
  | createOrder params =>
    intro plain
    obtain ⟨o, member, sent, live⟩ :=
      serve_createOrder_live rules s.exchange plain (grants plain)
    -- it is a closing order, so nothing that happens before the poll goes on ends it
    have closing : IsClosing s.desk o := by
      obtain ⟨submitted, closing⟩ := recorded params rfl plain
      refine ⟨sent.id ▸ frame.submitted _ submitted, ?_⟩
      rw [frame.monitor, sent.symbol]
      exact closing
    obtain ⟨o', member', same, live'⟩ := survives' o member closing live
    exact ⟨o', member', ⟨same.id.trans sent.id, same.symbol.trans sent.symbol,
      same.side.trans sent.side, same.orderType.trans sent.orderType⟩, live'⟩
  | positionInformation =>
    intro rows answered
    -- the rows that were found big enough are the ones in the answer
    have listed : rows = (turns w.2 .positionInformation).service.marks.map
        (s.exchange.row rules) := by
      have result : (s.exchange.serve rules (turns w.2 .positionInformation).service
          .positionInformation).1 = .ok rows := answered
      rw [Exchange.serve] at result
      split at result
      · dsimp only at result
        split at result
        · cases result
        · cases result
          rfl
      · cases result
    rw [listed, ← frame.filters]
    exact grants
  | _ => trivial

/-- What was on record when a poll began. -/
structure Begun where
  closing : Finset Symbol
  closes : Symbol → Option Close
  drawn : ℕ

/-- The close of a symbol while a poll is under way, on this book and with so many uuids drawn. -/
def Begun.close (begun : Begun) (book : Dict Symbol ℤ) (drawn : ℕ) (symbol : Symbol) :
    Option Close :=
  if symbol ∈ begun.closing then begun.closes symbol
  else some ⟨book.getD symbol 0, begun.drawn, drawn⟩

/-- Inside a poll, on this book of positions; a symbol in `pending` is having its order
sent. -/
structure Inv (begun : Begun) (book : Dict Symbol ℤ) (pending : Symbol → Prop) (w : Exchange × ℕ)
    (d : Desk) : Prop where
  positions : d.monitor.positions = book
  live : ∀ s ∈ d.monitor.closing, ¬ pending s →
    ∃ close ∈ begun.close book d.uuids.drawn s, HasLive close d.manager w.1 s
  /-- A symbol of the book that was being closed still is. -/
  kept : ∀ s ∈ begun.closing, book.get? s ≠ none → s ∈ d.monitor.closing
  drawn : begun.drawn ≤ d.uuids.drawn
  sized : ∀ s quantity, book.get? s = some quantity →
    ∃ filt, d.broker.filters.get? s = some filt ∧ filt.minQty ≤ filt.lotsToQuantity |quantity|
  ungrouped : d.broker.orderToOcaGroup = .empty

/-- No symbol is having its order sent. -/
abbrev Settled (begun : Begun) (book : Dict Symbol ℤ) : Exchange × ℕ → Desk → Prop :=
  Inv begun book fun _ => False

section Programs

variable {begun : Begun} {book : Dict Symbol ℤ} {pending : Symbol → Prop} {α : Type}

/-- A live close stays one while other uuids are drawn. -/
theorem live_mono {w w' : Exchange × ℕ} {d d' : Desk} {s : Symbol}
    (held : ∃ close ∈ begun.close book d.uuids.drawn s, HasLive close d.manager w.1 s)
    (closing : s ∈ d.monitor.closing) (frame : Frame d d') (survives : Survives d w.1 w'.1) :
    ∃ close ∈ begun.close book d'.uuids.drawn s, HasLive close d'.manager w'.1 s := by
  obtain ⟨close, known, live⟩ := held
  by_cases before : s ∈ begun.closing
  · rw [Begun.close, if_pos before] at known ⊢
    exact ⟨close, known, live.mono closing frame survives le_rfl⟩
  · rw [Begun.close, if_neg before] at known ⊢
    cases known
    exact ⟨_, rfl, live.mono closing frame survives frame.drawn⟩

theorem Inv.frame {w w' : Exchange × ℕ} {d d' : Desk} (held : Inv begun book pending w d)
    (frame : Frame d d') (survives : Survives d w.1 w'.1) : Inv begun book pending w' d' := by
  constructor
  · rw [frame.monitor]
    exact held.positions
  · intro s closing sent
    rw [frame.monitor] at closing
    exact live_mono (held.live s closing sent) closing frame survives
  · rw [frame.monitor]
    exact held.kept
  · exact held.drawn.trans frame.drawn
  · rw [frame.filters]
    exact held.sized
  · rw [frame.groups]
    exact held.ungrouped

abbrev KeepsSettled (begun : Begun) (book : Dict Symbol ℤ) (c : Coro Desk wireSig α) : Prop :=
  c.Keeps (pollContract rules) (Settled begun book)

variable {rules}

/-- A request that cancels nothing and places no plain order. -/
theorem settled_request {q : WireReq} (quiet : calm q = true)
    (unplaced : ∀ params, q = .createOrder params →
      Exchange.wireLots rules params.symbol params.order = none) :
    KeepsSettled rules begun book
      (Coro.request (S := wireSig) q : Coro Desk wireSig (wireSig.Reply q)) := by
  apply Coro.keeps_request
  · intro w d held
    exact ⟨quiet, held.ungrouped, fun params same plain => absurd (unplaced params same) plain⟩
  · rintro r w d w' d' held ⟨frame, survives, -⟩
    exact held.frame frame survives

/-- A write of the monitor that leaves its book and the symbols being closed. -/
theorem settled_monitor {f : MonitorState → MonitorState}
    (kept : ∀ m, (f m).positions = m.positions ∧ (f m).closing = m.closing) :
    KeepsSettled rules begun book (Coro.update f : Coro Desk wireSig Unit) := by
  apply Coro.keeps_update
  intro w d held
  obtain ⟨positions, closing⟩ := kept d.monitor
  refine ⟨trivial, positions.trans held.positions, ?_, ?_, held.drawn, held.sized, held.ungrouped⟩
  · intro s member sent
    exact held.live s (closing ▸ member) sent
  · intro s before listed
    have still := held.kept s before listed
    rw [← show (f d.monitor).closing = d.monitor.closing from closing] at still
    exact still

/-! ## Sending the order -/

/-- The closing order of the symbol being closed is sent, and the symbol settles. -/
theorem placeOrder_settles {symbol : Symbol} {quantity : ℤ}
    (open_ : book.get? symbol = some quantity) (new : symbol ∉ begun.closing)
    {request : BrokerOrderRequest} (own : request.symbol = symbol)
    (side : request.side = .closing quantity) (size : request.quantity = |quantity|)
    (market : request.orderType = .market) (single : request.ocaGroup = none)
    {w : Exchange × ℕ} {d : Desk} (held : Inv begun book (· = symbol) w d) {n : ℕ}
    (named : request.orderId = .hex n) (first : begun.drawn ≤ n) (below : n < d.uuids.drawn)
    (recorded : request.orderId ∈ d.manager.orders.keys) (closing : symbol ∈ d.monitor.closing) :
    (p.broker.placeOrder request).Obeys (pollContract rules) (fun _ => Settled begun book) w d := by
  subst own
  obtain ⟨filt, known, enough⟩ := held.sized _ _ open_
  have found : (Part.view d : BrokerState).filters.get? request.symbol = some filt := known
  have wired : wireOrder request filt = .ok (.market (filt.lotsToQuantity request.quantity)) := by
    rw [wireOrder, market]
  rw [placeOrder, Coro.obeys_bind, Coro.obeys_view]
  dsimp only
  rw [found]
  dsimp only
  -- it is not below the minimum, so it goes out
  rw [size, if_neg (not_lt.mpr enough), Coro.obeys_bind, Coro.obeys_update]
  refine ⟨trivial, ?_⟩
  rw [wired]
  -- noted, the request is the manager's own record, sent
  have noted : Frame d { d with broker := d.broker.register request } := by
    refine ⟨rfl, BrokerState.register_filters d.broker request, ?_, fun _ member => member, le_rfl⟩
    simp only [BrokerState.register, single]
  simp only [Coro.obeys_tryCatch, Coro.obeys_bind, p.broker_createOrder, Coro.obeys_request]
  have registered := held.frame noted (Survives.refl d w.1)
  refine ⟨⟨rfl, registered.ungrouped, ?_⟩, ?_⟩
  · rintro params same -
    cases same
    exact ⟨recorded, closing⟩
  · rintro r w' d' ⟨frame, survives, fair⟩
    obtain ⟨o, member, sent, live⟩ := fair (Option.some_ne_none _)
    have after := registered.frame frame survives
    -- the order that is now live is one of the close: its uuid was drawn in this poll
    have closes : Closes ⟨book.getD request.symbol 0, begun.drawn, d'.uuids.drawn⟩
        d'.manager request.symbol o := by
      constructor
      · exact sent.symbol
      · rw [Dict.getD, open_]
        exact sent.side.trans side
      · exact sent.orderType
      · exact ⟨n, first, below.trans_le frame.drawn, sent.id.trans named⟩
      · exact sent.id ▸ frame.submitted _ recorded
    have settled : Settled begun book w' d' := by
      refine ⟨after.positions, ?_, after.kept, after.drawn, after.sized, after.ungrouped⟩
      intro s member' _
      by_cases here : s = request.symbol
      · subst here
        rw [Begun.close, if_neg new]
        exact ⟨_, rfl, o, member, closes, live⟩
      · exact after.live s member' here
    cases r with
    | ok stop => exact settled
    | error e =>
      -- a request that raised is forgotten by the adapter only
      refine ⟨trivial, settled.frame ?_ (Survives.refl _ _)⟩
      exact .aside rfl

theorem submit_settles {symbol : Symbol} {quantity : ℤ} (open_ : book.get? symbol = some quantity)
    (new : symbol ∉ begun.closing) (strategyId : String) (price : Option ℚ) {w : Exchange × ℕ}
    {d : Desk} (held : Inv begun book (· = symbol) w d) (closing : symbol ∈ d.monitor.closing) :
    (p.submit (closeSignal strategyId symbol quantity) price).Obeys (pollContract rules)
      (fun _ => Settled begun book) w d := by
  simp only [DeskParams.submit, OrderLifecycleManager.submit, OrderLifecycleManager.uuid4,
    Coro.obeys_bind, Coro.obeys_view, Coro.obeys_update, Coro.obeys_pure]
  refine ⟨trivial, trivial, ?_⟩
  -- the record is there before the broker is asked
  refine Coro.Obeys.mono (placeOrder_settles p open_ new rfl rfl ?_ rfl rfl (held.frame ?_ ?_)
    (n := d.uuids.drawn) rfl held.drawn (Nat.lt_succ_self _) ?_ closing) ?_
  · simp [ManagedOrder.request, ManagedOrder.ofSignal, closeSignal]
  · exact ⟨rfl, rfl, rfl, fun id member => (Dict.mem_keys_set _ _ _ _).mpr (Or.inr member),
      Nat.le_succ _⟩
  · exact Survives.refl _ _
  · exact (Dict.mem_keys_set _ _ _ _).mpr (Or.inl rfl)
  · intro r w' d' settled
    cases r with
    | ok _ => exact settled
    | error _ => exact settled

/-- The callback returns, and the symbol still awaits its order. -/
theorem onPositionClose_returns {symbol : Symbol} (reason : CloseReason) {w : Exchange × ℕ}
    {d : Desk} (held : Inv begun book (· = symbol) w d) (closing : symbol ∈ d.monitor.closing) :
    (DeskParams.onPositionClose symbol reason).Obeys (pollContract rules)
      (fun r w d => r.isOk = true ∧ Inv begun book (· = symbol) w d ∧ symbol ∈ d.monitor.closing) w d := by
  simp only [DeskParams.onPositionClose, DashboardBridge.noteCloseReason, DeskParams.pushAudit,
    Coro.obeys_bind, Coro.obeys_update, Coro.obeys_request]
  have noted : Inv begun book (· = symbol) w
      { d with reasons := ⟨d.reasons.bySymbol.set symbol reason.text⟩ } :=
    held.frame (.aside rfl) (Survives.refl _ _)
  refine ⟨trivial, ⟨rfl, noted.ungrouped, fun params same => by cases same⟩, ?_⟩
  rintro r w' d' ⟨frame, survives, returned⟩
  refine ⟨returned, noted.frame frame survives, ?_⟩
  rw [frame.monitor]
  exact closing

/-- A symbol enters `_closing`, and its order is live when the call ends. -/
theorem closePosition_settles {symbol : Symbol} {quantity : ℤ}
    (open_ : book.get? symbol = some quantity) (new : symbol ∉ begun.closing)
    (reason : CloseReason) :
    KeepsSettled rules begun book (p.positionMonitor.closePosition symbol quantity reason) := by
  intro w d held
  -- until its order is sent, the symbol is the only one in `_closing` without
  have entered : Inv begun book (· = symbol) w
      { d with monitor := { d.monitor with closing := insert symbol d.monitor.closing } } := by
    refine ⟨held.positions, fun s member sent => ?_, fun s before listed => ?_, held.drawn,
      held.sized, held.ungrouped⟩
    · exact held.live s (Finset.mem_of_mem_insert_of_ne member sent) id
    · exact Finset.mem_insert_of_mem (held.kept s before listed)
  have ports : p.positionMonitor.closePosition symbol quantity reason = (do
      Coro.update fun m : MonitorState => { m with closing := insert symbol m.closing }
      DeskParams.onPositionClose symbol reason
      let price ← DeskParams.latestPrice symbol
      p.submit (closeSignal "position-monitor" symbol quantity) price) := rfl
  rw [ports, Coro.obeys_bind, Coro.obeys_update]
  refine ⟨trivial, ?_⟩
  dsimp only
  apply Coro.Obeys.bind (onPositionClose_returns reason entered (Finset.mem_insert_self _ _))
  · rintro _ w' d' ⟨-, awaiting, closing⟩
    exact submit_settles p open_ new _ _ awaiting closing
  · rintro e w' d' ⟨⟨⟩, _⟩

/-! ## The rest of the monitor -/

theorem settled_getAccountEquity : KeepsSettled rules begun book p.broker.getAccountEquity :=
  (settled_request rfl (by simp)).bind fun _ => Coro.keeps_pure _

theorem settled_placeStopLoss (symbol : Symbol) (isLong : Bool) (entryPrice : ℚ)
    (quantityLots : ℤ) (maxLossUsdt : ℚ) : KeepsSettled rules begun book
      (p.broker.placeStopLoss symbol isLong entryPrice quantityLots maxLossUsdt) := by
  apply keeps_placeStopLoss
  intro params price symbol ms stop _
  apply settled_request
  · rfl
  · rintro params same
    cases same
    rw [stop]
    rfl

theorem settled_cancelStopLoss (symbol : Symbol) (id : StopId) :
    KeepsSettled rules begun book (p.broker.cancelStopLoss symbol id) :=
  keeps_cancelStopLoss p (settled_request rfl (by simp))

theorem settled_recordEntry (detail : PositionDetail) :
    KeepsSettled rules begun book (p.positionMonitor.recordEntry detail) := by
  refine (settled_getAccountEquity p).bind fun equity => ?_
  refine Coro.Keeps.bind (settled_monitor fun m => ⟨rfl, rfl⟩) fun _ => ?_
  refine (settled_placeStopLoss p _ _ _ _ _).bind fun stopId => ?_
  split
  · exact settled_monitor fun m => ⟨rfl, rfl⟩
  · exact Coro.keeps_pure ()

/-- What is closed is in the book. -/
theorem settled_judge {detail : PositionDetail}
    (new : book.get? detail.symbol ≠ none → detail.symbol ∉ begun.closing) :
    KeepsSettled rules begun book (p.positionMonitor.judge detail) := by
  apply Coro.keeps_view_bind
  intro w d held
  refine (keeps_getStepSize _).bind (fun step => ?_) w d held
  refine Coro.Keeps.bind (settled_monitor fun m => ⟨rfl, rfl⟩) fun _ => ?_
  split
  · exact Coro.keeps_pure ()
  · split
    next quantity found =>
      rw [show (Part.view d : MonitorState).positions = book from held.positions] at found
      exact closePosition_settles p found (new (found ▸ Option.some_ne_none _)) _
    · exact Coro.keeps_throw _

theorem settled_checkDetail (previous : List Symbol) (detail : PositionDetail) :
    KeepsSettled rules begun book (p.positionMonitor.checkDetail previous detail) := by
  apply Coro.keeps_view_bind
  intro w d held
  split
  · exact held
  next unclosed =>
    -- what was being closed when the poll began, and is still held, still is
    have new : book.get? detail.symbol ≠ none → detail.symbol ∉ begun.closing :=
      fun listed before => unclosed (held.kept _ before listed)
    dsimp only
    split
    · exact settled_judge p new w d held
    · exact ((settled_recordEntry p detail).bind fun _ => settled_judge p new) w d held

theorem settled_forget (symbol : Symbol) :
    KeepsSettled rules begun book (p.positionMonitor.forget symbol) := by
  refine Coro.Keeps.bind (Coro.keeps_view.bind fun m => ?_) fun _ => ?_
  · refine Coro.Keeps.bind (settled_monitor fun m => ⟨rfl, rfl⟩) fun _ => ?_
    split
    · exact settled_cancelStopLoss p _ _
    · exact Coro.keeps_pure ()
  · exact settled_monitor fun m => ⟨rfl, rfl⟩

/-- The new book holds what is listed, and a symbol that stays in `_closing` was in it. -/
theorem reread_settles {filters : Dict Symbol SymbolFilters} {rows : List PositionRow}
    {w : Exchange × ℕ} {d : Desk} (held : Settled begun book w d)
    (fixed : d.monitor.closing = begun.closing) (own : d.broker.filters = filters)
    (enough : BigEnough filters rows) :
    let details := (openRows filters rows).map fun (row, filt) => positionDetail row filt
    Settled begun (DeskParams.heldIn filters rows) w
      { d with monitor := PositionMonitor.MonitorState.reread d.monitor details } := by
  intro details
  constructor
  · exact DeskParams.reread_positions d.monitor
  · intro s closing sent
    -- its close is an earlier one, whatever the new book says of the position
    have before := (Finset.mem_filter.mp closing).1
    obtain ⟨close, known, live⟩ := held.live s before sent
    rw [Begun.close, if_pos (fixed ▸ before)] at known ⊢
    exact ⟨close, known, live⟩
  · intro s before listed
    obtain ⟨quantity, found⟩ := Option.ne_none_iff_exists'.mp listed
    obtain ⟨row, filt, member, rfl, -⟩ := DeskParams.heldIn_row found
    refine Finset.mem_filter.mpr ⟨fixed ▸ before, List.mem_map.mpr ?_⟩
    exact ⟨positionDetail row filt, List.mem_map_of_mem (f := fun (row, filt) =>
      positionDetail row filt) member, rfl⟩
  · exact held.drawn
  · intro s quantity listed
    obtain ⟨row, filt, member, rfl, rfl⟩ := DeskParams.heldIn_row listed
    refine ⟨filt, ?_, enough (row, filt) member⟩
    rw [own]
    exact (DeskParams.mem_openRows member).2.1
  · exact held.ungrouped

/-- A poll starts with a settled book, and ends with one, whatever raises on the way. -/
theorem checkOnce_settles {w : Exchange × ℕ} {d : Desk} (held : Settled begun book w d)
    (fixed : d.monitor.closing = begun.closing) :
    p.positionMonitor.checkOnce.Obeys (pollContract rules)
      (fun _ w d => ∃ book, Settled begun book w d) w d := by
  have asked : p.positionMonitor.broker.getPositionDetails = (do
      let positions ← Coro.request (S := wireSig) .positionInformation
      let m : BrokerState ← Coro.view
      pure ((openRows m.filters positions).map fun (row, filt) => positionDetail row filt)) := rfl
  simp only [PositionMonitor.checkOnce, asked, Coro.obeys_bind, Coro.obeys_request]
  refine ⟨⟨rfl, held.ungrouped, fun params same => by cases same⟩, ?_⟩
  rintro r w' d' ⟨frame, survives, fair⟩
  have kept := held.frame frame survives
  cases r with
  | error e => exact ⟨book, kept⟩
  | ok rows =>
    simp only [Coro.obeys_view, Coro.obeys_pure, Coro.obeys_update]
    have enough : BigEnough d'.broker.filters rows := frame.filters ▸ fair rows rfl
    refine ⟨trivial, ?_⟩
    refine Coro.Obeys.mono (Coro.keeps_forEach (settled_checkDetail p _) _ w' _
      (reread_settles kept (frame.monitor ▸ fixed) rfl enough)) ?_
    intro r w d settled
    -- what a position raises ends the poll before the symbols that are gone are forgotten
    cases r with
    | error e => exact ⟨_, settled⟩
    | ok _ =>
      exact (Coro.keeps_forEach (settled_forget p) _ w d settled).mono fun _ _ _ after => ⟨_, after⟩

end Programs

end Poll

/-! ## Runs -/

section

variable {p : DeskParams} {rules : ExchangeRules}

/-- The record as the next poll finds it. -/
def Watched.begun (s : Watched) : Begun :=
  ⟨s.state.desk.monitor.closing, s.closes, s.state.desk.uuids.drawn⟩

theorem Watched.begun_close {s : Watched} {symbol : Symbol}
    (closing : symbol ∈ s.state.desk.monitor.closing) (book : Dict Symbol ℤ) (drawn : ℕ) :
    s.begun.close book drawn symbol = s.closes symbol := if_pos closing

theorem Watched.begun_close_new {s : Watched} {symbol : Symbol}
    (new : symbol ∉ s.state.desk.monitor.closing) (book : Dict Symbol ℤ) (drawn : ℕ) :
    s.begun.close book drawn symbol =
      some ⟨book.getD symbol 0, s.state.desk.uuids.drawn, drawn⟩ := if_neg new

/-- Between polls every symbol in `_closing` has its close on record, with a live order. -/
def Kept (s : Watched) : Prop :=
  ∃ book, Settled s.begun book (s.state.exchange, 0) s.state.desk

/-- The closes on record are the latest ones. -/
theorem Kept.of_settled {begun : Begun} {book : Dict Symbol ℤ} {w : Exchange × ℕ} {t : Watched}
    (after : Settled begun book w t.state.desk) (outside : w.1 = t.state.exchange)
    (recorded : ∀ symbol ∈ t.state.desk.monitor.closing,
      begun.close book t.state.desk.uuids.drawn symbol = t.closes symbol) : Kept t := by
  refine ⟨book, after.positions, ?_, fun _ before _ => before, le_rfl, after.sized,
    after.ungrouped⟩
  intro symbol closing settled
  rw [Watched.begun_close closing, ← recorded symbol closing, ← outside]
  exact after.live symbol closing settled

theorem step_kept {s t : Watched} {a : Act} (held : Kept s) (unfailing : NoCloseFails p rules s a)
    (moved : step p rules s a = some t) : Kept t := by
  obtain ⟨book, settled⟩ := held
  cases a with
  | poll turns =>
    cases moved
    obtain ⟨book', after⟩ := (checkOnce_settles p settled rfl).runAmong unfailing
      fun q w d => serveAmong_rely p rules turns
    refine .of_settled after rfl fun symbol closing => ?_
    change _ = closesAfter s.state (polled p rules s.state turns) s.closes symbol
    by_cases before : symbol ∈ s.state.desk.monitor.closing
    · rw [Watched.begun_close before, closesAfter, if_neg (fun new => new.2 before)]
    · -- the close of this poll, on the book that it has read
      rw [Watched.begun_close_new before, closesAfter, if_pos ⟨closing, before⟩, ← after.positions]
      rfl
  | beside b =>
    cases moved
    obtain ⟨frame, survives⟩ := happen_frame p rules settled.ungrouped unfailing
    have after : Settled s.begun book ((happen p rules s.state b).exchange, 0)
        (happen p rules s.state b).desk := settled.frame frame survives
    have same : (happen p rules s.state b).desk.monitor.closing = s.state.desk.monitor.closing :=
      congrArg MonitorState.closing frame.monitor
    refine .of_settled after rfl fun symbol closing => ?_
    exact Watched.begun_close (same ▸ closing) _ _

end

/-- In every run of the monitor in which no close fails on the way, whatever runs beside
it, each symbol that is being closed and is still open has a live order of that close: a
market order against the position, with a uuid that was drawn in the poll in which the
symbol entered `_closing`. -/
theorem closing_stays_live (p : DeskParams) (rules : ExchangeRules) (s t : Watched)
    (acts : List Act) (fresh : s.state.desk.monitor = .initial)
    (ungrouped : s.state.desk.broker.orderToOcaGroup = .empty)
    (unfailing : Machine.Meets (step p rules) (NoCloseFails p rules) s acts)
    (reached : Machine.run (step p rules) s acts = some t) : AllLive t := by
  have start : Kept s := by
    have none_ : s.state.desk.monitor.closing = ∅ := by rw [fresh]; rfl
    refine ⟨.empty, by rw [fresh]; rfl, ?_, fun _ before _ => before, le_rfl, ?_, ungrouped⟩
    · intro symbol closing
      rw [none_] at closing
      exact absurd closing (Finset.notMem_empty symbol)
    · intro symbol quantity held
      cases held
  obtain ⟨book, settled⟩ := Machine.run_invariant Kept (fun _ _ _ => step_kept) s acts t start
    unfailing reached
  intro symbol closing _
  obtain ⟨close, known, live⟩ := settled.live symbol closing id
  rw [Watched.begun_close closing] at known
  exact ⟨close, known, live⟩

/-- Long five lots of BTCUSDT, with the monitor fresh. -/
def fiveOpen : Watched where
  state := ⟨.fresh demoRules ["BTCUSDT"], DeskParams.longFive⟩

/-- A loss of 600 on an account of 10000; `order` is what becomes of the closing order. -/
def losing (order : Service) : Turns := fun _ q =>
  match q with
  | .positionInformation => { service := { marks := [("BTCUSDT", 40000, 40000, -600)] } }
  | .account => { service := { account := ⟨10000, 0, 0⟩ } }
  | .createOrder _ => { service := order }
  | _ => {}

/-- What a run has come to for BTCUSDT: being closed, open, the position and the orders. -/
def seen (t : Watched) : Bool × Bool × ℤ × List ExchangeOrder :=
  ("BTCUSDT" ∈ t.state.desk.monitor.closing, t.state.desk.monitor.positions.contains "BTCUSDT",
    t.state.exchange.position "BTCUSDT", t.state.exchange.orders)

def filling : List Act :=
  [.poll (losing {}), .beside (.move (.fill (.hex 0) 2 ⟨40000, 0, false, 0⟩)),
    .beside (.receive {}), .beside .consume, .poll (losing {})]

/-- Taken, partly filled and reported, the closing order is there at the next poll. -/
theorem closing_stays_live_filling : ∃ t,
    Machine.run (step DeskParams.demoDesk demoRules) fiveOpen filling = some t ∧
      "BTCUSDT" ∈ t.state.desk.monitor.closing ∧
      ∃ close ∈ t.closes "BTCUSDT", HasLive close t.state.desk.manager t.state.exchange "BTCUSDT" := by
  have ends : (Machine.run (step DeskParams.demoDesk demoRules) fiveOpen filling).map seen =
      some (true, true, 3, [⟨.hex 0, "BTCUSDT", .sell, .market, 5, 2, .working⟩]) := by decide +kernel
  obtain ⟨t, reached, state⟩ := Option.map_eq_some_iff.mp ends
  simp only [seen, Prod.mk.injEq, decide_eq_true_eq] at state
  have live := closing_stays_live DeskParams.demoDesk demoRules fiveOpen t filling rfl rfl
    (by decide +kernel) reached
  exact ⟨t, reached, state.1, live "BTCUSDT" state.1 state.2.1⟩

def refusedOnce : List Act :=
  [.poll (losing { acts := false, raises := some "insufficient margin" }), .beside .consume,
    .poll (losing {}), .poll (losing {})]

/-- The exchange refuses the closing order once. The position stays open, beyond its
stop-loss, and no later poll orders anything. -/
theorem refused_close_is_forgotten : ∃ t,
    Machine.run (step DeskParams.demoDesk demoRules) fiveOpen refusedOnce = some t ∧
      "BTCUSDT" ∈ t.state.desk.monitor.closing ∧
      t.state.desk.monitor.positions.contains "BTCUSDT" = true ∧
      t.state.exchange.position "BTCUSDT" = 5 ∧ t.state.exchange.orders = [] ∧ ¬ AllLive t := by
  have ends : (Machine.run (step DeskParams.demoDesk demoRules) fiveOpen refusedOnce).map seen =
      some (true, true, 5, []) := by decide +kernel
  obtain ⟨t, reached, state⟩ := Option.map_eq_some_iff.mp ends
  simp only [seen, Prod.mk.injEq, decide_eq_true_eq] at state
  obtain ⟨closing, open_, held, orders⟩ := state
  refine ⟨t, reached, closing, open_, held, orders, fun live => ?_⟩
  obtain ⟨-, -, o, member, -⟩ := live "BTCUSDT" closing open_
  rw [orders] at member
  cases member

end ClosingLive

end Binbot
