import Binbot.Machine.Run
import Binbot.Properties.OcaRecords

/-!
# One cancels other on Binance

`_handle_oca_fill` cancels the members that the group has when a `FILLED` message of one of
its legs is handled. A leg that is accepted later finds its group gone, so that nothing
cancels it any more.
-/
namespace Binbot

open Async Data BinanceFuturesBroker FillPipeline

namespace OcaDesk

/-! ## The orders at the exchange -/

/-- The orders stay under their ids, and none works that did not work before. -/
def Fewer (x y : Exchange) : Prop :=
  ∃ f : ExchangeOrder → ExchangeOrder, y.orders = x.orders.map f ∧ ∀ o ∈ x.orders,
    (f o).id = o.id ∧ (f o).symbol = o.symbol ∧ ((f o).standing = .working → o.standing = .working)

/-- Nothing new happens at the exchange, and no fill is reported. -/
structure Settles (x y : Exchange) : Prop where
  orders : Fewer x y
  stops : ∀ stop ∈ y.stops, stop ∈ x.stops
  stream : ∃ more, y.stream = x.stream ++ more ∧
    ∀ o, .orderTradeUpdate o ∈ more → o.execType ≠ .trade

section Exchange

variable {rules : ExchangeRules} {x y : Exchange}

theorem Fewer.refl (x : Exchange) : Fewer x x :=
  ⟨id, (List.map_id _).symm, fun _ _ => ⟨rfl, rfl, id⟩⟩

theorem Settles.refl (x : Exchange) : Settles x x :=
  ⟨.refl x, fun _ member => member, [], (List.append_nil _).symm, by simp⟩

theorem Fewer.accepted (fewer : Fewer x y) (id : OrderId) : y.Accepted id ↔ x.Accepted id := by
  obtain ⟨f, orders, same⟩ := fewer
  rw [Exchange.Accepted, orders]
  constructor
  · rintro ⟨o, member, rfl⟩
    obtain ⟨before, listed, rfl⟩ := List.mem_map.mp member
    exact ⟨before, listed, (same before listed).1.symm⟩
  · rintro ⟨o, member, rfl⟩
    exact ⟨f o, List.mem_map_of_mem member, (same o member).1⟩

theorem Fewer.works (fewer : Fewer x y) {id : OrderId} (works : y.Works id) : x.Works id := by
  obtain ⟨f, orders, same⟩ := fewer
  rw [Exchange.Works, orders] at works
  obtain ⟨o, member, rfl, working⟩ := works
  obtain ⟨before, listed, rfl⟩ := List.mem_map.mp member
  obtain ⟨named, -, still⟩ := same before listed
  exact ⟨before, listed, named.symm, still working⟩

theorem works_accepted {id : OrderId} (works : x.Works id) : x.Accepted id := by
  obtain ⟨o, member, named, -⟩ := works
  exact ⟨o, member, named⟩

theorem settles_endOrders (x : Exchange) (standing : Standing) (status : WireStatus)
    (test : ExchangeOrder → Bool) (ends : standing ≠ .working) :
    Settles x (x.endOrders rules standing status test) := by
  refine ⟨⟨_, rfl, fun o _ => ?_⟩, fun _ member => member, ⟨_, rfl, ?_⟩⟩
  · split
    · exact ⟨rfl, rfl, fun works => absurd works ends⟩
    · exact ⟨rfl, rfl, id⟩
  · -- what is reported of an ended order is no trade
    intro update member
    obtain ⟨o, -, same⟩ := List.mem_map.mp member
    rw [Exchange.notice, Exchange.report, UserStreamMessage.orderTradeUpdate.injEq] at same
    rw [← same]
    simp

/-- Once its cancel has been served, no order of the id works. -/
theorem not_works_cancelled (x : Exchange) (id : OrderId) :
    ¬ (x.endOrders rules .cancelled .canceled (·.id = id)).Works id := by
  rintro ⟨o, member, named, works⟩
  obtain ⟨before, -, rfl⟩ := List.mem_map.mp member
  -- a working order of the id has been ended, so that what works is another order
  by_cases ended : before.standing = .working ∧ decide (before.id = id) = true
  · rw [if_pos ended] at works
    cases works
  · rw [if_neg ended] at works named
    exact ended ⟨works, decide_eq_true named⟩

theorem fewer_fillOrder {o : ExchangeOrder} (works : o.standing = .working) (lots : ℤ)
    (detail : FillDetail) : Fewer x (x.fillOrder rules o lots detail) := by
  refine ⟨_, rfl, fun other _ => ?_⟩
  by_cases same : other = o
  · rw [if_pos same, same]
    exact ⟨rfl, rfl, fun _ => works⟩
  · rw [if_neg same]
    exact ⟨rfl, rfl, id⟩

/-- A request other than an order or a receive. -/
theorem settles_serve (x : Exchange) (service : Service) {q : WireReq} (other : q ≠ .streamRecv)
    (unplaced : ∀ params, q ≠ .createOrder params) :
    Settles x (x.serve rules service q).2 := by
  rw [Exchange.serve]
  split
  · cases q with
    | createOrder params => exact absurd rfl (unplaced params)
    | cancelOrder symbol id => exact settles_endOrders x _ _ _ (by simp)
    | cancelOrderById symbol id =>
      exact ⟨.refl x, fun _ member => (List.mem_filter.mp member).1,
        [], (List.append_nil _).symm, by simp⟩
    | cancelAllOpenOrders symbol =>
      have ended : Settles x (x.endOrders rules .cancelled .canceled (·.symbol = symbol)) :=
        settles_endOrders x _ _ _ (by simp)
      exact ⟨ended.orders, fun _ member => (List.mem_filter.mp member).1, ended.stream⟩
    | streamRecv => exact absurd rfl other
    | _ => exact .refl x
  · exact .refl x

/-- A move of the market accepts no order and revives none. -/
theorem move_fewer {m : Exchange.Move} (moved : x.move rules m = some y) : Fewer x y := by
  cases m with
  | fill id lots detail =>
    simp only [Exchange.move, Option.bind_eq_some_iff] at moved
    obtain ⟨o, found, filled⟩ := moved
    split at filled
    · cases filled
      obtain ⟨-, -, works⟩ := (x.mem_working _ _).mp (x.findWorking_spec found)
      exact fewer_fillOrder works lots detail
    · cases filled
  | trigger id detail =>
    obtain ⟨stop, -, rfl⟩ := Option.map_eq_some_iff.mp moved
    exact .refl x
  | expire id =>
    cases moved
    exact (settles_endOrders x _ _ _ (by simp)).orders
  | cancel id =>
    cases moved
    exact (settles_endOrders x _ _ _ (by simp)).orders

end Exchange

/-- What the exchange has of the orders of this process. -/
structure Market (base : ℕ) (messages : List UserStreamMessage) (d : Desk) (x : Exchange) :
    Prop where
  orders : ∀ o ∈ x.orders, Early base o.id ∨ Entered d o.id o.symbol
  unique : ∀ a ∈ x.orders, ∀ b ∈ x.orders, a.id = b.id → ¬ Early base a.id → a = b
  stops : ∀ stop ∈ x.stops, Early base stop.clientId
  filled : ∀ o, .orderTradeUpdate o ∈ messages ++ x.stream → o.execType = .trade →
    o.status = .filled → Early base o.clientOrderId ∨
      Entered d o.clientOrderId o.symbol ∧ x.Accepted o.clientOrderId ∧ ¬ x.Works o.clientOrderId

namespace Market

variable {rules : ExchangeRules} {base : ℕ} {messages : List UserStreamMessage} {d d' : Desk}
  {x y : Exchange}

theorem grows (held : Market base messages d x) (grows : Grows d d') :
    Market base messages d' x := by
  refine ⟨fun o member => ?_, held.unique, held.stops, fun o member trade filled => ?_⟩
  · exact (held.orders o member).imp id fun entered => entered.grows grows
  · exact (held.filled o member trade filled).imp id fun known => ⟨known.1.grows grows, known.2⟩

theorem fewer_orders (held : Market base messages d x) (fewer : Fewer x y) :
    (∀ o ∈ y.orders, Early base o.id ∨ Entered d o.id o.symbol) ∧
      ∀ a ∈ y.orders, ∀ b ∈ y.orders, a.id = b.id → ¬ Early base a.id → a = b := by
  obtain ⟨f, orders, same⟩ := fewer
  rw [orders]
  constructor
  · intro o member
    obtain ⟨before, listed, rfl⟩ := List.mem_map.mp member
    obtain ⟨named, traded, -⟩ := same before listed
    rw [named, traded]
    exact held.orders before listed
  · intro a member b member' named since
    obtain ⟨before, first, rfl⟩ := List.mem_map.mp member
    obtain ⟨before', second, rfl⟩ := List.mem_map.mp member'
    rw [(same before first).1, (same before' second).1] at named
    rw [(same before first).1] at since
    rw [held.unique before first before' second named since]

/-- A report about an order that no longer works stays true. -/
theorem fewer_filled (held : Market base messages d x) (fewer : Fewer x y) :
    ∀ o, .orderTradeUpdate o ∈ messages ++ x.stream → o.execType = .trade →
      o.status = .filled → Early base o.clientOrderId ∨ Entered d o.clientOrderId o.symbol ∧
        y.Accepted o.clientOrderId ∧ ¬ y.Works o.clientOrderId := by
  intro o member trade filled
  refine (held.filled o member trade filled).imp id ?_
  rintro ⟨entered, accepted, spent⟩
  exact ⟨entered, (fewer.accepted _).mpr accepted, fun works => spent (fewer.works works)⟩

theorem settles (held : Market base messages d x) (settles : Settles x y) :
    Market base messages d y := by
  obtain ⟨orders, unique⟩ := held.fewer_orders settles.orders
  obtain ⟨more, stream, quiet⟩ := settles.stream
  refine ⟨orders, unique, fun stop member => held.stops stop (settles.stops stop member), ?_⟩
  intro o member trade filled
  rw [stream, ← List.append_assoc] at member
  rcases List.mem_append.mp member with old | new
  · exact held.fewer_filled settles.orders o old trade filled
  · exact absurd trade (quiet o new)

/-- A part of a working order fills. -/
theorem fill (held : Market base messages d x) {o : ExchangeOrder} (member : o ∈ x.orders)
    (works : o.standing = .working) (lots : ℤ) (detail : FillDetail) :
    Market base messages d (x.fillOrder rules o lots detail) := by
  have fewer : Fewer x (x.fillOrder rules o lots detail) := fewer_fillOrder works lots detail
  obtain ⟨orders, unique⟩ := held.fewer_orders fewer
  refine ⟨orders, unique, held.stops, ?_⟩
  intro update listed trade filled
  simp only [Exchange.fillOrder, ← List.append_assoc] at listed
  rcases List.mem_append.mp listed with old | new
  · exact held.fewer_filled fewer update old trade filled
  · have report := List.mem_singleton.mp new
    simp only [Exchange.report, UserStreamMessage.orderTradeUpdate.injEq] at report
    rw [report] at filled ⊢
    -- the order that is reported as filled is the only one of its id
    have spent : (o.fill lots).standing = .filled := by
      by_contra other
      rw [if_neg other] at filled
      cases filled
    by_cases early : Early base o.id
    · exact .inl early
    · refine .inr ⟨(held.orders o member).resolve_left early, ?_, ?_⟩
      · exact (fewer.accepted o.id).mpr ⟨o, member, rfl⟩
      · -- any order that still works under the id would be a second one
        rintro ⟨other, there, named, working⟩
        obtain ⟨before, present, rfl⟩ := List.mem_map.mp there
        by_cases same : before = o
        · rw [if_pos same, spent] at working
          cases working
        · rw [if_neg same] at named
          exact same (held.unique before present o member named (named ▸ early))

/-- A stop triggers, which is no order of a group. -/
theorem trigger (held : Market base messages d x) {stop : NativeStop} (member : stop ∈ x.stops)
    (detail : FillDetail) : Market base messages d (x.triggerStop rules stop detail) := by
  refine ⟨held.orders, held.unique, fun other there => ?_, ?_⟩
  · exact held.stops other (List.mem_filter.mp there).1
  · intro update listed trade filled
    simp only [Exchange.triggerStop, ← List.append_assoc] at listed
    rcases List.mem_append.mp listed with old | new
    · exact held.filled update old trade filled
    · have report := List.mem_singleton.mp new
      simp only [Exchange.report, UserStreamMessage.orderTradeUpdate.injEq] at report
      rw [report]
      -- the report bears the id of the stop, which this process has not drawn
      exact .inl (held.stops stop member)

/-- The exchange accepts a new order. -/
theorem accept (held : Market base messages d x) {params : OrderParams} {lots : ℤ}
    (plain : Exchange.wireLots rules params.symbol params.order = some lots)
    (entered : Entered d params.newClientOrderId params.symbol)
    (fresh : ¬ x.Accepted params.newClientOrderId) :
    Market base messages d (x.accept rules params) := by
  simp only [Exchange.accept, plain]
  refine ⟨?_, ?_, held.stops, ?_⟩
  · intro o member
    rcases List.mem_append.mp member with old | new
    · exact held.orders o old
    · rw [List.mem_singleton.mp new]
      exact .inr entered
  · intro a first b second named since
    rcases List.mem_append.mp first with old | new
    · rcases List.mem_append.mp second with old' | new'
      · exact held.unique a old b old' named since
      · rw [List.mem_singleton.mp new'] at named
        exact absurd ⟨a, old, named⟩ fresh
    · rw [List.mem_singleton.mp new] at named ⊢
      rcases List.mem_append.mp second with old' | new'
      · exact absurd ⟨b, old', named.symm⟩ fresh
      · exact (List.mem_singleton.mp new').symm
  · intro update member trade filled
    rw [← List.append_assoc] at member
    rcases List.mem_append.mp member with old | new
    · refine (held.filled update old trade filled).imp id ?_
      rintro ⟨known, ⟨o, listed, named⟩, spent⟩
      refine ⟨known, ⟨o, List.mem_append_left _ listed, named⟩, ?_⟩
      rintro ⟨other, there, here, works⟩
      rcases List.mem_append.mp there with old' | new'
      · exact spent ⟨other, old', here, works⟩
      · rw [List.mem_singleton.mp new'] at here
        exact fresh ⟨o, listed, named.trans here.symm⟩
    · have report := List.mem_singleton.mp new
      simp only [Exchange.notice, Exchange.report,
        UserStreamMessage.orderTradeUpdate.injEq] at report
      rw [report] at trade
      cases trade

theorem acceptStop (held : Market base messages d x) {params : OrderParams}
    (plain : Exchange.wireLots rules params.symbol params.order = none)
    (native : ∃ symbol ms, params.newClientOrderId = .native symbol ms) :
    Market base messages d (x.accept rules params) := by
  simp only [Exchange.accept, plain]
  refine ⟨held.orders, held.unique, ?_, held.filled⟩
  intro stop member
  rcases List.mem_append.mp member with old | new
  · exact held.stops stop old
  · obtain ⟨symbol, ms, named⟩ := native
    rw [List.mem_singleton.mp new]
    -- a stop has an id of the adapter's own form, so that it is none of the drawn ones
    intro n drawn
    rw [named] at drawn
    cases drawn

/-- Messages may get lost. -/
theorem lost (held : Market base messages d x) : Market base [] d x :=
  ⟨held.orders, held.unique, held.stops,
    fun o member => held.filled o (List.mem_append_right _ member)⟩

/-- The exchange hands the stream loop the first message. -/
theorem given (held : Market base [] d x) :
    Market base [x.stream.head?.getD .other] d { x with stream := x.stream.tail } := by
  refine ⟨held.orders, held.unique, held.stops, fun o member => held.filled o ?_⟩
  cases first : x.stream with
  | nil =>
    rw [first] at member
    simp at member
  | cons message rest =>
    rw [first] at member
    exact member

end Market

/-! ## The log -/

/-- A cancel of the order has reached the exchange, and it does not work. -/
def Done (x : Exchange) (log : OcaLog) (id : OrderId) : Prop := id ∈ log.cancelled ∧ ¬ x.Works id

/-- A `FILLED` message of one of the group's legs has been handed to the adapter. -/
def Begun (log : OcaLog) (g : String) : Prop :=
  ∃ l, (g, l) ∈ log.processed ∨ log.current = some (g, l)

/-- The first handler of the group has done its work. -/
def Handled (d : Desk) (x : Exchange) (log : OcaLog) (g : String) : Prop :=
  ∃ first, (g, first) ∈ log.processed ∧
    ∀ k, k ≠ first → d.manager.groupOf k = some g → x.Accepted k → Done x log k

/-- The first handler of the group is still to come, or is at work. -/
def Pending (d : Desk) (x : Exchange) (log : OcaLog) (g : String) : Prop :=
  (∀ l, (g, l) ∉ log.processed) ∧ ∀ l, log.current = some (g, l) →
    ∀ k, k ≠ l → d.manager.groupOf k = some g → x.Accepted k → k ∈ log.toCancel ∨ Done x log k

structure Logged (d : Desk) (x : Exchange) (log : OcaLog) : Prop where
  legs : ∀ g l, (g, l) ∈ log.processed ∨ log.current = some (g, l) →
    d.manager.groupOf l = some g ∧ x.Accepted l ∧ ¬ x.Works l
  /-- A group loses its members to a handler only. -/
  tied : ∀ id g, d.broker.orderToOcaGroup.get? id = some g →
    id ∈ d.broker.ocaGroups.getD g [] ∨ Begun log g
  stage : ∀ g, Handled d x log g ∨ Pending d x log g

namespace Logged

variable {rules : ExchangeRules} {base : ℕ} {messages : List UserStreamMessage} {d d' : Desk}
  {x y : Exchange} {log : OcaLog}

/-- An accepted order that is recorded now was recorded when it was accepted. -/
theorem groupOf_accepted (market : Market base messages d x) (records : Records base d')
    (grows : Grows d d') {k : OrderId} {g : String} (grouped : d'.manager.groupOf k = some g)
    (accepted : x.Accepted k) : d.manager.groupOf k = some g := by
  obtain ⟨o, member, rfl⟩ := accepted
  have entered := (market.orders o member).resolve_left
    (records.not_early (groupOf_recorded grouped))
  rw [← (grows.records o.id entered.recorded).2]
  exact grouped

/-- Another task moves. -/
theorem grows (held : Logged d x log) (market : Market base messages d x)
    (records : Records base d') (grows : Grows d d') (joins : Joins d d') : Logged d' x log := by
  refine ⟨fun g l handled => ?_, fun id g found => ?_, fun g => ?_⟩
  · obtain ⟨grouped, accepted, spent⟩ := held.legs g l handled
    refine ⟨?_, accepted, spent⟩
    rw [(grows.records l (groupOf_recorded grouped)).2]
    exact grouped
  · by_cases begun : Begun log g
    · exact .inr begun
    · exact .inl (joins id g (fun old => (held.tied id g old).resolve_right begun) found)
  · rcases held.stage g with ⟨first, handled, rest⟩ | ⟨none, rest⟩
    · refine .inl ⟨first, handled, fun k other grouped accepted => ?_⟩
      exact rest k other (groupOf_accepted market records grows grouped accepted) accepted
    · refine .inr ⟨none, fun l current k other grouped accepted => ?_⟩
      exact rest l current k other (groupOf_accepted market records grows grouped accepted) accepted

theorem fewer (held : Logged d x log) (fewer : Fewer x y) : Logged d y log := by
  have spent : ∀ {id}, ¬ x.Works id → ¬ y.Works id := fun spent works => spent (fewer.works works)
  refine ⟨fun g l handled => ?_, held.tied, fun g => ?_⟩
  · obtain ⟨grouped, accepted, idle⟩ := held.legs g l handled
    exact ⟨grouped, (fewer.accepted l).mpr accepted, spent idle⟩
  · rcases held.stage g with ⟨first, handled, rest⟩ | ⟨none, rest⟩
    · refine .inl ⟨first, handled, fun k other grouped accepted => ?_⟩
      obtain ⟨asked, idle⟩ := rest k other grouped ((fewer.accepted k).mp accepted)
      exact ⟨asked, spent idle⟩
    · refine .inr ⟨none, fun l current k other grouped accepted => ?_⟩
      refine (rest l current k other grouped ((fewer.accepted k).mp accepted)).imp id ?_
      exact fun done => ⟨done.1, spent done.2⟩

theorem settles (held : Logged d x log) (settles : Settles x y) : Logged d y log :=
  held.fewer settles.orders

/-- The exchange accepts an order that is not late in its group. -/
theorem accept (held : Logged d x log) {params : OrderParams} {lots : ℤ}
    (plain : Exchange.wireLots rules params.symbol params.order = some lots)
    (fresh : ¬ x.Accepted params.newClientOrderId)
    (inTime : ∀ g ∈ d.manager.groupOf params.newClientOrderId,
      NotLate log g params.newClientOrderId) : Logged d (x.accept rules params) log := by
  have accepts : ∀ id, (x.accept rules params).Accepted id →
      x.Accepted id ∨ id = params.newClientOrderId := by
    rintro id ⟨o, member, rfl⟩
    simp only [Exchange.accept, plain] at member
    rcases List.mem_append.mp member with old | new
    · exact .inl ⟨o, old, rfl⟩
    · rw [List.mem_singleton.mp new]
      exact .inr rfl
  have kept : ∀ {id}, x.Accepted id → (x.accept rules params).Accepted id := by
    rintro id ⟨o, member, named⟩
    simp only [Exchange.Accepted, Exchange.accept, plain]
    exact ⟨o, List.mem_append_left _ member, named⟩
  have spent : ∀ {id}, id ≠ params.newClientOrderId → ¬ x.Works id →
      ¬ (x.accept rules params).Works id := by
    rintro id other idle ⟨o, member, named, works⟩
    simp only [Exchange.accept, plain] at member
    rcases List.mem_append.mp member with old | new
    · exact idle ⟨o, old, named, works⟩
    · rw [List.mem_singleton.mp new] at named
      exact other named.symm
  have old : ∀ {id}, x.Accepted id → id ≠ params.newClientOrderId := by
    rintro id accepted rfl
    exact fresh accepted
  have still : ∀ {id}, x.Accepted id → Done x log id → Done (x.accept rules params) log id :=
    fun accepted done => ⟨done.1, spent (old accepted) done.2⟩
  refine ⟨fun g l handled => ?_, held.tied, fun g => ?_⟩
  · obtain ⟨grouped, accepted, idle⟩ := held.legs g l handled
    exact ⟨grouped, kept accepted, spent (old accepted) idle⟩
  · rcases held.stage g with ⟨first, handled, rest⟩ | ⟨none, rest⟩
    · refine .inl ⟨first, handled, fun k other grouped accepted => ?_⟩
      rcases accepts k accepted with before | rfl
      · exact still before (rest k other grouped before)
      · -- a leg of a handled group is late
        exact absurd (List.mem_map_of_mem handled) (inTime g grouped).1
    · refine .inr ⟨none, fun l current k other grouped accepted => ?_⟩
      rcases accepts k accepted with before | rfl
      · exact (rest l current k other grouped before).imp id (still before)
      · exact .inl ((inTime g grouped).2 (g, l) current rfl)

/-- A cancel request is served. If it is the handler's, the order does not work afterwards. -/
theorem asked (held : Logged d x log) (fewer : Fewer x y) (i : TradingTask) (id : OrderId)
    (spent : i = .stream → ¬ y.Works id) : Logged d y (log.asked x i id) := by
  have listed : ∀ {k}, k ∈ log.cancelled → k ∈ (log.asked x i id).cancelled := by
    intro k member
    simp only [OcaLog.asked]
    split
    · exact List.mem_cons_of_mem id member
    · exact member
  have done : ∀ {k}, Done y log k → Done y (log.asked x i id) k :=
    fun done => ⟨listed done.1, done.2⟩
  have held := held.fewer fewer
  refine ⟨held.legs, held.tied, fun g => ?_⟩
  rcases held.stage g with ⟨first, handled, rest⟩ | ⟨none, rest⟩
  · exact .inl ⟨first, handled, fun k other grouped accepted =>
      done (rest k other grouped accepted)⟩
  · refine .inr ⟨none, fun l current k other grouped accepted => ?_⟩
    rcases rest l current k other grouped accepted with waits | ready
    · simp only [OcaLog.asked]
      by_cases mine : i = .stream
      · rw [if_pos mine]
        by_cases here : k = id
        · subst here
          have known : x.Accepted k := (fewer.accepted k).mp accepted
          refine .inr ⟨?_, spent mine⟩
          rw [if_pos known]
          exact List.mem_cons_self
        · exact .inl ((List.mem_erase_of_ne here).mpr waits)
      · rw [if_neg mine]
        exact .inl waits
    · exact .inr (done ready)

/-- A handler that has nothing left to cancel ends. -/
theorem ended (held : Logged d x log) (empty : log.current ≠ none → log.toCancel = []) :
    Logged d x log.ended := by
  refine ⟨fun g l handled => ?_, fun id g found => ?_, fun g => ?_⟩
  · apply held.legs
    rcases handled with handled | current
    · rcases List.mem_append.mp handled with before | now
      · exact .inl before
      · exact .inr (Option.mem_toList.mp now)
    · cases current
  · refine (held.tied id g found).imp (fun member => member) ?_
    rintro ⟨l, handled | current⟩
    · exact ⟨l, .inl (List.mem_append_left _ handled)⟩
    · exact ⟨l, .inl (List.mem_append_right _ (Option.mem_toList.mpr current))⟩
  · rcases held.stage g with ⟨first, handled, rest⟩ | ⟨none, rest⟩
    · -- a group that had its first handler keeps it
      exact .inl ⟨first, List.mem_append_left _ handled, rest⟩
    · by_cases here : ∃ l, log.current = some (g, l)
      · -- the handler that ends is the group's first one
        obtain ⟨l, current⟩ := here
        refine .inl ⟨l, List.mem_append_right _ (Option.mem_toList.mpr current), ?_⟩
        intro k other grouped accepted
        rcases rest l current k other grouped accepted with waits | done
        · rw [empty (by rw [current]; exact Option.some_ne_none _)] at waits
          cases waits
        · exact done
      · -- the handler that ends is another group's
        refine .inr ⟨fun l handled => ?_, fun l current => by cases current⟩
        rcases List.mem_append.mp handled with before | now
        · exact none l before
        · exact here ⟨l, Option.mem_toList.mp now⟩

/-- A `FILLED` message of a leg is handed to the adapter. -/
theorem began (held : Logged d x log) (market : Market base messages d x)
    (records : Records base d) (idle : log.current = none) {g : String} {id : OrderId}
    (registered : d.broker.orderToOcaGroup.get? id = some g) (accepted : x.Accepted id)
    (spent : ¬ x.Works id) : Logged d x (log.began d id) := by
  have grouped := (records.grouped id g registered).1
  have current : (log.began d id).current = some (g, id) := by
    simp only [OcaLog.began, grouped, Option.map_some]
  have begun : ∀ {group}, Begun log group → Begun (log.began d id) group := by
    rintro group ⟨l, handled | now⟩
    · exact ⟨l, .inl handled⟩
    · rw [idle] at now
      cases now
  refine ⟨fun group l handled => ?_, fun k group found => ?_, fun group => ?_⟩
  · rcases handled with handled | now
    · exact held.legs group l (.inl handled)
    · rw [current] at now
      cases now
      exact ⟨grouped, accepted, spent⟩
  · exact (held.tied k group found).imp (fun member => member) begun
  · rcases held.stage group with handled | ⟨none, -⟩
    · -- a second `FILLED` message of the group finds its work done
      exact .inl handled
    · refine .inr ⟨none, fun l now k other same there => .inl ?_⟩
      rw [current] at now
      cases now
      -- every other accepted leg is a member, since no handler has been at work
      obtain ⟨o, listed, rfl⟩ := there
      have entered := (market.orders o listed).resolve_left
        (records.not_early (groupOf_recorded same))
      have member := (held.tied o.id g (entered.registered g same)).resolve_right (by
        rintro ⟨l, handled | now⟩
        · exact none l handled
        · rw [idle] at now
          cases now)
      simp only [OcaLog.began, BrokerState.siblings, registered]
      exact List.mem_filter.mpr ⟨member, by simpa using other⟩

/-- A `FILLED` message of an order of no group. -/
theorem began_none (held : Logged d x log) (idle : log.current = none) {id : OrderId}
    (alone : d.manager.groupOf id = none) : Logged d x (log.began d id) := by
  have current : (log.began d id).current = none := by
    simp only [OcaLog.began, alone, Option.map_none]
  have same : (log.began d id).current = log.current := current.trans idle.symm
  refine ⟨fun g l handled => ?_, fun k g found => ?_, fun g => ?_⟩
  · rw [same] at handled
    exact held.legs g l handled
  · rw [Begun, same]
    exact held.tied k g found
  · refine (held.stage g).imp (fun handled => handled) fun pending => ⟨pending.1, fun l now => ?_⟩
    rw [current] at now
    cases now

/-- The handler takes the members out of its group. -/
theorem cleared (held : Logged d x log) {g : String} {l : OrderId}
    (current : log.current = some (g, l)) :
    Logged { d with broker :=
      { d.broker with ocaGroups := d.broker.ocaGroups.set g [] } } x log := by
  refine ⟨held.legs, fun id group found => ?_, held.stage⟩
  by_cases here : group = g
  · -- the members go, but the handler has begun
    subst here
    exact .inr ⟨l, .inr current⟩
  · refine (held.tied id group found).imp (fun member => ?_) fun begun => begun
    dsimp only
    rwa [Dict.getD, Dict.get?_set_ne _ _ here]

end Logged

/-! ## The stream loop -/

section Stream

variable (p : DeskParams) {base : ℕ} {messages : List UserStreamMessage} {d d' : Desk}
  {x : Exchange} {log : OcaLog}

/-- What `_handle_oca_fill` has still to do once these are the orders left. -/
def cancelRest (g : String) (rest : List OrderId) : Coro Desk wireSig Unit := do
  Coro.forEach p.broker.cancelOrder rest
  Coro.update fun m : BrokerState => { m with ocaGroups := m.ocaGroups.set g [] }

/-- The handler of a leg of the group goes on with these orders. -/
def Cancels (log : OcaLog) (d : Desk) (g : String) (rest : List OrderId) : Prop :=
  (∃ l, log.current = some (g, l)) ∧ ∀ id ∈ rest, d.broker.orderToOcaGroup.get? id = some g

/-- Where the stream loop stands. -/
def Streaming (log : OcaLog) (task : Task Desk wireSig) (d : Desk) : Prop :=
  match task.phase with
  | .idle => log.current = none
  | .waiting .streamRecv next => next = TrackedBook.afterRecv p ∧ log.current = none
  | .answered .streamRecv _ next => next = TrackedBook.afterRecv p ∧ log.current = none
  | .waiting (.cancelOrder _ id) next => ∃ g rest, log.toCancel = id :: rest ∧
      (∀ r, next r = cancelRest p g rest) ∧ Cancels log d g (id :: rest)
  | .answered (.cancelOrder _ _) r next => ∃ g, next r = cancelRest p g log.toCancel ∧
      Cancels log d g log.toCancel
  | _ => False

theorem advance_cancelRest (g : String) {id : OrderId} (rest : List OrderId) {symbol : Symbol}
    (known : d.broker.orderSymbol.get? id = some symbol) :
    ∃ next, (cancelRest p g (id :: rest)).advance d = (.await (.cancelOrder symbol id) next, d) ∧
      ∀ r, next r = cancelRest p g rest := by
  have read : (Part.view d : BrokerState).orderSymbol.get? id = some symbol := known
  simp only [cancelRest, Coro.forEach, cancelOrder, Coro.bind_bind, Coro.advance_view_bind]
  rw [read]
  refine ⟨_, rfl, fun r => ?_⟩
  cases r with
  | ok _ => rfl
  | error _ => rfl

/-- The order is of no group, or its group is gone. -/
theorem advance_handleOcaFill_gone {id : OrderId}
    (gone : ∀ g, d.broker.orderToOcaGroup.get? id = some g → d.broker.ocaGroups.get? g = none) :
    (p.broker.handleOcaFill id).advance d = (.done (), d) := by
  simp only [handleOcaFill, Coro.advance_view_bind]
  cases registered : d.broker.orderToOcaGroup.get? id with
  | none => rfl
  | some g =>
    have found : (Part.view d : BrokerState).ocaGroups.get? g = none := gone g registered
    dsimp only
    rw [found]
    rfl

theorem advance_handleOcaFill {id : OrderId} {g : String} {group : List OrderId}
    (registered : d.broker.orderToOcaGroup.get? id = some g)
    (members : d.broker.ocaGroups.get? g = some group) :
    (p.broker.handleOcaFill id).advance d =
      (cancelRest p g (group.filter (· ≠ id))).advance d := by
  have read : (Part.view d : BrokerState).orderToOcaGroup.get? id = some g := registered
  have found : (Part.view d : BrokerState).ocaGroups.get? g = some group := members
  simp only [handleOcaFill, Coro.advance_view_bind]
  rw [read]
  dsimp only
  rw [found]
  rfl

/-- The desk, the log and the stream loop after a segment of it. -/
structure StreamOk (base : ℕ) (x : Exchange) (d : Desk) (log : OcaLog) (task : Task Desk wireSig)
    (d' : Desk) : Prop where
  records : Records base d'
  grows : Grows d d'
  logged : Logged d' x log
  streaming : Streaming p log task d'
  received : received task = []

/-- The handler goes on. -/
theorem rest_segment {g : String} (records : Records base d) (logged : Logged d x log)
    (cancels : Cancels log d g log.toCancel) (events : List (Async.Event wireSig)) :
    let after := (cancelRest p g log.toCancel).advance d
    let task : Task Desk wireSig := ⟨Phase.of after.1, events⟩
    StreamOk p base x d (log.upTo task) task after.2 := by
  obtain ⟨⟨l, current⟩, registered⟩ := cancels
  cases rest : log.toCancel with
  | nil =>
    -- no order is left: the group is emptied, and the handler ends with it
    have cleared := logged.cleared current
    refine ⟨⟨records.since, records.drawn, records.own, records.grouped, ?_⟩,
      ⟨fun _ known => ⟨known, rfl⟩, fun _ member => member, fun _ _ found => found⟩, ?_, rfl, rfl⟩
    · intro group id member
      change id ∈ Dict.getD (d.broker.ocaGroups.set g []) group [] at member
      rw [Dict.getD, Dict.get?_set] at member
      split at member
      · cases member
      · exact records.members group id member
    · exact cleared.ended fun _ => rest
  | cons id others =>
    -- the next cancel is on its way, and the loop is suspended in it
    have mine := registered id (by rw [rest]; exact List.mem_cons_self)
    obtain ⟨symbol, known⟩ := Option.ne_none_iff_exists'.mp (records.grouped id g mine).2
    obtain ⟨next, stops, goes⟩ := advance_cancelRest p g others known
    dsimp only
    rw [stops]
    refine ⟨records, .refl d, logged, ⟨g, others, rest, goes, ⟨l, current⟩, ?_⟩, rfl⟩
    rw [← rest]
    exact registered

/-- The message is of no leg, or its handling is over at once. -/
theorem quiet_segment (records : Records base d) (market : Market base messages d x)
    (logged : Logged d x log) (empty : log.current ≠ none → log.toCancel = [])
    (orderly : Orderly base d d') (events : List (Async.Event wireSig)) :
    StreamOk p base x d (log.upTo ⟨.idle, events⟩) ⟨.idle, events⟩ d' := by
  obtain ⟨records', grows, joins⟩ := orderly records
  exact ⟨records', grows, (logged.ended empty).grows market records' grows joins, rfl, rfl⟩

theorem groupOf_early {id : OrderId} (records : Records base d) (early : Early base id) :
    d.manager.groupOf id = none := by
  by_contra grouped
  obtain ⟨g, grouped⟩ := Option.ne_none_iff_exists'.mp grouped
  exact records.not_early (groupOf_recorded grouped) early

/-- The adapter handles the `FILLED` message of an order. -/
theorem handler_segment {id : OrderId} {symbol : Symbol} (records : Records base d)
    (market : Market base messages d x) (logged : Logged d x log) (idle : log.current = none)
    (known : Early base id ∨ Entered d id symbol ∧ x.Accepted id ∧ ¬ x.Works id)
    (events : List (Async.Event wireSig)) :
    let after := (p.broker.handleOcaFill id).advance d
    let task : Task Desk wireSig := ⟨Phase.of after.1, events⟩
    StreamOk p base x d ((log.began d id).upTo task) task after.2 := by
  cases registered : d.broker.orderToOcaGroup.get? id with
  | none =>
    -- the adapter registers every order of a group before it sends it
    have alone : d.manager.groupOf id = none := by
      rcases known with early | ⟨entered, -, -⟩
      · exact groupOf_early records early
      · by_contra grouped
        obtain ⟨g, grouped⟩ := Option.ne_none_iff_exists'.mp grouped
        rw [entered.registered g grouped] at registered
        cases registered
    dsimp only
    rw [advance_handleOcaFill_gone p (by simp [registered])]
    apply quiet_segment p records market (logged.began_none idle alone) _ (.refl d)
    intro _
    simp only [OcaLog.began, BrokerState.siblings, registered]
  | some g =>
    -- a registered order is this process's own, so that its report says that it is spent
    have recorded := groupOf_recorded (records.grouped id g registered).1
    obtain ⟨-, accepted, spent⟩ := known.resolve_left (records.not_early recorded)
    have began := logged.began market records idle registered accepted spent
    cases members : d.broker.ocaGroups.get? g with
    | none =>
      dsimp only
      rw [advance_handleOcaFill_gone p (by simp [registered, members])]
      apply quiet_segment p records market began _ (.refl d)
      intro _
      simp only [OcaLog.began, BrokerState.siblings, registered, Dict.getD, members]
      rfl
    | some group =>
      have siblings : (log.began d id).toCancel = group.filter (· ≠ id) := by
        simp only [OcaLog.began, BrokerState.siblings, registered, Dict.getD, members]
        rfl
      dsimp only
      rw [advance_handleOcaFill p registered members, ← siblings]
      apply rest_segment p records began
      refine ⟨⟨id, ?_⟩, fun k member => ?_⟩
      · simp only [OcaLog.began, (records.grouped id g registered).1, Option.map_some]
      · rw [siblings] at member
        apply records.members g k
        rw [Dict.getD, members]
        exact (List.mem_filter.mp member).1

theorem advance_other (base : ℕ) (d : Desk) {o : OrderTradeUpdate} (other : o.execType = .other) :
    ∃ d', (p.broker.handleUserStreamMessage (.orderTradeUpdate o)).advance d = (.done (), d') ∧
      Orderly base d d' := by
  simp only [handleUserStreamMessage, other, Coro.advance_view_bind]
  cases o.status.orderStatus with
  | none => exact ⟨d, rfl, .refl d⟩
  | some status => exact ⟨_, rfl, .put d _⟩

/-- The adapter is handed an update. -/
theorem update_segment {o : OrderTradeUpdate} (records : Records base d)
    (market : Market base messages d x) (mine : .orderTradeUpdate o ∈ messages)
    (logged : Logged d x log) (idle : log.current = none)
    (events : List (Async.Event wireSig)) :
    let after := (p.broker.handleUserStreamMessage (.orderTradeUpdate o)).advance d
    let task : Task Desk wireSig := ⟨Phase.of after.1, events⟩
    let noted := if o.execType = .trade ∧ o.status = .filled then
      log.began d o.clientOrderId else log
    StreamOk p base x d (noted.upTo task) task after.2 := by
  have known := market.filled o (List.mem_append_left _ mine)
  have still : log.current ≠ none → log.toCancel = [] := fun some => absurd idle some
  cases trade : o.execType with
  | other =>
    -- an update that is no trade only changes the status queue
    obtain ⟨d', after, orderly⟩ := advance_other p base d trade
    dsimp only
    rw [after, if_neg (by simp)]
    exact quiet_segment p records market logged still orderly events
  | trade =>
    cases loaded : d.broker.filters.get? o.symbol with
    | none =>
      dsimp only
      rw [TrackedBook.advance_unloaded p trade loaded]
      by_cases filled : o.status = .filled
      · -- a leg's filters are loaded
        have early : Early base o.clientOrderId := by
          refine (known trade filled).resolve_right ?_
          rintro ⟨entered, -, -⟩
          exact (Dict.get?_eq_none_iff _ _).mp loaded entered.loaded
        have alone := groupOf_early records early
        rw [if_pos ⟨rfl, filled⟩]
        apply quiet_segment p records market (logged.began_none idle alone) _ (.refl d)
        intro some
        simp only [OcaLog.began, alone, Option.map_none, ne_eq, not_true] at some
      · rw [if_neg fun both => filled both.2]
        exact quiet_segment p records market logged still (.refl d) events
    | some filt =>
      dsimp only
      rw [TrackedBook.advance_trade p trade loaded (records.own.getD o.clientOrderId)]
      -- the execution is put into the event queue before the group is looked at
      have put : Orderly base d { d with
          broker := d.broker.put (.execution (executionEvent filt o.clientOrderId o)) } :=
        .put d _
      by_cases filled : o.status = .filled
      · obtain ⟨records', grows, joins⟩ := put records
        have handled := handler_segment p records' (market.grows grows)
          (logged.grows market records' grows joins) idle
          ((known trade filled).imp id fun known => ⟨known.1.grows grows, known.2⟩) events
        rw [if_pos ⟨rfl, filled⟩, filled]
        exact ⟨handled.records, grows.trans handled.grows, handled.logged, handled.streaming,
          handled.received⟩
      · have skipped : (decide (o.status = .filled)) = false := decide_eq_false filled
        rw [if_neg fun both => filled both.2, skipped]
        exact quiet_segment p records market logged still put events

end Stream

/-! ## The tasks between two segments -/

section Tasks

variable {p : DeskParams} {rules : ExchangeRules} {base : ℕ} {d d' : Desk} {log log' : OcaLog}
  {task : Task Desk wireSig}

/-- A plain order that is sent is entered, and any other has an id of its own. -/
structure Sent (rules : ExchangeRules) (d : Desk) (q : WireReq) : Prop where
  plain : ∀ params, q = .createOrder params →
    Exchange.wireLots rules params.symbol params.order ≠ none →
      Entered d params.newClientOrderId params.symbol
  native : ∀ params, q = .createOrder params →
    Exchange.wireLots rules params.symbol params.order = none →
      ∃ symbol ms, params.newClientOrderId = .native symbol ms

/-- Suspended or not, the task keeps the groups. -/
def GroupTask (rules : ExchangeRules) (base : ℕ) (task : Task Desk wireSig) (d : Desk) : Prop :=
  match task.phase with
  | .idle => True
  | .waiting q next => (q ≠ .streamRecv ∧ Sent rules d q) ∧ ∀ r d', Records base d' →
      Grows d d' → (next r).Obeys (ocaContract rules base) (fun _ => Since base) d' d'
  | .answered _ r next => ∀ d', Records base d' → Grows d d' →
      (next r).Obeys (ocaContract rules base) (fun _ => Since base) d' d'

/-- The plain order that the task has sent and that has not been served. -/
def sending (rules : ExchangeRules) (task : Task Desk wireSig) : Option OrderId :=
  match task.phase with
  | .waiting (.createOrder params) _ =>
    (Exchange.wireLots rules params.symbol params.order).map fun _ => params.newClientOrderId
  | _ => none

theorem Sent.grows {q : WireReq} (sent : Sent rules d q) (grows : Grows d d') :
    Sent rules d' q :=
  ⟨fun params same plain => (sent.plain params same plain).grows grows, sent.native⟩

theorem GroupTask.grows (held : GroupTask rules base task d) (grows : Grows d d') :
    GroupTask rules base task d' := by
  obtain ⟨phase, events⟩ := task
  cases phase with
  | idle => trivial
  | waiting q next =>
    obtain ⟨⟨other, sent⟩, goes⟩ := held
    exact ⟨⟨other, sent.grows grows⟩, fun r d'' records later =>
      goes r d'' records (grows.trans later)⟩
  | answered q r next => exact fun d'' records later => held d'' records (grows.trans later)

theorem Cancels.grows {g : String} {rest : List OrderId} (held : Cancels log d g rest)
    (grows : Grows d d') : Cancels log d' g rest :=
  ⟨held.1, fun id member => grows.groups id g (held.2 id member)⟩

/-- The stream loop notices nothing of what others do. -/
theorem Streaming.grows (held : Streaming p log task d) (grows : Grows d d') :
    Streaming p log task d' := by
  obtain ⟨phase, events⟩ := task
  cases phase with
  | idle => exact held
  | waiting q next =>
    cases q with
    | streamRecv => exact held
    | cancelOrder symbol id =>
      obtain ⟨g, rest, left, goes, cancels⟩ := held
      exact ⟨g, rest, left, goes, cancels.grows grows⟩
    | _ => cases held
  | answered q r next =>
    cases q with
    | streamRecv => exact held
    | cancelOrder symbol id =>
      obtain ⟨g, goes, cancels⟩ := held
      exact ⟨g, goes, cancels.grows grows⟩
    | _ => cases held

theorem Streaming.noted (held : Streaming p log task d) (current : log'.current = log.current)
    (toCancel : log'.toCancel = log.toCancel) : Streaming p log' task d := by
  obtain ⟨phase, events⟩ := task
  cases phase with
  | idle => exact current.trans held
  | waiting q next =>
    cases q with
    | streamRecv => exact ⟨held.1, current.trans held.2⟩
    | cancelOrder symbol id =>
      obtain ⟨g, rest, left, goes, ⟨l, leg⟩, registered⟩ := held
      exact ⟨g, rest, toCancel.trans left, goes, ⟨l, current.trans leg⟩, registered⟩
    | _ => cases held
  | answered q r next =>
    cases q with
    | streamRecv => exact ⟨held.1, current.trans held.2⟩
    | cancelOrder symbol id =>
      obtain ⟨g, goes, ⟨l, leg⟩, registered⟩ := held
      rw [← toCancel] at goes registered
      exact ⟨g, goes, ⟨l, current.trans leg⟩, registered⟩
    | _ => cases held

/-- An idle stream loop has nothing in its hands. -/
theorem Streaming.upTo {x : Exchange} (held : Streaming p log task d) (logged : Logged d x log) :
    Logged d x (log.upTo task) ∧ Streaming p (log.upTo task) task d := by
  obtain ⟨phase, events⟩ := task
  cases phase with
  | idle => exact ⟨logged.ended fun some => absurd held some, rfl⟩
  | waiting q next => exact ⟨logged, held⟩
  | answered q r next => exact ⟨logged, held⟩

theorem Streaming.sending (held : Streaming p log task d) : sending rules task = none := by
  obtain ⟨phase, events⟩ := task
  cases phase with
  | waiting q next =>
    cases q with
    | createOrder params => cases held
    | _ => rfl
  | _ => rfl

/-- What a task sends that is not the stream loop is recorded. -/
theorem GroupTask.sending (held : GroupTask rules base task d) {id : OrderId}
    (sends : sending rules task = some id) : d.manager.getOrder id ≠ none := by
  obtain ⟨phase, events⟩ := task
  cases phase with
  | waiting q next =>
    cases q with
    | createOrder params =>
      obtain ⟨lots, plain, rfl⟩ := Option.map_eq_some_iff.mp sends
      refine (held.1.2.plain params rfl ?_).recorded
      rw [plain]
      exact Option.some_ne_none lots
    | _ => cases sends
  | _ => cases sends

/-- A segment of a task that is not the stream loop. -/
theorem group_segment {c : Coro Desk wireSig Unit}
    (obeys : c.Obeys (ocaContract rules base) (fun _ => Since base) d d)
    (events : List (Async.Event wireSig)) :
    let after := c.advance d
    let task : Task Desk wireSig := ⟨Phase.of after.1, events⟩
    Orderly base d after.2 ∧ GroupTask rules base task after.2 ∧
      ∀ id, OcaDesk.sending rules task = some id →
        after.2.manager.getOrder id ≠ none ∧ d.manager.getOrder id = none := by
  refine ⟨Coro.Obeys.advance_guar (Orderly base) Orderly.refl Orderly.trans id obeys, ?_⟩
  have after := Coro.Obeys.advance obeys
  cases stand : (c.advance d).1 with
  | await q next =>
    rw [stand] at after
    obtain ⟨⟨other, sends⟩, goes⟩ := after
    refine ⟨⟨⟨other, fun params same plain => (sends.plain params same plain).1, sends.native⟩,
      fun r d' records grows => goes r d' d' ⟨rfl, records, grows⟩⟩, fun id sent => ?_⟩
    cases q with
    | createOrder params =>
      obtain ⟨lots, plain, rfl⟩ := Option.map_eq_some_iff.mp sent
      obtain ⟨entered, fresh⟩ := sends.plain params rfl (by rw [plain]; exact Option.some_ne_none _)
      exact ⟨entered.recorded, fresh⟩
    | _ => cases sent
  | done a => exact ⟨trivial, fun id sent => by cases sent⟩
  | fail e => exact ⟨trivial, fun id sent => by cases sent⟩
  | get next => exact ⟨trivial, fun id sent => by cases sent⟩
  | put t next => exact ⟨trivial, fun id sent => by cases sent⟩

end Tasks

/-! ## Whole steps -/

section Noted

variable {w : TradingWorld} {log : OcaLog} {i : TradingTask} {q : WireReq}
  {next : Answer wireSig q → Coro Desk wireSig Unit}

theorem noted_serve_cancel {symbol : Symbol} {id : OrderId} (service : Service)
    {next : Answer wireSig (.cancelOrder symbol id) → Coro Desk wireSig Unit}
    (waiting : (w.task i).phase = .waiting (.cancelOrder symbol id) next) :
    log.noted w (.serve i service) = log.asked w.outside i id := by
  simp only [OcaLog.noted, filledOrder, cancelServed, TrackedBook.pending_of_waiting waiting]

/-- Of the requests that are served, the log takes the cancels. -/
theorem noted_serve (service : Service) (waiting : (w.task i).phase = .waiting q next)
    (other : ∀ symbol id, q ≠ .cancelOrder symbol id) : log.noted w (.serve i service) = log := by
  simp only [OcaLog.noted, filledOrder, cancelServed, TrackedBook.pending_of_waiting waiting]
  cases q with
  | cancelOrder symbol id => exact absurd rfl (other symbol id)
  | _ => rfl

theorem noted_resume_other (other : i ≠ .stream) : log.noted w (.resume i) = log := by
  cases i with
  | stream => exact absurd rfl other
  | _ => rfl

/-- Of the answers that are handed over, the log takes the messages. -/
theorem noted_resume {r : Answer wireSig q} (answered : (w.task .stream).phase = .answered q r next)
    (other : q ≠ .streamRecv) : log.noted w (.resume .stream) = log := by
  simp only [OcaLog.noted, filledOrder, cancelServed, answered]
  cases q with
  | streamRecv => exact absurd rfl other
  | _ => rfl

end Noted

section Steps

variable {p : DeskParams} {rules : ExchangeRules} {base : ℕ} {t : OcaDesk}

/-- Between two segments. -/
structure Inv (p : DeskParams) (rules : ExchangeRules) (base : ℕ) (t : OcaDesk) : Prop where
  records : Records base t.world.memory
  market : Market base (received (t.world.task .stream)) t.world.memory t.world.outside
  logged : Logged t.world.memory t.world.outside t.log
  stream : Streaming p t.log (t.world.task .stream) t.world.memory
  tasks : ∀ i, i ≠ .stream → GroupTask rules base (t.world.task i) t.world.memory
  fresh : ∀ i id, sending rules (t.world.task i) = some id → ¬ t.world.outside.Accepted id
  apart : ∀ i j id, sending rules (t.world.task i) = some id →
    sending rules (t.world.task j) = some id → i = j

/-- What a task sends is recorded, whichever it is. -/
theorem Inv.sends (held : Inv p rules base t) {i : TradingTask} {id : OrderId}
    (sent : sending rules (t.world.task i) = some id) :
    t.world.memory.manager.getOrder id ≠ none := by
  by_cases stream : i = .stream
  · subst stream
    rw [held.stream.sending] at sent
    cases sent
  · exact (held.tasks i stream).sending sent

/-- An order that the exchange has accepted is known to it or to the manager. -/
theorem Market.known {messages : List UserStreamMessage} {d : Desk} {x : Exchange} {id : OrderId}
    (market : Market base messages d x) (accepted : x.Accepted id) :
    Early base id ∨ d.manager.getOrder id ≠ none := by
  obtain ⟨o, member, rfl⟩ := accepted
  exact (market.orders o member).imp (fun early => early) fun entered => entered.recorded

/-- A task that is not the stream loop moves. -/
theorem Inv.segment (held : Inv p rules base t) {i : TradingTask} (other : i ≠ .stream)
    {c : Coro Desk wireSig Unit}
    (obeys : c.Obeys (ocaContract rules base) (fun _ => Since base) t.world.memory t.world.memory)
    (events : List (Async.Event wireSig)) :
    Inv p rules base
      ⟨t.world.segment i c events, t.log.upTo ((t.world.segment i c events).task .stream)⟩ := by
  obtain ⟨orderly, task, sends⟩ := group_segment obeys events
  obtain ⟨records, grows, joins⟩ := orderly held.records
  have stream : (t.world.segment i c events).task .stream = t.world.task .stream :=
    World.segment_ne _ _ _ (Ne.symm other)
  have logged := held.logged.grows held.market records grows joins
  obtain ⟨settled, streaming⟩ := (held.stream.grows grows).upTo logged
  rw [← stream] at settled streaming
  -- an order that is sent now was recorded in this segment
  have new : ∀ {id}, sending rules ((t.world.segment i c events).task i) = some id →
      (t.world.segment i c events).memory.manager.getOrder id ≠ none ∧
        t.world.memory.manager.getOrder id = none := by
    intro id sent
    rw [World.segment_same] at sent
    exact sends id sent
  have old : ∀ {j id}, j ≠ i → sending rules ((t.world.segment i c events).task j) = some id →
      sending rules (t.world.task j) = some id := by
    intro j id distinct sent
    rwa [World.segment_ne _ _ _ distinct] at sent
  refine ⟨records, ?_, settled, streaming, fun j distinct => ?_, fun j id sent => ?_, ?_⟩
  · change Market base (received ((t.world.segment i c events).task .stream)) _ _
    rw [stream]
    exact held.market.grows grows
  · by_cases same : j = i
    · subst same
      change GroupTask rules base ((t.world.segment j c events).task j) _
      rw [World.segment_same]
      exact task
    · change GroupTask rules base ((t.world.segment i c events).task j) _
      rw [World.segment_ne _ _ _ same]
      exact (held.tasks j distinct).grows grows
  · by_cases same : j = i
    · subst same
      -- the exchange has accepted only what was recorded before
      intro accepted
      rcases held.market.known accepted with early | known
      · exact records.not_early (new sent).1 early
      · exact known (new sent).2
    · exact held.fresh j id (old same sent)
  · intro j k id first second
    by_cases same : j = i
    · by_cases same' : k = i
      · exact same.trans same'.symm
      · subst same
        -- one id is new to the manager, and the other is not
        exact absurd (new first).2 (held.sends (old same' second))
    · by_cases same' : k = i
      · subst same'
        exact absurd (new second).2 (held.sends (old same first))
      · exact held.apart j k id (old same first) (old same' second)

/-- The orders on their way are not accepted by a step that accepts none. -/
theorem Inv.still (held : Inv p rules base t) {y : Exchange} (fewer : Fewer t.world.outside y)
    (j : TradingTask) (id : OrderId) (sent : sending rules (t.world.task j) = some id) :
    ¬ y.Accepted id := fun accepted => held.fresh j id sent ((fewer.accepted id).mp accepted)

/-- The stream loop comes to stand elsewhere. -/
theorem Inv.turned (held : Inv p rules base t) {task : Task Desk wireSig} {d : Desk}
    {y : Exchange} {log : OcaLog} (records : Records base d) (grows : Grows t.world.memory d)
    (fewer : Fewer t.world.outside y) (market : Market base (received task) d y)
    (logged : Logged d y log) (streaming : Streaming p log task d) :
    Inv p rules base
      ⟨{ t.world.setTask .stream task with memory := d, outside := y }, log⟩ := by
  have others : ∀ {i}, i ≠ .stream → (t.world.setTask .stream task).task i = t.world.task i :=
    fun other => World.setTask_ne _ _ other
  -- the loop itself sends no order
  have sends : ∀ {i id}, sending rules ((t.world.setTask .stream task).task i) = some id →
      sending rules (t.world.task i) = some id := by
    intro i id sent
    by_cases stream : i = .stream
    · subst stream
      rw [World.setTask_same, streaming.sending] at sent
      cases sent
    · rwa [others stream] at sent
  refine ⟨records, ?_, logged, ?_, fun i other => ?_, fun i id sent => ?_, ?_⟩
  · change Market base (received ((t.world.setTask .stream task).task .stream)) _ _
    rw [World.setTask_same]
    exact market
  · change Streaming p log ((t.world.setTask .stream task).task .stream) _
    rw [World.setTask_same]
    exact streaming
  · change GroupTask rules base ((t.world.setTask .stream task).task i) _
    rw [others other]
    exact (held.tasks i other).grows grows
  · exact held.still fewer i id (sends sent)
  · exact fun i j id first second => held.apart i j id (sends first) (sends second)

/-- The stream loop moves. -/
theorem Inv.streamed (held : Inv p rules base t) {c : Coro Desk wireSig Unit}
    {events : List (Async.Event wireSig)} {log : OcaLog}
    (ok : StreamOk p base t.world.outside t.world.memory
      (log.upTo ⟨Phase.of (c.advance t.world.memory).1, events⟩)
      ⟨Phase.of (c.advance t.world.memory).1, events⟩ (c.advance t.world.memory).2) :
    Inv p rules base ⟨t.world.segment .stream c events,
      log.upTo ((t.world.segment .stream c events).task .stream)⟩ := by
  rw [World.segment_same]
  refine held.turned ok.records ok.grows (.refl _) ?_ ok.logged ok.streaming
  rw [ok.received]
  exact held.market.lost.grows ok.grows

/-- A request of a task that is not the stream loop has been served. -/
theorem Inv.served (held : Inv p rules base t) {i : TradingTask} (other : i ≠ .stream)
    {q : WireReq} {r : Answer wireSig q} {next : Answer wireSig q → Coro Desk wireSig Unit}
    (waiting : (t.world.task i).phase = .waiting q next) {y : Exchange} {log : OcaLog}
    (market : Market base (received (t.world.task .stream)) t.world.memory y)
    (logged : Logged t.world.memory y log) (current : log.current = t.log.current)
    (toCancel : log.toCancel = t.log.toCancel)
    (fresh : ∀ j id, j ≠ i → sending rules (t.world.task j) = some id → ¬ y.Accepted id) :
    Inv p rules base ⟨{ t.world.setTask i ⟨.answered q r next, (t.world.task i).log⟩ with
        outside := y },
      log.upTo ((t.world.setTask i ⟨.answered q r next, (t.world.task i).log⟩).task .stream)⟩ := by
  have stream : (t.world.setTask i ⟨.answered q r next, (t.world.task i).log⟩).task .stream =
      t.world.task .stream := World.setTask_ne _ _ (Ne.symm other)
  obtain ⟨settled, streaming⟩ := (held.stream.noted current toCancel).upTo logged
  rw [← stream] at settled streaming
  -- the task that is answered sends nothing any more
  have sends : ∀ {j id}, sending rules
      ((t.world.setTask i ⟨.answered q r next, (t.world.task i).log⟩).task j) = some id →
        j ≠ i ∧ sending rules (t.world.task j) = some id := by
    intro j id sent
    by_cases same : j = i
    · subst same
      rw [World.setTask_same] at sent
      cases sent
    · rw [World.setTask_ne _ _ same] at sent
      exact ⟨same, sent⟩
  refine ⟨held.records, ?_, settled, streaming, fun j distinct => ?_, fun j id sent => ?_, ?_⟩
  · change Market base (received ((t.world.setTask i _).task .stream)) _ _
    rw [stream]
    exact market
  · change GroupTask rules base ((t.world.setTask i _).task j) _
    have task := held.tasks j distinct
    by_cases same : j = i
    · subst same
      rw [GroupTask, waiting] at task
      rw [World.setTask_same]
      exact fun d' records grows => task.2 r d' records grows
    · rw [World.setTask_ne _ _ same]
      exact task
  · exact fresh j id (sends sent).1 (sends sent).2
  · exact fun j k id first second => held.apart j k id (sends first).2 (sends second).2

/-- Another task's request is served. -/
theorem serve_other (held : Inv p rules base t) {i : TradingTask} (other : i ≠ .stream)
    {service : Service} {q : WireReq} {next : Answer wireSig q → Coro Desk wireSig Unit}
    (waiting : (t.world.task i).phase = .waiting q next)
    (inTime : t.ServedInTime i service (some q)) :
    Inv p rules base ⟨{ t.world.setTask i
          ⟨.answered q (t.world.outside.serve rules service q).1 next, (t.world.task i).log⟩ with
        outside := (t.world.outside.serve rules service q).2 },
      (t.log.noted t.world (.serve i service)).upTo ((t.world.setTask i
        ⟨.answered q (t.world.outside.serve rules service q).1 next,
          (t.world.task i).log⟩).task .stream)⟩ := by
  have task := held.tasks i other
  rw [GroupTask, waiting] at task
  obtain ⟨⟨unlistening, sent⟩, -⟩ := task
  -- any request but an order leaves the exchange with the orders that it has
  have settled : (∀ params, q ≠ .createOrder params) →
      Settles t.world.outside (t.world.outside.serve rules service q).2 :=
    settles_serve _ service unlistening
  cases q with
  | createOrder params =>
    rw [noted_serve service waiting (by simp)]
    cases acts : service.acts with
    | false =>
      -- a request that does not take effect leaves everything as it was
      simp only [Exchange.serve, acts]
      exact held.served other waiting held.market held.logged rfl rfl
        fun j id _ => held.fresh j id
    | true =>
      simp only [Exchange.serve, acts, if_true, Exchange.act]
      cases plain : Exchange.wireLots rules params.symbol params.order with
      | none =>
        -- a native stop is none of the exchange's orders
        have fewer : Fewer t.world.outside (t.world.outside.accept rules params) := by
          simp only [Exchange.accept, plain]
          exact .refl t.world.outside
        exact held.served other waiting (held.market.acceptStop plain (sent.native params rfl plain))
          (held.logged.fewer fewer) rfl rfl fun j id _ => held.still fewer j id
      | some lots =>
        -- the plain order was on its way, so that its id is new to the exchange
        have mine : sending rules (t.world.task i) = some params.newClientOrderId := by
          rw [sending, waiting]
          simp only [plain, Option.map_some]
        have fresh := held.fresh i _ mine
        have entered := sent.plain params rfl (by rw [plain]; exact Option.some_ne_none lots)
        refine held.served other waiting (held.market.accept plain entered fresh)
          (held.logged.accept plain fresh (inTime acts)) rfl rfl fun j id distinct sends => ?_
        -- no two tasks have the same id on its way
        rintro ⟨o, member, rfl⟩
        simp only [Exchange.accept, plain] at member
        rcases List.mem_append.mp member with old | new
        · exact held.fresh j o.id sends ⟨o, old, rfl⟩
        · rw [List.mem_singleton.mp new] at sends
          exact distinct (held.apart j i _ sends mine)
  | cancelOrder symbol id =>
    have settles := settled (by simp)
    rw [noted_serve_cancel service waiting]
    apply held.served other waiting (held.market.settles settles)
      (held.logged.asked settles.orders i id fun mine => absurd mine other)
    · rfl
    · simp only [OcaLog.asked, if_neg other]
    · exact fun j id _ => held.still settles.orders j id
  | streamRecv => exact absurd rfl unlistening
  | _ =>
    have settles := settled (by simp)
    rw [noted_serve service waiting (by simp)]
    exact held.served other waiting (held.market.settles settles) (held.logged.settles settles)
      rfl rfl fun j id _ => held.still settles.orders j id

/-- A request of the stream loop has been served. -/
theorem Inv.answered (held : Inv p rules base t) {q : WireReq} {r : Answer wireSig q}
    {next : Answer wireSig q → Coro Desk wireSig Unit} {events : List (Async.Event wireSig)}
    {y : Exchange} {log : OcaLog} (fewer : Fewer t.world.outside y)
    (market : Market base (received ⟨.answered q r next, events⟩) t.world.memory y)
    (logged : Logged t.world.memory y log)
    (streaming : Streaming p log ⟨.answered q r next, events⟩ t.world.memory) :
    Inv p rules base
      ⟨{ t.world.setTask .stream ⟨.answered q r next, events⟩ with outside := y },
        log.upTo ((t.world.setTask .stream ⟨.answered q r next, events⟩).task .stream)⟩ := by
  rw [World.setTask_same]
  exact held.turned held.records (.refl _) fewer market logged streaming

/-- The call for a message returns one, or raises. -/
theorem market_recv {d : Desk} {x : Exchange} (held : Market base [] d x) (service : Service)
    (next : Answer wireSig .streamRecv → Coro Desk wireSig Unit)
    (events : List (Async.Event wireSig)) :
    Market base (received ⟨.answered .streamRecv (x.serve rules service .streamRecv).1 next, events⟩)
      d (x.serve rules service .streamRecv).2 := by
  cases acts : service.acts with
  | false =>
    simp only [Exchange.serve, acts]
    exact held
  | true =>
    simp only [Exchange.serve, acts, if_true, Exchange.act]
    have given := held.given
    cases raises : service.raises with
    | none => exact given
    | some e => exact given.lost

/-- The stream loop's request is served. -/
theorem serve_stream (held : Inv p rules base t) {service : Service} {q : WireReq}
    {next : Answer wireSig q → Coro Desk wireSig Unit}
    (waiting : (t.world.task .stream).phase = .waiting q next)
    (inTime : t.ServedInTime .stream service (some q)) :
    Inv p rules base ⟨{ t.world.setTask .stream
          ⟨.answered q (t.world.outside.serve rules service q).1 next,
            (t.world.task .stream).log⟩ with
        outside := (t.world.outside.serve rules service q).2 },
      (t.log.noted t.world (.serve .stream service)).upTo ((t.world.setTask .stream
        ⟨.answered q (t.world.outside.serve rules service q).1 next,
          (t.world.task .stream).log⟩).task .stream)⟩ := by
  have streaming := held.stream
  have market := held.market
  rw [Streaming, waiting] at streaming
  rw [received, waiting] at market
  cases q with
  | streamRecv =>
    have fewer : Fewer t.world.outside (t.world.outside.serve rules service .streamRecv).2 := by
      rw [Exchange.serve]
      split
      · exact .refl t.world.outside
      · exact .refl t.world.outside
    rw [noted_serve service waiting (by simp)]
    exact held.answered fewer (market_recv market service next _) (held.logged.fewer fewer)
      streaming
  | cancelOrder symbol id =>
    have settles : Settles t.world.outside
        (t.world.outside.serve rules service (.cancelOrder symbol id)).2 :=
      settles_serve _ service (by simp) (by simp)
    -- the cancel takes effect, or the order had stopped working already
    have spent : ¬ (t.world.outside.serve rules service (.cancelOrder symbol id)).2.Works id := by
      rcases inTime rfl with acts | idle
      · simp only [Exchange.serve, acts, if_true, Exchange.act]
        exact not_works_cancelled t.world.outside id
      · exact fun works => idle (settles.orders.works works)
    obtain ⟨g, rest, left, goes, cancels⟩ := streaming
    have erased : (t.log.asked t.world.outside .stream id).toCancel = rest := by
      simp only [OcaLog.asked, if_true, left, List.erase_cons_head]
    rw [noted_serve_cancel service waiting]
    refine held.answered settles.orders ?_
      (held.logged.asked settles.orders .stream id fun _ => spent) ⟨g, ?_, cancels.1, ?_⟩
    · have none : Market base [] t.world.memory t.world.outside := market
      exact none.settles settles
    · rw [erased]
      exact goes _
    · rw [erased]
      exact fun k member => cancels.2 k (List.mem_cons_of_mem id member)
  | _ => cases streaming

/-- Nothing moves but the memory and the exchange. -/
theorem Inv.drifted (held : Inv p rules base t) {d : Desk} {y : Exchange} (records : Records base d)
    (grows : Grows t.world.memory d) (joins : Joins t.world.memory d)
    (fewer : Fewer t.world.outside y)
    (market : Market base (received (t.world.task .stream)) d y) :
    Inv p rules base ⟨{ t.world with memory := d, outside := y },
      t.log.upTo (t.world.task .stream)⟩ := by
  have logged := (held.logged.grows held.market records grows joins).fewer fewer
  obtain ⟨settled, streaming⟩ := (held.stream.grows grows).upTo logged
  refine ⟨records, market, settled, streaming, fun i other => ?_, held.still fewer, held.apart⟩
  exact (held.tasks i other).grows grows

theorem move_inv (held : Inv p rules base t) {m : Exchange.Move} {y : Exchange}
    (moved : t.world.outside.move rules m = some y) :
    Inv p rules base ⟨{ t.world with outside := y }, t.log.upTo (t.world.task .stream)⟩ := by
  have outside : Market base (received (t.world.task .stream)) t.world.memory y →
      Inv p rules base ⟨{ t.world with outside := y }, t.log.upTo (t.world.task .stream)⟩ :=
    held.drifted held.records (.refl _) (fun _ _ joined => joined) (move_fewer moved)
  cases m with
  | fill id lots detail =>
    simp only [Exchange.move, Option.bind_eq_some_iff] at moved
    obtain ⟨o, found, filled⟩ := moved
    split at filled
    · cases filled
      obtain ⟨member, -, works⟩ :=
        (t.world.outside.mem_working _ _).mp (t.world.outside.findWorking_spec found)
      exact outside (held.market.fill member works lots detail)
    · cases filled
  | trigger id detail =>
    obtain ⟨stop, found, rfl⟩ := Option.map_eq_some_iff.mp moved
    exact outside (held.market.trigger (List.mem_of_find?_eq_some found) detail)
  | expire id =>
    cases moved
    exact outside (held.market.settles (settles_endOrders _ _ _ _ (by simp)))
  | cancel id =>
    cases moved
    exact outside (held.market.settles (settles_endOrders _ _ _ _ (by simp)))

theorem drift_inv (held : Inv p rules base t) {move : TradingMove} {d : Desk} {y : Exchange}
    (moved : tradingDrift rules t.world.memory t.world.outside move = some (d, y)) :
    Inv p rules base ⟨{ t.world with memory := d, outside := y },
      t.log.upTo (t.world.task .stream)⟩ := by
  have memory : Orderly base t.world.memory d → y = t.world.outside →
      Inv p rules base ⟨{ t.world with memory := d, outside := y },
        t.log.upTo (t.world.task .stream)⟩ := by
    rintro orderly rfl
    obtain ⟨records, grows, joins⟩ := orderly held.records
    exact held.drifted records grows joins (.refl _) (held.market.grows grows)
  cases move with
  | exchange m =>
    obtain ⟨x, happened, same⟩ := Option.map_eq_some_iff.mp moved
    cases same
    exact move_inv held happened
  | load symbol =>
    cases moved
    refine memory (fun records => ⟨?_, ?_, fun _ _ joined => joined⟩) rfl
    · exact ⟨records.since, records.drawn, records.own, records.grouped, records.members⟩
    · exact ⟨fun _ known => ⟨known, rfl⟩, fun s member => (Dict.mem_keys_set _ _ _ _).mpr
        (.inr member), fun _ _ found => found⟩
  | publish event =>
    cases event with
    | order event => cases moved
    | _ =>
      cases moved
      exact memory (.elsewhere le_rfl rfl rfl) rfl
  | clock clock =>
    cases moved
    exact memory (.elsewhere le_rfl rfl rfl) rfl

theorem start_inv (held : Inv p rules base t) {i : TradingTask} {command : TradingCommand}
    {c : Coro Desk wireSig Unit} (idle : (t.world.task i).phase = .idle)
    (found : p.tradingBody i command = some c) (events : List (Async.Event wireSig)) :
    Inv p rules base ⟨t.world.segment i c events,
      t.log.upTo ((t.world.segment i c events).task .stream)⟩ := by
  by_cases stream : i = .stream
  · subst stream
    -- the stream loop has one command, which asks for the next message
    have none := held.stream
    rw [Streaming, idle] at none
    cases command with
    | receive =>
      cases found
      apply held.streamed
      rw [TrackedBook.advance_receive]
      exact ⟨held.records, .refl _, held.logged, ⟨rfl, none⟩, rfl⟩
    | _ => cases found
  · exact held.segment stream
      (groups_body p stream found _ _ ⟨held.records, .refl _⟩) events

theorem resume_inv (held : Inv p rules base t) {i : TradingTask} {q : WireReq}
    {r : Answer wireSig q} {next : Answer wireSig q → Coro Desk wireSig Unit}
    (answered : (t.world.task i).phase = .answered q r next)
    (events : List (Async.Event wireSig)) :
    Inv p rules base ⟨t.world.segment i (next r) events,
      (t.log.noted t.world (.resume i)).upTo
        ((t.world.segment i (next r) events).task .stream)⟩ := by
  by_cases stream : i = .stream
  · subst stream
    have streaming := held.stream
    have market := held.market
    rw [Streaming, answered] at streaming
    rw [received, answered] at market
    cases q with
    | streamRecv =>
      -- the loop asked for a message: it gets one, or the call raises
      obtain ⟨rfl, idle⟩ := streaming
      have still : t.log.current ≠ none → t.log.toCancel = [] := fun some => absurd idle some
      cases r with
      | error e =>
        have noted : t.log.noted t.world (.resume .stream) = t.log := by
          simp only [OcaLog.noted, filledOrder, cancelServed, answered]
        rw [noted]
        apply held.streamed
        exact quiet_segment p held.records held.market held.logged still (.refl _) events
      | ok message =>
        cases message with
        | other =>
          have noted : t.log.noted t.world (.resume .stream) = t.log := by
            simp only [OcaLog.noted, filledOrder, cancelServed, answered]
          rw [noted]
          apply held.streamed
          exact quiet_segment p held.records held.market held.logged still (.refl _) events
        | orderTradeUpdate o =>
          have noted : t.log.noted t.world (.resume .stream) =
              if o.execType = .trade ∧ o.status = .filled then
                t.log.began t.world.memory o.clientOrderId else t.log := by
            simp only [OcaLog.noted, filledOrder, cancelServed, answered,
              held.records.own.getD o.clientOrderId]
            by_cases filled : o.execType = .trade ∧ o.status = .filled
            · simp only [if_pos filled]
            · simp only [if_neg filled]
          rw [noted]
          apply held.streamed
          exact update_segment p held.records market List.mem_cons_self held.logged idle events
    | cancelOrder symbol id =>
      -- a cancel of the handler returns, whether it raised or not
      obtain ⟨g, goes, cancels⟩ := streaming
      rw [noted_resume answered (by simp), goes]
      apply held.streamed
      exact rest_segment p held.records held.logged cancels events
    | _ => cases streaming
  · have task := held.tasks i stream
    rw [GroupTask, answered] at task
    rw [noted_resume_other stream]
    exact held.segment stream (task _ held.records (.refl _)) events

/-- No order or stop of the exchange is under an id that has not been drawn yet. -/
structure Drawn (uuids : Uuids) (x : Exchange) : Prop where
  orders : ∀ o ∈ x.orders, Early uuids.drawn o.id
  stops : ∀ stop ∈ x.stops, Early uuids.drawn stop.clientId

theorem started_inv (p : DeskParams) (symbols : List Symbol) {uuids : Uuids} (clock : Clock)
    {x : Exchange} (drawn : Drawn uuids x) :
    Inv p rules uuids.drawn (started rules symbols uuids clock x) := by
  refine ⟨⟨le_rfl, ?_, ?_, ?_, ?_⟩, ⟨?_, ?_, drawn.stops, ?_⟩, ⟨?_, ?_, ?_⟩, rfl,
    fun i _ => trivial, ?_, ?_⟩
  · exact fun id known => absurd rfl known
  · intro id other found
    cases found
  · intro id g found
    cases found
  · intro g id member
    cases member
  · exact fun o member => .inl (drawn.orders o member)
  · exact fun a member b _ _ since => absurd (drawn.orders a member) since
  · intro o member
    cases member
  · rintro g l (handled | current)
    · cases handled
    · cases current
  · intro id g found
    cases found
  · refine fun g => .inr ⟨fun l handled => ?_, fun l current => ?_⟩
    · cases handled
    · cases current
  · intro i id sent
    cases sent
  · intro i j id sent
    cases sent

theorem step_inv {label : TradingLabel} {t' : OcaDesk} (held : Inv p rules base t)
    (inTime : t.InTime label) (moved : step rules p t label = some t') :
    Inv p rules base t' := by
  obtain ⟨v, stepped, rfl⟩ := Option.map_eq_some_iff.mp moved
  rcases System.step_cases _ stepped with ⟨i, command, c, rfl, idle, found, rfl⟩ |
    ⟨i, service, q, next, r, y, rfl, waiting, served, rfl⟩ |
    ⟨i, q, r, next, rfl, answered, rfl⟩ | ⟨move, d, y, rfl, drifted, rfl⟩
  · exact start_inv held idle found _
  · have answer : t.world.outside.serve rules service q = (r, y) := Option.some.inj served
    obtain rfl : r = (t.world.outside.serve rules service q).1 := by rw [answer]
    obtain rfl : y = (t.world.outside.serve rules service q).2 := by rw [answer]
    rw [InTime, TrackedBook.pending_of_waiting waiting] at inTime
    by_cases stream : i = .stream
    · subst stream
      exact serve_stream held waiting inTime
    · exact serve_other held stream waiting inTime
  · exact resume_inv held answered _
  · exact drift_inv held drifted

end Steps

/-- In every run in which the exchange accepts no leg of a group once the group's first
`FILLED` message has found it missing, and refuses the handler no cancel of a working order:
once such a message has been handled, every other leg that the exchange has accepted has been
asked to cancel since, and no leg of the group works. -/
theorem one_cancels_other (p : DeskParams) (rules : ExchangeRules) (symbols : List Symbol)
    (uuids : Uuids) (clock : Clock) (x : Exchange) (labels : List TradingLabel) (t : OcaDesk)
    (drawn : Drawn uuids x)
    (inTime : Machine.Meets (step rules p) InTime (started rules symbols uuids clock x) labels)
    (reached : Machine.run (step rules p) (started rules symbols uuids clock x) labels = some t) :
    t.OneCancelsOther := by
  have held : Inv p rules uuids.drawn t :=
    Machine.run_invariant (Inv p rules uuids.drawn) (fun _ _ _ => step_inv) _ labels t
      (started_inv p symbols clock drawn) inTime reached
  intro g l handled
  rcases held.logged.stage g with ⟨first, begun, rest⟩ | ⟨none, -⟩
  · refine ⟨first, begun, fun k grouped => ⟨fun other accepted => ?_, fun works => ?_⟩⟩
    · exact (rest k other grouped accepted).1
    · by_cases here : k = first
      · subst here
        exact (held.logged.legs g k (.inl begun)).2.2 works
      · exact (rest k here grouped (works_accepted works)).2 works
  · exact absurd handled (none l)

/-! ## Two runs -/

/-- Five lots of BTCUSDT bought or sold, whichever leg fills first. -/
def batch : TradingCommand :=
  .submitOco
    [{ symbol := "BTCUSDT", strategyId := "pairs", side := .buy, targetQuantity := 5 },
      { symbol := "BTCUSDT", strategyId := "pairs", side := .sell, targetQuantity := 5 }]

def flatDesk : OcaDesk := started demoRules ["BTCUSDT"] ⟨0⟩ ⟨0, 0⟩ { position := fun _ => 0 }

def replied (i : TradingTask) : List TradingLabel := [.serve i {}, .resume i]

/-- The stream loop takes the next message. -/
def taken : List TradingLabel := .start .stream .receive :: replied .stream

def legFills (draw : ℕ) : TradingLabel :=
  .drift (.exchange (.fill (.hex draw) 5 ⟨100, 0, false, 0⟩))

/-- Both legs are accepted before the first fills. -/
def bothPlaced : List TradingLabel :=
  .start (.caller 0) batch :: replied (.caller 0) ++ replied (.caller 0) ++ [legFills 1] ++
    taken ++ taken ++ taken ++ replied .stream

/-- The first leg has been handled as filled, and the second has been cancelled. -/
def OtherCancelled (t : OcaDesk) : Prop :=
  ("oca-0", .hex 1) ∈ t.log.processed ∧ t.world.memory.manager.groupOf (.hex 2) = some "oca-0" ∧
    t.world.outside.Accepted (.hex 2)

instance (t : OcaDesk) : Decidable t.OtherCancelled := inferInstanceAs (Decidable (_ ∧ _ ∧ _))

theorem one_cancels_other_both : ∃ t ∈ Machine.run (step demoRules .demoDesk) flatDesk bothPlaced,
    t.OtherCancelled ∧ t.OneCancelsOther := by
  have reaches : ∃ t ∈ Machine.run (step demoRules .demoDesk) flatDesk bothPlaced,
      t.OtherCancelled := by decide +kernel
  obtain ⟨t, reached, cancelled⟩ := reaches
  refine ⟨t, reached, cancelled, ?_⟩
  exact one_cancels_other .demoDesk demoRules ["BTCUSDT"] ⟨0⟩ ⟨0, 0⟩ { position := fun _ => 0 }
    bothPlaced t ⟨by simp, by simp⟩ (by decide +kernel) reached

/-- The first leg is accepted, fills and is reported before the second is sent. -/
def secondLate : List TradingLabel :=
  .start (.caller 0) batch :: .serve (.caller 0) {} :: legFills 1 :: taken ++ taken ++
    .resume (.caller 0) :: replied (.caller 0) ++ taken

/-- The first leg has been handled as filled. The second works, nothing is under way, and no
cancel has ever been asked for. -/
def SecondWorks (t : OcaDesk) : Prop :=
  ("oca-0", .hex 1) ∈ t.log.processed ∧ t.world.memory.manager.groupOf (.hex 2) = some "oca-0" ∧
    t.world.outside.Works (.hex 2) ∧ t.log.cancelled = [] ∧ t.world.outside.stream = [] ∧
    (t.world.task (.caller 0)).pending = none ∧ (t.world.task .stream).pending = none

instance (t : OcaDesk) : Decidable t.SecondWorks := inferInstanceAs (Decidable (_ ∧ _))

theorem late_leg_works :
    (∃ t ∈ Machine.run (step demoRules .demoDesk) flatDesk secondLate, t.SecondWorks) ∧
      ¬ ∀ (p : DeskParams) (rules : ExchangeRules) (symbols : List Symbol) (uuids : Uuids)
        (clock : Clock) (x : Exchange) (labels : List TradingLabel) (t : OcaDesk), Drawn uuids x →
        Machine.run (step rules p) (started rules symbols uuids clock x) labels = some t →
          t.OneCancelsOther := by
  have reaches : ∃ t ∈ Machine.run (step demoRules .demoDesk) flatDesk secondLate,
      t.SecondWorks := by decide +kernel
  refine ⟨reaches, fun claim => ?_⟩
  obtain ⟨t, reached, handled, grouped, works, -⟩ := reaches
  have drawn : Drawn ⟨0⟩ { position := fun _ => 0 } := ⟨by simp, by simp⟩
  obtain ⟨first, -, rest⟩ := claim _ _ _ _ _ _ _ t drawn reached "oca-0" (.hex 1) handled
  exact (rest (.hex 2) grouped).2 works

end OcaDesk

end Binbot
