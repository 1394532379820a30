import Binbot.Properties.ManagedFills

/-!
# The records catch up

The runs of the order path: each step of a task, of the exchange or of the process itself leaves
the records behind their orders, with the reports that are missing on their way.
-/
namespace Binbot

open Async Data BinanceFuturesBroker FillPipeline

namespace ManagedFills

/-! ## The book of one order -/

section Book

variable (rules : ExchangeRules) (n : ℕ)

/-- What holds between two segments of the order that goes by the `n`th id. -/
structure Book (messages : List UserStreamMessage) (d : Desk) (x : Exchange) : Prop where
  sound : Sound rules n d
  early : d.uuids.drawn ≤ n → Unheard rules n messages d x
  told : ∀ r, d.manager.getOrder (.hex n) = some r → Told rules n messages d x r

/-- The order's request is under way. -/
structure Requested (messages : List UserStreamMessage) (d : Desk) (x : Exchange)
    (params : OrderParams) : Prop where
  drawn : n < d.uuids.drawn
  unheard : Unheard rules n messages d x
  asked : ∃ r, Asked rules n d params r

variable {rules n} {messages messages' : List UserStreamMessage} {d d' : Desk} {x y : Exchange}
  {params : OrderParams}

theorem Book.carried (book : Book rules n messages d x)
    (carries : Carries rules n x messages d messages' d') (sound : Sound rules n d') :
    Book rules n messages' d' x where
  sound := sound
  early above := by
    have before : d.uuids.drawn ≤ n := carries.drawn.trans above
    exact (book.early before).carried carries (.inr before)
  told r' found' := by
    cases found : d.manager.getOrder (.hex n) with
    | none =>
      obtain ⟨before, -, untouched⟩ := carries.fresh found r' found'
      exact .inl ⟨(book.early before).carried carries (.inr before), untouched⟩
    | some r =>
      obtain ⟨same, there, fills⟩ := carries.known r found
      cases found'.symm.trans there
      exact (book.told r found).carried carries (.inl (by simp [found])) fills

theorem Book.gentle (book : Book rules n messages d x) (gentle : Gentle n d d') :
    Book rules n messages d' x := book.carried gentle.carries (book.sound.gentle gentle)

theorem Book.still (book : Book rules n messages d x)
    (still : Relevant n d → Still rules n messages x messages' y) :
    Book rules n messages' d y where
  sound := book.sound
  early above := (book.early above).still (still (.inr above))
  told r found := (book.told r found).still (still (.inl (by simp [found])))

/-- A report that is on its way is about an order at the exchange, of a symbol whose filters are
loaded. -/
theorem Book.reported (book : Book rules n messages d x) (relevant : Relevant n d)
    (some : reports rules (.hex n) messages d x ≠ []) :
    ∃ r lots, d.manager.getOrder (.hex n) = .some r ∧ Heard rules n messages d x r lots := by
  cases found : d.manager.getOrder (.hex n) with
  | none =>
    have above : d.uuids.drawn ≤ n := relevant.resolve_left (by simp [found])
    exact absurd (book.early above).silent some
  | some r =>
    cases book.told r found with
    | inl before => exact absurd before.1.silent some
    | inr heard =>
      obtain ⟨lots, heard⟩ := heard
      exact ⟨r, lots, rfl, heard⟩

theorem Asked.carried {r : ManagedOrder} (asked : Asked rules n d params r)
    (carries : Carries rules n x messages d messages' d') : ∃ r', Asked rules n d' params r' := by
  obtain ⟨r', found, fills⟩ := carries.known r asked.recorded
  refine ⟨r', found, fills.untouched asked.untouched, ?_, ?_, carries.filters _ asked.loaded⟩
  · rw [fills.symbol]
    exact asked.symbol
  · rw [fills.quantity]
    exact asked.lots

theorem Requested.carried (requested : Requested rules n messages d x params)
    (carries : Carries rules n x messages d messages' d') :
    Requested rules n messages' d' x params := by
  obtain ⟨r, asked⟩ := requested.asked
  have relevant : Relevant n d := .inl (by simp [asked.recorded])
  exact ⟨requested.drawn.trans_le carries.drawn, requested.unheard.carried carries relevant,
    asked.carried carries⟩

theorem Requested.still (requested : Requested rules n messages d x params)
    (still : Still rules n messages x messages' y) : Requested rules n messages' d y params :=
  ⟨requested.drawn, requested.unheard.still still, requested.asked⟩

/-- The exchange takes the order that is under way. -/
theorem Book.accepted (book : Book rules n messages d x)
    (requested : Requested rules n messages d x params) (named : params.newClientOrderId = .hex n) :
    Book rules n messages d (x.accept rules params) := by
  obtain ⟨r, asked⟩ := requested.asked
  have lots := asked.lots
  have others : x.orders.filter (·.id = .hex n) = [] := by
    simpa [placed] using requested.unheard.orders
  refine ⟨book.sound, fun above => absurd requested.drawn (not_lt.mpr above), ?_⟩
  intro r' found
  cases asked.recorded.symm.trans found
  refine .inr ⟨0, requested.unheard.accepted asked.untouched ?_ ?_ ?_ (asked.symbol ▸ asked.loaded)⟩
  · simp only [placed, Exchange.accept, lots]
    simp [others, named, asked.symbol]
  · simp [Exchange.accept, lots]
  · simp [Exchange.accept, lots, Exchange.notice, Exchange.report, messageReport]

end Book

/-! ## What the exchange does to other orders -/

section Market

variable {rules : ExchangeRules} {n : ℕ} {messages : List UserStreamMessage} (x : Exchange)

/-- A report without a fill. -/
@[simp] theorem messageReport_notice (id : OrderId) (o : ExchangeOrder) (status : WireStatus) :
    messageReport rules id (Exchange.notice rules o status) = none := by
  simp [Exchange.notice, Exchange.report, messageReport]

/-- The report of a fill. -/
theorem messageReport_trade (id : OrderId) (o : ExchangeOrder) (status : WireStatus) (last : ℤ)
    (detail : FillDetail) :
    messageReport rules id (Exchange.report rules o .trade status last detail) =
      if o.id = id then some (o.filled, max (o.quantity - o.filled) 0) else none := by
  have regular := rules.regular o.symbol
  simp [Exchange.report, messageReport, regular.quantityToLots_lots]

theorem Still.noticed {y : Exchange} {more : List UserStreamMessage}
    (orders : placed n y = placed n x)
    (stops : ∀ stop ∈ y.stops, stop.clientId = .hex n → stop ∈ x.stops)
    (stream : y.stream = x.stream ++ more)
    (silent : ∀ message ∈ more, messageReport rules (.hex n) message = none) :
    Still rules n messages x messages y where
  orders := orders
  stops := stops
  kept message member about := by
    rw [stream, ← List.append_assoc] at member
    rcases List.mem_append.mp member with old | new
    · exact old
    · exact absurd (silent message new) about
  same := by
    have nothing : more.filterMap (messageReport rules (.hex n)) = [] :=
      List.filterMap_eq_nil_iff.mpr silent
    simp [stream, nothing]

theorem still_endOrders (standing : Standing) (status : WireStatus) (test : ExchangeOrder → Bool) :
    Still rules n messages x messages (x.endOrders rules standing status test) := by
  refine .noticed x ?_ (fun stop member _ => member) (by rfl) ?_
  · simp only [placed, Exchange.endOrders]
    induction x.orders with
    | nil => rfl
    | cons o rest ih =>
      by_cases ends : o.standing = .working ∧ test o
      · by_cases here : o.id = .hex n
        · simpa [ends, here] using ih
        · simpa [ends, here] using ih
      · by_cases here : o.id = .hex n
        · simpa [ends, here] using ih
        · simpa [ends, here] using ih
  · intro message member
    obtain ⟨o, -, rfl⟩ := List.mem_map.mp member
    exact messageReport_notice _ o status

theorem still_accept {params : OrderParams} (other : params.newClientOrderId ≠ .hex n) :
    Still rules n messages x messages (x.accept rules params) := by
  rw [Exchange.accept]
  split
  · apply Still.noticed x
    · simp [placed, other]
    · exact fun stop member _ => member
    · rfl
    · simp
  · apply Still.noticed x
    · rfl
    · intro stop member named
      rcases List.mem_append.mp member with old | new
      · exact old
      · cases List.mem_singleton.mp new
        exact absurd named other
    · exact (List.append_nil _).symm
    · simp

/-- A request that is neither for a message nor for the order. -/
theorem still_serve (service : Service) {q : WireReq} (other : q ≠ .streamRecv)
    (another : ∀ params, q = .createOrder params → params.newClientOrderId ≠ .hex n) :
    Still rules n messages x messages (x.serve rules service q).2 := by
  rw [Exchange.serve]
  split
  · cases q with
    | createOrder params => exact still_accept x (another params rfl)
    | cancelOrder symbol id => exact still_endOrders x _ _ _
    | cancelOrderById symbol id =>
      apply Still.noticed x
      · rfl
      · exact fun stop member _ => List.mem_of_mem_filter member
      · exact (List.append_nil _).symm
      · simp
    | cancelAllOpenOrders symbol =>
      have ended : Still rules n messages x messages
          (x.endOrders rules .cancelled .canceled (·.symbol = symbol)) := still_endOrders x _ _ _
      have stops : ∀ stop ∈ x.stops.filter (·.symbol ≠ symbol), stop.clientId = .hex n →
          stop ∈ x.stops := fun stop member _ => List.mem_of_mem_filter member
      exact ⟨ended.orders, stops, ended.kept, ended.same⟩
    | streamRecv => exact absurd rfl other
    | _ => exact .refl x
  · exact .refl x

/-- A fill leaves every order its id. -/
theorem filter_fillOrder (o : ExchangeOrder) (lots : ℤ) (detail : FillDetail) :
    (x.fillOrder rules o lots detail).orders.filter (·.id = .hex n) =
      (x.orders.filter (·.id = .hex n)).map fun other =>
        if other = o then o.fill lots else other := by
  simp only [Exchange.fillOrder, List.filter_map]
  congr 1
  apply List.filter_congr
  intro other _
  by_cases here : other = o
  · simp [here, ExchangeOrder.fill]
  · simp [here]

/-- Part of another order fills. -/
theorem still_fillOrder {o : ExchangeOrder} (other : o.id ≠ .hex n) (lots : ℤ)
    (detail : FillDetail) :
    Still rules n messages x messages (x.fillOrder rules o lots detail) := by
  refine .noticed x ?_ (fun stop member _ => member) (by rfl) ?_
  · rw [placed, filter_fillOrder, List.map_map, placed]
    apply List.map_congr_left
    intro mine member
    have named : mine.id = .hex n := by simpa using (List.mem_filter.mp member).2
    have apart : mine ≠ o := by
      rintro rfl
      exact other named
    simp [apart]
  · simp [messageReport_trade, ExchangeOrder.fill, other]

/-- A stop of another name triggers. -/
theorem still_triggerStop {stop : NativeStop} (other : stop.clientId ≠ .hex n)
    (detail : FillDetail) : Still rules n messages x messages (x.triggerStop rules stop detail) := by
  refine .noticed x (by rfl) (fun stop member _ => List.mem_of_mem_filter member) (by rfl) ?_
  simp [messageReport_trade, other]

variable (rules) in
/-- Part of the order fills: there is just one of its id. -/
theorem placed_fillOrder {o : ExchangeOrder} {entry : ℤ × Symbol × ℤ} (only : placed n x = [entry])
    (member : o ∈ x.orders) (named : o.id = .hex n) (lots : ℤ) (detail : FillDetail) :
    entry = (o.quantity, o.symbol, o.filled) ∧
      placed n (x.fillOrder rules o lots detail) = [(o.quantity, o.symbol, o.filled + lots)] := by
  obtain ⟨first, alone, rfl⟩ := List.map_eq_singleton_iff.mp only
  have mine : o ∈ x.orders.filter (·.id = .hex n) :=
    List.mem_filter.mpr ⟨member, by simpa using named⟩
  rw [alone] at mine
  cases List.mem_singleton.mp mine
  refine ⟨rfl, ?_⟩
  rw [placed, filter_fillOrder, alone]
  simp [ExchangeOrder.fill]

end Market

/-! ## Tasks between two segments -/

section Tasks

variable (p : DeskParams) (rules : ExchangeRules) (n : ℕ)

/-- From this desk on, the program goes on gently. -/
abbrev GentlyFrom {α : Type} (d : Desk) (c : Coro Desk wireSig α) : Prop :=
  c.Obeys (fillContract rules n) (fun _ => Since rules n) d d

/-- Suspended or not, the task goes on gently. -/
def GentleTask (task : Task Desk wireSig) : Prop :=
  match task.phase with
  | .idle => True
  | .waiting q next => q ≠ .streamRecv ∧ ∀ r d', Sound rules n d' → GentlyFrom rules n d' (next r)
  | .answered q r next => q ≠ .streamRecv ∧ ∀ d', Sound rules n d' → GentlyFrom rules n d' (next r)

/-- The task waits for the exchange to take the order. -/
def Sending (task : Task Desk wireSig) (params : OrderParams) : Prop :=
  ∃ next, task.phase = .waiting (.createOrder params) next ∧ params.newClientOrderId = .hex n

/-- What the task asks for, its segment has drawn the id of. -/
def SendsOnly (d d' : Desk) (task : Task Desk wireSig) : Prop :=
  ∀ params, Sending n task params →
    d.uuids.drawn ≤ n ∧ n < d'.uuids.drawn ∧ ∃ r, Asked rules n d' params r

def TaskOk : TradingTask → Task Desk wireSig → Prop
  | .consumer, task => task.phase = .idle
  | .stream, task => TrackedBook.Receiving p task ∨ GentleTask rules n task
  | _, task => GentleTask rules n task

variable {p rules n} {d : Desk} {x : Exchange}

theorem sendsOnly_idle (d d' : Desk) (log : List (Async.Event wireSig)) :
    SendsOnly rules n d d' ⟨.idle, log⟩ := by
  rintro params ⟨next, waiting, -⟩
  cases waiting

theorem gentle_segment {c : Coro Desk wireSig Unit} (gently : GentlyFrom rules n d c)
    (log : List (Async.Event wireSig)) :
    let task : Task Desk wireSig := ⟨Phase.of (c.advance d).1, log⟩
    Gentle n d (c.advance d).2 ∧ GentleTask rules n task ∧
      SendsOnly rules n d (c.advance d).2 task := by
  have after := Coro.Obeys.advance gently
  cases stand : (c.advance d).1 with
  | await q next =>
    rw [stand] at after
    obtain ⟨⟨gentle, other, sends⟩, goes⟩ := after
    refine ⟨gentle, ⟨other, fun r d' sound => goes r d' d' ⟨rfl, sound⟩⟩, ?_⟩
    rintro params ⟨next', waiting, named⟩
    cases waiting
    exact sends params rfl named
  | done a =>
    rw [stand] at after
    exact ⟨after.2, trivial, sendsOnly_idle d _ log⟩
  | fail e =>
    rw [stand] at after
    exact ⟨after.2, trivial, sendsOnly_idle d _ log⟩
  | get next => exact absurd stand (Coro.advance_ne_get c d next)
  | put t next => exact absurd stand (Coro.advance_ne_put c d t next)

/-- A message that reports nothing of the order has been looked at. -/
theorem Carries.unreported {message : UserStreamMessage}
    (silent : Relevant n d → messageReport rules (.hex n) message = none) :
    Carries rules n x [message] d [] d where
  drawn := le_rfl
  filters _ member := member
  known r found := ⟨r, found, .refl r⟩
  fresh absent r found := by
    rw [absent] at found
    cases found
  kept := by simp
  same relevant := by simp [reports, silent relevant]

/-- A message's report has become that of an event. -/
theorem Carries.queued {message : UserStreamMessage} {event : BrokerEvent}
    (same : Relevant n d → eventReport (.hex n) event = messageReport rules (.hex n) message) :
    Carries rules n x [message] d [] { d with broker := d.broker.put event } where
  drawn := le_rfl
  filters _ member := member
  known r found := ⟨r, found, .refl r⟩
  fresh absent r found := by
    have known : d.manager.getOrder (.hex n) = some r := found
    rw [absent] at known
    cases known
  kept := by simp
  same relevant := by
    simp only [reports, BrokerState.put, List.filterMap_append, List.filterMap_cons, same relevant]
    cases messageReport rules (.hex n) message with
    | none => simp
    | some report => simp

/-- Any other update than a trade is an ack, a reject or nothing. -/
theorem advance_notice {o : OrderTradeUpdate} (other : o.execType = .other) (d : Desk) :
    ∃ d', (p.broker.handleUserStreamMessage (.orderTradeUpdate o)).advance d = (.done (), d') ∧
      Gentle n d d' := by
  simp only [handleUserStreamMessage, other, Coro.advance_view_bind]
  cases o.status.orderStatus with
  | none => exact ⟨d, rfl, .refl n d⟩
  | some status =>
    refine ⟨_, rfl, .put d ?_⟩
    split
    · rfl
    · rfl

/-- The stream loop looks at a message. -/
theorem stream_segment {message : UserStreamMessage} (book : Book rules n [message] d x)
    (log : List (Async.Event wireSig)) :
    let after := (p.broker.handleUserStreamMessage message).advance d
    let task : Task Desk wireSig := ⟨Phase.of after.1, log⟩
    Carries rules n x [message] d [] after.2 ∧ Sound rules n after.2 ∧ GentleTask rules n task ∧
      SendsOnly rules n d after.2 task := by
  -- a message that ends here
  have ends : ∀ {c : Coro Desk wireSig Unit}, Phase.of c = .idle →
      (Relevant n d → messageReport rules (.hex n) message = none) →
      Carries rules n x [message] d [] d ∧ Sound rules n d ∧
        GentleTask rules n ⟨Phase.of c, log⟩ ∧ SendsOnly rules n d d ⟨Phase.of c, log⟩ := by
    intro c idle silent
    rw [idle]
    exact ⟨.unreported silent, book.sound, trivial, sendsOnly_idle d d log⟩
  cases message with
  | other => exact ends rfl fun _ => rfl
  | orderTradeUpdate o =>
    dsimp only
    cases trade : o.execType with
    | other =>
      obtain ⟨d', after, gentle⟩ := advance_notice (p := p) (n := n) trade d
      have silent : messageReport rules (.hex n) (.orderTradeUpdate o) = none := by
        simp [messageReport, trade]
      rw [after]
      exact ⟨(Carries.unreported fun _ => silent).gentle gentle, book.sound.gentle gentle, trivial,
        sendsOnly_idle d d' log⟩
    | trade =>
      cases found : d.broker.filters.get? o.symbol with
      | none =>
        rw [TrackedBook.advance_unloaded p trade found]
        refine ends rfl fun relevant => ?_
        by_contra about
        -- a report about the order finds its filters
        have coming : reports rules (.hex n) [.orderTradeUpdate o] d x ≠ [] := by
          obtain ⟨report, some⟩ := Option.ne_none_iff_exists'.mp about
          simp [reports, some]
        obtain ⟨r, lots, -, heard⟩ := book.reported relevant coming
        have loaded := heard.loaded
        rw [← heard.streamed o (by simp) about] at loaded
        exact (Dict.get?_eq_none_iff _ _).mp found loaded
      | some filt =>
        have own := book.sound.own.getD o.clientOrderId
        let event : BrokerEvent := .execution (executionEvent filt o.clientOrderId o)
        have same : eventReport (.hex n) event =
            messageReport rules (.hex n) (.orderTradeUpdate o) := by
          have loaded := book.sound.loaded o.symbol filt found
          simp only [event, eventReport, executionEvent, messageReport, trade, true_and, loaded]
        have queued : Carries rules n x [.orderTradeUpdate o] d []
            { d with broker := d.broker.put event } := .queued fun _ => same
        have sound : Sound rules n { d with broker := d.broker.put event } :=
          ⟨book.sound.loaded, book.sound.own, book.sound.early⟩
        have rest : Gently rules n
            (Coro.onlyIf (o.status = .filled) (p.broker.handleOcaFill o.clientOrderId)) :=
          Coro.keeps_onlyIf _ (gently_handleOcaFill p _)
        rw [TrackedBook.advance_trade p trade found own]
        obtain ⟨gentle, task, sends⟩ := gentle_segment (rest _ _ ⟨sound, .refl n _⟩) log
        exact ⟨queued.gentle gentle, sound.gentle gentle, task, sends⟩

/-- The consumer takes an event that reports nothing of the order. -/
theorem Gentle.consumed {event : BrokerEvent} {rest : List BrokerEvent}
    (first : d.broker.eventQueue = event :: rest) (silent : eventReport (.hex n) event = none) :
    Gentle n d { d with
      broker := { d.broker with eventQueue := rest }
      manager := (d.manager.handleEvent event).1 } where
  drawn := le_rfl
  filters := rfl
  own := id
  queue := by rw [first, List.filterMap_cons_none silent]
  known r found := by
    dsimp only
    rw [ManagerState.handleEvent_getOrder, found]
    split
    next here =>
      cases event with
      | ack ack => exact ⟨_, rfl, ⟨rfl, rfl, rfl, rfl⟩⟩
      | reject reject => exact ⟨_, rfl, ⟨rfl, rfl, rfl, rfl⟩⟩
      | execution fill =>
        -- a fill of the order would be a report
        have mine : fill.orderId = .hex n := here.symm
        simp [eventReport, mine] at silent
    next => exact ⟨r, rfl, .refl r⟩
  fresh absent r found := by
    dsimp only at found
    rw [ManagerState.handleEvent_getOrder, absent] at found
    split at found
    · cases found
    · cases found

/-- The record takes over a fill. -/
theorem Book.taken {messages : List UserStreamMessage} {fill : ExecutionEvent}
    {rest : List BrokerEvent} (book : Book rules n messages d x)
    (first : d.broker.eventQueue = .execution fill :: rest) (mine : fill.orderId = .hex n)
    (recorded : d.manager.getOrder (.hex n) ≠ none) :
    Book rules n messages { d with
      broker := { d.broker with eventQueue := rest }
      manager := (d.manager.handleEvent (.execution fill)).1 } x := by
  have coming : reports rules (.hex n) messages d x =
      (fill.cumulativeQuantity, fill.remainingQuantity) ::
        reports rules (.hex n) messages
          { d with broker := { d.broker with eventQueue := rest } } x := by
    simp [reports, first, eventReport, mine]
  obtain ⟨r, lots, found, heard⟩ := book.reported (.inl recorded) (by simp [coming])
  have here : OrderId.hex n = (BrokerEvent.execution fill).orderId := mine.symm
  refine ⟨⟨book.sound.loaded, book.sound.own, fun _ => book.sound.early recorded⟩, ?_, ?_⟩
  · exact fun above => absurd (book.sound.early recorded) (not_lt.mpr above)
  · intro r' found'
    dsimp only at found'
    rw [ManagerState.handleEvent_getOrder, if_pos here, found] at found'
    cases found'
    have whole := heard.whole
    have catchesUp := heard.catchesUp
    rw [coming] at whole catchesUp
    refine .inr ⟨lots, heard.orders, heard.stops, heard.loaded, heard.streamed, ?_, ?_, ?_⟩
    · exact whole _ List.mem_cons_self
    · exact fun report member => whole report (List.mem_cons_of_mem _ member)
    · exact catchesUp.taken

/-- The consumer's turn. -/
theorem consumer_segment {messages : List UserStreamMessage} (book : Book rules n messages d x) :
    let after := OrderLifecycleManager.consumeOne.advance d
    after.1 = .done () ∧ d.uuids.drawn ≤ after.2.uuids.drawn ∧ Book rules n messages after.2 x ∧
      (Unheard rules n messages d x → Carries rules n x messages d messages after.2) := by
  cases first : d.broker.eventQueue with
  | nil =>
    have read : (Part.view d : BrokerState).eventQueue = [] := first
    have nothing : OrderLifecycleManager.consumeOne.advance d = (.done (), d) := by
      simp only [OrderLifecycleManager.consumeOne, Coro.advance_view_bind]
      rw [read]
      rfl
    dsimp only
    rw [nothing]
    exact ⟨rfl, le_rfl, book, fun _ => (Gentle.refl n d).carries⟩
  | cons event rest =>
    dsimp only
    cases silent : eventReport (.hex n) event with
    | none =>
      -- whatever becomes of the event, the order's quantities stay
      have gentle := Gentle.consumed first silent
      cases found : d.manager.orders.get? event.orderId with
      | none =>
        have same : d.manager.handleEvent event = (d.manager, none) := by
          rw [ManagerState.handleEvent, found]
        rw [TrackedBook.advance_unknown first found]
        rw [same] at gentle
        exact ⟨rfl, le_rfl, book.gentle gentle, fun _ => gentle.carries⟩
      | some order =>
        rw [TrackedBook.advance_consumed first found]
        have all : Gentle n d { d with
            broker := { d.broker with eventQueue := rest }
            manager := (d.manager.handleEvent event).1
            bus := d.bus.publish (.order (order.after event).2) } :=
          gentle.trans (.elsewhere le_rfl rfl rfl)
        exact ⟨rfl, le_rfl, book.gentle all, fun _ => all.carries⟩
    | some report =>
      obtain ⟨fill, rfl, mine⟩ : ∃ fill, event = .execution fill ∧ fill.orderId = .hex n := by
        cases event with
        | execution fill =>
          by_cases mine : fill.orderId = .hex n
          · exact ⟨fill, rfl, mine⟩
          · simp [eventReport, mine] at silent
        | _ => cases silent
      have coming : reports rules (.hex n) messages d x ≠ [] := by
        simp [reports, first, silent]
      have unheard : ¬ Unheard rules n messages d x := fun unheard => coming unheard.silent
      cases found : d.manager.orders.get? (BrokerEvent.execution fill).orderId with
      | none =>
        -- an order of an earlier process
        have absent : d.manager.getOrder (.hex n) = none := by
          rw [← mine]
          exact found
        rw [TrackedBook.advance_unknown first found]
        refine ⟨rfl, le_rfl, ⟨⟨book.sound.loaded, book.sound.own, book.sound.early⟩, ?_, ?_⟩, ?_⟩
        · exact fun above => absurd (book.early above) unheard
        · intro r recorded
          have known : d.manager.getOrder (.hex n) = some r := recorded
          rw [absent] at known
          cases known
        · exact fun held => absurd held unheard
      | some order =>
        have recorded : d.manager.getOrder (.hex n) ≠ none := by
          rw [← mine]
          exact fun absent => by cases absent.symm.trans found
        rw [TrackedBook.advance_consumed first found]
        refine ⟨rfl, le_rfl, ?_, fun held => absurd held unheard⟩
        exact (book.taken first mine recorded).gentle (.elsewhere le_rfl rfl rfl)

end Tasks

/-! ## The condition on a run -/

/-- The order that a message reports a fill of. -/
def tradedOrder : UserStreamMessage → Option OrderId
  | .orderTradeUpdate o => if o.execType = .trade then some o.clientOrderId else none
  | .other => none

/-- A call that loses the report of a fill leaves a later one about the same order. -/
def MadeUpFor (t : Trading) : Trading.Act → Prop
  | .task (.serve .stream service) =>
    (t.world.task .stream).pending = some .streamRecv →
      service.acts = true ∧ service.raises ≠ none →
        ∀ id ∈ t.world.outside.stream.head?.bind tradedOrder,
          id ∈ t.world.outside.stream.tail.filterMap tradedOrder
  | _ => True

instance (t : Trading) : (act : Trading.Act) → Decidable (MadeUpFor t act)
  | .task (.serve .stream _) => inferInstanceAs (Decidable (_ → _ → ∀ _ ∈ (_ : Option _), _))
  | .task (.serve (.caller _) _) => .isTrue trivial
  | .task (.serve .consumer _) => .isTrue trivial
  | .task (.serve .dispatcher _) => .isTrue trivial
  | .task (.start _ _) => .isTrue trivial
  | .task (.resume _) => .isTrue trivial
  | .task (.drift _) => .isTrue trivial
  | .restart _ => .isTrue trivial

theorem tradedOrder_iff {rules : ExchangeRules} {id : OrderId} {message : UserStreamMessage} :
    messageReport rules id message ≠ none ↔ tradedOrder message = some id := by
  cases message with
  | other => simp [messageReport, tradedOrder]
  | orderTradeUpdate o =>
    by_cases trade : o.execType = .trade
    · simp [messageReport, tradedOrder, trade]
    · simp [messageReport, tradedOrder, trade]

/-! ## Whole steps -/

section Steps

variable {p : DeskParams} {rules : ExchangeRules} {n : ℕ} {w : TradingWorld}

/-- Between two segments. -/
structure Inv (p : DeskParams) (rules : ExchangeRules) (n : ℕ) (w : TradingWorld) : Prop where
  book : Book rules n (received (w.task .stream)) w.memory w.outside
  sends : ∀ i params, Sending n (w.task i) params →
    Requested rules n (received (w.task .stream)) w.memory w.outside params ∧
      ∀ j others, Sending n (w.task j) others → j = i
  tasks : ∀ i, TaskOk p rules n i (w.task i)

/-- The order of a record that somebody asks the exchange for. -/
theorem Inv.relevant (held : Inv p rules n w) {i : TradingTask} {params : OrderParams}
    (sending : Sending n (w.task i) params) : Relevant n w.memory := by
  obtain ⟨r, asked⟩ := (held.sends i params sending).1.asked
  exact .inl (by simp [asked.recorded])

/-- One task moves. -/
theorem Inv.segment (held : Inv p rules n w) (i : TradingTask) {c : Coro Desk wireSig Unit}
    {log : List (Async.Event wireSig)}
    (own : TaskOk p rules n i ⟨Phase.of (c.advance w.memory).1, log⟩)
    (sends : SendsOnly rules n w.memory (c.advance w.memory).2
      ⟨Phase.of (c.advance w.memory).1, log⟩)
    (book : Book rules n (received ((w.segment i c log).task .stream)) (c.advance w.memory).2
      w.outside)
    (carries : Unheard rules n (received (w.task .stream)) w.memory w.outside →
      Carries rules n w.outside (received (w.task .stream)) w.memory
        (received ((w.segment i c log).task .stream)) (c.advance w.memory).2) :
    Inv p rules n (w.segment i c log) := by
  -- only one of the tasks asks for the order: it was there before, or the id has just been drawn
  have before : ∀ j params, j ≠ i → Sending n ((w.segment i c log).task j) params →
      Sending n (w.task j) params := by
    intro j params other sending
    rw [World.segment_ne _ _ _ other] at sending
    exact sending
  have now : ∀ params, Sending n ((w.segment i c log).task i) params →
      w.memory.uuids.drawn ≤ n ∧ n < (c.advance w.memory).2.uuids.drawn ∧
        ∃ r, Asked rules n (c.advance w.memory).2 params r := by
    intro params sending
    rw [World.segment_same] at sending
    exact sends params sending
  have apart : ∀ j params others, j ≠ i → Sending n ((w.segment i c log).task j) params →
      ¬ Sending n ((w.segment i c log).task i) others := by
    intro j params others other old new
    have drawn := (held.sends j params (before j params other old)).1.drawn
    exact absurd drawn (not_lt.mpr (now others new).1)
  refine ⟨book, fun j params sending => ?_, fun j => ?_⟩
  · by_cases here : j = i
    · subst here
      obtain ⟨above, below, asked⟩ := now params sending
      have unheard := held.book.early above
      refine ⟨⟨below, unheard.carried (carries unheard) (.inr above), asked⟩, ?_⟩
      intro k others sends
      by_contra other
      exact apart k others params other sends sending
    · have old := held.sends j params (before j params here sending)
      refine ⟨old.1.carried (carries old.1.unheard), fun k others sends => ?_⟩
      by_cases there : k = i
      · subst there
        exact absurd sends (apart j params others here sending)
      · exact old.2 k others (before k others there sends)
  · by_cases here : j = i
    · subst here
      rw [World.segment_same]
      exact own
    · rw [World.segment_ne _ _ _ here]
      exact held.tasks j

/-- A task that goes on gently, while the stream loop keeps the message that it has. -/
theorem Inv.gently (held : Inv p rules n w) {i : TradingTask} {c : Coro Desk wireSig Unit}
    (log : List (Async.Event wireSig)) (gently : GentlyFrom rules n w.memory c)
    (own : ∀ task, GentleTask rules n task → TaskOk p rules n i task)
    (same : received ((w.segment i c log).task .stream) = received (w.task .stream)) :
    Inv p rules n (w.segment i c log) := by
  obtain ⟨gentle, task, sends⟩ := gentle_segment gently log
  apply held.segment i (own _ task) sends
  · rw [same]
    exact held.book.gentle gentle
  · rw [same]
    exact fun _ => gentle.carries

theorem start_inv (held : Inv p rules n w) {i : TradingTask} {command : TradingCommand}
    {c : Coro Desk wireSig Unit} (idle : (w.task i).phase = .idle)
    (found : p.tradingBody i command = some c) :
    Inv p rules n (w.segment i c (w.task i).log) := by
  have since : Since rules n w.memory w.memory := ⟨held.book.sound, .refl n w.memory⟩
  cases i with
  | caller k =>
    have gently := (gently_rules p).caller found w.memory w.memory since
    apply held.gently (i := .caller k) _ gently fun _ task => task
    rw [World.segment_ne _ _ _ (by simp)]
  | stream =>
    cases command with
    | receive =>
      cases found
      -- the loop only asks for the next message
      have stays := TrackedBook.advance_receive p w.memory
      have before : received (w.task .stream) = [] := by rw [received, idle]
      apply held.segment .stream
      · rw [stays]
        exact .inl rfl
      · rw [stays]
        rintro params ⟨next, waiting, -⟩
        cases waiting
      · rw [World.segment_same, TrackedBook.received_of, stays, ← before]
        exact held.book
      · rw [World.segment_same, TrackedBook.received_of, stays, before]
        exact fun _ => (Gentle.refl n w.memory).carries
    | _ => cases found
  | consumer =>
    cases command with
    | consume =>
      cases found
      obtain ⟨done, drawn, book, carries⟩ := consumer_segment held.book
      have same : received ((w.segment .consumer OrderLifecycleManager.consumeOne
          (w.task .consumer).log).task .stream) = received (w.task .stream) := by
        rw [World.segment_ne _ _ _ (by simp)]
      apply held.segment .consumer
      · rw [done]
        rfl
      · rw [done]
        exact sendsOnly_idle _ _ _
      · rw [same]
        exact book
      · rw [same]
        exact carries
    | _ => cases found
  | dispatcher =>
    cases command with
    | dispatch earlier =>
      cases found
      have gently : GentlyFrom rules n w.memory (p.dispatch earlier) :=
        gently_bridge.dispatch earlier _ _ since
      apply held.gently (i := .dispatcher) _ gently fun _ task => task
      rw [World.segment_ne _ _ _ (by simp)]
    | _ => cases found

theorem received_gentle {task : Task Desk wireSig} (gentle : GentleTask rules n task) :
    received task = [] := by
  obtain ⟨phase, log⟩ := task
  cases phase with
  | answered q r next =>
    cases q with
    | streamRecv => exact absurd rfl gentle.1
    | _ => rfl
  | _ => rfl

theorem resume_inv (held : Inv p rules n w) {i : TradingTask} {q : WireReq} {r : Answer wireSig q}
    {next : Answer wireSig q → Coro Desk wireSig Unit}
    (answered : (w.task i).phase = .answered q r next) (log : List (Async.Event wireSig)) :
    Inv p rules n (w.segment i (next r) log) := by
  have goes : GentleTask rules n (w.task i) → GentlyFrom rules n w.memory (next r) := by
    intro gentle
    rw [GentleTask, answered] at gentle
    exact gentle.2 w.memory held.book.sound
  cases i with
  | caller k =>
    apply held.gently (i := .caller k) _ (goes (held.tasks (.caller k))) (fun _ task => task)
    rw [World.segment_ne _ _ _ (by simp)]
  | stream =>
    cases held.tasks .stream with
    | inl receiving =>
      rw [TrackedBook.Receiving, answered] at receiving
      cases q with
      | streamRecv =>
        cases receiving
        have book := held.book
        rw [received, answered] at book
        cases r with
        | ok message =>
          obtain ⟨carries, sound, task, sends⟩ := stream_segment (p := p) book log
          apply held.segment .stream (.inr task) sends
          · rw [World.segment_same, TrackedBook.received_of]
            exact book.carried carries sound
          · rw [World.segment_same, TrackedBook.received_of, received, answered]
            exact fun _ => carries
        | error e =>
          apply held.segment .stream (c := TrackedBook.afterRecv p (.error e)) (.inr trivial)
            (sendsOnly_idle _ _ _)
          · rw [World.segment_same, TrackedBook.received_of]
            exact book
          · rw [World.segment_same, TrackedBook.received_of, received, answered]
            exact fun _ => (Gentle.refl n w.memory).carries
      | _ => cases receiving
    | inr task =>
      apply held.gently (i := .stream) _ (goes task) (fun _ task => .inr task)
      rw [World.segment_same, TrackedBook.received_of, received_gentle task]
  | consumer =>
    have idle : (w.task .consumer).phase = .idle := held.tasks .consumer
    rw [answered] at idle
    cases idle
  | dispatcher =>
    apply held.gently (i := .dispatcher) _ (goes (held.tasks .dispatcher)) (fun _ task => task)
    rw [World.segment_ne _ _ _ (by simp)]

/-- An answer is on its way to a task. -/
theorem Inv.served (held : Inv p rules n w) {i : TradingTask} {q : WireReq}
    {next : Answer wireSig q → Coro Desk wireSig Unit}
    (waiting : (w.task i).phase = .waiting q next) (r : Answer wireSig q) {y : Exchange}
    (own : TaskOk p rules n i ⟨.answered q r next, (w.task i).log⟩)
    (book : Book rules n
      (received ((w.setTask i ⟨.answered q r next, (w.task i).log⟩).task .stream)) w.memory y)
    (still : Unheard rules n (received (w.task .stream)) w.memory w.outside →
      (∀ params, ¬ Sending n (w.task i) params) →
        Still rules n (received (w.task .stream)) w.outside
          (received ((w.setTask i ⟨.answered q r next, (w.task i).log⟩).task .stream)) y) :
    Inv p rules n { w.setTask i ⟨.answered q r next, (w.task i).log⟩ with outside := y } := by
  have before : ∀ j params, Sending n ((w.setTask i ⟨.answered q r next, (w.task i).log⟩).task j)
      params → j ≠ i ∧ Sending n (w.task j) params := by
    intro j params sending
    by_cases here : j = i
    · subst here
      rw [World.setTask_same] at sending
      obtain ⟨next', answered, -⟩ := sending
      cases answered
    · rw [World.setTask_ne _ _ here] at sending
      exact ⟨here, sending⟩
  refine ⟨book, fun j params sending => ?_, fun j => ?_⟩
  · obtain ⟨other, old⟩ := before j params sending
    obtain ⟨requested, only⟩ := held.sends j params old
    -- the order is under way from another task, so that this one asks for something else
    have unasked : ∀ others, ¬ Sending n (w.task i) others :=
      fun others sends => other (only i others sends).symm
    refine ⟨requested.still (still requested.unheard unasked), fun k others sends => ?_⟩
    exact only k others (before k others sends).2
  · change TaskOk p rules n j ((w.setTask i ⟨.answered q r next, (w.task i).log⟩).task j)
    by_cases here : j = i
    · subst here
      rw [World.setTask_same]
      exact own
    · rw [World.setTask_ne _ _ here]
      exact held.tasks j

/-- The exchange answers a request that is not for a message. -/
theorem Inv.asked (held : Inv p rules n w) {i : TradingTask} {service : Service} {q : WireReq}
    {next : Answer wireSig q → Coro Desk wireSig Unit}
    (waiting : (w.task i).phase = .waiting q next) (gentle : GentleTask rules n (w.task i))
    (ok : ∀ task, GentleTask rules n task → TaskOk p rules n i task) :
    Inv p rules n { w.setTask i ⟨.answered q (w.outside.serve rules service q).1 next,
      (w.task i).log⟩ with outside := (w.outside.serve rules service q).2 } := by
  rw [GentleTask, waiting] at gentle
  obtain ⟨other, goes⟩ := gentle
  have after : GentleTask rules n ⟨.answered q (w.outside.serve rules service q).1 next,
      (w.task i).log⟩ := ⟨other, goes _⟩
  have same : received ((w.setTask i ⟨.answered q (w.outside.serve rules service q).1 next,
      (w.task i).log⟩).task .stream) = received (w.task .stream) := by
    by_cases here : TradingTask.stream = i
    · subst here
      rw [World.setTask_same, received_gentle after, received, waiting]
    · rw [World.setTask_ne _ _ here]
  have another : (∀ params, ¬ Sending n (w.task i) params) →
      ∀ params, q = .createOrder params → params.newClientOrderId ≠ .hex n := by
    rintro unasked params rfl named
    exact unasked params ⟨next, waiting, named⟩
  apply held.served waiting _ (ok _ after)
  · rw [same]
    by_cases mine : ∃ params, Sending n (w.task i) params
    · obtain ⟨params, sending⟩ := mine
      obtain ⟨requested, -⟩ := held.sends i params sending
      obtain ⟨next', phase, named⟩ := sending
      cases waiting.symm.trans phase
      rw [Exchange.serve]
      split
      · exact held.book.accepted requested named
      · exact held.book
    · exact held.book.still fun _ =>
        still_serve w.outside service other (another (not_exists.mp mine))
  · rw [same]
    exact fun _ unasked => still_serve w.outside service other (another unasked)

/-- A message goes from the stream to the loop. -/
theorem still_received (x : Exchange) (service : Service) (acts : service.acts = true)
    (kept : service.raises = none) (next : Answer wireSig .streamRecv → Coro Desk wireSig Unit)
    (log : List (Async.Event wireSig)) :
    Still rules n [] x
      (received ⟨.answered .streamRecv (x.serve rules service .streamRecv).1 next, log⟩)
      (x.serve rules service .streamRecv).2 := by
  rw [Exchange.serve, if_pos acts, kept]
  cases held : x.stream with
  | nil =>
    refine ⟨rfl, fun stop member _ => member, ?_, ?_⟩
    · intro message member about
      simp only [received, Exchange.value, Exchange.act, held] at member
      rw [List.mem_singleton.mp member] at about
      exact absurd rfl about
    · simp [received, Exchange.value, Exchange.act, held, messageReport]
  | cons message rest =>
    refine ⟨rfl, fun stop member _ => member, ?_, ?_⟩
    · intro one member _
      simpa [received, Exchange.value, Exchange.act, held] using member
    · simp [received, Exchange.value, Exchange.act, held]

/-- A message gets lost before the exchange has heard of the order. -/
theorem Unheard.dropped {d : Desk} {x : Exchange} (unheard : Unheard rules n [] d x) :
    Still rules n [] x [] { x with stream := x.stream.tail } := by
  refine ⟨rfl, fun stop member _ => member, ?_, ?_⟩
  · exact fun message member _ => List.mem_of_mem_tail member
  · have nothing := (List.append_eq_nil_iff.mp unheard.silent).2
    cases held : x.stream with
    | nil => rfl
    | cons message rest =>
      rw [held, List.nil_append] at nothing
      have silent := List.filterMap_eq_nil_iff.mp nothing message List.mem_cons_self
      simp [silent]

/-- A message gets lost, and a later one makes up for it. -/
theorem Book.dropped {d : Desk} {x : Exchange} (book : Book rules n [] d x)
    (more : ∀ id ∈ x.stream.head?.bind tradedOrder, id ∈ x.stream.tail.filterMap tradedOrder) :
    Book rules n [] d { x with stream := x.stream.tail } := by
  cases held : x.stream with
  | nil =>
    have same : { x with stream := [] } = x := by rw [← held]
    rw [List.tail_nil, same]
    exact book
  | cons message rest =>
    rw [held] at more
    have unheard : Unheard rules n [] d x → Unheard rules n [] d { x with stream := rest } := by
      intro unheard
      have still := unheard.dropped
      rw [held] at still
      exact unheard.still still
    rw [List.tail_cons]
    refine ⟨book.sound, fun above => unheard (book.early above), fun r found => ?_⟩
    cases book.told r found with
    | inl before => exact .inl ⟨unheard before.1, before.2⟩
    | inr heard =>
      obtain ⟨lots, heard⟩ := heard
      refine .inr ⟨lots, heard.dropped held rfl rfl fun about => ?_⟩
      obtain ⟨later, member, named⟩ :=
        List.mem_filterMap.mp (more (.hex n) (tradedOrder_iff.mp about))
      obtain ⟨report, found⟩ := Option.ne_none_iff_exists'.mp (tradedOrder_iff.mpr named)
      exact List.ne_nil_of_mem (List.mem_filterMap.mpr ⟨later, member, found⟩)

/-- The exchange answers the stream loop. -/
theorem serve_message {d : Desk} {x : Exchange} (book : Book rules n [] d x) (service : Service)
    (made : service.acts = true ∧ service.raises ≠ none →
      ∀ id ∈ x.stream.head?.bind tradedOrder, id ∈ x.stream.tail.filterMap tradedOrder)
    (next : Answer wireSig .streamRecv → Coro Desk wireSig Unit)
    (log : List (Async.Event wireSig)) :
    let task : Task Desk wireSig :=
      ⟨.answered .streamRecv (x.serve rules service .streamRecv).1 next, log⟩
    Book rules n (received task) d (x.serve rules service .streamRecv).2 ∧
      (Unheard rules n [] d x →
        Still rules n [] x (received task) (x.serve rules service .streamRecv).2) := by
  cases acts : service.acts with
  | false =>
    simp only [Exchange.serve, acts]
    exact ⟨book, fun _ => .refl x⟩
  | true =>
    cases raises : service.raises with
    | none =>
      have still : Still rules n [] x
          (received ⟨.answered .streamRecv (x.serve rules service .streamRecv).1 next, log⟩)
          (x.serve rules service .streamRecv).2 := still_received x service acts raises next log
      exact ⟨book.still fun _ => still, fun _ => still⟩
    | some e =>
      simp only [Exchange.serve, acts, if_true, raises, Exchange.act, received]
      exact ⟨book.dropped (made ⟨acts, by simp [raises]⟩), fun unheard => unheard.dropped⟩

theorem serve_inv {t : Trading} (held : Inv p rules n t.world) {i : TradingTask} {service : Service}
    {q : WireReq} {next : Answer wireSig q → Coro Desk wireSig Unit}
    (waiting : (t.world.task i).phase = .waiting q next)
    (made : MadeUpFor t (.task (.serve i service))) :
    Inv p rules n { t.world.setTask i ⟨.answered q (t.world.outside.serve rules service q).1 next,
      (t.world.task i).log⟩ with outside := (t.world.outside.serve rules service q).2 } := by
  cases i with
  | caller k => exact held.asked waiting (held.tasks (.caller k)) fun _ task => task
  | dispatcher => exact held.asked waiting (held.tasks .dispatcher) fun _ task => task
  | consumer =>
    have idle : (t.world.task .consumer).phase = .idle := held.tasks .consumer
    rw [waiting] at idle
    cases idle
  | stream =>
    cases held.tasks .stream with
    | inr task => exact held.asked waiting task fun _ task => .inr task
    | inl receiving =>
      -- a receive takes the next message off the stream
      rw [TrackedBook.Receiving, waiting] at receiving
      cases q with
      | streamRecv =>
        have nothing : received (t.world.task .stream) = [] := by rw [received, waiting]
        have book := held.book
        rw [nothing] at book
        have pending := TrackedBook.pending_of_waiting waiting
        obtain ⟨after, still⟩ := serve_message book service (made pending) next
          (t.world.task .stream).log
        apply held.served waiting _ (.inl receiving)
        · rw [World.setTask_same]
          exact after
        · rw [World.setTask_same, nothing]
          exact fun unheard _ => still unheard
      | _ => cases receiving

/-- No stop goes under the id of an order. -/
theorem Book.stops {messages : List UserStreamMessage} {d : Desk} {x : Exchange}
    (book : Book rules n messages d x) (relevant : Relevant n d) :
    ∀ stop ∈ x.stops, stop.clientId ≠ .hex n := by
  cases found : d.manager.getOrder (.hex n) with
  | none => exact (book.early (relevant.resolve_left (by simp [found]))).stops
  | some r =>
    cases book.told r found with
    | inl before => exact before.1.stops
    | inr heard =>
      obtain ⟨lots, heard⟩ := heard
      exact heard.stops

/-- Some of the record's order fills. -/
theorem Told.filled {messages : List UserStreamMessage} {d : Desk} {x : Exchange}
    {r : ManagedOrder} (told : Told rules n messages d x r) {o : ExchangeOrder}
    (member : o ∈ x.orders) (named : o.id = .hex n) {more : ℤ} (positive : 0 < more)
    (room : more ≤ o.quantity - o.filled) (detail : FillDetail)
    (heard : ¬ Unheard rules n messages d x) :
    ∃ lots, Heard rules n messages d (x.fillOrder rules o more detail) r lots := by
  obtain ⟨lots, held⟩ := told.resolve_left fun before => heard before.1
  obtain ⟨same, placed⟩ := placed_fillOrder rules x held.orders member named more detail
  simp only [Prod.mk.injEq] at same
  obtain ⟨quantity, symbol, rfl⟩ := same
  have rest : max (o.quantity - (o.filled + more)) 0 = o.quantity - (o.filled + more) :=
    max_eq_left (by omega)
  refine ⟨o.filled + more, held.grown positive.le ?_ (by rfl) (by rfl) ?_ ?_⟩
  · rw [placed, quantity, symbol]
  · rw [messageReport_trade, if_pos (by simpa [ExchangeOrder.fill] using named), quantity]
    simp only [ExchangeOrder.fill, rest]
  · intro update same
    rw [symbol]
    cases same
    rfl

/-- What the exchange does by itself to another order, or to this one. -/
theorem Book.moved {messages : List UserStreamMessage} {d : Desk} {x y : Exchange}
    (book : Book rules n messages d x) {m : Exchange.Move} (moved : x.move rules m = some y) :
    Book rules n messages d y ∧
      (Unheard rules n messages d x → Still rules n messages x messages y) := by
  cases m with
  | fill id lots detail =>
    simp only [Exchange.move, Option.bind_eq_some_iff] at moved
    obtain ⟨o, found, filled⟩ := moved
    split at filled
    next sized =>
      cases filled
      obtain ⟨member, -, -⟩ := (x.mem_working _ _).mp (x.findWorking_spec found)
      by_cases named : o.id = .hex n
      · have unheard : ¬ Unheard rules n messages d x := by
          intro unheard
          have nothing : x.orders.filter (·.id = .hex n) = [] := by
            simpa [placed] using unheard.orders
          have mine := List.filter_eq_nil_iff.mp nothing o member
          exact mine (by simpa using named)
        refine ⟨⟨book.sound, fun above => absurd (book.early above) unheard, fun r known => ?_⟩,
          fun held => absurd held unheard⟩
        exact .inr ((book.told r known).filled member named sized.1 sized.2 detail unheard)
      · have still : Still rules n messages x messages (x.fillOrder rules o lots detail) :=
          still_fillOrder x named lots detail
        exact ⟨book.still fun _ => still, fun _ => still⟩
    · cases filled
  | trigger id detail =>
    obtain ⟨stop, found, rfl⟩ := Option.map_eq_some_iff.mp moved
    have member := List.mem_of_find?_eq_some found
    refine ⟨book.still fun relevant => ?_, fun unheard => ?_⟩
    · exact still_triggerStop x (book.stops relevant stop member) detail
    · exact still_triggerStop x (unheard.stops stop member) detail
  | expire id =>
    cases moved
    exact ⟨book.still fun _ => still_endOrders x _ _ _, fun _ => still_endOrders x _ _ _⟩
  | cancel id =>
    cases moved
    exact ⟨book.still fun _ => still_endOrders x _ _ _, fun _ => still_endOrders x _ _ _⟩

theorem Inv.moved (held : Inv p rules n w) {m : Exchange.Move} {y : Exchange}
    (moved : w.outside.move rules m = some y) : Inv p rules n { w with outside := y } := by
  obtain ⟨book, still⟩ := held.book.moved moved
  refine ⟨book, fun i params sending => ?_, held.tasks⟩
  obtain ⟨requested, only⟩ := held.sends i params sending
  exact ⟨requested.still (still requested.unheard), only⟩

theorem Inv.remembered (held : Inv p rules n w) {d : Desk}
    (carries : Carries rules n w.outside (received (w.task .stream)) w.memory
      (received (w.task .stream)) d) (sound : Sound rules n d) :
    Inv p rules n { w with memory := d } := by
  refine ⟨held.book.carried carries sound, fun i params sending => ?_, held.tasks⟩
  obtain ⟨requested, only⟩ := held.sends i params sending
  exact ⟨requested.carried carries, only⟩

theorem drift_inv (held : Inv p rules n w) {move : TradingMove} {d : Desk} {y : Exchange}
    (moved : tradingDrift rules w.memory w.outside move = some (d, y)) :
    Inv p rules n { w with memory := d, outside := y } := by
  have gently : ∀ d, Gentle n w.memory d → Inv p rules n { w with memory := d } :=
    fun d gentle => held.remembered gentle.carries (held.book.sound.gentle gentle)
  cases move with
  | exchange m =>
    obtain ⟨x, happened, same⟩ := Option.map_eq_some_iff.mp moved
    cases same
    exact held.moved happened
  | load symbol =>
    cases moved
    have sound := held.book.sound
    apply held.remembered
    · refine ⟨le_rfl, fun s member => (Dict.mem_keys_set _ _ _ _).mpr (.inr member), ?_, ?_,
        fun _ member => member, fun _ => rfl⟩
      · exact fun r found => ⟨r, found, .refl r⟩
      · intro absent r found
        have known : w.memory.manager.getOrder (.hex n) = some r := found
        rw [absent] at known
        cases known
    · refine ⟨fun s filt found => ?_, sound.own, sound.early⟩
      rw [Dict.get?_set] at found
      split at found
      next here =>
        cases found
        rw [here]
      next => exact sound.loaded s filt found
  | publish event =>
    cases event with
    | order event => cases moved
    | _ =>
      cases moved
      exact gently _ (.elsewhere le_rfl rfl rfl)
  | clock clock =>
    cases moved
    exact gently _ (.elsewhere le_rfl rfl rfl)

/-- A process starts without records, and draws ids that the exchange has not seen. -/
theorem started_inv (p : DeskParams) (rules : ExchangeRules) (symbols : List Symbol) {uuids : Uuids}
    (clock : Clock) {x : Exchange} (orders : uuids.drawn ≤ n → placed n x = [])
    (stops : uuids.drawn ≤ n → ∀ stop ∈ x.stops, stop.clientId ≠ .hex n) :
    Inv p rules n (Trading.started rules symbols uuids clock x).world := by
  refine ⟨⟨⟨?_, ?_, ?_⟩, ?_, ?_⟩, ?_, ?_⟩
  · exact fun symbol filt found => Desk.fresh_loaded found
  · intro id other found
    cases found
  · exact fun known => absurd rfl known
  · exact fun above => ⟨orders above, stops above, rfl⟩
  · intro r found
    cases found
  · rintro i params ⟨next, waiting, -⟩
    cases waiting
  · intro i
    cases i with
    | consumer => rfl
    | stream => exact .inr trivial
    | _ => trivial

theorem step_inv {t t' : Trading} {act : Trading.Act} (held : Inv p rules n t.world)
    (made : MadeUpFor t act) (moved : Trading.step rules p t act = some t') :
    Inv p rules n t'.world := by
  cases act with
  | restart symbols =>
    cases moved
    exact started_inv p rules symbols _ (fun above => (held.book.early above).orders)
      fun above => (held.book.early above).stops
  | task label =>
    obtain ⟨v, stepped, rfl⟩ := Option.map_eq_some_iff.mp moved
    rcases System.step_cases _ stepped with ⟨i, command, c, rfl, idle, found, rfl⟩ |
      ⟨i, service, q, next, r, y, rfl, waiting, served, rfl⟩ |
      ⟨i, q, r, next, rfl, answered, rfl⟩ | ⟨move, d, y, rfl, drifted, rfl⟩
    · exact start_inv held idle found
    · have answer : t.world.outside.serve rules service q = (r, y) := Option.some.inj served
      obtain rfl : r = (t.world.outside.serve rules service q).1 := by rw [answer]
      obtain rfl : y = (t.world.outside.serve rules service q).2 := by rw [answer]
      exact serve_inv held waiting made
    · exact resume_inv held answered _
    · exact drift_inv held drifted

end Steps

/-- The fill reports about an order that its record has not seen yet, oldest first. -/
def onTheWay (rules : ExchangeRules) (id : OrderId) (t : Trading) : List (ℤ × ℤ) :=
  reports rules id (received (t.world.task .stream)) t.world.memory t.world.outside

/-- Whatever is submitted, cancelled and filled in a run, and whenever the process starts again:
a record that the exchange has no order of has seen no fill. Any other record is of just one
order there, its quantities add up, what is on its way to it lies between its filled quantity
and the order's, and the two agree once nothing is. A fill report may get lost as long as there
is a later one about the same order. -/
theorem records_catch_up (p : DeskParams) (rules : ExchangeRules) (n : ℕ) (symbols : List Symbol)
    (uuids : Uuids) (clock : Clock) (x : Exchange) (acts : List Trading.Act) (t : Trading)
    (r : ManagedOrder) (orders : ∀ o ∈ x.orders, OcaDesk.Early uuids.drawn o.id)
    (stops : ∀ stop ∈ x.stops, OcaDesk.Early uuids.drawn stop.clientId)
    (made : Machine.Meets (Trading.step rules p) MadeUpFor
      (Trading.started rules symbols uuids clock x) acts)
    (reached : Machine.run (Trading.step rules p)
      (Trading.started rules symbols uuids clock x) acts = some t)
    (recorded : t.world.memory.manager.getOrder (.hex n) = some r) :
    t.world.outside.orders.filter (·.id = .hex n) = [] ∧ onTheWay rules (.hex n) t = [] ∧
        r.filledQuantity = 0 ∧ r.remainingQuantity = r.quantity ∨
      ∃ o, t.world.outside.orders.filter (·.id = .hex n) = [o] ∧
        o.quantity = r.quantity ∧ o.symbol = r.symbol ∧
        r.filledQuantity + r.remainingQuantity = r.quantity ∧ r.filledQuantity ≤ o.filled ∧
        (∀ report ∈ onTheWay rules (.hex n) t,
          r.filledQuantity ≤ report.1 ∧ report.1 ≤ o.filled) ∧
        (onTheWay rules (.hex n) t = [] → r.filledQuantity = o.filled) := by
  have start : Inv p rules n (Trading.started rules symbols uuids clock x).world := by
    apply started_inv
    · intro above
      rw [placed, List.map_eq_nil_iff, List.filter_eq_nil_iff]
      intro o member named
      have early := orders o member n (by simpa using named)
      omega
    · intro above stop member named
      have early := stops stop member n named
      omega
  have held : Inv p rules n t.world :=
    Machine.run_invariant (fun t : Trading => Inv p rules n t.world) (fun _ _ _ => step_inv) _ acts
      t start made reached
  cases held.book.told r recorded with
  | inl before =>
    obtain ⟨unheard, untouched⟩ := before
    exact .inl ⟨List.map_eq_nil_iff.mp unheard.orders, unheard.silent, untouched.filled,
      untouched.remaining⟩
  | inr heard =>
    obtain ⟨lots, heard⟩ := heard
    obtain ⟨o, only, same⟩ := List.map_eq_singleton_iff.mp heard.orders
    simp only [Prod.mk.injEq] at same
    obtain ⟨quantity, symbol, rfl⟩ := same
    have catchesUp := heard.catchesUp
    have rising := (List.pairwise_cons.mp catchesUp.rising).1
    refine .inr ⟨o, only, quantity, symbol, ?_, catchesUp.behind, fun report member => ?_, ?_⟩
    · have rest := heard.remaining
      omega
    · have there := List.mem_map_of_mem (f := Prod.fst) member
      exact ⟨rising _ there, catchesUp.le_actual _ (List.mem_cons_of_mem _ there)⟩
    · intro nothing
      have silent : reports rules (.hex n) (received (t.world.task .stream)) t.world.memory
          t.world.outside = [] := nothing
      rw [silent] at catchesUp
      exact catchesUp.settled

/-! ## Some runs -/

/-- Five lots fill in two parts, and the first report gets lost. -/
def patched : List Trading.Act :=
  TrackedBook.sent .buy 5 ++ [TrackedBook.filling 0 2, TrackedBook.filling 0 3] ++
    TrackedBook.turn .stream .receive 1 { raises := some "ConnectionClosed" } ++
    TrackedBook.passed 3 {}

/-- The last report gets lost. -/
def orphaned : List Trading.Act :=
  TrackedBook.sent .buy 5 ++ [TrackedBook.filling 0 2, TrackedBook.filling 0 3] ++
    TrackedBook.passed 3 {} ++
    TrackedBook.turn .stream .receive 1 { raises := some "ConnectionClosed" }

/-- What the record has seen of the first order, what is on its way, and what has filled. -/
def caughtUp (t : Trading) : Option ℤ × List (ℤ × ℤ) × List ℤ :=
  ((t.world.memory.manager.getOrder (.hex 0)).map (·.filledQuantity),
    onTheWay demoRules (.hex 0) t, t.world.outside.orders.map (·.filled))

theorem records_catch_up_patched : ∃ t r o, TrackedBook.ran patched = some t ∧
    t.world.memory.manager.getOrder (.hex 0) = some r ∧
    t.world.outside.orders.filter (·.id = .hex 0) = [o] ∧ r.filledQuantity = o.filled ∧
    r.filledQuantity = 5 := by
  obtain ⟨t, reached, shown⟩ := Option.map_eq_some_iff.mp
    (show (TrackedBook.ran patched).map caughtUp = some (some 5, [], [5]) by decide +kernel)
  simp only [caughtUp, Prod.mk.injEq, Option.map_eq_some_iff] at shown
  obtain ⟨⟨r, recorded, filled⟩, nothing, -⟩ := shown
  have held := records_catch_up DeskParams.demoDesk demoRules 0 ["BTCUSDT"] ⟨0⟩ ⟨0, 0⟩
    { position := fun _ => 0 } patched t r (by nofun) (by nofun) (by decide +kernel) reached
    recorded
  cases held with
  | inl before =>
    have unseen := before.2.2.1
    omega
  | inr heard =>
    obtain ⟨o, only, -, -, -, -, -, level⟩ := heard
    exact ⟨t, r, o, reached, recorded, only, level nothing, filled⟩

/-- A record that has missed the last report stays behind. -/
example : (TrackedBook.ran orphaned).map caughtUp = some (some 2, [], [5]) := by decide +kernel

end ManagedFills

end Binbot
