import Binbot.Execution.ManagerCalls
import Binbot.Properties.ClosingLive
import Binbot.Scripts.TaskRules

/-!
# An operator's flatten

Flatten reads the account once and sends one market order for each position that it has read.
While it waits, messages are handled, orders fill, prices move: none of this places an order or
touches the filters, so that every position that was held at the reading gets its close.
-/
namespace Binbot

open Async Data BinanceFuturesBroker ClosingLive

namespace FlattenAll

/-! ## What has been ordered -/

/-- What an order is for, whatever becomes of it. -/
structure Ticket where
  symbol : Symbol
  side : OrderSide
  orderType : OrderType
  quantity : ℤ
  deriving DecidableEq

def ticket (o : ExchangeOrder) : Ticket := ⟨o.symbol, o.side, o.orderType, o.quantity⟩

def tickets (x : Exchange) : List Ticket := x.orders.map ticket

/-- The market order that closes so many lots of a symbol. -/
def closing (e : Symbol × ℤ) : Ticket := ⟨e.1, .closing e.2, .market, |e.2|⟩

section Market

variable (rules : ExchangeRules) (x : Exchange)

theorem tickets_endOrders (standing : Standing) (status : WireStatus)
    (test : ExchangeOrder → Bool) :
    tickets (x.endOrders rules standing status test) = tickets x := by
  simp only [tickets, Exchange.endOrders, List.map_map]
  apply List.map_congr_left
  intro o _
  by_cases ends : o.standing = .working ∧ test o
  · simp [ends, ticket]
  · simp [ends]

theorem tickets_fillOrder (o : ExchangeOrder) (lots : ℤ) (detail : FillDetail) :
    tickets (x.fillOrder rules o lots detail) = tickets x := by
  simp only [tickets, Exchange.fillOrder, List.map_map]
  apply List.map_congr_left
  intro other _
  by_cases here : other = o
  · simp [here, ticket, ExchangeOrder.fill]
  · simp [here]

/-- The exchange orders nothing by itself. -/
theorem tickets_move {m : Exchange.Move} {y : Exchange} (moved : x.move rules m = some y) :
    tickets y = tickets x := by
  cases m with
  | fill id lots detail =>
    simp only [Exchange.move, Option.bind_eq_some_iff] at moved
    obtain ⟨o, -, filled⟩ := moved
    split at filled
    · cases filled
      exact tickets_fillOrder rules x o lots detail
    · cases filled
  | trigger id detail =>
    obtain ⟨stop, -, rfl⟩ := Option.map_eq_some_iff.mp moved
    rfl
  | expire id =>
    cases moved
    exact tickets_endOrders rules x _ _ _
  | cancel id =>
    cases moved
    exact tickets_endOrders rules x _ _ _

/-- Of the requests, only an accepted plain order is a new one. -/
theorem tickets_serve (service : Service) {q : WireReq}
    (other : ∀ params, q ≠ .createOrder params) :
    tickets (x.serve rules service q).2 = tickets x := by
  rw [Exchange.serve]
  split
  · cases q with
    | createOrder params => exact absurd rfl (other params)
    | cancelOrder symbol id => exact tickets_endOrders rules x _ _ _
    | cancelAllOpenOrders symbol =>
      exact tickets_endOrders rules x .cancelled .canceled (·.symbol = symbol)
    | _ => rfl
  · rfl

theorem tickets_accepted {service : Service} (acts : service.acts = true) {params : OrderParams}
    {lots : ℤ} (plain : Exchange.wireLots rules params.symbol params.order = some lots) :
    tickets (x.serve rules service (.createOrder params)).2 =
      tickets x ++ [⟨params.symbol, params.side, params.order.orderType, lots⟩] := by
  simp [Exchange.serve, acts, Exchange.act, Exchange.accept, plain, tickets, ticket]

end Market

/-! ## What happens beside it -/

section Beside

variable (p : DeskParams) (rules : ExchangeRules)

/-- Since then nothing has been ordered, and the filters are the same. -/
def Idle (s t : DeskState) : Prop :=
  tickets t.exchange = tickets s.exchange ∧ t.desk.broker.filters = s.desk.broker.filters

/-- Programs that order nothing. -/
def orderless : Contract Exchange Desk wireSig where
  issue q _ _ := ∀ params, q ≠ .createOrder params
  rely _ _ x d y d' := Idle ⟨d, x⟩ ⟨d', y⟩
  guar _ _ := True

def Still (s : DeskState) (x : Exchange) (d : Desk) : Prop := Idle s ⟨d, x⟩

variable {s t u : DeskState}

theorem Idle.refl (s : DeskState) : Idle s s := ⟨rfl, rfl⟩

theorem Idle.trans (first : Idle s t) (second : Idle t u) : Idle s u :=
  ⟨second.1.trans first.1, second.2.trans first.2⟩

theorem still_request {q : WireReq} (other : ∀ params, q ≠ .createOrder params) :
    (Coro.request (S := wireSig) q : Coro Desk wireSig (wireSig.Reply q)).Keeps orderless
      (Still s) := by
  apply Coro.keeps_request
  · exact fun x d _ => other
  · exact fun r x d y d' held idle => held.trans idle

theorem still_update {τ : Type} [Part Desk τ] {f : τ → τ}
    (filters : ∀ d : Desk, (Part.set d (f (Part.view d))).broker.filters = d.broker.filters) :
    (Coro.update f : Coro Desk wireSig Unit).Keeps orderless (Still s) :=
  Coro.keeps_update fun _ d held => ⟨trivial, held.1, (filters d).trans held.2⟩

theorem still_stream : StreamRules orderless (Still s) where
  receives := still_request (by simp)
  cancels symbol id := still_request (by simp)
  puts event := still_update fun _ => rfl
  empties group := still_update fun _ => rfl

theorem still_consumeOne :
    (OrderLifecycleManager.consumeOne : Coro Desk wireSig Unit).Keeps orderless (Still s) := by
  refine Coro.keeps_view.bind fun broker => ?_
  split
  · exact Coro.keeps_pure ()
  next event rest first =>
    refine (still_update fun _ => rfl).bind fun _ => ?_
    refine Coro.Keeps.tryCatch ?_ fun _ => Coro.keeps_pure ()
    refine Coro.keeps_view.bind fun m => (still_update fun _ => rfl).bind fun _ => ?_
    split
    · exact Coro.keeps_pure ()
    · exact still_update fun _ => rfl

/-- Run alone, such a program orders nothing. -/
theorem alone_idle {c : Coro Desk wireSig Unit} (keeps : c.Keeps orderless (Still s))
    (service : Service) : Idle s (s.alone rules c service) := by
  apply (keeps s.exchange s.desk (.refl s)).exec
  exact fun q x d other => ⟨tickets_serve rules x service other, rfl⟩

theorem happen_idle (s : DeskState) (b : Beside) : Idle s (happen p rules s b) := by
  cases b with
  | receive service => exact alone_idle rules (still_stream.receive (p := p)) service
  | consume => exact alone_idle rules still_consumeOne {}
  | move m =>
    cases moved : s.exchange.move rules m with
    | none => exact ⟨by simp [happen, moved], rfl⟩
    | some y => exact ⟨by simpa [happen, moved] using tickets_move rules _ moved, rfl⟩
  | feed symbol price => exact ⟨rfl, rfl⟩
  | clock clock => exact ⟨rfl, rfl⟩

theorem happened_idle (s : DeskState) (bs : List Beside) : Idle s (happened p rules s bs) := by
  induction bs generalizing s with
  | nil => exact .refl s
  | cons b bs ih => exact (happen_idle p rules s b).trans (ih _)

end Beside

/-! ## The program -/

section Program

variable (p : DeskParams) (rules : ExchangeRules) (start : (Exchange × ℕ) × Desk)
  (rows : List PositionRow)

/-- What flatten relies on: it reads the account once, at its start, and gets these rows; an
audit line goes out, and a plain order is taken. -/
def flattenContract : Contract (Exchange × ℕ) Desk wireSig where
  issue q w d := q = .positionInformation → (w, d) = start
  rely q r w d w' d' :=
    d'.broker.filters = d.broker.filters ∧
    (q = .positionInformation → DeskParams.rowsOf ⟨q, r⟩ = some rows) ∧
    (∀ entry, q = .pushAudit entry → r.isOk = true) ∧
    (∀ params lots, q = .createOrder params →
      Exchange.wireLots rules params.symbol params.order = some lots →
        tickets w'.1 =
          tickets w.1 ++ [⟨params.symbol, params.side, params.order.orderType, lots⟩]) ∧
    ((∀ params, q ≠ .createOrder params) → tickets w'.1 = tickets w.1)
  guar _ _ := True

/-- These positions have had their closes ordered, and nothing else has been. -/
structure Closed (filters : Dict Symbol SymbolFilters) (base : List Ticket)
    (done : List (Symbol × ℤ)) (w : Exchange × ℕ) (d : Desk) : Prop where
  filters : d.broker.filters = filters
  ordered : tickets w.1 = base ++ done.map closing

/-- The filters are loaded, and the position is no smaller than the smallest order. -/
def Tradable (filters : Dict Symbol SymbolFilters) (e : Symbol × ℤ) : Prop :=
  ∃ filt ∈ filters.get? e.1, filt.minQty ≤ filt.lotsToQuantity |e.2|

variable {filters : Dict Symbol SymbolFilters} {base : List Ticket}
  {done : List (Symbol × ℤ)} {e : Symbol × ℤ} {w : Exchange × ℕ} {d : Desk}

/-- The order goes out, whether or not its response comes back. -/
theorem placeOrder_closes {request : BrokerOrderRequest} (held : Closed filters base done w d)
    (tradable : Tradable filters e)
    (loaded : ∀ s filt, filters.get? s = some filt → filt = rules.spec s)
    (symbol : request.symbol = e.1) (side : request.side = .closing e.2)
    (quantity : request.quantity = |e.2|) (market : request.orderType = .market) :
    (p.broker.placeOrder request).Obeys (flattenContract rules start rows)
      (fun r w d => r.isOk = true ∧ Closed filters base (done ++ [e]) w d) w d := by
  obtain ⟨filt, found, enough⟩ := tradable
  have read : (Part.view d : BrokerState).filters.get? request.symbol = some filt := by
    rw [symbol, ← found, ← held.filters]
    rfl
  have wired : wireOrder request filt = .ok (.market (filt.lotsToQuantity |e.2|)) := by
    rw [wireOrder, market, quantity]
  have big : ¬ filt.lotsToQuantity request.quantity < filt.minQty := by
    rw [quantity]
    exact not_lt.mpr enough
  have regular := rules.regular e.1
  -- on the wire the quantity is one of the asset, which the exchange reads as so many lots
  have lots : Exchange.wireLots rules request.symbol (.market (filt.lotsToQuantity |e.2|)) =
      some |e.2| := by
    rw [loaded e.1 filt found, symbol]
    simp only [Exchange.wireLots, regular.lotsToQuantity_eq, regular.quantityToLots_lots]
  simp only [placeOrder, Coro.obeys_bind, Coro.obeys_view]
  rw [read]
  dsimp only
  rw [if_neg big, Coro.obeys_bind, Coro.obeys_update]
  refine ⟨trivial, ?_⟩
  dsimp only
  rw [wired]
  simp only [Coro.obeys_tryCatch, Coro.obeys_bind, p.broker_createOrder, Coro.obeys_request]
  constructor
  · intro issued
    cases issued
  rintro r w' d' ⟨same, -, -, ordered, -⟩
  -- the order is there before it is known whether the call raises
  have after : Closed filters base (done ++ [e]) w' d' := by
    constructor
    · rw [same, ← held.filters]
      exact BrokerState.register_filters d.broker request
    · rw [ordered _ _ rfl lots, held.ordered, symbol, side]
      simp [closing, WireOrder.orderType]
  cases r with
  | ok stop => exact ⟨rfl, after⟩
  | error raised => exact ⟨trivial, rfl, after.filters, after.ordered⟩

theorem submit_closes (held : Closed filters base done w d) (tradable : Tradable filters e)
    (loaded : ∀ s filt, filters.get? s = some filt → filt = rules.spec s) (strategyId : String)
    (price : Option ℚ) :
    (p.submit (closeSignal strategyId e.1 e.2) price).Obeys (flattenContract rules start rows)
      (fun r w d => r.isOk = true ∧ Closed filters base (done ++ [e]) w d) w d := by
  simp only [DeskParams.submit, OrderLifecycleManager.submit, OrderLifecycleManager.uuid4,
    Coro.obeys_bind, Coro.obeys_view, Coro.obeys_update, Coro.obeys_pure]
  refine ⟨trivial, trivial, ?_⟩
  have noted : Closed filters base done w
      { d with
        uuids := { d.uuids with drawn := d.uuids.drawn + 1 }
        manager := d.manager.noting (.hex d.uuids.drawn)
          (closeSignal strategyId e.1 e.2) price } := ⟨held.filters, held.ordered⟩
  refine (placeOrder_closes p rules start rows noted tradable loaded ?_ ?_ ?_ ?_).mono ?_
  · rfl
  · rfl
  · simp [ManagedOrder.request, ManagedOrder.ofSignal, closeSignal]
  · rfl
  · rintro r w' d' ⟨returned, after⟩
    cases r with
    | ok _ => exact ⟨rfl, after⟩
    | error _ => cases returned

/-- One pass after the other. -/
theorem loop_closes (loaded : ∀ s filt, filters.get? s = some filt → filt = rules.spec s)
    (items : List (Symbol × ℤ)) (tradable : ∀ e ∈ items, Tradable filters e)
    (held : Closed filters base [] w d) :
    (Coro.forEach (fun e : Symbol × ℤ => do
      let m : ScannerState ← Coro.view
      p.flatten.submit (closeSignal "operator-flatten" e.1 e.2) (m.feed.get? e.1)) items).Obeys
      (flattenContract rules start rows)
      (fun r w d => r.isOk = true ∧ Closed filters base items w d) w d := by
  apply Coro.obeys_forEach fun rest w d =>
    ∃ done, done ++ rest = items ∧ Closed filters base done w d
  · rintro e rest w d ⟨done, whole, closed⟩
    have member : e ∈ items := by
      rw [← whole]
      exact List.mem_append_right _ List.mem_cons_self
    rw [Coro.obeys_bind, Coro.obeys_view]
    refine (submit_closes p rules start rows closed (tradable e member) loaded _ _).mono ?_
    rintro r w' d' ⟨returned, after⟩
    cases r with
    | ok _ => exact ⟨done ++ [e], by simpa using whole, after⟩
    | error _ => cases returned
  · rintro w d ⟨done, whole, closed⟩
    rw [List.append_nil] at whole
    exact ⟨rfl, whole ▸ closed⟩
  · exact ⟨[], rfl, held⟩

/-- The audit line comes back, and nothing has been ordered meanwhile. -/
theorem pushAudit_returns (held : Closed filters base done w d) (entry : AuditEntry) :
    (p.flatten.pushAudit entry).Obeys (flattenContract rules start rows)
      (fun r w d => r.isOk = true ∧ Closed filters base done w d) w d := by
  have asked : p.flatten.pushAudit entry =
    (Coro.request (S := wireSig) (.pushAudit entry) : Coro Desk wireSig Unit) := rfl
  rw [asked, Coro.obeys_request]
  constructor
  · intro issued
    cases issued
  · rintro r w' d' ⟨same, -, told, -, quiet⟩
    refine ⟨told entry rfl, ?_, ?_⟩
    · rw [same, held.filters]
    · rw [quiet (by simp), held.ordered]

/-- The positions to close. -/
def openPositions (filters : Dict Symbol SymbolFilters) (rows : List PositionRow) :
    List (Symbol × ℤ) := (DeskParams.heldIn filters rows).entries.filter fun e => e.2 ≠ 0

theorem flatten_closes (loaded : ∀ s filt, filters.get? s = some filt → filt = rules.spec s)
    (tradable : ∀ e ∈ openPositions filters rows, Tradable filters e)
    (held : Closed filters base [] start.1 start.2) :
    p.flatten.flattenAllPositions.Obeys (flattenContract rules start rows)
      (fun r w d => r.isOk = true ∧ Closed filters base (openPositions filters rows) w d)
      start.1 start.2 := by
  have called : p.broker.client.positionInformation =
    Coro.request (S := wireSig) .positionInformation := rfl
  have reads : p.flatten.broker.getPositions = p.broker.getPositions := rfl
  rw [FlattenPorts.flattenAllPositions, reads, getPositions, called]
  simp only [Coro.obeys_bind, Coro.obeys_request]
  -- the reading is the first request, at the state that flatten starts in
  refine ⟨fun _ => rfl, ?_⟩
  rintro r w d ⟨same, read, -, -, quiet⟩
  have after : Closed filters base [] w d := by
    constructor
    · rw [same, held.filters]
    · rw [quiet (by simp), held.ordered]
  cases r with
  | error raised => cases read rfl
  | ok listed =>
    cases read rfl
    simp only [Coro.obeys_view, Coro.obeys_pure]
    have positions : (Dict.ofList ((openRows (Part.view d : BrokerState).filters rows).map
        fun e => (e.1.symbol, lotsHeld e.1 e.2))) = DeskParams.heldIn filters rows := by
      rw [← after.filters]
      rfl
    rw [positions]
    change (if (openPositions filters rows).isEmpty then _ else _ : Coro Desk wireSig Unit).Obeys
      _ _ _ _
    split
    next nothing =>
      rw [List.isEmpty_iff.mp nothing]
      exact pushAudit_returns p rules start rows after _
    next =>
      apply Coro.Obeys.bind (pushAudit_returns p rules start rows after _)
      · rintro _ w' d' ⟨-, before⟩
        exact loop_closes p rules start rows loaded _ tradable before
      · rintro e w' d' ⟨⟨⟩, -⟩

end Program

/-! ## A whole flatten -/

section Whole

variable (p : DeskParams) (rules : ExchangeRules) (turns : Turns) (d : Desk) (x : Exchange)

/-- The account is read, an audit line goes out, and an order is taken even if the response to
it is lost. -/
def Attends (w : Exchange × ℕ) (_ : Desk) (q : WireReq) : Prop :=
  match q with
  | .positionInformation => (turns w.2 q).service.acts = true ∧ (turns w.2 q).service.raises = none
  | .pushAudit _ => (turns w.2 q).service.acts = true ∧ (turns w.2 q).service.raises = none
  | .createOrder _ => (turns w.2 q).service.acts = true
  | _ => True

instance (w : Exchange × ℕ) (d : Desk) : (q : WireReq) → Decidable (Attends turns w d q)
  | .positionInformation => inferInstanceAs (Decidable (_ ∧ _))
  | .pushAudit _ => inferInstanceAs (Decidable (_ ∧ _))
  | .createOrder _ => inferInstanceAs (Decidable (_ = _))
  | .exchangeInfo => .isTrue trivial
  | .changeMarginType _ _ => .isTrue trivial
  | .changeLeverage _ _ => .isTrue trivial
  | .leverageBracket _ => .isTrue trivial
  | .cancelOrder _ _ => .isTrue trivial
  | .cancelOrderById _ _ => .isTrue trivial
  | .cancelAllOpenOrders _ => .isTrue trivial
  | .account => .isTrue trivial
  | .streamRecv => .isTrue trivial
  | .broadcast _ => .isTrue trivial
  | .notify _ => .isTrue trivial

instance (c : Coro Desk wireSig Unit) (w : Exchange × ℕ) (d : Desk) :
    Decidable (c.RunMeets (serveAmong p rules turns) (Attends turns) w d) :=
  Coro.decideRunMeets _ (fun _ _ _ => inferInstance) _ _ _

/-- The exchange as flatten reads the account. -/
def atReading : Exchange := (happened p rules ⟨d, x⟩ (turns 0 .positionInformation).before).exchange

/-- The rows of the reading. -/
def rowsRead : List PositionRow :=
  (turns 0 .positionInformation).service.marks.map ((atReading p rules turns d x).row rules)

variable {p rules turns d x}

theorem attends_rely {q : WireReq} {w : Exchange × ℕ} {d' : Desk}
    (issued : q = .positionInformation → (w, d') = ((x, 0), d)) (attends : Attends turns w d' q) :
    (flattenContract rules ((x, 0), d) (rowsRead p rules turns d x)).rely q
      (serveAmong p rules turns w d' q).1 w d' (serveAmong p rules turns w d' q).2.1
      (serveAmong p rules turns w d' q).2.2 := by
  have before := happened_idle p rules ⟨d', w.1⟩ (turns w.2 q).before
  have after := happened_idle p rules
    ⟨(happened p rules ⟨d', w.1⟩ (turns w.2 q).before).desk,
      ((happened p rules ⟨d', w.1⟩ (turns w.2 q).before).exchange.serve rules
        (turns w.2 q).service q).2⟩ (turns w.2 q).after
  refine ⟨after.2.trans before.2, ?_, ?_, ?_, ?_⟩
  -- what happens beside the request orders nothing, so the new tickets are the request's
  · rintro rfl
    obtain ⟨acts, raises⟩ := attends
    cases issued rfl
    simp only [serveAmong, Exchange.serve, acts, raises, if_true]
    rfl
  · rintro entry rfl
    obtain ⟨acts, raises⟩ := attends
    simp only [serveAmong, Exchange.serve, acts, raises, if_true]
    rfl
  · rintro params lots rfl plain
    refine after.1.trans ?_
    rw [tickets_accepted rules _ attends plain, before.1]
  · intro other
    refine after.1.trans ?_
    rw [tickets_serve rules _ _ other, before.1]

/-- What the reading says of each symbol. -/
theorem heldIn_rowsRead
    (loaded : ∀ s filt, d.broker.filters.get? s = some filt → filt = rules.spec s)
    (listed : ∀ s, (atReading p rules turns d x).position s ≠ 0 →
      s ∈ (turns 0 .positionInformation).service.marks.map Prod.fst)
    (known : ∀ s, (atReading p rules turns d x).position s ≠ 0 →
      d.broker.filters.get? s ≠ none) (s : Symbol) :
    (DeskParams.heldIn d.broker.filters (rowsRead p rules turns d x)).get? s =
      if (atReading p rules turns d x).position s = 0 then none
      else some ((atReading p rules turns d x).position s) := by
  have shows : ∀ row filt, (row, filt) ∈ openRows d.broker.filters (rowsRead p rules turns d x) →
      lotsHeld row filt = (atReading p rules turns d x).position row.symbol ∧
        (atReading p rules turns d x).position row.symbol ≠ 0 := by
    intro row filt member
    obtain ⟨there, found, nonzero⟩ := DeskParams.mem_openRows member
    obtain ⟨mark, -, rfl⟩ := List.mem_map.mp there
    have spec := loaded _ filt found
    refine ⟨DeskParams.lotsHeld_of_position (spec ▸ rules.regular _) (by rw [spec]; rfl), ?_⟩
    intro flat
    apply nonzero
    have amount : ((atReading p rules turns d x).row rules mark).positionAmt =
        (atReading p rules turns d x).position mark.1 * (rules.spec mark.1).stepSize := rfl
    have nothing : (atReading p rules turns d x).position mark.1 = 0 := flat
    rw [amount, nothing, Int.cast_zero, zero_mul]
  cases got : (DeskParams.heldIn d.broker.filters (rowsRead p rules turns d x)).get? s with
  | some lots =>
    obtain ⟨row, filt, member, rfl, rfl⟩ := DeskParams.heldIn_row got
    obtain ⟨same, nonzero⟩ := shows row filt member
    rw [if_neg nonzero, same]
  | none =>
    split
    · rfl
    next nonzero =>
      -- the row of a symbol that is held is in the listing
      exfalso
      obtain ⟨mark, member, rfl⟩ := List.mem_map.mp (listed s nonzero)
      obtain ⟨filt, found⟩ := Option.ne_none_iff_exists'.mp (known _ nonzero)
      have spec := loaded _ filt found
      have step : filt.stepSize ≠ 0 := spec ▸ (rules.regular mark.1).step_pos.ne'
      apply (Dict.get?_eq_none_iff _ _).mp got
      rw [DeskParams.heldIn, Dict.mem_keys_ofList, List.map_map, List.mem_map]
      refine ⟨((atReading p rules turns d x).row rules mark, filt), ?_, rfl⟩
      rw [openRows, List.mem_filterMap]
      refine ⟨_, List.mem_map.mpr ⟨mark, member, rfl⟩, ?_⟩
      have amount : ((atReading p rules turns d x).row rules mark).positionAmt ≠ 0 := by
        apply mul_ne_zero
        · exact_mod_cast nonzero
        · exact spec ▸ step
      have here : d.broker.filters.get? ((atReading p rules turns d x).row rules mark).symbol =
          some filt := found
      rw [here]
      simp [amount]

end Whole

/-- Whatever happens meanwhile to other orders, to the stream and to the prices: if the reading
lists all positions and each of them can be traded, then flatten returns, and it has had one
order accepted for each symbol that was held at the reading, of the market type, for all of the
position and on the other side, and no order besides. -/
theorem flatten_closes_all (p : DeskParams) (rules : ExchangeRules) (turns : Turns) (d : Desk)
    (x : Exchange) (loaded : ∀ s filt, d.broker.filters.get? s = some filt → filt = rules.spec s)
    (listed : ∀ s, (atReading p rules turns d x).position s ≠ 0 →
      s ∈ (turns 0 .positionInformation).service.marks.map Prod.fst)
    (tradable : ∀ s, (atReading p rules turns d x).position s ≠ 0 →
      Tradable d.broker.filters (s, (atReading p rules turns d x).position s))
    (attended : p.flatten.flattenAllPositions.RunMeets (serveAmong p rules turns)
      (Attends turns) (x, 0) d) :
    let outcome := p.flatten.flattenAllPositions.runAmong (serveAmong p rules turns) (x, 0) d
    outcome.result.isOk = true ∧ ∃ closes, tickets outcome.outside.1 = tickets x ++ closes ∧
      ∀ s, closes.filter (fun close => close.symbol = s) =
        if (atReading p rules turns d x).position s = 0 then []
        else [⟨s, .closing ((atReading p rules turns d x).position s), .market,
          |(atReading p rules turns d x).position s|⟩] := by
  have known : ∀ s, (atReading p rules turns d x).position s ≠ 0 →
      d.broker.filters.get? s ≠ none := by
    intro s nonzero
    obtain ⟨filt, found, -⟩ := tradable s nonzero
    rw [found]
    exact Option.some_ne_none filt
  have held := heldIn_rowsRead loaded listed known
  have closable : ∀ e ∈ openPositions d.broker.filters (rowsRead p rules turns d x),
      Tradable d.broker.filters e := by
    rintro ⟨s, lots⟩ member
    have got := (Dict.mem_entries_iff _ s lots).mp (List.mem_filter.mp member).1
    rw [held s] at got
    split at got
    · cases got
    next nonzero =>
      cases got
      exact tradable s nonzero
  obtain ⟨returned, closed⟩ := (flatten_closes p rules ((x, 0), d) (rowsRead p rules turns d x)
    loaded closable ⟨rfl, (List.append_nil (tickets x)).symm⟩).runAmong attended
    fun q w d' => attends_rely
  refine ⟨returned, _, closed.ordered, fun s => ?_⟩
  have one : (openPositions d.broker.filters (rowsRead p rules turns d x)).filter
      (fun e => e.1 = s) = if (atReading p rules turns d x).position s = 0 then []
        else [(s, (atReading p rules turns d x).position s)] := by
    rw [openPositions, List.filter_comm, Dict.filter_key, held s]
    split
    · rfl
    next nonzero => simp [nonzero]
  have kept : (fun e : Symbol × ℤ => decide ((closing e).symbol = s)) = fun e => decide (e.1 = s) := rfl
  rw [List.filter_map, Function.comp_def, kept, one]
  split
  · rfl
  · rfl

/-- Long five lots of BTCUSDT and short three of ETHUSDT, with an order at work. -/
def bothHeld : Exchange where
  position s := if s = "BTCUSDT" then 5 else if s = "ETHUSDT" then -3 else 0
  orders := [⟨.hex 7, "BTCUSDT", .buy, .market, 4, 0, .working⟩]

/-- The order at work is cancelled and its message handled while the audit line goes out, and
the response to the first close is lost. -/
def crowded : Turns := fun n q =>
  match q with
  | .positionInformation =>
    { service := { marks := [("ETHUSDT", 2000, 2000, 0), ("BTCUSDT", 40000, 40000, 0)] } }
  | .pushAudit _ => { before := [.move (.cancel (.hex 7)), .receive {}], after := [.consume] }
  | .createOrder _ => { service := { raises := if n = 2 then some "timeout" else none } }
  | _ => {}

theorem flatten_closes_all_bothHeld :
    let d := Desk.fresh demoRules ["BTCUSDT", "ETHUSDT"]
    let outcome := DeskParams.demoDesk.flatten.flattenAllPositions.runAmong
      (serveAmong DeskParams.demoDesk demoRules crowded) (bothHeld, 0) d
    outcome.result.isOk = true ∧ ∃ closes, tickets outcome.outside.1 = tickets bothHeld ++ closes ∧
      closes.filter (fun close => close.symbol = "BTCUSDT") = [⟨"BTCUSDT", .sell, .market, 5⟩] ∧
      closes.filter (fun close => close.symbol = "ETHUSDT") = [⟨"ETHUSDT", .buy, .market, 3⟩] ∧
      closes.filter (fun close => close.symbol = "SOLUSDT") = [] := by
  have held : ∀ s, bothHeld.position s ≠ 0 → s = "BTCUSDT" ∨ s = "ETHUSDT" := by
    intro s nonzero
    by_contra neither
    rw [not_or] at neither
    exact nonzero ((if_neg neither.1).trans (if_neg neither.2))
  obtain ⟨returned, closes, ordered, each⟩ := flatten_closes_all
    DeskParams.demoDesk demoRules crowded (.fresh demoRules ["BTCUSDT", "ETHUSDT"]) bothHeld
    (fun s filt found => Desk.fresh_loaded found)
    (fun s nonzero => by
      rcases held s nonzero with rfl | rfl
      · decide
      · decide)
    (fun s nonzero => by
      rcases held s nonzero with rfl | rfl
      · exact ⟨_, rfl, by decide +kernel⟩
      · exact ⟨_, rfl, by decide +kernel⟩)
    (by decide +kernel)
  exact ⟨returned, closes, ordered, each "BTCUSDT", each "ETHUSDT", each "SOLUSDT"⟩

end FlattenAll

end Binbot
