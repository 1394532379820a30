import Binbot.Async.Scheduler
import Binbot.Execution.ExchangeBook
import Binbot.Scripts.CallerRules

/-!
# Closing orders and the position they close

The monitor and the operator's flatten each close what their own last reading of
the account showed, with a plain market order. Two closes of one position both
fill, so closing orders reduce exactly as long as each was taken against the
position it closes, with no other close at work.
-/
namespace Binbot

open Async Data BinanceFuturesBroker

/-- Who closes positions: the monitor's loop, and operators through the dashboard. -/
inductive Closer where
  | monitor
  | client (connection : ℕ)
  deriving DecidableEq

inductive CloserCommand where
  | poll
  | flatten

/-- What moves besides the closers: the exchange, the price feed and the clock. -/
inductive DeskMove where
  | exchange (m : Exchange.Move)
  | feed (symbol : Symbol) (price : ℚ)
  | clock (clock : Clock)

namespace DeskParams

variable (p : DeskParams) (rules : ExchangeRules)

def closerBody : Closer → CloserCommand → Option (Coro Desk wireSig Unit)
  | .monitor, .poll => some p.positionMonitor.checkOnce
  | .client _, .flatten => some p.flatten.flattenAllPositions
  | _, _ => none

def deskDrift (d : Desk) (x : Exchange) : DeskMove → Option (Desk × Exchange)
  | .exchange m => (x.move rules m).map fun moved => (d, moved)
  | .feed symbol price =>
    some ({ d with scanner := { d.scanner with feed := d.scanner.feed.set symbol price } }, x)
  | .clock clock => some ({ d with clock := clock }, x)

/-- Polls, flattens and the exchange, interleaved at suspension points. -/
def closers : System Closer CloserCommand Service DeskMove Desk Exchange wireSig where
  body := p.closerBody
  serve x service q := some (x.serve rules service q)
  drift := deskDrift rules

abbrev CloserWorld : Type := World Closer Desk Exchange wireSig

abbrev CloserLabel : Type := Label Closer CloserCommand Service DeskMove

/-! ## What a closer orders -/

def rowsOf : Event wireSig → Option (List PositionRow)
  | ⟨.positionInformation, .ok rows⟩ => some rows
  | _ => none

/-- The account as a task has last read it. -/
def lastRows : List (Event wireSig) → Option (List PositionRow) := lastAnswer rowsOf

/-- A plain order, as `place_order` sends them. -/
def plain : WireOrder → Bool
  | .closePosition _ => false
  | _ => true

/-- The order is the market order that closes a position among the rows. -/
def Closes (filters : Dict Symbol SymbolFilters) (rows : List PositionRow)
    (params : OrderParams) : Prop :=
  ∃ row filt, (row, filt) ∈ openRows filters rows ∧ params.symbol = row.symbol ∧
    params.side = .closing (lotsHeld row filt) ∧
    params.order = .market (filt.lotsToQuantity |lotsHeld row filt|)

/-- The signed lots of the rows, by symbol. -/
def heldIn (filters : Dict Symbol SymbolFilters) (rows : List PositionRow) : Dict Symbol ℤ :=
  .ofList ((openRows filters rows).map fun e => (e.1.symbol, lotsHeld e.1 e.2))

theorem mem_openRows {filters : Dict Symbol SymbolFilters} {rows : List PositionRow}
    {row : PositionRow} {filt : SymbolFilters} (listed : (row, filt) ∈ openRows filters rows) :
    row ∈ rows ∧ filters.get? row.symbol = some filt ∧ row.positionAmt ≠ 0 := by
  simp only [openRows, List.mem_filterMap] at listed
  obtain ⟨row', member, found⟩ := listed
  split at found
  next filt' known =>
    split at found
    · cases found
    next held =>
      cases found
      exact ⟨member, known, held⟩
  · cases found

/-- Each quantity of the book is that of a row. -/
theorem heldIn_row {filters : Dict Symbol SymbolFilters} {rows : List PositionRow} {s : Symbol}
    {quantity : ℤ} (held : (heldIn filters rows).get? s = some quantity) :
    ∃ row filt, (row, filt) ∈ openRows filters rows ∧ row.symbol = s ∧
      lotsHeld row filt = quantity := by
  rw [heldIn, Dict.get?_ofList] at held
  have member := Dict.mem_of_lookup held
  rw [List.mem_reverse, List.mem_map] at member
  obtain ⟨⟨row, filt⟩, listed, same⟩ := member
  cases same
  exact ⟨row, filt, listed, rfl, rfl⟩

/-- The closers never touch the filters, and the monitor alone its own state. What
each asks for is a close of something in its last reading. -/
def closerDiscipline (filters : Dict Symbol SymbolFilters) : Discipline Closer Desk wireSig where
  issue _ log q d := d.broker.filters = filters ∧
    ∀ params, q = .createOrder params → plain params.order = true →
      ∃ rows, lastRows log = some rows ∧ Closes filters rows params
  answer _ _ := True
  others i _ d d' :=
    d'.broker.filters = d.broker.filters ∧ (i = .monitor → d'.monitor = d.monitor)
  guar i d d' := d'.broker.filters = d.broker.filters ∧ (i ≠ .monitor → d'.monitor = d.monitor)
  ended _ _ d := d.broker.filters = filters
  refl _ _ _ := ⟨rfl, fun _ => rfl⟩
  trans first second :=
    ⟨second.1.trans first.1, fun monitor => (second.2 monitor).trans (first.2 monitor)⟩

section Programs

variable {filters : Dict Symbol SymbolFilters} {rows : List PositionRow} {i : Closer} {α : Type}

/-- From a task's reading of the account until it ends. -/
structure Reading (filters : Dict Symbol SymbolFilters) (rows : List PositionRow) (i : Closer)
    (log : List (Event wireSig)) (d : Desk) : Prop where
  known : d.broker.filters = filters
  last : lastRows log = some rows
  book : i = .monitor → d.monitor.positions = heldIn filters rows

abbrev KeepsReading (filters : Dict Symbol SymbolFilters) (rows : List PositionRow) (i : Closer)
    (c : Coro Desk wireSig α) : Prop :=
  c.Keeps ((closerDiscipline filters).contract i) (Reading filters rows i)

theorem lastRows_snoc_other (log : List (Event wireSig)) {q : WireReq}
    (other : q ≠ .positionInformation) (r : Answer wireSig q) :
    lastRows (log ++ [⟨q, r⟩]) = lastRows log := by
  rw [lastRows, lastAnswer_snoc]
  cases q with
  | positionInformation => exact absurd rfl other
  | _ => rfl

/-- Any request but another reading, if an order it places closes what was read. -/
theorem keepsReading_request {q : WireReq} (other : q ≠ .positionInformation)
    (closes : ∀ params, q = .createOrder params → plain params.order = true →
      Closes filters rows params) :
    KeepsReading filters rows i
      (Coro.request (S := wireSig) q : Coro Desk wireSig (wireSig.Reply q)) := by
  apply Coro.keeps_request
  · intro log d held
    exact ⟨held.known, fun params same isPlain =>
      ⟨rows, held.last, closes params same isPlain⟩⟩
  · rintro r log d _ d' held ⟨rfl, -, kept⟩
    constructor
    · exact kept.1.trans held.known
    · rw [lastRows_snoc_other log other]
      exact held.last
    · intro monitor
      rw [kept.2 monitor, held.book monitor]

/-- A request that places no plain order. -/
theorem keepsReading_call {q : WireReq} (other : q ≠ .positionInformation)
    (unplaced : ∀ params, q = .createOrder params → plain params.order = false) :
    KeepsReading filters rows i
      (Coro.request (S := wireSig) q : Coro Desk wireSig (wireSig.Reply q)) := by
  apply keepsReading_request other
  intro params same isPlain
  rw [unplaced params same] at isPlain
  cases isPlain

/-- A write that leaves the filters and the monitor's book. -/
theorem keepsReading_update {τ : Type} [Part Desk τ] {f : τ → τ}
    (filtersKept : ∀ d : Desk, (Part.set d (f (Part.view d))).broker.filters = d.broker.filters)
    (monitorKept : ∀ d : Desk, (Part.set d (f (Part.view d))).monitor = d.monitor) :
    KeepsReading filters rows i (Coro.update f : Coro Desk wireSig Unit) := by
  apply Coro.keeps_update
  intro log d held
  refine ⟨⟨filtersKept d, fun _ => monitorKept d⟩, ?_⟩
  constructor
  · exact (filtersKept d).trans held.known
  · exact held.last
  · intro monitor
    rw [monitorKept d, held.book monitor]

/-- A write of the monitor that leaves its book. -/
theorem keepsReading_monitor {f : MonitorState → MonitorState}
    (bookKept : ∀ m, (f m).positions = m.positions) :
    KeepsReading filters rows .monitor (Coro.update f : Coro Desk wireSig Unit) := by
  apply Coro.keeps_update
  intro log d held
  refine ⟨⟨rfl, fun outsider => absurd rfl outsider⟩, ?_⟩
  constructor
  · exact held.known
  · exact held.last
  · intro monitor
    exact (bookKept d.monitor).trans (held.book monitor)

theorem keepsReading_placeOrder {request : BrokerOrderRequest} {row : PositionRow}
    {filt : SymbolFilters} (listed : (row, filt) ∈ openRows filters rows)
    (symbol : request.symbol = row.symbol) (side : request.side = .closing (lotsHeld row filt))
    (quantity : request.quantity = |lotsHeld row filt|) (market : request.orderType = .market) :
    KeepsReading filters rows i (p.broker.placeOrder request) := by
  apply Coro.keeps_view_bind
  intro log d held
  have found : (Part.view d : BrokerState).filters.get? request.symbol = some filt := by
    rw [symbol, ← (mem_openRows listed).2.1, ← held.known]
    rfl
  have wired : wireOrder request filt = .ok (.market (filt.lotsToQuantity |lotsHeld row filt|)) := by
    rw [wireOrder, market, quantity]
  rw [found]
  dsimp only
  split
  · exact keepsReading_update (fun _ => rfl) (fun _ => rfl) log d held
  · rw [wired]
    refine Coro.Keeps.bind (keepsReading_update (fun d => ?_) fun _ => rfl) (fun _ => ?_) log d held
    · exact BrokerState.register_filters d.broker request
    · apply Coro.Keeps.tryCatch
      · refine Coro.Keeps.bind (keepsReading_request (by simp) ?_) fun _ => Coro.keeps_pure ()
        rintro params same -
        cases same
        exact ⟨row, filt, listed, symbol, side, rfl⟩
      · intro e
        exact keepsReading_update (fun _ => rfl) fun _ => rfl

/-- Submitting the close of a row. -/
theorem keepsReading_submit {row : PositionRow} {filt : SymbolFilters}
    (listed : (row, filt) ∈ openRows filters rows) (strategyId : String) (price : Option ℚ) :
    KeepsReading filters rows i
      (p.submit (closeSignal strategyId row.symbol (lotsHeld row filt)) price) := by
  refine Coro.Keeps.bind (Coro.Keeps.bind (Coro.keeps_view.bind fun uuids => ?_) fun orderId => ?_)
    fun _ => Coro.keeps_pure ()
  · exact (keepsReading_update (fun _ => rfl) fun _ => rfl).bind fun _ => Coro.keeps_pure _
  · refine (keepsReading_update (fun _ => rfl) fun _ => rfl).bind fun _ => ?_
    refine Coro.Keeps.bind ?_ fun _ => Coro.keeps_pure _
    apply keepsReading_placeOrder p listed
    · rfl
    · rfl
    · simp [ManagedOrder.request, ManagedOrder.ofSignal, closeSignal]
    · rfl

/-! ## The monitor -/

theorem keepsReading_getAccountEquity : KeepsReading filters rows i p.broker.getAccountEquity :=
  (keepsReading_call (by simp) (by simp)).bind fun _ => Coro.keeps_pure _

theorem keepsReading_placeStopLoss (symbol : Symbol) (isLong : Bool) (entryPrice : ℚ)
    (quantityLots : ℤ) (maxLossUsdt : ℚ) : KeepsReading filters rows i
      (p.broker.placeStopLoss symbol isLong entryPrice quantityLots maxLossUsdt) := by
  apply keeps_placeStopLoss
  intro params price symbol ms stop _
  apply keepsReading_call
  · simp
  · rintro params same
    cases same
    rw [stop]
    rfl

theorem keepsReading_cancelStopLoss (symbol : Symbol) (id : StopId) :
    KeepsReading filters rows i (p.broker.cancelStopLoss symbol id) :=
  keeps_cancelStopLoss p (keepsReading_call (by simp) (by simp))

theorem keepsReading_closePosition {row : PositionRow} {filt : SymbolFilters}
    (listed : (row, filt) ∈ openRows filters rows) (reason : CloseReason) :
    KeepsReading filters rows .monitor
      (p.positionMonitor.closePosition row.symbol (lotsHeld row filt) reason) := by
  refine Coro.Keeps.bind (keepsReading_monitor ?_) fun _ => ?_
  · intro m
    rfl
  refine Coro.Keeps.bind (Coro.Keeps.bind ?_ fun _ => ?_) fun _ => ?_
  · exact keepsReading_update (fun _ => rfl) fun _ => rfl
  · exact keepsReading_call (by simp) (by simp)
  · refine Coro.Keeps.bind (Coro.keeps_view.bind fun _ => Coro.keeps_pure _) fun price => ?_
    exact keepsReading_submit p listed _ price

theorem keepsReading_recordEntry (detail : PositionDetail) :
    KeepsReading filters rows .monitor (p.positionMonitor.recordEntry detail) := by
  refine (keepsReading_getAccountEquity p).bind fun equity => ?_
  refine Coro.Keeps.bind (keepsReading_monitor ?_) fun _ => ?_
  · intro m
    rfl
  refine (keepsReading_placeStopLoss p _ _ _ _ _).bind fun stopId => ?_
  split
  · apply keepsReading_monitor
    intro m
    rfl
  · exact Coro.keeps_pure ()

/-- What is closed is what the book says, and the book is the reading. -/
theorem keepsReading_judge (detail : PositionDetail) :
    KeepsReading filters rows .monitor (p.positionMonitor.judge detail) := by
  apply Coro.keeps_view_bind
  intro log d held
  refine (keeps_getStepSize _).bind (fun step => ?_) log d held
  refine Coro.Keeps.bind (keepsReading_monitor ?_) fun _ => ?_
  · intro m
    rfl
  split
  · exact Coro.keeps_pure ()
  · split
    next quantity found =>
      rw [show (Part.view d : MonitorState).positions = heldIn filters rows from
        held.book rfl] at found
      obtain ⟨row, filt, listed, symbol, quantity⟩ := heldIn_row found
      subst quantity
      rw [← symbol]
      exact keepsReading_closePosition p listed _
    · exact Coro.keeps_throw _

theorem keepsReading_checkDetail (previous : List Symbol) (detail : PositionDetail) :
    KeepsReading filters rows .monitor (p.positionMonitor.checkDetail previous detail) := by
  refine Coro.keeps_view.bind fun m => ?_
  split
  · exact Coro.keeps_pure ()
  · dsimp only
    split
    · exact keepsReading_judge p detail
    · exact (keepsReading_recordEntry p detail).bind fun _ => keepsReading_judge p detail

theorem keepsReading_forget (symbol : Symbol) :
    KeepsReading filters rows .monitor (p.positionMonitor.forget symbol) := by
  refine Coro.Keeps.bind (Coro.keeps_view.bind fun m => ?_) fun _ => ?_
  · refine Coro.Keeps.bind (keepsReading_monitor ?_) fun _ => ?_
    · intro m
      rfl
    split
    · exact keepsReading_cancelStopLoss p _ _
    · exact Coro.keeps_pure ()
  · apply keepsReading_monitor
    intro m
    rfl

/-- The details are the rows, so the new book is what they hold. -/
theorem reread_positions (m : MonitorState) :
    (PositionMonitor.MonitorState.reread m
      ((openRows filters rows).map fun (row, filt) => positionDetail row filt)).positions =
      heldIn filters rows := by
  simp only [PositionMonitor.MonitorState.reread, heldIn, List.map_map]
  congr 1
  apply List.map_congr_left
  intro e _
  simp only [Function.comp, positionDetail, PositionDetail.signedQuantity, lotsHeld]
  by_cases long : e.1.positionAmt > 0
  · simp [long]
  · simp [long]

/-! ## A reading and what follows it -/

/-- The account is read first; what follows starts with the rows as its last reading. -/
theorem reads_then {f : List PositionRow → Coro Desk wireSig α}
    {Q : Except String α → List (Event wireSig) → Desk → Prop}
    (after : ∀ rows log d, d.broker.filters = filters → lastRows log = some rows →
      (f rows).Obeys ((closerDiscipline filters).contract i) Q log d)
    (raised : ∀ e log d, d.broker.filters = filters → Q (.error e) log d)
    (log : List (Event wireSig)) (d : Desk) (known : d.broker.filters = filters) :
    ((wireClient Desk).positionInformation >>= f).Obeys ((closerDiscipline filters).contract i) Q
      log d := by
  have called : (wireClient Desk).positionInformation =
    Coro.request (S := wireSig) .positionInformation := rfl
  rw [called, Coro.obeys_bind, Coro.obeys_request]
  refine ⟨⟨known, fun params same => by cases same⟩, ?_⟩
  rintro r _ d' ⟨rfl, -, kept⟩
  cases r with
  | error e => exact raised e _ d' (kept.1.trans known)
  | ok rows =>
    apply after rows _ _ (kept.1.trans known)
    rw [lastRows, lastAnswer_snoc]
    rfl

theorem checkOnce_obeys (log : List (Event wireSig)) (d : Desk)
    (known : d.broker.filters = filters) :
    p.positionMonitor.checkOnce.Obeys ((closerDiscipline filters).contract .monitor)
      (fun _ => (closerDiscipline filters).ended .monitor) log d := by
  rw [PositionMonitor.checkOnce, Coro.obeys_bind]
  refine reads_then (fun rows log d known last => ?_) (fun e log d known => known) log d known
  simp only [Coro.obeys_bind, Coro.obeys_view, Coro.obeys_pure, Coro.obeys_update]
  refine ⟨⟨rfl, fun outsider => absurd rfl outsider⟩, ?_⟩
  refine Coro.Obeys.mono
    (Coro.keeps_forEach (keepsReading_checkDetail p _) _ log _ ⟨known, last, fun _ => ?_⟩) ?_
  · rw [← known]
    exact reread_positions d.monitor
  · intro r log d held
    cases r with
    | error e => exact held.known
    | ok _ =>
      exact (Coro.keeps_forEach (keepsReading_forget p) _ log d held).mono
        fun _ _ _ after => after.known

theorem flatten_obeys {n : ℕ} (log : List (Event wireSig)) (d : Desk)
    (known : d.broker.filters = filters) :
    p.flatten.flattenAllPositions.Obeys ((closerDiscipline filters).contract (.client n))
      (fun _ => (closerDiscipline filters).ended (.client n)) log d := by
  rw [FlattenPorts.flattenAllPositions, Coro.obeys_bind]
  refine reads_then (fun rows log d known last => ?_) (fun e log d known => known) log d known
  simp only [Coro.obeys_bind, Coro.obeys_view, Coro.obeys_pure]
  have held : Reading filters rows (.client n) log d := ⟨known, last, by simp⟩
  have call : ∀ entry, KeepsReading filters rows (.client n) (p.flatten.pushAudit entry) :=
    fun entry => keepsReading_call (by simp) (by simp)
  split
  · exact (call _ log d held).mono fun _ _ _ after => after.known
  · refine ((call _).bind (fun _ => Coro.keeps_forEach_mem ?_) log d held).mono
      fun _ _ _ after => after.known
    intro e member
    have listed : (heldIn filters rows).get? e.1 = some e.2 := by
      rw [← Dict.mem_entries_iff, ← known]
      exact (List.mem_filter.mp member).1
    obtain ⟨row, filt, listed, symbol, quantity⟩ := heldIn_row listed
    rw [← symbol, ← quantity]
    exact Coro.keeps_view.bind fun _ => keepsReading_submit p listed _ _

end Programs

theorem closerBody_obeys {filters : Dict Symbol SymbolFilters} {i : Closer}
    {command : CloserCommand} {c : Coro Desk wireSig Unit} (started : p.closerBody i command = some c)
    (log : List (Event wireSig)) (d : Desk) (known : d.broker.filters = filters) :
    c.Obeys ((closerDiscipline filters).contract i) (fun _ => (closerDiscipline filters).ended i)
      log d := by
  simp only [closerBody] at started
  split at started
  · cases started; exact checkOnce_obeys p log d known
  · cases started; exact flatten_obeys p log d known
  · cases started

/-! ## Steps -/

/-- The plain order a task waits to have accepted. -/
def ordering (w : CloserWorld) (i : Closer) : Option OrderParams :=
  match (w.task i).pending with
  | some (.createOrder params) => if plain params.order then some params else none
  | _ => none

/-- The step keeps the closes apart. An order is accepted against the position that
its task read, with no other close of the symbol at work; a native stop triggers with
none at work. -/
def OneClose (w : CloserWorld) : CloserLabel → Prop
  | .serve i service => service.acts = true → ∀ params ∈ ordering w i,
      w.outside.working params.symbol = [] ∧
        ∀ rows ∈ lastRows (w.task i).log, ∀ row ∈ rows, row.symbol = params.symbol →
          row.positionAmt = w.outside.position row.symbol * (rules.spec row.symbol).stepSize
  | .drift (.exchange (.trigger id _)) =>
    ∀ stop ∈ w.outside.stops.find? (·.orderId = id), w.outside.working stop.symbol = []
  | _ => True

instance (w : CloserWorld) : (l : CloserLabel) → Decidable (OneClose rules w l)
  | .serve _ _ => inferInstanceAs (Decidable (_ → _))
  | .drift (.exchange (.trigger _ _)) => inferInstanceAs (Decidable (∀ _ ∈ _, _))
  | .drift (.exchange (.fill _ _ _)) => .isTrue trivial
  | .drift (.exchange (.expire _)) => .isTrue trivial
  | .drift (.exchange (.cancel _)) => .isTrue trivial
  | .drift (.feed _ _) => .isTrue trivial
  | .drift (.clock _) => .isTrue trivial
  | .start _ _ => .isTrue trivial
  | .resume _ => .isTrue trivial

/-- The position is nowhere beyond where it was, and no part of the working orders
can take it further than flat. -/
def ReducesOnly (origin : Symbol → ℤ) (w : CloserWorld) : Prop :=
  w.outside.Reduces ∧ ∀ s, Between (w.outside.position s) (origin s)

/-- A row that shows the exchange's position shows its lots. -/
theorem lotsHeld_of_position {row : PositionRow} {filt : SymbolFilters} (regular : filt.Regular)
    {position : ℤ} (amount : row.positionAmt = position * filt.stepSize) :
    lotsHeld row filt = position := by
  have step := regular.step_pos
  have size : |row.positionAmt| = (|position| : ℤ) * filt.stepSize := by
    rw [amount, abs_mul, abs_of_pos step, Int.cast_abs]
  have long : row.positionAmt > 0 ↔ position > 0 := by
    rw [amount]
    exact (mul_pos_iff_of_pos_right step).trans Int.cast_pos
  simp only [lotsHeld, size, regular.quantityToLots_lots, long]
  split
  next up => exact abs_of_pos up
  next down => rw [abs_of_nonpos (not_lt.mp down), neg_neg]

/-- The exchange's book stays apart when it accepts a close of the position itself. -/
theorem closing_accept {x : Exchange} (closing : ∀ s, x.Closing s)
    {filters : Dict Symbol SymbolFilters}
    (loaded : ∀ s filt, filters.get? s = some filt → filt = rules.spec s)
    {rows : List PositionRow} {params : OrderParams} (closes : Closes filters rows params)
    (free : x.working params.symbol = [])
    (current : ∀ row ∈ rows, row.symbol = params.symbol →
      row.positionAmt = x.position row.symbol * (rules.spec row.symbol).stepSize)
    (s : Symbol) : (x.accept rules params).Closing s := by
  obtain ⟨row, filt, listed, symbol, side, order⟩ := closes
  obtain ⟨member, known, -⟩ := mem_openRows listed
  have spec := loaded _ _ known
  have regular : filt.Regular := spec ▸ rules.regular row.symbol
  have held : lotsHeld row filt = x.position row.symbol := by
    apply lotsHeld_of_position regular
    rw [current row member symbol.symm, spec]
  -- the quantity on the wire is the whole position, to the lot
  have lots : Exchange.wireLots rules params.symbol params.order =
      some |x.position row.symbol| := by
    rw [order, held, symbol]
    simp only [Exchange.wireLots, ← spec, regular.lotsToQuantity_eq, regular.quantityToLots_lots]
  rw [Exchange.Closing]
  rw [x.working_accept rules lots, x.position_accept]
  by_cases here : params.symbol = s
  · subst here
    rw [free, if_pos rfl]
    refine .inr ⟨_, rfl, ?_⟩
    simp only [ExchangeOrder.signedRemaining, sub_zero, side, held, symbol]
    exact OrderSide.closing_sign_mul_abs _
  · rw [if_neg here, List.append_nil]
    exact closing s

/-- Serving any other request leaves the position, and no more than the same orders. -/
theorem closing_act {x : Exchange} (closing : ∀ s, x.Closing s) {q : WireReq}
    (unplaced : ∀ params, q = .createOrder params → plain params.order = false) :
    (∀ s, (x.act rules q).Closing s) ∧ (x.act rules q).position = x.position := by
  cases q with
  | createOrder params =>
    have stop : Exchange.wireLots rules params.symbol params.order = none := by
      have := unplaced params rfl
      cases order : params.order with
      | closePosition price => rfl
      | _ => rw [order] at this; cases this
    refine ⟨fun s => ?_, x.position_accept rules params⟩
    rw [Exchange.Closing]
    simp only [Exchange.act, x.working_accept_stop rules stop, x.position_accept]
    exact closing s
  | cancelOrder symbol id =>
    exact ⟨x.closing_endOrders rules closing _ _ _ (by simp), rfl⟩
  | cancelAllOpenOrders symbol =>
    exact ⟨x.closing_endOrders rules closing .cancelled .canceled (·.symbol = symbol) (by simp), rfl⟩
  | _ => exact ⟨closing, rfl⟩

/-- What holds between any two steps. -/
structure CloserInv (filters : Dict Symbol SymbolFilters) (origin : Symbol → ℤ)
    (w : CloserWorld) : Prop where
  tasks : (closerDiscipline filters).TasksOk w
  closing : ∀ s, w.outside.Closing s
  between : ∀ s, Between (w.outside.position s) (origin s)

section Step

variable {filters : Dict Symbol SymbolFilters} {origin : Symbol → ℤ} {w v : CloserWorld}
  {l : CloserLabel}

theorem closer_tasks (held : (closerDiscipline filters).TasksOk w)
    (moved : (p.closers rules).step w l = some v) : (closerDiscipline filters).TasksOk v := by
  have starts : ∀ i command c, l = .start i command → (p.closers rules).body i command = some c →
      (closerDiscipline filters).TaskOk i ⟨.idle, (w.task i).log⟩ w.memory →
      c.Obeys ((closerDiscipline filters).contract i) (fun _ => (closerDiscipline filters).ended i)
        (w.task i).log w.memory := by
    rintro i command c - started ⟨past, ended, since⟩
    exact closerBody_obeys p started _ _ (since.1.trans ended)
  apply held.step moved starts
  · intros
    trivial
  · -- whoever moves, the filters stay, and the monitor's state if it is not the monitor
    intro j rests unstarted
    apply held.memory moved starts
      (fun d d' => d'.broker.filters = d.broker.filters ∧ (j = .monitor → d'.monitor = d.monitor))
      (fun _ => ⟨rfl, fun _ => rfl⟩)
    · intro d d' d'' first second
      exact ⟨second.1.trans first.1, fun monitor => (second.2 monitor).trans (first.2 monitor)⟩
    · rintro i mover d d' ⟨known, monitor⟩
      refine ⟨known, ?_⟩
      rintro rfl
      apply monitor
      rintro rfl
      rcases mover with resumed | ⟨command, started⟩
      · exact rests resumed
      · exact unstarted command started
    · rintro move memory outside rfl drifted
      cases move with
      | exchange m =>
        obtain ⟨x, -, same⟩ := Option.map_eq_some_iff.mp drifted
        cases same
        exact ⟨rfl, fun _ => rfl⟩
      | feed symbol price => cases drifted; exact ⟨rfl, fun _ => rfl⟩
      | clock clock => cases drifted; exact ⟨rfl, fun _ => rfl⟩

/-- A move of the exchange. -/
theorem closing_move {x y : Exchange} (closing : ∀ s, x.Closing s) {m : Exchange.Move}
    (moved : x.move rules m = some y)
    (alone : ∀ id detail stop, m = .trigger id detail →
      x.stops.find? (·.orderId = id) = some stop → x.working stop.symbol = []) (s : Symbol) :
    y.Closing s ∧ Between (y.position s) (x.position s) := by
  cases m with
  | fill id lots detail =>
    simp only [Exchange.move, Option.bind_eq_some_iff] at moved
    obtain ⟨o, found, filled⟩ := moved
    split at filled
    next within =>
      cases filled
      exact x.closing_fillOrder rules closing (x.findWorking_spec found) within.1 within.2 detail s
    · cases filled
  | expire id =>
    cases moved
    exact ⟨x.closing_endOrders rules closing _ _ _ (by simp) s, Between.refl _⟩
  | cancel id =>
    cases moved
    exact ⟨x.closing_endOrders rules closing _ _ _ (by simp) s, Between.refl _⟩
  | trigger id detail =>
    obtain ⟨stop, found, rfl⟩ := Option.map_eq_some_iff.mp moved
    exact x.closing_triggerStop rules closing (alone id detail stop rfl found) detail s

theorem closer_step (loaded : ∀ s filt, filters.get? s = some filt → filt = rules.spec s)
    (held : CloserInv filters origin w) (one : OneClose rules w l)
    (moved : (p.closers rules).step w l = some v) : CloserInv filters origin v := by
  have tasks := closer_tasks p rules held.tasks moved
  rcases (p.closers rules).step_cases moved with ⟨i, command, c, rfl, idle, found, rfl⟩ |
    ⟨i, service, q, next, r, outside, rfl, waiting, served, rfl⟩ |
    ⟨i, q, r, next, rfl, answered, rfl⟩ | ⟨move, memory, outside, rfl, drifted, rfl⟩
  · exact ⟨tasks, held.closing, held.between⟩
  · -- a request is served: only an accepted order can touch what works
    have same : w.outside.serve rules service q = (r, outside) := Option.some.inj served
    obtain rfl : (w.outside.serve rules service q).2 = outside := by rw [same]
    by_cases acts : service.acts = true
    · have acted : (w.outside.serve rules service q).2 = w.outside.act rules q := by
        simp [Exchange.serve, acts]
      rw [acted] at tasks ⊢
      by_cases placed : ∃ params, q = .createOrder params ∧ plain params.order = true
      · obtain ⟨params, rfl, isPlain⟩ := placed
        have asked : ordering w i = some params := by
          simp [ordering, Task.pending, waiting, isPlain]
        obtain ⟨free, current⟩ := one acts params asked
        have issued := held.tasks i
        simp only [Discipline.TaskOk, waiting] at issued
        obtain ⟨⟨past, ⟨-, closes⟩, -⟩, -⟩ := issued
        obtain ⟨rows, last, closes⟩ := closes params rfl isPlain
        refine ⟨tasks, closing_accept rules held.closing loaded closes free (current rows last), ?_⟩
        intro s
        simp only [Exchange.act, Exchange.position_accept]
        exact held.between s
      · have kept := closing_act rules held.closing (q := q) fun params same => by
          rw [← Bool.not_eq_true]
          exact fun isPlain => placed ⟨params, same, isPlain⟩
        refine ⟨tasks, kept.1, fun s => ?_⟩
        rw [kept.2]
        exact held.between s
    · have ignored : (w.outside.serve rules service q).2 = w.outside := by
        simp [Exchange.serve, acts]
      rw [ignored] at tasks ⊢
      exact ⟨tasks, held.closing, held.between⟩
  · exact ⟨tasks, held.closing, held.between⟩
  · cases move with
    | exchange m =>
      obtain ⟨y, changed, same⟩ := Option.map_eq_some_iff.mp drifted
      cases same
      have step := closing_move rules held.closing changed fun id detail stop trigger found => by
        subst trigger
        exact one stop found
      exact ⟨tasks, fun s => (step s).1, fun s => (step s).2.trans (held.between s)⟩
    | feed symbol price => cases drifted; exact ⟨tasks, held.closing, held.between⟩
    | clock clock => cases drifted; exact ⟨tasks, held.closing, held.between⟩

end Step

/-- A process with these filters loaded, against an exchange without plain orders. -/
def closersStart (d : Desk) (x : Exchange) : CloserWorld where
  memory := d
  outside := x
  task _ := ⟨.idle, []⟩

/-- In every run whose steps keep the closes apart, no closing order ever increases or
flips a position: from whatever was held at the start, every symbol is between there and
flat, and stays so whichever part of the working orders fills. -/
theorem closes_only_reduce (d : Desk) (x : Exchange)
    (loaded : ∀ s filt, d.broker.filters.get? s = some filt → filt = rules.spec s)
    (unordered : ∀ s, x.working s = []) (labels : List CloserLabel) (w : CloserWorld)
    (apart : Machine.Meets (p.closers rules).step (OneClose rules) (closersStart d x) labels)
    (reached : Machine.run (p.closers rules).step (closersStart d x) labels = some w) :
    ReducesOnly x.position w := by
  have inv : CloserInv d.broker.filters x.position w := by
    apply Machine.run_invariant (CloserInv d.broker.filters x.position) _ _ labels w _ apart reached
    · intro w l v held one moved
      exact closer_step p rules loaded held one moved
    · refine ⟨fun i => ⟨d, rfl, rfl, fun _ => rfl⟩, fun s => .inl (unordered s), fun s => ?_⟩
      exact Between.refl _
  exact ⟨w.outside.reduces_of_closing inv.closing, inv.between⟩

/-- Five lots of BTCUSDT, as the account shows them. -/
def longFive : Exchange where
  position s := if s = "BTCUSDT" then 5 else 0

def showing : Service := { marks := [("BTCUSDT", 40000, 40000, 0)] }

/-- A client's flatten up to its reading of the account. -/
def readsAccount (n : ℕ) : List CloserLabel :=
  [.start (.client n) .flatten, .serve (.client n) showing, .resume (.client n)]

/-- The rest of it: the audit line, and the one order. -/
def ordersClose (n : ℕ) : List CloserLabel :=
  [.serve (.client n) {}, .resume (.client n), .serve (.client n) {}, .resume (.client n)]

def fills (draw : ℕ) : CloserLabel := .drift (.exchange (.fill (.hex draw) 5 ⟨40000, 0, false, 0⟩))

/-- Flattened twice, from two readings of the same five lots: both closes are accepted,
both fill, and the account ends five lots short. -/
theorem double_flatten_flips :
    ∃ w v : CloserWorld,
      Machine.run (demoDesk.closers demoRules).step
        (closersStart (.fresh demoRules ["BTCUSDT"]) longFive)
        (readsAccount 0 ++ readsAccount 1 ++ ordersClose 0 ++ ordersClose 1) = some w ∧
      ¬ w.outside.Reduces ∧
      Machine.run (demoDesk.closers demoRules).step w [fills 0, fills 1] = some v ∧
      v.outside.position "BTCUSDT" = -5 := by
  have ends : ((Machine.run (demoDesk.closers demoRules).step
      (closersStart (.fresh demoRules ["BTCUSDT"]) longFive)
      (readsAccount 0 ++ readsAccount 1 ++ ordersClose 0 ++ ordersClose 1)).bind fun w =>
        (Machine.run (demoDesk.closers demoRules).step w [fills 0, fills 1]).map fun v =>
          (w.outside.working "BTCUSDT", w.outside.position "BTCUSDT",
            v.outside.position "BTCUSDT")) =
      some ([⟨.hex 0, "BTCUSDT", .sell, .market, 5, 0, .working⟩,
        ⟨.hex 1, "BTCUSDT", .sell, .market, 5, 0, .working⟩], 5, -5) := by decide +kernel
  obtain ⟨w, reached, rest⟩ := Option.bind_eq_some_iff.mp ends
  obtain ⟨v, filled, seen⟩ := Option.map_eq_some_iff.mp rest
  simp only [Prod.mk.injEq] at seen
  refine ⟨w, v, reached, ?_, filled, seen.2.2⟩
  intro reduces
  have both := reduces "BTCUSDT" _ (List.Sublist.refl _)
  rw [seen.1, seen.2.1] at both
  revert both
  rw [Between]
  decide +kernel

/-- Flattened once: the close works, and can only take the five lots to nothing. -/
theorem closes_only_reduce_once :
    ∃ w : CloserWorld, w.outside.working "BTCUSDT" =
        [⟨.hex 0, "BTCUSDT", .sell, .market, 5, 0, .working⟩] ∧ ReducesOnly longFive.position w := by
  have ends : (Machine.run (demoDesk.closers demoRules).step
      (closersStart (.fresh demoRules ["BTCUSDT"]) longFive)
      (readsAccount 0 ++ ordersClose 0)).map (fun w => w.outside.working "BTCUSDT") =
      some [⟨.hex 0, "BTCUSDT", .sell, .market, 5, 0, .working⟩] := by decide +kernel
  obtain ⟨w, reached, works⟩ := Option.map_eq_some_iff.mp ends
  refine ⟨w, works, closes_only_reduce demoDesk demoRules _ _ ?_ ?_ _ w ?_ reached⟩
  · intro s filt known
    exact Desk.fresh_loaded known
  · intro s
    rfl
  · decide +kernel

end DeskParams

end Binbot
