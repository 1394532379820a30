import Binbot.Properties.StopsCancelled

/-!
# The native stop as a ceiling on loss

The price of a stop is computed once, from the quantity and the entry price of the first
poll that sees the position, and the stop then closes whatever is held. It bounds the loss
of a position that has changed since exactly if the same amount would now ask for a price
that is no closer to the entry, on the grid of ticks.
-/
namespace Binbot

open Async Data

/-- Filters whose prices come in ticks that the price precision can write. -/
structure SymbolFilters.Ticked (f : SymbolFilters) : Prop where
  tick_pos : 0 < f.tickSize
  on_grid : (f.tickSize * 10 ^ f.pricePrecision).den = 1

instance (f : SymbolFilters) : Decidable f.Ticked :=
  decidable_of_iff (0 < f.tickSize ∧ (f.tickSize * 10 ^ f.pricePrecision).den = 1)
    ⟨fun ⟨pos, grid⟩ => ⟨pos, grid⟩, fun ⟨pos, grid⟩ => ⟨pos, grid⟩⟩

/-- How many ticks up a stop goes that keeps the loss of these figures at the amount. -/
def SymbolFilters.ticks (f : SymbolFilters) (isLong : Bool) (entryPrice : ℚ) (quantityLots : ℤ)
    (maxLossUsdt : ℚ) : ℤ :=
  let lossPerUnit := maxLossUsdt / (quantityLots * f.stepSize)
  if isLong then ⌈(entryPrice - lossPerUnit) / f.tickSize⌉
  else ⌊(entryPrice + lossPerUnit) / f.tickSize⌋

namespace SymbolFilters

variable {f : SymbolFilters} {isLong : Bool} {entryPrice maxLossUsdt : ℚ} {quantityLots : ℤ}

/-- The price that the adapter asks for is on the grid. -/
theorem Ticked.stopPrice_eq (ticked : f.Ticked) (regular : f.Regular) :
    BinanceFuturesBroker.stopPrice f isLong entryPrice (f.lotsToQuantity quantityLots)
      maxLossUsdt = f.ticks isLong entryPrice quantityLots maxLossUsdt * f.tickSize := by
  have written : f.tickSize * 10 ^ f.pricePrecision =
      ((f.tickSize * 10 ^ f.pricePrecision).num : ℤ) :=
    (Rat.den_eq_one_iff _).mp ticked.on_grid |>.symm
  have rounded : ∀ steps : ℤ, roundTo (steps * f.tickSize) f.pricePrecision =
      steps * f.tickSize := by
    intro steps
    apply roundTo_of_grid _ _ (steps * (f.tickSize * 10 ^ f.pricePrecision).num)
    rw [mul_assoc, Int.cast_mul, ← written]
  simp only [BinanceFuturesBroker.stopPrice, gt_iff_lt, if_pos ticked.tick_pos, rounded,
    regular.lotsToQuantity_eq, ticks]
  cases isLong with
  | true => rfl
  | false => rfl

/-- What a position of these figures loses at a price. -/
def lossAt (f : SymbolFilters) (isLong : Bool) (entryPrice : ℚ) (quantityLots : ℤ)
    (price : ℚ) : ℚ :=
  (if isLong then entryPrice - price else price - entryPrice) * (quantityLots * f.stepSize)

/-- The loss stays at the amount up to the tick that the amount asks for. -/
theorem lossAt_le_iff (tick_pos : 0 < f.tickSize) (step_pos : 0 < f.stepSize)
    (lots_pos : 0 < quantityLots) (n : ℤ) :
    f.lossAt isLong entryPrice quantityLots (n * f.tickSize) ≤ maxLossUsdt ↔
      if isLong then f.ticks isLong entryPrice quantityLots maxLossUsdt ≤ n
      else n ≤ f.ticks isLong entryPrice quantityLots maxLossUsdt := by
  have units_pos : (0 : ℚ) < quantityLots * f.stepSize :=
    mul_pos (Int.cast_pos.mpr lots_pos) step_pos
  rw [lossAt, ← le_div_iff₀ units_pos]
  cases isLong with
  | true =>
    -- a long loses less at a higher price, so that the ceiling of the quotient is the least tick
    simp only [ticks, if_true, Int.ceil_le, div_le_iff₀ tick_pos]
    exact sub_le_comm
  | false =>
    -- a short loses less at a lower price
    simp only [ticks, Bool.false_eq_true, if_false, Int.le_floor, le_div_iff₀ tick_pos]
    exact sub_le_iff_le_add'

end SymbolFilters

def HeldPosition.isLong (held : HeldPosition) : Bool := 0 < held.lots

namespace StopDesk

/-- The amount of the stop asks for no closer a price for what is held now than it asked for
when the stop was placed. A stop does not close a position of its own side. -/
def Harmless (rules : ExchangeRules) (stop : PlacedStop) (held : HeldPosition) : Prop :=
  held.isLong = stop.isLong →
    let f := rules.spec stop.symbol
    let placed := f.ticks stop.isLong stop.entryPrice stop.quantityLots stop.maxLossUsdt
    let needed := f.ticks stop.isLong held.entryPrice |held.lots| stop.maxLossUsdt
    if stop.isLong then needed ≤ placed else placed ≤ needed

instance (rules : ExchangeRules) (stop : PlacedStop) (held : HeldPosition) :
    Decidable (Harmless rules stop held) :=
  inferInstanceAs (Decidable (_ → ite _ _ _))

/-- At the price of any outstanding stop the whole of the position loses at most what is frozen
for it. -/
def UnderCeiling (rules : ExchangeRules) (x : StopOutside) (m : MonitorState) : Prop :=
  ∀ stop ∈ x.account.stops, ∀ held, x.account.positions.get? stop.symbol = some held →
    held.isLong = stop.isLong →
      ∃ amount, m.positionStopLossUsdt.get? stop.symbol = some amount ∧
        (rules.spec stop.symbol).lossAt held.isLong held.entryPrice |held.lots| stop.price ≤ amount

/-! ## The condition on a run -/

section

variable (p : MonitorParams) (rules : ExchangeRules)

/-- A position changes only so that its stops stay harmless. -/
def Spares (x : StopOutside) : StopMove → Prop
  | .hold symbol (some held) => ∀ stop ∈ x.account.stops, stop.symbol = symbol →
      Harmless rules stop held
  | _ => True

instance (x : StopOutside) : (move : StopMove) → Decidable (Spares rules x move)
  | .hold _ (some _) => inferInstanceAs (Decidable (∀ _ ∈ _, _ → _))
  | .hold _ none => .isTrue trivial
  | .leave _ => .isTrue trivial
  | .load _ => .isTrue trivial

def SpareAll (x : StopOutside) : List StopMove → Prop
  | [] => True
  | move :: rest => Spares rules x move ∧ SpareAll (x.happen rules move) rest

instance decidableSpareAll (x : StopOutside) : (moves : List StopMove) →
    Decidable (SpareAll rules x moves)
  | [] => .isTrue trivial
  | move :: rest =>
    have := decidableSpareAll (x.happen rules move) rest
    inferInstanceAs (Decidable (_ ∧ _))

/-- A stop is asked for a symbol with proper ticks, and for figures that are not overtaken. -/
def Current (x : StopOutside) : MonitorReq → Prop
  | .placeStopLoss symbol isLong entryPrice quantityLots maxLossUsdt =>
    (rules.spec symbol).Ticked ∧ ∀ held ∈ x.account.positions.get? symbol, Harmless rules
      (x.stopOf (rules.spec symbol) symbol isLong entryPrice quantityLots maxLossUsdt) held
  | _ => True

instance (x : StopOutside) : (q : MonitorReq) → Decidable (Current rules x q)
  | .placeStopLoss .. => inferInstanceAs (Decidable (_ ∧ ∀ held ∈ (_ : Option HeldPosition), _))
  | .cancelStopLoss _ _ => .isTrue trivial
  | .positionDetails => .isTrue trivial
  | .accountEquity => .isTrue trivial
  | .closeEvent _ _ => .isTrue trivial
  | .submit _ _ => .isTrue trivial

/-- No position outgrows its stop at a suspension. -/
def Steady (turns : StopTurns) (w : StopOutside × ℕ) (_m : MonitorState) (q : MonitorReq) :
    Prop :=
  let turn := turns.turn w.2 q
  let waited := w.1.happened rules turn.before
  SpareAll rules w.1 turn.before ∧ Current rules waited q ∧
    SpareAll rules (waited.serve turn.service q).2 turn.after

instance (turns : StopTurns) (w : StopOutside × ℕ) (m : MonitorState) (q : MonitorReq) :
    Decidable (Steady rules turns w m q) := inferInstanceAs (Decidable (_ ∧ _ ∧ _))

/-- No position outgrows its stop in this step of the run. -/
def OutgrowsNoStop (d : StopDesk) : Act → Prop
  | .poll turns => (p.monitor turns.latestPrice).checkOnce.RunMeets (serveAmong rules turns)
      (Steady rules turns) (d.outside, 0) d.memory
  | .move move => Spares rules d.outside move
  | .die _ => True
  | .restart => True

instance (d : StopDesk) : (a : Act) → Decidable (OutgrowsNoStop p rules d a)
  | .poll _ => Coro.decideRunMeets _ (fun _ _ _ => inferInstance) _ _ _
  | .move move => inferInstanceAs (Decidable (Spares rules d.outside move))
  | .die _ => .isTrue trivial
  | .restart => .isTrue trivial

/-- What the exchange shows during one suspension, from its start to its end. -/
structure UnderThroughout (turns : StopTurns) (w : StopOutside × ℕ) (m : MonitorState)
    (q : MonitorReq) : Prop where
  waiting : ∀ n, UnderCeiling rules
    (w.1.happened rules ((turns.turn w.2 q).before.take n)) m
  served : ∀ n, UnderCeiling rules
    ((((w.1.happened rules (turns.turn w.2 q).before).serve (turns.turn w.2 q).service q).2).happened
      rules ((turns.turn w.2 q).after.take n)) m

end

/-! ## What keeps the ceiling -/

section

variable {rules : ExchangeRules} {x : StopOutside}

/-- The filters are those of the exchange, and what was priced with them is still harmless. -/
structure Ceiling (rules : ExchangeRules) (x : StopOutside) : Prop where
  loaded : ∀ symbol f, x.broker.filters.get? symbol = some f → f = rules.spec symbol
  priced : ∀ stop ∈ x.account.stops, (rules.spec stop.symbol).Ticked ∧
    stop.price = (rules.spec stop.symbol).ticks stop.isLong stop.entryPrice stop.quantityLots
      stop.maxLossUsdt * (rules.spec stop.symbol).tickSize
  harmless : ∀ stop ∈ x.account.stops, ∀ held,
    x.account.positions.get? stop.symbol = some held → Harmless rules stop held

theorem Ceiling.happen (held : Ceiling rules x) {move : StopMove} (spares : Spares rules x move) :
    Ceiling rules (x.happen rules move) := by
  cases move with
  | hold symbol position =>
    cases position with
    | none =>
      refine ⟨held.loaded, held.priced, ?_⟩
      intro stop member now found
      have kept : (x.account.positions.erase symbol).get? stop.symbol = some now := found
      -- a position that is gone asks nothing of the stops
      rw [Dict.get?_erase] at kept
      split at kept
      · cases kept
      · exact held.harmless stop member now kept
    | some position =>
      refine ⟨held.loaded, held.priced, ?_⟩
      intro stop member now found
      have kept : (x.account.positions.set symbol position).get? stop.symbol = some now := found
      by_cases same : stop.symbol = symbol
      · rw [same, Dict.get?_set_self] at kept
        cases kept
        -- the new figures are those that the stops are spared by
        exact spares stop member same
      · rw [Dict.get?_set_ne _ _ same] at kept
        exact held.harmless stop member now kept
  | leave id =>
    refine ⟨held.loaded, ?_, ?_⟩
    · exact fun stop member => held.priced stop (List.mem_filter.mp member).1
    · exact fun stop member => held.harmless stop (List.mem_filter.mp member).1
  | load symbol =>
    refine ⟨?_, held.priced, held.harmless⟩
    intro other f found
    have loaded : (x.broker.filters.set symbol (rules.spec symbol)).get? other = some f := found
    by_cases same : other = symbol
    · rw [same, Dict.get?_set_self] at loaded
      cases loaded
      rw [same]
    · rw [Dict.get?_set_ne _ _ same] at loaded
      exact held.loaded other f loaded

theorem Ceiling.happened (held : Ceiling rules x) {moves : List StopMove}
    (spare : SpareAll rules x moves) (n : ℕ) : Ceiling rules (x.happened rules (moves.take n)) := by
  induction moves generalizing x n with
  | nil =>
    rw [List.take_nil]
    exact held
  | cons move rest ih =>
    cases n with
    | zero => exact held
    | succ n => exact ih (held.happen spare.1) spare.2 n

theorem Ceiling.happened_all (held : Ceiling rules x) {moves : List StopMove}
    (spare : SpareAll rules x moves) : Ceiling rules (x.happened rules moves) := by
  have all := held.happened spare moves.length
  rwa [List.take_length] at all

theorem Ceiling.serve (held : Ceiling rules x) (service : StopService) {q : MonitorReq}
    (current : Current rules x q) : Ceiling rules (x.serve service q).2 := by
  cases q with
  | placeStopLoss symbol isLong entryPrice quantityLots maxLossUsdt =>
    rcases x.serve_place service symbol isLong entryPrice quantityLots maxLossUsdt with
      same | ⟨filt, loaded, -, -, -, same⟩
    · rw [same]
      exact held
    · cases held.loaded symbol filt loaded
      rw [same]
      refine ⟨held.loaded, ?_, ?_⟩
      · intro stop member
        rcases List.mem_append.mp member with old | new
        · exact held.priced stop old
        · rw [List.mem_singleton.mp new]
          -- the adapter prices the stop with the exchange's own ticks
          exact ⟨current.1, current.1.stopPrice_eq (rules.regular symbol)⟩
      · intro stop member now found
        rcases List.mem_append.mp member with old | new
        · exact held.harmless stop old now found
        · rw [List.mem_singleton.mp new] at found ⊢
          exact current.2 now found
  | cancelStopLoss symbol id =>
    rw [x.serve_cancel]
    cases service.acts with
    | false => exact held
    | true =>
      refine ⟨held.loaded, ?_, ?_⟩
      · exact fun stop member => held.priced stop (List.mem_filter.mp member).1
      · exact fun stop member => held.harmless stop (List.mem_filter.mp member).1
  | _ => exact held

/-- Where the amounts of the stops are the frozen ones, the ceiling is one on the loss. -/
theorem Ceiling.under (held : Ceiling rules x) {m : MonitorState}
    (frozen : ∀ stop ∈ x.account.stops,
      m.positionStopLossUsdt.get? stop.symbol = some stop.maxLossUsdt) :
    UnderCeiling rules x m := by
  intro stop member now found same
  obtain ⟨ticked, price⟩ := held.priced stop member
  refine ⟨stop.maxLossUsdt, frozen stop member, ?_⟩
  rw [price, same]
  apply (SymbolFilters.lossAt_le_iff ticked.tick_pos (rules.regular stop.symbol).step_pos
    (abs_pos.mpr now.open_) _).mpr
  exact held.harmless stop member now found same

end

/-! ## Runs -/

section

variable {p : MonitorParams} {rules : ExchangeRules}

/-- A new stop has the amount that is frozen for its symbol. -/
theorem Added.frozen {m : MonitorState} {q : MonitorReq} {r : Answer monitorSig q}
    {stop : PlacedStop} (new : Added q r stop) (asked : AsksFrozen m q) :
    m.positionStopLossUsdt.get? stop.symbol = some stop.maxLossUsdt := by
  cases q with
  | placeStopLoss symbol isLong entryPrice quantityLots maxLossUsdt =>
    cases r with
    | error e => exact new.elim
    | ok placed =>
      cases placed with
      | none => exact new.elim
      | some id =>
        obtain ⟨own, -, amount⟩ := new
        rw [own, amount]
        exact asked
  | _ => exact new.elim

/-- A suspension that is steady keeps the ceiling. -/
theorem serveAmong_ceiling (turns : StopTurns) {w : StopOutside × ℕ} {m : MonitorState}
    {q : MonitorReq} (held : Ceiling rules w.1) (steady : Steady rules turns w m q) :
    Ceiling rules (serveAmong rules turns w m q).2.1.1 :=
  ((held.happened_all steady.1).serve _ steady.2.1).happened_all steady.2.2

theorem underThroughout (turns : StopTurns) {w : StopOutside × ℕ} {m : MonitorState}
    {q : MonitorReq} (held : Ceiling rules w.1) (steady : Steady rules turns w m q)
    (sound : Sound rules turns w m q) (asks : contract.issue q w m) :
    UnderThroughout rules turns w m q := by
  obtain ⟨asked, frozen⟩ := asks
  constructor
  · intro n
    apply (held.happened steady.1 n).under
    exact fun stop member => frozen stop (happened_stops _ _ stop member)
  · -- the book may have gained the stop that was asked for
    intro n
    apply (((held.happened_all steady.1).serve _ steady.2.1).happened steady.2.2 n).under
    intro stop member
    rcases serve_added _ _ sound.1 stop (happened_stops _ _ stop member) with old | new
    · exact frozen stop (happened_stops _ _ stop old)
    · exact new.frozen asked

/-- A new process has loaded no filters, and none of its stops is on the book. -/
theorem Ceiling.reborn {x : StopOutside} (none : x.account.stops = []) :
    Ceiling rules { x with broker := {} } := by
  refine ⟨fun symbol f found => absurd found (Option.some_ne_none f).symm, ?_, ?_⟩
  · intro stop member
    rw [none] at member
    cases member
  · intro stop member
    rw [none] at member
    cases member

theorem step_ceiling {d e : StopDesk} {act : Act} (held : Ceiling rules d.outside)
    (safe : LosesNoStop p rules d act) (steady : OutgrowsNoStop p rules d act)
    (moved : step p rules d act = some e) : Ceiling rules e.outside := by
  cases act with
  | poll turns =>
    cases moved
    exact Coro.runAmong_outside (fun w : StopOutside × ℕ => Ceiling rules w.1)
      (fun _ _ _ held steady => serveAmong_ceiling turns held steady) _ steady held
  | die turns =>
    cases moved
    exact Ceiling.reborn safe
  | restart =>
    cases moved
    exact Ceiling.reborn safe
  | move move =>
    cases moved
    exact held.happen steady

theorem ceiling_fresh (positions : Dict Symbol HeldPosition) (nextId : StopId) :
    Ceiling rules (fresh {} positions nextId).outside :=
  ⟨fun _ _ found => (nomatch found), fun _ member => absurd member List.not_mem_nil,
    fun _ member => absurd member List.not_mem_nil⟩

end

/-- In every run that loses no stop and in which no position outgrows its stop, the stops are a
ceiling on the loss after every step, and at every moment of every such poll. -/
theorem native_stop_ceiling (p : MonitorParams) (rules : ExchangeRules)
    (positions : Dict Symbol HeldPosition) (nextId : StopId) (acts : List Act) (d : StopDesk)
    (safe : Machine.Meets (step p rules)
      (fun d act => LosesNoStop p rules d act ∧ OutgrowsNoStop p rules d act)
      (fresh {} positions nextId) acts)
    (reached : Machine.run (step p rules) (fresh {} positions nextId) acts = some d) :
    UnderCeiling rules d.outside d.memory ∧
      ∀ turns, LosesNoStop p rules d (.poll turns) → OutgrowsNoStop p rules d (.poll turns) →
        (p.monitor turns.latestPrice).checkOnce.RunMeets (serveAmong rules turns)
          (UnderThroughout rules turns) (d.outside, 0) d.memory := by
  obtain ⟨filed, ceiling⟩ : AllFiled (d.outside, 0) d.memory ∧ Ceiling rules d.outside := by
    apply Machine.run_invariant
      (fun d => AllFiled (d.outside, 0) d.memory ∧ Ceiling rules d.outside) _ _ acts d _ safe
      reached
    · rintro d act e ⟨filed, ceiling⟩ ⟨safe, steady⟩ moved
      exact ⟨step_filed filed safe moved, step_ceiling ceiling safe steady moved⟩
    · exact ⟨filed_initial rfl, ceiling_fresh positions nextId⟩
  refine ⟨ceiling.under filed.frozen, ?_⟩
  intro turns safe steady
  have both := safe.and steady
  have held := (files_checkOnce p turns.latestPrice filed).suspensions
    (fun w => Ceiling rules w.1)
    (fun _ _ _ held meets => serveAmong_ceiling turns held meets.2) both
    (fun q w m _ meets => serveAmong_rely turns meets.1) ceiling
  apply (held.and both).imp
  rintro w m q ⟨⟨asks, held⟩, sound, steady⟩
  exact underThroughout turns held steady sound asks

/-! ### A position that is added to after its stop was placed -/

/-- A long of five lots is opened and seen, and changes to `later`. -/
def scaledIn (later : HeldPosition) : List Act :=
  [.move (.load "BTCUSDT"),
   .move (.hold "BTCUSDT" (some fiveLong)),
   .poll { turn := fun _ _ => { service := { equity := 1000 } } },
   .move (.hold "BTCUSDT" (some later))]

/-- Half of the position is closed. -/
theorem native_stop_ceiling_reduced :
    ∃ d, Machine.run (step .demo demoRules) (fresh {} .empty 7)
        (scaledIn ⟨2, 30000, by decide⟩) = some d ∧
      UnderCeiling demoRules d.outside d.memory :=
  ⟨_, rfl, (native_stop_ceiling .demo demoRules .empty 7 (scaledIn ⟨2, 30000, by decide⟩) _
    (by decide +kernel) rfl).1⟩

/-- The second half of an entry fills after the stop was placed, which then costs twice the
amount. -/
theorem scaled_in_exceeds :
    ¬ ∀ (p : MonitorParams) (rules : ExchangeRules) (positions : Dict Symbol HeldPosition)
      (nextId : StopId) (acts : List Act) (d : StopDesk),
      Machine.run (step p rules) (fresh {} positions nextId) acts = some d →
        UnderCeiling rules d.outside d.memory := by
  intro claim
  obtain ⟨amount, frozen, bound⟩ := claim .demo demoRules .empty 7
    (scaledIn ⟨10, 30000, by decide⟩) _ rfl ⟨7, "BTCUSDT", true, 20000, 30000, 5, 50⟩
    (by decide +kernel) ⟨10, 30000, by decide⟩ (by decide +kernel) (by decide +kernel)
  cases frozen.symm.trans
    (show _ = some (50 : ℚ) by decide +kernel)
  revert bound
  decide +kernel

end StopDesk

end Binbot
