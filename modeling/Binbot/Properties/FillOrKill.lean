import Binbot.Properties.LimitFills

/-!
# Orders that are good for one bar

IOC and FOK orders leave the books with the first bar of their symbol. How much that bar
fills is decided before the time in force is looked at: a limit order that the bar has too
little room for is filled in part, whether or not it is fill-or-kill.
-/
namespace Binbot

open Data
open SimulatedOco (Call)
open JournaledSimulator (Waits)

/-- The simulator, and the fills that one order had when the first bar of its symbol since
its placement was over. -/
structure TimedOrder where
  simulator : SimulatorState
  afterFirst : Option (List ExecutionEvent) := none

namespace TimedOrder

open LimitFills (WithinRange JustPlaced determineFillQuantity_touched
  determineFillQuantity_unlimited)

variable (broker : MarketSimulatorBroker) (request : BrokerOrderRequest)

/-- The order is for one bar. -/
def OneBar : Prop := request.timeInForce = .ioc ∨ request.timeInForce = .fok

/-- The call processes a bar of the order's symbol. -/
def Reaches (m : SimulatorState) : Call → Prop
  | .processBar bar => bar.symbol = request.symbol ∧ (broker.updateHistory m bar).isOk = true
  | _ => False

instance (m : SimulatorState) : DecidablePred (Reaches broker request m)
  | .processBar _ => inferInstanceAs (Decidable (_ ∧ _))
  | .placeOrder _ => .isFalse id
  | .cancelOrder _ => .isFalse id
  | .cancelAll => .isFalse id

/-- Order ids are never used twice. -/
def step (s : TimedOrder) (call : Call) : Option TimedOrder :=
  if request.orderId ∈ JournaledSimulator.placed [call] then none
  else
    let after := JournaledSimulator.called broker s.simulator call
    some
      { simulator := after
        afterFirst :=
          if s.afterFirst = none ∧ Reaches broker request s.simulator call then
            some (fillsOf request.orderId after.fills)
          else s.afterFirst }

/-- The first bar ends an order for one bar, and a fill-or-kill order is filled as a whole or
not at all. -/
structure Kept (s : TimedOrder) : Prop where
  ends : OneBar request →
    ∀ fills ∈ s.afterFirst, fillsOf request.orderId s.simulator.fills = fills
  allOrNone : request.timeInForce = .fok →
    totalFilled (fillsOf request.orderId s.simulator.fills) = 0 ∨
      totalFilled (fillsOf request.orderId s.simulator.fills) = request.quantity

/-- If the bar touches the limit of the order, what may trade on it covers the order. -/
def RoomFor (pending : PendingOrder) (bar : BarEvent) : Prop :=
  pending.request.orderType = .limit ∨ pending.request.orderType = .stopLimit →
    WithinRange pending.request bar →
      pending.remainingQty ≤ max (truncate (bar.volume * broker.impact.maxParticipationRate)) 1

instance (pending : PendingOrder) (bar : BarEvent) : Decidable (RoomFor broker pending bar) :=
  inferInstanceAs (Decidable (_ → _ → _))

/-- A bar that is processed while the fill-or-kill order waits has room for it. -/
def RoomForAll (s : TimedOrder) (call : Call) : Prop :=
  request.timeInForce = .fok → Reaches broker request s.simulator call →
    ∀ bar, call = .processBar bar → ∀ pending ∈ s.simulator.waiting request.symbol,
      pending.request.orderId = request.orderId → RoomFor broker pending bar

variable {broker request}

theorem roomFor_iff {pending : PendingOrder} {bar : BarEvent}
    (_ : 0 < pending.remainingQty) : RoomFor broker pending bar ↔
      broker.determineFillQuantity pending bar = 0 ∨
        broker.determineFillQuantity pending bar = pending.remainingQty := by
  rw [RoomFor]
  by_cases limited :
      pending.request.orderType = .limit ∨ pending.request.orderType = .stopLimit
  · rw [determineFillQuantity_touched broker bar limited, forall_prop_of_true limited]
    by_cases within : WithinRange pending.request bar
    · rw [if_pos within, forall_prop_of_true within]
      omega
    · simp [within]
  · rw [determineFillQuantity_unlimited broker bar limited]
    simp [limited]

/-- `own` is the order as it waits; what had been filled of it when its first bar was over is
all that is ever filled. -/
structure Inv (request : BrokerOrderRequest) (own : Option PendingOrder) (s : TimedOrder) :
    Prop where
  waits : Waits request own s.simulator
  whole : ∀ pending ∈ own, pending.request = request ∧ pending.remainingQty = request.quantity
  before : s.afterFirst = none → fillsOf request.orderId s.simulator.fills = []
  after : ∀ fills ∈ s.afterFirst,
    own = none ∧ fillsOf request.orderId s.simulator.fills = fills ∧
      (request.timeInForce = .fok → totalFilled fills = 0 ∨ totalFilled fills = request.quantity)

section Call

variable {own : Option PendingOrder} {s t : TimedOrder}

theorem Inv.kept (inv : Inv request own s) : Kept request s where
  ends := fun _ fills past => (inv.after fills past).2.1
  allOrNone := by
    intro fok
    cases past : s.afterFirst with
    | none =>
      rw [inv.before past]
      exact .inl rfl
    | some fills =>
      obtain ⟨-, same, all⟩ := inv.after fills past
      rw [same]
      exact all fok

/-- A call that is no bar of the order's symbol only moves the order. -/
theorem Inv.idle (inv : Inv request own s) {m : SimulatorState} {left : Option PendingOrder}
    (waits : Waits request left m) (fewer : ∀ pending ∈ left, pending ∈ own)
    (same : fillsOf request.orderId m.fills = fillsOf request.orderId s.simulator.fills) :
    Inv request left { s with simulator := m } where
  waits := waits
  whole := fun pending there => inv.whole pending (fewer pending there)
  before := fun early => same.trans (inv.before early)
  after := by
    intro fills past
    obtain ⟨gone, kept, all⟩ := inv.after fills past
    subst gone
    refine ⟨?_, same.trans kept, all⟩
    cases left with
    | none => rfl
    | some pending => cases fewer pending rfl

/-- What the first bar does to the order. -/
theorem Inv.firstBar (inv : Inv request own s) (positive : 0 < request.quantity)
    (oneBar : OneBar request) (early : s.afterFirst = none) {bar : BarEvent}
    {m : SimulatorState} {fills : List Fill} (here : bar.symbol = request.symbol)
    (resolved : broker.Resolved bar s.simulator m fills) :
    Waits request none m ∧
      ((request.timeInForce = .fok → ∀ pending ∈ own, RoomFor broker pending bar) ↔
        (request.timeInForce = .fok → totalFilled (fillsOf request.orderId m.fills) = 0 ∨
          totalFilled (fillsOf request.orderId m.fills) = request.quantity)) := by
  have waits := inv.waits.bar resolved
  rw [if_pos here] at waits
  have filled := LimitFills.filled_bar inv.waits resolved
  rw [LimitFills.filled, LimitFills.filled, inv.before early, LimitFills.gain, if_pos here]
    at filled
  cases own with
  | none =>
    refine ⟨waits, imp_congr_right fun _ => ?_⟩
    rw [filled]
    simp [totalFilled]
  | some pending =>
    obtain ⟨rfl, whole⟩ := inv.whole pending rfl
    -- nothing of the order is carried past the bar, however much of it was filled
    rw [Option.bind_some, broker.carried_dropped oneBar] at waits
    have some_ : 0 < pending.remainingQty := whole ▸ positive
    have least := (broker.determineFillQuantity_bounds bar some_.le).1
    rw [Option.elim_some, max_eq_right least] at filled
    refine ⟨waits, imp_congr_right fun _ => ?_⟩
    rw [filled, ← whole]
    simp [totalFilled, roomFor_iff some_]

/-- The orders of its id that wait are the order. -/
theorem Inv.waiting_iff (inv : Inv request own s) (p : PendingOrder → Prop) :
    (∀ pending ∈ s.simulator.waiting request.symbol,
      pending.request.orderId = request.orderId → p pending) ↔ ∀ pending ∈ own, p pending := by
  have waits := inv.waits request.symbol
  rw [if_pos rfl] at waits
  have member (pending : PendingOrder) : pending ∈ own ↔
      pending ∈ s.simulator.waiting request.symbol ∧
        pending.request.orderId = request.orderId := by
    rw [Option.mem_def, ← Option.mem_toList, ← waits, List.mem_filter, decide_eq_true_eq]
  simp only [member, and_imp]

/-- The call that the order's first bar is. -/
theorem Inv.first (inv : Inv request own s) (positive : 0 < request.quantity)
    (oneBar : OneBar request) (early : s.afterFirst = none) {bar : BarEvent}
    (reaches : Reaches broker request s.simulator (.processBar bar))
    (same : t = ⟨SimulatedDesk.processedBar broker s.simulator bar,
      some (fillsOf request.orderId (SimulatedDesk.processedBar broker s.simulator bar).fills)⟩) :
    (RoomForAll broker request s (.processBar bar) → Inv request none t) ∧
      (Kept request t → RoomForAll broker request s (.processBar bar)) := by
  have room : RoomForAll broker request s (.processBar bar) ↔
      (request.timeInForce = .fok → ∀ pending ∈ own, RoomFor broker pending bar) := by
    rw [RoomForAll]
    simp only [reaches, forall_true_left, Call.processBar.injEq, forall_eq', inv.waiting_iff]
  obtain ⟨here, ok⟩ := reaches
  rcases SimulatedDesk.processedBar_cases broker s.simulator bar with
    ⟨-, fills, resolved⟩ | ⟨raised, -⟩
  · obtain ⟨waits, all⟩ := inv.firstBar positive oneBar early here resolved
    subst same
    rw [room, all]
    constructor
    · intro whole
      exact ⟨waits, by rintro _ ⟨⟩, by rintro ⟨⟩, by rintro _ ⟨⟩; exact ⟨rfl, rfl, whole⟩⟩
    · exact fun kept fok => kept.allOrNone fok
  · cases counting : broker.updateHistory s.simulator bar with
    | ok counted => exact absurd ⟨counted, counting⟩ raised
    | error message =>
      rw [counting] at ok
      cases ok

/-- A bar of another symbol fills nothing of the order, and none does once it is gone. -/
theorem fillsOf_untouched {bar : BarEvent} {m m' : SimulatorState} {fills : List Fill}
    (waits : Waits request own m) (resolved : broker.Resolved bar m m' fills)
    (gone : bar.symbol = request.symbol → own = none) :
    fillsOf request.orderId m'.fills = fillsOf request.orderId m.fills := by
  obtain ⟨ownFills, only, -, pendings⟩ := JournaledSimulator.fillsOf_reports resolved waits
  have nothing : ownFills = [] := by
    rw [← List.map_eq_nil_iff (f := (·.pending)), pendings]
    split
    next here => rw [gone here]; rfl
    next => rfl
  rw [resolved.recorded, fillsOf_append, only, nothing, List.map_nil, List.append_nil]

/-- Any other call takes the order out or leaves it as it is. -/
theorem Inv.later (inv : Inv request own s) {call : Call}
    (new : request.orderId ∉ JournaledSimulator.placed [call])
    (reached : Reaches broker request s.simulator call → s.afterFirst ≠ none) :
    RoomForAll broker request s call ∧ ∃ left, Inv request left
      { s with simulator := JournaledSimulator.called broker s.simulator call } := by
  have gone (reaches : Reaches broker request s.simulator call) : own = none := by
    obtain ⟨fills, past⟩ := Option.ne_none_iff_exists'.mp (reached reaches)
    exact (inv.after fills past).1
  refine ⟨?_, ?_⟩
  · intro _ reaches bar _
    rw [inv.waiting_iff, gone reaches]
    rintro pending ⟨⟩
  · cases call with
    | placeOrder another =>
      have other : another.orderId ≠ request.orderId := by
        simpa [JournaledSimulator.placed, eq_comm] using new
      exact ⟨own, inv.idle (inv.waits.placeOther other) (fun _ there => there) rfl⟩
    | cancelOrder orderId =>
      refine ⟨_, inv.idle (inv.waits.cancelOrder orderId) ?_ rfl⟩
      split
      · rintro pending ⟨⟩
      · exact fun _ there => there
    | cancelAll =>
      refine ⟨none, inv.idle (JournaledSimulator.waits_cancelAll request _) ?_ rfl⟩
      rintro pending ⟨⟩
    | processBar bar =>
      rcases SimulatedDesk.processedBar_cases broker s.simulator bar with
        ⟨⟨counted, counting⟩, fills, resolved⟩ | ⟨-, -, waiting, fills⟩
      · -- a bar of the order's symbol that is processed here is not its first
        have untouched (here : bar.symbol = request.symbol) : own = none :=
          gone ⟨here, by rw [counting]; rfl⟩
        refine ⟨_, inv.idle (inv.waits.bar resolved) ?_
          (fillsOf_untouched inv.waits resolved untouched)⟩
        split
        next here =>
          rw [untouched here]
          rintro pending ⟨⟩
        next => exact fun _ there => there
      · -- a bar that raises leaves the queues as they were
        refine ⟨own, inv.idle ?_ (fun _ there => there) (congrArg _ fills)⟩
        intro symbol
        rw [JournaledSimulator.called, waiting]
        exact inv.waits symbol

/-- A call that meets the condition keeps the invariant, and one that does not leaves a part
of the order filled. -/
theorem Inv.call (inv : Inv request own s) (positive : 0 < request.quantity)
    (oneBar : OneBar request) {call : Call} (moved : step broker request s call = some t) :
    (RoomForAll broker request s call → ∃ left, Inv request left t) ∧
      (Kept request t → RoomForAll broker request s call) := by
  rw [step] at moved
  split at moved
  · cases moved
  next new =>
    cases moved
    by_cases first : s.afterFirst = none ∧ Reaches broker request s.simulator call
    · obtain ⟨early, reaches⟩ := first
      cases call with
      | processBar bar =>
        have past := inv.first positive oneBar early reaches rfl
        rw [if_pos ⟨early, reaches⟩]
        exact ⟨fun room => ⟨none, past.1 room⟩, past.2⟩
      | _ => cases reaches
    · obtain ⟨room, left⟩ := inv.later new fun reaches early => first ⟨early, reaches⟩
      rw [if_neg first]
      exact ⟨fun _ => left, fun _ => room⟩

end Call

/-- Over every sequence of calls after its placement, an order for one bar is filled by the
first bar only, and a fill-or-kill order as a whole or not at all, exactly when the bar that
finds a fill-or-kill order waiting has room for all of it. -/
theorem fill_or_kill (broker : MarketSimulatorBroker) (request : BrokerOrderRequest)
    (positive : 0 < request.quantity) (m : SimulatorState) (placed : JustPlaced request m)
    (calls : List Call) :
    Machine.Meets (step broker request) (RoomForAll broker request) ⟨m, none⟩ calls ↔
      Machine.Always (step broker request) (Kept request) ⟨m, none⟩ calls := by
  apply Machine.meets_iff_always (fun s => OneBar request → ∃ own, Inv request own s)
  · intro s inv
    by_cases oneBar : OneBar request
    · obtain ⟨own, inv⟩ := inv oneBar
      exact inv.kept
    · exact ⟨fun one => absurd one oneBar, fun fok => absurd (.inr fok) oneBar⟩
  · intro s call t inv room moved oneBar
    obtain ⟨own, inv⟩ := inv oneBar
    exact (inv.call positive oneBar moved).1 room
  · intro s call t inv moved kept fok
    obtain ⟨own, inv⟩ := inv (.inr fok)
    exact (inv.call positive (.inr fok) moved).2 kept fok
  · intro s call stuck _ reaches bar same
    subst same
    rw [step] at stuck
    split at stuck
    next again => simp [JournaledSimulator.placed] at again
    next => cases stuck
  · intro _
    obtain ⟨pending, waits, same, left⟩ := placed.waits
    refine ⟨some pending, waits, ?_, fun _ => placed.unfilled, by rintro fills ⟨⟩⟩
    rintro _ ⟨⟩
    exact ⟨same, left⟩

/-- A buy of three at 100, filled on the first bar or not at all. -/
def killed : BrokerOrderRequest := ⟨.hex 0, "ES", .buy, 3, .limit, some 100, .fok, none⟩

theorem killed_placed :
    JustPlaced killed (({ equity := 10000 } : SimulatorState).placeOrder killed) := by
  apply LimitFills.justPlaced
  · intro symbol
    split <;> rfl
  · rfl

/-- A bar with room for ten fills all three. -/
theorem killed_filled : Machine.Always (step SimulatorLedger.desk killed) (Kept killed)
    ⟨({ equity := 10000 } : SimulatorState).placeOrder killed, none⟩
    [.processBar ⟨1, "ES", 101, 102, 99, 100, 100⟩] := by
  apply (fill_or_kill SimulatorLedger.desk killed (by decide) _ killed_placed _).mp
  refine ⟨?_, fun _ _ => trivial⟩
  rintro - - bar ⟨⟩
  decide +kernel

/-- A bar with room for two fills two of the three, and the rest is dropped. -/
theorem killed_in_part :
    ¬ ∀ (broker : MarketSimulatorBroker) (request : BrokerOrderRequest), 0 < request.quantity →
      ∀ m, JustPlaced request m → ∀ calls : List Call,
        Machine.Always (step broker request) (Kept request) ⟨m, none⟩ calls := by
  intro claim
  have always := claim SimulatorLedger.desk killed (by decide) _ killed_placed
    [.processBar ⟨1, "ES", 101, 102, 99, 100, 20⟩]
  have kept := (always.reached rfl).allOrNone rfl
  revert kept
  decide +kernel

end TimedOrder

end Binbot
