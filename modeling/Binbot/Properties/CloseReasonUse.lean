import Binbot.Machine.Run
import Binbot.Server.ClientRules
import Binbot.Server.CloseDesk

/-!
# Reasons and the closes they belong to

A reason is kept for a symbol, not for an order, and goes only when a close is announced to a
notifier. It is the right one as long as each closing order that has a reason also completes
the trade, before any other close of that symbol and before the next reason for it.

Strategy:
1. The text that announces a close takes what is recorded for the symbol at the moment of the
   announcement (`handleOrderEvent_obeys`)
2. What is recorded for a symbol is the reason of its latest noted order (`Held`)
3. In a run that meets the condition that order is the one that completes the trade
-/
namespace Binbot.CloseReasonUse

open Async Data CloseDesk

/-- The text for a trade that was closed for this reason. -/
def closedText (closed : ClosedTrade) (reason : String) : String :=
  s!"{closedLabel reason}: `{closed.symbol}`\n" ++
    s!"P&L: *{signed 2 closed.pnl} USDT*\n" ++
    s!"Entry {shortest closed.entryPrice} → Exit {shortest closed.exitPrice}\n" ++
    s!"Duration: {(closed.exitTs - closed.entryTs) / 60000000}m"

-- ═══════════════════════════════════════════════════════════════
-- What the tracker closes
-- ═══════════════════════════════════════════════════════════════

theorem onExecution_closed_symbol {tracker : TradeTracker} {multiplier : ℚ}
    {fill : ExecutionEvent} {closed : ClosedTrade}
    (closes : (tracker.onExecution multiplier fill).2 = some closed) :
    closed.symbol = fill.symbol := by
  rw [TradeTracker.onExecution] at closes
  cases present : tracker.openTrades.get? fill.symbol with
  | none =>
    simp only [present] at closes
    split at closes <;> cases closes
  | some trade =>
    simp only [present] at closes
    split at closes
    · cases closes
    · split at closes
      · cases closes
      · cases closes
        rfl

/-- Whether a fill closes a trade does not depend on what a contract is worth. -/
theorem onExecution_isSome (tracker : TradeTracker) (multiplier other : ℚ) (fill : ExecutionEvent) :
    (tracker.onExecution multiplier fill).2.isSome = (tracker.onExecution other fill).2.isSome := by
  rw [TradeTracker.onExecution, TradeTracker.onExecution]
  cases tracker.openTrades.get? fill.symbol with
  | none => rfl
  | some trade =>
    dsimp only
    have same : (TradeTracker.reduced multiplier trade fill).quantity =
        (TradeTracker.reduced other trade fill).quantity := rfl
    rw [same]
    split
    · rfl
    · split <;> rfl

-- ═══════════════════════════════════════════════════════════════
-- The announcement of one event
-- ═══════════════════════════════════════════════════════════════

/-- The announcement of a fill takes this reason with it. -/
structure Announced where
  fill : ExecutionEvent
  closes : Bool
  expected : Option String

/-- A note for the fill's symbol would come between, so there is none until the announcement. -/
def announcement (bridge : ClientBridge) (a : Announced) : Contract Unit BridgeMemory bridgeSig where
  issue q _ s := ∀ text, q = .notify text → a.closes = true →
    ∃ closed ∈ s.tracker.closedTrades.getLast?, text = closedText closed (a.expected.getD "")
  rely q _ _ s _ s' := s'.tracker = s.tracker ∧
    (bridge.notifies = true → a.closes = true → (∀ text, q ≠ .notify text) →
      s'.reasons.bySymbol.get? a.fill.symbol = s.reasons.bySymbol.get? a.fill.symbol)
  guar s s' := s'.manager = s.manager ∧
    ∀ symbol, s'.reasons.bySymbol.get? symbol = s.reasons.bySymbol.get? symbol ∨
      (symbol = a.fill.symbol ∧ s'.reasons.bySymbol.get? symbol = none)

variable {bridge : ClientBridge} {a : Announced}

/-- The reason is the one expected, where one is needed. -/
def Ready (bridge : ClientBridge) (a : Announced) (s : BridgeMemory) : Prop :=
  bridge.notifies = true → a.closes = true →
    s.reasons.bySymbol.get? a.fill.symbol = a.expected

/-- Nothing has been taken yet, and the tracker is this one. -/
def Before (bridge : ClientBridge) (a : Announced) (tracker : TradeTracker) (_ : Unit)
    (s : BridgeMemory) : Prop := s.tracker = tracker ∧ Ready bridge a s

theorem keeps_broadcast (tracker : TradeTracker) (message : ClientMessage) :
    (ClientBridge.broadcast message).Keeps (announcement bridge a) (Before bridge a tracker) := by
  apply Coro.keeps_request
  · intro _ s _ text notifies
    cases notifies
  · rintro r _ s _ s' ⟨rfl, ready⟩ ⟨same, kept⟩
    exact ⟨same, fun notifies closes => (kept notifies closes (by simp)).trans (ready notifies closes)⟩

/-- A write that touches neither the tracker nor the reasons, and no order. -/
theorem keeps_write {tracker : TradeTracker} {τ : Type} [Part BridgeMemory τ] {f : τ → τ}
    (manager : ∀ s : BridgeMemory, (Part.set s (f (Part.view s))).manager = s.manager)
    (same : ∀ s : BridgeMemory, (Part.set s (f (Part.view s))).tracker = s.tracker)
    (reasons : ∀ s : BridgeMemory, (Part.set s (f (Part.view s))).reasons = s.reasons) :
    (Coro.update f : Coro BridgeMemory bridgeSig Unit).Keeps (announcement bridge a)
      (Before bridge a tracker) := by
  apply Coro.keeps_update
  rintro _ s ⟨rfl, ready⟩
  refine ⟨⟨manager s, fun symbol => .inl (by rw [reasons])⟩, same s, ?_⟩
  unfold Ready
  rw [reasons]
  exact ready

theorem keeps_pushAudit (tracker : TradeTracker) (line : AuditLine) :
    (ClientBridge.pushAudit line).Keeps (announcement bridge a) (Before bridge a tracker) :=
  (keeps_write (fun _ => rfl) (fun _ => rfl) fun _ => rfl).bind fun _ => keeps_broadcast tracker _

theorem announceOpened_obeys (opens : a.closes = false) (s : BridgeMemory) :
    (bridge.toDashboard.announceOpened a.fill).Obeys (announcement bridge a) (fun _ _ _ => True)
      () s := by
  rw [DashboardBridge.announceOpened]
  split
  · trivial
  next send found =>
    rw [(bridge.notifier_eq_some found).2]
    refine (Coro.obeys_request (S := bridgeSig) _).mpr ⟨?_, fun _ _ _ _ => trivial⟩
    intro text _ closes
    rw [opens] at closes
    cases closes

/-- What is recorded for the symbol is taken, and goes into the text. -/
theorem announceClosed_obeys {closed : ClosedTrade} {tracker : TradeTracker}
    (own : closed.symbol = a.fill.symbol) (recorded : tracker.closedTrades.getLast? = some closed)
    {s : BridgeMemory} (before : Before bridge a tracker () s) :
    (bridge.toDashboard.announceClosed closed).Obeys (announcement bridge a) (fun _ _ _ => True)
      () s := by
  rw [DashboardBridge.announceClosed]
  have told : (bridge.toDashboard.broadcast (.closedTrade closed)).Keeps (announcement bridge a)
      (Before bridge a tracker) :=
    (keeps_write (fun _ => rfl) (fun _ => rfl) fun _ => rfl).bind fun _ => keeps_broadcast tracker _
  apply (told () s before).bind _ fun _ _ _ _ => trivial
  rintro _ _ s before
  apply (keeps_pushAudit tracker _ () s before).bind _ fun _ _ _ _ => trivial
  rintro _ _ s before
  split
  · trivial
  next send found =>
    obtain ⟨notifies, rfl⟩ := bridge.notifier_eq_some found
    rw [Coro.obeys_bind, Coro.obeys_view]
    dsimp only
    rw [Coro.obeys_bind, Coro.obeys_update]
    constructor
    · -- Only the entry of this symbol goes.
      refine ⟨rfl, fun symbol => ?_⟩
      change (s.reasons.bySymbol.erase closed.symbol).get? symbol = _ ∨ _ ∧
        (s.reasons.bySymbol.erase closed.symbol).get? symbol = _
      rw [Dict.get?_erase]
      by_cases this_one : symbol = closed.symbol
      · exact .inr ⟨this_one.trans own, if_pos this_one⟩
      · exact .inl (if_neg this_one)
    · refine (Coro.obeys_request (S := bridgeSig) _).mpr ⟨?_, fun _ _ _ _ => trivial⟩
      rintro text ⟨⟩ closes
      obtain ⟨rfl, ready⟩ := before
      refine ⟨closed, recorded, ?_⟩
      rw [← ready notifies closes, ← own]
      rfl

/-- The tracker takes the fill; from here on nothing is suspended before the announcement. -/
theorem applyFill_obeys {tracker : TradeTracker}
    (closes : a.closes = (tracker.onExecution 1 a.fill).2.isSome) {s : BridgeMemory}
    (before : Before bridge a tracker () s) :
    (do
      let multiplier ← bridge.toDashboard.multiplierLookup a.fill.symbol
      let before : TradeTracker ← Coro.view
      let result := before.onExecution multiplier a.fill
      Coro.update fun _ : TradeTracker => result.1
      Coro.onlyIf (!before.openTrades.contains a.fill.symbol &&
          result.1.openTrades.contains a.fill.symbol) (bridge.toDashboard.announceOpened a.fill)
      match result.2 with
      | some closed => bridge.toDashboard.announceClosed closed
      | none => pure () : Coro BridgeMemory bridgeSig Unit).Obeys (announcement bridge a)
      (fun _ _ _ => True) () s := by
  cases known : bridge.multiplier a.fill.symbol with
  | error e =>
    have lookup : bridge.toDashboard.multiplierLookup a.fill.symbol = throw e := by
      simp only [ClientBridge.toDashboard, known]
    rw [lookup]
    trivial
  | ok multiplier =>
    have lookup : bridge.toDashboard.multiplierLookup a.fill.symbol = pure multiplier := by
      simp only [ClientBridge.toDashboard, known]
    rw [lookup, Coro.obeys_bind, Coro.obeys_pure]
    dsimp only
    rw [Coro.obeys_bind, Coro.obeys_view]
    dsimp only
    rw [Coro.obeys_bind, Coro.obeys_update]
    obtain ⟨rfl, ready⟩ := before
    refine ⟨⟨rfl, fun symbol => .inl rfl⟩, ?_⟩
    change Coro.Obeys _ (Coro.onlyIf (!s.tracker.openTrades.contains a.fill.symbol &&
        (s.tracker.onExecution multiplier a.fill).1.openTrades.contains a.fill.symbol)
          (bridge.toDashboard.announceOpened a.fill) >>= fun _ =>
      match (s.tracker.onExecution multiplier a.fill).2 with
      | some closed => bridge.toDashboard.announceClosed closed
      | none => pure ()) _ _ _
    cases result : (s.tracker.onExecution multiplier a.fill).2 with
    | none =>
      have opens : a.closes = false := by
        rw [closes, onExecution_isSome _ 1 multiplier, result]
        rfl
      have announced : (Coro.onlyIf (!s.tracker.openTrades.contains a.fill.symbol &&
          (s.tracker.onExecution multiplier a.fill).1.openTrades.contains a.fill.symbol)
            (bridge.toDashboard.announceOpened a.fill)).Obeys (announcement bridge a)
              (fun _ _ _ => True) () (Part.set s (s.tracker.onExecution multiplier a.fill).1) := by
        rw [Coro.onlyIf]
        split
        · exact announceOpened_obeys opens _
        · trivial
      exact announced.bind (fun _ _ _ _ => trivial) fun _ _ _ _ => trivial
    | some closed =>
      -- What closes a trade opens none.
      obtain ⟨recorded, gone⟩ := TradeTracker.onExecution_closed result
      rw [gone, Bool.and_false]
      have before : Before bridge a (s.tracker.onExecution multiplier a.fill).1 ()
          (Part.set s (s.tracker.onExecution multiplier a.fill).1) := ⟨rfl, ready⟩
      exact announceClosed_obeys (onExecution_closed_symbol result) (by rw [recorded]; simp) before

/-- The fill is announced with the reason that was expected when its event came. -/
theorem handleOrderEvent_obeys (bridge : ClientBridge) (event : BrokerEvent) (a : Announced)
    (same : ∀ fill, event = .execution fill → a.fill = fill) (s : BridgeMemory)
    (closes : a.closes = s.closes event) (ready : Ready bridge a s) :
    (bridge.toDashboard.handleOrderEvent event).Obeys (announcement bridge a) (fun _ _ _ => True)
      () s := by
  have before : Before bridge a s.tracker () s := ⟨rfl, ready⟩
  simp only [DashboardBridge.handleOrderEvent]
  rw [Coro.obeys_bind, Coro.obeys_view]
  dsimp only
  split
  · trivial
  next managed found =>
    apply (keeps_broadcast s.tracker _ () s before).bind _ fun _ _ _ _ => trivial
    rintro _ _ s₁ before₁
    cases event with
    | ack event => trivial
    | reject event => trivial
    | execution fill =>
      obtain rfl := same fill rfl
      have closes : a.closes = (s.tracker.onExecution 1 a.fill).2.isSome := by
        have known : s.manager.orders.contains a.fill.orderId = true :=
          Dict.contains_of_get? found
        rw [closes, BridgeMemory.closes, known, Bool.true_and]
      apply (keeps_broadcast s.tracker _ () s₁ before₁).bind _ fun _ _ _ _ => trivial
      rintro _ _ s₂ before₂
      apply (keeps_pushAudit s.tracker _ () s₂ before₂).bind _ fun _ _ _ _ => trivial
      rintro _ _ s₃ before₃
      exact applyFill_obeys closes before₃

-- ═══════════════════════════════════════════════════════════════
-- Runs
-- ═══════════════════════════════════════════════════════════════

/-- A close is announced with the reason of the order whose fill completed it, and without one
if that order has none. -/
def AttachedRight (t : CloseDesk) : Prop :=
  ∀ fill text next, t.announcing = .waiting (.execution fill) true (.notify text) next →
    ∃ closed ∈ t.memory.tracker.closedTrades.getLast?,
      text = closedText closed ((t.noted.get? fill.orderId).getD "")

/-- The symbol whose close is being announced, as long as its reason has not been taken. -/
def untaken (t : CloseDesk) : Option Symbol :=
  match t.announcing with
  | .waiting (.execution _) true (.notify _) _ => none
  | .waiting (.execution fill) true _ _ => some fill.symbol
  | _ => none

/-- When a fill is about to complete a trade, the symbol's latest reason that has not been taken
is the one of this fill's order, and there is none if this order has none. Until the close is
announced, no other reason is noted for the symbol. -/
def Belongs (bridge : ClientBridge) (t : CloseDesk) : Act → Prop
  | .dispatch (.execution fill) =>
    bridge.notifies = true → t.memory.closes (.execution fill) = true →
      t.latest.get? fill.symbol =
        if t.noted.contains fill.orderId then some fill.orderId else none
  | .note symbol _ _ => bridge.notifies = true → untaken t ≠ some symbol
  | _ => True

instance decidableBelongs (bridge : ClientBridge) (t : CloseDesk) :
    (act : Act) → Decidable (Belongs bridge t act)
  | .dispatch (.execution fill) => inferInstanceAs (Decidable (bridge.notifies = true →
      t.memory.closes (.execution fill) = true → t.latest.get? fill.symbol =
        if t.noted.contains fill.orderId then some fill.orderId else none))
  | .note symbol _ _ =>
    inferInstanceAs (Decidable (bridge.notifies = true → untaken t ≠ some symbol))
  | .dispatch (.ack _) | .dispatch (.reject _) => .isTrue trivial
  | .answer _ | .elsewhere _ _ _ => .isTrue trivial

/-- The announcement of an event, with the reason of the event's order. -/
def announced (t : CloseDesk) (fill : ExecutionEvent) (closes : Bool) : Announced :=
  ⟨fill, closes, t.noted.get? fill.orderId⟩

/-- The announcement of an event that is no fill has nothing to do with the reasons. -/
def aside : Contract Unit BridgeMemory bridgeSig where
  issue _ _ _ := True
  rely _ _ _ _ _ _ := True
  guar s s' := s'.reasons = s.reasons

/-- What the dispatch task is at obeys. -/
def Working (bridge : ClientBridge) (t : CloseDesk) : Announcing → Prop
  | .idle => True
  | .waiting (.execution fill) closes q next =>
    t.memory.manager.orders.contains fill.orderId = true ∧
    (announcement bridge (announced t fill closes)).issue q () t.memory ∧
    ∀ r s', (announcement bridge (announced t fill closes)).rely q r () t.memory () s' →
      (next r).Obeys (announcement bridge (announced t fill closes)) (fun _ _ _ => True) () s'
  | .waiting _ _ _ next => ∀ r s, (next r).Obeys aside (fun _ _ _ => True) () s

/-- What is recorded for a symbol is the reason of its latest noted order. -/
structure Recorded (t : CloseDesk) : Prop where
  reason : ∀ symbol,
    t.memory.reasons.bySymbol.get? symbol = (t.latest.get? symbol).bind t.noted.get?
  noted : ∀ symbol orderId, t.latest.get? symbol = some orderId → t.noted.contains orderId = true

structure Held (bridge : ClientBridge) (t : CloseDesk) : Prop extends Recorded t where
  working : Working bridge t t.announcing

variable {t u : CloseDesk}

/-- In a segment only the reason of the fill's symbol can go. -/
theorem guar_advance {program : Coro BridgeMemory bridgeSig Unit} {s : BridgeMemory}
    (obeys : program.Obeys (announcement bridge a) (fun _ _ _ => True) () s) :
    (announcement bridge a).guar s (program.advance s).2 := by
  apply Coro.Obeys.advance_guar (announcement bridge a).guar _ _ _ obeys
  · exact fun s => ⟨rfl, fun symbol => .inl rfl⟩
  · rintro s s' s'' ⟨manager, first⟩ ⟨manager', second⟩
    refine ⟨manager'.trans manager, fun symbol => ?_⟩
    rcases second symbol with kept | gone
    · rcases first symbol with kept' | gone
      · exact .inl (kept.trans kept')
      · exact .inr ⟨gone.1, kept.trans gone.2⟩
    · exact .inr gone
  · exact fun step => step

theorem settle_latest (t : CloseDesk) (fill : ExecutionEvent) (closes : Bool)
    (program : Coro BridgeMemory bridgeSig Unit) (symbol : Symbol) :
    (t.settle (.execution fill) closes program).latest.get? symbol =
      if symbol = fill.symbol ∧
        (program.advance t.memory).2.reasons.bySymbol.contains fill.symbol = false then none
      else t.latest.get? symbol := by
  simp only [settle]
  cases (program.advance t.memory).2.reasons.bySymbol.contains fill.symbol with
  | false => simp [Dict.get?_erase]
  | true => simp

/-- A reason that is taken leaves the symbol without one, and no order waiting. -/
theorem recorded_settle_fill {fill : ExecutionEvent} {closes : Bool}
    {program : Coro BridgeMemory bridgeSig Unit} (held : Recorded t)
    (reasons : ∀ symbol,
      (program.advance t.memory).2.reasons.bySymbol.get? symbol =
          t.memory.reasons.bySymbol.get? symbol ∨
        (symbol = fill.symbol ∧
          (program.advance t.memory).2.reasons.bySymbol.get? symbol = none)) :
    Recorded (t.settle (.execution fill) closes program) := by
  constructor
  · intro symbol
    rw [settle_latest]
    change (program.advance t.memory).2.reasons.bySymbol.get? symbol = Option.bind _ t.noted.get?
    rcases reasons symbol with kept | ⟨rfl, gone⟩
    · -- A symbol without a reason has none to forget.
      rw [kept, held.reason]
      split
      next taken =>
        obtain ⟨rfl, gone⟩ := taken
        rw [← held.reason, ← kept]
        simpa [Dict.contains] using gone
      next => rfl
    · rw [gone, if_pos ⟨rfl, Dict.contains_eq_false gone⟩]
      rfl
  · intro symbol orderId waiting
    rw [settle_latest] at waiting
    split at waiting
    · cases waiting
    · exact held.noted symbol orderId waiting

theorem held_settle_fill {fill : ExecutionEvent} {closes : Bool}
    {program : Coro BridgeMemory bridgeSig Unit} (held : Recorded t)
    (known : ∀ q next, (program.advance t.memory).1 = .await q next →
      t.memory.manager.orders.contains fill.orderId = true)
    (obeys : program.Obeys (announcement bridge (announced t fill closes)) (fun _ _ _ => True) ()
      t.memory) :
    Held bridge (t.settle (.execution fill) closes program) := by
  obtain ⟨manager, reasons⟩ := guar_advance obeys
  refine ⟨recorded_settle_fill held reasons, ?_⟩
  have after := obeys.advance
  simp only [settle]
  cases stand : (program.advance t.memory).1 with
  | await q next =>
    rw [stand] at after
    refine ⟨?_, after.1, fun r s' => after.2 r () s'⟩
    change (program.advance t.memory).2.manager.orders.contains fill.orderId = true
    rw [manager]
    exact known q next stand
  | _ => trivial

/-- An event that is no fill leaves all reasons. -/
theorem held_settle_aside {event : BrokerEvent} (no_fill : ∀ fill, event ≠ .execution fill)
    {closes : Bool} {program : Coro BridgeMemory bridgeSig Unit} (held : Recorded t)
    (obeys : program.Obeys aside (fun _ _ _ => True) () t.memory) :
    Held bridge (t.settle event closes program) := by
  have reasons : (program.advance t.memory).2.reasons = t.memory.reasons :=
    Coro.Obeys.advance_guar aside.guar (fun _ => rfl) (fun first second => second.trans first)
      (fun step => step) obeys
  have after := obeys.advance
  have latest : (t.settle event closes program).latest = t.latest := by
    cases event with
    | execution fill => exact absurd rfl (no_fill fill)
    | _ => rfl
  refine ⟨⟨?_, ?_⟩, ?_⟩
  · intro symbol
    rw [latest]
    change (program.advance t.memory).2.reasons.bySymbol.get? symbol = _
    rw [reasons]
    exact held.reason symbol
  · rw [latest]
    exact held.noted
  · -- Whatever it waits for, it goes on obeying.
    simp only [settle]
    cases stand : (program.advance t.memory).1 with
    | await q next =>
      rw [stand] at after
      cases event with
      | execution fill => exact absurd rfl (no_fill fill)
      | ack event => exact fun r s => after.2 r () s trivial
      | reject event => exact fun r s => after.2 r () s trivial
    | _ => trivial

/-- What is no fill is passed on, and that is all. -/
theorem aside_obeys (bridge : ClientBridge) {event : BrokerEvent}
    (no_fill : ∀ fill, event ≠ .execution fill) (s : BridgeMemory) :
    (bridge.toDashboard.handleOrderEvent event).Obeys aside (fun _ _ _ => True) () s := by
  simp only [DashboardBridge.handleOrderEvent]
  rw [Coro.obeys_bind, Coro.obeys_view]
  dsimp only
  split
  · trivial
  · rw [Coro.obeys_bind]
    refine (Coro.obeys_request (S := bridgeSig) _).mpr ⟨trivial, fun r _ s' _ => ?_⟩
    cases r with
    | error e => trivial
    | ok _ =>
      cases event with
      | execution fill => exact absurd rfl (no_fill fill)
      | ack event => trivial
      | reject event => trivial

/-- A new reason is its order's; the announcement that is under way does not take it. -/
theorem held_note (held : Held bridge t) {symbol : Symbol} {reason : String} {orderId : OrderId}
    (belongs : Belongs bridge t (.note symbol reason orderId))
    (fresh : t.noted.contains orderId = false)
    (unknown : t.memory.manager.orders.contains orderId = false) :
    Held bridge { t with
      memory :=
        ((DashboardBridge.noteCloseReason symbol reason :
          Coro BridgeMemory bridgeSig Unit).advance t.memory).2
      noted := t.noted.set orderId reason
      latest := t.latest.set symbol orderId } := by
  have apart {id : OrderId} (other : t.noted.contains id = true) : id ≠ orderId := by
    rintro rfl
    rw [fresh] at other
    cases other
  constructor
  · constructor
    · intro named
      change (t.memory.reasons.bySymbol.set symbol reason).get? named =
        ((t.latest.set symbol orderId).get? named).bind (t.noted.set orderId reason).get?
      rw [Dict.get?_set, Dict.get?_set]
      split
      next => simp
      next =>
        rw [held.reason]
        cases waiting : t.latest.get? named with
        | none => rfl
        | some id => exact (Dict.get?_set_ne _ _ (apart (held.noted named id waiting))).symm
    · intro named id waiting
      dsimp only at waiting ⊢
      rw [Dict.contains_set]
      rw [Dict.get?_set] at waiting
      split at waiting
      · cases waiting
        exact .inl rfl
      · exact .inr (held.noted named id waiting)
  · have working := held.working
    cases stage : t.announcing with
    | idle => trivial
    | waiting event closes q next =>
      rw [stage] at working
      cases event with
      | ack event => exact working
      | reject event => exact working
      | execution fill =>
        obtain ⟨known, issued, future⟩ := working
        -- The order of the fill is known to the manager, so it is not the new one.
        have other : fill.orderId ≠ orderId := by
          intro same
          rw [same, unknown] at known
          cases known
        have expected : (t.noted.set orderId reason).get? fill.orderId =
            t.noted.get? fill.orderId := Dict.get?_set_ne _ _ other
        refine ⟨known, ?_, fun r s' kept => ?_⟩
        · intro text sent closing
          rw [announced, expected]
          exact issued text sent closing
        · obtain ⟨tracker, reasons⟩ := kept
          rw [announced, expected] at reasons ⊢
          refine future r s' ⟨tracker, fun notifies closing no_notify => ?_⟩
          have closed : closes = true := closing
          subst closed
          have elsewhere : fill.symbol ≠ symbol := by
            rintro rfl
            refine belongs notifies ?_
            unfold untaken
            rw [stage]
            cases q with
            | notify text => exact absurd rfl (no_notify text)
            | _ => rfl
          exact (reasons notifies closing no_notify).trans (Dict.get?_set_ne _ _ elsewhere)

/-- A fill that completes a trade finds the reason of its own order. -/
theorem held_dispatch (held : Recorded t) {event : BrokerEvent}
    (belongs : Belongs bridge t (.dispatch event)) :
    Held bridge (t.settle event (t.memory.closes event)
      (bridge.toDashboard.handleOrderEvent event)) := by
  cases event with
  | execution fill =>
    apply held_settle_fill held
    · intro q next waits
      cases found : t.memory.manager.orders.get? fill.orderId with
      | some managed => exact Dict.contains_of_get? found
      | none =>
        -- Of an unknown order nothing is announced.
        have view : (Part.view t.memory : ManagerState).orders.get? fill.orderId = none := found
        simp only [DashboardBridge.handleOrderEvent, Coro.advance_view_bind, BrokerEvent.orderId,
          view] at waits
        cases waits
    · apply handleOrderEvent_obeys bridge (.execution fill)
      · rintro _ ⟨⟩
        rfl
      · rfl
      · intro notifies closing
        change t.memory.reasons.bySymbol.get? fill.symbol = t.noted.get? fill.orderId
        rw [held.reason, belongs notifies closing]
        split
        next => rfl
        next none_noted =>
          have none_found : t.noted.get? fill.orderId = none := by
            simpa [Dict.contains] using none_noted
          rw [none_found]
          rfl
  | ack event => exact held_settle_aside (by simp) held (aside_obeys bridge (by simp) _)
  | reject event => exact held_settle_aside (by simp) held (aside_obeys bridge (by simp) _)

/-- One act keeps it, if the act meets the condition. -/
theorem held_step {act : Act} (held : Held bridge t) (belongs : Belongs bridge t act)
    (moved : step bridge t act = some u) : Held bridge u := by
  cases act with
  | note symbol reason orderId =>
    simp only [step] at moved
    split at moved
    · cases moved
    next fresh =>
      -- The order is a new one, for the manager as well.
      cases moved
      simp only [Bool.or_eq_true, not_or, Bool.not_eq_true] at fresh
      exact held_note held belongs fresh.1 fresh.2
  | dispatch event =>
    simp only [step] at moved
    split at moved
    next =>
      cases moved
      exact held_dispatch held.toRecorded belongs
    next => cases moved
  | answer reply =>
    have working := held.working
    simp only [step] at moved
    split at moved
    next event closes q next waiting =>
      cases moved
      rw [waiting] at working
      cases event with
      | execution fill =>
        obtain ⟨known, -, future⟩ := working
        refine held_settle_fill held.toRecorded (fun _ _ _ => known) (future (reply q) t.memory ?_)
        exact ⟨rfl, fun _ _ _ => rfl⟩
      | ack event => exact held_settle_aside (by simp) held.toRecorded (working _ _)
      | reject event => exact held_settle_aside (by simp) held.toRecorded (working _ _)
    next => cases moved
  | elsewhere manager candles desk =>
    simp only [step] at moved
    split at moved
    next kept =>
      -- The manager forgets no order, so that the fill's one stays known.
      cases moved
      refine ⟨⟨held.reason, held.noted⟩, ?_⟩
      have working := held.working
      cases stage : t.announcing with
      | idle => trivial
      | waiting event closes q next =>
        rw [stage] at working
        cases event with
        | execution fill =>
          obtain ⟨known, issued, future⟩ := working
          exact ⟨List.all_eq_true.mp kept _ ((Dict.get?_isSome_iff _ _).mp known), issued, future⟩
        | ack event => exact working
        | reject event => exact working
    next => cases moved

theorem attachedRight_of_held (held : Held bridge t) : AttachedRight t := by
  intro fill text next stage
  have working := held.working
  rw [stage] at working
  exact working.2.1 text rfl rfl

/-- A desk on which nothing has been noted. -/
def started (manager : ManagerState) (tracker : TradeTracker) : CloseDesk where
  memory := { manager := manager, tracker := tracker }

/-- In every run whose acts meet the condition, each close that is announced has the reason of
the order that completed it. -/
theorem always_attachedRight (bridge : ClientBridge) (manager : ManagerState)
    (tracker : TradeTracker) (acts : List Act)
    (belongs : Machine.Meets (step bridge) (Belongs bridge) (started manager tracker) acts) :
    Machine.Always (step bridge) AttachedRight (started manager tracker) acts := by
  apply belongs.always (Held bridge) AttachedRight (fun _ held => attachedRight_of_held held)
  · exact fun _ _ _ held belongs moved => held_step held belongs moved
  · exact ⟨⟨fun _ => rfl, fun _ _ waiting => by cases waiting⟩, trivial⟩

/-! ### A reason that outlives its order -/

def notifyingBridge : ClientBridge := ⟨"BTCUSDT", false, true, fun _ => .ok 1⟩

/-- The manager once it has a closing order of this id. -/
def closingOrder (orderId : OrderId) : ManagerState where
  orders := Dict.ofList [(orderId, .ofSignal orderId
    { symbol := "BTCUSDT", strategyId := "position-monitor", side := .sell, targetQuantity := 10 }
    none)]

def closingFill (orderId : OrderId) : ExecutionEvent where
  ts := 60000000
  orderId := orderId
  symbol := "BTCUSDT"
  side := .sell
  fillQuantity := 10
  fillPrice := 90
  cumulativeQuantity := 10
  remainingQuantity := 0
  commission := 0

def longTrade : TradeTracker where
  openTrades := Dict.ofList [("BTCUSDT", ⟨0, .buy, 10, 100, 0, 0, 0⟩)]

def allThrough : (q : BridgeRequest) → Answer bridgeSig q
  | .broadcast _ => .ok ()
  | .send _ _ => .ok ()
  | .klines _ _ => .ok []
  | .notify _ => .ok ()

/-- A reason is noted for the order `hex 1`, and the order `hex n` closes the trade. -/
def closedBy (n : ℕ) : List Act :=
  [.note "BTCUSDT" "STOP-LOSS: -100.00 USDT <= -100 USDT" (.hex 1),
    .elsewhere (closingOrder (.hex n)) {} {}, .dispatch (.execution (closingFill (.hex n)))] ++
    List.replicate 5 (.answer allThrough)

theorem closedBy_own :
    Machine.Always (step notifyingBridge) AttachedRight (started {} longTrade) (closedBy 1) :=
  always_attachedRight notifyingBridge {} longTrade (closedBy 1) (by decide +kernel)

/-- What is being announced, and the reason noted for the order whose fill it is about. -/
def attached (t : CloseDesk) : Option (String × Option String) :=
  match t.announcing with
  | .waiting (.execution fill) true (.notify text) _ => some (text, t.noted.get? fill.orderId)
  | _ => none

theorem attached_eq_some {t : CloseDesk} {text : String} {reason : Option String}
    (sent : attached t = some (text, reason)) :
    ∃ fill next, t.announcing = .waiting (.execution fill) true (.notify text) next ∧
      t.noted.get? fill.orderId = reason := by
  unfold attached at sent
  split at sent
  next fill text' next waiting =>
    obtain ⟨rfl, noted⟩ := Prod.mk.inj (Option.some.inj sent)
    exact ⟨fill, next, waiting, noted⟩
  next => cases sent

theorem closedBy_other_announces :
    (Machine.run (step notifyingBridge) (started {} longTrade) (closedBy 2)).map
        (fun t => (attached t, t.memory.tracker.closedTrades.getLast?.map (closedText · ""))) =
      some (some ("🔴 *STOP-LOSS HIT*: `BTCUSDT`\nP&L: *-100.00 USDT*\n" ++
          "Entry 100.0 → Exit 90.0\nDuration: 1m", none),
        some ("⚪ *Position closed*: `BTCUSDT`\nP&L: *-100.00 USDT*\n" ++
          "Entry 100.0 → Exit 90.0\nDuration: 1m")) := by
  decide +kernel

/-- The noted order has come to nothing, and a flatten closes the trade. -/
theorem closedBy_other_not_right :
    ¬ Machine.Always (step notifyingBridge) AttachedRight (started {} longTrade) (closedBy 2) := by
  intro always
  obtain ⟨t, reached, both⟩ := Option.map_eq_some_iff.mp closedBy_other_announces
  obtain ⟨sent, last⟩ := Prod.mk.inj both
  obtain ⟨fill, next, waiting, unnoted⟩ := attached_eq_some sent
  obtain ⟨closed, latest, same⟩ := always.reached reached fill _ next waiting
  rw [unnoted] at same
  rw [latest, Option.map_some] at last
  -- Without a reason the text is the general one, and that is not what is sent.
  exact absurd (same.trans (Option.some.inj last)) (by decide +kernel)

end Binbot.CloseReasonUse
