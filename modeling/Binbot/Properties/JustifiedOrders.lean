import Binbot.Data.Budget
import Binbot.Data.Origins
import Binbot.Properties.EntryLimit

/-!
# Where an entry comes from

An order of the scanner goes back to a bar. Between the two lie an answer of the exchange, a
queue that drops what does not fit, a risk check and whatever else the process does in the
meantime; no order is made up on the way, none is sized on anything but the equity that was
asked for it, and no bar is entered twice.
-/
namespace Binbot

open Async Data

/-- The signals that the bus has yet to hand on. -/
def EntryProcess.signals (m : EntryProcess) : List SignalEvent := m.bus.queue.filterMap fun
  | .signal signal => some signal
  | _ => none

namespace EntryDesk

/-- A bar as the dispatcher takes it: the memory of the process, and what the dispatcher has
been answered so far. -/
structure Taken where
  bar : BarEvent
  memory : EntryProcess
  log : List (Async.Event entrySig)

/-- The desk, and the bars that its dispatcher has taken. -/
structure Journal where
  desk : EntryDesk
  bars : List Taken := []

/-- The bar that a step takes off the bus. -/
def takes (d : EntryDesk) : EntryLabel → Option Taken
  | .start .dispatcher _ =>
    match d.world.memory.bus.queue with
    | .bar bar :: _ => some ⟨bar, d.world.memory, (d.world.task .dispatcher).log⟩
    | _ => none
  | _ => none

def Journal.step (p : EntryParams) (j : Journal) (label : EntryLabel) : Option Journal :=
  (EntryDesk.step p j.desk label).map fun d => ⟨d, j.bars ++ (takes j.desk label).toList⟩

/-! ## What justifies an order -/

def equityAnswered (equity : ℚ) : Async.Event entrySig := ⟨.live .accountEquity, .ok equity⟩

/-- The price that an entry is sized on. -/
def Taken.price (t : Taken) : ℚ :=
  let latest := t.memory.feed.latestPrice.getD t.bar.symbol 0
  if latest = 0 then t.bar.close else latest

/-- The bar calls for this signal at this equity: it is listed, the scanner is not paused, the
gate lets it through, and the size is the most lots that the margin pays for. -/
structure CallsFor (p : EntryParams) (t : Taken) (equity : ℚ) (signal : SignalEvent) : Prop where
  symbol : signal.symbol = t.bar.symbol
  listed : t.bar.symbol ∈ p.symbols
  running : t.memory.scanner.isPaused = false
  passes : Passes p t.memory t.bar
  side : evaluateEntry (t.memory.feed.priceChangePct.get? t.bar.symbol)
    (t.memory.feed.fundingTrend.get? t.bar.symbol) p.scannerParams.priceJumpPct = some signal.side
  positive : 0 < signal.targetQuantity
  most : IsGreatest (affordable (t.price * p.getStepSize t.bar.symbol)
    (equity * p.scannerParams.marginEquityPct / 100 * p.scannerParams.leverage))
    signal.targetQuantity

/-- The dispatcher took the bar, was answered with the equity next, and the bar calls for the
signal at this equity. -/
def Justifies (p : EntryParams) (log : List (Async.Event entrySig)) (t : Taken)
    (signal : SignalEvent) : Prop :=
  ∃ equity, (t.log ++ [equityAnswered equity]) <+: log ∧ CallsFor p t equity signal

/-- The signal that an answered request has handed to the order manager. -/
def submittedBy : Async.Event entrySig → Option SignalEvent
  | ⟨.live (.submit signal _), _⟩ => some signal
  | _ => none

/-- The signal of an order that is being handed on. -/
def submitting : Option EntryReq → List SignalEvent
  | some (.live (.submit signal _)) => [signal]
  | _ => []

/-- The signals that the dispatcher has handed to the order manager, in this order. -/
def ordered (d : EntryDesk) : List SignalEvent :=
  (d.world.task .dispatcher).log.filterMap submittedBy ++
    submitting (d.world.task .dispatcher).pending

/-! ## Sizing -/

/-- A size that is not zero is the most that the margin pays for. -/
theorem computeLots_greatest {notional price stepSize : ℚ}
    (positive : 0 < computeLots notional price stepSize) :
    IsGreatest (affordable (price * stepSize) notional) (computeLots notional price stepSize) := by
  rw [computeLots] at positive ⊢
  split at positive
  · omega
  next proper =>
    simp only [not_or, not_le] at proper
    rw [if_neg (by simp [proper])]
    have cost : 0 < price * stepSize := mul_pos proper.1 proper.2
    -- one lot at least is paid for, so the margin is not negative
    have paid : ((1 : ℤ) : ℚ) * (price * stepSize) ≤ notional := (le_floor_div_iff cost).mp positive
    have nonneg : 0 ≤ notional := by
      rw [Int.cast_one, one_mul] at paid
      exact cost.le.trans paid
    have greatest := isGreatest_affordable cost nonneg
    rwa [max_eq_left positive.le] at greatest

/-! ## The handlers -/

section Handlers

/-- What the handler of an event may ask, having been answered `before` when it took the event
and `now` so far. -/
def MayAsk (event : BusEvent) (before now : List (Async.Event entrySig)) (q : EntryReq) : Prop :=
  match event with
  | .bar _ => q = .live .accountEquity ∧ now = before
  | .signal signal => ∀ other price, q = .live (.submit other price) → other = signal
  | _ => False

/-- A handler that asks has neither published in this segment nor submitted so far. -/
structure Inquires (event : BusEvent) (before : List (Async.Event entrySig)) (q : EntryReq)
    (w : EntryProcess × List (Async.Event entrySig)) (m : EntryProcess) : Prop where
  unpublished : m.signals = w.1.signals
  unsubmitted : w.2.filterMap submittedBy = before.filterMap submittedBy
  may : MayAsk event before w.2 q

/-- `w` is the memory that the segment started with, and what has been answered by then. -/
def tracedContract (event : BusEvent) (before : List (Async.Event entrySig)) :
    Contract (EntryProcess × List (Async.Event entrySig)) EntryProcess entrySig where
  issue := Inquires event before
  rely q r w _ w' m' := w' = (m', w.2 ++ [⟨q, r⟩])
  guar _ _ := True

/-- A handler ends with nothing published and nothing submitted; or it has submitted its signal;
or it has published one signal that its bar calls for. `start` and `before` are the memory and the
answers at the time that the event was taken. -/
inductive Outcome (p : EntryParams) (event : BusEvent) (start : EntryProcess)
    (before : List (Async.Event entrySig)) (w : EntryProcess × List (Async.Event entrySig))
    (m : EntryProcess) : Prop
  | nothing (unpublished : m.signals = w.1.signals)
      (unsubmitted : w.2.filterMap submittedBy = before.filterMap submittedBy)
  | submitted (signal : SignalEvent) (own : event = .signal signal)
      (unpublished : m.signals = w.1.signals)
      (once : w.2.filterMap submittedBy = before.filterMap submittedBy ++ [signal])
  | published (bar : BarEvent) (signal : SignalEvent) (equity : ℚ) (own : event = .bar bar)
      (once : m.signals = w.1.signals ++ [signal])
      (sized : w.2 = before ++ [equityAnswered equity])
      (calls : CallsFor p ⟨bar, start, before⟩ equity signal)

abbrev Traced (p : EntryParams) (event : BusEvent) (start : EntryProcess)
    (before : List (Async.Event entrySig)) (c : Coro EntryProcess entrySig Unit)
    (w : EntryProcess × List (Async.Event entrySig)) (m : EntryProcess) : Prop :=
  c.Obeys (tracedContract event before) (fun _ => Outcome p event start before) w m

variable (p : EntryParams) {event : BusEvent} {start : EntryProcess}
  {before : List (Async.Event entrySig)}

theorem signals_publish (m : EntryProcess) (signal : SignalEvent) :
    { m with bus := m.bus.publish (.signal signal) }.signals = m.signals ∨
      { m with bus := m.bus.publish (.signal signal) }.signals = m.signals ++ [signal] := by
  by_cases room : m.bus.HasRoom
  · right
    simp [EntryProcess.signals, m.bus.publish_queue room]
  · left
    simp [EntryProcess.signals, m.bus.publish_full room]

/-- What is left of a bar's handler once the equity is there. -/
theorem traced_enter {bar : BarEvent} {side : OrderSide} {equity : ℚ} {m : EntryProcess}
    (listed : bar.symbol ∈ p.symbols) (running : start.scanner.isPaused = false)
    (passes : Passes p start bar)
    (setup : evaluateEntry (start.feed.priceChangePct.get? bar.symbol)
      (start.feed.fundingTrend.get? bar.symbol) p.scannerParams.priceJumpPct = some side) :
    Traced p (.bar bar) start before
      (p.strategy.enter bar.symbol side (Taken.price ⟨bar, start, before⟩) equity)
      (m, before ++ [equityAnswered equity]) m := by
  have silent : (before ++ [equityAnswered equity]).filterMap submittedBy =
      before.filterMap submittedBy := by
    simp [equityAnswered, submittedBy]
  simp only [FundingMomentumScanner.enter]
  split
  · exact .nothing rfl silent
  next sized =>
    simp only [Traced, Coro.obeys_bind, Coro.obeys_view, Coro.obeys_update]
    refine ⟨trivial, trivial, ?_⟩
    rcases signals_publish _ _ with dropped | queued
    · -- the bus was full
      exact .nothing dropped silent
    · have positive := not_le.mp sized
      exact .published bar _ equity rfl queued rfl
        ⟨rfl, listed, running, passes, setup, positive, computeLots_greatest positive⟩

/-- The handler of a bar, in the memory that the bar was taken in up to the queue. -/
theorem traced_dispatchBar (bar : BarEvent) (rest : List BusEvent) :
    Traced p (.bar bar) start before (p.strategy.dispatchBar bar) (popped start rest, before)
      (popped start rest) := by
  rw [FundingMomentumScanner.dispatchBar, Traced, Coro.obeys_bind, Coro.obeys_view]
  dsimp only
  rw [Coro.onlyIf]
  split
  next open_ =>
    simp only [Bool.and_eq_true, Bool.not_eq_true', decide_eq_true_eq] at open_
    have running : start.scanner.isPaused = false := open_.1
    simp only [FundingMomentumScanner.onBar, Coro.obeys_bind, Coro.obeys_view, Coro.obeys_update]
    refine ⟨trivial, ?_⟩
    split
    · exact .nothing rfl rfl
    next new =>
      split
      · exact .nothing rfl rfl
      next room =>
        rw [Coro.obeys_bind, Coro.obeys_view]
        dsimp only
        split
        · exact .nothing rfl rfl
        next side setup =>
          have passes : Passes p start bar :=
            ⟨new, not_le.mp room, Option.isSome_iff_exists.mpr ⟨side, setup⟩⟩
          change Coro.Obeys _ (Coro.request (S := entrySig) (.live .accountEquity) >>= _) _ _ _
          rw [Coro.obeys_bind, Coro.obeys_request]
          constructor
          · exact ⟨rfl, rfl, rfl, rfl⟩
          · rintro r w' m' rfl
            cases r with
            | error e => exact .nothing rfl (by simp [submittedBy])
            | ok equity => exact traced_enter p open_.2 running passes setup
  · exact .nothing rfl rfl

/-- A request of the signal handler before it submits. -/
theorem traced_request {signal : SignalEvent} {q : LiveReq}
    {w : EntryProcess × List (Async.Event entrySig)} {m : EntryProcess}
    {rest : q.Reply → Coro EntryProcess entrySig Unit} (plain : submits (.live q) = false)
    (next : ∀ a log m, log.filterMap submittedBy = before.filterMap submittedBy →
      Traced p (.signal signal) start before (rest a) (m, log) m)
    (unpublished : m.signals = w.1.signals)
    (unsubmitted : w.2.filterMap submittedBy = before.filterMap submittedBy) :
    Traced p (.signal signal) start before (Coro.request (S := entrySig) (.live q) >>= rest) w
      m := by
  have still : ∀ r : Answer entrySig (.live q),
      (w.2 ++ [(⟨.live q, r⟩ : Async.Event entrySig)]).filterMap submittedBy =
        before.filterMap submittedBy := by
    intro r
    rw [List.filterMap_append, unsubmitted]
    cases q with
    | submit other price => cases plain
    | _ => exact List.append_nil _
  rw [Traced, Coro.obeys_bind, Coro.obeys_request]
  constructor
  · refine ⟨unpublished, unsubmitted, ?_⟩
    intro other price own
    rw [own] at plain
    cases plain
  · rintro r w' m' rfl
    cases r with
    | error e => exact .nothing rfl (still _)
    | ok a => exact next a _ m' (still _)

theorem traced_onSignal (signal : SignalEvent) (m : EntryProcess) :
    Traced p (.signal signal) start before (p.main.onSignal signal) (m, before) m := by
  refine traced_request p rfl ?_ (by rfl) (by rfl)
  intro equity log m same
  apply traced_request p rfl _ rfl same
  intro positions log m same
  rw [Traced, Coro.obeys_bind, Coro.obeys_view]
  apply traced_request p rfl _ rfl same
  intro margin log m same
  simp only [LiveScanner.checkOrder, Traced, Coro.obeys_bind, Coro.obeys_view,
    Coro.obeys_update, Coro.obeys_pure]
  refine ⟨trivial, ?_⟩
  split
  next passed =>
    -- both checks passed: the leverage and the margin type are set, then the order is handed on
    refine traced_request p rfl ?_ (by rfl) same
    intro _ log m same
    apply traced_request p rfl _ rfl same
    intro _ log m same
    rw [Traced, Coro.obeys_bind, Coro.obeys_view]
    change Coro.Obeys _ (Coro.request (S := entrySig) (.live (.submit signal _))) _ _ _
    rw [Coro.obeys_request]
    constructor
    · refine ⟨rfl, same, ?_⟩
      rintro other price own
      cases own
      rfl
    · rintro r w' m' rfl
      exact .submitted signal rfl rfl (by simp [same, submittedBy])
  next refused =>
    -- a refused signal goes to the audit trail only
    change Coro.Obeys _ (Coro.request (S := entrySig) (.live (.pushAudit _))) _ _ _
    rw [Coro.obeys_request]
    constructor
    · refine ⟨rfl, same, ?_⟩
      rintro other price own
      cases own
    · rintro r w' m' rfl
      exact .nothing rfl (by simp [same, submittedBy])

/-- Whatever the event is and whatever its handlers before have raised. -/
theorem traced_handle (earlier : Except String Unit) (event : BusEvent) (rest : List BusEvent) :
    Traced p event start before (tryCatch (p.handle earlier event) fun _ => pure ())
      (popped start rest, before) (popped start rest) := by
  have handled : Traced p event start before (p.handle earlier event) (popped start rest, before)
      (popped start rest) := by
    cases earlier with
    | error e => exact .nothing rfl rfl
    | ok _ =>
      cases event with
      | bar bar => exact traced_dispatchBar p bar rest
      | signal signal => exact traced_onSignal p signal _
      | _ => exact .nothing rfl rfl
  apply handled.caught
  · exact fun _ _ _ ended => ended
  · exact fun _ _ _ ended => ended

end Handlers

/-! ## What is on the way -/

/-- The signal that a handler has yet to submit. -/
def carried : BusEvent → List SignalEvent
  | .signal signal => [signal]
  | _ => []

/-- The bars that nothing more comes of, while the event is handled. -/
def settled (bars : List Taken) : BusEvent → List Taken
  | .bar _ => bars.dropLast
  | _ => bars

def inHand (hand : Option BusEvent) : Phase EntryProcess entrySig → List SignalEvent
  | .idle => []
  | _ => (hand.map carried).getD []

def done (bars : List Taken) (hand : Option BusEvent) : Phase EntryProcess entrySig → List Taken
  | .idle => bars
  | _ => (hand.map (settled bars)).getD bars

/-- What is known of an event while it is handled: a bar is the last that was taken. -/
def Current (bars : List Taken) (event : BusEvent) (start : EntryProcess)
    (before : List (Async.Event entrySig)) : Prop :=
  ∀ bar, event = .bar bar → ∃ past, bars = past ++ [⟨bar, start, before⟩]

/-- A handler that is suspended on `q`, having been answered `log`. -/
def Inquiring (p : EntryParams) (hand : Option BusEvent) (bars : List Taken)
    (log : List (Async.Event entrySig)) (q : EntryReq)
    (next : Answer entrySig q → Coro EntryProcess entrySig Unit) : Prop :=
  ∃ event start before, hand = some event ∧ Current bars event start before ∧
    log.filterMap submittedBy = before.filterMap submittedBy ∧ MayAsk event before log q ∧
    ∀ r m, Traced p event start before (next r) (m, log ++ [⟨q, r⟩]) m

def Handling (p : EntryParams) (hand : Option BusEvent) (bars : List Taken)
    (log : List (Async.Event entrySig)) : Phase EntryProcess entrySig → Prop
  | .idle => True
  | .waiting q next => Inquiring p hand bars log q next
  | .answered q _ next => Inquiring p hand bars log q next

/-- A poll publishes nothing. -/
def quietContract : Contract Unit EntryProcess entrySig where
  issue _ _ _ := True
  rely _ _ _ _ _ _ := True
  guar m n := n.signals = m.signals

abbrev Quiet (c : Coro EntryProcess entrySig Unit) : Prop :=
  ∀ m, c.Obeys quietContract (fun _ _ _ => True) () m

def QuietPhase : Phase EntryProcess entrySig → Prop
  | .idle => True
  | .waiting _ next => ∀ r, Quiet (next r)
  | .answered _ _ next => ∀ r, Quiet (next r)

/-- Every signal that is submitted, in the dispatcher's hands or queued goes back to a bar of its
own among those that are done with. -/
abbrev Accounted (p : EntryParams) (log : List (Async.Event entrySig)) (signals : List SignalEvent)
    (bars : List Taken) : Prop :=
  List.SublistForall₂ (fun signal t => Justifies p log t signal) signals bars

structure Traceable (p : EntryParams) (j : Journal) : Prop where
  quiet : QuietPhase (j.desk.world.task .monitor).phase
  handling : Handling p j.desk.hand j.bars (j.desk.world.task .dispatcher).log
    (j.desk.world.task .dispatcher).phase
  accounted : Accounted p (j.desk.world.task .dispatcher).log
    ((j.desk.world.task .dispatcher).log.filterMap submittedBy ++
      inHand j.desk.hand (j.desk.world.task .dispatcher).phase ++ j.desk.world.memory.signals)
    (done j.bars j.desk.hand (j.desk.world.task .dispatcher).phase)

section Segments

variable {p : EntryParams} {event : BusEvent} {start : EntryProcess}
  {before log : List (Async.Event entrySig)} {bars : List Taken} {signals : List SignalEvent}
  {c : Coro EntryProcess entrySig Unit} {m : EntryProcess}

theorem Justifies.later {t : Taken} {signal : SignalEvent} {e : Async.Event entrySig}
    (justified : Justifies p log t signal) : Justifies p (log ++ [e]) t signal := by
  obtain ⟨equity, earlier, calls⟩ := justified
  exact ⟨equity, earlier.trans (List.prefix_append log [e]), calls⟩

theorem settled_sublist (bars : List Taken) (event : BusEvent) : (settled bars event).Sublist bars := by
  cases event with
  | bar bar => exact List.dropLast_sublist bars
  | _ => exact List.Sublist.refl bars

theorem done_sublist (bars : List Taken) (hand : Option BusEvent)
    (phase : Phase EntryProcess entrySig) : (done bars hand phase).Sublist bars := by
  cases phase with
  | idle => exact List.Sublist.refl bars
  | _ =>
    cases hand with
    | none => exact List.Sublist.refl bars
    | some event => exact settled_sublist bars event

/-- A segment of a handler leaves every signal accounted for. -/
theorem accounted_segment (traced : Traced p event start before c (m, log) m)
    (current : Current bars event start before)
    (held : Accounted p log (before.filterMap submittedBy ++ carried event ++ m.signals)
      (settled bars event)) :
    Handling p (some event) bars log (Phase.of (c.advance m).1) ∧
      Accounted p log (log.filterMap submittedBy ++
        inHand (some event) (Phase.of (c.advance m).1) ++ (c.advance m).2.signals)
        (done bars (some event) (Phase.of (c.advance m).1)) := by
  have ended : Outcome p event start before (m, log) (c.advance m).2 →
      Accounted p log (log.filterMap submittedBy ++ [] ++ (c.advance m).2.signals) bars := by
    rintro (⟨unpublished, unsubmitted⟩ | ⟨signal, rfl, unpublished, once⟩ |
      ⟨bar, signal, equity, rfl, once, rfl, calls⟩)
    · -- what was in hand is lost
      rw [unpublished, unsubmitted]
      apply more_sources (fewer_items held _) (settled_sublist bars event)
      exact (List.Sublist.append_left (List.nil_sublist _) _).append_right _
    · -- what was in hand is submitted
      rw [unpublished, once, List.append_nil]
      exact held
    · -- one signal is published, for the bar that was taken last
      obtain ⟨past, rfl⟩ := current bar rfl
      have silent : (before ++ [equityAnswered equity]).filterMap submittedBy =
          before.filterMap submittedBy := by
        simp [equityAnswered, submittedBy]
      rw [once, silent, ← List.append_assoc]
      simp only [settled, List.dropLast_concat] at held
      exact item_of_latest held ⟨equity, List.prefix_rfl, calls⟩
  have after := traced.advance
  cases stand : (c.advance m).1 with
  | done a =>
    rw [stand] at after
    exact ⟨trivial, ended after⟩
  | fail e =>
    rw [stand] at after
    exact ⟨trivial, ended after⟩
  | get next => exact absurd stand (Coro.advance_ne_get c m next)
  | put t next => exact absurd stand (Coro.advance_ne_put c m t next)
  | await q next =>
    rw [stand] at after
    obtain ⟨⟨unpublished, unsubmitted, may⟩, future⟩ := after
    constructor
    · exact ⟨event, start, before, rfl, current, unsubmitted, may, fun r m => future r _ m rfl⟩
    · dsimp only at unpublished unsubmitted
      rw [unsubmitted, unpublished]
      exact held

theorem quiet_poll (p : EntryParams) (latestPrice : Symbol → Option ℚ) :
    Quiet (p.poll latestPrice) := by
  intro m
  apply Coro.obeys_within
  · exact fun _ _ _ => trivial
  · exact fun _ _ => rfl
  · exact fun _ _ _ => trivial

theorem quiet_segment (quiet : Quiet c) (m : EntryProcess) :
    (c.advance m).2.signals = m.signals ∧ QuietPhase (Phase.of (c.advance m).1) := by
  constructor
  · apply (quiet m).advance_guar fun m n => n.signals = m.signals
    · exact fun _ => rfl
    · intro _ _ _ first second
      exact second.trans first
    · exact fun same => same
  · have after := (quiet m).advance
    cases stand : (c.advance m).1 with
    | await q next =>
      rw [stand] at after
      exact fun r n => after.2 r () n trivial
    | get next => exact absurd stand (Coro.advance_ne_get c m next)
    | put t next => exact absurd stand (Coro.advance_ne_put c m t next)
    | _ => trivial

/-- Only the strategy publishes signals. -/
theorem entryDrift_signals {x y : EntryMarket} {m n : EntryProcess} {move : EntryMove}
    (moved : entryDrift m x move = some (n, y)) : n.signals = m.signals := by
  cases move with
  | fill id held whole =>
    obtain ⟨order, -, same⟩ := Option.map_eq_some_iff.mp moved
    cases same
    rfl
  | reduce symbol held =>
    simp only [entryDrift] at moved
    split at moved
    · cases moved
      rfl
    · cases moved
  | publish event =>
    cases event with
    | signal signal => cases moved
    | _ =>
      cases moved
      by_cases room : m.bus.HasRoom
      · simp [EntryProcess.signals, m.bus.publish_queue room]
      · simp [EntryProcess.signals, m.bus.publish_full room]
  | _ =>
    cases moved
    rfl

end Segments

/-! ## Runs -/

section Runs

variable {p : EntryParams} {j : Journal}

/-- The dispatcher takes the next event, if there is one. -/
theorem traceable_dispatch {earlier : Except String Unit} (held : Traceable p j)
    (idle : (j.desk.world.task .dispatcher).phase = .idle) :
    Traceable p
      ⟨⟨j.desk.world.segment .dispatcher (p.dispatch earlier) (j.desk.world.task .dispatcher).log,
        j.desk.world.memory.bus.queue.head?⟩,
        j.bars ++ (takes j.desk (.start .dispatcher (.dispatch earlier))).toList⟩ := by
  obtain ⟨quiet, -, accounted⟩ := held
  rw [idle] at accounted
  simp only [inHand, done, List.append_nil] at accounted
  have elsewhere := World.segment_ne j.desk.world (p.dispatch earlier)
    (j.desk.world.task .dispatcher).log (show EntryTask.monitor ≠ .dispatcher by simp)
  cases queue : j.desk.world.memory.bus.queue with
  | nil =>
    have nothing := advance_dispatch_empty p earlier queue
    simp only [takes, queue, Option.toList_none, List.append_nil]
    constructor
    · rw [elsewhere]
      exact quiet
    · rw [World.segment_same, nothing]
      trivial
    · rw [World.segment_same]
      simp only [World.segment, nothing]
      change Accounted p _ (_ ++ [] ++ _) _
      rw [List.append_nil]
      exact accounted
  | cons event rest =>
    -- the signal of a signal event goes from the queue into the dispatcher's hands
    have first : j.desk.world.memory.signals =
        carried event ++ (popped j.desk.world.memory rest).signals := by
      rw [EntryProcess.signals, queue]
      cases event with
      | _ => rfl
    have current : Current
        (j.bars ++ (takes j.desk (.start .dispatcher (.dispatch earlier))).toList) event
        j.desk.world.memory (j.desk.world.task .dispatcher).log := by
      rintro bar rfl
      exact ⟨j.bars, by simp [takes, queue]⟩
    have before : settled
        (j.bars ++ (takes j.desk (.start .dispatcher (.dispatch earlier))).toList) event =
          j.bars := by
      cases event with
      | _ => simp [takes, queue, settled]
    rw [first, ← List.append_assoc, ← before] at accounted
    obtain ⟨handling, kept⟩ := accounted_segment (traced_handle p earlier event rest) current accounted
    constructor
    · rw [elsewhere]
      exact quiet
    · rw [World.segment_same]
      dsimp only
      rw [advance_dispatch p earlier queue]
      exact handling
    · rw [World.segment_same]
      dsimp only [World.segment]
      rw [advance_dispatch p earlier queue]
      exact kept

/-- The dispatcher is resumed. -/
theorem traceable_resumed {q : EntryReq} {r : Answer entrySig q}
    {next : Answer entrySig q → Coro EntryProcess entrySig Unit} (held : Traceable p j)
    (answered : (j.desk.world.task .dispatcher).phase = .answered q r next) :
    Traceable p
      ⟨⟨j.desk.world.segment .dispatcher (next r)
        ((j.desk.world.task .dispatcher).log ++ [⟨q, r⟩]), j.desk.hand⟩, j.bars⟩ := by
  obtain ⟨quiet, handling, accounted⟩ := held
  rw [answered] at handling accounted
  obtain ⟨event, start, before, hand, current, unsubmitted, -, future⟩ := handling
  simp only [inHand, done, hand, Option.map_some, Option.getD_some, unsubmitted] at accounted
  -- what justified a signal before the answer justifies it after it
  have later := weaker_relation accounted fun _ _ => Justifies.later (e := ⟨q, r⟩)
  obtain ⟨handling, kept⟩ := accounted_segment (future r j.desk.world.memory) current later
  constructor
  · rw [World.segment_ne _ _ _ (by simp)]
    exact quiet
  · rw [World.segment_same, hand]
    exact handling
  · rw [World.segment_same, hand]
    exact kept

theorem traceable_polled {c : Coro EntryProcess entrySig Unit}
    {log : List (Async.Event entrySig)} (held : Traceable p j)
    (quiet : QuietPhase (Phase.of (c.advance j.desk.world.memory).1))
    (same : (c.advance j.desk.world.memory).2.signals = j.desk.world.memory.signals) :
    Traceable p ⟨⟨j.desk.world.segment .monitor c log, j.desk.hand⟩, j.bars⟩ := by
  have elsewhere := World.segment_ne j.desk.world c log
    (show EntryTask.dispatcher ≠ .monitor by simp)
  constructor
  · rw [World.segment_same]
    exact quiet
  · rw [elsewhere]
    exact held.handling
  · rw [elsewhere]
    change Accounted p _ (_ ++ EntryProcess.signals (Coro.advance _ _).2) _
    rw [same]
    exact held.accounted

theorem traceable_served {i : EntryTask} {q : EntryReq}
    {next : Answer entrySig q → Coro EntryProcess entrySig Unit} (held : Traceable p j)
    (waiting : (j.desk.world.task i).phase = .waiting q next) (r : Answer entrySig q)
    (outside : EntryMarket) :
    Traceable p
      ⟨⟨{ j.desk.world.setTask i ⟨.answered q r next, (j.desk.world.task i).log⟩ with
        outside := outside }, j.desk.hand⟩, j.bars⟩ := by
  obtain ⟨quiet, handling, accounted⟩ := held
  cases i with
  | dispatcher =>
    rw [waiting] at handling accounted
    constructor
    · dsimp only
      rw [World.setTask_ne _ _ (by simp)]
      exact quiet
    · dsimp only
      rw [World.setTask_same]
      exact handling
    · dsimp only
      rw [World.setTask_same]
      exact accounted
  | monitor =>
    rw [waiting] at quiet
    constructor
    · dsimp only
      rw [World.setTask_same]
      exact quiet
    · dsimp only
      rw [World.setTask_ne _ _ (by simp)]
      exact handling
    · dsimp only
      rw [World.setTask_ne _ _ (by simp)]
      exact accounted

theorem traceable_step {k : Journal} {label : EntryLabel} (held : Traceable p j)
    (moved : j.step p label = some k) : Traceable p k := by
  obtain ⟨d, stepped, rfl⟩ := Option.map_eq_some_iff.mp moved
  obtain ⟨world, ran, rfl⟩ := Option.map_eq_some_iff.mp stepped
  rcases (entrySystem p).step_cases ran with ⟨i, command, c, rfl, idle, found, rfl⟩ |
    ⟨i, service, q, next, r, outside, rfl, waiting, served, rfl⟩ |
    ⟨i, q, r, next, rfl, answered, rfl⟩ | ⟨move, memory, outside, rfl, drifted, rfl⟩
  · cases i with
    | dispatcher =>
      cases command with
      | poll latestPrice => cases found
      | dispatch earlier =>
        cases found
        exact traceable_dispatch held idle
    | monitor =>
      cases command with
      | dispatch earlier => cases found
      | poll latestPrice =>
        cases found
        obtain ⟨same, quiet⟩ := quiet_segment (quiet_poll p latestPrice) j.desk.world.memory
        simp only [takes, Option.toList_none, List.append_nil]
        exact traceable_polled held quiet same
  · simp only [takes, Option.toList_none, List.append_nil]
    exact traceable_served held waiting r outside
  · simp only [takes, Option.toList_none, List.append_nil]
    cases i with
    | dispatcher => exact traceable_resumed held answered
    | monitor =>
      have quiet := held.quiet
      rw [answered] at quiet
      obtain ⟨same, quiet⟩ := quiet_segment (quiet r) j.desk.world.memory
      exact traceable_polled held quiet same
  · have same := entryDrift_signals drifted
    simp only [takes, Option.toList_none, List.append_nil]
    refine ⟨held.quiet, held.handling, ?_⟩
    dsimp only
    rw [same]
    exact held.accounted

/-- What the dispatcher is about to submit is what it has in hand. -/
theorem ordered_sublist (held : Traceable p j) : (ordered j.desk).Sublist
    ((j.desk.world.task .dispatcher).log.filterMap submittedBy ++
      inHand j.desk.hand (j.desk.world.task .dispatcher).phase) := by
  rw [ordered]
  apply List.Sublist.append_left
  have carries : ∀ {q next}, Inquiring p j.desk.hand j.bars (j.desk.world.task .dispatcher).log q
      next → (submitting (some q)).Sublist ((j.desk.hand.map carried).getD []) := by
    rintro q next ⟨event, start, before, hand, -, -, may, -⟩
    rw [hand]
    unfold submitting
    split
    next signal price same =>
      cases same
      cases event with
      | signal own =>
        cases may signal price rfl
        exact List.Sublist.refl _
      | bar bar => cases may.1
      | _ => exact may.elim
    · exact List.nil_sublist _
  have handling := held.handling
  cases phase : (j.desk.world.task .dispatcher).phase with
  | idle => simp [Task.pending, phase, submitting]
  | waiting q next =>
    rw [phase] at handling
    simp only [Task.pending, phase, inHand]
    exact carries handling
  | answered q r next =>
    rw [phase] at handling
    simp only [Task.pending, phase, inHand]
    exact carries handling

end Runs

/-- Every order that the dispatcher hands on and every signal that is still queued goes back to a
bar of its own, in the order of the bars: the gate let the bar through as it was taken, the next
answer was an equity, and the size is the most lots that the margin at this equity pays for. -/
theorem orders_justified (p : EntryParams) (engine : RiskEngine) (clock : Clock)
    (scanner : ScannerState) (positions : Dict Symbol HeldPosition) (labels : List EntryLabel)
    (j : Journal)
    (reached : Machine.run (Journal.step p) ⟨started engine clock scanner positions, []⟩ labels =
      some j) :
    ∃ bars, bars.Sublist j.bars ∧
      List.Forall₂ (fun signal t => Justifies p (j.desk.world.task .dispatcher).log t signal)
        (ordered j.desk ++ j.desk.world.memory.signals) bars := by
  have traceable : Traceable p j := by
    apply Machine.run_invariant (Traceable p) _ _ labels j _ (Machine.meets_true _ labels) reached
    · intro j label k held _ moved
      exact traceable_step held moved
    · exact ⟨trivial, trivial, .nil⟩
  have accounted := fewer_items traceable.accounted
    ((ordered_sublist traceable).append_right _)
  obtain ⟨bars, related, below⟩ := List.sublistForall₂_iff.mp accounted
  exact ⟨bars, below.trans (done_sublist _ _ _), related⟩

/-- Two bars of one symbol, of which the first comes to an order. -/
theorem orders_justified_entered :
    (Machine.run (Journal.step twoSymbols) ⟨demoStart .empty, []⟩ entered).map
        (fun j => (j.bars.length, (ordered j.desk).map (·.symbol))) = some (2, ["BTCUSDT"]) ∧
      ∀ j, Machine.run (Journal.step twoSymbols) ⟨demoStart .empty, []⟩ entered = some j →
        ∃ bars, bars.Sublist j.bars ∧
          List.Forall₂
            (fun signal t => Justifies twoSymbols (j.desk.world.task .dispatcher).log t signal)
            (ordered j.desk ++ j.desk.world.memory.signals) bars :=
  ⟨by decide +kernel, fun j reached =>
    orders_justified twoSymbols LiveParams.demoProcess.riskEngine ⟨0, 0⟩
      LiveParams.demoProcess.scanner .empty entered j reached⟩

end EntryDesk

end Binbot
