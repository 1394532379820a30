import Binbot.Properties.BinanceOco
import Binbot.Properties.IbkrIdentity
import Binbot.Scripts.TaskRules

/-!
# Submissions that fail

`submit` records its order as submitted before it calls the adapter, and takes nothing back
when `place_order` raises. So the order stays open in the records although no exchange has
heard of it, whichever adapter it is and wherever the exception comes from.
-/
namespace Binbot

open Async Data BinanceFuturesBroker

/-- What is left of an order once its submission has raised: nothing, unless the exchange has
accepted it. No leg of its group works without it. -/
structure Cleared (m : ManagerState) (groups : Dict String (List OrderId))
    (accepted works : OrderId → Prop) (id : OrderId) : Prop where
  closed : ∀ order ∈ m.openOrders, order.orderId = id → accepted id
  ungrouped : ∀ g, id ∈ groups.getD g [] → accepted id
  together : ∀ g leg, m.groupOf id = some g → m.groupOf leg = some g → works leg → accepted id

/-- A record that was just made is open. -/
theorem not_cleared {m : ManagerState} {groups : Dict String (List OrderId)}
    {accepted works : OrderId → Prop} {id : OrderId} {order : ManagedOrder}
    (known : m.getOrder id = some order) (named : order.orderId = id)
    (working : order.status.isTerminal = false) (unheard : ¬ accepted id) :
    ¬ Cleared m groups accepted works id := by
  intro cleared
  have opened : order ∈ m.openOrders := (ManagerState.mem_openOrders order).mpr ⟨id, known, working⟩
  exact unheard (cleared.closed order opened named)

/-! ## On Binance -/

namespace Trading

open OcaDesk (Early Drawn Fewer)

/-- Uuids are drawn one after the other, and an order is sent under a drawn one only. The
outside of a task is the memory that it last went on from. -/
def drawContract : Contract Desk Desk wireSig where
  issue q _ d := ∀ params, q = .createOrder params → Early d.uuids.drawn params.newClientOrderId
  rely _ _ _ d since' d' := since' = d' ∧ d.uuids.drawn ≤ d'.uuids.drawn
  guar d d' := d.uuids.drawn ≤ d'.uuids.drawn

def Later (since d : Desk) : Prop := since.uuids.drawn ≤ d.uuids.drawn

/-- A submitted order is on record, under the id that was drawn last. -/
def Left (since d : Desk) : Prop := ∃ n signal expectedPrice,
  since.uuids.drawn ≤ n ∧ d.uuids.drawn = n + 1 ∧
    d.manager.getOrder (.hex n) = some (.ofSignal (.hex n) signal expectedPrice)

/-- An exception leaves an order behind. -/
def Leaves {α : Type} : Except String α → Desk → Desk → Prop
  | .ok _, since, d => Later since d
  | .error _, since, d => Later since d ∧ Left since d

abbrev Leaving {α : Type} (c : Coro Desk wireSig α) : Prop :=
  ∀ since d, Later since d → c.Obeys drawContract Leaves since d

section Tasks

variable {α β : Type} {p : DeskParams}

theorem early_mono {m n : ℕ} {id : OrderId} (early : Early m id) (le : m ≤ n) : Early n id :=
  fun k named => (early k named).trans_le le

theorem draws_request {q : WireReq} (unplaced : ∀ params, q ≠ .createOrder params) :
    (Coro.request (S := wireSig) q : Coro Desk wireSig (wireSig.Reply q)).Keeps
      drawContract Later := by
  apply Coro.keeps_request
  · exact fun since d _ params same => absurd same (unplaced params)
  · rintro r since d since' d' - ⟨rfl, -⟩
    exact le_refl since'.uuids.drawn

theorem draws_update {τ : Type} [Part Desk τ] {f : τ → τ}
    (drawn : ∀ d : Desk, d.uuids.drawn ≤ (Part.set d (f (Part.view d)) : Desk).uuids.drawn) :
    (Coro.update f : Coro Desk wireSig Unit).Keeps drawContract Later :=
  Coro.keeps_update fun _ d held => ⟨drawn d, held.trans (drawn d)⟩

/-! ### What a caller does -/

theorem leaving_pure (a : α) : Leaving (pure a : Coro Desk wireSig α) := fun _ _ held => held

theorem leaving_bind {c : Coro Desk wireSig β} {f : β → Coro Desk wireSig α} (first : Leaving c)
    (second : ∀ b, Leaving (f b)) : Leaving (c >>= f) := by
  intro since d held
  apply (first since d held).bind
  · exact fun b since' d' after => second b since' d' after
  · exact fun _ _ _ after => after

theorem leaving_view {τ : Type} [Part Desk τ] : Leaving (Coro.view : Coro Desk wireSig τ) :=
  fun _ _ held => held

theorem leaving_update {τ : Type} [Part Desk τ] {f : τ → τ}
    (drawn : ∀ d : Desk, d.uuids.drawn ≤ (Part.set d (f (Part.view d)) : Desk).uuids.drawn) :
    Leaving (Coro.update f : Coro Desk wireSig Unit) :=
  fun _ d held => ⟨drawn d, held.trans (drawn d)⟩

/-- What is caught leaves nothing. -/
theorem leaving_tryCatch {c : Coro Desk wireSig α} {h : String → Coro Desk wireSig α}
    (body : c.Keeps drawContract Later) (handler : ∀ e, Leaving (h e)) :
    Leaving (tryCatch c h) := by
  intro since d held
  apply (body since d held).caught
  · exact fun _ _ _ after => after
  · exact fun e since' d' after => handler e since' d' after

theorem leaving_forEach {ι : Type} {body : ι → Coro Desk wireSig Unit}
    (each : ∀ x, Leaving (body x)) (items : List ι) : Leaving (Coro.forEach body items) := by
  induction items with
  | nil => exact leaving_pure ()
  | cons x xs ih => exact leaving_bind (each x) fun _ => ih

theorem leaving_uuid4 : Leaving (OrderLifecycleManager.uuid4 : Coro Desk wireSig OrderId) :=
  leaving_bind leaving_view fun _ =>
    leaving_bind (leaving_update fun _ => Nat.le_succ _) fun _ => leaving_pure _

/-- The adapter raises before it sends anything, and leaves the records to the manager. -/
theorem leaves_placeOrder {n : ℕ} {since d : Desk} {signal : SignalEvent}
    {expectedPrice : Option ℚ} (fresh : since.uuids.drawn ≤ n) (drawn : d.uuids.drawn = n + 1)
    (recorded : d.manager.getOrder (.hex n) = some (.ofSignal (.hex n) signal expectedPrice)) :
    (p.broker.placeOrder (ManagedOrder.ofSignal (.hex n) signal expectedPrice).request).Obeys
      drawContract Leaves since d := by
  have later : Later since d := by
    rw [Later, drawn]
    exact Nat.le_succ_of_le fresh
  have left : Left since d := ⟨n, signal, expectedPrice, fresh, drawn, recorded⟩
  simp only [placeOrder, Coro.obeys_bind, Coro.obeys_view]
  split
  · -- no filters: nothing has been registered
    exact ⟨later, left⟩
  next filt found =>
    split
    · exact ⟨le_refl d.uuids.drawn, later⟩
    · rw [Coro.obeys_bind, Coro.obeys_update]
      refine ⟨le_refl d.uuids.drawn, ?_⟩
      dsimp only
      split
      · -- a limit order without a price is registered, in its group as well
        exact ⟨later, left⟩
      next order wired =>
        simp only [Coro.obeys_tryCatch, Coro.obeys_bind]
        refine ⟨?_, ?_⟩
        · rintro params same
          cases same
          intro k named
          have same : OrderId.hex n = .hex k := named
          cases same
          change n < d.uuids.drawn
          rw [drawn]
          exact Nat.lt_succ_self n
        · -- what the exchange refuses comes back as an event
          rintro r since' d' ⟨rfl, -⟩
          cases r with
          | ok stop => exact le_refl since'.uuids.drawn
          | error e => exact ⟨le_refl since'.uuids.drawn, le_refl since'.uuids.drawn⟩

theorem leaving_submit (signal : SignalEvent) (expectedPrice : Option ℚ) :
    Leaving (p.orderManager.submit signal expectedPrice) := by
  intro since d held
  have drew : d.uuids.drawn ≤ d.uuids.drawn + 1 := Nat.le_succ _
  rw [OrderLifecycleManager.submit, OrderLifecycleManager.uuid4]
  simp only [Coro.obeys_bind, Coro.obeys_view, Coro.obeys_update, Coro.obeys_pure]
  refine ⟨drew, le_refl (d.uuids.drawn + 1), ?_⟩
  refine (leaves_placeOrder (p := p) held rfl ?_).mono ?_
  · exact (ManagerState.noting_getOrder _ _ signal expectedPrice).trans (if_pos rfl)
  · intro r since' d' after
    cases r with
    | ok _ => exact after
    | error _ => exact after

/-- The legs before the one that raises do not matter. -/
theorem leaving_submitLegs (signals : List SignalEvent) :
    Leaving (p.orderManager.submitLegs signals) := by
  induction signals with
  | nil => exact leaving_pure []
  | cons signal rest ih =>
    exact leaving_bind (leaving_submit signal none) fun first =>
      leaving_bind ih fun others => leaving_pure _

theorem leaving_submitOco {signals : List SignalEvent} (enough : 2 ≤ signals.length) :
    Leaving (p.orderManager.submitOco signals) := by
  rw [OrderLifecycleManager.submitOco, if_neg (not_lt.mpr enough)]
  exact leaving_bind leaving_uuid4 fun group => leaving_submitLegs _

theorem leaving_cancel (id : OrderId) : Leaving (p.orderManager.cancel id) := by
  refine leaving_bind leaving_view fun m => ?_
  split
  · exact leaving_pure ()
  · refine leaving_bind (leaving_update fun _ => le_rfl) fun _ => ?_
    refine leaving_bind leaving_view fun m => ?_
    split
    · exact leaving_pure ()
    · exact leaving_tryCatch (draws_request (by simp)) fun _ => leaving_pure ()

theorem leaving_cancelAll : Leaving p.orderManager.cancelAll :=
  leaving_forEach (fun _ => leaving_tryCatch (draws_request (by simp)) fun _ => leaving_pure ()) _

theorem leaving_placeStopLoss (symbol : Symbol) (isLong : Bool) (entryPrice : ℚ)
    (quantityLots : ℤ) (maxLossUsdt : ℚ) :
    Leaving (p.broker.placeStopLoss symbol isLong entryPrice quantityLots maxLossUsdt) := by
  refine leaving_bind leaving_view fun m => ?_
  split
  · exact leaving_pure none
  · dsimp only
    split
    · exact leaving_pure none
    · split
      · exact leaving_pure none
      · refine leaving_bind (leaving_bind leaving_view fun clock => leaving_pure _) fun now => ?_
        refine leaving_tryCatch (Coro.Keeps.bind ?_ fun id => Coro.keeps_pure _) fun e =>
          leaving_pure none
        -- a native stop goes under an id that is no uuid
        apply Coro.keeps_request
        · rintro since d - params same
          cases same
          exact fun k named => by cases named
        · rintro r since d since' d' - ⟨rfl, -⟩
          exact le_refl since'.uuids.drawn

/-- The label lets a caller go on. A batch of fewer than two signals `submit_oco` refuses
without a call of `place_order`. -/
def Calling : TradingLabel → Prop
  | .start (.caller _) (.submitOco signals) => 2 ≤ signals.length
  | .start (.caller _) _ => True
  | .resume (.caller _) => True
  | _ => False

/-- Of what a caller may ask, submissions alone raise. -/
theorem leaving_caller {n : ℕ} {command : TradingCommand} {c : Coro Desk wireSig Unit}
    (started : p.tradingBody (.caller n) command = some c)
    (calling : Calling (.start (.caller n) command)) : Leaving c := by
  cases command with
  | submit signal expectedPrice =>
    cases started
    exact leaving_bind (leaving_submit signal expectedPrice) fun _ => leaving_pure ()
  | submitOco signals =>
    cases started
    exact leaving_bind (leaving_submitOco calling) fun _ => leaving_pure ()
  | cancel id =>
    cases started
    exact leaving_cancel id
  | cancelAll =>
    cases started
    exact leaving_cancelAll
  | placeStopLoss symbol isLong entryPrice quantityLots maxLossUsdt =>
    cases started
    exact leaving_bind (leaving_placeStopLoss symbol isLong entryPrice quantityLots maxLossUsdt)
      fun _ => leaving_pure ()
  | cancelStopLoss symbol id =>
    cases started
    exact leaving_tryCatch (draws_request (by simp)) fun _ => leaving_pure ()
  | receive => cases started
  | consume => cases started
  | dispatch earlier => cases started

/-! ### The other tasks -/

theorem draws_bridge : BridgeRules drawContract Later where
  calls _ _ unplaced := draws_request unplaced
  tracks _ := draws_update fun _ => le_rfl
  explains _ := draws_update fun _ => le_rfl
  takes _ := draws_update fun _ => le_rfl

theorem draws_stream : StreamRules drawContract Later where
  receives := draws_request (q := .streamRecv) (by simp)
  cancels _ _ := draws_request (by simp)
  puts _ := draws_update fun _ => le_rfl
  empties _ := draws_update fun _ => le_rfl

theorem draws_consumeOne :
    (OrderLifecycleManager.consumeOne : Coro Desk wireSig Unit).Keeps drawContract Later := by
  refine Coro.keeps_view.bind fun m => ?_
  split
  · exact Coro.keeps_pure ()
  · refine (draws_update fun _ => le_rfl).bind fun _ => ?_
    refine Coro.Keeps.tryCatch (Coro.keeps_view.bind fun m => ?_) fun _ => Coro.keeps_pure ()
    refine (draws_update fun _ => le_rfl).bind fun _ => ?_
    split
    · exact Coro.keeps_pure ()
    · exact draws_update fun _ => le_rfl

/-- No task but a caller's sends an order. -/
theorem draws_body {i : TradingTask} (other : ∀ n, i ≠ .caller n) {command : TradingCommand}
    {c : Coro Desk wireSig Unit} (started : p.tradingBody i command = some c) :
    c.Keeps drawContract Later := by
  cases i with
  | caller n => exact absurd rfl (other n)
  | stream =>
    cases command with
    | receive =>
      cases started
      exact draws_stream.receive
    | _ => cases started
  | consumer =>
    cases command with
    | consume =>
      cases started
      exact draws_consumeOne
    | _ => cases started
  | dispatcher =>
    cases command with
    | dispatch earlier =>
      cases started
      exact draws_bridge.dispatch earlier
    | _ => cases started

/-! ### Runs -/

/-- The rest of a task's program, from a memory in which it goes on. -/
def Goes (i : TradingTask) (c : Coro Desk wireSig Unit) (d : Desk) : Prop :=
  c.Obeys drawContract (fun r since d => (∃ n, i = .caller n) → Leaves r since d) d d

def TaskOk (i : TradingTask) (task : Task Desk wireSig) (d : Desk) : Prop :=
  match task.phase with
  | .idle => True
  | .waiting q next => drawContract.issue q d d ∧ ∀ r d', Later d d' → Goes i (next r) d'
  | .answered _ r next => ∀ d', Later d d' → Goes i (next r) d'

/-- No order of the exchange is under an id that has not been drawn. -/
structure Inv (w : TradingWorld) : Prop where
  orders : ∀ o ∈ w.outside.orders, Early w.memory.uuids.drawn o.id
  tasks : ∀ i, TaskOk i (w.task i) w.memory

theorem TaskOk.later {i : TradingTask} {task : Task Desk wireSig} {d d' : Desk}
    (held : TaskOk i task d) (later : Later d d') : TaskOk i task d' := by
  obtain ⟨phase, log⟩ := task
  cases phase with
  | idle => trivial
  | waiting q next =>
    obtain ⟨issued, goes⟩ := held
    refine ⟨fun params same => early_mono (issued params same) later, fun r d'' since => ?_⟩
    exact goes r d'' (later.trans since)
  | answered q r next => exact fun d'' since => held d'' (later.trans since)

theorem goes_of_leaving {i : TradingTask} {c : Coro Desk wireSig Unit} (leaving : Leaving c)
    (d : Desk) : Goes i c d :=
  (leaving d d le_rfl).mono fun _ _ _ after _ => after

theorem goes_of_keeps {i : TradingTask} (other : ∀ n, i ≠ .caller n) {c : Coro Desk wireSig Unit}
    (keeps : c.Keeps drawContract Later) (d : Desk) : Goes i c d := by
  refine (keeps d d le_rfl).mono fun _ _ _ _ calling => ?_
  obtain ⟨n, same⟩ := calling
  exact absurd same (other n)

/-- A segment draws ids, and what it is left waiting for is allowed. -/
theorem goes_segment {i : TradingTask} {c : Coro Desk wireSig Unit} {d : Desk} (goes : Goes i c d)
    (log : List (Async.Event wireSig)) :
    Later d (c.advance d).2 ∧ TaskOk i ⟨Phase.of (c.advance d).1, log⟩ (c.advance d).2 := by
  constructor
  · exact goes.advance_guar Later (fun s => le_refl s.uuids.drawn)
      (fun first second => first.trans second) id
  · have after := goes.advance
    cases stand : (c.advance d).1 with
    | await q next =>
      rw [stand] at after
      exact ⟨after.1, fun r d' later => after.2 r d' d' ⟨rfl, later⟩⟩
    | done a => trivial
    | fail e => trivial
    | get next => trivial
    | put t next => trivial

/-- A caller whose program ends in an exception leaves an order. -/
theorem goes_raised {n : ℕ} {c : Coro Desk wireSig Unit} {d : Desk} (goes : Goes (.caller n) c d)
    {e : String} (raised : (c.advance d).1.error? = some e) : Left d (c.advance d).2 := by
  have after := goes.advance
  cases stand : (c.advance d).1 with
  | fail message =>
    rw [stand] at after
    exact (after ⟨n, rfl⟩).2
  | _ =>
    rw [stand] at raised
    cases raised

theorem Inv.segment {w : TradingWorld} (held : Inv w) {i : TradingTask} {c : Coro Desk wireSig Unit}
    (goes : Goes i c w.memory) (log : List (Async.Event wireSig)) : Inv (w.segment i c log) := by
  obtain ⟨later, task⟩ := goes_segment goes log
  refine ⟨fun o member => early_mono (held.orders o member) later, fun j => ?_⟩
  by_cases same : j = i
  · subst same
    rw [World.segment_same]
    exact task
  · rw [World.segment_ne _ _ _ same]
    exact (held.tasks j).later later

variable {rules : ExchangeRules}

theorem fewer_early {x y : Exchange} (fewer : Fewer x y) {base : ℕ}
    (early : ∀ o ∈ x.orders, Early base o.id) : ∀ o ∈ y.orders, Early base o.id := by
  intro o member
  obtain ⟨before, listed, named⟩ := (fewer.accepted o.id).mp ⟨o, member, rfl⟩
  rw [← named]
  exact early before listed

/-- The exchange accepts orders that were sent, and no others. -/
theorem serve_early {x : Exchange} {base : ℕ} {service : Service} {q : WireReq}
    (sent : ∀ params, q = .createOrder params → Early base params.newClientOrderId)
    (early : ∀ o ∈ x.orders, Early base o.id) :
    ∀ o ∈ (x.serve rules service q).2.orders, Early base o.id := by
  cases q with
  | createOrder params =>
    rw [Exchange.serve]
    split
    · dsimp only [Exchange.act, Exchange.accept]
      split
      · intro o member
        rcases List.mem_append.mp member with old | new
        · exact early o old
        · rw [List.mem_singleton.mp new]
          exact sent params rfl
      · exact early
    · exact early
  | streamRecv =>
    rw [Exchange.serve]
    split
    · exact early
    · exact early
  | _ => exact fewer_early (OcaDesk.settles_serve x service (by simp) (by simp)).orders early

theorem Inv.moved {w : TradingWorld} (held : Inv w) {d : Desk} {y : Exchange}
    (later : Later w.memory d) (orders : ∀ o ∈ y.orders, Early w.memory.uuids.drawn o.id) :
    Inv { w with memory := d, outside := y } :=
  ⟨fun o member => early_mono (orders o member) later, fun i => (held.tasks i).later later⟩

theorem drift_inv {w : TradingWorld} (held : Inv w) {move : TradingMove} {d : Desk} {y : Exchange}
    (moved : tradingDrift rules w.memory w.outside move = some (d, y)) :
    Inv { w with memory := d, outside := y } := by
  cases move with
  | exchange m =>
    obtain ⟨x, happened, same⟩ := Option.map_eq_some_iff.mp moved
    cases same
    exact held.moved le_rfl (fewer_early (OcaDesk.move_fewer happened) held.orders)
  | load symbol =>
    cases moved
    exact held.moved le_rfl held.orders
  | publish event =>
    cases event with
    | order event => cases moved
    | _ =>
      cases moved
      exact held.moved le_rfl held.orders
  | clock clock =>
    cases moved
    exact held.moved le_rfl held.orders

/-- A task may be started with what its body gives. -/
theorem goes_start {i : TradingTask} {command : TradingCommand} {c : Coro Desk wireSig Unit}
    (started : p.tradingBody i command = some c) (calling : (∃ n, i = .caller n) →
      Calling (.start i command)) (d : Desk) : Goes i c d := by
  by_cases caller : ∃ n, i = .caller n
  · obtain ⟨n, rfl⟩ := caller
    exact goes_of_leaving (leaving_caller started (calling ⟨n, rfl⟩)) d
  · have other : ∀ n, i ≠ .caller n := fun n same => caller ⟨n, same⟩
    exact goes_of_keeps other (draws_body other started) d

/-- A batch of one leg or none is refused before anything is drawn. -/
theorem short_segment {w : TradingWorld} {n : ℕ} {command : TradingCommand}
    {c : Coro Desk wireSig Unit} (started : p.tradingBody (.caller n) command = some c)
    (short : ¬ Calling (.start (.caller n) command)) (log : List (Async.Event wireSig)) :
    w.segment (.caller n) c log = w.setTask (.caller n) ⟨.idle, log⟩ := by
  cases command with
  | submitOco signals =>
    cases started
    have few : signals.length < 2 := not_le.mp short
    have refused : p.orderManager.submitOco signals =
        throw "OCO group requires at least 2 signals" := by
      rw [OrderLifecycleManager.submitOco, if_pos few]
    rw [refused]
    rfl
  | _ => exact absurd trivial short

theorem step_inv {w v : TradingWorld} {label : TradingLabel} (held : Inv w)
    (moved : (tradingSystem p rules).step w label = some v) : Inv v := by
  rcases System.step_cases _ moved with ⟨i, command, c, rfl, idle, found, rfl⟩ |
    ⟨i, service, q, next, r, y, rfl, waiting, served, rfl⟩ |
    ⟨i, q, r, next, rfl, answered, rfl⟩ | ⟨move, d, y, rfl, drifted, rfl⟩
  · by_cases calling : (∃ n, i = .caller n) → Calling (.start i command)
    · exact held.segment (goes_start found calling w.memory) _
    · obtain ⟨⟨n, rfl⟩, short⟩ := Classical.not_imp.mp calling
      rw [short_segment found short]
      refine ⟨held.orders, fun j => ?_⟩
      by_cases same : j = .caller n
      · subst same
        rw [World.setTask_same]
        trivial
      · rw [World.setTask_ne _ _ same]
        exact held.tasks j
  · have answer : w.outside.serve rules service q = (r, y) := Option.some.inj served
    have task := held.tasks i
    rw [TaskOk, waiting] at task
    have early : ∀ o ∈ (w.outside.serve rules service q).2.orders, Early w.memory.uuids.drawn o.id :=
      serve_early task.1 held.orders
    rw [answer] at early
    refine ⟨early, fun j => ?_⟩
    change TaskOk j ((w.setTask i _).task j) w.memory
    by_cases same : j = i
    · subst same
      rw [World.setTask_same]
      exact task.2 r
    · rw [World.setTask_ne _ _ same]
      exact held.tasks j
  · have task := held.tasks i
    rw [TaskOk, answered] at task
    exact held.segment (task w.memory (le_refl w.memory.uuids.drawn)) _
  · exact drift_inv held drifted

/-- Whenever a call of a caller ends in an exception, it leaves an order. -/
theorem raised_left {w v : TradingWorld} {label : TradingLabel} (held : Inv w) {e : String}
    (calling : Calling label) (raised : (tradingSystem p rules).raised w label = some e)
    (moved : (tradingSystem p rules).step w label = some v) :
    Left w.memory v.memory ∧ v.outside = w.outside := by
  rcases System.step_cases _ moved with ⟨i, command, c, rfl, idle, found, rfl⟩ |
    ⟨i, service, q, next, r, y, rfl, waiting, served, rfl⟩ |
    ⟨i, q, r, next, rfl, answered, rfl⟩ | ⟨move, d, y, rfl, drifted, rfl⟩
  · have body : (tradingSystem p rules).body i command = some c := found
    simp only [System.raised, body, Option.bind_some] at raised
    have goes := goes_start found (fun _ => calling) w.memory
    cases i with
    | caller n => exact ⟨goes_raised goes raised, rfl⟩
    | _ => exact calling.elim
  · exact calling.elim
  · simp only [System.raised, answered] at raised
    have task := held.tasks i
    rw [TaskOk, answered] at task
    have goes := task w.memory (le_refl w.memory.uuids.drawn)
    cases i with
    | caller n => exact ⟨goes_raised goes raised, rfl⟩
    | _ => exact calling.elim
  · exact calling.elim

theorem started_inv {symbols : List Symbol} {uuids : Uuids} {clock : Clock} {x : Exchange}
    (early : ∀ o ∈ x.orders, Early uuids.drawn o.id) :
    Inv (started rules symbols uuids clock x).world :=
  ⟨early, fun _ => trivial⟩

theorem act_inv {t t' : Trading} {act : Act} (held : Inv t.world)
    (moved : step rules p t act = some t') : Inv t'.world := by
  cases act with
  | task label =>
    obtain ⟨v, stepped, rfl⟩ := Option.map_eq_some_iff.mp moved
    exact step_inv held stepped
  | restart symbols =>
    cases moved
    exact started_inv held.orders

end Tasks

end Trading

/-! ## On IBKR -/

namespace IbkrDesk

/-- The order has been given to the client. -/
def Placed (d : IbkrDesk) (id : OrderId) : Prop :=
  ∃ trade ∈ d.memory.ibkr.ib.trades, trade.request.orderId = id

def Works (d : IbkrDesk) (id : OrderId) : Prop :=
  ∃ trade ∈ d.memory.ibkr.ib.trades, trade.request.orderId = id ∧
    (OrderStatus.ofIb trade.status).isTerminal = false

/-- Every record is open, since no event names one, and an order that waits for its contract
has not been placed. -/
structure Waiting (d : IbkrDesk) : Prop where
  drawn : ∀ id, d.memory.manager.getOrder id ≠ none → ∃ n < d.memory.uuids.drawn, id = .hex n
  opened : ∀ id order, d.memory.manager.getOrder id = some order →
    order.orderId = id ∧ order.status.isTerminal = false
  filed : ∀ id, d.memory.ibkr.tradesByOrderId.get? id ≠ none → ∃ n, id = .counted n
  queued : ∀ event ∈ d.memory.ibkr.eventQueue, ∃ n, event.orderId = .counted n
  placing : ∀ request ∈ d.placing, d.memory.manager.getOrder request.orderId ≠ none
  distinct : (d.placing.map (·.orderId)).Nodup
  placed : ∀ trade ∈ d.memory.ibkr.ib.trades,
    d.memory.manager.getOrder trade.request.orderId ≠ none
  apart : ∀ request ∈ d.placing, ¬ d.Placed request.orderId

namespace Waiting

variable {broker : IbkrBroker} {d e : IbkrDesk}

/-- The id that is drawn next is on no record. -/
theorem fresh (held : Waiting d) : d.memory.manager.getOrder (.hex d.memory.uuids.drawn) = none := by
  by_contra known
  obtain ⟨n, before, same⟩ := held.drawn _ known
  cases same
  exact absurd before (lt_irrefl _)

theorem noted (held : Waiting d) (signal : SignalEvent) (expectedPrice : Option ℚ) :
    Waiting { d with memory := d.noting signal expectedPrice } := by
  refine { held with
    drawn := Drawn.noted held.drawn signal expectedPrice, opened := ?_, placing := ?_, placed := ?_ }
  · intro id order known
    dsimp only at known
    rw [noting_known] at known
    split at known
    next here =>
      cases known
      exact ⟨here.symm, rfl⟩
    next => exact held.opened id order known
  · exact fun request member => ManagerState.noting_known _ _ _ (held.placing request member)
  · exact fun trade member => ManagerState.noting_known _ _ _ (held.placed trade member)

variable (broker) in
/-- A recorded order that waits no longer is placed. -/
theorem placeWith (held : Waiting d) {request : BrokerOrderRequest}
    (known : d.memory.manager.getOrder request.orderId ≠ none)
    (waits : ∀ other ∈ d.placing, other.orderId ≠ request.orderId) (contract : IbContract)
    (contracts : Dict Symbol IbContract) :
    Waiting { d with memory := { d.memory with
      ibkr := broker.placeWith request contract { d.memory.ibkr with contracts } } } := by
  obtain ⟨trade, same, trades, cancelled, queue, filed⟩ :=
    placeWith_trades broker request contract { d.memory.ibkr with contracts }
  refine { held with filed := ?_, queued := ?_, placed := ?_, apart := ?_ }
  · intro id there
    dsimp only at there
    rw [filed, Dict.get?_set] at there
    split at there
    next here => exact ⟨_, here⟩
    next => exact held.filed id there
  · dsimp only
    rw [queue]
    exact held.queued
  · intro placed member
    dsimp only at member
    rw [trades] at member
    rcases List.mem_append.mp member with old | new
    · exact held.placed placed old
    · rw [List.mem_singleton.mp new, same]
      exact known
  · rintro other member ⟨placed, listed, named⟩
    dsimp only at listed
    rw [trades] at listed
    rcases List.mem_append.mp listed with old | new
    · exact held.apart other member ⟨placed, old, named⟩
    · rw [List.mem_singleton.mp new, same] at named
      exact waits other member named.symm

/-- Whether or not there is room for it, a report is about a counted id. -/
theorem mem_queue_append {queue : List BrokerEvent} {event : BrokerEvent} {n : ℤ} {room : Prop}
    [Decidable room] (id : event.orderId = .counted n) :
    ∀ other ∈ queue ++ (if room then [event] else []),
      other ∈ queue ∨ ∃ n, other.orderId = .counted n := by
  intro other member
  rcases List.mem_append.mp member with old | new
  · exact .inl old
  · split at new
    · rw [List.mem_singleton.mp new]
      exact .inr ⟨n, id⟩
    · cases new

/-- The client and its callbacks leave the records alone, and place nothing. -/
theorem told (held : Waiting d) (manager : e.memory.manager = d.memory.manager)
    (uuids : e.memory.uuids = d.memory.uuids) (placing : e.placing = d.placing)
    (trades : ∀ after ∈ e.memory.ibkr.ib.trades, ∃ before ∈ d.memory.ibkr.ib.trades,
      after.request = before.request)
    (filed : e.memory.ibkr.tradesByOrderId = d.memory.ibkr.tradesByOrderId)
    (queued : ∀ event ∈ e.memory.ibkr.eventQueue,
      event ∈ d.memory.ibkr.eventQueue ∨ ∃ n, event.orderId = .counted n) : Waiting e := by
  constructor
  · rw [manager, uuids]
    exact held.drawn
  · rw [manager]
    exact held.opened
  · rw [filed]
    exact held.filed
  · exact fun event member => (queued event member).elim (held.queued event) id
  · rw [placing, manager]
    exact held.placing
  · rw [placing]
    exact held.distinct
  · intro after member
    obtain ⟨before, old, same⟩ := trades after member
    rw [manager, same]
    exact held.placed before old
  · rw [placing]
    rintro request member ⟨after, listed, named⟩
    obtain ⟨before, old, same⟩ := trades after listed
    exact held.apart request member ⟨before, old, same ▸ named⟩

theorem callback (held : Waiting d) {place : ℕ} {change : IbTrade → IbTrade}
    {report : IbkrState → IbTrade → IbkrState}
    (moved : d.callback place change report = some e)
    (puts : ∀ m trade, ∃ event, report m (change trade) = m.putNowait event ∧
      event.orderId = .counted (change trade).order.orderId)
    (same : ∀ trade, (change trade).request = trade.request) : Waiting e := by
  obtain ⟨trade, event, n, found, id, manager, uuids, placing, trades, -, filed, queue, -⟩ :=
    callback_cases moved puts
  apply held.told manager uuids placing _ filed
  · rw [queue]
    exact mem_queue_append id
  · intro after member
    rw [trades] at member
    rcases List.mem_or_eq_of_mem_set member with old | rfl
    · exact ⟨after, old, rfl⟩
    · exact ⟨trade, List.mem_of_getElem? found, same trade⟩

theorem error (held : Waiting d) {reqId errorCode : ℤ} {errorString : String}
    (moved : step broker d (.error reqId errorCode errorString) = some e) : Waiting e := by
  rw [step, Option.some.injEq] at moved
  obtain ⟨ib, filed, event, id, queue⟩ := onError_cases d.memory.ibkr reqId errorCode errorString
  refine held.told (by rw [← moved]) (by rw [← moved]) (by rw [← moved]) ?_ ?_ ?_
  · rw [← moved]
    dsimp only
    rw [ib]
    exact fun trade member => ⟨trade, member, rfl⟩
  · rw [← moved]
    exact filed
  · rw [← moved]
    dsimp only
    rw [queue]
    exact mem_queue_append id

theorem submit (held : Waiting d) {signal : SignalEvent} {expectedPrice : Option ℚ}
    (moved : step broker d (.submit signal expectedPrice) = some e) : Waiting e := by
  have noted := held.noted signal expectedPrice
  have known : (d.noting signal expectedPrice).manager.getOrder (.hex d.memory.uuids.drawn) ≠
      none := by
    rw [noting_known, if_pos rfl]
    exact Option.some_ne_none _
  -- the id has just been drawn, so that it is neither waiting nor placed
  have new : ∀ other ∈ d.placing, other.orderId ≠ .hex d.memory.uuids.drawn := by
    intro other member same
    exact held.placing other member (same ▸ held.fresh)
  cases contract : d.memory.ibkr.contracts.get? signal.symbol with
  | some qualified =>
    rw [step_submit_known contract, Option.some.injEq] at moved
    subst moved
    exact noted.placeWith broker known new qualified d.memory.ibkr.contracts
  | none =>
    rw [step_submit_unknown contract, Option.some.injEq] at moved
    subst moved
    refine { noted with placing := ?_, distinct := ?_, apart := ?_ }
    · intro request member
      rcases List.mem_append.mp member with old | last
      · exact noted.placing request old
      · rw [List.mem_singleton.mp last]
        exact known
    · dsimp only
      rw [List.map_append, List.nodup_append]
      refine ⟨held.distinct, List.nodup_singleton _, ?_⟩
      rintro id member last same rfl
      obtain ⟨other, waits, named⟩ := List.mem_map.mp member
      exact new other waits (named.trans (List.mem_singleton.mp same))
    · intro request member
      rcases List.mem_append.mp member with old | last
      · exact held.apart request old
      · rw [List.mem_singleton.mp last]
        rintro ⟨trade, listed, named⟩
        exact held.placed trade listed (named ▸ held.fresh)

/-- The others that wait have other ids. -/
theorem other_id (held : Waiting d) {place : ℕ} {request other : BrokerOrderRequest}
    (waiting : d.placing[place]? = some request) (member : other ∈ d.placing.eraseIdx place) :
    other.orderId ≠ request.orderId := by
  obtain ⟨i, elsewhere, found⟩ := List.mem_eraseIdx_iff_getElem?.mp member
  intro same
  have there : i < (d.placing.map (·.orderId)).length := by
    rw [List.length_map]
    exact (List.getElem?_eq_some_iff.mp found).1
  apply elsewhere
  apply (List.getElem?_inj there held.distinct).mp
  rw [List.getElem?_map, List.getElem?_map, found, waiting, Option.map_some, Option.map_some, same]

theorem erased (held : Waiting d) (place : ℕ) :
    Waiting { d with placing := d.placing.eraseIdx place } := by
  refine { held with placing := ?_, distinct := ?_, apart := ?_ }
  · exact fun other there => held.placing other (List.mem_of_mem_eraseIdx there)
  · exact held.distinct.sublist ((List.eraseIdx_sublist _ _).map _)
  · exact fun other there => held.apart other (List.mem_of_mem_eraseIdx there)

theorem qualified (held : Waiting d) {place : ℕ} {answer : Except String (List IbContract)}
    (moved : step broker d (.qualified place answer) = some e) : Waiting e := by
  obtain ⟨request, waiting, rfl⟩ := Option.map_eq_some_iff.mp moved
  have erased := held.erased place
  rw [advance_resumed]
  cases answer with
  | error message => exact erased
  | ok contracts =>
    cases contracts with
    | nil => exact erased
    | cons first rest =>
      exact erased.placeWith broker (held.placing request (List.mem_of_getElem? waiting))
        (fun other member => held.other_id waiting member) first _

theorem cancel (held : Waiting d) {orderId : OrderId}
    (moved : step broker d (.cancel orderId) = some e) : Waiting e := by
  cases known : d.memory.manager.getOrder orderId with
  | none =>
    rw [step_cancel_unknown known] at moved
    cases moved
    exact held
  | some order =>
    -- a uuid is no key of the adapter's table, so that only the record changes
    have unfiled := Drawn.unfiled held.drawn held.filed (known ▸ Option.some_ne_none order)
    rw [step_cancel_known known unfiled, Option.some.injEq] at moved
    subst moved
    have known_ (id : OrderId) := ManagerState.cancelling_known (m := d.memory.manager) orderId id
    refine { held with
      drawn := Drawn.cancelled held.drawn orderId
      opened := ?_
      placing := fun request member => (known_ _).mpr (held.placing request member)
      placed := fun trade member => (known_ _).mpr (held.placed trade member) }
    intro id record found
    dsimp only at found
    rw [ManagerState.cancelling_getOrder] at found
    split at found
    · obtain ⟨old, there, rfl⟩ := Option.map_eq_some_iff.mp found
      exact ⟨(held.opened id old there).1, rfl⟩
    · exact held.opened id record found

theorem consume (held : Waiting d) (moved : step broker d .consume = some e) : Waiting e := by
  cases queued : d.memory.ibkr.eventQueue with
  | nil => simp [step, queued] at moved
  | cons event rest =>
    obtain ⟨bus, taken⟩ := step_consume broker queued
    have own := held.queued event (by rw [queued]; exact List.mem_cons_self)
    rw [Drawn.passed_over held.drawn own] at taken
    rw [taken, Option.some.injEq] at moved
    subst moved
    refine { held with queued := fun other member => held.queued other ?_ }
    rw [queued]
    exact List.mem_cons_of_mem _ member

theorem step_waiting (held : Waiting d) (act : Act) (moved : step broker d act = some e) :
    Waiting e := by
  cases act with
  | submit signal expectedPrice => exact held.submit moved
  | nameGroup =>
    cases moved
    exact { held with drawn := Drawn.another held.drawn }
  | qualified place answer => exact held.qualified moved
  | cancel orderId => exact held.cancel moved
  | cancelAll =>
    cases moved
    exact { held with }
  | orderStatus place status permId =>
    have told : d.callback place _ _ = some e := moved
    exact held.callback told (fun m trade => m.onOrderStatus_put _) fun _ => rfl
  | execDetails now place fill =>
    have told : d.callback place (fun trade => { trade with fills := trade.fills ++ [fill] })
        (fun m trade => m.onExecDetails now trade fill) = some e := moved
    exact held.callback told (fun m trade => m.onExecDetails_put now _ fill) fun _ => rfl
  | error reqId errorCode errorString => exact held.error moved
  | consume => exact held.consume moved

theorem connected (uuids : Uuids) (bus : EventBus) (positions : List (IbContract × ℚ)) :
    Waiting (connected uuids bus positions) where
  drawn id known := absurd rfl known
  opened id order known := by cases known
  filed id known := absurd rfl known
  queued event member := by cases member
  placing request member := by cases member
  distinct := List.nodup_nil
  placed trade member := by cases member
  apart request member := by cases member

/-- A submission whose contract is not qualified raises, and its order stays open. -/
theorem raised_open (held : Waiting d) {place : ℕ} {request : BrokerOrderRequest}
    {answer : Except String (List IbContract)} (waiting : d.placing[place]? = some request)
    (unqualified : ∀ first rest, answer ≠ .ok (first :: rest))
    (moved : step broker d (.qualified place answer) = some e) :
    ∃ order, e.memory.manager.getOrder request.orderId = some order ∧
      order.orderId = request.orderId ∧ order.status.isTerminal = false ∧
      ¬ e.Placed request.orderId := by
  obtain ⟨other, same, rfl⟩ := Option.map_eq_some_iff.mp moved
  cases waiting.symm.trans same
  have member := List.mem_of_getElem? waiting
  obtain ⟨order, known⟩ := Option.ne_none_iff_exists'.mp (held.placing request member)
  obtain ⟨named, working⟩ := held.opened _ order known
  -- nothing has been written since the request was made
  have unchanged : ((resumed broker request answer).advance d.memory).2 = d.memory := by
    rw [advance_resumed]
    cases answer with
    | error message => rfl
    | ok contracts =>
      cases contracts with
      | nil => rfl
      | cons first rest => exact absurd rfl (unqualified first rest)
  rw [Placed, unchanged]
  exact ⟨order, known, named, working, held.apart request member⟩

end Waiting

end IbkrDesk

/-! ## Both -/

/-- Wherever `place_order` raises, the order that was recorded last is left behind: on Binance
in any run of the process, whatever the other tasks do meanwhile, and on IBKR whenever a
contract is not qualified. -/
theorem OrderLifecycleManager.phantoms_left (p : DeskParams) (rules : ExchangeRules)
    (symbols : List Symbol) (uuids : Uuids) (clock : Clock) (x : Exchange)
    (drawn : OcaDesk.Drawn uuids x) (broker : IbkrBroker) (bus : EventBus)
    (positions : List (IbContract × ℚ)) :
    (∀ (acts : List Trading.Act) (t t' : Trading) (label : TradingLabel) (e : String),
      Machine.run (Trading.step rules p) (Trading.started rules symbols uuids clock x) acts =
        some t →
      Trading.Calling label → (tradingSystem p rules).raised t.world label = some e →
      Trading.step rules p t (.task label) = some t' →
        ∃ n, t.world.memory.uuids.drawn ≤ n ∧ t'.world.memory.uuids.drawn = n + 1 ∧
          ¬ Cleared t'.world.memory.manager t'.world.memory.broker.ocaGroups
            t'.world.outside.Accepted t'.world.outside.Works (.hex n)) ∧
    ∀ (acts : List IbkrDesk.Act) (d d' : IbkrDesk) (place : ℕ) (request : BrokerOrderRequest)
      (answer : Except String (List IbContract)),
      Machine.run (IbkrDesk.step broker) (IbkrDesk.connected uuids bus positions) acts = some d →
      d.placing[place]? = some request → (∀ first rest, answer ≠ .ok (first :: rest)) →
      IbkrDesk.step broker d (.qualified place answer) = some d' →
        ¬ Cleared d'.memory.manager .empty d'.Placed d'.Works request.orderId := by
  constructor
  · intro acts t t' label e reached calling raised moved
    have held : Trading.Inv t.world :=
      Machine.run_preserves (fun t => Trading.Inv t.world) (fun _ _ _ => Trading.act_inv) _ acts t
        (Trading.started_inv drawn.orders) reached
    obtain ⟨v, stepped, rfl⟩ := Option.map_eq_some_iff.mp moved
    obtain ⟨⟨n, signal, expectedPrice, fresh, last, known⟩, outside⟩ :=
      Trading.raised_left held calling raised stepped
    refine ⟨n, fresh, last, not_cleared known rfl rfl ?_⟩
    -- the exchange has no order under an id that was drawn in this step
    dsimp only
    rw [outside]
    rintro ⟨o, member, named⟩
    exact absurd (held.orders o member n named) (not_lt.mpr fresh)
  · intro acts d d' place request answer reached waiting unqualified moved
    have held : d.Waiting :=
      Machine.run_preserves IbkrDesk.Waiting (fun _ act _ held => held.step_waiting act) _ acts d
        (.connected uuids bus positions) reached
    obtain ⟨order, known, named, working, unheard⟩ := held.raised_open waiting unqualified moved
    exact not_cleared known named working unheard

/-! ## A batch whose second leg raises -/

namespace Trading

/-- Five lots of BTCUSDT are bought at market, or sold by a limit order without a price. -/
def unpricedBatch : TradingCommand :=
  .submitOco
    [{ symbol := "BTCUSDT", strategyId := "pairs", side := .buy, targetQuantity := 5 },
      { symbol := "BTCUSDT", strategyId := "pairs", side := .sell, targetQuantity := 5,
        orderType := .limit }]

def flat : Trading := started demoRules ["BTCUSDT"] ⟨0⟩ ⟨0, 0⟩ { position := fun _ => 0 }

/-- The exchange has accepted the first leg. -/
def firstAccepted : List Act :=
  [.task (.start (.caller 0) unpricedBatch), .task (.serve (.caller 0) {})]

/-- The second leg has raised. It is open and in its group, although the exchange has never
seen it, and the first works without it. -/
def SecondLeft (t : Trading) : Prop :=
  (∃ order ∈ t.world.memory.manager.openOrders, order.orderId = .hex 2) ∧
    .hex 2 ∈ t.world.memory.broker.ocaGroups.getD "oca-0" [] ∧
    t.world.memory.manager.groupOf (.hex 1) = some "oca-0" ∧ t.world.outside.Works (.hex 1) ∧
    ¬ t.world.outside.Accepted (.hex 2)

instance (t : Trading) : Decidable t.SecondLeft :=
  inferInstanceAs (Decidable (_ ∧ _ ∧ _ ∧ _ ∧ ¬ _))

/-- The caller goes on, and its call raises. -/
def Unpriced (t : Trading) : Prop :=
  (tradingSystem .demoDesk demoRules).raised t.world (.resume (.caller 0)) =
      some "LIMIT order requires limit_price" ∧
    ∃ t' ∈ step demoRules .demoDesk t (.task (.resume (.caller 0))), t'.SecondLeft

instance (t : Trading) : Decidable t.Unpriced :=
  inferInstanceAs (Decidable (_ ∧ ∃ t' ∈ (_ : Option Trading), SecondLeft t'))

theorem reaches_unpriced :
    ∃ t ∈ Machine.run (step demoRules .demoDesk) flat firstAccepted, t.Unpriced := by
  decide +kernel

end Trading

/-- The client finds no contract for the symbol. -/
def unqualified : List IbkrDesk.Act :=
  [.submit ⟨"ES", "momentum", .buy, 1, .market, none, .day, none⟩ none]

theorem OrderLifecycleManager.phantoms_left_unpriced :
    (∃ t t', Machine.run (Trading.step demoRules .demoDesk) Trading.flat
        Trading.firstAccepted = some t ∧
      Trading.step demoRules .demoDesk t (.task (.resume (.caller 0))) = some t' ∧
      ∃ n, t.world.memory.uuids.drawn ≤ n ∧ t'.world.memory.uuids.drawn = n + 1 ∧
        ¬ Cleared t'.world.memory.manager t'.world.memory.broker.ocaGroups
          t'.world.outside.Accepted t'.world.outside.Works (.hex n)) ∧
    ∃ d d' request, Machine.run (IbkrDesk.step { drawId := fun n => n + 4 })
        (IbkrDesk.connected ⟨0⟩ {} []) unqualified = some d ∧
      d.placing[0]? = some request ∧
      IbkrDesk.step { drawId := fun n => n + 4 } d (.qualified 0 (.ok [])) = some d' ∧
      ¬ Cleared d'.memory.manager .empty d'.Placed d'.Works request.orderId := by
  have left := phantoms_left .demoDesk demoRules ["BTCUSDT"] ⟨0⟩ ⟨0, 0⟩ { position := fun _ => 0 }
    ⟨by simp, by simp⟩ { drawId := fun n => n + 4 } {} []
  constructor
  · obtain ⟨t, reached, raised, t', moved, -⟩ := Trading.reaches_unpriced
    refine ⟨t, t', reached, moved, ?_⟩
    exact left.1 Trading.firstAccepted t t' (.resume (.caller 0)) _ reached trivial raised moved
  · refine ⟨_, _, _, rfl, rfl, rfl, ?_⟩
    exact left.2 unqualified _ _ 0 _ (.ok []) rfl rfl (by simp) rfl

theorem Trading.second_leg_left :
    (∃ t ∈ Machine.run (step demoRules .demoDesk) flat firstAccepted, t.Unpriced) ∧
      ¬ ∀ (p : DeskParams) (rules : ExchangeRules) (symbols : List Symbol) (uuids : Uuids)
        (clock : Clock) (x : Exchange) (acts : List Act) (t t' : Trading) (label : TradingLabel)
        (e : String), OcaDesk.Drawn uuids x →
        Machine.run (step rules p) (started rules symbols uuids clock x) acts = some t →
        Calling label → (tradingSystem p rules).raised t.world label = some e →
        step rules p t (.task label) = some t' →
          ∀ id, Cleared t'.world.memory.manager t'.world.memory.broker.ocaGroups
            t'.world.outside.Accepted t'.world.outside.Works id := by
  refine ⟨reaches_unpriced, fun claim => ?_⟩
  obtain ⟨t, reached, raised, t', moved, -, member, -, -, unheard⟩ := reaches_unpriced
  have cleared := claim .demoDesk demoRules ["BTCUSDT"] ⟨0⟩ ⟨0, 0⟩ { position := fun _ => 0 }
    firstAccepted t t' (.resume (.caller 0)) _ ⟨by simp, by simp⟩ reached trivial raised moved
    (.hex 2)
  exact unheard (cleared.ungrouped "oca-0" member)

end Binbot
