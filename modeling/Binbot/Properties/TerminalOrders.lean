import Binbot.Execution.ManagerCalls

/-!
# Terminal orders

Four writers set the status of a record and none looks at the status it replaces. So a
terminal status lasts exactly as long as nobody cancels the order again and the broker
reports nothing further that leaves it open.
-/
namespace Binbot

open Async Data

/-- The record of this id has a terminal status. -/
def OrderDesk.Ended (d : OrderDesk) (id : OrderId) : Prop :=
  ∃ order, d.manager.getOrder id = some order ∧ order.status.isTerminal = true

/-- The ids of the records come from the uuids drawn so far. -/
def OrderDesk.Drawn (d : OrderDesk) : Prop :=
  ∀ id order, d.manager.getOrder id = some order → ∃ n < d.uuids.drawn, id = .hex n

namespace ManagerCall

/-- The call does not reopen an order that has ended. -/
def Spares (d : OrderDesk) : ManagerCall → Prop
  | .cancel orderId => ¬ d.Ended orderId
  | .brokerEvent event => d.Ended event.orderId → event.statusAfter.isTerminal = true
  | _ => True

variable {d : OrderDesk}

theorem drawn_applied (call : ManagerCall) (drawn : d.Drawn) : (call.applied d).Drawn := by
  intro id order known
  cases call with
  | submit signal expectedPrice =>
    change (d.manager.noting _ _ _).getOrder id = some order at known
    rw [ManagerState.noting_getOrder] at known
    split at known
    next here => exact ⟨d.uuids.drawn, Nat.lt_succ_self _, here⟩
    next =>
      obtain ⟨n, earlier, same⟩ := drawn id order known
      exact ⟨n, Nat.lt_succ_of_lt earlier, same⟩
  | cancel orderId =>
    change (d.manager.cancelling orderId).getOrder id = some order at known
    rw [ManagerState.cancelling_getOrder] at known
    split at known
    · obtain ⟨old, found, -⟩ := Option.map_eq_some_iff.mp known
      exact drawn id old found
    · exact drawn id order known
  | cancelAll => exact drawn id order known
  | brokerEvent event =>
    change (d.manager.handleEvent event).1.getOrder id = some order at known
    rw [ManagerState.handleEvent_getOrder] at known
    split at known
    · obtain ⟨old, found, -⟩ := Option.map_eq_some_iff.mp known
      exact drawn id old found
    · exact drawn id order known

theorem keyed_applied (call : ManagerCall) (keyed : d.manager.Keyed) :
    (call.applied d).manager.Keyed := by
  cases call with
  | submit signal expectedPrice => exact keyed.noting _ signal expectedPrice
  | cancel orderId => exact keyed.cancelling orderId
  | cancelAll => exact keyed
  | brokerEvent event => exact keyed.handleEvent event

/-- A new record takes no id that is in use. -/
theorem ended_noting (drawn : d.Drawn) {id : OrderId} (ended : d.Ended id) (signal : SignalEvent)
    (expectedPrice : Option ℚ) : ((submit signal expectedPrice).applied d).Ended id := by
  obtain ⟨order, known, terminal⟩ := ended
  refine ⟨order, ?_, terminal⟩
  have fresh : id ≠ .hex d.uuids.drawn := by
    obtain ⟨n, earlier, rfl⟩ := drawn id order known
    intro same
    cases same
    exact Nat.lt_irrefl _ earlier
  change (d.manager.noting _ _ _).getOrder id = some order
  rw [ManagerState.noting_getOrder, if_neg fresh, known]

/-- `cancel` marks its order whether it has ended or not. -/
theorem ended_cancelling (orderId id : OrderId) :
    ((cancel orderId).applied d).Ended id ↔ d.Ended id ∧ id ≠ orderId := by
  change (∃ order, (d.manager.cancelling orderId).getOrder id = some order ∧ _) ↔ _
  rw [ManagerState.cancelling_getOrder]
  by_cases here : id = orderId
  · rw [if_pos here]
    constructor
    · rintro ⟨marked, found, terminal⟩
      obtain ⟨order, -, rfl⟩ := Option.map_eq_some_iff.mp found
      cases terminal
    · exact fun both => absurd here both.2
  · rw [if_neg here]
    exact ⟨fun ended => ⟨ended, here⟩, fun both => both.1⟩

/-- A record takes the status that its event brings. -/
theorem ended_handled (event : BrokerEvent) (known : d.Ended event.orderId) :
    ((brokerEvent event).applied d).Ended event.orderId ↔ event.statusAfter.isTerminal = true := by
  obtain ⟨order, found, -⟩ := known
  change (∃ updated, (d.manager.handleEvent event).1.getOrder _ = some updated ∧ _) ↔ _
  rw [ManagerState.handleEvent_getOrder, if_pos rfl, found, Option.map_some]
  constructor
  · rintro ⟨updated, same, terminal⟩
    cases same
    rwa [ManagedOrder.after_status] at terminal
  · intro terminal
    refine ⟨_, rfl, ?_⟩
    rwa [ManagedOrder.after_status]

theorem ended_unhandled (event : BrokerEvent) {id : OrderId} (other : id ≠ event.orderId) :
    ((brokerEvent event).applied d).Ended id ↔ d.Ended id := by
  change (∃ order, (d.manager.handleEvent event).1.getOrder id = some order ∧ _) ↔ _
  rw [ManagerState.handleEvent_getOrder, if_neg other]
  rfl

/-- A call that spares the ended orders leaves them ended, and only such a call does. -/
theorem spares_iff (call : ManagerCall) (drawn : d.Drawn) :
    call.Spares d ↔ ∀ id, d.Ended id → (call.applied d).Ended id := by
  cases call with
  | submit signal expectedPrice =>
    exact ⟨fun _ id ended => ended_noting drawn ended signal expectedPrice, fun _ => trivial⟩
  | cancel orderId =>
    constructor
    · intro spares id ended
      exact (ended_cancelling orderId id).mpr ⟨ended, fun same => spares (same ▸ ended)⟩
    · intro keeps ended
      exact ((ended_cancelling orderId orderId).mp (keeps orderId ended)).2 rfl
  | cancelAll => exact ⟨fun _ _ ended => ended, fun _ => trivial⟩
  | brokerEvent event =>
    constructor
    · intro spares id ended
      by_cases here : id = event.orderId
      · subst here
        exact (ended_handled event ended).mpr (spares ended)
      · exact (ended_unhandled event here).mpr ended
    · exact fun keeps ended => (ended_handled event ended).mp (keeps event.orderId ended)

end ManagerCall

namespace OrderWorld

/-- Orders that have ended in `w` have ended in `v` and are not among the open ones. -/
def Absorbs (w v : OrderWorld) : Prop :=
  ∀ id, w.memory.Ended id → v.memory.Ended id ∧
    ∀ order ∈ v.memory.manager.openOrders, order.orderId ≠ id

/-- A call that is made does not reopen an order that has ended. -/
def SparesEnded (w : OrderWorld) : OrderLabel → Prop
  | .start i call => (w.task i).phase = .idle → call.Spares w.memory
  | _ => True

structure Inv (w : OrderWorld) : Prop where
  silent : Silent w
  keyed : w.memory.manager.Keyed
  drawn : w.memory.Drawn

variable {w v : OrderWorld}

theorem Inv.closed (held : Inv w) {id : OrderId} (ended : w.memory.Ended id) :
    ∀ order ∈ w.memory.manager.openOrders, order.orderId ≠ id := by
  intro order working same
  obtain ⟨key, known, live⟩ := (ManagerState.mem_openOrders order).mp working
  obtain ⟨record, found, terminal⟩ := ended
  rw [← same, held.keyed key order known, known] at found
  cases found
  rw [live] at terminal
  cases terminal

theorem inv_step {l : OrderLabel} (held : Inv w) (moved : orderSystem.step w l = some v) :
    Inv v := by
  obtain ⟨silent, ⟨i, call, -, memory⟩ | ⟨-, memory⟩⟩ := step_cases held.silent moved
  · refine ⟨silent, ?_, ?_⟩
    · rw [memory]
      exact call.keyed_applied held.keyed
    · rw [memory]
      exact call.drawn_applied held.drawn
  · exact ⟨silent, by rw [memory]; exact held.keyed, by rw [memory]; exact held.drawn⟩

/-- One step keeps the ended orders ended exactly when the call it makes spares them. -/
theorem sparesEnded_iff {l : OrderLabel} (held : Inv w) (moved : orderSystem.step w l = some v) :
    SparesEnded w l ↔ Absorbs w v := by
  have after := inv_step held moved
  obtain ⟨-, ⟨i, call, rfl, memory⟩ | ⟨quiet, memory⟩⟩ := step_cases held.silent moved
  · have idle : (w.task i).phase = .idle := by
      simp only [System.step] at moved
      split at moved
      next idle => exact idle
      next => cases moved
    have keeps := call.spares_iff held.drawn
    rw [← memory] at keeps
    constructor
    · intro spares id ended
      have still := keeps.mp (spares idle) id ended
      exact ⟨still, after.closed still⟩
    · exact fun absorbs _ => keeps.mpr fun id ended => (absorbs id ended).1
  · refine ⟨fun _ => ?_, fun _ => ?_⟩
    · intro id ended
      have still : v.memory.Ended id := by rwa [memory]
      exact ⟨still, after.closed still⟩
    · cases l with
      | start i call => exact absurd rfl (quiet i call)
      | _ => trivial

theorem sparesEnded_idle {l : OrderLabel} (stuck : orderSystem.step w l = none) :
    SparesEnded w l := by
  cases l with
  | start i call =>
    intro idle
    simp [System.step, idle, orderSystem] at stuck
  | _ => trivial

/-- Terminal orders stay terminal, and out of `open_orders`, over a whole run exactly when
no call of the run cancels an ended order and no event that is handled leaves one open. -/
theorem terminal_absorbing (uuids : Uuids) (bus : EventBus) (labels : List OrderLabel) :
    Machine.Meets orderSystem.step SparesEnded (started { uuids := uuids, bus := bus }) labels ↔
      Machine.Between orderSystem.step Absorbs (started { uuids := uuids, bus := bus }) labels := by
  apply Machine.meets_iff_between Inv
  · exact fun w held id ended => ⟨ended, held.closed ended⟩
  · intro u v w first second id ended
    exact second id (first id ended).1
  · exact fun w l v held moved => inv_step held moved
  · exact fun w l v held moved => sparesEnded_iff held moved
  · exact fun w l stuck => sparesEnded_idle stuck
  · exact ⟨fun _ => trivial, fun _ _ known => (by cases known), fun _ _ known => (by cases known)⟩

/-- A filled order that is cancelled is open again. -/
theorem cancel_reopens :
    ¬ ∀ (uuids : Uuids) (bus : EventBus) (labels : List OrderLabel),
      Machine.Between orderSystem.step Absorbs (started { uuids := uuids, bus := bus }) labels := by
  intro claim
  have absorbs := claim ⟨0⟩ {}
    [.start 0 (.submit ⟨"BTCUSDT", "momentum", .buy, 3, .market, none, .day, none⟩ none),
      .start 1 (.brokerEvent (.execution
        ⟨0, .hex 0, "BTCUSDT", .buy, 3, 100, 3, 0, 0, .taker, none⟩)),
      .start 2 (.cancel (.hex 0))]
    [.start 0 (.submit ⟨"BTCUSDT", "momentum", .buy, 3, .market, none, .day, none⟩ none),
      .start 1 (.brokerEvent (.execution
        ⟨0, .hex 0, "BTCUSDT", .buy, 3, 100, 3, 0, 0, .taker, none⟩))]
    [.start 2 (.cancel (.hex 0))] [] _ _ rfl rfl rfl
  obtain ⟨⟨order, known, terminal⟩, -⟩ := absorbs (.hex 0) ⟨_, rfl, rfl⟩
  cases known
  cases terminal

end OrderWorld

end Binbot
