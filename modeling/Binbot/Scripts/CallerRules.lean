import Binbot.Scripts.Trading

/-!
# Rules for the programs of a caller

What a program over the adapter keeps is a matter of the requests that it makes and of the few
places at which it writes. `CallerRules` names those of a caller.
-/
namespace Binbot

open Async Data BinanceFuturesBroker

section Adapter

variable (p : DeskParams) {ω : Type} {C : Contract ω Desk wireSig} {I : ω → Desk → Prop}

theorem keeps_getStepSize (symbol : Symbol) :
    (getStepSize symbol : Coro Desk wireSig ℚ).Keeps C I := by
  refine Coro.Keeps.bind (Coro.keeps_view.bind fun m => ?_) fun filt => Coro.keeps_pure _
  split
  · exact Coro.keeps_pure _
  · exact Coro.keeps_throw _

/-- The one request of `place_stop_loss` is for a `closePosition` order under a native id. -/
theorem keeps_placeStopLoss (asks : ∀ (params : OrderParams) (price : ℚ) (symbol : Symbol) (ms : ℤ),
      params.order = .closePosition price → params.newClientOrderId = .native symbol ms →
      (Coro.request (S := wireSig) (.createOrder params) :
        Coro Desk wireSig (wireSig.Reply (.createOrder params))).Keeps C I)
    (symbol : Symbol) (isLong : Bool) (entryPrice : ℚ) (quantityLots : ℤ) (maxLossUsdt : ℚ) :
    (p.broker.placeStopLoss symbol isLong entryPrice quantityLots maxLossUsdt).Keeps C I := by
  refine Coro.keeps_view.bind fun m => ?_
  split
  · exact Coro.keeps_pure none
  · dsimp only
    split
    · exact Coro.keeps_pure none
    · split
      · exact Coro.keeps_pure none
      · refine Coro.Keeps.bind (Coro.keeps_view.bind fun clock => Coro.keeps_pure _) fun now => ?_
        -- an exception of the call ends in `none` as well
        refine Coro.Keeps.tryCatch (Coro.Keeps.bind ?_ fun id => Coro.keeps_pure _)
          fun e => Coro.keeps_pure none
        exact asks _ _ _ _ rfl rfl

theorem keeps_cancelStopLoss {symbol : Symbol} {id : StopId}
    (asks : (Coro.request (S := wireSig) (.cancelOrderById symbol id) :
      Coro Desk wireSig Unit).Keeps C I) : (p.broker.cancelStopLoss symbol id).Keeps C I :=
  asks.tryCatch fun _ => Coro.keeps_pure ()

end Adapter

/-- A contract that lets a caller work: its plain calls, its native stops, and the places at
which the order manager writes. -/
structure CallerRules {ω : Type} (p : DeskParams) (C : Contract ω Desk wireSig)
    (I : ω → Desk → Prop) : Prop where
  calls : ∀ q : WireReq, q ≠ .streamRecv → (∀ params, q ≠ .createOrder params) →
    (Coro.request (S := wireSig) q : Coro Desk wireSig (wireSig.Reply q)).Keeps C I
  stops : ∀ (params : OrderParams) (price : ℚ) (symbol : Symbol) (ms : ℤ),
    params.order = .closePosition price → params.newClientOrderId = .native symbol ms →
      (Coro.request (S := wireSig) (.createOrder params) :
        Coro Desk wireSig (wireSig.Reply (.createOrder params))).Keeps C I
  draws : (OrderLifecycleManager.uuid4 : Coro Desk wireSig OrderId).Keeps C I
  submits : ∀ signal expectedPrice, (p.orderManager.submit signal expectedPrice).Keeps C I
  /-- `cancel` marks a record before the adapter is asked. -/
  marks : ∀ id order w d, I w d → d.manager.orders.get? id = some order →
    C.guar d { d with manager := { d.manager with
      orders := d.manager.orders.set id { order with status := .cancelPending } } } ∧
    I w { d with manager := { d.manager with
      orders := d.manager.orders.set id { order with status := .cancelPending } } }

namespace CallerRules

variable {p : DeskParams} {ω : Type} {C : Contract ω Desk wireSig} {I : ω → Desk → Prop}

theorem submitLegs (rules : CallerRules p C I) (signals : List SignalEvent) :
    (p.orderManager.submitLegs signals).Keeps C I := by
  induction signals with
  | nil => exact Coro.keeps_pure []
  | cons signal rest ih =>
    exact (rules.submits signal none).bind fun first => ih.bind fun others => Coro.keeps_pure _

theorem submitOco (rules : CallerRules p C I) (signals : List SignalEvent) :
    (p.orderManager.submitOco signals).Keeps C I := by
  rw [OrderLifecycleManager.submitOco]
  split
  · exact Coro.keeps_throw _
  · exact rules.draws.bind fun group => rules.submitLegs _

theorem cancelOrder (rules : CallerRules p C I) (id : OrderId) :
    (p.broker.cancelOrder id).Keeps C I := by
  refine Coro.keeps_view.bind fun m => ?_
  split
  · exact Coro.keeps_pure ()
  · exact (rules.calls _ (by simp) (by simp)).tryCatch fun _ => Coro.keeps_pure ()

theorem cancel (rules : CallerRules p C I) (id : OrderId) :
    (p.orderManager.cancel id).Keeps C I := by
  intro w d held
  rw [OrderLifecycleManager.cancel, Coro.obeys_bind, Coro.obeys_view]
  dsimp only
  split
  · exact held
  next order known =>
    obtain ⟨marked, after⟩ := rules.marks id order w d held known
    rw [Coro.obeys_bind, Coro.obeys_update]
    exact ⟨marked, rules.cancelOrder id w _ after⟩

theorem cancelAll (rules : CallerRules p C I) : p.orderManager.cancelAll.Keeps C I :=
  Coro.keeps_forEach (fun _ => (rules.calls _ (by simp) (by simp)).tryCatch
    fun _ => Coro.keeps_pure ()) _

/-- Whatever a caller is started with. -/
theorem caller (rules : CallerRules p C I) {n : ℕ} {command : TradingCommand}
    {c : Coro Desk wireSig Unit} (started : p.tradingBody (.caller n) command = some c) :
    c.Keeps C I := by
  cases command with
  | submit signal expectedPrice =>
    cases started
    exact (rules.submits signal expectedPrice).bind fun _ => Coro.keeps_pure ()
  | submitOco signals =>
    cases started
    exact (rules.submitOco signals).bind fun _ => Coro.keeps_pure ()
  | cancel id =>
    cases started
    exact rules.cancel id
  | cancelAll =>
    cases started
    exact rules.cancelAll
  | placeStopLoss symbol isLong entryPrice quantityLots maxLossUsdt =>
    cases started
    exact (keeps_placeStopLoss p rules.stops symbol isLong entryPrice quantityLots
      maxLossUsdt).bind fun _ => Coro.keeps_pure ()
  | cancelStopLoss symbol id =>
    cases started
    exact keeps_cancelStopLoss p (rules.calls _ (by simp) (by simp))
  | receive => cases started
  | consume => cases started
  | dispatch earlier => cases started

end CallerRules

end Binbot
