import Binbot.Scripts.CallerRules

/-!
# Rules for the other tasks

The stream loop, the consumer and the dispatcher write in few places as well. What each of
them keeps follows from what is kept there.
-/
namespace Binbot

open Async Data BinanceFuturesBroker

variable {ω : Type} {p : DeskParams} {C : Contract ω Desk wireSig} {I : ω → Desk → Prop}

/-- The bridge tells its clients, and writes the tracker and its reasons. -/
structure BridgeRules (C : Contract ω Desk wireSig) (I : ω → Desk → Prop) : Prop where
  calls : ∀ q : WireReq, q ≠ .streamRecv → (∀ params, q ≠ .createOrder params) →
    (Coro.request (S := wireSig) q : Coro Desk wireSig (wireSig.Reply q)).Keeps C I
  tracks : ∀ tracker : TradeTracker,
    (Coro.update fun _ : TradeTracker => tracker : Coro Desk wireSig Unit).Keeps C I
  explains : ∀ f : CloseReasons → CloseReasons, (Coro.update f : Coro Desk wireSig Unit).Keeps C I
  /-- The dispatcher takes the event off the bus. -/
  takes : ∀ f : EventBus → EventBus, (Coro.update f : Coro Desk wireSig Unit).Keeps C I

namespace BridgeRules

theorem announceOpened (rules : BridgeRules C I) (fill : ExecutionEvent) :
    (p.bridge.announceOpened fill).Keeps C I := by
  rw [DashboardBridge.announceOpened]
  split
  · exact Coro.keeps_pure ()
  next send found =>
    rw [p.bridge_notifier found]
    exact rules.calls _ (by simp) (by simp)

theorem announceClosed (rules : BridgeRules C I) (closed : ClosedTrade) :
    (p.bridge.announceClosed closed).Keeps C I := by
  refine (rules.calls (.broadcast _) (by simp) (by simp)).bind fun _ => ?_
  refine (rules.calls (.pushAudit _) (by simp) (by simp)).bind fun _ => ?_
  split
  · exact Coro.keeps_pure ()
  next send found =>
    refine Coro.keeps_view.bind fun reasons => ?_
    refine (rules.explains _).bind fun _ => ?_
    rw [p.bridge_notifier found]
    exact rules.calls _ (by simp) (by simp)

theorem handleOrderEvent (rules : BridgeRules C I) (event : BrokerEvent) :
    (p.bridge.handleOrderEvent event).Keeps C I := by
  refine Coro.keeps_view.bind fun m => ?_
  split
  · exact Coro.keeps_pure ()
  · refine (rules.calls (.broadcast _) (by simp) (by simp)).bind fun _ => ?_
    cases event with
    | ack event => exact Coro.keeps_pure ()
    | reject event => exact Coro.keeps_pure ()
    | execution fill =>
      refine (rules.calls (.broadcast _) (by simp) (by simp)).bind fun _ => ?_
      refine (rules.calls (.pushAudit _) (by simp) (by simp)).bind fun _ => ?_
      have looked : (p.bridge.multiplierLookup fill.symbol).Keeps C I :=
        keeps_getStepSize fill.symbol
      refine looked.bind fun multiplier => Coro.keeps_view.bind fun before => ?_
      refine (rules.tracks _).bind fun _ => ?_
      refine (Coro.keeps_onlyIf _ (rules.announceOpened fill)).bind fun _ => ?_
      split
      · exact rules.announceClosed _
      · exact Coro.keeps_pure ()

theorem dispatch (rules : BridgeRules C I) (earlier : Except String Unit) :
    (p.dispatch earlier).Keeps C I := by
  refine Coro.keeps_view.bind fun bus => ?_
  split
  · exact Coro.keeps_pure ()
  next event rest first =>
    refine (rules.takes _).bind fun _ => ?_
    refine Coro.Keeps.tryCatch ?_ fun _ => Coro.keeps_pure ()
    cases earlier with
    | error e => exact Coro.keeps_throw _
    | ok _ =>
      cases event with
      | order event => exact rules.handleOrderEvent event
      | _ => exact Coro.keeps_pure ()

end BridgeRules

/-- The stream loop queues events, cancels what is left of a group, and empties it. -/
structure StreamRules (C : Contract ω Desk wireSig) (I : ω → Desk → Prop) : Prop where
  receives : (Coro.request (S := wireSig) .streamRecv : Coro Desk wireSig UserStreamMessage).Keeps C I
  cancels : ∀ symbol id, (Coro.request (S := wireSig) (.cancelOrder symbol id) :
    Coro Desk wireSig Unit).Keeps C I
  puts : ∀ event : BrokerEvent,
    (Coro.update fun m : BrokerState => m.put event : Coro Desk wireSig Unit).Keeps C I
  empties : ∀ group : String, (Coro.update fun m : BrokerState =>
    { m with ocaGroups := m.ocaGroups.set group [] } : Coro Desk wireSig Unit).Keeps C I

namespace StreamRules

theorem handleOcaFill (rules : StreamRules C I) (id : OrderId) :
    (p.broker.handleOcaFill id).Keeps C I := by
  refine Coro.keeps_view.bind fun m => ?_
  split
  · exact Coro.keeps_pure ()
  · split
    · exact Coro.keeps_pure ()
    · refine (Coro.keeps_forEach (fun member => ?_) _).bind fun _ => rules.empties _
      refine Coro.keeps_view.bind fun m => ?_
      split
      · exact Coro.keeps_pure ()
      · exact (rules.cancels _ _).tryCatch fun _ => Coro.keeps_pure ()

theorem handleUserStreamMessage (rules : StreamRules C I) (message : UserStreamMessage) :
    (p.broker.handleUserStreamMessage message).Keeps C I := by
  cases message with
  | other => exact Coro.keeps_pure ()
  | orderTradeUpdate o =>
    refine Coro.keeps_view.bind fun m => ?_
    dsimp only
    cases o.execType with
    | trade =>
      -- a symbol whose filters are missing ends the message here
      refine Coro.Keeps.bind (Coro.keeps_view.bind fun m => ?_) fun filt => ?_
      · split
        · exact Coro.keeps_pure _
        · exact Coro.keeps_throw _
      · exact (rules.puts _).bind fun _ => Coro.keeps_onlyIf _ (rules.handleOcaFill _)
    | other =>
      dsimp only
      split
      · exact Coro.keeps_pure ()
      · exact rules.puts _

theorem receive (rules : StreamRules C I) : p.receive.Keeps C I :=
  rules.receives.bind fun message => rules.handleUserStreamMessage message

end StreamRules

end Binbot
