import Binbot.Execution.PositionMonitor

/-!
# The monitor and its collaborators

The calls one poll makes on the broker adapter, the order manager and the close
callback, as the requests of a signature: the monitor seen from the interfaces
it is constructed with.
-/
namespace Binbot

open Async Data

inductive MonitorReq where
  | positionDetails
  | accountEquity
  | placeStopLoss (symbol : Symbol) (isLong : Bool) (entryPrice : ℚ) (quantityLots : ℤ)
      (maxLossUsdt : ℚ)
  | cancelStopLoss (symbol : Symbol) (orderId : StopId)
  | closeEvent (symbol : Symbol) (reason : CloseReason)
  | submit (signal : SignalEvent) (expectedPrice : Option ℚ)
  deriving DecidableEq

abbrev MonitorReq.Reply : MonitorReq → Type
  | .positionDetails => List PositionDetail
  | .accountEquity => ℚ
  | .placeStopLoss .. => Option StopId
  | .cancelStopLoss .. => Unit
  | .closeEvent .. => Unit
  | .submit .. => Unit

abbrev monitorSig : Sig := ⟨MonitorReq, MonitorReq.Reply⟩

/-- The request concerns this symbol. -/
def MonitorReq.About (s : Symbol) : MonitorReq → Bool
  | .positionDetails => false
  | .accountEquity => false
  | .placeStopLoss symbol .. => symbol = s
  | .cancelStopLoss symbol _ => symbol = s
  | .closeEvent symbol _ => symbol = s
  | .submit signal _ => signal.symbol = s

structure MonitorParams where
  stopLossEquityPct : ℚ
  leverage : ℚ
  stepSize : Symbol → ℚ
  trailing : TrailingProfit

namespace MonitorParams

/-- A monitor with a stop-loss of 5 % of the equity, on one lot size. -/
def demo : MonitorParams where
  stopLossEquityPct := 5
  leverage := 10
  stepSize := fun _ => 1 / 1000
  trailing := ⟨20, 10, 5, 10, 100, by norm_num⟩

/-- A monitor whose collaborators are the interface itself. `latestPrice` is the
price feed as it stands during the poll. -/
def monitor (p : MonitorParams) (latestPrice : Symbol → Option ℚ) :
    PositionMonitor MonitorState monitorSig where
  broker :=
    { getPositionDetails := Coro.request (S := monitorSig) .positionDetails
      getAccountEquity := Coro.request (S := monitorSig) .accountEquity
      placeStopLoss := fun symbol isLong entryPrice quantityLots maxLossUsdt =>
        Coro.request (S := monitorSig)
          (.placeStopLoss symbol isLong entryPrice quantityLots maxLossUsdt)
      cancelStopLoss := fun symbol orderId =>
        Coro.request (S := monitorSig) (.cancelStopLoss symbol orderId) }
  submit := fun signal expectedPrice =>
    Coro.request (S := monitorSig) (.submit signal expectedPrice)
  stopLossEquityPct := p.stopLossEquityPct
  leverage := p.leverage
  stepSizeLookup := fun symbol => pure (p.stepSize symbol)
  trailing := p.trailing
  onCloseEvent := some fun symbol reason =>
    Coro.request (S := monitorSig) (.closeEvent symbol reason)
  priceLookup := some fun symbol => pure (latestPrice symbol)

section

variable (p : MonitorParams) (latestPrice : Symbol → Option ℚ)

@[simp] theorem monitor_getPositionDetails : (p.monitor latestPrice).broker.getPositionDetails =
    Coro.request (S := monitorSig) .positionDetails := rfl

@[simp] theorem monitor_getAccountEquity : (p.monitor latestPrice).broker.getAccountEquity =
    Coro.request (S := monitorSig) .accountEquity := rfl

@[simp] theorem monitor_placeStopLoss (symbol : Symbol) (isLong : Bool) (entryPrice : ℚ)
    (quantityLots : ℤ) (maxLossUsdt : ℚ) :
    (p.monitor latestPrice).broker.placeStopLoss symbol isLong entryPrice quantityLots maxLossUsdt =
      Coro.request (S := monitorSig)
        (.placeStopLoss symbol isLong entryPrice quantityLots maxLossUsdt) := rfl

@[simp] theorem monitor_cancelStopLoss (symbol : Symbol) (orderId : StopId) :
    (p.monitor latestPrice).broker.cancelStopLoss symbol orderId =
      Coro.request (S := monitorSig) (.cancelStopLoss symbol orderId) := rfl

@[simp] theorem monitor_submit (signal : SignalEvent) (expectedPrice : Option ℚ) :
    (p.monitor latestPrice).submit signal expectedPrice =
      Coro.request (S := monitorSig) (.submit signal expectedPrice) := rfl

@[simp] theorem monitor_onCloseEvent : (p.monitor latestPrice).onCloseEvent =
    some fun symbol reason => Coro.request (S := monitorSig) (.closeEvent symbol reason) := rfl

@[simp] theorem monitor_priceLookup : (p.monitor latestPrice).priceLookup =
    some fun symbol => pure (latestPrice symbol) := rfl

@[simp] theorem monitor_stepSizeLookup (symbol : Symbol) :
    (p.monitor latestPrice).stepSizeLookup symbol = pure (p.stepSize symbol) := rfl

@[simp] theorem monitor_stopLossEquityPct :
    (p.monitor latestPrice).stopLossEquityPct = p.stopLossEquityPct := rfl

@[simp] theorem monitor_leverage : (p.monitor latestPrice).leverage = p.leverage := rfl

@[simp] theorem monitor_trailing : (p.monitor latestPrice).trailing = p.trailing := rfl

end

/-- ROI% of a position, from what the exchange reports for it. -/
def roi (p : MonitorParams) (d : PositionDetail) : ℚ :=
  PositionMonitor.roiPct p.leverage (p.stepSize d.symbol) d

end MonitorParams

/-- What the monitor knows of one symbol. -/
structure View where
  held : Option ℤ
  closing : Bool
  native : Option StopId
  peak : Option ℚ
  stop : Option ℚ
  deriving DecidableEq

def MonitorState.at (m : MonitorState) (s : Symbol) : View where
  held := m.positions.get? s
  closing := s ∈ m.closing
  native := m.nativeStopOrderId.get? s
  peak := m.peakRoiPct.get? s
  stop := m.positionStopLossUsdt.get? s

/-- A symbol the monitor has never seen, or has forgotten. -/
def View.blank : View := ⟨none, false, none, none, none⟩

/-- The symbol in a new book. -/
def View.holding (v : View) (qty : ℤ) : View := { v with held := some qty }

/-- What is left of a symbol that left the book. -/
def View.forgotten (v : View) : View :=
  { v with native := none, peak := none, stop := none }

@[simp] theorem MonitorState.at_initial (s : Symbol) : MonitorState.initial.at s = .blank := rfl

/-- A snapshot replaces the book; a symbol that is not in it is not being closed. -/
theorem MonitorState.at_reread (m : MonitorState) (details : List PositionDetail) (s : Symbol) :
    (PositionMonitor.MonitorState.reread m details).at s =
      { m.at s with
        held := (Dict.ofList (details.map fun d => (d.symbol, d.signedQuantity))).get? s
        closing := (m.at s).closing && decide (s ∈ details.map (·.symbol)) } := by
  simp [PositionMonitor.MonitorState.reread, MonitorState.at, Finset.mem_filter]

/-! ## One symbol's part of a poll -/

namespace MonitorParams

variable (p : MonitorParams)

def recorded (equity : ℚ) : ℚ := equity * p.stopLossEquityPct / 100

/-- The requests of `recordEntry`, and what it leaves in the view. -/
def arm (equity : ℚ) (stopId : Option StopId) (d : PositionDetail) (v : View) :
    List MonitorReq × View :=
  ([.accountEquity,
    .placeStopLoss d.symbol (d.side = .buy) d.entryPrice d.quantity (p.recorded equity)],
   { v with stop := some (p.recorded equity), native := stopId.or v.native })

/-- The peak after this snapshot. -/
def lifted (d : PositionDetail) (v : View) : ℚ := max (v.peak.getD (p.roi d)) (p.roi d)

/-- The exit reached at this snapshot. -/
def reached (d : PositionDetail) (v : View) : Option CloseReason :=
  p.trailing.exitReason d.unrealizedPnl (v.stop.getD 0) (p.roi d) (p.lifted d v)

/-- The requests of `judge`, and what it leaves in the view. -/
def weigh (price : Option ℚ) (d : PositionDetail) (v : View) : List MonitorReq × View :=
  match p.reached d v with
  | none => ([], { v with peak := some (p.lifted d v) })
  | some reason =>
    ([.closeEvent d.symbol reason,
      .submit (closeSignal "position-monitor" d.symbol d.signedQuantity) price],
     { v with peak := some (p.lifted d v), closing := true })

/-- A whole pass of the loop over one position. -/
def visit (known : Bool) (equity : ℚ) (stopId : Option StopId) (price : Option ℚ)
    (d : PositionDetail) (v : View) : List MonitorReq × View :=
  if v.closing then ([], v)
  else
    let armed := if known then ([], v) else p.arm equity stopId d v
    (armed.1 ++ (p.weigh price d armed.2).1, (p.weigh price d armed.2).2)

theorem weigh_view (price : Option ℚ) (d : PositionDetail) (v : View) :
    (p.weigh price d v).2 =
      { v with
        peak := some (p.lifted d v)
        closing := v.closing || (p.reached d v).isSome } := by
  rw [weigh]
  cases p.reached d v <;> simp

theorem visit_closing (known : Bool) (equity : ℚ) (stopId : Option StopId) (price : Option ℚ)
    (d : PositionDetail) (v : View) (closing : v.closing = true) :
    p.visit known equity stopId price d v = ([], v) := by simp [visit, closing]

theorem visit_known (equity : ℚ) (stopId : Option StopId) (price : Option ℚ) (d : PositionDetail)
    (v : View) (working : v.closing = false) :
    p.visit true equity stopId price d v = p.weigh price d v := by simp [visit, working]

theorem visit_fresh (equity : ℚ) (stopId : Option StopId) (price : Option ℚ) (d : PositionDetail)
    (v : View) (working : v.closing = false) :
    p.visit false equity stopId price d v =
      ((p.arm equity stopId d v).1 ++ (p.weigh price d (p.arm equity stopId d v).2).1,
       (p.weigh price d (p.arm equity stopId d v).2).2) := by simp [visit, working]

theorem visit_held (known : Bool) (equity : ℚ) (stopId : Option StopId) (price : Option ℚ)
    (d : PositionDetail) (v : View) : (p.visit known equity stopId price d v).2.held = v.held := by
  have kept : ∀ w, (p.weigh price d w).2.held = w.held := by
    intro w
    rw [weigh]
    split <;> rfl
  cases status : v.closing <;> cases known <;> simp [visit, status, kept, arm]

end MonitorParams

end Binbot
