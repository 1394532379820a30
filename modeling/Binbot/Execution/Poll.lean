import Binbot.Execution.MonitorInterface

/-!
# One poll, run to its end

The outside of one poll is a snapshot of what its calls return and, possibly,
the one call that raises. A part of a poll that touches a single symbol is
summarised by its requests and by the view it leaves of that symbol.
-/
namespace Binbot

open Async Data

/-- What the calls of one poll return. An account holds one position a symbol. -/
structure Snapshot where
  details : List PositionDetail
  /-- The readings of `get_account_equity`, in the order of the calls. -/
  equity : ℕ → ℚ
  stopId : Symbol → Option StopId
  latestPrice : Symbol → Option ℚ
  nodup : (details.map (·.symbol)).Nodup

/-- The await of a poll at which an exception is raised. -/
inductive Fault where
  | positionDetails
  | accountEquity (reading : ℕ)
  | placeStopLoss (symbol : Symbol)
  | cancelStopLoss (symbol : Symbol)
  | closeEvent (symbol : Symbol)
  | submit (symbol : Symbol)
  deriving DecidableEq

def Fault.hits (asked : List MonitorReq) : Fault → MonitorReq → Bool
  | .positionDetails, .positionDetails => true
  | .accountEquity reading, .accountEquity => reading = asked.count .accountEquity
  | .placeStopLoss s, .placeStopLoss symbol .. => symbol = s
  | .cancelStopLoss s, .cancelStopLoss symbol _ => symbol = s
  | .closeEvent s, .closeEvent symbol _ => symbol = s
  | .submit s, .submit signal _ => signal.symbol = s
  | _, _ => false

namespace Snapshot

def symbols (snap : Snapshot) : List Symbol := snap.details.map (·.symbol)

def answer (snap : Snapshot) (asked : List MonitorReq) : (q : MonitorReq) → MonitorReq.Reply q
  | .positionDetails => snap.details
  | .accountEquity => snap.equity (asked.count .accountEquity)
  | .placeStopLoss symbol .. => snap.stopId symbol
  | .cancelStopLoss .. => ()
  | .closeEvent .. => ()
  | .submit .. => ()

/-- Answer a request, given the requests the poll has made so far. -/
def reply (snap : Snapshot) (fault : Option Fault) (asked : List MonitorReq)
    (q : MonitorReq) : Answer monitorSig q × List MonitorReq :=
  (if fault.any (·.hits asked q) then .error "raised" else .ok (snap.answer asked q), asked ++ [q])

@[simp] theorem reply_none (snap : Snapshot) (asked : List MonitorReq) (q : MonitorReq) :
    snap.reply none asked q = (.ok (snap.answer asked q), asked ++ [q]) := rfl

end Snapshot

/-- A poll from memory `m`; its outside is the list of its requests. -/
def MonitorParams.poll (p : MonitorParams) (snap : Snapshot) (fault : Option Fault)
    (m : MonitorState) : Coro.Outcome (List MonitorReq) MonitorState Unit :=
  (p.monitor snap.latestPrice).checkOnce.exec (snap.reply fault) [] m

/-- A failure-free part of a poll that makes `effect.1` and, of what the monitor
knows, changes at most the view of `s`, to `effect.2`. -/
def Local (snap : Snapshot) (c : Coro MonitorState monitorSig Unit) (s : Symbol)
    (asked : List MonitorReq) (m : MonitorState) (effect : List MonitorReq × View) : Prop :=
  ∃ m', c.exec (snap.reply none) asked m = ⟨.ok (), asked ++ effect.1, m'⟩ ∧
    m'.at s = effect.2 ∧ ∀ t, t ≠ s → m'.at t = m.at t

namespace Local

variable {snap : Snapshot} {s : Symbol} {asked : List MonitorReq} {m : MonitorState}

theorem done : Local snap (pure ()) s asked m ([], m.at s) :=
  ⟨m, by simp, rfl, fun _ _ => rfl⟩

/-- One part after another. -/
theorem andThen {c : Coro MonitorState monitorSig Unit}
    {f : Unit → Coro MonitorState monitorSig Unit} {first : List MonitorReq × View} {g : View → List MonitorReq × View}
    (before : Local snap c s asked m first)
    (after : ∀ m', m'.at s = first.2 → Local snap (f ()) s (asked ++ first.1) m' (g first.2)) :
    Local snap (c >>= f) s asked m (first.1 ++ (g first.2).1, (g first.2).2) := by
  obtain ⟨m₁, ran, view, others⟩ := before
  obtain ⟨m₂, ran', view', others'⟩ := after m₁ view
  refine ⟨m₂, ?_, view', fun t distinct => (others' t distinct).trans (others t distinct)⟩
  rw [Coro.exec_bind, ran, Coro.Outcome.andThen_ok, ran', List.append_assoc]

end Local

/-- The requests that concern one symbol. -/
def about (s : Symbol) (asked : List MonitorReq) : List MonitorReq := asked.filter (·.About s)

@[simp] theorem about_nil (s : Symbol) : about s [] = [] := rfl

@[simp] theorem about_append (s : Symbol) (xs ys : List MonitorReq) :
    about s (xs ++ ys) = about s xs ++ about s ys := List.filter_append ..

/-- A loop over distinct symbols: each pass sees its own symbol as it was before
the loop, and `cost` counts the equity readings of the passes before it. -/
theorem forEach_local {ι : Type} (snap : Snapshot) (body : ι → Coro MonitorState monitorSig Unit)
    (key : ι → Symbol) (effect : ℕ → ι → View → List MonitorReq × View) (cost : ι → View → ℕ)
    (ready : ι → View → Prop)
    (pass : ∀ x asked m, ready x (m.at (key x)) →
      Local snap (body x) (key x) asked m (effect (asked.count .accountEquity) x (m.at (key x))))
    (costs : ∀ n x v, (effect n x v).1.count .accountEquity = cost x v)
    (own : ∀ n x v s, s ≠ key x → about s (effect n x v).1 = [])
    (items : List ι) (distinct : (items.map key).Nodup) (asked : List MonitorReq) (m : MonitorState)
    (allReady : ∀ x ∈ items, ready x (m.at (key x))) :
    ∃ asked' m', (Coro.forEach body items).exec (snap.reply none) asked m =
        ⟨.ok (), asked', m'⟩ ∧
      (∀ t, t ∉ items.map key → m'.at t = m.at t ∧ about t asked' = about t asked) ∧
      ∀ before x after, items = before ++ x :: after →
        let n := asked.count .accountEquity + (before.map fun y => cost y (m.at (key y))).sum
        m'.at (key x) = (effect n x (m.at (key x))).2 ∧
          about (key x) asked' =
            about (key x) asked ++ about (key x) (effect n x (m.at (key x))).1 := by
  induction items generalizing asked m with
  | nil =>
    exact ⟨asked, m, by simp, fun _ _ => ⟨rfl, rfl⟩, fun before x after split => by simp at split⟩
  | cons x xs ih =>
    simp only [List.map_cons, List.nodup_cons] at distinct
    obtain ⟨m₁, ran, view, others⟩ := pass x asked m (allReady x (by simp))
    -- the later items have other symbols, which this pass leaves as they were
    have untouched : ∀ y ∈ xs, m₁.at (key y) = m.at (key y) := fun y member =>
      others _ fun same => distinct.1 (same ▸ List.mem_map_of_mem member)
    obtain ⟨asked', m', rest, apart, passes⟩ := ih distinct.2
      (asked ++ (effect (asked.count .accountEquity) x (m.at (key x))).1) m₁
      fun y member => untouched y member ▸ allReady y (by simp [member])
    refine ⟨asked', m', ?_, fun t absent => ?_, fun before y after split => ?_⟩
    · rw [Coro.exec_forEach_cons, ran, Coro.Outcome.andThen_ok, rest]
    · simp only [List.map_cons, List.mem_cons, not_or] at absent
      obtain ⟨same, quiet⟩ := apart t absent.2
      refine ⟨same.trans (others t absent.1), ?_⟩
      rw [quiet, about_append, own _ _ _ _ absent.1, List.append_nil]
    · cases before with
      | nil =>
        simp only [List.nil_append, List.cons.injEq] at split
        obtain ⟨rfl, rfl⟩ := split
        obtain ⟨same, quiet⟩ := apart (key x) distinct.1
        simp only [List.map_nil, List.sum_nil, Nat.add_zero]
        exact ⟨same.trans view, by rw [quiet, about_append]⟩
      | cons z before =>
        simp only [List.cons_append, List.cons.injEq] at split
        obtain ⟨rfl, rfl⟩ := split
        -- the readings of this pass count before those of the later ones
        have here := passes before y after rfl
        have far : key y ≠ key x := fun same =>
          distinct.1 (same ▸ List.mem_map_of_mem (by simp))
        have counted : (before.map fun z => cost z (m₁.at (key z))) =
            before.map fun z => cost z (m.at (key z)) :=
          List.map_congr_left fun z member => by rw [untouched z (by simp [member])]
        simp only [List.count_append, costs, counted, untouched y (by simp), about_append,
          own _ _ _ _ far, List.append_nil] at here
        simpa only [List.map_cons, List.sum_cons, Nat.add_assoc] using here

namespace MonitorParams

variable (p : MonitorParams) (snap : Snapshot) (asked : List MonitorReq) (m : MonitorState)

theorem armNativeStop_local (d : PositionDetail) (maxLossUsdt : ℚ) :
    Local snap ((p.monitor snap.latestPrice).armNativeStop d maxLossUsdt) d.symbol asked m
      ([.placeStopLoss d.symbol (d.side = .buy) d.entryPrice d.quantity maxLossUsdt],
       { m.at d.symbol with native := (snap.stopId d.symbol).or (m.at d.symbol).native }) := by
  cases armed : snap.stopId d.symbol with
  | none =>
    refine ⟨m, ?_, rfl, fun _ _ => rfl⟩
    simp [PositionMonitor.armNativeStop, Snapshot.answer, armed]
  | some id =>
    refine ⟨{ m with nativeStopOrderId := m.nativeStopOrderId.set d.symbol id }, ?_, ?_,
      fun t distinct => ?_⟩
    · simp [PositionMonitor.armNativeStop, Snapshot.answer, armed]
    · simp [MonitorState.at]
    · simp [MonitorState.at, Dict.get?_set_ne _ _ distinct]

theorem recordEntry_local (d : PositionDetail) :
    Local snap ((p.monitor snap.latestPrice).recordEntry d) d.symbol asked m
      (p.arm (snap.equity (asked.count .accountEquity)) (snap.stopId d.symbol) d
        (m.at d.symbol)) := by
  let stop := p.recorded (snap.equity (asked.count .accountEquity))
  -- the stop-loss is recorded before the call that may raise
  let frozen := { m with positionStopLossUsdt := m.positionStopLossUsdt.set d.symbol stop }
  have others : ∀ t, t ≠ d.symbol → frozen.at t = m.at t := by
    intro t distinct
    simp [frozen, MonitorState.at, Dict.get?_set_ne _ _ distinct]
  obtain ⟨m', ran, view, rest⟩ :=
    p.armNativeStop_local snap (asked ++ [.accountEquity]) frozen d stop
  refine ⟨m', ?_, ?_, fun t distinct => (rest t distinct).trans (others t distinct)⟩
  · simpa [PositionMonitor.recordEntry, Snapshot.answer, arm, recorded, stop, frozen] using ran
  · rw [view]
    simp [frozen, stop, MonitorState.at, arm]

theorem closePosition_local (s : Symbol) (qty : ℤ) (reason : CloseReason) :
    Local snap ((p.monitor snap.latestPrice).closePosition s qty reason) s asked m
      ([.closeEvent s reason,
        .submit (closeSignal "position-monitor" s qty) (snap.latestPrice s)],
       { m.at s with closing := true }) := by
  refine ⟨{ m with closing := insert s m.closing }, ?_, ?_, fun t distinct => ?_⟩
  · simp [PositionMonitor.closePosition]
  · simp [MonitorState.at]
  · simp [MonitorState.at, distinct]

theorem judge_local (d : PositionDetail)
    (held : (m.at d.symbol).held = some d.signedQuantity) :
    Local snap ((p.monitor snap.latestPrice).judge d) d.symbol asked m
      (p.weigh (snap.latestPrice d.symbol) d (m.at d.symbol)) := by
  let ratcheted :=
    { m with peakRoiPct := m.peakRoiPct.set d.symbol (p.lifted d (m.at d.symbol)) }
  have others : ∀ t, t ≠ d.symbol → ratcheted.at t = m.at t := by
    intro t distinct
    simp [ratcheted, MonitorState.at, Dict.get?_set_ne _ _ distinct]
  have peaked : ratcheted.at d.symbol =
      { m.at d.symbol with peak := some (p.lifted d (m.at d.symbol)) } := by
    simp [ratcheted, MonitorState.at]
  have found : m.positions.get? d.symbol = some d.signedQuantity := held
  have reached : p.trailing.exitReason d.unrealizedPnl (m.positionStopLossUsdt.getD d.symbol 0)
      (PositionMonitor.roiPct p.leverage (p.stepSize d.symbol) d)
      (max (m.peakRoiPct.getD d.symbol (PositionMonitor.roiPct p.leverage (p.stepSize d.symbol) d))
        (PositionMonitor.roiPct p.leverage (p.stepSize d.symbol) d)) =
      p.reached d (m.at d.symbol) := rfl
  rw [weigh]
  cases verdict : p.reached d (m.at d.symbol) with
  | none =>
    -- no exit condition holds: the peak is all that changes
    refine ⟨ratcheted, ?_, peaked, others⟩
    simp only [PositionMonitor.judge, Coro.exec_bind, Coro.exec_view, Coro.Outcome.andThen_ok,
      monitor_stepSizeLookup, Coro.exec_pure, Coro.exec_update, Part.whole_view, Part.whole_set,
      monitor_leverage, monitor_trailing, reached, verdict, List.append_nil]
    rfl
  | some reason =>
    obtain ⟨m', closed, view, rest⟩ := p.closePosition_local snap asked ratcheted d.symbol
      d.signedQuantity reason
    refine ⟨m', ?_, ?_, fun t distinct => (rest t distinct).trans (others t distinct)⟩
    · simp only [PositionMonitor.judge, Coro.exec_bind, Coro.exec_view, Coro.Outcome.andThen_ok,
        monitor_stepSizeLookup, Coro.exec_pure, Coro.exec_update, Part.whole_view, Part.whole_set,
        monitor_leverage, monitor_trailing, reached, verdict, found]
      exact closed
    · rw [view, peaked]

theorem checkDetail_local (previous : List Symbol) (d : PositionDetail)
    (held : (m.at d.symbol).held = some d.signedQuantity) :
    Local snap ((p.monitor snap.latestPrice).checkDetail previous d) d.symbol asked m
      (p.visit (d.symbol ∈ previous) (snap.equity (asked.count .accountEquity))
        (snap.stopId d.symbol) (snap.latestPrice d.symbol) d (m.at d.symbol)) := by
  have ran : ((p.monitor snap.latestPrice).checkDetail previous d).exec (snap.reply none) asked m =
      Coro.exec (snap.reply none)
        (if d.symbol ∈ m.closing then pure ()
          else do
            if d.symbol ∈ previous then pure () else (p.monitor snap.latestPrice).recordEntry d
            (p.monitor snap.latestPrice).judge d) asked m := by
    simp only [PositionMonitor.checkDetail, Coro.exec_bind, Coro.exec_view,
      Coro.Outcome.andThen_ok, Part.whole_view]
  have closing_iff : (m.at d.symbol).closing = true ↔ d.symbol ∈ m.closing := by
    simp [MonitorState.at]
  rw [visit]
  split
  next closing =>
    rw [if_pos (closing_iff.mp closing)] at ran
    exact ⟨m, by simpa using ran, rfl, fun _ _ => rfl⟩
  next working =>
    rw [if_neg fun closing => working (closing_iff.mpr closing)] at ran
    by_cases known : d.symbol ∈ previous
    · simp only [known, if_true, decide_true] at ran ⊢
      obtain ⟨m', judged, view, rest⟩ := p.judge_local snap asked m d held
      exact ⟨m', ran.trans (by simpa using judged), view, rest⟩
    · simp only [known, if_false, decide_false, Bool.false_eq_true] at ran ⊢
      obtain ⟨m', whole, view, rest⟩ :=
        (p.recordEntry_local snap asked m d).andThen
          (f := fun _ => (p.monitor snap.latestPrice).judge d)
          (g := p.weigh (snap.latestPrice d.symbol) d) fun m' view => by
            have kept : (m'.at d.symbol).held = some d.signedQuantity := view ▸ held
            exact view ▸ p.judge_local snap _ m' d kept
      exact ⟨m', ran.trans whole, view, rest⟩

theorem forget_local (s : Symbol) :
    Local snap ((p.monitor snap.latestPrice).forget s) s asked m
      (((m.at s).native.map (MonitorReq.cancelStopLoss s)).toList, (m.at s).forgotten) := by
  refine ⟨{ m with
    nativeStopOrderId := m.nativeStopOrderId.erase s
    peakRoiPct := m.peakRoiPct.erase s
    positionStopLossUsdt := m.positionStopLossUsdt.erase s }, ?_, ?_, fun t distinct => ?_⟩
  · cases armed : m.nativeStopOrderId.get? s <;>
      simp [PositionMonitor.forget, PositionMonitor.disarmNativeStop, MonitorState.at, armed]
  · simp [MonitorState.at, View.forgotten]
  · simp [MonitorState.at, Dict.get?_erase_ne _ distinct]

/-- The readings of the equity a visit makes. -/
theorem visit_readings (known : Bool) (equity : ℚ) (stopId : Option StopId) (price : Option ℚ)
    (d : PositionDetail) (v : View) :
    (p.visit known equity stopId price d v).1.count .accountEquity =
      if v.closing || known then 0 else 1 := by
  have silent : ∀ w, (p.weigh price d w).1.count .accountEquity = 0 := by
    intro w
    rw [weigh]
    split <;> simp
  cases status : v.closing <;> cases known <;> simp [visit, status, silent, arm]

theorem visit_own (known : Bool) (equity : ℚ) (stopId : Option StopId) (price : Option ℚ)
    (d : PositionDetail) (v : View) (s : Symbol) (other : s ≠ d.symbol) :
    about s (p.visit known equity stopId price d v).1 = [] := by
  have silent : ∀ w, about s (p.weigh price d w).1 = [] := by
    intro w
    rw [weigh]
    split <;> simp [about, MonitorReq.About, closeSignal, Ne.symm other]
  have armed : ∀ w, about s (p.arm equity stopId d w).1 = [] := by
    intro w
    simp [about, arm, MonitorReq.About, Ne.symm other]
  cases status : v.closing <;> cases known <;> simp [visit, status, silent, armed]

private theorem book_keys (snap : Snapshot) :
    (snap.details.map fun d => (d.symbol, d.signedQuantity)).map Prod.fst = snap.symbols := by
  simp [Snapshot.symbols, Function.comp_def]

theorem at_reread_of_mem (d : PositionDetail) (member : d ∈ snap.details) :
    (PositionMonitor.MonitorState.reread m snap.details).at d.symbol =
      (m.at d.symbol).holding d.signedQuantity := by
  have found : (Dict.ofList (snap.details.map fun d => (d.symbol, d.signedQuantity))).get? d.symbol
      = some d.signedQuantity :=
    (Dict.get?_ofList_eq_some _ (book_keys snap ▸ snap.nodup) _ _).mpr
      (List.mem_map_of_mem (f := fun d => (d.symbol, d.signedQuantity)) member)
  have listed : d.symbol ∈ snap.details.map (·.symbol) := List.mem_map_of_mem member
  rw [MonitorState.at_reread, found]
  simp only [listed, decide_true, Bool.and_true, View.holding]

theorem at_reread_of_not_mem (s : Symbol) (absent : s ∉ snap.symbols) :
    (PositionMonitor.MonitorState.reread m snap.details).at s =
      { m.at s with held := none, closing := false } := by
  have missing : (Dict.ofList (snap.details.map fun d => (d.symbol, d.signedQuantity))).get? s
      = none := (Dict.get?_eq_none_iff _ s).mpr (by rwa [Dict.mem_keys_ofList, book_keys])
  have unlisted : s ∉ snap.details.map (·.symbol) := absent
  rw [MonitorState.at_reread, missing]
  simp only [unlisted, decide_false, Bool.and_false]

private theorem sum_eq_countP {α : Type} (xs : List α) (f : α → ℕ) (p : α → Bool)
    (each : ∀ x ∈ xs, f x = if p x then 1 else 0) : (xs.map f).sum = xs.countP p := by
  induction xs with
  | nil => rfl
  | cons x xs ih =>
    rw [List.map_cons, List.sum_cons, List.countP_cons, each x (by simp),
      ih fun y member => each y (by simp [member]), Nat.add_comm]

/-- A symbol that is being closed is held, so only a symbol newly seen costs a reading. -/
private theorem readings_of_view (v : View) (consistent : v.closing → v.held.isSome) :
    (if v.closing || v.held.isSome then 0 else 1) = if v.held.isNone then 1 else 0 := by
  cases held : v.held with
  | some qty => simp
  | none =>
    cases status : v.closing with
    | false => rfl
    | true => simp [held, status] at consistent

private theorem mem_keys_eq (s : Symbol) :
    decide (s ∈ m.positions.keys) = (m.at s).held.isSome := by
  rw [Bool.eq_iff_iff, decide_eq_true_iff]
  exact (m.positions.get?_isSome_iff s).symm

/-- The passes over the snapshot, from the book that has just been read. -/
private theorem visits_exec (consistent : ∀ s, (m.at s).closing → (m.at s).held.isSome) :
    ∃ asked' m', (Coro.forEach ((p.monitor snap.latestPrice).checkDetail m.positions.keys)
        snap.details).exec (snap.reply none) [.positionDetails]
          (PositionMonitor.MonitorState.reread m snap.details) = ⟨.ok (), asked', m'⟩ ∧
      (∀ s, s ∉ snap.symbols →
        m'.at s = { m.at s with held := none, closing := false } ∧ about s asked' = []) ∧
      ∀ before d after, snap.details = before ++ d :: after →
        let n := before.countP fun y => (m.at y.symbol).held.isNone
        let effect := p.visit (m.at d.symbol).held.isSome (snap.equity n) (snap.stopId d.symbol)
          (snap.latestPrice d.symbol) d ((m.at d.symbol).holding d.signedQuantity)
        m'.at d.symbol = effect.2 ∧ about d.symbol asked' = about d.symbol effect.1 := by
  let reread := PositionMonitor.MonitorState.reread m snap.details
  obtain ⟨asked', m', ran, apart, passes⟩ := forEach_local snap
    ((p.monitor snap.latestPrice).checkDetail m.positions.keys) (·.symbol)
    (fun n d v => p.visit (d.symbol ∈ m.positions.keys) (snap.equity n) (snap.stopId d.symbol)
      (snap.latestPrice d.symbol) d v)
    (fun d v => if v.closing || d.symbol ∈ m.positions.keys then 0 else 1)
    (fun d v => v.held = some d.signedQuantity)
    (fun d asked m held => p.checkDetail_local snap asked m _ d held)
    (fun n d v => p.visit_readings _ _ _ _ d v) (fun n d v s => p.visit_own _ _ _ _ d v s)
    snap.details snap.nodup [.positionDetails] reread
    (fun d member => by rw [at_reread_of_mem snap m d member]; rfl)
  refine ⟨asked', m', ran, fun s absent => ?_, fun before d after cut => ?_⟩
  · obtain ⟨same, quiet⟩ := apart s absent
    exact ⟨same.trans (at_reread_of_not_mem snap m s absent), quiet⟩
  · have member : d ∈ snap.details := by rw [cut]; simp
    obtain ⟨view, asked⟩ := passes before d after cut
    -- every symbol that was newly seen before `d` has cost one reading
    have counted : (before.map fun y =>
        if (reread.at y.symbol).closing || decide (y.symbol ∈ m.positions.keys)
          then 0 else 1).sum = before.countP fun y => (m.at y.symbol).held.isNone := by
      refine sum_eq_countP before _ _ fun y earlier => ?_
      have listed : y ∈ snap.details := by rw [cut]; simp [earlier]
      rw [at_reread_of_mem snap m y listed, mem_keys_eq]
      exact readings_of_view (m.at y.symbol) (consistent y.symbol)
    rw [counted] at view asked
    simp only [mem_keys_eq, reread, at_reread_of_mem snap m d member] at view asked
    refine ⟨view.trans ?_, asked.trans ?_⟩
    · simp
    · simp [about, MonitorReq.About]

/-- The symbols that left are forgotten, each for itself. -/
private theorem forgets_exec (gone : List Symbol) (distinct : gone.Nodup) :
    ∃ asked' m', (Coro.forEach (p.monitor snap.latestPrice).forget gone).exec (snap.reply none)
        asked m = ⟨.ok (), asked', m'⟩ ∧
      (∀ s, s ∉ gone → m'.at s = m.at s ∧ about s asked' = about s asked) ∧
      ∀ s ∈ gone, m'.at s = (m.at s).forgotten ∧ about s asked' =
        about s asked ++ ((m.at s).native.map (MonitorReq.cancelStopLoss s)).toList := by
  obtain ⟨asked', m', ran, apart, passes⟩ := forEach_local snap
    (p.monitor snap.latestPrice).forget id
    (fun _ s v => ((v.native.map (MonitorReq.cancelStopLoss s)).toList, v.forgotten))
    (fun _ _ => 0) (fun _ _ => True)
    (fun s asked m _ => p.forget_local snap asked m s)
    (fun _ s v => by cases v.native <;> simp)
    (fun _ s v t other => by
      cases v.native <;> simp [about, MonitorReq.About, show s ≠ t from Ne.symm other])
    gone (by simpa using distinct) asked m (fun _ _ => trivial)
  refine ⟨asked', m', ran, fun s stays => apart s (by simpa using stays), fun s left => ?_⟩
  obtain ⟨past, future, cut⟩ := List.append_of_mem left
  obtain ⟨view, requests⟩ := passes past s future cut
  refine ⟨view, requests.trans ?_⟩
  dsimp only [id]
  cases (m.at s).native <;> simp [about, MonitorReq.About]

/-- A failure-free poll, symbol by symbol. -/
theorem poll_views (consistent : ∀ s, (m.at s).closing → (m.at s).held.isSome) :
    (p.poll snap none m).result = .ok () ∧
    (∀ before d after, snap.details = before ++ d :: after →
      let n := before.countP fun y => (m.at y.symbol).held.isNone
      let effect := p.visit (m.at d.symbol).held.isSome (snap.equity n) (snap.stopId d.symbol)
        (snap.latestPrice d.symbol) d ((m.at d.symbol).holding d.signedQuantity)
      (p.poll snap none m).memory.at d.symbol = effect.2 ∧
        about d.symbol (p.poll snap none m).outside = about d.symbol effect.1) ∧
    ∀ s, s ∉ snap.symbols →
      let gone := { m.at s with held := none, closing := false }
      (p.poll snap none m).memory.at s =
          (if (m.at s).held.isSome then gone.forgotten else gone) ∧
        about s (p.poll snap none m).outside =
          if (m.at s).held.isSome then ((m.at s).native.map (MonitorReq.cancelStopLoss s)).toList
          else [] := by
  let gone := m.positions.keys.filter fun s => s ∉ snap.symbols
  obtain ⟨asked₁, m₁, ran₁, apart₁, passes₁⟩ := p.visits_exec snap m consistent
  obtain ⟨asked₂, m₂, ran₂, apart₂, passes₂⟩ :=
    p.forgets_exec snap asked₁ m₁ gone (m.positions.keys_nodup.filter _)
  have ran : p.poll snap none m = ⟨.ok (), asked₂, m₂⟩ := by
    simp only [poll, PositionMonitor.checkOnce, monitor_getPositionDetails, Coro.exec_bind,
      Coro.exec_request, Snapshot.reply_none, Coro.Outcome.andThen_ok, Coro.exec_view,
      Coro.exec_update, Part.whole_view, Part.whole_set, List.nil_append]
    change (Coro.exec _ (Coro.forEach _ snap.details) _
      (PositionMonitor.MonitorState.reread m snap.details)).andThen _ = _
    rw [ran₁]
    exact ran₂
  rw [ran]
  refine ⟨rfl, fun before d after cut => ?_, fun s absent => ?_⟩
  · -- a listed symbol is visited, and not forgotten afterwards
    have stays : d.symbol ∉ gone := by
      intro left
      have absent : d.symbol ∉ snap.symbols := by simpa using (List.mem_filter.mp left).2
      exact absent (List.mem_map_of_mem (by rw [cut]; simp))
    obtain ⟨same₂, quiet₂⟩ := apart₂ d.symbol stays
    obtain ⟨view, asked⟩ := passes₁ before d after cut
    exact ⟨same₂.trans view, quiet₂.trans asked⟩
  · obtain ⟨before, quiet₁⟩ := apart₁ s absent
    cases held : (m.at s).held.isSome with
    | true =>
      have left : s ∈ gone := by
        rw [← mem_keys_eq, decide_eq_true_iff] at held
        exact List.mem_filter.mpr ⟨held, by simpa using absent⟩
      obtain ⟨view, asked⟩ := passes₂ s left
      rw [before] at view asked
      refine ⟨view, ?_⟩
      rw [asked, quiet₁]
      rfl
    | false =>
      have stayed : s ∉ gone := by
        rw [← mem_keys_eq, decide_eq_false_iff_not] at held
        exact fun member => held (List.mem_filter.mp member).1
      obtain ⟨same₂, quiet₂⟩ := apart₂ s stayed
      exact ⟨same₂.trans before, quiet₂.trans quiet₁⟩

/-! ## Polls with a fault -/

/-- The monitor catches nothing inside a poll. -/
theorem checkOnce_uncaught (latestPrice : Symbol → Option ℚ) :
    (p.monitor latestPrice).checkOnce.Uncaught := by
  have close : ∀ s qty reason, ((p.monitor latestPrice).closePosition s qty reason).Uncaught := by
    intro s qty reason
    exact (Coro.uncaught_update _).bind fun _ => (Coro.uncaught_request _).bind fun _ =>
      (Coro.uncaught_pure _).bind fun _ => Coro.uncaught_request _
  have arm : ∀ d loss, ((p.monitor latestPrice).armNativeStop d loss).Uncaught := by
    intro d loss
    refine (Coro.uncaught_request _).bind fun id => ?_
    cases id with
    | none => exact Coro.uncaught_pure _
    | some id => exact Coro.uncaught_update _
  have entry : ∀ d, ((p.monitor latestPrice).recordEntry d).Uncaught := fun d =>
    (Coro.uncaught_request _).bind fun _ => (Coro.uncaught_update _).bind fun _ => arm d _
  have judge : ∀ d, ((p.monitor latestPrice).judge d).Uncaught := by
    intro d
    refine Coro.uncaught_view.bind fun m => (Coro.uncaught_pure _).bind fun step =>
      (Coro.uncaught_update _).bind fun _ => ?_
    split
    · exact Coro.uncaught_pure _
    · split
      · exact close _ _ _
      · exact Coro.uncaught_throw _
  have check : ∀ known d, ((p.monitor latestPrice).checkDetail known d).Uncaught := by
    intro known d
    refine Coro.uncaught_view.bind fun m => ?_
    split
    · exact Coro.uncaught_pure _
    · split
      · exact judge d
      · exact (entry d).bind fun _ => judge d
  have forget : ∀ s, ((p.monitor latestPrice).forget s).Uncaught := by
    intro s
    refine Coro.Uncaught.bind (Coro.uncaught_view.bind fun m =>
      (Coro.uncaught_update _).bind fun _ => ?_) fun _ => Coro.uncaught_update _
    split
    · exact Coro.uncaught_request _
    · exact Coro.uncaught_pure _
  exact (Coro.uncaught_request _).bind fun details => Coro.uncaught_view.bind fun m =>
    (Coro.uncaught_update _).bind fun _ => (Coro.uncaught_forEach (check _) _).bind fun _ =>
      Coro.uncaught_forEach forget _

/-- A poll that does not raise is a failure-free poll. -/
theorem poll_of_ok (fault : Option Fault) (returned : (p.poll snap fault m).result = .ok ()) :
    p.poll snap fault m = p.poll snap none m := by
  refine ((p.checkOnce_uncaught snap.latestPrice).exec_eq (fun asked q a answered => ?_)
    returned).symm
  simp only [Snapshot.reply] at answered ⊢
  split at answered
  · cases answered
  next quiet => rw [if_neg quiet]; rfl

end MonitorParams

end Binbot
