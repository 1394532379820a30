import Binbot.Execution.Poll
import Binbot.Execution.StopDesk
import Binbot.Machine.Run

/-!
# Native stops and the map of their ids

The monitor reaches a stop through `_native_stop_order_id` only. A stop is not orphaned as
long as the map names it and the book holds its symbol; both are lost when the process
starts again, when a cancel fails, when a response to a placement is lost and when a poll
raises that was still to disarm it.
-/
namespace Binbot

open Async Data

namespace StopDesk

/-- The stops on the book. -/
abbrev stopsOf (w : StopOutside × ℕ) : List PlacedStop := w.1.account.stops

/-- Any later poll that returns and does not list the symbol asks for the cancel. -/
def WillCancel (p : MonitorParams) (m : MonitorState) (symbol : Symbol) (id : StopId) : Prop :=
  ∀ snap fault, symbol ∉ snap.symbols → (p.poll snap fault m).result = .ok () →
    .cancelStopLoss symbol id ∈ (p.poll snap fault m).outside

/-- No native stop is orphaned. -/
structure NoOrphan (p : MonitorParams) (d : StopDesk) : Prop where
  cancelled : ∀ stop ∈ d.outside.account.stops,
    d.outside.account.positions.get? stop.symbol = none →
      WillCancel p d.memory stop.symbol stop.orderId
  single : ∀ stop ∈ d.outside.account.stops, ∀ other ∈ d.outside.account.stops,
    stop.symbol = other.symbol → stop.orderId = other.orderId

/-! ## The condition on a run -/

section

variable (p : MonitorParams) (rules : ExchangeRules)

/-- A stop that is placed is confirmed, and a cancel clears its stop. -/
def Confirmed (service : StopService) (stops : List PlacedStop) : MonitorReq → Prop
  | .placeStopLoss .. => service.acts = true → service.raises = none
  | .cancelStopLoss symbol id => ∀ stop ∈ stops, ¬ (stop.symbol = symbol ∧ stop.orderId = id)
  | _ => True

instance (service : StopService) (stops : List PlacedStop) :
    (q : MonitorReq) → Decidable (Confirmed service stops q)
  | .placeStopLoss .. => inferInstanceAs (Decidable (_ → _))
  | .cancelStopLoss _ _ => inferInstanceAs (Decidable (∀ _ ∈ _, _))
  | .positionDetails => .isTrue trivial
  | .accountEquity => .isTrue trivial
  | .closeEvent _ _ => .isTrue trivial
  | .submit _ _ => .isTrue trivial

/-- The poll raises only while the book that it has read holds the symbol of every stop. -/
def Watched {α : Type} (m : MonitorState) (stops : List PlacedStop) : Except String α → Prop
  | .ok _ => True
  | .error _ => ∀ stop ∈ stops, stop.symbol ∈ m.positions.keys

instance {α : Type} (m : MonitorState) (stops : List PlacedStop) :
    (r : Except String α) → Decidable (Watched m stops r)
  | .ok _ => .isTrue trivial
  | .error _ => inferInstanceAs (Decidable (∀ _ ∈ _, _))

/-- No stop is lost at a suspension. -/
def Sound (turns : StopTurns) (w : StopOutside × ℕ) (m : MonitorState) (q : MonitorReq) : Prop :=
  let served := serveAmong rules turns w m q
  Confirmed (turns.turn w.2 q).service (stopsOf served.2.1) q ∧
    Watched m (stopsOf served.2.1) served.1

instance (turns : StopTurns) (w : StopOutside × ℕ) (m : MonitorState) (q : MonitorReq) :
    Decidable (Sound rules turns w m q) := inferInstanceAs (Decidable (_ ∧ _))

/-- No step of the run loses a stop. -/
def LosesNoStop (d : StopDesk) : Act → Prop
  | .poll turns => (p.monitor turns.latestPrice).checkOnce.RunMeets (serveAmong rules turns)
      (Sound rules turns) (d.outside, 0) d.memory
  | .die turns => (d.polled p rules turns).outside.1.account.stops = []
  | .restart => d.outside.account.stops = []
  | .move _ => True

instance (d : StopDesk) : (a : Act) → Decidable (LosesNoStop p rules d a)
  | .poll _ => Coro.decideRunMeets _ (fun _ _ _ => inferInstance) _ _ _
  | .die _ => inferInstanceAs (Decidable (_ = _))
  | .restart => inferInstanceAs (Decidable (_ = _))
  | .move _ => .isTrue trivial

end

/-! ## Inside a poll -/

/-- On this book of positions each stop is filed under its symbol, which the book holds unless
it is still to be forgotten, and none is of a symbol that is still to be recorded. -/
structure Filed (book : Dict Symbol ℤ) (gone todo previous : List Symbol)
    (w : StopOutside × ℕ) (m : MonitorState) : Prop where
  positions : m.positions = book
  filed : ∀ stop ∈ stopsOf w, m.nativeStopOrderId.get? stop.symbol = some stop.orderId
  frozen : ∀ stop ∈ stopsOf w, m.positionStopLossUsdt.get? stop.symbol = some stop.maxLossUsdt
  watched : ∀ stop ∈ stopsOf w, stop.symbol ∈ book.keys ∨ stop.symbol ∈ gone
  seen : ∀ stop ∈ stopsOf w, stop.symbol ∈ todo → stop.symbol ∈ previous
  closing : ∀ symbol ∈ m.closing, symbol ∈ book.keys

/-- Between two polls. -/
abbrev AllFiled (w : StopOutside × ℕ) (m : MonitorState) : Prop := Filed m.positions [] [] [] w m

/-- What may have been added to the book by a request. -/
def Added (q : MonitorReq) (r : Answer monitorSig q) (stop : PlacedStop) : Prop :=
  match q, r with
  | .placeStopLoss symbol _ _ _ maxLossUsdt, .ok (some id) =>
    stop.symbol = symbol ∧ stop.orderId = id ∧ stop.maxLossUsdt = maxLossUsdt
  | _, _ => False

/-- A stop is asked for with the amount that is frozen for its symbol. -/
def AsksFrozen (m : MonitorState) : MonitorReq → Prop
  | .placeStopLoss symbol _ _ _ maxLossUsdt =>
    m.positionStopLossUsdt.get? symbol = some maxLossUsdt
  | _ => True

/-- Whenever the poll suspends, the amount of every stop is the one frozen for its symbol. -/
def contract : Contract (StopOutside × ℕ) MonitorState monitorSig where
  issue q w m := AsksFrozen m q ∧ ∀ stop ∈ stopsOf w,
    m.positionStopLossUsdt.get? stop.symbol = some stop.maxLossUsdt
  rely q r w m w' m' := m' = m ∧
    (∀ stop ∈ stopsOf w', stop ∈ stopsOf w ∨ Added q r stop) ∧
    (match q, r with
      | .positionDetails, .ok details => (details.map (·.symbol)).Nodup
      | .cancelStopLoss symbol id, _ => ∀ stop ∈ stopsOf w',
        ¬ (stop.symbol = symbol ∧ stop.orderId = id)
      | _, _ => True) ∧
    ∀ e, r = .error e → ∀ stop ∈ stopsOf w', stop.symbol ∈ m.positions.keys
  guar _ _ := True

section Programs

variable {book : Dict Symbol ℤ} {gone todo previous : List Symbol} {w w' : StopOutside × ℕ}
  {m : MonitorState} {α β : Type}

/-- Fewer stops are filed as well. -/
theorem Filed.fewer (held : Filed book gone todo previous w m)
    (fewer : ∀ stop ∈ stopsOf w', stop ∈ stopsOf w) : Filed book gone todo previous w' m where
  positions := held.positions
  filed stop member := held.filed stop (fewer stop member)
  frozen stop member := held.frozen stop (fewer stop member)
  watched stop member := held.watched stop (fewer stop member)
  seen stop member := held.seen stop (fewer stop member)
  closing := held.closing

/-- A poll that raises leaves every stop filed that the book watches. -/
theorem Filed.raised (held : Filed book gone todo previous w m)
    (fewer : ∀ stop ∈ stopsOf w', stop ∈ stopsOf w)
    (watched : ∀ stop ∈ stopsOf w', stop.symbol ∈ m.positions.keys) : AllFiled w' m where
  positions := rfl
  filed stop member := held.filed stop (fewer stop member)
  frozen stop member := held.frozen stop (fewer stop member)
  watched stop member := .inl (watched stop member)
  seen _ _ pending := absurd pending List.not_mem_nil
  closing := by
    rw [held.positions]
    exact held.closing

/-- The end of a part of a poll. -/
def Ends (book : Dict Symbol ℤ) (gone todo previous : List Symbol) (r : Except String α)
    (w : StopOutside × ℕ) (m : MonitorState) : Prop :=
  match r with
  | .ok _ => Filed book gone todo previous w m
  | .error _ => AllFiled w m

/-- A part of a poll that files what it places and forgets nothing. -/
def Files (book : Dict Symbol ℤ) (gone todo previous : List Symbol)
    (c : Coro MonitorState monitorSig α) : Prop :=
  ∀ w m, Filed book gone todo previous w m →
    c.Obeys contract (Ends book gone todo previous) w m

theorem Files.bind {c : Coro MonitorState monitorSig β} {f : β → Coro MonitorState monitorSig α}
    (first : Files book gone todo previous c) (second : ∀ b, Files book gone todo previous (f b)) :
    Files book gone todo previous (c >>= f) := by
  intro w m held
  apply (first w m held).bind
  · exact fun b w' m' ended => second b w' m' ended
  · exact fun _ _ _ ended => ended

theorem files_pure (a : α) :
    Files book gone todo previous (pure a : Coro MonitorState monitorSig α) := fun _ _ held => held

/-- A request that places no stop. -/
theorem files_request {q : MonitorReq}
    (plain : ∀ symbol isLong entryPrice quantityLots maxLossUsdt,
      q ≠ .placeStopLoss symbol isLong entryPrice quantityLots maxLossUsdt) :
    Files book gone todo previous
      (Coro.request (S := monitorSig) q : Coro MonitorState monitorSig (monitorSig.Reply q)) := by
  intro w m held
  rw [Coro.obeys_request]
  have asks : AsksFrozen m q := by
    cases q with
    | placeStopLoss symbol isLong entryPrice quantityLots maxLossUsdt =>
      exact absurd rfl (plain symbol isLong entryPrice quantityLots maxLossUsdt)
    | _ => trivial
  refine ⟨⟨asks, held.frozen⟩, ?_⟩
  rintro r w' m' ⟨rfl, added, -, raised⟩
  have fewer : ∀ stop ∈ stopsOf w', stop ∈ stopsOf w := by
    intro stop member
    rcases added stop member with old | new
    · exact old
    · cases q with
      | placeStopLoss symbol isLong entryPrice quantityLots maxLossUsdt =>
        exact absurd rfl (plain symbol isLong entryPrice quantityLots maxLossUsdt)
      | _ => exact new.elim
  cases r with
  | ok value => exact held.fewer fewer
  | error e => exact held.raised fewer (raised e rfl)

variable (p : MonitorParams) (latestPrice : Symbol → Option ℚ)

/-- What is closed is in the book. -/
theorem files_closePosition {symbol : Symbol} {quantity : ℤ} (reason : CloseReason)
    (open_ : book.get? symbol = some quantity) :
    Files book gone todo previous
      ((p.monitor latestPrice).closePosition symbol quantity reason) := by
  intro w m held
  have marked : Filed book gone todo previous w { m with closing := insert symbol m.closing } := by
    refine { held with closing := ?_ }
    intro other member
    rcases Finset.mem_insert.mp member with rfl | before
    · exact Dict.mem_keys_of_get? open_
    · exact held.closing other before
  -- what follows only asks: it writes nothing
  have rest : Files book gone todo previous (do
      let _ ← Coro.request (S := monitorSig) (.closeEvent symbol reason)
      let price ← pure (latestPrice symbol)
      Coro.request (S := monitorSig)
        (.submit (closeSignal "position-monitor" symbol quantity) price) :
        Coro MonitorState monitorSig Unit) :=
    (files_request (by simp)).bind fun _ => (files_pure _).bind fun _ => files_request (by simp)
  exact ⟨trivial, rest w _ marked⟩

/-- A write of the peak alone. -/
theorem files_ratchet (symbol : Symbol) (peak : ℚ) :
    Files book gone todo previous (Coro.update fun m : MonitorState =>
      { m with peakRoiPct := m.peakRoiPct.set symbol peak } :
        Coro MonitorState monitorSig Unit) :=
  fun _ _ held => ⟨trivial, { held with }⟩

theorem files_judge {detail : PositionDetail} (listed : detail.symbol ∈ book.keys) :
    Files book gone todo previous ((p.monitor latestPrice).judge detail) := by
  intro w m held
  rw [PositionMonitor.judge, Coro.obeys_bind, Coro.obeys_view]
  refine Files.bind (files_pure (p.stepSize detail.symbol)) (fun step => ?_) w m held
  refine Files.bind (files_ratchet _ _) fun _ => ?_
  split
  · exact files_pure ()
  · rw [show (Part.view m : MonitorState).positions = book from held.positions]
    split
    next quantity found => exact files_closePosition p latestPrice _ found
    next missing => exact absurd listed ((Dict.get?_eq_none_iff _ _).mp missing)

/-- The stop of a symbol that has none is filed once it is confirmed. -/
theorem files_armNativeStop {detail : PositionDetail} {amount : ℚ}
    (listed : detail.symbol ∈ book.keys) (once : detail.symbol ∉ todo)
    (fresh : ∀ stop ∈ stopsOf w, stop.symbol ≠ detail.symbol)
    (frozen : m.positionStopLossUsdt.get? detail.symbol = some amount)
    (held : Filed book gone todo previous w m) :
    ((p.monitor latestPrice).armNativeStop detail amount).Obeys contract
      (Ends book gone todo previous) w m := by
  rw [PositionMonitor.armNativeStop, MonitorParams.monitor_placeStopLoss, Coro.obeys_bind,
    Coro.obeys_request]
  refine ⟨⟨frozen, held.frozen⟩, ?_⟩
  rintro r w₁ m₁ ⟨rfl, added, -, raised⟩
  cases r with
  | error e =>
    -- by the contract a call that raises has put no stop on the book
    apply held.raised _ (raised e rfl)
    intro stop member
    exact (added stop member).resolve_right id
  | ok placed => cases placed with
  | none =>
    apply held.fewer
    intro stop member
    exact (added stop member).resolve_right id
  | some id =>
    -- the id that the call returns is filed before the next suspension
    refine ⟨trivial, ?_⟩
    change Filed book gone todo previous w₁
      { m₁ with nativeStopOrderId := m₁.nativeStopOrderId.set detail.symbol id }
    constructor
    · exact held.positions
    · intro stop member
      dsimp only
      rcases added stop member with old | ⟨own, named, -⟩
      · rw [Dict.get?_set_ne _ _ (fresh stop old)]
        exact held.filed stop old
      · rw [own, named, Dict.get?_set_self]
    · intro stop member
      rcases added stop member with old | ⟨own, -, same⟩
      · exact held.frozen stop old
      · rw [own, same]
        exact frozen
    · intro stop member
      rcases added stop member with old | ⟨own, -, -⟩
      · exact held.watched stop old
      · rw [own]
        exact .inl listed
    · intro stop member pending
      rcases added stop member with old | ⟨own, -, -⟩
      · exact held.seen stop old pending
      · rw [own] at pending
        exact absurd pending once
    · exact held.closing

/-- A symbol newly seen has no stop on the book, and gets at most one. -/
theorem files_recordEntry {detail : PositionDetail} (listed : detail.symbol ∈ book.keys)
    (new : detail.symbol ∉ previous) (once : detail.symbol ∉ todo)
    (held : Filed book gone (detail.symbol :: todo) previous w m) :
    ((p.monitor latestPrice).recordEntry detail).Obeys contract (Ends book gone todo previous)
      w m := by
  rw [PositionMonitor.recordEntry, MonitorParams.monitor_getAccountEquity]
  apply ((files_request (by simp)) w m held).bind
  · intro equity w₁ m₁ ended
    have kept : Filed book gone (detail.symbol :: todo) previous w₁ m₁ := ended
    -- a stop of the symbol would have been watched by the book before
    have fresh : ∀ stop ∈ stopsOf w₁, stop.symbol ≠ detail.symbol := by
      intro stop member same
      have before := kept.seen stop member (by rw [same]; exact List.mem_cons_self)
      rw [same] at before
      exact new before
    refine ⟨trivial, files_armNativeStop p latestPrice listed once fresh (Dict.get?_set_self _ _ _)
      ?_⟩
    refine { kept with frozen := ?_, seen := ?_ }
    · intro stop member
      exact (Dict.get?_set_ne _ _ (fresh stop member)).trans (kept.frozen stop member)
    · exact fun stop member pending => kept.seen stop member (List.mem_cons_of_mem _ pending)
  · exact fun _ _ _ ended => ended

/-- One pass of the loop over the snapshot. -/
theorem files_checkDetail {detail : PositionDetail} (listed : detail.symbol ∈ book.keys)
    (once : detail.symbol ∉ todo) (held : Filed book gone (detail.symbol :: todo) previous w m) :
    ((p.monitor latestPrice).checkDetail previous detail).Obeys contract
      (Ends book gone todo previous) w m := by
  have passed : Filed book gone todo previous w m :=
    { held with seen := fun stop member pending =>
        held.seen stop member (List.mem_cons_of_mem _ pending) }
  rw [PositionMonitor.checkDetail, Coro.obeys_bind, Coro.obeys_view]
  dsimp only
  split
  · -- a position of no lots is passed over
    exact passed
  · split
    · exact files_judge p latestPrice listed w m passed
    next new =>
      apply (files_recordEntry p latestPrice listed new once held).bind
      · exact fun _ w' m' ended => files_judge p latestPrice listed w' m' ended
      · exact fun _ _ _ ended => ended

/-- With no stop of a symbol on the book, nothing that is filed for it is needed. -/
theorem Filed.forgotten {symbol : Symbol} (held : Filed book (symbol :: gone) [] [] w m)
    (fewer : ∀ stop ∈ stopsOf w', stop ∈ stopsOf w)
    (others : ∀ stop ∈ stopsOf w', stop.symbol ≠ symbol) :
    Filed book gone [] [] w' { m with
      nativeStopOrderId := m.nativeStopOrderId.erase symbol
      peakRoiPct := m.peakRoiPct.erase symbol
      positionStopLossUsdt := m.positionStopLossUsdt.erase symbol } where
  positions := held.positions
  filed stop member :=
    (Dict.get?_erase_ne _ (others stop member)).trans (held.filed stop (fewer stop member))
  frozen stop member :=
    (Dict.get?_erase_ne _ (others stop member)).trans (held.frozen stop (fewer stop member))
  watched stop member := by
    rcases held.watched stop (fewer stop member) with there | later
    · exact .inl there
    · exact .inr ((List.mem_cons.mp later).resolve_left (others stop member))
  seen _ _ pending := absurd pending List.not_mem_nil
  closing := held.closing

/-- A symbol that left the book is forgotten once its stop is off the book. -/
theorem files_forget {symbol : Symbol} (held : Filed book (symbol :: gone) [] [] w m) :
    ((p.monitor latestPrice).forget symbol).Obeys contract (Ends book gone [] []) w m := by
  simp only [PositionMonitor.forget, PositionMonitor.disarmNativeStop, Coro.obeys_bind,
    Coro.obeys_view, Coro.obeys_update, Part.whole_view, Part.whole_set]
  refine ⟨trivial, ?_⟩
  split
  next id armed =>
    rw [MonitorParams.monitor_cancelStopLoss, Coro.obeys_request]
    refine ⟨⟨trivial, held.frozen⟩, ?_⟩
    rintro r w' m' ⟨rfl, added, uncovered, raised⟩
    have fewer : ∀ stop ∈ stopsOf w', stop ∈ stopsOf w := fun stop member =>
      (added stop member).resolve_right False.elim
    -- a stop of the symbol would be the armed one, which is off the book
    have others : ∀ stop ∈ stopsOf w', stop.symbol ≠ symbol := by
      intro stop member same
      have filed := held.filed stop (fewer stop member)
      rw [same] at filed
      cases filed.symm.trans armed
      exact uncovered stop member ⟨same, rfl⟩
    have after := held.forgotten fewer others
    cases r with
    | ok _ => exact ⟨trivial, after⟩
    | error e =>
      -- the amount is still frozen, since the pass ends at the exception
      constructor
      · rfl
      · exact after.filed
      · intro stop member
        exact held.frozen stop (fewer stop member)
      · exact fun stop member => .inl (raised e rfl stop member)
      · exact after.seen
      · rw [held.positions]
        exact held.closing
  next unarmed =>
    -- no stop was armed for the symbol, so that none of it is on the book
    refine ⟨trivial, held.forgotten (fun _ member => member) ?_⟩
    intro stop member same
    have filed := held.filed stop member
    rw [same] at filed
    cases filed.symm.trans unarmed

/-- The book that a poll reads, once it has been read. -/
def rereadBook (details : List PositionDetail) : Dict Symbol ℤ :=
  Dict.ofList (details.map fun d => (d.symbol, d.signedQuantity))

theorem mem_rereadBook (details : List PositionDetail) (symbol : Symbol) :
    symbol ∈ (rereadBook details).keys ↔ symbol ∈ details.map (·.symbol) := by
  rw [rereadBook, Dict.mem_keys_ofList, List.map_map]
  rfl

/-- What the new book lacks is to be forgotten, and all that it lists is to be visited. -/
theorem Filed.reread (held : AllFiled w m) (fewer : ∀ stop ∈ stopsOf w', stop ∈ stopsOf w)
    (details : List PositionDetail) :
    Filed (rereadBook details)
      (m.positions.keys.filter fun symbol => symbol ∉ details.map (·.symbol))
      (details.map (·.symbol)) m.positions.keys w'
      (PositionMonitor.MonitorState.reread m details) where
  positions := rfl
  filed stop member := held.filed stop (fewer stop member)
  frozen stop member := held.frozen stop (fewer stop member)
  watched stop member := by
    have before := (held.watched stop (fewer stop member)).resolve_right List.not_mem_nil
    by_cases stays : stop.symbol ∈ details.map (·.symbol)
    · exact .inl ((mem_rereadBook details _).mpr stays)
    · exact .inr (List.mem_filter.mpr ⟨before, decide_eq_true stays⟩)
  seen stop member _ :=
    (held.watched stop (fewer stop member)).resolve_right List.not_mem_nil
  closing symbol member := (mem_rereadBook details symbol).mpr (Finset.mem_filter.mp member).2

/-- A poll starts with every stop filed, and ends so, whatever raises on the way. -/
theorem files_checkOnce (held : AllFiled w m) :
    (p.monitor latestPrice).checkOnce.Obeys contract (fun _ => AllFiled) w m := by
  rw [PositionMonitor.checkOnce, MonitorParams.monitor_getPositionDetails, Coro.obeys_bind,
    Coro.obeys_request]
  refine ⟨⟨trivial, held.frozen⟩, ?_⟩
  rintro r w₁ m₁ ⟨rfl, added, distinct, raised⟩
  have fewer : ∀ stop ∈ stopsOf w₁, stop ∈ stopsOf w := fun stop member =>
    (added stop member).resolve_right False.elim
  cases r with
  | error e => exact held.raised fewer (raised e rfl)
  | ok details =>
    let previous := m₁.positions.keys
    let gone := previous.filter fun symbol => symbol ∉ details.map (·.symbol)
    let book := rereadBook details
    have start := Filed.reread held fewer details
    refine ⟨trivial, ?_⟩
    change Coro.Obeys contract
      (Coro.forEach ((p.monitor latestPrice).checkDetail previous) details >>= fun _ =>
        Coro.forEach (p.monitor latestPrice).forget gone) _ w₁
      (PositionMonitor.MonitorState.reread m₁ details)
    rw [Coro.obeys_bind]
    -- the details still to come are those whose symbols have not been visited
    apply Coro.obeys_forEach fun items w m => Filed book gone (items.map (·.symbol)) previous w m ∧
      (items.map (·.symbol)).Nodup ∧ ∀ d ∈ items, d.symbol ∈ book.keys
    · rintro detail rest w m ⟨visited, unique, listed⟩
      rw [List.map_cons, List.nodup_cons] at unique
      apply (files_checkDetail p latestPrice (listed detail List.mem_cons_self) unique.1
        visited).mono
      intro r w' m' ended
      cases r with
      | ok _ =>
        exact ⟨ended, unique.2, fun d member => listed d (List.mem_cons_of_mem _ member)⟩
      | error e => exact ended
    · rintro w m ⟨visited, -⟩
      -- the stops of the symbols that left are disarmed one by one
      apply Coro.obeys_forEach fun items w m => Filed book items [] [] w m
      · intro symbol rest w m held
        apply (files_forget p latestPrice held).mono
        intro r w' m' ended
        cases r with
        | ok _ => exact ended
        | error e => exact ended
      · intro w m ended
        rw [AllFiled, ended.positions]
        exact ended
      · exact { visited with seen := fun _ _ pending => absurd pending List.not_mem_nil }
    · exact ⟨start, distinct, fun d member =>
        (mem_rereadBook details d.symbol).mpr (List.mem_map_of_mem member)⟩

end Programs

/-! ## Runs -/

section

variable {p : MonitorParams} {rules : ExchangeRules}

/-- By itself the exchange places no stop for the bot. -/
theorem happened_stops (x : StopOutside) (moves : List StopMove) :
    ∀ stop ∈ (x.happened rules moves).account.stops, stop ∈ x.account.stops := by
  induction moves generalizing x with
  | nil => exact fun _ member => member
  | cons move rest ih =>
    intro stop member
    have before := ih (x.happen rules move) stop member
    cases move with
    | hold symbol held =>
      cases held with
      | none => exact before
      | some held => exact before
    | leave id => exact (List.mem_filter.mp before).1
    | load symbol => exact before

theorem details_distinct (x : StopOutside) (marks : Symbol → ℚ × ℚ) :
    ((x.details marks).map (·.symbol)).Nodup := by
  rw [StopOutside.details, List.map_map]
  exact x.account.positions.nodup.sublist (List.filter_sublist.map _)

/-- A request adds to the book at most the stop that it places, whose id it returns. -/
theorem serve_added (x : StopOutside) (service : StopService) {q : MonitorReq}
    {stops : List PlacedStop} (confirmed : Confirmed service stops q) :
    ∀ stop ∈ (x.serve service q).2.account.stops,
      stop ∈ x.account.stops ∨ Added q (x.serve service q).1 stop := by
  intro stop member
  cases q with
  | placeStopLoss symbol isLong entryPrice quantityLots maxLossUsdt =>
    rcases x.serve_place service symbol isLong entryPrice quantityLots maxLossUsdt with
      same | ⟨filt, -, -, -, acts, same⟩
    · rw [same] at member
      exact .inl member
    · rw [same] at member
      rw [same, confirmed acts]
      rcases List.mem_append.mp member with old | new
      · exact .inl old
      · rw [List.mem_singleton.mp new]
        exact .inr ⟨rfl, rfl, rfl⟩
  | cancelStopLoss symbol id =>
    rw [x.serve_cancel] at member
    dsimp only at member
    split at member
    · exact .inl (List.mem_filter.mp member).1
    · exact .inl member
  | _ => exact .inl member

/-- A suspension at which no stop is lost keeps to the contract. -/
theorem serveAmong_rely (turns : StopTurns) {q : MonitorReq} {w : StopOutside × ℕ}
    {m : MonitorState} (sound : Sound rules turns w m q) :
    contract.rely q (serveAmong rules turns w m q).1 w m (serveAmong rules turns w m q).2.1
      (serveAmong rules turns w m q).2.2 := by
  obtain ⟨confirmed, watched⟩ := sound
  refine ⟨rfl, ?_, ?_, ?_⟩
  · intro stop member
    rcases serve_added _ _ confirmed stop (happened_stops _ _ stop member) with old | new
    · exact .inl (happened_stops _ _ stop old)
    · exact .inr new
  · cases q with
    | positionDetails =>
      cases answer : (serveAmong rules turns w m .positionDetails).1 with
      | error e => trivial
      | ok details =>
        have listed : StopService.answered (turns.turn w.2 .positionDetails).service
            ((w.1.happened rules (turns.turn w.2 .positionDetails).before).details
              (turns.turn w.2 .positionDetails).service.marks) = .ok details := answer
        rw [StopService.answered] at listed
        split at listed
        · cases listed
        · cases listed
          change (List.map _ _).Nodup
          -- the exchange lists each symbol once
          exact details_distinct _ _
    | cancelStopLoss symbol id => exact confirmed
    | _ => trivial
  · intro e raised
    rw [raised] at watched
    exact watched

/-- A new process knows of no stop, and there is none. -/
theorem filed_initial {w : StopOutside × ℕ} (none : stopsOf w = []) :
    AllFiled w MonitorState.initial := by
  have nothing : ∀ stop ∈ stopsOf w, False := by
    intro stop member
    rw [none] at member
    cases member
  exact ⟨rfl, fun stop member => (nothing stop member).elim,
    fun stop member => (nothing stop member).elim, fun stop member => (nothing stop member).elim,
    fun stop member => (nothing stop member).elim,
    fun symbol closing => absurd closing (Finset.notMem_empty symbol)⟩

theorem step_filed {d e : StopDesk} {act : Act} (held : AllFiled (d.outside, 0) d.memory)
    (safe : LosesNoStop p rules d act) (moved : step p rules d act = some e) :
    AllFiled (e.outside, 0) e.memory := by
  cases act with
  | poll turns =>
    cases moved
    have ended := (files_checkOnce p turns.latestPrice held).runAmong safe
      fun q w m _ sound => serveAmong_rely turns sound
    exact ended.fewer fun _ member => member
  | die turns =>
    cases moved
    exact filed_initial safe
  | restart =>
    cases moved
    exact filed_initial safe
  | move m =>
    cases moved
    exact held.fewer (happened_stops d.outside [m])

/-- What is filed under a symbol of the book is cancelled once the symbol has left. -/
theorem willCancel_of_filed {w : StopOutside × ℕ} {m : MonitorState} (held : AllFiled w m)
    {stop : PlacedStop} (member : stop ∈ stopsOf w) :
    WillCancel p m stop.symbol stop.orderId := by
  intro snap fault missing returned
  rw [p.poll_of_ok snap m fault returned]
  have consistent : ∀ s, (m.at s).closing → (m.at s).held.isSome := by
    intro s closing
    have inBook := held.closing s (of_decide_eq_true closing)
    exact (m.positions.get?_isSome_iff s).mpr inBook
  have inBook := (held.watched stop member).resolve_right List.not_mem_nil
  have holds : (m.at stop.symbol).held.isSome := (m.positions.get?_isSome_iff _).mpr inBook
  have native : (m.at stop.symbol).native = some stop.orderId := held.filed stop member
  obtain ⟨-, -, absent⟩ := p.poll_views snap m consistent
  have asked := (absent stop.symbol missing).2
  -- the poll asks to cancel what is filed, for a symbol that it holds and the snapshot lacks
  rw [if_pos holds, native] at asked
  have cancel : MonitorReq.cancelStopLoss stop.symbol stop.orderId ∈
      about stop.symbol (p.poll snap none m).outside := by
    rw [asked]
    exact List.mem_singleton.mpr rfl
  exact (List.mem_filter.mp cancel).1

theorem noOrphan_of_filed {d : StopDesk} (held : AllFiled (d.outside, 0) d.memory) :
    NoOrphan p d where
  cancelled _ member _ := willCancel_of_filed held member
  single stop member other member' same := by
    have first := held.filed stop member
    rw [same] at first
    exact Option.some.inj (first.symm.trans (held.filed other member'))

/-- A new process, with none of its stops on the book. -/
def fresh (broker : BrokerState) (positions : Dict Symbol HeldPosition) (nextId : StopId) :
    StopDesk where
  outside := { broker, account := { positions, nextId } }

end

/-- In every run that loses no stop on the way no native stop is orphaned. -/
theorem no_orphaned_stop (p : MonitorParams) (rules : ExchangeRules) (broker : BrokerState)
    (positions : Dict Symbol HeldPosition) (nextId : StopId) (acts : List Act) (d : StopDesk)
    (safe : Machine.Meets (step p rules) (LosesNoStop p rules) (fresh broker positions nextId) acts)
    (reached : Machine.run (step p rules) (fresh broker positions nextId) acts = some d) :
    NoOrphan p d := by
  apply noOrphan_of_filed
  apply Machine.run_invariant (fun d => AllFiled (d.outside, 0) d.memory) _ _ acts d _ safe reached
  · exact fun d act e held safe moved => step_filed held safe moved
  · exact filed_initial rfl

/-! ### A position that closes and has its stop cancelled, or not -/

/-- A long of five lots is opened and seen, and closed and seen to be closed. -/
def roundTrip (cancel : StopService) : List Act :=
  [.move (.load "BTCUSDT"),
   .move (.hold "BTCUSDT" (some fiveLong)),
   .poll { turn := fun _ _ => { service := { equity := 1000 } } },
   .move (.hold "BTCUSDT" none),
   .poll { turn := fun _ _ => { service := cancel } }]

theorem no_orphaned_stop_roundTrip :
    ∃ d, Machine.run (step .demo demoRules) (fresh {} .empty 7) (roundTrip {}) = some d ∧
      NoOrphan .demo d :=
  ⟨_, rfl, no_orphaned_stop .demo demoRules {} .empty 7 (roundTrip {}) _ (by decide +kernel) rfl⟩

/-- The cancel does not get through, and no later poll repeats it. -/
theorem failed_cancel_orphans :
    ¬ ∀ (p : MonitorParams) (rules : ExchangeRules) (broker : BrokerState)
      (positions : Dict Symbol HeldPosition) (nextId : StopId) (acts : List Act) (d : StopDesk),
      Machine.run (step p rules) (fresh broker positions nextId) acts = some d → NoOrphan p d := by
  intro claim
  obtain ⟨cancelled, -⟩ := claim .demo demoRules {} .empty 7 (roundTrip { acts := false }) _ rfl
  have later := cancelled ⟨7, "BTCUSDT", true, 20000, 30000, 5, 50⟩ (by decide +kernel)
    (by decide +kernel) ⟨[], fun _ => 0, fun _ => none, fun _ => none, List.nodup_nil⟩ none
    List.not_mem_nil (by decide +kernel)
  revert later
  decide +kernel

end StopDesk

end Binbot
