import Binbot.Async.Logic
import Binbot.Execution.Poll
import Binbot.Machine.Run

/-!
# Polls that raise

A poll overwrites the book before the awaits that can fail. Between two polls
the bookkeeping is tidy when every symbol of the book has its recorded stop-loss
and nothing is kept of any other symbol; a poll that raises leaves it tidy only
when the exception comes at a harmless await.
-/
namespace Binbot

open Async Data

/-- The bookkeeping agrees with the book. -/
structure Tidy (m : MonitorState) : Prop where
  stop : ∀ s, (m.at s).held.isSome → (m.at s).stop.isSome
  gone : ∀ s, (m.at s).held = none → m.at s = .blank

/-- Only a symbol of the book is being closed. -/
def Consistent (m : MonitorState) : Prop := ∀ s, (m.at s).closing → (m.at s).held.isSome

theorem Tidy.consistent {m : MonitorState} (tidy : Tidy m) : Consistent m := by
  intro s closing
  cases held : (m.at s).held with
  | some qty => rfl
  | none =>
    rw [tidy.gone s held] at closing
    cases closing

/-- The symbol whose arming or close the fault interrupts. -/
def Fault.interrupts : Fault → Option Symbol
  | .placeStopLoss s | .closeEvent s | .submit s => some s
  | _ => none

/-- The fault loses nothing: it comes before the book is overwritten, or while a
symbol is armed or closed when no symbol of the book is missing from the
snapshot and none listed after it is newly seen. -/
def Fault.Harmless (m : MonitorState) (snap : Snapshot) (fault : Fault) : Prop :=
  fault = .positionDetails ∨ ∃ s, fault.interrupts = some s ∧
    (∀ t ∈ m.positions.keys, t ∈ snap.symbols) ∧
    ∀ t ∈ (snap.symbols.dropWhile fun t => t ≠ s).tail, t ∈ m.positions.keys

/-- What a poll that returns must have done, seen from the memory it started in. -/
structure SoundPoll (p : MonitorParams) (snap : Snapshot) (m : MonitorState)
    (o : Coro.Outcome (List MonitorReq) MonitorState Unit) : Prop where
  /-- A symbol that was not in the book, or has no recorded stop-loss, is treated
  as newly seen before anything else is asked about it. -/
  entered : ∀ d ∈ snap.details, (m.at d.symbol).held = none ∨ (m.at d.symbol).stop = none →
    ∃ reading rest, about d.symbol o.outside = .placeStopLoss d.symbol (d.side = .buy) d.entryPrice
        d.quantity (p.recorded (snap.equity reading)) :: rest ∧
      (o.memory.at d.symbol).stop = some (p.recorded (snap.equity reading)) ∧
      (o.memory.at d.symbol).peak = some (p.roi d)
  /-- A symbol that left has its stop cancelled and its entries cleared. -/
  left : ∀ s, s ∉ snap.symbols → o.memory.at s = .blank ∧
    ∀ id, (m.at s).native = some id → .cancelStopLoss s id ∈ o.outside
  /-- Every symbol of the snapshot has a recorded stop-loss. -/
  frozen : ∀ s ∈ snap.symbols, (o.memory.at s).stop.isSome

namespace MonitorParams

variable (p : MonitorParams) {snap : Snapshot} {fault : Option Fault} {m : MonitorState}

/-- What a poll that returns does about a listed symbol. -/
theorem poll_visited (consistent : Consistent m) {d : PositionDetail} (member : d ∈ snap.details) :
    ∃ reading, (p.poll snap none m).memory.at d.symbol =
        (p.visit (m.at d.symbol).held.isSome (snap.equity reading) (snap.stopId d.symbol)
          (snap.latestPrice d.symbol) d ((m.at d.symbol).holding d.signedQuantity)).2 ∧
      about d.symbol (p.poll snap none m).outside = about d.symbol
        (p.visit (m.at d.symbol).held.isSome (snap.equity reading) (snap.stopId d.symbol)
          (snap.latestPrice d.symbol) d ((m.at d.symbol).holding d.signedQuantity)).1 := by
  obtain ⟨_, shown, _⟩ := p.poll_views snap m consistent
  obtain ⟨before, after, cut⟩ := List.append_of_mem member
  exact ⟨_, shown before d after cut⟩

theorem poll_held (consistent : Consistent m) {s : Symbol} (member : s ∈ snap.symbols) :
    ((p.poll snap none m).memory.at s).held.isSome := by
  obtain ⟨d, listing, rfl⟩ := List.mem_map.mp member
  obtain ⟨_, view, _⟩ := p.poll_visited consistent listing
  rw [view, visit_held]
  rfl

/-- A symbol that is not in the book is armed first of all. -/
theorem poll_entered (tidy : Tidy m) {d : PositionDetail} (member : d ∈ snap.details)
    (held : (m.at d.symbol).held = none) :
    ∃ reading rest, about d.symbol (p.poll snap none m).outside =
        .placeStopLoss d.symbol (d.side = .buy) d.entryPrice d.quantity
          (p.recorded (snap.equity reading)) :: rest ∧
      ((p.poll snap none m).memory.at d.symbol).stop = some (p.recorded (snap.equity reading)) ∧
      ((p.poll snap none m).memory.at d.symbol).peak = some (p.roi d) := by
  obtain ⟨reading, view, asked⟩ := p.poll_visited tidy.consistent member
  -- nothing is kept of it, so that it is visited with a blank view
  rw [tidy.gone _ held] at view asked
  have working : (View.blank.holding d.signedQuantity).closing = false := rfl
  rw [show View.blank.held.isSome = false from rfl, p.visit_fresh _ _ _ _ _ working] at view asked
  refine ⟨reading, _, asked.trans (by simp [about, arm, MonitorReq.About]; rfl), ?_, ?_⟩
  · rw [view, weigh_view]
    rfl
  · rw [view, weigh_view]
    simp [lifted, arm, View.holding, View.blank]

/-- A listed symbol has its stop-loss recorded, now or before. -/
theorem poll_frozen (tidy : Tidy m) {s : Symbol} (member : s ∈ snap.symbols) :
    ((p.poll snap none m).memory.at s).stop.isSome := by
  obtain ⟨d, listing, rfl⟩ := List.mem_map.mp member
  cases held : (m.at d.symbol).held with
  | none =>
    obtain ⟨_, _, _, stop, _⟩ := p.poll_entered tidy listing held
    rw [stop]
    rfl
  | some qty =>
    have recorded := tidy.stop d.symbol (by rw [held]; rfl)
    obtain ⟨reading, view, _⟩ := p.poll_visited tidy.consistent listing
    rw [view, held]
    cases closing : ((m.at d.symbol).holding d.signedQuantity).closing with
    | true => rwa [Option.isSome_some, p.visit_closing _ _ _ _ _ _ closing]
    | false => rwa [Option.isSome_some, p.visit_known _ _ _ _ _ closing, weigh_view]

/-- A symbol that is not listed is forgotten, with its stop. -/
theorem poll_left (tidy : Tidy m) {s : Symbol} (missing : s ∉ snap.symbols) :
    (p.poll snap none m).memory.at s = .blank ∧
      ∀ id, (m.at s).native = some id →
        .cancelStopLoss s id ∈ (p.poll snap none m).outside := by
  obtain ⟨_, _, absent⟩ := p.poll_views snap m tidy.consistent
  obtain ⟨view, asked⟩ := absent s missing
  cases held : (m.at s).held with
  | none =>
    rw [tidy.gone s held] at view ⊢
    exact ⟨view, fun id armed => by cases armed⟩
  | some qty =>
    rw [held, Option.isSome_some, if_pos rfl] at view asked
    refine ⟨view, fun id armed => ?_⟩
    rw [armed] at asked
    have member : MonitorReq.cancelStopLoss s id ∈ about s (p.poll snap none m).outside := by
      rw [asked]
      simp
    exact (List.mem_filter.mp member).1

/-- From tidy bookkeeping every poll that returns is sound. -/
theorem soundPoll_of_tidy (tidy : Tidy m) (returned : (p.poll snap fault m).result = .ok ()) :
    SoundPoll p snap m (p.poll snap fault m) ∧ Tidy (p.poll snap fault m).memory := by
  rw [p.poll_of_ok snap m fault returned]
  refine ⟨⟨fun d member missing => p.poll_entered tidy member ?_, fun s => p.poll_left tidy,
    fun s => p.poll_frozen tidy⟩, ⟨fun s held => ?_, fun s unheld => ?_⟩⟩
  · rcases missing with unheld | unrecorded
    · exact unheld
    · -- whatever is held has a recorded stop-loss
      cases held : (m.at d.symbol).held with
      | none => rfl
      | some qty =>
        have recorded := tidy.stop d.symbol (by rw [held]; rfl)
        rw [unrecorded] at recorded
        cases recorded
  · by_cases member : s ∈ snap.symbols
    · exact p.poll_frozen tidy member
    · rw [(p.poll_left tidy member).1] at held
      cases held
  · by_cases member : s ∈ snap.symbols
    · have held := p.poll_held tidy.consistent member
      rw [unheld] at held
      cases held
    · exact (p.poll_left tidy member).1

/-! ## A poll that raises -/

/-- The outside of a poll: it answers from the snapshot, or the fault hits. -/
def pollContract (snap : Snapshot) (fault : Option Fault) :
    Contract (List MonitorReq) MonitorState monitorSig where
  issue _ _ _ := True
  rely q r asked m asked' m' := r = (snap.reply fault asked q).1 ∧ asked' = asked ++ [q] ∧ m' = m
  guar _ _ := True

/-- The memory after the passes over `past`, from the memory `b` of the new book. -/
structure Passed (b : MonitorState) (past : List PositionDetail) (m : MonitorState) : Prop where
  held : ∀ s, (m.at s).held = (b.at s).held
  stop : ∀ d ∈ past, (m.at d.symbol).stop.isSome
  rest : ∀ s, s ∉ past.map (·.symbol) → m.at s = b.at s
  consistent : Consistent m

/-- How a pass over `d` ends: it returns, or its equity reading raises before
anything is recorded, or its arming or its close raises after that. -/
def PassEnds (fault : Option Fault) (known : List Symbol) (b : MonitorState)
    (past : List PositionDetail) (d : PositionDetail) (r : Except String Unit)
    (m : MonitorState) : Prop :=
  match r with
  | .ok _ => Passed b (past ++ [d]) m
  | .error _ =>
    (∃ reading, fault = some (.accountEquity reading) ∧ d.symbol ∉ known ∧ Passed b past m) ∨
    ∃ f, fault = some f ∧ f.interrupts = some d.symbol ∧ Passed b (past ++ [d]) m

/-- A write that concerns only `d`, after it was recorded. -/
theorem Passed.touch {b m m' : MonitorState} {past : List PositionDetail} {d : PositionDetail}
    (passed : Passed b (past ++ [d]) m) (others : ∀ s, s ≠ d.symbol → m'.at s = m.at s)
    (held : (m'.at d.symbol).held = (m.at d.symbol).held)
    (stop : (m'.at d.symbol).stop = (m.at d.symbol).stop)
    (listed : (b.at d.symbol).held.isSome) : Passed b (past ++ [d]) m' where
  held s := by
    by_cases same : s = d.symbol
    · subst same
      rw [held, passed.held]
    · rw [others s same, passed.held]
  stop e member := by
    by_cases same : e.symbol = d.symbol
    · rw [same, stop, ← same]
      exact passed.stop e member
    · rw [others _ same]
      exact passed.stop e member
  rest s absent := by
    have other : s ≠ d.symbol := fun same => absent (by simp [same])
    rw [others s other, passed.rest s absent]
  consistent s closing := by
    by_cases same : s = d.symbol
    · subst same
      rwa [held, passed.held]
    · rw [others s same] at closing ⊢
      exact passed.consistent s closing

/-- Recording the stop-loss of `d` completes its bookkeeping. -/
theorem Passed.record {b m : MonitorState} {past : List PositionDetail} (d : PositionDetail)
    (passed : Passed b past m) (stop : ℚ) : Passed b (past ++ [d])
      { m with positionStopLossUsdt := m.positionStopLossUsdt.set d.symbol stop } where
  held s := passed.held s
  stop e member := by
    by_cases same : e.symbol = d.symbol
    · rw [same]
      simp [MonitorState.at]
    · have earlier : e ∈ past := by
        rcases List.mem_append.mp member with old | new
        · exact old
        · exact absurd (by rw [List.mem_singleton.mp new]) same
      simpa [MonitorState.at, Dict.get?_set_ne _ _ same] using passed.stop e earlier
  rest s absent := by
    simp only [List.map_append, List.mem_append, List.map_cons, List.map_nil, List.mem_singleton,
      not_or] at absent
    rw [← passed.rest s absent.1]
    simp [MonitorState.at, Dict.get?_set_ne _ _ absent.2]
  consistent := passed.consistent

private theorem hit_of_error {asked : List MonitorReq} {q : MonitorReq} {e : String}
    (raised : .error e = (snap.reply fault asked q).1) :
    ∃ f, fault = some f ∧ f.hits asked q = true := by
  simp only [Snapshot.reply] at raised
  split at raised
  next hit => simpa [Option.any_eq_true] using hit
  · cases raised

/-- A fault that hits the arming or the close of `s` interrupts `s`. -/
private theorem interrupts_of_hits {asked : List MonitorReq} {q : MonitorReq} {f : Fault}
    {s : Symbol} (hit : f.hits asked q = true) (about : q.About s = true)
    (kept : ∀ id, q ≠ .cancelStopLoss s id) : f.interrupts = some s := by
  cases q <;> cases f <;> simp_all [Fault.hits, MonitorReq.About, Fault.interrupts]

section Raising

variable (latestPrice : Symbol → Option ℚ) {b : MonitorState} {past : List PositionDetail}
  {d : PositionDetail} {known : List Symbol} {asked : List MonitorReq}

theorem closePosition_ends (passed : Passed b (past ++ [d]) m)
    (listed : (b.at d.symbol).held.isSome) (qty : ℤ) (reason : CloseReason) :
    ((p.monitor latestPrice).closePosition d.symbol qty reason).Obeys (pollContract snap fault)
      (fun r _ m' => PassEnds fault known b past d r m') asked m := by
  have closing : Passed b (past ++ [d]) { m with closing := insert d.symbol m.closing } := by
    refine passed.touch (fun s other => ?_) rfl rfl listed
    simp [MonitorState.at, other]
  simp only [PositionMonitor.closePosition, monitor_onCloseEvent, monitor_priceLookup,
    monitor_submit, Coro.obeys_bind, Coro.obeys_update, Coro.obeys_pure, Coro.obeys_request,
    Part.whole_view, Part.whole_set]
  refine ⟨trivial, trivial, ?_⟩
  rintro r _ _ ⟨answer, rfl, rfl⟩
  cases r with
  | error e =>
    -- the close event raised: the symbol is marked, and no order was sent
    obtain ⟨f, faulty, hit⟩ := hit_of_error answer
    exact .inr ⟨f, faulty, interrupts_of_hits hit (by simp [MonitorReq.About]) (by simp), closing⟩
  | ok _ =>
    refine ⟨trivial, ?_⟩
    rintro r _ _ ⟨answer, rfl, rfl⟩
    cases r with
    | error e =>
      obtain ⟨f, faulty, hit⟩ := hit_of_error answer
      exact .inr ⟨f, faulty,
        interrupts_of_hits hit (by simp [MonitorReq.About, closeSignal]) (by simp), closing⟩
    | ok _ => exact closing

theorem judge_ends (passed : Passed b (past ++ [d]) m)
    (listed : (b.at d.symbol).held = some d.signedQuantity) :
    ((p.monitor latestPrice).judge d).Obeys (pollContract snap fault)
      (fun r _ m' => PassEnds fault known b past d r m') asked m := by
  have found : m.positions.get? d.symbol = some d.signedQuantity :=
    (passed.held d.symbol).trans listed
  simp only [PositionMonitor.judge, Coro.obeys_bind, Coro.obeys_view, Coro.obeys_update,
    Coro.obeys_pure, monitor_stepSizeLookup, Part.whole_view, Part.whole_set]
  refine ⟨trivial, ?_⟩
  have ratcheted : ∀ peak, Passed b (past ++ [d])
      { m with peakRoiPct := m.peakRoiPct.set d.symbol peak } := by
    intro peak
    refine passed.touch (fun s other => ?_) rfl rfl (by rw [listed]; rfl)
    simp [MonitorState.at, Dict.get?_set_ne _ _ other]
  split
  · exact ratcheted _
  · rw [found]
    exact p.closePosition_ends latestPrice (ratcheted _) (by rw [listed]; rfl) _ _

theorem recordEntry_ends (passed : Passed b past m) (unknown : d.symbol ∉ known)
    (listed : (b.at d.symbol).held.isSome) :
    ((p.monitor latestPrice).recordEntry d).Obeys (pollContract snap fault)
      (fun r _ m' => PassEnds fault known b past d r m') asked m := by
  simp only [PositionMonitor.recordEntry, PositionMonitor.armNativeStop, monitor_getAccountEquity,
    monitor_placeStopLoss, monitor_stopLossEquityPct, Coro.obeys_bind, Coro.obeys_update,
    Coro.obeys_request, Part.whole_view, Part.whole_set]
  refine ⟨trivial, ?_⟩
  rintro r _ _ ⟨answer, rfl, rfl⟩
  cases r with
  | error e =>
    obtain ⟨f, faulty, hit⟩ := hit_of_error answer
    cases f with
    | accountEquity reading => exact .inl ⟨reading, faulty, unknown, passed⟩
    | _ => cases hit
  | ok equity =>
    have recorded := passed.record d (equity * p.stopLossEquityPct / 100)
    refine ⟨trivial, trivial, ?_⟩
    rintro r _ _ ⟨answer, rfl, rfl⟩
    cases r with
    | error e =>
      obtain ⟨f, faulty, hit⟩ := hit_of_error answer
      exact .inr ⟨f, faulty, interrupts_of_hits hit (by simp [MonitorReq.About]) (by simp),
        recorded⟩
    | ok stopId =>
      cases stopId with
      | none => exact recorded
      | some id =>
        refine ⟨trivial, recorded.touch (fun s other => ?_) rfl rfl listed⟩
        simp [MonitorState.at, Dict.get?_set_ne _ _ other]

/-- One pass of the loop. `known` is the old book, whose symbols have a recorded stop-loss. -/
theorem checkDetail_ends (passed : Passed b past m) (fresh : d.symbol ∉ past.map (·.symbol))
    (listed : (b.at d.symbol).held = some d.signedQuantity)
    (closing : (b.at d.symbol).closing → d.symbol ∈ known)
    (recorded : d.symbol ∈ known → (b.at d.symbol).stop.isSome) :
    ((p.monitor latestPrice).checkDetail known d).Obeys (pollContract snap fault)
      (fun r _ m' => PassEnds fault known b past d r m') asked m := by
  have same := passed.rest d.symbol fresh
  -- a symbol of the old book has its stop-loss, so that the pass may skip the recording
  have old : d.symbol ∈ known → Passed b (past ++ [d]) m := by
    intro member
    refine ⟨passed.held, fun e among => ?_, fun s absent => passed.rest s ?_, passed.consistent⟩
    · rcases List.mem_append.mp among with earlier | last
      · exact passed.stop e earlier
      · rw [List.mem_singleton.mp last, same]
        exact recorded member
    · exact fun among => absent (by rw [List.map_append]; exact List.mem_append_left _ among)
  simp only [PositionMonitor.checkDetail, Coro.obeys_bind, Coro.obeys_view, Part.whole_view]
  split
  next closed =>
    have status : (m.at d.symbol).closing = true := decide_eq_true closed
    exact old (closing (same ▸ status))
  next working =>
    split
    next member => exact p.judge_ends latestPrice (old member) listed
    next unknown =>
      simp only [Coro.obeys_bind]
      refine (p.recordEntry_ends latestPrice passed unknown (by rw [listed]; rfl)).mono ?_
      intro r asked' m' ends
      cases r with
      | error e => exact ends
      | ok _ => exact p.judge_ends latestPrice ends listed

end Raising

theorem mem_keys_iff (s : Symbol) : s ∈ m.positions.keys ↔ (m.at s).held.isSome :=
  (m.positions.get?_isSome_iff s).symm

/-- The symbols listed after `d`. -/
private theorem listed_after {past after : List PositionDetail} {d : PositionDetail}
    (cut : snap.details = past ++ d :: after) :
    (snap.symbols.dropWhile fun t => t ≠ d.symbol).tail = after.map (·.symbol) := by
  have unique := snap.nodup
  simp only [cut, List.map_append, List.map_cons, List.nodup_append] at unique
  have earlier : ∀ t ∈ past.map (·.symbol), (t ≠ d.symbol : Bool) := by
    intro t member
    simpa using unique.2.2 t member d.symbol (by simp)
  rw [Snapshot.symbols, cut, List.map_append, List.dropWhile_append_of_pos earlier]
  simp

/-- A symbol of the old book that is missing from the snapshot still has its
stop-loss, so the bookkeeping is not tidy. -/
private theorem untidy_of_left (tidy : Tidy m) {m' : MonitorState} {s : Symbol}
    (known : s ∈ m.positions.keys) (unheld : (m'.at s).held = none)
    (stop : (m'.at s).stop = (m.at s).stop) : ¬ Tidy m' := by
  intro after
  have recorded := tidy.stop s ((mem_keys_iff s).mp known)
  rw [← stop, after.gone s unheld] at recorded
  cases recorded

/-- Of a symbol that is not in the book nothing is kept. -/
private theorem blank_of_unknown (tidy : Tidy m) {s : Symbol} (unknown : s ∉ m.positions.keys) :
    m.at s = .blank :=
  tidy.gone s (Option.not_isSome_iff_eq_none.mp fun held => unknown ((mem_keys_iff s).mpr held))

section Passes

variable {past after : List PositionDetail} {d : PositionDetail} {m' : MonitorState}

/-- Each symbol is listed once, before, at or after `d`. -/
private theorem listed_once (cut : snap.details = past ++ d :: after) :
    d.symbol ∉ past.map (·.symbol) ∧
      ∀ g ∈ after, g.symbol ∉ (past ++ [d]).map (·.symbol) := by
  have unique := snap.nodup
  simp only [cut, List.map_append, List.map_cons, List.nodup_append, List.nodup_cons] at unique
  refine ⟨fun among => unique.2.2 d.symbol among d.symbol (by simp) rfl, fun g among earlier => ?_⟩
  have inside : g.symbol ∈ after.map (·.symbol) := List.mem_map_of_mem among
  rw [List.map_append, List.mem_append] at earlier
  rcases earlier with before | last
  · exact unique.2.2 _ before _ (List.mem_cons_of_mem _ inside) rfl
  · have same : g.symbol = d.symbol := by simpa using last
    exact unique.2.1.1 (same ▸ inside)

/-- The passes do not touch what the snapshot lacks. -/
private theorem passed_missing (cut : snap.details = past ++ d :: after)
    (passed : Passed (PositionMonitor.MonitorState.reread m snap.details) (past ++ [d]) m')
    {t : Symbol} (absent : t ∉ snap.symbols) :
    m'.at t = { m.at t with held := none, closing := false } := by
  rw [← at_reread_of_not_mem snap m t absent]
  refine passed.rest t fun among => absent ?_
  rw [Snapshot.symbols, cut]
  simp only [List.map_append, List.mem_append, List.map_cons, List.map_nil, List.mem_cons,
    List.not_mem_nil, or_false] at among ⊢
  exact among.elim .inl fun same => .inr (.inl same)

/-- Nor what is still to come. -/
private theorem passed_later (cut : snap.details = past ++ d :: after)
    (passed : Passed (PositionMonitor.MonitorState.reread m snap.details) (past ++ [d]) m')
    {g : PositionDetail} (among : g ∈ after) :
    m'.at g.symbol = (m.at g.symbol).holding g.signedQuantity := by
  rw [← at_reread_of_mem snap m g (by rw [cut]; simp [among])]
  exact passed.rest g.symbol ((listed_once cut).2 g among)

/-- The equity reading of `d` raised: `d` is in the book without a stop-loss. -/
private theorem untidy_of_unread (tidy : Tidy m) (cut : snap.details = past ++ d :: after)
    (unknown : d.symbol ∉ m.positions.keys)
    (passed : Passed (PositionMonitor.MonitorState.reread m snap.details) past m') :
    ¬ Tidy m' := by
  intro after'
  have view := passed.rest d.symbol (listed_once cut).1
  rw [at_reread_of_mem snap m d (by rw [cut]; simp), blank_of_unknown tidy unknown] at view
  have recorded := after'.stop d.symbol (by rw [view]; rfl)
  rw [view] at recorded
  cases recorded

/-- The arming or the close of `d` raised, and nothing was lost. -/
private theorem tidy_of_complete (tidy : Tidy m) (cut : snap.details = past ++ d :: after)
    (complete : ∀ t ∈ m.positions.keys, t ∈ snap.symbols)
    (known : ∀ t ∈ after.map (·.symbol), t ∈ m.positions.keys)
    (passed : Passed (PositionMonitor.MonitorState.reread m snap.details) (past ++ [d]) m') :
    Tidy m' where
  stop t held := by
    by_cases listed : t ∈ snap.symbols
    · rw [Snapshot.symbols, cut, List.map_append, List.map_cons, List.mem_append,
        List.mem_cons] at listed
      rcases listed with before | rfl | behind
      · obtain ⟨g, among, rfl⟩ := List.mem_map.mp before
        exact passed.stop g (List.mem_append_left _ among)
      · exact passed.stop d (List.mem_append_right _ (List.mem_singleton_self d))
      · -- a symbol that was not reached has kept its own
        have recorded := tidy.stop t ((mem_keys_iff t).mp (known t behind))
        obtain ⟨g, among, rfl⟩ := List.mem_map.mp behind
        rw [passed_later cut passed among]
        exact recorded
    · rw [passed_missing cut passed listed] at held
      cases held
  gone t unheld := by
    have absent : t ∉ snap.symbols := by
      intro listed
      obtain ⟨g, among, rfl⟩ := List.mem_map.mp listed
      have held := passed.held g.symbol
      rw [unheld, at_reread_of_mem snap m g among] at held
      cases held
    rw [passed_missing cut passed absent,
      blank_of_unknown tidy fun known => absent (complete t known)]
    rfl

/-- Otherwise a symbol that left keeps its stop-loss, or a new one has none yet. -/
private theorem complete_of_tidy (tidy : Tidy m) (cut : snap.details = past ++ d :: after)
    (passed : Passed (PositionMonitor.MonitorState.reread m snap.details) (past ++ [d]) m')
    (after' : Tidy m') : (∀ t ∈ m.positions.keys, t ∈ snap.symbols) ∧
      ∀ t ∈ after.map (·.symbol), t ∈ m.positions.keys := by
  constructor
  · intro t known
    by_contra absent
    have view := passed_missing cut passed absent
    exact untidy_of_left tidy known (by rw [view]) (by rw [view]) after'
  · intro t inside
    obtain ⟨g, among, rfl⟩ := List.mem_map.mp inside
    by_contra unknown
    have view := passed_later cut passed among
    have recorded := after'.stop g.symbol (by rw [view]; rfl)
    rw [view, blank_of_unknown tidy unknown] at recorded
    cases recorded

theorem raised_in_pass (tidy : Tidy m) (cut : snap.details = past ++ d :: after) {e : String}
    (ends : PassEnds fault m.positions.keys (PositionMonitor.MonitorState.reread m snap.details)
      past d (.error e) m') :
    ∃ f, fault = some f ∧ Consistent m' ∧ (Tidy m' ↔ f.Harmless m snap) := by
  rcases ends with ⟨reading, rfl, unknown, passed⟩ | ⟨f, rfl, interrupted, passed⟩
  · have untidy := untidy_of_unread tidy cut unknown passed
    refine ⟨_, rfl, passed.consistent, fun after' => absurd after' untidy, ?_⟩
    rintro (same | ⟨s, interrupted, _⟩)
    · cases same
    · cases interrupted
  · refine ⟨f, rfl, passed.consistent, fun after' => ?_, ?_⟩
    · obtain ⟨complete, known⟩ := complete_of_tidy tidy cut passed after'
      refine .inr ⟨d.symbol, interrupted, complete, ?_⟩
      rwa [listed_after cut]
    · rintro (rfl | ⟨s, named, complete, known⟩)
      · cases interrupted
      obtain rfl : d.symbol = s := Option.some.inj (interrupted.symm.trans named)
      rw [listed_after cut] at known
      exact tidy_of_complete tidy cut complete known passed

end Passes

/-- A symbol that left is not forgotten before its stop was cancelled. -/
theorem forget_ends (latestPrice : Symbol → Option ℚ) (tidy : Tidy m) {s : Symbol}
    {m' : MonitorState} {asked : List MonitorReq} (known : s ∈ m.positions.keys)
    (unheld : (m'.at s).held = none) (stop : (m'.at s).stop = (m.at s).stop)
    (consistent : Consistent m') :
    ((p.monitor latestPrice).forget s).Obeys (pollContract snap fault)
      (fun r _ after => Consistent after ∧ (∀ t, t ≠ s → after.at t = m'.at t) ∧
        ∀ e, r = .error e → ∃ f, fault = some f ∧ ¬ f.Harmless m snap ∧ ¬ Tidy after)
      asked m' := by
  have erased : Consistent { m' with nativeStopOrderId := m'.nativeStopOrderId.erase s } :=
    consistent
  have apart : ∀ t, t ≠ s →
      MonitorState.at { m' with nativeStopOrderId := m'.nativeStopOrderId.erase s } t = m'.at t := by
    intro t other
    simp [MonitorState.at, Dict.get?_erase_ne _ other]
  have cleared : ∀ t, t ≠ s → MonitorState.at
      { m' with
        nativeStopOrderId := m'.nativeStopOrderId.erase s
        peakRoiPct := m'.peakRoiPct.erase s
        positionStopLossUsdt := m'.positionStopLossUsdt.erase s } t = m'.at t := by
    intro t other
    simp [MonitorState.at, Dict.get?_erase_ne _ other]
  simp only [PositionMonitor.forget, PositionMonitor.disarmNativeStop, Coro.obeys_bind,
    Coro.obeys_view, Coro.obeys_update, Part.whole_view, Part.whole_set]
  refine ⟨trivial, ?_⟩
  split
  next id armed =>
    simp only [monitor_cancelStopLoss, Coro.obeys_request]
    refine ⟨trivial, ?_⟩
    rintro r _ _ ⟨answer, rfl, rfl⟩
    cases r with
    | error e =>
      obtain ⟨f, faulty, hit⟩ := hit_of_error answer
      -- the cancel raised: the id is gone already, and the stop-loss is still recorded
      refine ⟨erased, apart, fun _ _ => ⟨f, faulty, ?_, untidy_of_left tidy known unheld stop⟩⟩
      cases f with
      | cancelStopLoss t =>
        rintro (same | ⟨_, named, _⟩)
        · cases same
        · cases named
      | _ => cases hit
    | ok _ => exact ⟨trivial, erased, cleared, fun _ failed => by cases failed⟩
  · exact ⟨trivial, erased, cleared, fun _ failed => by cases failed⟩

/-- The book as it has just been overwritten. -/
private theorem passed_reread (snap : Snapshot) (m : MonitorState) :
    Passed (PositionMonitor.MonitorState.reread m snap.details) []
      (PositionMonitor.MonitorState.reread m snap.details) := by
  refine ⟨fun _ => rfl, fun _ member => absurd member List.not_mem_nil, fun _ _ => rfl, ?_⟩
  intro s closing
  by_cases listed : s ∈ snap.symbols
  · obtain ⟨d, member, rfl⟩ := List.mem_map.mp listed
    rw [at_reread_of_mem snap m d member]
    rfl
  · rw [at_reread_of_not_mem snap m s listed] at closing
    cases closing

/-- What a poll that raises leaves of tidy bookkeeping. -/
theorem poll_raised (tidy : Tidy m) {e : String} (raised : (p.poll snap fault m).result = .error e) :
    ∃ f, fault = some f ∧ Consistent (p.poll snap fault m).memory ∧
      (Tidy (p.poll snap fault m).memory ↔ f.Harmless m snap) := by
  let Q : Except String Unit → List MonitorReq → MonitorState → Prop := fun r _ m' =>
    ∀ e, r = .error e → ∃ f, fault = some f ∧ Consistent m' ∧ (Tidy m' ↔ f.Harmless m snap)
  suffices obeys : (p.monitor snap.latestPrice).checkOnce.Obeys (pollContract snap fault) Q [] m from
    (obeys.exec fun q asked m _ => ⟨rfl, rfl, rfl⟩) e raised
  simp only [PositionMonitor.checkOnce, monitor_getPositionDetails, Coro.obeys_bind,
    Coro.obeys_request, Coro.obeys_view, Coro.obeys_update, Part.whole_view, Part.whole_set]
  refine ⟨trivial, ?_⟩
  rintro r _ m' ⟨answer, rfl, unchanged⟩
  subst m'
  cases r with
  | error e =>
    -- nothing was written yet
    obtain ⟨f, faulty, hit⟩ := hit_of_error answer
    intro _ _
    cases f with
    | positionDetails => exact ⟨_, faulty, tidy.consistent, fun _ => .inl rfl, fun _ => tidy⟩
    | _ => cases hit
  | ok details =>
    have same : details = snap.details := by
      simp only [Snapshot.reply] at answer
      split at answer
      · cases answer
      · exact Except.ok.inj answer
    subst same
    let b := PositionMonitor.MonitorState.reread m snap.details
    refine ⟨trivial, Coro.obeys_forEach
      (fun remaining _ m' => ∃ past, snap.details = past ++ remaining ∧ Passed b past m')
      ?_ ?_ _ ⟨[], rfl, passed_reread snap m⟩⟩
    · -- one pass after the other, over the symbols of the snapshot
      rintro d after asked m' ⟨past, cut, passed⟩
      have member : d ∈ snap.details := by rw [cut]; simp
      have fresh := (listed_once cut).1
      have view := at_reread_of_mem snap m d member
      refine (p.checkDetail_ends snap.latestPrice passed fresh (by rw [view]; rfl) ?_ ?_).mono ?_
      · intro closing
        rw [view] at closing
        exact (mem_keys_iff _).mpr (tidy.consistent _ closing)
      · intro known
        rw [view]
        exact tidy.stop _ ((mem_keys_iff _).mp known)
      · intro r asked' m'' ends
        cases r with
        | error e => exact fun _ _ => raised_in_pass tidy cut ends
        | ok _ => exact ⟨past ++ [d], by rw [cut]; simp, ends⟩
    · -- then the symbols that left are forgotten one by one
      rintro asked m' ⟨past, cut, passed⟩
      rw [List.append_nil] at cut
      subst cut
      refine Coro.obeys_forEach
        (fun remaining _ m'' => remaining.Nodup ∧ Consistent m'' ∧ ∀ s ∈ remaining,
          s ∈ m.positions.keys ∧ (m''.at s).held = none ∧ (m''.at s).stop = (m.at s).stop)
        ?_ (fun _ _ _ _ failed => by cases failed) _ ⟨?_, passed.consistent, ?_⟩
      · rintro s rest asked m'' ⟨unique, consistent, left⟩
        rw [List.nodup_cons] at unique
        obtain ⟨known, unheld, stop⟩ := left s List.mem_cons_self
        refine (p.forget_ends snap.latestPrice tidy known unheld stop consistent).mono ?_
        rintro r _ after ⟨consistent', others, failed⟩
        cases r with
        | error e =>
          intro _ _
          obtain ⟨f, faulty, harmful, untidy⟩ := failed e rfl
          exact ⟨f, faulty, consistent', fun held => absurd held untidy,
            fun held => absurd held harmful⟩
        | ok _ =>
          refine ⟨unique.2, consistent', fun t later => ?_⟩
          rw [others t fun same => unique.1 (same ▸ later)]
          exact left t (List.mem_cons_of_mem s later)
      · exact m.positions.keys_nodup.filter _
      · intro s gone
        have absent : s ∉ snap.symbols := of_decide_eq_true (List.mem_filter.mp gone).2
        rw [passed.rest s absent, at_reread_of_not_mem snap m s absent]
        exact ⟨(List.mem_filter.mp gone).1, rfl, rfl⟩

/-! ## Runs of polls -/

/-- What is kept of a symbol outside the book survives a poll that does not list it. -/
private theorem leftover_breaks (consistent : Consistent m) {s : Symbol}
    (unheld : (m.at s).held = none) (left : m.at s ≠ .blank) :
    ∃ next, (p.poll next none m).result = .ok () ∧ ¬ SoundPoll p next m (p.poll next none m) := by
  let next : Snapshot := ⟨[], fun _ => 0, fun _ => none, fun _ => none, List.nodup_nil⟩
  obtain ⟨returned, _, absent⟩ := p.poll_views next m consistent
  refine ⟨next, returned, fun sound => left ?_⟩
  have view := (absent s List.not_mem_nil).1
  have working : (m.at s).closing = false := by
    cases closing : (m.at s).closing with
    | false => rfl
    | true =>
      have held := consistent s closing
      rw [unheld] at held
      cases held
  rw [(sound.left s List.not_mem_nil).1] at view
  generalize m.at s = v at view unheld working ⊢
  obtain ⟨held, closing, native, peak, stop⟩ := v
  obtain rfl : held = none := unheld
  obtain rfl : closing = false := working
  exact view.symm

/-- A symbol of the book without a recorded stop-loss is not treated as newly seen. -/
private theorem unrecorded_breaks (consistent : Consistent m) {s : Symbol}
    (held : (m.at s).held.isSome) (unrecorded : ¬ (m.at s).stop.isSome) :
    ∃ next, (p.poll next none m).result = .ok () ∧ ¬ SoundPoll p next m (p.poll next none m) := by
  let d : PositionDetail := ⟨s, .buy, 1, 1, 1, 0⟩
  let next : Snapshot := ⟨[d], fun _ => 0, fun _ => none, fun _ => none, List.nodup_singleton _⟩
  obtain ⟨returned, shown, _⟩ := p.poll_views next m consistent
  refine ⟨next, returned, fun sound => ?_⟩
  obtain ⟨reading, rest, asked, _⟩ := sound.entered d (List.mem_singleton_self d)
    (.inr (Option.not_isSome_iff_eq_none.mp unrecorded))
  have visited := (shown [] d [] rfl).2
  rw [asked, show (m.at d.symbol).held.isSome = true from held] at visited
  cases closing : ((m.at d.symbol).holding d.signedQuantity).closing with
  | true =>
    rw [p.visit_closing _ _ _ _ _ _ closing] at visited
    cases visited
  | false =>
    rw [p.visit_known _ _ _ _ _ closing, weigh] at visited
    split at visited
    · cases visited
    · simp [about, MonitorReq.About] at visited

/-- A snapshot that shows what untidy bookkeeping does. -/
theorem untidy_breaks (consistent : Consistent m) (untidy : ¬ Tidy m) :
    ∃ next, (p.poll next none m).result = .ok () ∧ ¬ SoundPoll p next m (p.poll next none m) := by
  by_cases recorded : ∀ s, (m.at s).held.isSome → (m.at s).stop.isSome
  · have kept : ∃ s, (m.at s).held = none ∧ m.at s ≠ .blank := by
      by_contra none
      push Not at none
      exact untidy ⟨recorded, none⟩
    obtain ⟨s, unheld, left⟩ := kept
    exact p.leftover_breaks consistent unheld left
  · push Not at recorded
    obtain ⟨s, held, unrecorded⟩ := recorded
    exact p.unrecorded_breaks consistent held unrecorded

/-- One poll of a run; its action is the snapshot and the fault. -/
def pollStep (m : MonitorState) (poll : Snapshot × Option Fault) : Option MonitorState :=
  some (p.poll poll.1 poll.2 m).memory

/-- If the poll raises, its fault is harmless. -/
def FailsHarmlessly (m : MonitorState) (poll : Snapshot × Option Fault) : Prop :=
  ∀ e f, (p.poll poll.1 poll.2 m).result = .error e → poll.2 = some f → f.Harmless m poll.1

theorem tidy_initial : Tidy .initial where
  stop s held := by cases held
  gone s _ := MonitorState.at_initial s

theorem tidy_step (m : MonitorState) (poll : Snapshot × Option Fault) (m' : MonitorState)
    (tidy : Tidy m) (harmless : p.FailsHarmlessly m poll) (moved : p.pollStep m poll = some m') :
    Tidy m' := by
  cases moved
  cases result : (p.poll poll.1 poll.2 m).result with
  | ok _ => exact (p.soundPoll_of_tidy tidy result).2
  | error e =>
    obtain ⟨f, faulty, _, tidy_iff⟩ := p.poll_raised tidy result
    exact tidy_iff.mpr (harmless e f result faulty)

/-- In every run whose failing polls fail harmlessly, a poll that returns has
treated every symbol without recorded stop-loss as newly seen and forgotten every
symbol that left. A further poll that raises keeps this so, whatever comes next,
exactly when its fault is harmless. -/
theorem failed_poll_keeps_bookkeeping (polls : List (Snapshot × Option Fault)) (m : MonitorState)
    (reached : Machine.run p.pollStep .initial polls = some m)
    (harmless : Machine.Meets p.pollStep p.FailsHarmlessly .initial polls)
    (snap : Snapshot) (fault : Option Fault) :
    ((p.poll snap fault m).result = .ok () → SoundPoll p snap m (p.poll snap fault m)) ∧
    ∀ e f, (p.poll snap fault m).result = .error e → fault = some f →
      ((∀ next fault', (p.poll next fault' (p.poll snap fault m).memory).result = .ok () →
          SoundPoll p next (p.poll snap fault m).memory
            (p.poll next fault' (p.poll snap fault m).memory)) ↔
        f.Harmless m snap) := by
  have tidy : Tidy m :=
    Machine.run_invariant Tidy p.tidy_step .initial polls m tidy_initial harmless reached
  refine ⟨fun returned => (p.soundPoll_of_tidy tidy returned).1, fun e f raised faulty => ?_⟩
  obtain ⟨g, named, consistent, tidy_iff⟩ := p.poll_raised tidy raised
  obtain rfl : f = g := Option.some.inj (faulty.symm.trans named)
  rw [← tidy_iff]
  constructor
  · intro sound
    by_contra untidy
    obtain ⟨next, returned, unsound⟩ := p.untidy_breaks consistent untidy
    exact unsound (sound next none returned)
  · exact fun after next fault' returned => (p.soundPoll_of_tidy after returned).1

/-- A long position one USDT under water. -/
def dip : Snapshot where
  details := [⟨"BTCUSDT", .buy, 20, 50000, 49950, -1⟩]
  equity := fun _ => 1000
  stopId := fun _ => some 1
  latestPrice := fun _ => some 49950
  nodup := List.nodup_singleton _

/-- The equity reading of the first poll raises: the second poll closes the
position at its first adverse tick, against a stop-loss of 0, and arms nothing. -/
theorem failed_poll_loses_bookkeeping :
    let m := (demo.poll dip (some (.accountEquity 0)) .initial).memory
    Machine.run demo.pollStep .initial [(dip, some (.accountEquity 0))] = some m ∧
    (demo.poll dip none m).result = .ok () ∧
    (demo.poll dip none m).outside =
      [.positionDetails, .closeEvent "BTCUSDT" (.stopLoss (-1) 0),
        .submit (closeSignal "position-monitor" "BTCUSDT" 20) (some 49950)] ∧
    ¬ SoundPoll demo dip m (demo.poll dip none m) := by
  have asked : (demo.poll dip none
      (demo.poll dip (some (.accountEquity 0)) .initial).memory).outside =
      [.positionDetails, .closeEvent "BTCUSDT" (.stopLoss (-1) 0),
        .submit (closeSignal "position-monitor" "BTCUSDT" 20) (some 49950)] := by decide +kernel
  refine ⟨rfl, rfl, asked, fun sound => ?_⟩
  obtain ⟨reading, rest, first, _⟩ := sound.entered _ (List.mem_singleton_self _)
    (.inr (by decide +kernel))
  rw [asked] at first
  simp [about, MonitorReq.About, closeSignal] at first

theorem failed_poll_keeps_bookkeeping_dip :
    SoundPoll demo dip (demo.poll dip none .initial).memory
      (demo.poll dip none (demo.poll dip none .initial).memory) := by
  have harmless : Machine.Meets demo.pollStep demo.FailsHarmlessly .initial [(dip, none)] := by
    refine ⟨?_, fun _ _ => trivial⟩
    intro e f _ faulty
    cases faulty
  exact (demo.failed_poll_keeps_bookkeeping [(dip, none)] _ rfl harmless dip none).1
    (by decide +kernel)

end MonitorParams

end Binbot
