import Binbot.Execution.SymbolSettings
import Binbot.Machine.Run
import Binbot.Properties.CancelAll

/-!
# Setting symbols up

The record of what has been set is kept by symbol alone, and a failed margin-type request is
taken for one that was not needed. A call is faithful where neither makes a difference.
-/
namespace Binbot.SymbolSetup

open Async Data BinanceFuturesBroker

/-- A call of `ensure_symbol_ready`, and what becomes of its requests. -/
structure Call where
  symbol : Symbol
  leverage : ℕ
  marginType : MarginType
  reception : Reception

structure State where
  memory : BrokerState
  settings : SymbolSettings

section Machine

variable (maxLeverage : Symbol → ℕ) (broker : BinanceFuturesBroker BrokerState wireSig)

def run (s : State) (c : Call) : Coro.Outcome SymbolSettings BrokerState Unit :=
  (broker.ensureSymbolReady c.symbol c.leverage c.marginType).exec
    (SymbolSettings.serve maxLeverage c.reception) s.settings s.memory

def step (s : State) (c : Call) : Option State :=
  some ⟨(run maxLeverage broker s c).memory, (run maxLeverage broker s c).outside⟩

/-- A call that returns leaves what it was asked for in force; one that raises leaves no record
of the symbol. -/
structure Faithful (s : State) (c : Call) : Prop where
  returned : (run maxLeverage broker s c).result = .ok () →
    (run maxLeverage broker s c).outside.leverage c.symbol = min c.leverage (maxLeverage c.symbol) ∧
      (run maxLeverage broker s c).outside.marginType c.symbol = c.marginType
  raised : (run maxLeverage broker s c).result ≠ .ok () →
    (run maxLeverage broker s c).memory.configuredLeverageMargin =
        s.memory.configuredLeverageMargin ∧
      (run maxLeverage broker s c).memory.configuredLeverageMargin.get? c.symbol = none

end Machine

/-- A recorded symbol is asked for what is recorded. Where there is no record and the leverage
settles, the margin type settles too. -/
def Sound (maxLeverage : Symbol → ℕ) (s : State) (c : Call) : Prop :=
  match s.memory.configuredLeverageMargin.get? c.symbol with
  | some record => record = (min c.leverage (maxLeverage c.symbol), c.marginType)
  | none => Listed s.memory c.symbol c.reception →
      LeverageSettles maxLeverage c.reception c.symbol c.leverage →
      MarginSettles c.reception s.settings c.symbol c.marginType

instance (maxLeverage : Symbol → ℕ) (s : State) (c : Call) : Decidable (Sound maxLeverage s c) :=
  match known : s.memory.configuredLeverageMargin.get? c.symbol with
  | some record =>
    decidable_of_iff (record = (min c.leverage (maxLeverage c.symbol), c.marginType))
      (by simp [Sound, known])
  | none =>
    decidable_of_iff (Listed s.memory c.symbol c.reception →
      LeverageSettles maxLeverage c.reception c.symbol c.leverage →
        MarginSettles c.reception s.settings c.symbol c.marginType) (by simp [Sound, known])

/-- The records are in force, and a recorded symbol has its filters. -/
structure Inv (s : State) : Prop where
  inForce : ∀ symbol record, s.memory.configuredLeverageMargin.get? symbol = some record →
    s.settings.leverage symbol = record.1 ∧ s.settings.marginType symbol = record.2
  filters : ∀ symbol, s.memory.configuredLeverageMargin.contains symbol = true →
    s.memory.filters.contains symbol = true

section MarginType

variable (maxLeverage : Symbol → ℕ) (r : Reception) (w : SymbolSettings) (symbol : Symbol)
  (type : MarginType)

theorem asked_leverage : (w.serve maxLeverage r (.changeMarginType symbol type)).2.leverage =
    w.leverage := by
  rw [SymbolSettings.serve]
  split
  · rfl
  · dsimp only
    split
    · rfl
    · rfl

theorem asked_marginType_other {other : Symbol} (away : other ≠ symbol) :
    (w.serve maxLeverage r (.changeMarginType symbol type)).2.marginType other =
      w.marginType other := by
  rw [SymbolSettings.serve]
  split
  · rfl
  · dsimp only
    split
    · exact Function.update_of_ne away _ _
    · rfl

theorem asked_marginType_iff :
    (w.serve maxLeverage r (.changeMarginType symbol type)).2.marginType symbol = type ↔
      MarginSettles r w symbol type := by
  rw [SymbolSettings.serve, MarginSettles]
  split
  next already => exact iff_of_true already (.inl already)
  next away =>
    dsimp only
    split
    next arrives => exact iff_of_true (Function.update_self _ _ _) (.inr arrives)
    next lost => simp [away, lost]

end MarginType

/-- The settings once the margin-type request of the call has been dealt with. -/
def asked (maxLeverage : Symbol → ℕ) (s : State) (c : Call) : SymbolSettings :=
  (s.settings.serve maxLeverage c.reception (.changeMarginType c.symbol c.marginType)).2

/-- How a call can end. -/
inductive Ended (maxLeverage : Symbol → ℕ) (s : State) (c : Call) :
    Coro.Outcome SymbolSettings BrokerState Unit → Prop where
  | recorded {o} (record : ℕ × MarginType)
      (known : s.memory.configuredLeverageMargin.get? c.symbol = some record)
      (result : o.result = .ok ()) (settings : o.outside = s.settings)
      (records : o.memory.configuredLeverageMargin = s.memory.configuredLeverageMargin) :
      Ended maxLeverage s c o
  | unlisted {o} (absent : s.memory.configuredLeverageMargin.get? c.symbol = none)
      (unlisted : ¬ Listed s.memory c.symbol c.reception)
      (result : o.result ≠ .ok ()) (settings : o.outside = s.settings)
      (records : o.memory.configuredLeverageMargin = s.memory.configuredLeverageMargin) :
      Ended maxLeverage s c o
  | unsettled {o} (absent : s.memory.configuredLeverageMargin.get? c.symbol = none)
      (unsettled : ¬ LeverageSettles maxLeverage c.reception c.symbol c.leverage)
      (result : o.result ≠ .ok ())
      (settings : o.outside = asked maxLeverage s c ∨
        ∃ l, o.outside = (asked maxLeverage s c).setLeverage c.symbol l)
      (records : o.memory.configuredLeverageMargin = s.memory.configuredLeverageMargin) :
      Ended maxLeverage s c o
  | settled {o} (absent : s.memory.configuredLeverageMargin.get? c.symbol = none)
      (listed : Listed s.memory c.symbol c.reception)
      (settles : LeverageSettles maxLeverage c.reception c.symbol c.leverage)
      (result : o.result = .ok ())
      (settings : o.outside = (asked maxLeverage s c).setLeverage c.symbol
        (min c.leverage (maxLeverage c.symbol)))
      (records : o.memory.configuredLeverageMargin = s.memory.configuredLeverageMargin.set c.symbol
        (min c.leverage (maxLeverage c.symbol), c.marginType))
      (filters : o.memory.filters.contains c.symbol = true) : Ended maxLeverage s c o

/-- The call leaves the settings of other symbols alone. -/
theorem asked_elsewhere {maxLeverage : Symbol → ℕ} {s : State} {c : Call} {w : SymbolSettings}
    (settings : w = asked maxLeverage s c ∨
      ∃ l, w = (asked maxLeverage s c).setLeverage c.symbol l)
    {other : Symbol} (away : other ≠ c.symbol) :
    w.leverage other = s.settings.leverage other ∧
      w.marginType other = s.settings.marginType other := by
  have leverage := asked_leverage maxLeverage c.reception s.settings c.symbol c.marginType
  have marginType :=
    asked_marginType_other maxLeverage c.reception s.settings c.symbol c.marginType away
  rcases settings with rfl | ⟨l, rfl⟩
  · exact ⟨congrFun leverage other, marginType⟩
  · exact ⟨(Function.update_of_ne away _ _).trans (congrFun leverage other), marginType⟩

/-- A step that makes no record, and touches the settings of no recorded symbol. -/
theorem Inv.kept {s t : State} (inv : Inv s)
    (records : t.memory.configuredLeverageMargin = s.memory.configuredLeverageMargin)
    (filters : ∀ symbol, s.memory.filters.contains symbol = true →
      t.memory.filters.contains symbol = true)
    (same : ∀ symbol record, s.memory.configuredLeverageMargin.get? symbol = some record →
      t.settings.leverage symbol = s.settings.leverage symbol ∧
        t.settings.marginType symbol = s.settings.marginType symbol) : Inv t := by
  constructor
  · intro symbol record known
    rw [records] at known
    obtain ⟨leverage, marginType⟩ := same symbol record known
    rw [leverage, marginType]
    exact inv.inForce symbol record known
  · intro symbol there
    rw [records] at there
    exact filters symbol (inv.filters symbol there)

section Step

variable {maxLeverage : Symbol → ℕ} {broker : BinanceFuturesBroker BrokerState wireSig}
variable (wired : broker.client = wireClient BrokerState) {s : State} {c : Call}

include wired

variable (maxLeverage c) in
theorem run_ended (inv : Inv s) :
    Ended maxLeverage s c (run maxLeverage broker s c) ∧
      ∀ other, s.memory.filters.contains other = true →
        (run maxLeverage broker s c).memory.filters.contains other = true := by
  obtain ⟨ready, unready⟩ := ensureSymbolReady_exec maxLeverage c.reception s.settings s.memory
    c.symbol c.leverage c.marginType wired
  rw [Part.whole_view] at ready unready
  by_cases listed : Listed s.memory c.symbol c.reception
  · obtain ⟨m, records, loaded, filters, goes⟩ := ready listed
    rw [Part.whole_view] at records loaded filters
    rw [run, goes]
    cases known : s.memory.configuredLeverageMargin.get? c.symbol with
    | some record =>
      have kept : (Part.view m : BrokerState).configuredLeverageMargin.contains c.symbol =
          true := by
        rw [Part.whole_view, records]
        exact Dict.contains_of_get? known
      rw [configure_recorded _ _ _ _ kept]
      exact ⟨.recorded record known rfl rfl records, filters⟩
    | none =>
      have absent : (Part.view m : BrokerState).configuredLeverageMargin.contains c.symbol =
          false := by
        rw [Part.whole_view, records]
        exact Dict.contains_eq_false known
      obtain ⟨settled, failed⟩ := configure_asks maxLeverage c.reception s.settings m
        c.leverage c.marginType wired absent
      by_cases settles : LeverageSettles maxLeverage c.reception c.symbol c.leverage
      · rw [settled settles]
        refine ⟨.settled known listed settles rfl rfl ?_ loaded, filters⟩
        rw [Part.whole_set, Part.whole_view, BrokerState.recording, records]
      · obtain ⟨e, outside, ends, settings⟩ := failed settles
        rw [ends]
        exact ⟨.unsettled known settles (fun ok => by cases ok) settings records, filters⟩
  · obtain ⟨e, m, ends, records, filters⟩ := unready listed
    rw [run, ends]
    rw [Part.whole_view] at records filters
    cases known : s.memory.configuredLeverageMargin.get? c.symbol with
    | some record =>
      -- a recorded symbol has its filters, and is listed by them
      have there := inv.filters c.symbol (Dict.contains_of_get? known)
      exact absurd (.inl there) listed
    | none =>
      refine ⟨.unlisted known listed (fun ok => by cases ok) rfl records, fun other there => ?_⟩
      rw [filters]
      exact there

/-- A faithful call keeps the records in force. -/
theorem Inv.step (inv : Inv s) (faithful : Faithful maxLeverage broker s c) {t : State}
    (moved : step maxLeverage broker s c = some t) : Inv t := by
  cases moved
  obtain ⟨ended, filters⟩ := run_ended maxLeverage wired c inv
  cases ended with
  | recorded record known result settings records =>
    exact inv.kept records filters fun symbol _ _ => by rw [settings]; exact ⟨rfl, rfl⟩
  | unlisted absent unlisted result settings records =>
    exact inv.kept records filters fun symbol _ _ => by rw [settings]; exact ⟨rfl, rfl⟩
  | unsettled absent unsettled result settings records =>
    -- one symbol has been touched, and it is not recorded
    refine inv.kept records filters fun symbol record known => asked_elsewhere settings ?_
    rintro rfl
    rw [absent] at known
    cases known
  | settled absent listed settles result settings records loaded =>
    constructor
    · intro symbol record known
      rw [records, Dict.get?_set] at known
      by_cases here : symbol = c.symbol
      · -- the new record is in force because the call was faithful
        rw [if_pos here] at known
        cases known
        rw [here]
        exact faithful.returned result
      · rw [if_neg here] at known
        obtain ⟨leverage, marginType⟩ := asked_elsewhere (.inr ⟨_, settings⟩) here
        rw [leverage, marginType]
        exact inv.inForce symbol record known
    · intro symbol there
      rw [records, Dict.contains_set] at there
      rcases there with rfl | there
      · exact loaded
      · exact filters symbol (inv.filters symbol there)

/-- Given the invariant, the condition is what makes a call faithful. -/
theorem sound_iff (inv : Inv s) : Sound maxLeverage s c ↔ Faithful maxLeverage broker s c := by
  obtain ⟨ended, -⟩ := run_ended maxLeverage wired c inv
  rw [Sound]
  cases ended with
  | recorded record known result settings records =>
    obtain ⟨leverage, marginType⟩ := inv.inForce c.symbol record known
    rw [known]
    constructor
    · rintro rfl
      refine ⟨fun _ => ?_, fun raised => absurd result raised⟩
      rw [settings]
      exact ⟨leverage, marginType⟩
    · intro faithful
      obtain ⟨set, type⟩ := faithful.returned result
      rw [settings] at set type
      exact Prod.ext (leverage.symm.trans set) (marginType.symm.trans type)
  | unlisted absent unlisted result settings records =>
    rw [absent]
    refine iff_of_true (fun listed => absurd listed unlisted) ?_
    exact ⟨fun returned => absurd returned result, fun _ => ⟨records, records ▸ absent⟩⟩
  | unsettled absent unsettled result settings records =>
    rw [absent]
    refine iff_of_true (fun _ settles => absurd settles unsettled) ?_
    exact ⟨fun returned => absurd returned result, fun _ => ⟨records, records ▸ absent⟩⟩
  | settled absent listed settles result settings records filters =>
    -- the leverage in force is the right one, so it is up to the margin type
    rw [absent]
    have marginType : (run maxLeverage broker s c).outside.marginType c.symbol = c.marginType ↔
        MarginSettles c.reception s.settings c.symbol c.marginType := by
      rw [settings]
      exact asked_marginType_iff maxLeverage c.reception s.settings c.symbol c.marginType
    have leverage : (run maxLeverage broker s c).outside.leverage c.symbol =
        min c.leverage (maxLeverage c.symbol) := by
      rw [settings]
      exact Function.update_self _ _ _
    constructor
    · intro sound
      exact ⟨fun _ => ⟨leverage, marginType.mpr (sound listed settles)⟩,
        fun raised => absurd result raised⟩
    · intro faithful _ _
      exact marginType.mp (faithful.returned result).2

end Step

/-- In every run of calls on an adapter with no records, whatever fails, all calls are faithful if
and only if each recorded symbol is asked for what is recorded, and each call that settles the
leverage of a symbol settles its margin type. -/
theorem setup_faithful_iff (maxLeverage : Symbol → ℕ)
    {broker : BinanceFuturesBroker BrokerState wireSig}
    (wired : broker.client = wireClient BrokerState) {s : State}
    (fresh : s.memory.configuredLeverageMargin = .empty) (calls : List Call) :
    Machine.Meets (step maxLeverage broker) (fun s c => Sound maxLeverage s c) s calls ↔
      Machine.Meets (step maxLeverage broker) (Faithful maxLeverage broker) s calls := by
  apply Machine.meets_iff Inv
  · exact fun s c t inv faithful moved => inv.step wired faithful moved
  · exact fun s c inv => sound_iff wired inv
  · constructor
    · intro symbol record known
      rw [fresh] at known
      cases known
    · intro symbol there
      rw [fresh] at there
      cases there

/-- Filters are loaded and nothing has been set up. -/
def loaded : State where
  memory := { filters := .ofList [("BTCUSDT", demoRules.spec "BTCUSDT")] }
  settings := ⟨fun _ => 20, fun _ => .crossed⟩

/-- To set the leverage of a symbol whose maximum is ten. -/
def ask (leverage : ℕ) (fate : WireReq → Fate) : Call :=
  ⟨"BTCUSDT", leverage, .isolated, ⟨fate, []⟩⟩

/-- The first call fails, the second settles for the maximum and the third finds it recorded. -/
theorem retried_faithful :
    Machine.Meets (step (fun _ => 10) (adapter [] 20 .isolated 0))
      (Faithful (fun _ => 10) (adapter [] 20 .isolated 0)) loaded
      [ask 20 fun _ => .failed, ask 20 fun _ => .served, ask 20 fun _ => .served] :=
  (setup_faithful_iff (fun _ => 10) rfl rfl _).mp (by decide +kernel)

/-- To ask for five after ten has been recorded returns, and leaves ten in force. -/
theorem second_leverage_ignored :
    ¬ ∀ (maxLeverage : Symbol → ℕ) (broker : BinanceFuturesBroker BrokerState wireSig) (s : State)
        (calls : List Call), broker.client = wireClient BrokerState →
      s.memory.configuredLeverageMargin = .empty →
      Machine.Meets (step maxLeverage broker) (Faithful maxLeverage broker) s calls := by
  intro claim
  have faithful := claim (fun _ => 10) (adapter [] 20 .isolated 0) loaded
    [ask 10 fun _ => .served, ask 5 fun _ => .served] rfl rfl
  have inForce := ((faithful.2 _ rfl).1.returned rfl).1
  revert inForce
  decide +kernel

end Binbot.SymbolSetup
