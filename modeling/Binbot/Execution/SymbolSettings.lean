import Binbot.Execution.Exchange

/-!
# Leverage and margin type at the exchange

What the adapter assumes of the exchange when it sets a symbol up: a leverage request is taken
exactly if it is not above the symbol's maximum, a margin-type request exactly if it changes
something, and any request may fail for no reason of its own.
-/
namespace Binbot

open Async Data

/-- The settings in force for each symbol. -/
structure SymbolSettings where
  leverage : Symbol → ℕ
  marginType : Symbol → MarginType

/-- What becomes of a request: it is served, it does not arrive, or its response is lost. -/
inductive Fate where
  | served
  | failed
  | unconfirmed
  deriving DecidableEq, Repr

namespace Fate

variable {α : Type} (fate : Fate)

/-- The request has reached the exchange. -/
def arrives : Bool := fate ≠ .failed

def confirm (value : α) : Except String α :=
  if fate = .served then .ok value else .error "request failed"

@[simp] theorem confirm_served (value : α) : served.confirm value = .ok value := rfl

theorem confirm_failed {fate : Fate} (failed : fate ≠ .served) (value : α) :
    fate.confirm value = .error "request failed" := if_neg failed

end Fate

/-- The outside of one call: the fate of each request, and the listing at that time. -/
structure Reception where
  fate : WireReq → Fate
  info : List SymbolInfo

namespace SymbolSettings

def setLeverage (w : SymbolSettings) (symbol : Symbol) (leverage : ℕ) : SymbolSettings :=
  { w with leverage := Function.update w.leverage symbol leverage }

def setMarginType (w : SymbolSettings) (symbol : Symbol) (type : MarginType) : SymbolSettings :=
  { w with marginType := Function.update w.marginType symbol type }

/-- Setting a symbol up sends no other requests than these. -/
def serve (maxLeverage : Symbol → ℕ) (r : Reception) (w : SymbolSettings) :
    (q : WireReq) → Answer wireSig q × SymbolSettings
  | .exchangeInfo => ((r.fate .exchangeInfo).confirm r.info, w)
  | .changeMarginType symbol type =>
    if w.marginType symbol = type then (.error "No need to change margin type.", w)
    else ((r.fate (.changeMarginType symbol type)).confirm (),
      if (r.fate (.changeMarginType symbol type)).arrives then w.setMarginType symbol type else w)
  -- a lost response leaves the new leverage in force
  | .changeLeverage symbol leverage =>
    if maxLeverage symbol < leverage then (.error "Leverage is not valid", w)
    else ((r.fate (.changeLeverage symbol leverage)).confirm (),
      if (r.fate (.changeLeverage symbol leverage)).arrives then w.setLeverage symbol leverage
      else w)
  | .leverageBracket symbol => ((r.fate (.leverageBracket symbol)).confirm (maxLeverage symbol), w)
  | _ => (.error "no such request", w)

end SymbolSettings

/-- The memory with a symbol's settings recorded. -/
def BrokerState.recording (m : BrokerState) (symbol : Symbol) (leverage : ℕ) (type : MarginType) :
    BrokerState :=
  { m with configuredLeverageMargin := m.configuredLeverageMargin.set symbol (leverage, type) }

namespace BinanceFuturesBroker

variable {σ : Type} [Part σ BrokerState]

/-- The listing that `ensure_symbol_ready` looks a symbol up in, if it gets one. -/
def listing (m : BrokerState) (symbol : Symbol) (r : Reception) : Option SymbolInfo :=
  if m.exchangeInfoBySymbol.contains symbol then m.exchangeInfoBySymbol.get? symbol
  else if r.fate .exchangeInfo = .served then
    (Dict.ofList (r.info.map fun s => (s.symbol, s))).get? symbol
  else none

/-- The requests for the leverage end well: the first one, or, above the maximum, the two that
follow it. -/
def LeverageSettles (maxLeverage : Symbol → ℕ) (r : Reception) (symbol : Symbol)
    (leverage : ℕ) : Prop :=
  if leverage ≤ maxLeverage symbol then r.fate (.changeLeverage symbol leverage) = .served
  else r.fate (.leverageBracket symbol) = .served ∧
    r.fate (.changeLeverage symbol (maxLeverage symbol)) = .served

/-- The margin type is in force already, or the request for it arrives. -/
def MarginSettles (r : Reception) (w : SymbolSettings) (symbol : Symbol) (type : MarginType) :
    Prop :=
  w.marginType symbol = type ∨ (r.fate (.changeMarginType symbol type)).arrives = true

instance (maxLeverage : Symbol → ℕ) (r : Reception) (symbol : Symbol) (leverage : ℕ) :
    Decidable (LeverageSettles maxLeverage r symbol leverage) :=
  inferInstanceAs (Decidable (if leverage ≤ maxLeverage symbol then
      r.fate (.changeLeverage symbol leverage) = .served
    else r.fate (.leverageBracket symbol) = .served ∧
      r.fate (.changeLeverage symbol (maxLeverage symbol)) = .served))

instance (r : Reception) (w : SymbolSettings) (symbol : Symbol) (type : MarginType) :
    Decidable (MarginSettles r w symbol type) :=
  inferInstanceAs (Decidable (_ ∨ _))

section Configure

variable {broker : BinanceFuturesBroker σ wireSig} (maxLeverage : Symbol → ℕ) (r : Reception)
variable (w : SymbolSettings) (s : σ) {symbol : Symbol} {leverage : ℕ} {type : MarginType}

/-- Once a symbol is recorded, nothing is asked for it any more. -/
theorem configure_recorded
    (recorded : (Part.view s : BrokerState).configuredLeverageMargin.contains symbol = true) :
    (broker.configureLeverageAndMargin symbol leverage type).exec
      (SymbolSettings.serve maxLeverage r) w s = ⟨.ok (), w, s⟩ := by
  simp [configureLeverageAndMargin, recorded]

omit [Part σ BrokerState] in
/-- Whatever comes of the margin-type request, the call goes on. -/
theorem marginType_swallowed :
    (tryCatch ((wireClient σ).changeMarginType symbol type) fun _ => pure ()).exec
        (SymbolSettings.serve maxLeverage r) w s =
      ⟨.ok (), (w.serve maxLeverage r (.changeMarginType symbol type)).2, s⟩ := by
  have asked : ((wireClient σ).changeMarginType symbol type).exec
      (SymbolSettings.serve maxLeverage r) w s =
        ⟨(w.serve maxLeverage r (.changeMarginType symbol type)).1,
          (w.serve maxLeverage r (.changeMarginType symbol type)).2, s⟩ :=
    Coro.exec_request _ _ _ _
  rw [Coro.exec_tryCatch, asked]
  cases (w.serve maxLeverage r (.changeMarginType symbol type)).1 with
  | ok => rfl
  | error => rfl

omit [Part σ BrokerState] in
theorem maxLeverageFor_exec (wired : broker.client = wireClient σ) :
    (broker.maxLeverageFor symbol).exec (SymbolSettings.serve maxLeverage r) w s =
      ⟨.ok (if r.fate (.leverageBracket symbol) = .served then some (maxLeverage symbol) else none),
        w, s⟩ := by
  have asked : ((wireClient σ).leverageBracket symbol).exec
      (SymbolSettings.serve maxLeverage r) w s =
        ⟨(r.fate (.leverageBracket symbol)).confirm (maxLeverage symbol), w, s⟩ :=
    Coro.exec_request _ _ _ _
  rw [maxLeverageFor, wired, Coro.exec_tryCatch, Coro.exec_bind, asked]
  by_cases served : r.fate (.leverageBracket symbol) = .served
  · simp [served]
  · simp [served, Fate.confirm_failed served]

omit [Part σ BrokerState] in
theorem changeLeverage_exec (asked : ℕ) :
    ((wireClient σ).changeLeverage symbol asked).exec (SymbolSettings.serve maxLeverage r) w s =
      ⟨(w.serve maxLeverage r (.changeLeverage symbol asked)).1,
        (w.serve maxLeverage r (.changeLeverage symbol asked)).2, s⟩ :=
  Coro.exec_request _ _ _ _

omit [Part σ BrokerState] in
theorem serve_changeLeverage {asked : ℕ} (within : asked ≤ maxLeverage symbol) :
    w.serve maxLeverage r (.changeLeverage symbol asked) =
      ((r.fate (.changeLeverage symbol asked)).confirm (),
        if (r.fate (.changeLeverage symbol asked)).arrives then w.setLeverage symbol asked
        else w) :=
  if_neg (not_lt.mpr within)

omit [Part σ BrokerState] in
theorem serve_changeLeverage_above {asked : ℕ} (above : maxLeverage symbol < asked) :
    w.serve maxLeverage r (.changeLeverage symbol asked) = (.error "Leverage is not valid", w) :=
  if_pos above

omit [Part σ BrokerState] in
theorem serve_changeLeverage_outside (symbol : Symbol) (asked : ℕ) :
    (w.serve maxLeverage r (.changeLeverage symbol asked)).2 = w ∨
      ∃ l, (w.serve maxLeverage r (.changeLeverage symbol asked)).2 = w.setLeverage symbol l := by
  rw [SymbolSettings.serve]
  split
  · exact .inl rfl
  · dsimp only
    split
    · exact .inr ⟨asked, rfl⟩
    · exact .inl rfl

variable (leverage type) in
/-- A symbol that is not recorded: the call records what it has set if the leverage settles, and
raises without a record otherwise. -/
theorem configure_asks (wired : broker.client = wireClient σ)
    (absent : (Part.view s : BrokerState).configuredLeverageMargin.contains symbol = false) :
    let asked := (w.serve maxLeverage r (.changeMarginType symbol type)).2
    let o := (broker.configureLeverageAndMargin symbol leverage type).exec
      (SymbolSettings.serve maxLeverage r) w s
    (LeverageSettles maxLeverage r symbol leverage →
      o = ⟨.ok (), asked.setLeverage symbol (min leverage (maxLeverage symbol)),
        Part.set s ((Part.view s : BrokerState).recording symbol
          (min leverage (maxLeverage symbol)) type)⟩) ∧
      (¬ LeverageSettles maxLeverage r symbol leverage → ∃ e outside, o = ⟨.error e, outside, s⟩ ∧
        (outside = asked ∨ ∃ l, outside = asked.setLeverage symbol l)) := by
  intro asked o
  have run : o = (broker.configureLeverageAndMargin symbol leverage type).exec
      (SymbolSettings.serve maxLeverage r) w s := rfl
  rw [configureLeverageAndMargin, wired, Coro.exec_bind, Coro.exec_view, Coro.Outcome.andThen_ok,
    absent] at run
  rw [if_neg Bool.false_ne_true, Coro.exec_bind, marginType_swallowed, Coro.Outcome.andThen_ok,
    Coro.exec_bind, Coro.exec_tryCatch, Coro.exec_bind, changeLeverage_exec] at run
  change o = ((Coro.Outcome.mk (asked.serve maxLeverage r _).1 (asked.serve maxLeverage r _).2
    s).andThen _ |>.orElse _).andThen _ at run
  rcases le_or_gt leverage (maxLeverage symbol) with within | above
  · -- the first request is within the maximum: all depends on whether it is served
    rw [LeverageSettles, if_pos within, min_eq_left within]
    rw [serve_changeLeverage _ _ _ within] at run
    constructor
    · intro served
      rw [served] at run
      exact run
    · intro failed
      -- the bracket cannot help: it is not below what was asked for
      rw [Fate.confirm_failed failed, Coro.Outcome.andThen_error, Coro.Outcome.orElse_error,
        Coro.exec_bind, maxLeverageFor_exec _ _ _ _ wired, Coro.Outcome.andThen_ok] at run
      have outside := serve_changeLeverage_outside maxLeverage r asked symbol leverage
      rw [serve_changeLeverage _ _ _ within] at outside
      by_cases looked_up : r.fate (.leverageBracket symbol) = .served
      · simp only [looked_up, if_true, if_neg (not_lt.mpr within), Coro.exec_throw,
          Coro.Outcome.andThen_error] at run
        exact ⟨_, _, run, outside⟩
      · simp only [looked_up, if_false, Coro.exec_throw, Coro.Outcome.andThen_error] at run
        exact ⟨_, _, run, outside⟩
  · -- the first request is refused, and the bracket is looked up
    rw [LeverageSettles, if_neg (not_le.mpr above), min_eq_right above.le]
    rw [serve_changeLeverage_above _ _ _ above, Coro.Outcome.andThen_error,
      Coro.Outcome.orElse_error, Coro.exec_bind, maxLeverageFor_exec _ _ _ _ wired,
      Coro.Outcome.andThen_ok] at run
    by_cases looked_up : r.fate (.leverageBracket symbol) = .served
    · -- the maximum itself is asked for next
      simp only [looked_up, if_true, if_pos above, Coro.exec_bind, changeLeverage_exec,
        serve_changeLeverage _ _ _ le_rfl] at run
      constructor
      · rintro ⟨-, served⟩
        rw [served] at run
        exact run
      · intro unsettled
        have failed : r.fate (.changeLeverage symbol (maxLeverage symbol)) ≠ .served :=
          fun served => unsettled ⟨looked_up, served⟩
        simp only [Fate.confirm_failed failed, Coro.Outcome.andThen_error] at run
        have outside :=
          serve_changeLeverage_outside maxLeverage r asked symbol (maxLeverage symbol)
        rw [serve_changeLeverage _ _ _ le_rfl] at outside
        exact ⟨_, _, run, outside⟩
    · -- without a bracket the error of the first request goes up
      refine ⟨fun settles => absurd settles.1 looked_up, fun _ => ?_⟩
      simp only [looked_up, if_false, Coro.exec_throw, Coro.Outcome.andThen_error] at run
      exact ⟨_, _, run, .inl rfl⟩

end Configure

section Ready

variable {broker : BinanceFuturesBroker σ wireSig} (maxLeverage : Symbol → ℕ) (r : Reception)
variable (w : SymbolSettings) (s : σ) (symbol : Symbol) (leverage : ℕ) (type : MarginType)

/-- The call gets the symbol's filters. -/
def Listed (m : BrokerState) (symbol : Symbol) (r : Reception) : Prop :=
  m.filters.contains symbol = true ∨ (listing m symbol r).isSome = true

instance (m : BrokerState) (symbol : Symbol) (r : Reception) : Decidable (Listed m symbol r) :=
  inferInstanceAs (Decidable (_ ∨ _))

theorem loadFilters_found {data : SymbolInfo}
    (found : (Part.view s : BrokerState).exchangeInfoBySymbol.get? symbol = some data) :
    ∃ s', (loadFilters symbol : Coro σ wireSig Unit).exec (SymbolSettings.serve maxLeverage r) w s =
        ⟨.ok (), w, s'⟩ ∧
      (Part.view s' : BrokerState).configuredLeverageMargin =
        (Part.view s : BrokerState).configuredLeverageMargin ∧
      (Part.view s' : BrokerState).filters =
        (Part.view s : BrokerState).filters.set symbol (parseFilters symbol data) := by
  rw [loadFilters, Coro.exec_bind, Coro.exec_view, Coro.Outcome.andThen_ok, found]
  refine ⟨_, Coro.exec_update _ _ _ _, ?_, ?_⟩
  · rw [Part.view_set]
  · rw [Part.view_set]

theorem loadFilters_absent
    (absent : (Part.view s : BrokerState).exchangeInfoBySymbol.get? symbol = none) :
    ∃ e, (loadFilters symbol : Coro σ wireSig Unit).exec (SymbolSettings.serve maxLeverage r) w s =
      ⟨.error e, w, s⟩ := by
  rw [loadFilters, Coro.exec_bind, Coro.exec_view, Coro.Outcome.andThen_ok, absent]
  exact ⟨_, rfl⟩

/-- The listing is asked for if the symbol is not in the one that is cached. -/
theorem refresh_exec (wired : broker.client = wireClient σ) :
    let m : BrokerState := Part.view s
    let o := (Coro.onlyIf (!m.exchangeInfoBySymbol.contains symbol)
      broker.refreshExchangeInfo).exec (SymbolSettings.serve maxLeverage r) w s
    (∃ s', o = ⟨.ok (), w, s'⟩ ∧
        (Part.view s' : BrokerState).configuredLeverageMargin = m.configuredLeverageMargin ∧
        (Part.view s' : BrokerState).filters = m.filters ∧
        (Part.view s' : BrokerState).exchangeInfoBySymbol.get? symbol = listing m symbol r) ∨
      listing m symbol r = none ∧ ∃ e, o = ⟨.error e, w, s⟩ := by
  intro m o
  have run : o = (Coro.onlyIf (!m.exchangeInfoBySymbol.contains symbol)
    broker.refreshExchangeInfo).exec (SymbolSettings.serve maxLeverage r) w s := rfl
  cases cached : m.exchangeInfoBySymbol.contains symbol with
  | true =>
    rw [cached] at run
    exact .inl ⟨s, run, rfl, rfl, (if_pos cached).symm⟩
  | false =>
    have info : ((wireClient σ).exchangeInfo).exec (SymbolSettings.serve maxLeverage r) w s =
        ⟨(r.fate .exchangeInfo).confirm r.info, w, s⟩ := Coro.exec_request _ _ _ _
    rw [cached, Bool.not_false, Coro.onlyIf, if_pos rfl, refreshExchangeInfo, wired,
      Coro.exec_bind, info] at run
    rw [listing, cached, if_neg Bool.false_ne_true]
    by_cases served : r.fate .exchangeInfo = .served
    · rw [served, Fate.confirm_served, Coro.Outcome.andThen_ok, Coro.exec_update] at run
      refine .inl ⟨_, run, ?_, ?_, ?_⟩
      · rw [Part.view_set]
      · rw [Part.view_set]
      · rw [Part.view_set, if_pos served]
    · rw [Fate.confirm_failed served, Coro.Outcome.andThen_error] at run
      exact .inr ⟨if_neg served, _, run⟩

/-- With filters the call goes on to the settings, and the memory has changed in nothing that
they depend on; without filters it raises before it has asked for any. -/
theorem ensureSymbolReady_exec (wired : broker.client = wireClient σ) :
    let m : BrokerState := Part.view s
    let o := (broker.ensureSymbolReady symbol leverage type).exec
      (SymbolSettings.serve maxLeverage r) w s
    (Listed m symbol r → ∃ s',
        (Part.view s' : BrokerState).configuredLeverageMargin = m.configuredLeverageMargin ∧
        (Part.view s' : BrokerState).filters.contains symbol = true ∧
        (∀ other, m.filters.contains other = true →
          (Part.view s' : BrokerState).filters.contains other = true) ∧
        o = (broker.configureLeverageAndMargin symbol leverage type).exec
          (SymbolSettings.serve maxLeverage r) w s') ∧
      (¬ Listed m symbol r → ∃ e s', o = ⟨.error e, w, s'⟩ ∧
        (Part.view s' : BrokerState).configuredLeverageMargin = m.configuredLeverageMargin ∧
        (Part.view s' : BrokerState).filters = m.filters) := by
  intro m o
  have run : o = (broker.ensureSymbolReady symbol leverage type).exec
      (SymbolSettings.serve maxLeverage r) w s := rfl
  rw [ensureSymbolReady, Coro.exec_bind, Coro.exec_view, Coro.Outcome.andThen_ok] at run
  dsimp only at run
  by_cases loaded : m.filters.contains symbol = true
  · rw [if_pos loaded] at run
    exact ⟨fun _ => ⟨s, rfl, loaded, fun _ there => there, run⟩,
      fun unlisted => absurd (.inl loaded) unlisted⟩
  · -- the filters come from the listing, which may have to be asked for first
    rw [if_neg loaded, Coro.exec_bind] at run
    rcases refresh_exec maxLeverage r w s symbol wired with
      ⟨s', refreshed, records, filters, found⟩ | ⟨none, e, failed⟩
    · rw [refreshed, Coro.Outcome.andThen_ok, Coro.exec_bind] at run
      cases listed : listing m symbol r with
      | some data =>
        obtain ⟨s'', loads, kept, parsed⟩ :=
          loadFilters_found maxLeverage r w s' symbol (found.trans listed)
        rw [loads, Coro.Outcome.andThen_ok] at run
        rw [filters] at parsed
        refine ⟨fun _ => ⟨s'', kept.trans records, ?_, ?_, run⟩, fun unlisted => ?_⟩
        · rw [parsed, Dict.contains_set]
          exact .inl rfl
        · intro other there
          rw [parsed, Dict.contains_set]
          exact .inr there
        · refine absurd (.inr ?_) unlisted
          rw [listed]
          rfl
      | none =>
        -- a listing without the symbol raises as well
        obtain ⟨e, absent⟩ := loadFilters_absent maxLeverage r w s' symbol (found.trans listed)
        rw [absent, Coro.Outcome.andThen_error] at run
        refine ⟨fun ready => ?_, fun _ => ⟨e, s', run, records, filters⟩⟩
        rcases ready with there | there
        · exact absurd there loaded
        · rw [listed] at there
          cases there
    · rw [failed, Coro.Outcome.andThen_error] at run
      refine ⟨fun ready => ?_, fun _ => ⟨e, s, run, rfl, rfl⟩⟩
      rcases ready with there | there
      · exact absurd there loaded
      · rw [none] at there
        cases there

/-- The call records the symbol: it is not recorded yet, it is listed and its leverage settles. -/
def Records (maxLeverage : Symbol → ℕ) (r : Reception) (m : BrokerState) (symbol : Symbol)
    (leverage : ℕ) : Prop :=
  m.configuredLeverageMargin.contains symbol = false ∧ Listed m symbol r ∧
    LeverageSettles maxLeverage r symbol leverage

instance (m : BrokerState) : Decidable (Records maxLeverage r m symbol leverage) :=
  inferInstanceAs (Decidable (_ ∧ _))

theorem ensureSymbolReady_records (wired : broker.client = wireClient σ) :
    let m : BrokerState := Part.view s
    let o := (broker.ensureSymbolReady symbol leverage type).exec
      (SymbolSettings.serve maxLeverage r) w s
    (Part.view o.memory : BrokerState).configuredLeverageMargin =
      if Records maxLeverage r m symbol leverage then
        m.configuredLeverageMargin.set symbol (min leverage (maxLeverage symbol), type)
      else m.configuredLeverageMargin := by
  intro m o
  obtain ⟨ready, unready⟩ := ensureSymbolReady_exec maxLeverage r w s symbol leverage type wired
  by_cases listed : Listed m symbol r
  · obtain ⟨s', records, -, -, goes⟩ := ready listed
    change o = _ at goes
    rw [goes]
    cases known : m.configuredLeverageMargin.contains symbol with
    | true =>
      rw [configure_recorded maxLeverage r w s' (by rw [records]; exact known), records, if_neg]
      exact fun unknown => by cases known.symm.trans unknown.1
    | false =>
      obtain ⟨settled, failed⟩ :=
        configure_asks maxLeverage r w s' leverage type wired (by rw [records]; exact known)
      by_cases settles : LeverageSettles maxLeverage r symbol leverage
      · rw [settled settles, Part.view_set, BrokerState.recording, if_pos ⟨known, listed, settles⟩,
          records]
      · obtain ⟨e, outside, ends, -⟩ := failed settles
        rw [ends, records, if_neg fun recorded => settles recorded.2.2]
  · obtain ⟨e, s', ends, records, -⟩ := unready listed
    change o = _ at ends
    rw [ends, records, if_neg fun recorded => listed recorded.2.1]

end Ready

end BinanceFuturesBroker

end Binbot
