import Binbot.Execution.Exchange

/-!
# Working orders of a symbol

What a request and a move do to the orders that work in one symbol and to its net
position, and when a whole set of working orders can only reduce the position.
-/
namespace Binbot

open Async Data

/-- `a` lies between flat and `b`, both included. -/
def Between (a b : ℤ) : Prop := 0 ≤ a ∧ a ≤ b ∨ b ≤ a ∧ a ≤ 0

namespace Between

theorem refl (a : ℤ) : Between a a := by
  rcases le_total 0 a with long | short
  · exact .inl ⟨long, le_refl a⟩
  · exact .inr ⟨le_refl a, short⟩

theorem zero (a : ℤ) : Between 0 a := by
  rcases le_total 0 a with long | short
  · exact .inl ⟨le_refl 0, long⟩
  · exact .inr ⟨short, le_refl 0⟩

theorem trans {a b c : ℤ} (first : Between a b) (second : Between b c) : Between a c := by
  rw [Between] at *
  omega

end Between

/-- A map that leaves what it lets through is a filter. -/
private theorem filter_map_sieve {α : Type} {f : α → α} {p q : α → Bool}
    (through : ∀ a, q a = true → f a = a) (same : ∀ a, p (f a) = q a) (l : List α) :
    (l.map f).filter p = l.filter q := by
  induction l with
  | nil => rfl
  | cons a rest ih =>
    rw [List.map_cons, List.filter_cons, List.filter_cons, same, ih]
    cases passes : q a with
    | true => rw [through a passes]
    | false => rfl

namespace Exchange

variable (rules : ExchangeRules) (x : Exchange)

def working (s : Symbol) : List ExchangeOrder :=
  x.orders.filter fun o => o.symbol = s ∧ o.standing = .working

theorem mem_working (s : Symbol) (o : ExchangeOrder) :
    o ∈ x.working s ↔ o ∈ x.orders ∧ o.symbol = s ∧ o.standing = .working := by
  simp [working]

theorem working_endOrders (standing : Standing) (status : WireStatus)
    (test : ExchangeOrder → Bool) (ends : standing ≠ .working) (s : Symbol) :
    (x.endOrders rules standing status test).working s =
      (x.working s).filter fun o => !test o := by
  rw [working, working, List.filter_filter]
  apply filter_map_sieve
  · intro o passes
    rw [Bool.and_eq_true, Bool.not_eq_true'] at passes
    simp [passes.1]
  · intro o
    by_cases working : o.standing = .working
    · cases tested : test o with
      | true => simp [working, ends]
      | false => simp [working]
    · simp [working]

theorem working_accept {params : OrderParams} {lots : ℤ}
    (plain : wireLots rules params.symbol params.order = some lots) (s : Symbol) :
    (x.accept rules params).working s = x.working s ++
      if params.symbol = s then
        [⟨params.newClientOrderId, params.symbol, params.side, params.order.orderType, lots, 0,
          .working⟩]
      else [] := by
  simp only [accept, plain, working, List.filter_append]
  by_cases here : params.symbol = s
  · simp [here]
  · simp [here]

theorem working_accept_stop {params : OrderParams}
    (stop : wireLots rules params.symbol params.order = none) (s : Symbol) :
    (x.accept rules params).working s = x.working s := by
  simp only [accept, stop, working]

theorem position_accept (params : OrderParams) :
    (x.accept rules params).position = x.position := by
  rw [accept]
  split
  · rfl
  · rfl

/-- A fill that leaves something of the order. -/
theorem working_fillOrder_part {o : ExchangeOrder} (works : o.standing = .working) {lots : ℤ}
    (part : o.filled + lots ≠ o.quantity) (detail : FillDetail) (s : Symbol) :
    (x.fillOrder rules o lots detail).working s =
      (x.working s).map fun other => if other = o then o.fill lots else other := by
  simp only [working, fillOrder, List.filter_map]
  congr 1
  apply List.filter_congr
  intro other _
  by_cases same : other = o
  · subst same
    simp [ExchangeOrder.fill, part, works]
  · simp [same]

/-- A fill that completes the order. -/
theorem working_fillOrder_whole {o : ExchangeOrder} {lots : ℤ}
    (whole : o.filled + lots = o.quantity) (detail : FillDetail) (s : Symbol) :
    (x.fillOrder rules o lots detail).working s = (x.working s).filter (· ≠ o) := by
  rw [working, working, List.filter_filter]
  apply filter_map_sieve
  · intro other passes
    rw [Bool.and_eq_true, decide_eq_true_eq] at passes
    simp [passes.1]
  · intro other
    by_cases same : other = o
    · subst same
      simp [ExchangeOrder.fill, whole]
    · simp [same]

theorem findWorking_spec {id : OrderId} {o : ExchangeOrder} (found : x.findWorking id = some o) :
    o ∈ x.working o.symbol := by
  have member := List.mem_of_find?_eq_some found
  have passes := List.find?_some found
  rw [decide_eq_true_eq] at passes
  exact (x.mem_working _ _).mpr ⟨member, rfl, passes.2⟩

/-! ## Reducing sets of orders -/

/-- Whatever part of the working orders fills, each symbol ends between flat and
where it is. -/
def Reduces : Prop :=
  ∀ s, ∀ some : List ExchangeOrder, some.Sublist (x.working s) →
    Between (x.position s + (some.map ExchangeOrder.signedRemaining).sum) (x.position s)

/-- At most one order works in the symbol, and it is for all of the position. -/
def Closing (s : Symbol) : Prop :=
  x.working s = [] ∨ ∃ o, x.working s = [o] ∧ o.signedRemaining = -x.position s

theorem reduces_of_closing (closing : ∀ s, x.Closing s) : x.Reduces := by
  intro s some sub
  rcases closing s with none | ⟨o, only, whole⟩
  · rw [none, List.sublist_nil] at sub
    subst sub
    simpa using Between.refl _
  · rw [only, List.sublist_singleton] at sub
    rcases sub with rfl | rfl
    · simpa using Between.refl _
    · simpa [whole] using Between.zero _

theorem closing_endOrders (closing : ∀ s, x.Closing s) (standing : Standing)
    (status : WireStatus) (test : ExchangeOrder → Bool) (ends : standing ≠ .working)
    (s : Symbol) : (x.endOrders rules standing status test).Closing s := by
  rw [Closing]
  rw [x.working_endOrders rules standing status test ends]
  rcases closing s with none | ⟨o, only, whole⟩
  · exact .inl (by rw [none]; rfl)
  · rw [only]
    cases tested : test o with
    | true => exact .inl (by simp [tested])
    | false => exact .inr ⟨o, by simp [tested], whole⟩

/-- A fill of a closing order leaves a closing order for the rest, or none. -/
theorem closing_fillOrder (closing : ∀ s, x.Closing s) {o : ExchangeOrder}
    (works : o ∈ x.working o.symbol) {lots : ℤ} (positive : 0 < lots)
    (within : lots ≤ o.quantity - o.filled) (detail : FillDetail) (s : Symbol) :
    (x.fillOrder rules o lots detail).Closing s ∧
      Between ((x.fillOrder rules o lots detail).position s) (x.position s) := by
  have standing := ((x.mem_working _ _).mp works).2.2
  -- the filled order is the symbol's only one, and closes the whole position
  obtain ⟨o', only, whole⟩ : ∃ o', x.working o.symbol = [o'] ∧
      o'.signedRemaining = -x.position o.symbol := by
    rcases closing o.symbol with none | one
    · rw [none] at works
      cases works
    · exact one
  obtain rfl : o = o' := by
    rw [only] at works
    exact List.mem_singleton.mp works
  rw [ExchangeOrder.signedRemaining] at whole
  by_cases here : s = o.symbol
  · subst here
    have moved : (x.fillOrder rules o lots detail).position o.symbol =
        x.position o.symbol + o.side.sign * lots := by simp [fillOrder]
    constructor
    · rw [Closing]
      rw [moved]
      -- a whole fill leaves no order, a part leaves one for the rest of the position
      by_cases done : o.filled + lots = o.quantity
      · left
        rw [x.working_fillOrder_whole rules done, only]
        simp
      · right
        refine ⟨o.fill lots, ?_, ?_⟩
        · rw [x.working_fillOrder_part rules standing done, only]
          simp
        · simp only [ExchangeOrder.signedRemaining, ExchangeOrder.fill]
          rw [show o.quantity - (o.filled + lots) = o.quantity - o.filled - lots by ring,
            mul_sub, whole]
          ring
    · rw [moved]
      rw [Between]
      cases side : o.side with
      | buy => rw [side, OrderSide.sign] at whole; simp only [OrderSide.sign]; omega
      | sell => rw [side, OrderSide.sign] at whole; simp only [OrderSide.sign]; omega
  · -- the other symbols do not notice
    have unmoved : (x.fillOrder rules o lots detail).position s = x.position s := by
      simp [fillOrder, here]
    have others : ∀ other ∈ x.working s, other ≠ o := by
      rintro other member rfl
      exact here ((x.mem_working _ _).mp member).2.1.symm
    have same : (x.fillOrder rules o lots detail).working s = x.working s := by
      by_cases done : o.filled + lots = o.quantity
      · rw [x.working_fillOrder_whole rules done, List.filter_eq_self]
        intro other member
        simpa using others other member
      · rw [x.working_fillOrder_part rules standing done]
        conv_rhs => rw [← List.map_id (x.working s)]
        apply List.map_congr_left
        intro other member
        simp [others other member]
    rw [Closing]
    rw [same, unmoved]
    exact ⟨closing s, Between.refl _⟩

/-- A stop that triggers while nothing works in its symbol. -/
theorem closing_triggerStop (closing : ∀ s, x.Closing s) {stop : NativeStop}
    (free : x.working stop.symbol = []) (detail : FillDetail) (s : Symbol) :
    (x.triggerStop rules stop detail).Closing s ∧
      Between ((x.triggerStop rules stop detail).position s) (x.position s) := by
  have same : (x.triggerStop rules stop detail).working s = x.working s := rfl
  rw [Closing]
  rw [same]
  by_cases here : s = stop.symbol
  · subst here
    refine ⟨.inl free, ?_⟩
    simpa [triggerStop] using Between.zero _
  · have unmoved : (x.triggerStop rules stop detail).position s = x.position s := by
      simp [triggerStop, here]
    rw [unmoved]
    exact ⟨closing s, Between.refl _⟩

/-- Where an order stands once part of another, or of it, has filled. -/
theorem mem_fillOrder {o other : ExchangeOrder} (member : other ∈ x.orders) (lots : ℤ)
    (detail : FillDetail) : (if other = o then o.fill lots else other) ∈
      (x.fillOrder rules o lots detail).orders :=
  List.mem_map_of_mem (f := fun other => if other = o then o.fill lots else other) member

end Exchange

end Binbot
