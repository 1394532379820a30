import Binbot.Machine.Run
import Binbot.Risk.RiskEngine
import Mathlib.Algebra.BigOperators.Group.Finset.Basic
import Mathlib.Algebra.BigOperators.Ring.Finset
import Mathlib.Algebra.Order.BigOperators.Group.Finset
import Mathlib.Data.Rat.Floor

/-!
# The margin gate and the margin already in use

The gate weighs an order against the whole net liquidation value, with the margin of the order's
own symbol only: it lets a position grow to the largest that the account could carry by itself.
The margin in use is accounted for exactly where the account has room for that position (and,
were a margin negative, for the smallest that passes).
-/
namespace Binbot

open Data Machine

namespace MarginCalculator

variable (gate : MarginCalculator)

/-- The added contracts fit in what the account has left. -/
def Fits (req : MarginRequirement) (nlv : ℚ) (used : MarginUse) (added : ℤ) : Prop :=
  used.initial + gate.bufferedInitial req added ≤ nlv ∧
    used.maintenance + gate.bufferedMaintenance req added ≤ nlv

/-- The margin of one contract that the net liquidation value has to cover. -/
def contractMargin (req : MarginRequirement) : ℚ :=
  max (gate.bufferedInitial req 1) (gate.bufferedMaintenance req 1)

/-- The largest position whose margin the net liquidation value covers. -/
def largest (req : MarginRequirement) (nlv : ℚ) : ℤ := ⌊nlv / gate.contractMargin req⌋

/-- The smallest and the largest position above `held` that the gate lets through. Without a
margin there is no largest one. -/
def extremes (req : MarginRequirement) (nlv : ℚ) (held : ℤ) : List ℤ :=
  if 0 < gate.contractMargin req then
    if held < gate.largest req nlv then [held + 1, gate.largest req nlv] else []
  else if 0 ≤ nlv then [held + 1]
  else if gate.contractMargin req = 0 then []
  else [max (held + 1) ⌈nlv / gate.contractMargin req⌉]

section Gate

variable {gate} {req : MarginRequirement} {nlv : ℚ} {used : MarginUse}

theorem bufferedInitial_eq (n : ℤ) :
    gate.bufferedInitial req n = n * gate.bufferedInitial req 1 := by
  simp only [bufferedInitial, Int.cast_one]
  ring

theorem bufferedMaintenance_eq (n : ℤ) :
    gate.bufferedMaintenance req n = n * gate.bufferedMaintenance req 1 := by
  simp only [bufferedMaintenance, Int.cast_one]
  ring

/-- The gate covers a position whatever is in use. -/
theorem passed_iff {symbol : Symbol} (found : gate.schedule.get? symbol = some req)
    (add current : ℤ) :
    (gate.checkOrder symbol add current nlv used).passed = true ↔
      |current + add| * gate.contractMargin req ≤ nlv := by
  have size : (0 : ℚ) ≤ (|current + add| : ℤ) := by exact_mod_cast abs_nonneg (current + add)
  rw [checkOrder_passed, found, contractMargin, mul_max_of_nonneg _ _ size, max_le_iff,
    ← bufferedInitial_eq, ← bufferedMaintenance_eq]
  simp only [Option.some.injEq, exists_eq_left']

theorem le_largest_iff (needed : 0 < gate.contractMargin req) {n : ℤ} :
    n ≤ gate.largest req nlv ↔ n * gate.contractMargin req ≤ nlv := by
  rw [largest, Int.le_floor, le_div_iff₀ needed]

/-- Margin is linear in the contracts: what fits at both ends fits between them. -/
theorem Fits.between {l m n : ℤ} (low : gate.Fits req nlv used l) (high : gate.Fits req nlv used n)
    (lower : l ≤ m) (upper : m ≤ n) : gate.Fits req nlv used m := by
  have below : (l : ℚ) ≤ m := by exact_mod_cast lower
  have above : (m : ℚ) ≤ n := by exact_mod_cast upper
  have ends : ∀ margin : ℚ, m * margin ≤ l * margin ∨ m * margin ≤ n * margin := by
    intro margin
    rcases le_total 0 margin with positive | negative
    · exact .inr (mul_le_mul_of_nonneg_right above positive)
    · exact .inl (mul_le_mul_of_nonpos_right below negative)
  rw [Fits, bufferedInitial_eq, bufferedMaintenance_eq] at low high ⊢
  constructor
  · rcases ends (gate.bufferedInitial req 1) with less | less
    · linarith [low.1]
    · linarith [high.1]
  · rcases ends (gate.bufferedMaintenance req 1) with less | less
    · linarith [low.2]
    · linarith [high.2]

/-- A contract that needs no margin only makes room. -/
theorem Fits.later {m n : ℤ} (fits : gate.Fits req nlv used m)
    (free : gate.contractMargin req ≤ 0) (le : m ≤ n) : gate.Fits req nlv used n := by
  obtain ⟨initial, maintenance⟩ := max_le_iff.mp free
  have more : (m : ℚ) ≤ n := by exact_mod_cast le
  rw [Fits, bufferedInitial_eq, bufferedMaintenance_eq] at fits ⊢
  constructor
  · linarith [fits.1, mul_le_mul_of_nonpos_right more initial]
  · linarith [fits.2, mul_le_mul_of_nonpos_right more maintenance]

/-- The extremes are let through themselves. -/
theorem extremes_pass {held n : ℤ} (nonneg : 0 ≤ held) (extreme : n ∈ gate.extremes req nlv held) :
    held < n ∧ n * gate.contractMargin req ≤ nlv := by
  rw [extremes] at extreme
  split at extreme
  next needed =>
    split at extreme
    next room =>
      have all : n ≤ gate.largest req nlv ∧ held < n := by
        rcases List.mem_pair.mp extreme with rfl | rfl
        · omega
        · omega
      exact ⟨all.2, (le_largest_iff needed).mp all.1⟩
    · cases extreme
  next free =>
    rw [not_lt] at free
    split at extreme
    next solvent =>
      rw [List.mem_singleton] at extreme
      subst extreme
      refine ⟨by omega, (mul_nonpos_of_nonneg_of_nonpos ?_ free).trans solvent⟩
      exact_mod_cast (by omega : 0 ≤ held + 1)
    · split at extreme
      · cases extreme
      next other =>
        rw [List.mem_singleton] at extreme
        subst extreme
        refine ⟨by omega, ?_⟩
        rw [← div_le_iff_of_neg (lt_of_le_of_ne free other), ← Int.ceil_le]
        exact le_max_right _ _

/-- All positions that are let through lie between the extremes. -/
theorem fits_of_extremes {held n : ℤ}
    (fits : ∀ e ∈ gate.extremes req nlv held, gate.Fits req nlv used (e - held))
    (more : held < n) (covered : n * gate.contractMargin req ≤ nlv) :
    gate.Fits req nlv used (n - held) := by
  rw [extremes] at fits
  split at fits
  next needed =>
    have most := (le_largest_iff needed).mpr covered
    rw [if_pos (more.trans_le most)] at fits
    have low := fits (held + 1) (by simp)
    have high := fits (gate.largest req nlv) (by simp)
    exact low.between high (by omega) (by omega)
  next free =>
    rw [not_lt] at free
    split at fits
    · exact (fits (held + 1) (by simp)).later free (by omega)
    next insolvent =>
      split at fits
      next none =>
        rw [none, mul_zero] at covered
        exact absurd covered insolvent
      next other =>
        refine (fits _ List.mem_cons_self).later free ?_
        rw [← div_le_iff_of_neg (lt_of_le_of_ne free other), ← Int.ceil_le] at covered
        omega

/-- Every order that adds to a position and passes fits exactly if the extremes do. -/
theorem passed_fits_iff {symbol : Symbol} (found : gate.schedule.get? symbol = some req)
    (current : ℤ) :
    (∀ add, |current| < |current + add| →
        (gate.checkOrder symbol add current nlv used).passed = true →
        gate.Fits req nlv used (|current + add| - |current|)) ↔
      ∀ n ∈ gate.extremes req nlv |current|, gate.Fits req nlv used (n - |current|) := by
  constructor
  · intro fits n extreme
    obtain ⟨more, covered⟩ := extremes_pass (abs_nonneg current) extreme
    -- the order that takes the position there
    have whole : |current + (n - current)| = n := by
      rw [add_sub_cancel]
      exact abs_of_nonneg ((abs_nonneg current).trans more.le)
    have added := fits (n - current)
    rw [passed_iff found, whole] at added
    exact added more covered
  · intro fits add grows passed
    rw [passed_iff found] at passed
    exact fits_of_extremes fits grows passed

end Gate

/-! ## Sequences of orders on one account -/

/-- The buffered initial margin of a position of `symbol`, none without a schedule. -/
def marginOf (symbol : Symbol) (position : ℤ) : ℚ :=
  match gate.schedule.get? symbol with
  | none => 0
  | some req => gate.bufferedInitial req |position|

def maintenanceOf (symbol : Symbol) (position : ℤ) : ℚ :=
  match gate.schedule.get? symbol with
  | none => 0
  | some req => gate.bufferedMaintenance req |position|

/-- What a book of positions commits in total. -/
def committed (book : Symbol → ℤ) : MarginUse where
  initial := ∑ s ∈ gate.schedule.keys.toFinset, gate.marginOf s (book s)
  maintenance := ∑ s ∈ gate.schedule.keys.toFinset, gate.maintenanceOf s (book s)

/-- An order is checked against the margin the book commits, and fills if it passes. -/
def orderStep (nlv : ℚ) (book : Symbol → ℤ) (order : Symbol × ℤ) : Option (Symbol → ℤ) :=
  if (gate.checkOrder order.1 order.2 (book order.1) nlv (gate.committed book)).passed then
    some (Function.update book order.1 (book order.1 + order.2))
  else some book

/-- The position of a symbol that commits the most margin: the largest one, if its contracts
commit any. -/
def largestOf (nlv : ℚ) (symbol : Symbol) : ℤ :=
  match gate.schedule.get? symbol with
  | none => 0
  | some req => if 0 < gate.bufferedInitial req 1 then max 0 (gate.largest req nlv) else 0

section Run

variable {gate} {nlv : ℚ}

/-- No symbol commits more than by itself it can be led to. -/
def Limited (gate : MarginCalculator) (nlv : ℚ) (book : Symbol → ℤ) : Prop :=
  ∀ symbol, gate.marginOf symbol (book symbol) ≤ gate.marginOf symbol (gate.largestOf nlv symbol)

theorem marginOf_some {symbol : Symbol} {req : MarginRequirement}
    (found : gate.schedule.get? symbol = some req) (position : ℤ) :
    gate.marginOf symbol position = |position| * gate.bufferedInitial req 1 := by
  rw [marginOf, found]
  exact bufferedInitial_eq _

/-- What the gate covers commits no more than the largest position. -/
theorem marginOf_le {symbol : Symbol} {req : MarginRequirement}
    (found : gate.schedule.get? symbol = some req) {position : ℤ}
    (covered : |position| * gate.contractMargin req ≤ nlv ∨ position = 0) :
    gate.marginOf symbol position ≤ gate.marginOf symbol (gate.largestOf nlv symbol) := by
  rw [marginOf_some found, marginOf_some found, largestOf, found]
  dsimp only
  split
  next needed =>
    refine mul_le_mul_of_nonneg_right ?_ needed.le
    have most : |position| ≤ max 0 (gate.largest req nlv) := by
      rcases covered with covered | rfl
      · exact le_max_of_le_right ((le_largest_iff (lt_max_of_lt_left needed)).mpr covered)
      · exact le_max_of_le_left abs_zero.le
    exact_mod_cast most.trans (le_abs_self _)
  next free =>
    -- such contracts commit nothing
    rw [abs_zero, Int.cast_zero, zero_mul]
    refine mul_nonpos_of_nonneg_of_nonpos ?_ (not_lt.mp free)
    exact_mod_cast abs_nonneg position

theorem orderStep_limited {book book' : Symbol → ℤ} {order : Symbol × ℤ}
    (limited : gate.Limited nlv book) (moved : gate.orderStep nlv book order = some book') :
    gate.Limited nlv book' := by
  rw [orderStep] at moved
  split at moved
  next passed =>
    -- only the order's own position changes, and the gate has weighed all of it
    cases moved
    intro symbol
    obtain ⟨req, found, -⟩ := (gate.checkOrder_passed _ _ _ _ _).mp passed
    rw [passed_iff found] at passed
    by_cases same : symbol = order.1
    · rw [same, Function.update_self]
      exact marginOf_le found (.inl passed)
    · rw [Function.update_of_ne same]
      exact limited symbol
  · cases moved
    exact limited

theorem run_limited {orders : List (Symbol × ℤ)} {book : Symbol → ℤ}
    (reached : Machine.run (gate.orderStep nlv) (fun _ => 0) orders = some book) :
    gate.Limited nlv book := by
  refine run_invariant (gate.Limited nlv) ?_ _ orders book ?_ (meets_true _ _) reached
  · exact fun _ _ _ limited _ moved => orderStep_limited limited moved
  · intro symbol
    cases found : gate.schedule.get? symbol with
    | none => simp only [marginOf, found, le_refl]
    | some req => exact marginOf_le found (.inr rfl)

/-- An order of a symbol that is flat, for its largest position. -/
theorem orderStep_largest {book : Symbol → ℤ} {symbol : Symbol} (flat : book symbol = 0) :
    gate.orderStep nlv book (symbol, gate.largestOf nlv symbol) =
      some (Function.update book symbol (gate.largestOf nlv symbol)) := by
  rw [orderStep]
  split
  · rw [flat, zero_add]
  next refused =>
    -- what is refused is a position of zero
    have none_ : gate.largestOf nlv symbol = 0 := by
      by_contra some_
      apply refused
      rw [largestOf] at some_
      cases found : gate.schedule.get? symbol with
      | none => simp [found] at some_
      | some req =>
        simp only [found] at some_
        split at some_
        next needed =>
          have most : gate.largestOf nlv symbol = gate.largest req nlv := by
            simp only [largestOf, found, if_pos needed]
            omega
          rw [passed_iff found, flat, zero_add, most, abs_of_nonneg (by omega)]
          exact (le_largest_iff (lt_max_of_lt_left needed)).mp le_rfl
        · exact absurd rfl some_
    rw [none_, ← flat, Function.update_eq_self]

variable (gate nlv) in
/-- One order for each symbol takes a flat account to the largest positions. -/
theorem run_largest (symbols : List Symbol) (once : symbols.Nodup) (book : Symbol → ℤ)
    (flat : ∀ symbol ∈ symbols, book symbol = 0) :
    Machine.run (gate.orderStep nlv) book
        (symbols.map fun symbol => (symbol, gate.largestOf nlv symbol)) =
      some fun symbol => if symbol ∈ symbols then gate.largestOf nlv symbol else book symbol := by
  induction symbols generalizing book with
  | nil => simp
  | cons symbol rest ih =>
    obtain ⟨fresh, once⟩ := List.nodup_cons.mp once
    rw [List.map_cons, run_cons, orderStep_largest (flat symbol List.mem_cons_self),
      Option.bind_some, ih once]
    · congr 1
      funext other
      by_cases later : other ∈ rest
      · simp [later]
      · by_cases same : other = symbol
        · simp [same, fresh]
        · simp [later, same]
    · intro other later
      have different : other ≠ symbol := fun same => fresh (same ▸ later)
      rw [Function.update_of_ne different]
      exact flat other (List.mem_cons_of_mem _ later)

/-- Orders on a flat account commit no more than it is worth exactly if all the largest positions
together do not. -/
theorem runs_within_iff :
    (∀ orders book, Machine.run (gate.orderStep nlv) (fun _ => 0) orders = some book →
        (gate.committed book).initial ≤ nlv) ↔
      (gate.committed (gate.largestOf nlv)).initial ≤ nlv := by
  constructor
  · intro within
    have reached := run_largest gate nlv gate.schedule.keys.dedup (List.nodup_dedup _) (fun _ => 0)
      (fun _ _ => rfl)
    have same : (gate.committed (gate.largestOf nlv)).initial = (gate.committed fun symbol =>
        if symbol ∈ gate.schedule.keys.dedup then gate.largestOf nlv symbol else 0).initial := by
      simp only [committed]
      refine Finset.sum_congr rfl fun symbol among => ?_
      rw [if_pos (List.mem_dedup.mpr (List.mem_toFinset.mp among))]
    rw [same]
    exact within _ _ reached
  · intro most orders book reached
    -- each symbol by itself commits no more than its largest position
    exact (Finset.sum_le_sum fun symbol _ => run_limited reached symbol).trans most

end Run

/-- In exact arithmetic: all orders that add to a position and pass fit in what the account has
left exactly if the smallest and the largest of them do, which its own margin alone decides. Every
order the risk engine passes is one the gate passed. And the orders on a flat account never commit
more than it is worth exactly if the largest positions of all symbols together do not. -/
theorem margin_gate_iff :
    (∀ symbol req current nlv used, gate.schedule.get? symbol = some req →
      ((∀ add, |current| < |current + add| →
          (gate.checkOrder symbol add current nlv used).passed = true →
          gate.Fits req nlv used (|current + add| - |current|)) ↔
        ∀ n ∈ gate.extremes req nlv |current|, gate.Fits req nlv used (n - |current|))) ∧
    (∀ engine : RiskEngine, engine.marginCalculator = gate → ∀ signal account now,
      (engine.checkOrder signal account now).1.passed = true →
      (gate.checkOrder signal.symbol signal.signedQuantity (engine.positions.getD signal.symbol 0)
        account.accountEquity account.marginUsed).passed = true) ∧
    (∀ nlv,
      ((∀ orders book, Machine.run (gate.orderStep nlv) (fun _ => 0) orders = some book →
          (gate.committed book).initial ≤ nlv) ↔
        (gate.committed (gate.largestOf nlv)).initial ≤ nlv)) := by
  refine ⟨?_, ?_, ?_⟩
  · intro symbol req current nlv used found
    exact passed_fits_iff found current
  · rintro engine rfl signal account now passed
    exact (engine.checkOrder_passed signal account now passed).2.2.2
  · exact fun nlv => runs_within_iff

/-- Two symbols that need 500 USD a contract with the buffer. -/
def twoSymbols : MarginCalculator where
  schedule := .ofList [("BTCUSDT", ⟨"BTCUSDT", 400, 320⟩), ("ETHUSDT", ⟨"ETHUSDT", 400, 320⟩)]

/-- On an account of 1000 USD two contracts of one symbol and then two of the
other pass, and commit 2000 USD. -/
theorem margin_gate_ignores_use :
    (twoSymbols.checkOrder "ETHUSDT" 2 0 1000 ⟨1000, 704⟩).passed = true ∧
    ¬ twoSymbols.Fits ⟨"ETHUSDT", 400, 320⟩ 1000 ⟨1000, 704⟩ (|0 + 2| - |0|) ∧
    ∃ book, Machine.run (twoSymbols.orderStep 1000) (fun _ => 0)
        [("BTCUSDT", 2), ("ETHUSDT", 2)] = some book ∧
      (twoSymbols.committed book).initial = 2000 := by
  refine ⟨by decide +kernel, by unfold Fits; decide +kernel,
    Function.update (Function.update (fun _ => 0) "BTCUSDT" 2) "ETHUSDT" 2, ?_, by decide +kernel⟩
  have first : twoSymbols.orderStep 1000 (fun _ => 0) ("BTCUSDT", 2) =
      some (Function.update (fun _ => 0) "BTCUSDT" 2) :=
    if_pos (by decide +kernel)
  have second : twoSymbols.orderStep 1000 (Function.update (fun _ => 0) "BTCUSDT" 2)
      ("ETHUSDT", 2) =
      some (Function.update (Function.update (fun _ => 0) "BTCUSDT" 2) "ETHUSDT" 2) :=
    if_pos (by decide +kernel)
  rw [run_cons, first, Option.bind_some, run_cons, second]
  rfl

/-- One contract of each symbol is all that an account of 999 USD can be led to, and more than it
is worth. -/
theorem one_each : ¬ ∀ orders book,
    Machine.run (twoSymbols.orderStep 999) (fun _ => 0) orders = some book →
      (twoSymbols.committed book).initial ≤ 999 := by
  rw [twoSymbols.margin_gate_iff.2.2 999]
  decide +kernel

end MarginCalculator

end Binbot
