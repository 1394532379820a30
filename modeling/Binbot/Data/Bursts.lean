import Binbot.Data.SlidingWindow
import Mathlib.Algebra.Order.Monoid.Defs

/-!
# Bursts

Times come in bursts that lie some gap apart. An interval that is shorter than so many gaps
meets no more than so many bursts.
-/
namespace Binbot.Data.Bursts

open SlidingWindow

variable {α : Type} [AddCommGroup α] [LinearOrder α]

/-- All of the later burst comes at least `gap` after all of the earlier one. -/
def Apart (gap : α) (earlier later : List α) : Prop :=
  ∀ t ∈ earlier, ∀ u ∈ later, t + gap ≤ u

/-- The times fall into bursts of at most `most`, a gap apart. -/
structure InBursts (gap : α) (most : ℕ) (times : List α) (bursts : List (List α)) : Prop where
  whole : bursts.flatten = times
  sizes : ∀ burst ∈ bursts, burst.length ≤ most
  apart : bursts.Pairwise (Apart gap)

variable {gap first last now : α} {most : ℕ} {times current : List α} {bursts : List (List α)}

theorem inBursts_nil (gap : α) (most : ℕ) : InBursts gap most [] [] where
  whole := rfl
  sizes := by simp
  apart := .nil

/-- A burst begins empty. -/
theorem InBursts.opened (paced : InBursts gap most times bursts) :
    InBursts gap most times (bursts ++ [[]]) where
  whole := by simp [paced.whole]
  sizes := by
    intro burst member
    rcases List.mem_append.mp member with earlier | new
    · exact paced.sizes burst earlier
    · obtain rfl := List.mem_singleton.mp new
      exact Nat.zero_le most
  apart := by
    rw [List.pairwise_append]
    refine ⟨paced.apart, List.pairwise_singleton _ _, ?_⟩
    intro earlier _ later new t _ u held
    obtain rfl := List.mem_singleton.mp new
    cases held

/-- The last burst goes on, a gap after those before it. -/
theorem InBursts.push (paced : InBursts gap most times (bursts ++ [current]))
    (late : ∀ t ∈ bursts.flatten, t + gap ≤ now) (room : current.length < most) :
    InBursts gap most (times ++ [now]) (bursts ++ [current ++ [now]]) where
  whole := by
    rw [← paced.whole]
    simp
  sizes := by
    intro burst member
    rcases List.mem_append.mp member with earlier | new
    · exact paced.sizes burst (List.mem_append_left _ earlier)
    · obtain rfl := List.mem_singleton.mp new
      rw [List.length_append, List.length_singleton]
      exact room
  apart := by
    obtain ⟨before, -, between⟩ := List.pairwise_append.mp paced.apart
    rw [List.pairwise_append]
    refine ⟨before, List.pairwise_singleton _ _, ?_⟩
    intro earlier member later new t held u inside
    obtain rfl := List.mem_singleton.mp new
    rcases List.mem_append.mp inside with older | newest
    · exact between earlier member current (List.mem_singleton_self _) t held u older
    · obtain rfl := List.mem_singleton.mp newest
      exact late t (List.mem_flatten_of_mem member held)

/-! ### Counting -/

omit [AddCommGroup α] in
/-- What lies in an interval lies in a part of it, if nothing lies before that part. -/
theorem between_of_late {start : α} (late : ∀ t ∈ times, start ≤ t) (within : first ≤ start) :
    between first last times = between start last times := by
  apply List.filter_congr
  intro t member
  simp [late t member, within.trans (late t member)]

variable [IsOrderedAddMonoid α]

/-- An interval shorter than `n + 1` gaps meets no more than `n + 1` bursts. -/
theorem InBursts.length_between_le {n : ℕ} (paced : InBursts gap most times bursts)
    (nonneg : 0 ≤ gap) (short : last < first + (n + 1) • gap) :
    (between first last times).length ≤ most * (n + 1) := by
  obtain ⟨rfl, sizes, apart⟩ := paced
  induction bursts generalizing first n with
  | nil => exact Nat.zero_le _
  | cons burst rest ih =>
    rw [List.pairwise_cons] at apart
    obtain ⟨small, sizes⟩ := List.forall_mem_cons.mp sizes
    have split : between first last (burst :: rest).flatten =
        between first last burst ++ between first last rest.flatten := List.filter_append ..
    rw [split, List.length_append]
    cases here : between first last burst with
    | nil =>
      rw [List.length_nil, zero_add]
      exact ih short sizes apart.2
    | cons t others =>
      -- the burst is met, so what is left begins a gap later
      have met : t ∈ between first last burst := here ▸ List.mem_cons_self
      obtain ⟨member, inside⟩ := List.mem_filter.mp met
      have begun : first ≤ t := (of_decide_eq_true inside).1
      have few : (between first last burst).length ≤ most :=
        (List.length_filter_le _ _).trans small
      have later : ∀ u ∈ rest.flatten, first + gap ≤ u := by
        intro u held
        obtain ⟨next, among, found⟩ := List.mem_flatten.mp held
        exact (add_le_add_left begun gap).trans (apart.1 next among t member u found)
      rw [between_of_late later (le_add_of_nonneg_right nonneg), ← here]
      cases n with
      | zero =>
        -- the interval ends before that
        have gone : between (first + gap) last rest.flatten = [] := by
          apply List.filter_eq_nil_iff.mpr
          intro u held
          rw [zero_add, one_nsmul] at short
          simp [(short.trans_le (later u held)).not_ge]
        rw [gone]
        simpa using few
      | succ n =>
        have left : last < first + gap + (n + 1) • gap := by
          rw [add_assoc, ← succ_nsmul']
          exact short
        have fewer := ih left sizes apart.2
        calc (between first last burst).length + (between (first + gap) last rest.flatten).length
            ≤ most + most * (n + 1) := Nat.add_le_add few fewer
          _ = most * (n + 1 + 1) := by rw [Nat.mul_succ most (n + 1), Nat.add_comm]

end Binbot.Data.Bursts
