import Binbot.Data.Pacing
import Binbot.Properties.RateLimit

/-!
# The order-rate limiter rejects no more than it must

Its two limits could be kept by rejecting other calls, or more of them. No choice of calls that
keeps them lets more through, or lets the same number through earlier.
-/
namespace Binbot.TokenRateLimiter

open Data Data.SlidingWindow Data.Pacing

variable (maxPerSecond : ℚ) (maxPerMinute : ℕ)

/-- The limits of a second and of a minute. -/
def pace : List (Limit ℚ) :=
  [⟨1, ⌈maxPerSecond⌉₊, zero_le_one⟩, ⟨60, maxPerMinute, by norm_num⟩]

/-- No second and no minute has more than it may. -/
def WithinRate (times : List ℚ) : Prop :=
  ∀ first, (between first (first + 1) times).length ≤ ⌈maxPerSecond⌉₊ ∧
    (between first (first + 60) times).length ≤ maxPerMinute

theorem withinRate_iff (times : List ℚ) :
    WithinRate maxPerSecond maxPerMinute times ↔ Keeps (pace maxPerSecond maxPerMinute) times := by
  simp [WithinRate, Keeps, pace, forall_and]

theorem admits_iff {history : List ℚ} {now : ℚ} (past : ∀ t ∈ history, t ≤ now) :
    admits .exact maxPerSecond maxPerMinute history now = true ↔
      Room (pace maxPerSecond maxPerMinute) history now := by
  have same (width : ℚ) : recent Rounding.exact.sub width now history =
      between (now - width) now history := recent_eq_between past
  simp [admits, same, Room, pace, Nat.lt_ceil]

/-- The limiter that forgets nothing takes calls eagerly. -/
theorem remembered_eager {calls : List ℚ} (ordered : calls.Pairwise (· ≤ ·)) :
    remembered .exact maxPerSecond maxPerMinute [] calls =
      eager (pace maxPerSecond maxPerMinute) calls := by
  induction calls using List.reverseRecOn with
  | nil => rfl
  | append_singleton before now ih =>
    obtain ⟨earlier, -, last⟩ := List.pairwise_append.mp ordered
    rw [eager_concat, ← ih earlier, remembered, List.foldl_concat, ← remembered, recorded,
      Pacing.take]
    -- no call that it remembers is later than the new one
    have past : ∀ t ∈ remembered .exact maxPerSecond maxPerMinute [] before, t ≤ now := by
      rw [ih earlier]
      exact fun t taken => last t ((eager_sublist _ before).subset taken) now
        (List.mem_singleton_self now)
    simp only [admits_iff maxPerSecond maxPerMinute past]

variable {calls : List ℚ}

/-- In exact arithmetic, of all ways to choose among the calls within both limits, the limiter's
lets the most through:
the k-th call that it accepts is no later than the k-th of any other choice. -/
theorem accepts_most (ordered : calls.Pairwise (· ≤ ·)) :
    (∀ chosen, chosen.Sublist calls → WithinRate maxPerSecond maxPerMinute chosen →
      List.Forall₂ (· ≤ ·) (((fresh maxPerSecond maxPerMinute).accepted calls).take chosen.length)
        chosen) ∧
    IsGreatest
      {n | ∃ chosen, chosen.Sublist calls ∧ WithinRate maxPerSecond maxPerMinute chosen ∧
        chosen.length = n}
      ((fresh maxPerSecond maxPerMinute).accepted calls).length := by
  obtain ⟨last, past⟩ := calls.toFinset.exists_le
  -- what it forgets is in no window any more
  have same := (fresh_called .exact maxPerSecond maxPerMinute ordered
    (fun t member => past t (List.mem_toFinset.mpr member))).1
  rw [accepted, same, remembered_eager _ _ ordered]
  simp only [withinRate_iff]
  constructor
  · intro chosen among keeps
    exact eager_earliest ordered among keeps
  · exact eager_greatest _ ordered

/-- Of five calls, two of which are too many for their second, three are accepted. -/
theorem accepts_most_burst : IsGreatest
    {n | ∃ chosen, chosen.Sublist [(0 : ℚ), 1 / 4, 1 / 2, 1, 3 / 2] ∧ WithinRate 2 60 chosen ∧
      chosen.length = n} 3 := by
  have ordered : [(0 : ℚ), 1 / 4, 1 / 2, 1, 3 / 2].Pairwise (· ≤ ·) := by decide +kernel
  have three : ((fresh 2 60).accepted [0, 1 / 4, 1 / 2, 1, 3 / 2]).length = 3 := by decide +kernel
  exact three ▸ (accepts_most 2 60 ordered).2

end Binbot.TokenRateLimiter
