import Binbot.Data.Bursts
import Binbot.Execution.Reconnect
import Mathlib.Tactic.Linarith
import Mathlib.Tactic.Ring

/-!
# The pace of reconnects

However a connection fails, attempts to open it lie at least the first wait apart, and the waits
between failures in a row double up to their bound. The heartbeat of the IBKR adapter ends
connections as well, but only after a time without an answer.

Strategy:
1. Each turn of the loop that connects keeps the attempts apart (`Spaced.turn`)
2. The heartbeat's own attempts come a timeout after the last success, which came after all others
-/
namespace Binbot.ReconnectPace

open Data.Bursts Data.SlidingWindow Machine

/-- The attempts lie `gap` apart, and a wait that is on lasts at least as long. -/
structure Spaced (gap : ℤ) (s : Link) : Prop where
  bursts : ∃ bursts, InBursts gap 1 s.attempts bursts
  past : ∀ t ∈ s.attempts, t ≤ s.clock
  backoff : gap ≤ s.backoff
  waits : ∀ since delay, s.phase = .waiting since delay →
    gap ≤ delay ∧ ∀ t ∈ s.attempts, t ≤ since

variable {gap : ℤ} {p : Backoff} {s t : Link} {now : Timestamp}

/-- One more attempt, a gap after all others. -/
theorem spaced_attempt {times : List ℤ} {bursts : List (List ℤ)}
    (apart : InBursts gap 1 times bursts) (late : ∀ t ∈ times, t + gap ≤ now) :
    ∃ bursts, InBursts gap 1 (times ++ [now]) bursts := by
  refine ⟨_, apart.opened.push ?_ (by simp)⟩
  rw [apart.whole]
  exact late

theorem Spaced.later (spaced : Spaced gap s) (later : s.clock ≤ now) :
    Spaced gap { s with clock := now } :=
  ⟨spaced.bursts, fun t held => (spaced.past t held).trans later, spaced.backoff, spaced.waits⟩

theorem Spaced.turn (spaced : Spaced gap s) (nonneg : 0 ≤ gap) (enough : gap ≤ p.backoff)
    (bounded : gap ≤ p.backoffMax) (present : s.clock = now) {act : LinkAct}
    (moved : p.turn s now act = some t) : Spaced gap t ∧ t.clock = now := by
  obtain ⟨⟨bursts, apart⟩, past, backoff, waits⟩ := spaced
  cases act with
  | opened =>
    simp only [Backoff.turn] at moved
    split at moved
    · cases moved
      exact ⟨⟨⟨bursts, apart⟩, past, enough, by simp⟩, present⟩
    · cases moved
  | lost =>
    simp only [Backoff.turn] at moved
    split at moved
    · cases moved
    · cases moved
      refine ⟨⟨⟨bursts, apart⟩, past, ?_, ?_⟩, present⟩
      · exact le_min (by linarith) bounded
      · rintro since delay ⟨⟩
        exact ⟨backoff, fun t held => present ▸ past t held⟩
  | wake =>
    simp only [Backoff.turn] at moved
    split at moved
    next since delay asleep =>
      split at moved
      · cases moved
      next elapsed =>
        cases moved
        obtain ⟨long, before⟩ := waits since delay asleep
        refine ⟨⟨?_, ?_, backoff, by simp⟩, present⟩
        · apply spaced_attempt apart
          exact fun t held => (add_le_add (before t held) long).trans (not_lt.mp elapsed)
        · intro t held
          rcases List.mem_append.mp held with old | new
          · exact past t old
          · rw [List.mem_singleton.mp new, present]
    · cases moved

theorem Spaced.step (spaced : Spaced gap s) (nonneg : 0 ≤ gap) (enough : gap ≤ p.backoff)
    (bounded : gap ≤ p.backoffMax) {act : Timestamp × LinkAct}
    (moved : p.step s act = some t) : Spaced gap t := by
  obtain ⟨now, act⟩ := act
  rw [Backoff.step] at moved
  split at moved
  · cases moved
  next later => exact ((spaced.later (not_lt.mp later)).turn nonneg enough bounded rfl moved).1

def counted (count : ℕ) : LinkAct → ℕ
  | .opened => 0
  | .lost => count + 1
  | .wake => count

/-- The wait that comes next, and the one that is on. -/
structure Doubled (p : Backoff) (count : ℕ) (s : Link) : Prop where
  next : s.backoff = min (p.backoff * 2 ^ count) p.backoffMax
  waits : ∀ since delay, s.phase = .waiting since delay →
    0 < count ∧ delay = min (p.backoff * 2 ^ (count - 1)) p.backoffMax

/-- Doubling under a bound is bounding the doubled. -/
theorem min_double {first most : ℤ} (nonneg : 0 ≤ most) (count : ℕ) :
    min (min (first * 2 ^ count) most * 2) most = min (first * 2 ^ (count + 1)) most := by
  have twice : first * 2 ^ (count + 1) = first * 2 ^ count * 2 := by ring
  rw [twice]
  omega

theorem Doubled.turn {count : ℕ} (doubled : Doubled p count s)
    (within : p.backoff ≤ p.backoffMax) (nonneg : 0 ≤ p.backoffMax) {act : LinkAct}
    (moved : p.turn s now act = some t) : Doubled p (counted count act) t := by
  obtain ⟨next, waits⟩ := doubled
  cases act with
  | opened =>
    simp only [Backoff.turn] at moved
    split at moved
    · cases moved
      exact ⟨by simp [counted, within], by simp⟩
    · cases moved
  | lost =>
    simp only [Backoff.turn] at moved
    split at moved
    · cases moved
    · cases moved
      constructor
      · dsimp only [counted]
        rw [next, min_double nonneg]
      · rintro since delay ⟨⟩
        exact ⟨Nat.succ_pos count, next⟩
  | wake =>
    simp only [Backoff.turn] at moved
    split at moved
    next since delay asleep =>
      split at moved
      · cases moved
      · cases moved
        exact ⟨next, by simp⟩
    · cases moved

/-- While the connection is watched, it has been up since the last attempt. -/
structure Watched (gap : ℤ) (s : Heartbeat) : Prop where
  spaced : Spaced gap s.link
  up : s.stage ≠ .starting → s.stage ≠ .reconnecting →
    ∀ t ∈ s.link.attempts, t ≤ s.lastHeartbeatOk

theorem Watched.turn {h : HeartbeatParams} {s t : Heartbeat} (watched : Watched gap s)
    (nonneg : 0 ≤ gap) (enough : gap ≤ h.link.backoff) (bounded : gap ≤ h.link.backoffMax)
    (patient : gap ≤ h.timeout) (present : s.link.clock = now) {act : HeartbeatAct}
    (moved : h.turn s now act = some t) : Watched gap t := by
  obtain ⟨spaced, up⟩ := watched
  cases act with
  | link act =>
    simp only [HeartbeatParams.turn] at moved
    split at moved
    next trying =>
      obtain ⟨link, turned, rfl⟩ := Option.map_eq_some_iff.mp moved
      obtain ⟨after, clock⟩ := spaced.turn nonneg enough bounded present turned
      split
      · exact ⟨after, fun _ _ t held => clock ▸ after.past t held⟩
      · refine ⟨after, fun ready again => ?_⟩
        exact absurd trying (not_or.mpr ⟨ready, again⟩)
    · cases moved
  | reconciled ok =>
    simp only [HeartbeatParams.turn] at moved
    split at moved
    next reconciling =>
      cases moved
      exact ⟨spaced, fun _ _ => up (by simp [reconciling]) (by simp [reconciling])⟩
    · cases moved
  | beat =>
    simp only [HeartbeatParams.turn] at moved
    split at moved
    next since asleep =>
      split at moved
      · cases moved
      · cases moved
        exact ⟨spaced, fun _ _ => up (by simp [asleep]) (by simp [asleep])⟩
    · cases moved
  | answered ok =>
    simp only [HeartbeatParams.turn] at moved
    split at moved
    next asking =>
      have before := up (by simp [asking]) (by simp [asking])
      split at moved
      · cases moved
        exact ⟨spaced, fun _ _ t held => present ▸ spaced.past t held⟩
      · split at moved
        · cases moved
          exact ⟨spaced, fun _ _ => before⟩
        next silent =>
          -- the last success came after all attempts, and a timeout ago
          cases moved
          obtain ⟨⟨bursts, apart⟩, past, -, -⟩ := spaced
          refine ⟨⟨spaced_attempt apart ?_, ?_, enough, by simp⟩, by simp⟩
          · intro t held
            have ago := before t held
            linarith
          · intro t held
            rcases List.mem_append.mp held with old | new
            · exact past t old
            · rw [List.mem_singleton.mp new, present]
    · cases moved

theorem Watched.step {h : HeartbeatParams} {s t : Heartbeat} (watched : Watched gap s)
    (nonneg : 0 ≤ gap) (enough : gap ≤ h.link.backoff) (bounded : gap ≤ h.link.backoffMax)
    (patient : gap ≤ h.timeout) {act : Timestamp × HeartbeatAct}
    (moved : h.step s act = some t) : Watched gap t := by
  obtain ⟨now, act⟩ := act
  rw [HeartbeatParams.step] at moved
  split at moved
  · cases moved
  next later =>
    have present : Watched gap { s with link := { s.link with clock := now } } :=
      ⟨watched.spaced.later (not_lt.mp later), watched.up⟩
    exact present.turn nonneg enough bounded patient rfl moved

end Binbot.ReconnectPace
