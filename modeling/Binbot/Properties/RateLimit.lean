import Binbot.Data.Binary64
import Binbot.Data.SlidingWindow
import Binbot.Risk.RiskEngine
import Mathlib.Algebra.Order.Floor.Semiring
import Mathlib.Data.Finset.Dedup
import Mathlib.Data.Finset.Order
import Mathlib.Data.Rat.Floor

/-!
# The order-rate limiter

The limiter trims its two windows when it is called and keeps nothing else. It decides like one
that forgets no accepted call, and that one keeps every interval below the limits. How old a call
is, is a rounded difference: a call that is older than the second by less than the rounding still
counts.
-/
namespace Binbot.TokenRateLimiter

open Data Data.SlidingWindow

/-- Differences are rounded in order. -/
theorem ages_sub (r : Rounding) : Ages r.sub where
  earlier now _ _ le := r.mono (sub_le_sub_left le now)
  later t _ _ le := r.mono (sub_le_sub_right le t)

theorem sub_le_natCast (r : Rounding) {n : ℕ} (small : n ≤ 2 ^ 53) {t now : ℚ}
    (young : now - t ≤ n) : r.sub now t ≤ n :=
  (Rounding.holds_natCast small).ge young

/-! ### Calls -/

def calledIn (r : Rounding) (self : TokenRateLimiter) (calls : List ℚ) : TokenRateLimiter :=
  calls.foldl (fun limiter now => (limiter.tryAcquireIn r now).2) self

def verdictsIn (r : Rounding) : TokenRateLimiter → List ℚ → List Bool
  | _, [] => []
  | self, now :: rest =>
    (self.tryAcquireIn r now).1.1 :: verdictsIn r (self.tryAcquireIn r now).2 rest

/-- The times of the accepted calls. -/
def acceptedIn (r : Rounding) (self : TokenRateLimiter) (calls : List ℚ) : List ℚ :=
  ((calls.zip (self.verdictsIn r calls)).filter (·.2)).map (·.1)

def accepted (self : TokenRateLimiter) (calls : List ℚ) : List ℚ := self.acceptedIn .exact calls

/-- A limiter that has not been called. -/
def fresh (maxPerSecond : ℚ) (maxPerMinute : ℕ) : TokenRateLimiter where
  maxPerSecond := maxPerSecond
  maxPerMinute := maxPerMinute

/-! ### A limiter that forgets nothing -/

section History

variable (r : Rounding) (maxPerSecond : ℚ) (maxPerMinute : ℕ)

/-- Whether a history of accepted calls leaves room for another. -/
def admits (history : List ℚ) (now : ℚ) : Bool :=
  ((recent r.sub 1 now history).length : ℚ) < maxPerSecond ∧
    (recent r.sub 60 now history).length < maxPerMinute

def recorded (history : List ℚ) (now : ℚ) : List ℚ :=
  if admits r maxPerSecond maxPerMinute history now then history ++ [now] else history

def rulings : List ℚ → List ℚ → List Bool
  | _, [] => []
  | history, now :: rest =>
    admits r maxPerSecond maxPerMinute history now ::
      rulings (recorded r maxPerSecond maxPerMinute history now) rest

def remembered (history calls : List ℚ) : List ℚ :=
  calls.foldl (recorded r maxPerSecond maxPerMinute) history

/-- What it remembers is what it has accepted. -/
theorem remembered_eq (history calls : List ℚ) :
    remembered r maxPerSecond maxPerMinute history calls =
      history ++ ((calls.zip (rulings r maxPerSecond maxPerMinute history calls)).filter (·.2)).map
        (·.1) := by
  induction calls generalizing history with
  | nil => exact (List.append_nil history).symm
  | cons now rest ih =>
    rw [remembered, List.foldl_cons, ← remembered, ih, rulings, List.zip_cons_cons]
    cases admitted : admits r maxPerSecond maxPerMinute history now with
    | true => simp [recorded, admitted]
    | false => simp [recorded, admitted]

/-- Each accepted call found room. -/
def Spaced (history : List ℚ) : Prop :=
  ∀ before now, before ++ [now] <+: history → admits r maxPerSecond maxPerMinute before now = true

variable {r maxPerSecond maxPerMinute} {history : List ℚ}

theorem Spaced.recorded (spaced : Spaced r maxPerSecond maxPerMinute history) (now : ℚ) :
    Spaced r maxPerSecond maxPerMinute (recorded r maxPerSecond maxPerMinute history now) := by
  rw [TokenRateLimiter.recorded]
  split
  next admitted =>
    intro before t start
    rcases List.prefix_concat_iff.mp start with whole | earlier
    · obtain ⟨rfl, last⟩ := List.append_inj' whole rfl
      cases last
      exact admitted
    · exact spaced before t earlier
  next => exact spaced

theorem Spaced.remembered (spaced : Spaced r maxPerSecond maxPerMinute history) (calls : List ℚ) :
    Spaced r maxPerSecond maxPerMinute (remembered r maxPerSecond maxPerMinute history calls) := by
  induction calls generalizing history with
  | nil => exact spaced
  | cons now rest ih => exact ih (spaced.recorded now)

/-- A history in which each call found room exceeds neither limit in any interval. -/
theorem Spaced.bounded (spaced : Spaced r maxPerSecond maxPerMinute history) (first : ℚ) :
    (between first (first + 1) history).length ≤ ⌈maxPerSecond⌉₊ ∧
      (between first (first + 60) history).length ≤ maxPerMinute := by
  have room : ∀ before now, before ++ [now] <+: history →
      (recent r.sub 1 now before).length < ⌈maxPerSecond⌉₊ ∧
        (recent r.sub 60 now before).length < maxPerMinute := by
    intro before now start
    have admitted := spaced before now start
    simp only [admits, decide_eq_true_eq] at admitted
    rw [Nat.lt_ceil]
    exact admitted
  constructor
  · apply length_between_le fun before now start => (room before now start).1
    intro t now after before
    exact_mod_cast sub_le_natCast r (n := 1) (by norm_num)
      (by exact_mod_cast sub_le_of_between after before)
  · apply length_between_le fun before now start => (room before now start).2
    intro t now after before
    exact_mod_cast sub_le_natCast r (n := 60) (by norm_num)
      (by exact_mod_cast sub_le_of_between after before)

end History

/-! ### The limiter follows it -/

/-- The windows track the accepted calls, the last of which was no later than `last`. -/
structure Follows (r : Rounding) (limiter : TokenRateLimiter) (history : List ℚ) (last : ℚ) : Prop where
  ordered : history.Pairwise (· ≤ ·)
  past : ∀ t ∈ history, t ≤ last
  second : Tracks r.sub 1 limiter.secondWindow history last
  minute : Tracks r.sub 60 limiter.minuteWindow history last

section Follow

variable {r : Rounding} {self : TokenRateLimiter} {history calls : List ℚ} {last now : ℚ}

theorem follows_fresh (r : Rounding) (maxPerSecond : ℚ) (maxPerMinute : ℕ) (last : ℚ) :
    Follows r (fresh maxPerSecond maxPerMinute) [] last :=
  ⟨.nil, by simp, tracks_nil r.sub 1 last, tracks_nil r.sub 60 last⟩

/-- A call decides by the trimmed windows, and leaves them with its time if it is accepted. -/
theorem tryAcquireIn_eq (r : Rounding) (self : TokenRateLimiter) (now : ℚ) :
    (self.tryAcquireIn r now).1.1 = decide
        (((trimmed r.sub 1 now self.secondWindow).length : ℚ) < self.maxPerSecond ∧
          (trimmed r.sub 60 now self.minuteWindow).length < self.maxPerMinute) ∧
      (self.tryAcquireIn r now).2 = { self with
        secondWindow := trimmed r.sub 1 now self.secondWindow ++
          if (self.tryAcquireIn r now).1.1 then [now] else []
        minuteWindow := trimmed r.sub 60 now self.minuteWindow ++
          if (self.tryAcquireIn r now).1.1 then [now] else [] } := by
  unfold tryAcquireIn trimmed
  dsimp only
  split
  next full => simp [not_lt.mpr full]
  next =>
    -- the window of the minute is asked only if that of the second has room
    split
    next full => simp [not_lt.mpr full]
    next second minute => simp [not_le.mp second, not_le.mp minute]

/-- A call decides by the history, and keeps up with it. -/
theorem Follows.tryAcquireIn (follows : Follows r self history last) (later : last ≤ now) :
    (self.tryAcquireIn r now).1.1 = admits r self.maxPerSecond self.maxPerMinute history now ∧
      Follows r (self.tryAcquireIn r now).2
        (recorded r self.maxPerSecond self.maxPerMinute history now) now ∧
      (self.tryAcquireIn r now).2.maxPerSecond = self.maxPerSecond ∧
      (self.tryAcquireIn r now).2.maxPerMinute = self.maxPerMinute := by
  have past : ∀ t ∈ history, t ≤ now := fun t member => (follows.past t member).trans later
  have young : r.sub now now ≤ 0 := by rw [Rounding.sub, sub_self, Rounding.map_zero]
  obtain ⟨decision, left⟩ := tryAcquireIn_eq r self now
  have ruled : (self.tryAcquireIn r now).1.1 =
      admits r self.maxPerSecond self.maxPerMinute history now := by
    rw [decision, follows.second now later, follows.minute now later, admits]
  refine ⟨ruled, ?_, by rw [left], by rw [left]⟩
  rw [left, ruled, recorded]
  cases admitted : admits r self.maxPerSecond self.maxPerMinute history now with
  | true =>
    have longer : (history ++ [now]).Pairwise (· ≤ ·) :=
      List.pairwise_append.mpr ⟨follows.ordered, List.pairwise_singleton _ _,
        fun t member s same => List.mem_singleton.mp same ▸ past t member⟩
    constructor
    · exact longer
    · exact List.forall_mem_append.mpr ⟨past, List.forall_mem_singleton.mpr le_rfl⟩
    · exact follows.second.push (ages_sub r) longer later (young.trans zero_le_one)
    · exact follows.minute.push (ages_sub r) longer later (young.trans (by norm_num))
  | false =>
    simp only [Bool.false_eq_true, if_false, List.append_nil]
    constructor
    · exact follows.ordered
    · exact past
    · exact follows.second.trim (ages_sub r) follows.ordered later
    · exact follows.minute.trim (ages_sub r) follows.ordered later

/-- Over any calls the limiter rules as the one that forgets nothing does. -/
theorem Follows.called (follows : Follows r self history last)
    (ordered : (last :: calls).Pairwise (· ≤ ·)) :
    self.verdictsIn r calls = rulings r self.maxPerSecond self.maxPerMinute history calls ∧
      Follows r (self.calledIn r calls) (remembered r self.maxPerSecond self.maxPerMinute history calls)
        (calls.getLast?.getD last) ∧
      (self.calledIn r calls).maxPerSecond = self.maxPerSecond ∧
      (self.calledIn r calls).maxPerMinute = self.maxPerMinute := by
  induction calls generalizing self history last with
  | nil => exact ⟨rfl, follows, rfl, rfl⟩
  | cons now rest ih =>
    rw [List.pairwise_cons] at ordered
    obtain ⟨ruled, kept, second, minute⟩ := follows.tryAcquireIn (ordered.1 now List.mem_cons_self)
    obtain ⟨rulings, reached, caps⟩ := ih kept ordered.2
    rw [second, minute] at rulings reached caps
    refine ⟨?_, ?_, caps⟩
    · rw [verdictsIn, ruled, rulings]
      rfl
    · rw [List.getLast?_cons, Option.getD_some]
      exact reached

theorem Follows.later (follows : Follows r self history last) (later : last ≤ now) :
    Follows r self history now :=
  ⟨follows.ordered, fun t member => (follows.past t member).trans later,
    follows.second.later later, follows.minute.later later⟩

end Follow

section Fresh

variable (r : Rounding) (maxPerSecond : ℚ) (maxPerMinute : ℕ) {calls : List ℚ} {now : ℚ}

theorem fresh_called (ordered : calls.Pairwise (· ≤ ·)) (past : ∀ t ∈ calls, t ≤ now) :
    (fresh maxPerSecond maxPerMinute).acceptedIn r calls =
        remembered r maxPerSecond maxPerMinute [] calls ∧
      Follows r ((fresh maxPerSecond maxPerMinute).calledIn r calls)
        (remembered r maxPerSecond maxPerMinute [] calls) now ∧
      ((fresh maxPerSecond maxPerMinute).calledIn r calls).maxPerSecond = maxPerSecond ∧
      ((fresh maxPerSecond maxPerMinute).calledIn r calls).maxPerMinute = maxPerMinute := by
  -- the first call, or else `now`, is a time from which the empty windows track
  have begins : (calls.head?.getD now :: calls).Pairwise (· ≤ ·) := by
    refine List.pairwise_cons.mpr ⟨?_, ordered⟩
    cases calls with
    | nil => simp
    | cons first rest =>
      intro t member
      rcases List.mem_cons.mp member with rfl | member
      · exact le_rfl
      · exact (List.pairwise_cons.mp ordered).1 t member
  obtain ⟨ruled, follows, caps⟩ := (follows_fresh r maxPerSecond maxPerMinute _).called begins
  refine ⟨?_, follows.later ?_, caps⟩
  · rw [acceptedIn, ruled, remembered_eq]
    rfl
  · cases last : calls.getLast? with
    | none =>
      rw [List.getLast?_eq_none_iff.mp last]
      exact le_rfl
    | some final => exact past final (List.mem_of_getLast? last)

/-- What the limiter promises over some calls. No interval of a second or of a minute, wherever it
begins, has more accepted calls than the limits allow; a call is rejected exactly when those that
are at most a second or a minute old, as the difference is rounded, are too many; and a rejected
call changes no later decision. -/
structure Limits (limiter : TokenRateLimiter) (calls : List ℚ) : Prop where
  second : ∀ first, (between first (first + 1) (limiter.acceptedIn r calls)).length ≤
    ⌈limiter.maxPerSecond⌉₊
  minute : ∀ first, (between first (first + 60) (limiter.acceptedIn r calls)).length ≤
    limiter.maxPerMinute
  rejected : ∀ before now after, calls = before ++ now :: after →
    (((limiter.calledIn r before).tryAcquireIn r now).1.1 = false ↔
      limiter.maxPerSecond ≤ ((recent r.sub 1 now (limiter.acceptedIn r before)).length : ℚ) ∨
        limiter.maxPerMinute ≤ (recent r.sub 60 now (limiter.acceptedIn r before)).length)
  unchanged : ∀ before now after, calls = before ++ now :: after →
    ((limiter.calledIn r before).tryAcquireIn r now).1.1 = false →
      (limiter.calledIn r (before ++ [now])).verdictsIn r after =
        (limiter.calledIn r before).verdictsIn r after

/-- A new limiter keeps its promise over every sequence of calls in order of time, however the
differences are rounded. Where none is rounded, the calls that are at most so old are those of
the closed interval before the call. -/
theorem sliding_window (ordered : calls.Pairwise (· ≤ ·)) :
    Limits r (fresh maxPerSecond maxPerMinute) calls ∧
      ∀ before now after, calls = before ++ now :: after → ∀ width,
        (∀ t ∈ before, r.Holds (now - t)) →
        recent r.sub width now ((fresh maxPerSecond maxPerMinute).acceptedIn r before) =
          between (now - width) now ((fresh maxPerSecond maxPerMinute).acceptedIn r before) := by
  have bounded : ∀ first,
      (between first (first + 1) ((fresh maxPerSecond maxPerMinute).acceptedIn r calls)).length ≤
          ⌈maxPerSecond⌉₊ ∧
        (between first (first + 60) ((fresh maxPerSecond maxPerMinute).acceptedIn r calls)).length ≤
          maxPerMinute := by
    obtain ⟨last, past⟩ := calls.toFinset.exists_le
    obtain ⟨remembers, follows, -⟩ := fresh_called r maxPerSecond maxPerMinute ordered
      (fun t member => past t (List.mem_toFinset.mpr member))
    rw [remembers]
    have spaced : Spaced r maxPerSecond maxPerMinute [] := by
      intro before now start
      simp at start
    exact (spaced.remembered calls).bounded
  refine ⟨⟨fun first => (bounded first).1, fun first => (bounded first).2, ?_, ?_⟩, ?_⟩
  · -- the history holds all accepted calls, so the ruling is about all of them
    rintro before now after rfl
    obtain ⟨first, -, among⟩ := List.pairwise_append.mp ordered
    obtain ⟨remembers, follows, second, minute⟩ := fresh_called r maxPerSecond maxPerMinute first
      (fun t member => among t member now List.mem_cons_self)
    have ruled := (follows.tryAcquireIn le_rfl).1
    rw [second, minute] at ruled
    rw [ruled, remembers, admits, decide_eq_false_iff_not, not_and_or, not_lt, not_lt]
    rfl
  · rintro before now after rfl rejected
    obtain ⟨first, rest, among⟩ := List.pairwise_append.mp ordered
    obtain ⟨-, follows, second, minute⟩ := fresh_called r maxPerSecond maxPerMinute first
      (fun t member => among t member now List.mem_cons_self)
    obtain ⟨ruled, kept, caps⟩ := follows.tryAcquireIn le_rfl
    rw [second, minute] at ruled kept caps
    -- both limiters follow the same history, and so rule alike
    rw [rejected] at ruled
    rw [recorded, ← ruled, if_neg Bool.false_ne_true] at kept
    have with_ := (kept.called rest).1
    have without := (follows.called rest).1
    rw [caps.1, caps.2] at with_
    rw [second, minute] at without
    rw [calledIn, List.foldl_concat]
    exact with_.trans without.symm
  · rintro before now after rfl width unrounded
    obtain ⟨-, -, among⟩ := List.pairwise_append.mp ordered
    have called {t : ℚ} (held : t ∈ (fresh maxPerSecond maxPerMinute).acceptedIn r before) :
        t ∈ before := by
      obtain ⟨call, kept, rfl⟩ := List.mem_map.mp held
      exact (List.of_mem_zip (List.mem_of_mem_filter kept)).1
    rw [← recent_eq_between fun t held => among t (called held) now List.mem_cons_self]
    apply List.filter_congr
    intro t held
    rw [Rounding.sub, unrounded t (called held)]

end Fresh

/-- Two calls in half a second are accepted, a third a second after the first is not. -/
theorem third_rejected :
    (((fresh 2 60).calledIn .binary64 [0, 1 / 2]).tryAcquireIn .binary64 1).1.1 = false := by
  have ordered : [(0 : ℚ), 1 / 2, 1].Pairwise (· ≤ ·) := by decide +kernel
  apply ((sliding_window .binary64 2 60 ordered).1.rejected [0, 1 / 2] 1 [] rfl).mpr
  decide +kernel

/-- The doubles 0.1 and 1.1 are more than a second apart, and their difference is rounded to one
second: the second call is rejected, with no accepted call in the second before it. -/
theorem second_rejected_in_doubles :
    let r := Rounding.binary64
    let now := r (11 / 10)
    (((fresh 1 60).calledIn r [r (1 / 10)]).tryAcquireIn r now).1.1 = false ∧
      between (now - 1) now ((fresh 1 60).acceptedIn r [r (1 / 10)]) = [] ∧
      (between (now - 60) now ((fresh 1 60).acceptedIn r [r (1 / 10)])).length = 1 := by
  decide +kernel

end Binbot.TokenRateLimiter
