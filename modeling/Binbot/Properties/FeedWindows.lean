import Binbot.Feeds.UniverseFeed

/-!
# The windows of the universe feed

A history is trimmed only when a sample is appended, and only at its front. It is the
declared window all the same, whatever gaps and bursts the samples come in, and so the
answers compare the newest sample with the oldest one of the window.
-/
namespace Binbot.FeedWindows

open Data Data.SlidingWindow

def after (priceWindow fundingWindow : ℤ) (acts : List FeedAct) : BinanceUniverseFeed :=
  acts.foldl FeedAct.apply { priceWindow := priceWindow, fundingWindow := fundingWindow }

/-- The price samples a symbol has got. -/
def priceSamples (symbol : Symbol) (acts : List FeedAct) : List Sample :=
  (acts.filter (·.symbol? = some symbol)).flatMap FeedAct.prices

def fundingSamples (symbol : Symbol) (acts : List FeedAct) : List Sample :=
  (acts.filter (·.symbol? = some symbol)).flatMap FeedAct.fundings

/-- The samples of a window reach from `oldest` to `newest`, over nearly all of it. -/
structure Spans (window : ℤ) (samples : List Sample) (oldest newest : Sample) : Prop where
  several : 2 ≤ (inWindow window Prod.fst samples).length
  first : (inWindow window Prod.fst samples).head? = some oldest
  last : samples.getLast? = some newest
  wide : nineTenths window ≤ newest.1 - oldest.1

variable {priceWindow fundingWindow : ℤ} {acts : List FeedAct} {symbol : Symbol}

theorem after_windows (priceWindow fundingWindow : ℤ) (acts : List FeedAct) :
    (after priceWindow fundingWindow acts).priceWindow = priceWindow ∧
      (after priceWindow fundingWindow acts).fundingWindow = fundingWindow := by
  induction acts using List.reverseRecOn with
  | nil => exact ⟨rfl, rfl⟩
  | append_singleton before act ih =>
    have kept := FeedAct.apply_windows (after priceWindow fundingWindow before) act
    rw [after, List.foldl_append, List.foldl_cons, List.foldl_nil, ← after]
    exact ⟨kept.1.trans ih.1, kept.2.trans ih.2⟩

/-- A symbol's histories are what its own samples make, appended one after the other. -/
theorem after_histories (acts : List FeedAct) (symbol : Symbol) :
    (after priceWindow fundingWindow acts).prices symbol =
        (priceSamples symbol acts).foldl (pushTrimmed priceWindow Prod.fst) [] ∧
      (after priceWindow fundingWindow acts).fundings symbol =
        (fundingSamples symbol acts).foldl (pushTrimmed fundingWindow Prod.fst) [] := by
  induction acts using List.reverseRecOn with
  | nil => exact ⟨rfl, rfl⟩
  | append_singleton before act ih =>
    -- The act appends its own samples to the histories that those before have left.
    obtain ⟨prices, fundings⟩ := ih
    obtain ⟨priced, funded⟩ := after_windows priceWindow fundingWindow before
    rw [after, List.foldl_append, List.foldl_cons, List.foldl_nil, ← after]
    by_cases own : act.symbol? = some symbol
    · have appends := FeedAct.apply_appends (after priceWindow fundingWindow before) act own
      rw [appends.prices, appends.fundings, if_pos rfl, if_pos rfl, priced, funded, prices,
        fundings]
      simp [priceSamples, fundingSamples, own, List.foldl_append]
    · rw [(FeedAct.apply_other _ act own).1, (FeedAct.apply_other _ act own).2, prices, fundings]
      simp [priceSamples, fundingSamples, own]

/-- Nine tenths of a window of whole minutes are exact. -/
theorem nineTenths_le_iff {window : ℤ} (even : 10 ∣ window) (span : ℤ) :
    nineTenths window ≤ span ↔ (9 / 10 : ℚ) * window ≤ span := by
  obtain ⟨tenth, rfl⟩ := even
  have exact_value : ((10 * tenth : ℤ) : ℚ) * (9 / 10) = ((9 * tenth : ℤ) : ℚ) := by
    push_cast
    ring
  rw [nineTenths, mul_comm (9 / 10 : ℚ), exact_value, roundHalfEven_intCast, Int.cast_le]

/-- The ends of a history that is long enough for an answer. -/
def ends (window : ℤ) (history : List Sample) : Option (Sample × Sample) :=
  if history.length < 2 then none
  else
    match history.head?, history.getLast? with
    | some oldest, some newest =>
      if newest.1 - oldest.1 < nineTenths window then none else some (oldest, newest)
    | _, _ => none

theorem ends_inWindow_iff {window : ℤ} {samples : List Sample}
    (ordered : samples.Pairwise (·.1 ≤ ·.1)) (oldest newest : Sample) :
    ends window (inWindow window Prod.fst samples) = some (oldest, newest) ↔
      Spans window samples oldest newest := by
  by_cases several : (inWindow window Prod.fst samples).length < 2
  · rw [ends, if_pos several]
    constructor
    · intro none_found
      cases none_found
    · intro spans
      exact absurd spans.several several.not_ge
  · -- What is newest in the window is the newest of all.
    have some_left : inWindow window Prod.fst samples ≠ [] := by
      intro empty
      simp [empty] at several
    have last_eq := getLast?_inWindow ordered some_left
    obtain ⟨first, first_eq⟩ := Option.ne_none_iff_exists'.mp (mt List.head?_eq_none_iff.mp some_left)
    obtain ⟨last, is_last⟩ := Option.ne_none_iff_exists'.mp
      (mt List.getLast?_eq_none_iff.mp some_left)
    rw [ends, if_neg several, first_eq, is_last]
    rw [last_eq] at is_last
    constructor
    · intro found
      dsimp only at found
      split at found
      · cases found
      · next wide =>
        cases found
        exact ⟨not_lt.mp several, first_eq, is_last, not_lt.mp wide⟩
    · intro spans
      obtain rfl := Option.some.inj (first_eq.symm.trans spans.first)
      obtain rfl := Option.some.inj (is_last.symm.trans spans.last)
      exact if_neg spans.wide.not_gt

theorem priceChangePct_eq (feed : BinanceUniverseFeed) (symbol : Symbol) :
    feed.priceChangePct symbol =
      (ends feed.priceWindow (feed.prices symbol)).bind fun (oldest, newest) =>
        if oldest.2 = 0 then none else some ((newest.2 - oldest.2) / oldest.2 * 100) := by
  unfold BinanceUniverseFeed.priceChangePct ends
  dsimp only
  by_cases short : (feed.prices symbol).length < 2
  · simp [short]
  · cases (feed.prices symbol).head? with
    | none => simp [short]
    | some oldest =>
      cases (feed.prices symbol).getLast? with
      | none => simp [short]
      | some newest =>
        by_cases narrow : newest.1 - oldest.1 < nineTenths feed.priceWindow <;> simp [short, narrow]

theorem fundingTrend_eq (feed : BinanceUniverseFeed) (symbol : Symbol) :
    feed.fundingTrend symbol =
      (ends feed.fundingWindow (feed.fundings symbol)).map fun (oldest, newest) =>
        (newest.2, oldest.2) := by
  unfold BinanceUniverseFeed.fundingTrend ends
  dsimp only
  by_cases short : (feed.fundings symbol).length < 2
  · simp [short]
  · cases (feed.fundings symbol).head? with
    | none => simp [short]
    | some oldest =>
      cases (feed.fundings symbol).getLast? with
      | none => simp [short]
      | some newest =>
        by_cases narrow : newest.1 - oldest.1 < nineTenths feed.fundingWindow <;> simp [short, narrow]

theorem after_price (acts : List FeedAct)
    (ordered : (priceSamples symbol acts).Pairwise (·.1 ≤ ·.1)) (change : ℚ) :
    (after priceWindow fundingWindow acts).priceChangePct symbol = some change ↔
      ∃ oldest newest, Spans priceWindow (priceSamples symbol acts) oldest newest ∧
        oldest.2 ≠ 0 ∧ change = (newest.2 - oldest.2) / oldest.2 * 100 := by
  rw [priceChangePct_eq, (after_windows _ _ acts).1, (after_histories acts symbol).1,
    foldl_pushTrimmed ordered]
  constructor
  · intro answered
    obtain ⟨⟨oldest, newest⟩, found, value⟩ := Option.bind_eq_some_iff.mp answered
    dsimp only at value
    split at value
    · cases value
    · next nonzero =>
      cases value
      exact ⟨oldest, newest, (ends_inWindow_iff ordered oldest newest).mp found, nonzero, rfl⟩
  · rintro ⟨oldest, newest, spans, nonzero, rfl⟩
    rw [(ends_inWindow_iff ordered oldest newest).mpr spans]
    exact if_neg nonzero

theorem after_funding (acts : List FeedAct)
    (ordered : (fundingSamples symbol acts).Pairwise (·.1 ≤ ·.1)) (trend : ℚ × ℚ) :
    (after priceWindow fundingWindow acts).fundingTrend symbol = some trend ↔
      ∃ oldest newest, Spans fundingWindow (fundingSamples symbol acts) oldest newest ∧
        trend = (newest.2, oldest.2) := by
  rw [fundingTrend_eq, (after_windows _ _ acts).2, (after_histories acts symbol).2,
    foldl_pushTrimmed ordered]
  constructor
  · intro answered
    obtain ⟨⟨oldest, newest⟩, found, rfl⟩ := Option.map_eq_some_iff.mp answered
    exact ⟨oldest, newest, (ends_inWindow_iff ordered oldest newest).mp found, rfl⟩
  · rintro ⟨oldest, newest, spans, rfl⟩
    rw [(ends_inWindow_iff ordered oldest newest).mpr spans]
    rfl

theorem windows_roll (priceWindow fundingWindow : ℤ) (acts : List FeedAct) (symbol : Symbol)
    (prices_ordered : (priceSamples symbol acts).Pairwise (·.1 ≤ ·.1))
    (fundings_ordered : (fundingSamples symbol acts).Pairwise (·.1 ≤ ·.1)) :
    (after priceWindow fundingWindow acts).prices symbol =
        inWindow priceWindow Prod.fst (priceSamples symbol acts) ∧
      (after priceWindow fundingWindow acts).fundings symbol =
        inWindow fundingWindow Prod.fst (fundingSamples symbol acts) ∧
      (∀ change, (after priceWindow fundingWindow acts).priceChangePct symbol = some change ↔
        ∃ oldest newest, Spans priceWindow (priceSamples symbol acts) oldest newest ∧
          oldest.2 ≠ 0 ∧ change = (newest.2 - oldest.2) / oldest.2 * 100) ∧
      (∀ trend, (after priceWindow fundingWindow acts).fundingTrend symbol = some trend ↔
        ∃ oldest newest, Spans fundingWindow (fundingSamples symbol acts) oldest newest ∧
          trend = (newest.2, oldest.2)) ∧
      (∀ (feed : BinanceUniverseFeed) (act : FeedAct), act.symbol? ≠ some symbol →
        (act.apply feed).prices symbol = feed.prices symbol ∧
          (act.apply feed).fundings symbol = feed.fundings symbol) ∧
      ∀ window : ℤ, 10 ∣ window → ∀ span : ℤ,
        nineTenths window ≤ span ↔ (9 / 10 : ℚ) * window ≤ span := by
  refine ⟨?_, ?_, after_price acts prices_ordered, after_funding acts fundings_ordered,
    fun feed act => act.apply_other feed, fun window => nineTenths_le_iff⟩
  · rw [(after_histories acts symbol).1, foldl_pushTrimmed prices_ordered]
  · rw [(after_histories acts symbol).2, foldl_pushTrimmed fundings_ordered]

/-- A sample of long ago, and fifteen minutes of another two, between which comes one of
another symbol. -/
def quarterHour : List FeedAct :=
  [.backfill "BTCUSDT" [⟨0, 50, 50, 50, 50⟩, ⟨2700000, 99, 101, 99, 100⟩] [⟨2700000, 0, 0, 0, 0⟩],
    .item 3000000000 (some ⟨"ETHUSDT", 10, 0⟩), .item 3000000000 none,
    .item 3600000000 (some ⟨"BTCUSDT", 116, 0⟩)]

theorem quarterHour_change :
    (after 900000000 1800000000 quarterHour).priceChangePct "BTCUSDT" = some 16 := by
  refine ((windows_roll 900000000 1800000000 quarterHour "BTCUSDT" (by decide) (by decide)).2.2.1
    16).mpr ⟨(2700000000, 100), (3600000000, 116), ?_, by norm_num, by norm_num⟩
  exact ⟨by decide, rfl, rfl, (nineTenths_le_iff (by decide) _).mpr (by norm_num)⟩

end Binbot.FeedWindows
