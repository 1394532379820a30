import Binbot.Data.SlidingWindow
import Mathlib.Data.List.Forall2
import Mathlib.Order.Bounds.Basic

/-!
# Keeping a pace

A pace is a list of limits, each on how many times an interval of some width may hold. Taking
every call that the pace has room for takes as many calls as any other way of keeping it, and
takes each of them no later.
-/
namespace Binbot.Data.Pacing

open SlidingWindow List

variable {α : Type} [AddCommGroup α] [LinearOrder α]

structure Limit (α : Type) [Zero α] [LE α] where
  width : α
  most : ℕ
  nonneg : 0 ≤ width

/-- No interval holds more times than its limit allows, wherever it begins. -/
def Keeps (limits : List (Limit α)) (times : List α) : Prop :=
  ∀ limit ∈ limits, ∀ first, (between first (first + limit.width) times).length ≤ limit.most

/-- There is room for one more. -/
def Room (limits : List (Limit α)) (history : List α) (now : α) : Prop :=
  ∀ limit ∈ limits, (between (now - limit.width) now history).length < limit.most

instance (limits : List (Limit α)) (history : List α) (now : α) :
    Decidable (Room limits history now) :=
  inferInstanceAs (Decidable (∀ limit ∈ limits, _))

def take (limits : List (Limit α)) (history : List α) (now : α) : List α :=
  if Room limits history now then history ++ [now] else history

/-- The calls that are taken when every call is taken that there is room for. -/
def eager (limits : List (Limit α)) (calls : List α) : List α := calls.foldl (take limits) []

variable {limits : List (Limit α)} {calls chosen history : List α} {now : α}

@[simp] theorem eager_concat (limits : List (Limit α)) (calls : List α) (now : α) :
    eager limits (calls ++ [now]) = take limits (eager limits calls) now := by
  simp [eager]

theorem eager_sublist (limits : List (Limit α)) (calls : List α) : eager limits calls <+ calls := by
  induction calls using List.reverseRecOn with
  | nil => exact .slnil
  | append_singleton before now ih =>
    rw [eager_concat, take]
    split
    · exact ih.append_right [now]
    · exact ih.trans (sublist_append_left before [now])

/-- What leaves calls out keeps the pace too. -/
theorem Keeps.sublist (keeps : Keeps limits history) (fewer : chosen <+ history) :
    Keeps limits chosen :=
  fun limit member first =>
    ((fewer.filter _).length_le).trans (keeps limit member first)

omit [AddCommGroup α] in
/-- Times that are no later are no more recent. -/
theorem between_le_of_earlier {earlier later : List α} (each : Forall₂ (· ≤ ·) earlier later)
    (past : ∀ t ∈ later, t ≤ now) (first : α) :
    (between first now earlier).length ≤ (between first now later).length := by
  induction each with
  | nil => exact le_rfl
  | @cons t u earlier later before _ ih =>
    have rest := ih fun t member => past t (mem_cons_of_mem u member)
    have last : u ≤ now := past u mem_cons_self
    simp only [between, filter_cons] at rest ⊢
    by_cases young : first ≤ t
    · have both : first ≤ u ∧ u ≤ now := ⟨young.trans before, last⟩
      simpa [young, before.trans last, both] using rest
    · simp only [young, false_and, decide_false, Bool.false_eq_true, if_false]
      split
      · exact rest.trans (Nat.le_succ _)
      · exact rest

variable [IsOrderedAddMonoid α]

/-- Taking eagerly keeps the pace. -/
theorem eager_keeps (ordered : calls.Pairwise (· ≤ ·)) : Keeps limits (eager limits calls) := by
  intro limit member first
  suffices each : ∀ before t, before ++ [t] <+: eager limits calls →
      (recent (· - ·) limit.width t before).length < limit.most from
    length_between_le each fun t now => sub_le_of_between
  induction calls using List.reverseRecOn with
  | nil =>
    intro before t start
    simp [eager] at start
  | append_singleton before now ih =>
    obtain ⟨earlier, -, last⟩ := pairwise_append.mp ordered
    have past : ∀ t ∈ eager limits before, t ≤ now := fun t taken =>
      last t ((eager_sublist limits before).subset taken) now (mem_singleton_self now)
    intro taken t start
    rw [eager_concat, take] at start
    split at start
    next room =>
      rcases prefix_concat_iff.mp start with whole | shorter
      · obtain ⟨rfl, same⟩ := append_inj' whole rfl
        cases same
        rw [recent_eq_between past]
        exact room limit member
      · exact ih earlier taken t shorter
    next => exact ih earlier taken t start

/-- A pace that is kept with a call has room for it, whatever earlier calls are put in place of
the others. -/
theorem room_of_keeps {times : List α} (keeps : Keeps limits (times ++ [now]))
    (past : ∀ t ∈ times, t ≤ now) (each : Forall₂ (· ≤ ·) history times) :
    Room limits history now := by
  intro limit member
  have kept := keeps limit member (now - limit.width)
  rw [sub_add_cancel, between_concat, if_pos ⟨sub_le_self now limit.nonneg, le_rfl⟩] at kept
  have fewer := between_le_of_earlier each past (now - limit.width)
  rw [length_append, length_singleton] at kept
  omega

/-- However the calls are chosen, as long as the pace is kept: the call that is taken in the same
place is no later. -/
theorem eager_earliest (ordered : calls.Pairwise (· ≤ ·)) (among : chosen <+ calls)
    (keeps : Keeps limits chosen) :
    Forall₂ (· ≤ ·) ((eager limits calls).take chosen.length) chosen := by
  induction calls using List.reverseRecOn generalizing chosen with
  | nil =>
    rw [sublist_nil.mp among]
    exact .nil
  | append_singleton before now ih =>
    obtain ⟨earlier, -, last⟩ := pairwise_append.mp ordered
    have past : ∀ {times : List α}, times <+ before → ∀ t ∈ times, t ≤ now :=
      fun part t member => last t (part.subset member) now (mem_singleton_self now)
    have grown : ∀ n ≤ (eager limits before).length,
        (eager limits (before ++ [now])).take n = (eager limits before).take n := by
      intro n enough
      rw [eager_concat, Pacing.take]
      split
      · exact take_append_of_le_length enough
      · rfl
    have longEnough : ∀ {times : List α},
        Forall₂ (· ≤ ·) ((eager limits before).take times.length) times →
          times.length ≤ (eager limits before).length := by
      intro times each
      have lengths := each.length_eq
      rw [length_take] at lengths
      omega
    obtain ⟨front, back, rfl, part, tail⟩ := sublist_append_iff.mp among
    have each := ih earlier part (keeps.sublist (sublist_append_left front back))
    have enough := longEnough each
    rcases sublist_singleton.mp tail with rfl | rfl
    · -- the last call is not chosen
      rw [append_nil, grown _ enough]
      exact each
    · rw [length_append, length_singleton]
      rcases enough.lt_or_eq with more | same
      · -- one more has been taken already
        rw [grown _ more, take_succ_eq_append_getElem more]
        apply rel_append each
        exact .cons (past (eager_sublist limits before) _ (getElem_mem more)) .nil
      · -- as many have been taken, and none later, so there is room
        rw [same, take_length] at each
        have room := room_of_keeps keeps (past part) each
        rw [eager_concat, Pacing.take, if_pos room, same, take_of_length_le (by simp)]
        exact rel_append each (.cons le_rfl .nil)

/-- No way of keeping the pace takes more calls. -/
theorem eager_greatest (limits : List (Limit α)) (ordered : calls.Pairwise (· ≤ ·)) :
    IsGreatest {n | ∃ chosen, chosen <+ calls ∧ Keeps limits chosen ∧ chosen.length = n}
      (eager limits calls).length := by
  constructor
  · exact ⟨_, eager_sublist limits calls, eager_keeps ordered, rfl⟩
  · rintro n ⟨chosen, among, keeps, rfl⟩
    have lengths := (eager_earliest ordered among keeps).length_eq
    rw [length_take] at lengths
    omega

end Binbot.Data.Pacing
