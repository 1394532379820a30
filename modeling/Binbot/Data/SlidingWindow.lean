import Mathlib.Algebra.Order.Group.Defs
import Mathlib.Data.List.Induction
import Mathlib.Order.Lattice
import Mathlib.Tactic.Abel

/-!
# Sliding windows

Times come in order. A window is trimmed from the front, and only when it is looked at; it
tracks the history as long as nothing that is still recent gets lost.
-/
namespace Binbot.Data.SlidingWindow

/-- Where nothing to be dropped comes behind something to be kept, dropping from the front
is filtering. -/
theorem dropWhile_eq_filter {β : Type} {drop : β → Bool} {entries : List β}
    (front : entries.Pairwise fun earlier later => drop later = true → drop earlier = true) :
    entries.dropWhile drop = entries.filter fun entry => !drop entry := by
  induction entries with
  | nil => rfl
  | cons entry rest ih =>
    rw [List.pairwise_cons] at front
    by_cases first : drop entry = true
    · rw [List.dropWhile_cons_of_pos first, List.filter_cons_of_neg (by simp [first])]
      exact ih front.2
    · rw [List.dropWhile_cons_of_neg first]
      refine (List.filter_eq_self.mpr fun later member => ?_).symm
      rcases List.mem_cons.mp member with rfl | behind
      · simp [first]
      · simp [mt (front.1 later behind) first]

variable {α : Type} [LinearOrder α]

/-- The times in a closed interval. -/
def between (first last : α) (times : List α) : List α :=
  times.filter fun t => first ≤ t ∧ t ≤ last

/-- The times that are at most `width` old. -/
def recent (age : α → α → α) (width now : α) (times : List α) : List α :=
  times.filter fun t => age now t ≤ width

/-- The window without its oldest times. -/
def trimmed (age : α → α → α) (width now : α) (window : List α) : List α :=
  window.dropWhile fun t => age now t > width

/-- From `last` on, trimming the window gives what is recent of the history. -/
def Tracks (age : α → α → α) (width : α) (window history : List α) (last : α) : Prop :=
  ∀ now, last ≤ now → trimmed age width now window = recent age width now history

/-- How old times are: an earlier one is no younger, and none gets younger. -/
structure Ages (age : α → α → α) : Prop where
  earlier : ∀ now, Antitone (age now)
  later : ∀ t, Monotone (age · t)

section Age

variable {age : α → α → α} {width first last now : α} {times window history : List α}

theorem trimmed_eq_recent (ages : Ages age) (ordered : times.Pairwise (· ≤ ·)) :
    trimmed age width now times = recent age width now times := by
  rw [trimmed, dropWhile_eq_filter, recent]
  · apply List.filter_congr
    intro t _
    rw [← decide_not, decide_eq_decide]
    exact not_lt
  · -- what comes before an old time is older
    apply ordered.imp
    intro earlier later before old
    have older : age now later > width := of_decide_eq_true old
    exact decide_eq_true (older.trans_le (ages.earlier now before))

/-- What is old now does not become recent again. -/
theorem recent_recent (ages : Ages age) (later : last ≤ now) :
    recent age width now (recent age width last times) = recent age width now times := by
  rw [recent, recent, List.filter_filter]
  apply List.filter_congr
  intro t _
  by_cases young : age now t ≤ width
  · have earlier : age last t ≤ width := (ages.later t later).trans young
    simp [young, earlier]
  · simp [young]

/-! ### Tracking -/

theorem tracks_nil (age : α → α → α) (width last : α) : Tracks age width [] [] last :=
  fun _ _ => rfl

theorem Tracks.later (tracks : Tracks age width window history last) (later : last ≤ now) :
    Tracks age width window history now :=
  fun time after => tracks time (later.trans after)

/-- Trimming loses nothing. -/
theorem Tracks.trim (tracks : Tracks age width window history last) (ages : Ages age)
    (ordered : history.Pairwise (· ≤ ·)) (later : last ≤ now) :
    Tracks age width (trimmed age width now window) history now := by
  intro time after
  have kept : (recent age width now history).Pairwise (· ≤ ·) := ordered.filter _
  rw [tracks now later, trimmed_eq_recent ages kept, recent_recent ages after]

/-- The present time goes to the end of the window and of the history. -/
theorem Tracks.push (tracks : Tracks age width window history last) (ages : Ages age)
    (ordered : (history ++ [now]).Pairwise (· ≤ ·)) (later : last ≤ now)
    (young : age now now ≤ width) :
    Tracks age width (trimmed age width now window ++ [now]) (history ++ [now]) now := by
  intro time after
  have grown : recent age width now history ++ [now] = recent age width now (history ++ [now]) := by
    simp [recent, young]
  have kept : (recent age width now (history ++ [now])).Pairwise (· ≤ ·) := ordered.filter _
  rw [tracks now later, grown, trimmed_eq_recent ages kept, recent_recent ages after]

/-! ### Counting -/

theorem between_concat (first last now : α) (times : List α) :
    between first last (times ++ [now]) =
      between first last times ++ if first ≤ now ∧ now ≤ last then [now] else [] := by
  rw [between, List.filter_append, between]
  congr 1
  by_cases inside : first ≤ now ∧ now ≤ last <;> simp [inside]

/-- Where each time comes to fewer than `bound` recent ones, no interval whose times are all recent
at its end has more than `bound`. -/
theorem length_between_le {bound : ℕ}
    (each : ∀ before t, before ++ [t] <+: times → (recent age width t before).length < bound)
    (spans : ∀ t now, first ≤ t → now ≤ last → age now t ≤ width) :
    (between first last times).length ≤ bound := by
  induction times using List.reverseRecOn with
  | nil => exact Nat.zero_le bound
  | append_singleton before now ih =>
    rw [between_concat]
    split
    next inside =>
      -- the earlier ones of the interval are recent for the last one
      have most : (between first last before).length ≤ (recent age width now before).length := by
        rw [between, recent, ← List.countP_eq_length_filter, ← List.countP_eq_length_filter]
        apply List.countP_mono_left
        intro t _ member
        have inner : first ≤ t ∧ t ≤ last := of_decide_eq_true member
        exact decide_eq_true (spans t now inner.1 inside.2)
      have fewer := each before now (List.prefix_refl _)
      rw [List.length_append, List.length_singleton]
      omega
    next =>
      rw [List.append_nil]
      apply ih
      exact fun earlier t start => each earlier t (start.trans (List.prefix_append _ _))

end Age

/-! ### Differences -/

variable [AddCommGroup α] [IsOrderedAddMonoid α] {width first last now : α} {times : List α}

theorem recent_eq_between (past : ∀ t ∈ times, t ≤ now) :
    recent (· - ·) width now times = between (now - width) now times := by
  apply List.filter_congr
  intro t member
  rw [decide_eq_decide, and_iff_left (past t member)]
  exact sub_le_comm

/-- An interval holds no time that is older than it is long. -/
theorem sub_le_of_between {t : α} (after : first ≤ t) (before : now ≤ first + width) :
    now - t ≤ width := by
  rw [sub_le_iff_le_add']
  exact before.trans (add_le_add_left after width)

/-! ### Trimming on each append -/

section Appended

variable {β : Type}

/-- The entries at most `width` older than the newest one. -/
def inWindow (width : α) (time : β → α) (entries : List β) : List β :=
  match entries.getLast? with
  | none => []
  | some newest => entries.filter fun entry => time newest - width ≤ time entry

def pushTrimmed (width : α) (time : β → α) (window : List β) (entry : β) : List β :=
  (window ++ [entry]).dropWhile fun earlier => time earlier < time entry - width

variable {time : β → α} {entries : List β}

omit [IsOrderedAddMonoid α] in
@[simp] theorem inWindow_concat (width : α) (time : β → α) (before : List β) (newest : β) :
    inWindow width time (before ++ [newest]) =
      (before ++ [newest]).filter fun entry => time newest - width ≤ time entry := by
  simp [inWindow]

/-- What the older window has left out, the newer one leaves out too. -/
theorem filter_inWindow {before : List β} {newest : β}
    (ordered : ∀ entry ∈ before, time entry ≤ time newest) (width : α) :
    (inWindow width time before).filter (fun entry => time newest - width ≤ time entry) =
      before.filter fun entry => time newest - width ≤ time entry := by
  cases before using List.reverseRecOn with
  | nil => rfl
  | append_singleton earlier last =>
    have later : time last - width ≤ time newest - width :=
      sub_le_sub_right (ordered last (by simp)) width
    rw [inWindow_concat, List.filter_filter]
    apply List.filter_congr
    intro entry _
    by_cases recent : time newest - width ≤ time entry
    · simp [recent, later.trans recent]
    · simp [recent]

/-- Whatever the gaps, trimming on each append leaves the entries of the window. -/
theorem foldl_pushTrimmed (ordered : entries.Pairwise (time · ≤ time ·)) (width : α) :
    entries.foldl (pushTrimmed width time) [] = inWindow width time entries := by
  induction entries using List.reverseRecOn with
  | nil => rfl
  | append_singleton before newest ih =>
    have sorted := ordered
    rw [List.pairwise_append] at ordered
    obtain ⟨ordered, -, last⟩ := ordered
    have past : ∀ entry ∈ before, time entry ≤ time newest :=
      fun entry held => last entry held newest (by simp)
    -- The window is a sublist of the entries, so its times are in order as well.
    have window_sorted : (inWindow width time before ++ [newest]).Pairwise (time · ≤ time ·) := by
      refine sorted.sublist (List.Sublist.append_right ?_ _)
      rw [inWindow]
      split
      · exact List.nil_sublist _
      · exact List.filter_sublist
    rw [List.foldl_append, List.foldl_cons, List.foldl_nil, ih ordered, pushTrimmed,
      dropWhile_eq_filter, inWindow_concat, List.filter_append, List.filter_append]
    · simp only [← decide_not, not_lt]
      rw [filter_inWindow past]
    · refine window_sorted.imp fun before old => ?_
      simpa using before.trans_lt (by simpa using old)

/-- A window that is not empty ends with the newest entry. -/
theorem getLast?_inWindow (ordered : entries.Pairwise (time · ≤ time ·)) {width : α}
    (some_left : inWindow width time entries ≠ []) :
    (inWindow width time entries).getLast? = entries.getLast? := by
  cases entries using List.reverseRecOn with
  | nil => rfl
  | append_singleton before newest =>
    rw [inWindow_concat] at some_left ⊢
    obtain ⟨entry, kept⟩ := List.exists_mem_of_ne_nil _ some_left
    obtain ⟨held, recent⟩ := List.mem_filter.mp kept
    -- Nothing is newer than the newest one, so it is recent too.
    have past : time entry ≤ time newest := by
      rcases List.mem_append.mp held with earlier | is_newest
      · exact (List.pairwise_append.mp ordered).2.2 entry earlier newest (by simp)
      · exact (List.mem_singleton.mp is_newest) ▸ le_rfl
    have newest_kept : [newest].filter (fun entry => time newest - width ≤ time entry) =
        [newest] := List.filter_eq_self.mpr (by simpa using (of_decide_eq_true recent).trans past)
    rw [List.filter_append, newest_kept, List.getLast?_concat, List.getLast?_concat]

end Appended

end Binbot.Data.SlidingWindow
