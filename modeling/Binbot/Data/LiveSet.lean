import Mathlib.Data.List.Nodup
import Mathlib.Data.List.ReduceOption

/-!
# Sets that change while they are iterated

The hash sets of the modelled language: a table of slots, some of them empty. An iterator
walks over the table by its position. Of a change of the set it sees the size only, and a
table may be rebuilt in any order.
-/
namespace Binbot.Data

structure LiveSet (α : Type) where
  slots : List (Option α)
  nodup : slots.reduceOption.Nodup

namespace LiveSet

variable {α : Type}

def empty : LiveSet α := ⟨[], List.nodup_nil⟩

def members (s : LiveSet α) : List α := s.slots.reduceOption

def size (s : LiveSet α) : ℕ := s.members.length

theorem members_nodup (s : LiveSet α) : s.members.Nodup := s.nodup

@[simp] theorem members_empty : (empty : LiveSet α).members = [] := rfl

theorem reduceOption_map_some (xs : List α) : (xs.map some).reduceOption = xs := by
  rw [List.reduceOption, List.filterMap_map]
  exact List.filterMap_some

section Change

variable [DecidableEq α]

/-- A table of the given members, laid out so if these are its members at all. -/
def arranged (layout : List (Option α)) (xs : List α) (nodup : xs.Nodup) : LiveSet α :=
  if same : layout.reduceOption.Perm xs then ⟨layout, same.nodup_iff.mpr nodup⟩
  else ⟨xs.map some, by rwa [reduceOption_map_some]⟩

theorem arranged_members (layout : List (Option α)) (xs : List α) (nodup : xs.Nodup) :
    (arranged layout xs nodup).members.Perm xs := by
  rw [arranged]
  split
  next same => exact same
  next => rw [members, reduceOption_map_some]

/-- `s.add(x)`. -/
def insert (x : α) (layout : List (Option α)) (s : LiveSet α) : LiveSet α :=
  if present : x ∈ s.members then s
  else arranged layout (x :: s.members) (List.nodup_cons.mpr ⟨present, s.members_nodup⟩)

@[simp] theorem mem_insert {x y : α} {layout : List (Option α)} {s : LiveSet α} :
    y ∈ (s.insert x layout).members ↔ y = x ∨ y ∈ s.members := by
  rw [insert]
  split
  next present =>
    refine ⟨.inr, ?_⟩
    rintro (rfl | member)
    · exact present
    · exact member
  next => rw [(arranged_members _ _ _).mem_iff, List.mem_cons]

/-- The slots of what is taken out are left empty. -/
def without (xs : List α) (slots : List (Option α)) : List (Option α) :=
  slots.map fun slot => slot.filter (· ∉ xs)

theorem reduceOption_without (xs : List α) (slots : List (Option α)) :
    (without xs slots).reduceOption = slots.reduceOption.filter (· ∉ xs) := by
  induction slots with
  | nil => rfl
  | cons slot rest ih =>
    rw [without, List.map_cons, ← without]
    cases slot with
    | none => exact ih
    | some x =>
      rw [List.reduceOption_cons_of_some, Option.filter_some]
      by_cases gone : x ∈ xs
      · rw [if_neg (by simpa using gone), List.filter_cons_of_neg (by simpa using gone)]
        exact ih
      · rw [if_pos (by simpa using gone), List.filter_cons_of_pos (by simpa using gone),
          List.reduceOption_cons_of_some, ih]

/-- `s -= xs`. With a layout the table is rebuilt. -/
def diff (xs : List α) (layout : Option (List (Option α))) (s : LiveSet α) : LiveSet α :=
  match layout with
  | none => ⟨without xs s.slots, by
      rw [reduceOption_without]
      exact s.nodup.filter _⟩
  | some layout => arranged layout (s.members.filter (· ∉ xs)) (s.members_nodup.filter _)

@[simp] theorem mem_diff {xs : List α} {layout : Option (List (Option α))} {s : LiveSet α} {y : α} :
    y ∈ (s.diff xs layout).members ↔ y ∈ s.members ∧ y ∉ xs := by
  cases layout with
  | none => rw [diff, members, reduceOption_without, List.mem_filter, decide_eq_true_iff, members]
  | some layout => rw [diff, (arranged_members _ _ _).mem_iff, List.mem_filter, decide_eq_true_iff]

/-- Where nothing is taken out and nothing is rebuilt, the table stays as it is. -/
theorem diff_absent {xs : List α} {s : LiveSet α} (absent : ∀ x ∈ xs, x ∉ s.members) :
    s.diff xs none = s := by
  obtain ⟨slots, nodup⟩ := s
  have same : without xs slots = slots := by
    conv_rhs => rw [← List.map_id slots]
    apply List.map_congr_left
    intro slot member
    cases slot with
    | none => rfl
    | some x =>
      have kept : x ∉ xs := fun gone => absent x gone (List.reduceOption_mem_iff.mpr member)
      rw [Option.filter_some, if_pos (by simpa using kept), id]
  simp only [diff, same]

/-- `s.discard(x)`. -/
def discard (x : α) (s : LiveSet α) : LiveSet α := s.diff [x] none

end Change

/-! ## Iterators -/

/-- The size that the set had at first, and the next slot. -/
structure Cursor where
  used : ℕ
  pos : ℕ
  deriving DecidableEq

inductive Next (α : Type) where
  /-- The set has another size than at first. -/
  | changed
  | stop
  | item (x : α) (cursor : Cursor)
  deriving DecidableEq

/-- The first slot that holds something, and the position after it. -/
def scan (pos : ℕ) : List (Option α) → Option (α × ℕ)
  | [] => none
  | none :: rest => scan (pos + 1) rest
  | some x :: _ => some (x, pos + 1)

def iter (s : LiveSet α) : Cursor := ⟨s.size, 0⟩

def next (s : LiveSet α) (cursor : Cursor) : Next α :=
  if cursor.used ≠ s.size then .changed
  else
    match scan cursor.pos (s.slots.drop cursor.pos) with
    | none => .stop
    | some (x, pos) => .item x { cursor with pos }

/-- What the iterator has yet to come to. -/
def remaining (s : LiveSet α) (cursor : Cursor) : List α := (s.slots.drop cursor.pos).reduceOption

@[simp] theorem used_iter (s : LiveSet α) : s.iter.used = s.size := rfl

@[simp] theorem remaining_iter (s : LiveSet α) : s.remaining s.iter = s.members := rfl

theorem scan_none {pos : ℕ} {slots : List (Option α)} (none_ : scan pos slots = none) :
    slots.reduceOption = [] := by
  induction slots generalizing pos with
  | nil => rfl
  | cons slot rest ih =>
    cases slot with
    | none => exact ih none_
    | some x => cases none_

theorem scan_some {pos after : ℕ} {slots : List (Option α)} {x : α}
    (found : scan pos slots = some (x, after)) :
    ∃ k, after = pos + k ∧ slots.reduceOption = x :: (slots.drop k).reduceOption := by
  induction slots generalizing pos with
  | nil => cases found
  | cons slot rest ih =>
    cases slot with
    | none =>
      obtain ⟨k, rfl, split⟩ := ih found
      exact ⟨k + 1, by omega, split⟩
    | some y =>
      cases found
      exact ⟨1, rfl, rfl⟩

/-- An iterator over a set of one size comes to what remains, in its order. -/
theorem next_cases {s : LiveSet α} {cursor : Cursor} (same : cursor.used = s.size) :
    (s.next cursor = .stop ∧ s.remaining cursor = []) ∨
    ∃ x later, s.next cursor = .item x later ∧ later.used = s.size ∧
      s.remaining cursor = x :: s.remaining later := by
  rw [next, if_neg (not_not.mpr same)]
  cases found : scan cursor.pos (s.slots.drop cursor.pos) with
  | none => exact .inl ⟨rfl, scan_none found⟩
  | some place =>
    obtain ⟨x, after⟩ := place
    obtain ⟨k, rfl, split⟩ := scan_some found
    refine .inr ⟨x, _, rfl, same, ?_⟩
    rw [remaining, split, List.drop_drop, remaining]

section Next

variable {s : LiveSet α} {x : α} {cursor later : Cursor}

theorem next_ne_changed (same : cursor.used = s.size) : s.next cursor ≠ .changed := by
  intro changed
  rcases next_cases same with ⟨stop, -⟩ | ⟨y, later, item, -⟩
  · cases changed.symm.trans stop
  · cases changed.symm.trans item

theorem remaining_of_stop (same : cursor.used = s.size) (stop : s.next cursor = .stop) :
    s.remaining cursor = [] := by
  rcases next_cases same with ⟨-, empty⟩ | ⟨y, later, item, -⟩
  · exact empty
  · cases stop.symm.trans item

theorem remaining_of_item (same : cursor.used = s.size) (item : s.next cursor = .item x later) :
    later.used = s.size ∧ s.remaining cursor = x :: s.remaining later := by
  rcases next_cases same with ⟨stop, -⟩ | ⟨y, after, other, used, split⟩
  · cases item.symm.trans stop
  · cases item.symm.trans other
    exact ⟨used, split⟩

/-- A first step leaves what follows the first member. -/
theorem members_of_first (first : s.next s.iter = .item x cursor) :
    cursor.used = s.size ∧ s.members = x :: s.remaining cursor :=
  remaining_of_item s.used_iter first

end Next

end LiveSet

end Binbot.Data
