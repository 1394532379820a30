import Mathlib.Data.List.Induction
import Mathlib.Order.Bounds.Basic

/-!
# Blocks

A block is a run of consecutive positions of a sequence that are all marked. Its positions
count from `start`. One pass with two counters finds the greatest length there is: the first
counter belongs to the block that reaches the end, and starts anew after a position that is
not marked.
-/
namespace Binbot.Data

/-- `length` positions from `start` on, all of them in the sequence and marked. -/
structure Block (marks : List Bool) (start length : ℕ) : Prop where
  inside : start + length ≤ marks.length
  marked : ∀ j, start ≤ j → j < start + length → marks[j]? = some true

def blockLengths (marks : List Bool) : Set ℕ := {length | ∃ start, Block marks start length}

/-- The lengths of the blocks that reach the end. -/
def lastBlockLengths (marks : List Bool) : Set ℕ :=
  {length | ∃ start, Block marks start length ∧ start + length = marks.length}

section

variable {marks : List Bool} {mark : Bool} {start length : ℕ}

/-- There is always the empty block. -/
theorem Block.empty (within : start ≤ marks.length) : Block marks start 0 := by
  constructor
  · simpa using within
  · intro j after before
    omega

/-- A block that stops before the last position does not depend on it. -/
theorem block_concat_of_le (mark : Bool) (within : start + length ≤ marks.length) :
    Block (marks ++ [mark]) start length ↔ Block marks start length := by
  have same : ∀ j, j < start + length → (marks ++ [mark])[j]? = marks[j]? :=
    fun j before => List.getElem?_append_left (by omega)
  constructor
  · rintro ⟨-, marked⟩
    refine ⟨within, fun j after before => ?_⟩
    rw [← same j before]
    exact marked j after before
  · rintro ⟨-, marked⟩
    constructor
    · simp
      omega
    · intro j after before
      rw [same j before]
      exact marked j after before

/-- A block that reaches the last position goes on with one that reached the end before. -/
theorem block_concat_of_eq (reaches : start + (length + 1) = (marks ++ [mark]).length) :
    Block (marks ++ [mark]) start (length + 1) ↔ mark = true ∧ Block marks start length := by
  have ends : start + length = marks.length := by simpa [← Nat.add_assoc] using reaches
  constructor
  · rintro ⟨inside, marked⟩
    constructor
    · -- the block's last position is the new one
      have last := marked marks.length (by omega) (by omega)
      simpa using last
    · refine (block_concat_of_le mark (by omega)).mp ⟨by omega, fun j after before => ?_⟩
      exact marked j after (by omega)
  · rintro ⟨rfl, block⟩
    refine ⟨by omega, fun j after before => ?_⟩
    rcases Nat.lt_or_ge j marks.length with earlier | last
    · rw [List.getElem?_append_left earlier]
      exact block.marked j after (by omega)
    · obtain rfl : j = marks.length := by omega
      simp

/-! ### One more position -/

/-- Every block is one of before, or reaches the new end. -/
theorem blockLengths_concat : blockLengths (marks ++ [mark]) =
    blockLengths marks ∪ lastBlockLengths (marks ++ [mark]) := by
  ext length
  constructor
  · rintro ⟨start, block⟩
    -- beyond the old end there is only the new one
    rcases Nat.lt_or_ge marks.length (start + length) with reaches | within
    · have inside := block.inside
      rw [List.length_append, List.length_singleton] at inside
      refine Or.inr ⟨start, block, ?_⟩
      rw [List.length_append, List.length_singleton]
      omega
    · exact Or.inl ⟨start, (block_concat_of_le mark within).mp block⟩
  · rintro (⟨start, block⟩ | ⟨start, block, -⟩)
    · exact ⟨start, (block_concat_of_le mark block.inside).mpr block⟩
    · exact ⟨start, block⟩

theorem zero_mem_lastBlockLengths : 0 ∈ lastBlockLengths marks :=
  ⟨marks.length, Block.empty le_rfl, rfl⟩

theorem succ_mem_lastBlockLengths : length + 1 ∈ lastBlockLengths (marks ++ [mark]) ↔
    mark = true ∧ length ∈ lastBlockLengths marks := by
  constructor
  · rintro ⟨start, block, ends⟩
    obtain ⟨marked, before⟩ := (block_concat_of_eq ends).mp block
    exact ⟨marked, start, before, by simpa [← Nat.add_assoc] using ends⟩
  · rintro ⟨marked, start, block, ends⟩
    have reaches : start + (length + 1) = (marks ++ [mark]).length := by
      simp [← ends, Nat.add_assoc]
    exact ⟨start, (block_concat_of_eq reaches).mpr ⟨marked, block⟩, reaches⟩

/-! ### The two counters -/

/-- The length of the last block, and the greatest length so far. -/
def countBlock (state : ℕ × ℕ) (mark : Bool) : ℕ × ℕ :=
  if mark then (state.1 + 1, max state.2 (state.1 + 1)) else (0, state.2)

theorem isGreatest_last_concat (mark : Bool)
    (counted : IsGreatest (lastBlockLengths marks) length) :
    IsGreatest (lastBlockLengths (marks ++ [mark])) (if mark then length + 1 else 0) := by
  cases mark with
  | false =>
    refine ⟨zero_mem_lastBlockLengths, fun longer member => ?_⟩
    cases longer with
    | zero => exact le_rfl
    | succ n => simpa using (succ_mem_lastBlockLengths.mp member).1
  | true =>
    refine ⟨succ_mem_lastBlockLengths.mpr ⟨rfl, counted.1⟩, fun longer member => ?_⟩
    cases longer with
    | zero => simp
    | succ n =>
      have bounded := counted.2 (succ_mem_lastBlockLengths.mp member).2
      simpa using bounded

/-- The counters are the greatest lengths of a block that reaches the end and of any block. -/
theorem foldl_countBlock (marks : List Bool) :
    IsGreatest (lastBlockLengths marks) (marks.foldl countBlock (0, 0)).1 ∧
      IsGreatest (blockLengths marks) (marks.foldl countBlock (0, 0)).2 := by
  induction marks using List.reverseRecOn with
  | nil =>
    have only : ∀ length ∈ blockLengths [], length = 0 := by
      rintro length ⟨start, inside, -⟩
      simp at inside
      exact inside.2
    refine ⟨⟨zero_mem_lastBlockLengths, ?_⟩, ⟨0, Block.empty le_rfl⟩, ?_⟩
    · rintro length ⟨start, block, -⟩
      exact (only length ⟨start, block⟩).le
    · exact fun length member => (only length member).le
  | append_singleton marks mark ih =>
    obtain ⟨last, best⟩ := ih
    have reaching := isGreatest_last_concat mark last
    rw [List.foldl_append, List.foldl_cons, List.foldl_nil, blockLengths_concat]
    cases mark with
    | true => exact ⟨reaching, best.union reaching⟩
    | false =>
      -- the new last block is empty, and the empty block is never the only longest one
      have both := best.union reaching
      simp only [Bool.false_eq_true, if_false, Nat.max_zero] at both
      exact ⟨reaching, both⟩

end

end Binbot.Data
