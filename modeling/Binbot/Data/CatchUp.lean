import Mathlib.Data.List.Basic
import Mathlib.Order.Basic

/-!
# Readers of a running total

A total that only grows is reported now and then, and its reader takes over each report that it
gets. `CatchesUp seen coming actual`: the reports on their way rise from what the reader has seen
to what is there. So the reader is never ahead of the total, and level with it once nothing is on
its way. A report may get lost while a later one is on its way.
-/
namespace Binbot.Data

structure CatchesUp {α : Type} [LE α] (seen : α) (coming : List α) (actual : α) : Prop where
  rising : (seen :: coming).Pairwise (· ≤ ·)
  last : coming.getLast?.getD seen = actual

namespace CatchesUp

variable {α : Type} [Preorder α] {seen actual next first lost : α}
  {coming rest before later : List α}

theorem level (seen : α) : CatchesUp seen [] seen := ⟨by simp, rfl⟩

theorem settled (held : CatchesUp seen [] actual) : seen = actual := held.last

/-- Nothing that was seen or is on its way is above what is there. -/
theorem le_actual (held : CatchesUp seen coming actual) : ∀ a ∈ seen :: coming, a ≤ actual := by
  obtain ⟨rising, last⟩ := held
  induction coming generalizing seen with
  | nil =>
    intro a member
    rw [List.mem_singleton.mp member]
    exact le_of_eq last
  | cons first rest ih =>
    have later : (first :: rest).Pairwise (· ≤ ·) := (List.pairwise_cons.mp rising).2
    have same : rest.getLast?.getD first = actual := by
      rw [List.getLast?_cons] at last
      exact last
    intro a member
    cases List.mem_cons.mp member with
    | inl here =>
      have below := (List.pairwise_cons.mp rising).1 first List.mem_cons_self
      exact here ▸ below.trans (ih later same first List.mem_cons_self)
    | inr there => exact ih later same a there

theorem behind (held : CatchesUp seen coming actual) : seen ≤ actual :=
  held.le_actual seen List.mem_cons_self

/-- The total grows, and the report of it sets out. -/
theorem reported (held : CatchesUp seen coming actual) (grown : actual ≤ next) :
    CatchesUp seen (coming ++ [next]) next := by
  constructor
  · rw [← List.cons_append, List.pairwise_append]
    refine ⟨held.rising, List.pairwise_singleton _ _, ?_⟩
    intro a member b last
    rw [List.mem_singleton.mp last]
    exact (held.le_actual a member).trans grown
  · simp

/-- The reader takes over the first report. -/
theorem taken (held : CatchesUp seen (first :: rest) actual) : CatchesUp first rest actual := by
  constructor
  · exact (List.pairwise_cons.mp held.rising).2
  · rw [← held.last, List.getLast?_cons, Option.getD_some]

/-- A report gets lost, and a later one is on its way. -/
theorem dropped (held : CatchesUp seen (before ++ lost :: later) actual) (more : later ≠ []) :
    CatchesUp seen (before ++ later) actual := by
  constructor
  · have fewer : (before ++ later).Sublist (before ++ lost :: later) :=
      (List.sublist_cons_self lost later).append_left before
    exact List.Pairwise.sublist (fewer.cons_cons seen) held.rising
  · obtain ⟨last, ends⟩ := Option.isSome_iff_exists.mp (List.getLast?_isSome.mpr more)
    rw [← held.last, List.getLast?_append, List.getLast?_append, List.getLast?_cons, ends]
    rfl

end CatchesUp

end Binbot.Data
