import Mathlib.Data.Finset.Card
import Mathlib.Data.Finset.Dedup
import Mathlib.Data.List.Perm.Subperm

/-! Seats that are taken, and seats that are promised to somebody who is on the way. -/
namespace Binbot.Machine

variable {α : Type} {limit : ℕ} {live live' : Finset α} {reserve reserve' : List α}

/-- Nobody is promised two seats or has one already, and there are seats for all. -/
structure Reserved (limit : ℕ) (live : Finset α) (reserve : List α) : Prop where
  once : reserve.Nodup
  seatless : ∀ a ∈ reserve, a ∉ live
  seats : live.card + reserve.length ≤ limit

namespace Reserved

/-- Seats may be left, and promises dropped. -/
theorem leave (held : Reserved limit live reserve) (fewer : live' ⊆ live)
    (dropped : reserve'.Sublist reserve) : Reserved limit live' reserve' where
  once := held.once.sublist dropped
  seatless a waits taken := held.seatless a (dropped.mem waits) (fewer taken)
  seats := by
    have live := Finset.card_le_card fewer
    have waiting := dropped.length_le
    have seats := held.seats
    omega

theorem perm (held : Reserved limit live reserve) (same : reserve'.Perm reserve) :
    Reserved limit live reserve' where
  once := same.nodup_iff.mpr held.once
  seatless a waits := held.seatless a (same.mem_iff.mp waits)
  seats := by
    rw [same.length_eq]
    exact held.seats

variable [DecidableEq α]

/-- The last who was promised a seat takes it. -/
theorem take {a : α} (held : Reserved limit live (reserve ++ [a])) :
    Reserved limit (insert a live) reserve where
  once := held.once.sublist (List.sublist_append_left _ _)
  seatless b waits taken := by
    rcases Finset.mem_insert.mp taken with rfl | seated
    · have apart := List.disjoint_of_nodup_append held.once
      exact apart waits (List.mem_singleton.mpr rfl)
    · exact held.seatless b (List.mem_append_left _ waits) seated
  seats := by
    have seats := held.seats
    have inserted := Finset.card_insert_le a live
    rw [List.length_append, List.length_singleton] at seats
    omega

theorem card_union (held : Reserved limit live reserve) :
    (live ∪ reserve.toFinset).card = live.card + reserve.length := by
  rw [Finset.card_union_of_disjoint, List.toFinset_card_of_nodup held.once]
  rw [Finset.disjoint_left]
  intro a seated waits
  exact held.seatless a (List.mem_toFinset.mp waits) seated

/-- Whoever sees everybody may promise one more seat. -/
theorem enter {seen : Finset α} {a : α} (held : Reserved limit live reserve)
    (covers : live ∪ reserve.toFinset ⊆ seen) (new : a ∉ seen) (room : seen.card < limit) :
    Reserved limit live (reserve ++ [a]) := by
  have absent : a ∉ live ∪ reserve.toFinset := fun there => new (covers there)
  rw [Finset.mem_union, not_or, List.mem_toFinset] at absent
  constructor
  · rw [List.nodup_append]
    refine ⟨held.once, List.nodup_singleton a, ?_⟩
    rintro b waits c last rfl
    rw [List.mem_singleton.mp last] at waits
    exact absent.2 waits
  · intro b waits
    rcases List.mem_append.mp waits with before | last
    · exact held.seatless b before
    · rw [List.mem_singleton.mp last]
      exact absent.1
  · have all := Finset.card_le_card covers
    rw [held.card_union] at all
    rw [List.length_append, List.length_singleton]
    omega

end Reserved

end Binbot.Machine
