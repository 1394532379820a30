import Mathlib.Data.List.Forall2

/-!
# Items and where they come from

`List.SublistForall₂ R items sources`: every item goes back to a source, each to one of its own
and in the order of the sources. A pipeline that turns sources into items keeps this when it
drops items, when it sees sources it makes nothing of, and when it makes one item of its latest
source.
-/
namespace Binbot.Data

open List

variable {α β : Type} {R R' : α → β → Prop} {items fewer : List α} {sources more : List β}

/-- Items may be lost. -/
theorem fewer_items (held : SublistForall₂ R items sources) (lost : fewer <+ items) :
    SublistForall₂ R fewer sources := by
  induction held generalizing fewer with
  | nil =>
    rw [sublist_nil.mp lost]
    exact .nil
  | cons related _ ih =>
    cases lost with
    | cons _ rest => exact .cons_right (ih rest)
    | cons_cons _ rest => exact .cons related (ih rest)
  | cons_right _ ih => exact .cons_right (ih lost)

/-- Sources may come to nothing. -/
theorem more_sources (held : SublistForall₂ R items sources) (among : sources <+ more) :
    SublistForall₂ R items more := by
  obtain ⟨own, related, below⟩ := sublistForall₂_iff.mp held
  exact sublistForall₂_iff.mpr ⟨own, related, below.trans among⟩

theorem weaker_relation (held : SublistForall₂ R items sources)
    (weaker : ∀ item source, R item source → R' item source) : SublistForall₂ R' items sources := by
  induction held with
  | nil => exact .nil
  | cons related _ ih => exact .cons (weaker _ _ related) ih
  | cons_right _ ih => exact .cons_right ih

/-- The latest source may be made an item of. -/
theorem item_of_latest (held : SublistForall₂ R items sources) {item : α} {source : β}
    (related : R item source) : SublistForall₂ R (items ++ [item]) (sources ++ [source]) := by
  induction held with
  | @nil sources =>
    induction sources with
    | nil => exact .cons related .nil
    | cons _ _ ih => exact .cons_right ih
  | cons first _ ih => exact .cons first ih
  | cons_right _ ih => exact .cons_right ih

end Binbot.Data
