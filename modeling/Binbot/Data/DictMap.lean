import Binbot.Data.Dict

/-!
# Changing the values of a dictionary

Every operation commutes with a change of the values that does not look at the keys.
-/
namespace Binbot.Data.Dict

variable {κ V W : Type}

/-- The same keys, in their order, with other values. -/
def map (f : V → W) (d : Dict κ V) : Dict κ W where
  entries := d.entries.map fun entry => (entry.1, f entry.2)
  nodup := by
    rw [List.map_map]
    exact d.nodup

@[simp] theorem map_empty (f : V → W) : (empty : Dict κ V).map f = empty := rfl

@[simp] theorem keys_map (f : V → W) (d : Dict κ V) : (d.map f).keys = d.keys := by
  simp [keys, map, Function.comp_def]

variable [DecidableEq κ]

@[simp] theorem get?_map (f : V → W) (d : Dict κ V) (key : κ) :
    (d.map f).get? key = (d.get? key).map f := by
  change lookup key (d.entries.map fun entry => (entry.1, f entry.2)) = (lookup key d.entries).map f
  induction d.entries with
  | nil => rfl
  | cons entry rest ih =>
    obtain ⟨k, v⟩ := entry
    by_cases here : k = key
    · simp [lookup, here]
    · simp only [List.map_cons, lookup, if_neg here]
      exact ih

theorem getD_map (f : V → W) (d : Dict κ V) (key : κ) (default : V) :
    (d.map f).getD key (f default) = f (d.getD key default) := by
  rw [getD, get?_map, getD]
  cases d.get? key <;> rfl

theorem map_set (f : V → W) (d : Dict κ V) (key : κ) (value : V) :
    (d.set key value).map f = (d.map f).set key (f value) := by
  have assigned : (assign key value d.entries).map (fun entry => (entry.1, f entry.2)) =
      assign key (f value) (d.entries.map fun entry => (entry.1, f entry.2)) := by
    induction d.entries with
    | nil => rfl
    | cons entry rest ih =>
      obtain ⟨k, v⟩ := entry
      by_cases here : k = key
      · simp [assign, here]
      · simp only [assign, if_neg here, List.map_cons, ih]
  simp only [set, map, assigned]

theorem map_erase (f : V → W) (d : Dict κ V) (key : κ) :
    (d.erase key).map f = (d.map f).erase key := by
  have filtered : (d.entries.filter fun entry => entry.1 ≠ key).map
      (fun entry => (entry.1, f entry.2)) =
        (d.entries.map fun entry => (entry.1, f entry.2)).filter fun entry => entry.1 ≠ key := by
    rw [List.filter_map]
    rfl
  simp only [erase, map, filtered]

end Binbot.Data.Dict
