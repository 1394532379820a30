import Mathlib.Data.List.Nodup
import Mathlib.Data.List.Lookmap

/-!
# Insertion-ordered dictionaries

The finite maps of the modelled language: each key occurs once, an assignment
to a present key keeps its place, and a new key goes to the end.
-/
namespace Binbot.Data

structure Dict (κ V : Type) where
  entries : List (κ × V)
  nodup : (entries.map Prod.fst).Nodup

namespace Dict

variable {κ V : Type}

def empty : Dict κ V := ⟨[], List.nodup_nil⟩

instance : Inhabited (Dict κ V) := ⟨empty⟩

def keys (d : Dict κ V) : List κ := d.entries.map Prod.fst

def size (d : Dict κ V) : Nat := d.entries.length

@[simp] theorem keys_empty : (empty : Dict κ V).keys = [] := rfl

theorem keys_nodup (d : Dict κ V) : d.keys.Nodup := d.nodup

variable [DecidableEq κ]

instance [DecidableEq V] : DecidableEq (Dict κ V) := fun d e =>
  decidable_of_iff (d.entries = e.entries) (by cases d; cases e; simp)

def lookup (key : κ) : List (κ × V) → Option V
  | [] => none
  | (k, v) :: rest => if k = key then some v else lookup key rest

def assign (key : κ) (value : V) : List (κ × V) → List (κ × V)
  | [] => [(key, value)]
  | (k, v) :: rest => if k = key then (key, value) :: rest else (k, v) :: assign key value rest

omit [DecidableEq κ] in
private theorem nodup_head {k : κ} {v : V} {rest : List (κ × V)}
    (h : (((k, v) :: rest).map Prod.fst).Nodup) :
    k ∉ rest.map Prod.fst ∧ (rest.map Prod.fst).Nodup := by
  simpa only [List.map_cons, List.nodup_cons] using h

theorem mem_assign_keys (key : κ) (value : V) (xs : List (κ × V)) (k : κ) :
    k ∈ (assign key value xs).map Prod.fst ↔ k = key ∨ k ∈ xs.map Prod.fst := by
  induction xs with
  | nil => simp [assign]
  | cons x rest ih =>
    obtain ⟨k', v⟩ := x
    by_cases here : k' = key
    · subst here; simp [assign]
    · simp only [assign, if_neg here, List.map_cons, List.mem_cons, ih]
      tauto

theorem assign_nodup (key : κ) (value : V) (xs : List (κ × V))
    (unique : (xs.map Prod.fst).Nodup) : ((assign key value xs).map Prod.fst).Nodup := by
  induction xs with
  | nil => simp [assign]
  | cons x rest ih =>
    obtain ⟨k, v⟩ := x
    obtain ⟨fresh, tail⟩ := nodup_head unique
    by_cases here : k = key
    · subst here; simpa [assign] using unique
    · simp only [assign, if_neg here, List.map_cons, List.nodup_cons]
      refine ⟨fun member => ?_, ih tail⟩
      rcases (mem_assign_keys key value rest k).mp member with same | old
      · exact here same
      · exact fresh old

def get? (d : Dict κ V) (key : κ) : Option V := lookup key d.entries

def getD (d : Dict κ V) (key : κ) (default : V) : V := (d.get? key).getD default

def contains (d : Dict κ V) (key : κ) : Bool := (d.get? key).isSome

def set (d : Dict κ V) (key : κ) (value : V) : Dict κ V :=
  ⟨assign key value d.entries, assign_nodup key value d.entries d.nodup⟩

/-- `d.pop(key, None)` and `del d[key]`: what is left. -/
def erase (d : Dict κ V) (key : κ) : Dict κ V :=
  ⟨d.entries.filter fun e => e.1 ≠ key,
    d.nodup.sublist (List.filter_sublist.map Prod.fst)⟩

/-- A dictionary display: later entries win. -/
def ofList (xs : List (κ × V)) : Dict κ V := xs.foldl (fun d e => d.set e.1 e.2) empty

theorem lookup_assign (key k : κ) (value : V) (xs : List (κ × V)) :
    lookup k (assign key value xs) = if k = key then some value else lookup k xs := by
  induction xs with
  | nil => simp [assign, lookup, eq_comm]
  | cons x rest ih =>
    obtain ⟨k', v⟩ := x
    by_cases here : k' = key
    · subst here
      by_cases same : k' = k
      · simp [assign, lookup, same]
      · simp [assign, lookup, same, Ne.symm same]
    · by_cases same : k' = k
      · subst same; simp [assign, lookup, here]
      · simp only [assign, if_neg here, lookup, if_neg same, ih]

theorem lookup_filter (key k : κ) (xs : List (κ × V)) :
    lookup k (xs.filter fun e => e.1 ≠ key) = if k = key then none else lookup k xs := by
  induction xs with
  | nil => simp [lookup]
  | cons x rest ih =>
    obtain ⟨k', v⟩ := x
    by_cases here : k' = key
    · subst here
      simp only [ne_eq, not_true, decide_false, Bool.false_eq_true, not_false_eq_true,
        List.filter_cons_of_neg, ih, lookup]
      by_cases same : k = k'
      · simp [same]
      · simp [same, Ne.symm same]
    · simp only [ne_eq, here, not_false_eq_true, decide_true, List.filter_cons_of_pos, lookup, ih]
      by_cases same : k' = k
      · subst same; simp [here]
      · simp [same]

@[simp] theorem get?_empty (k : κ) : (empty : Dict κ V).get? k = none := rfl

theorem get?_set (d : Dict κ V) (key k : κ) (value : V) :
    (d.set key value).get? k = if k = key then some value else d.get? k :=
  lookup_assign key k value d.entries

@[simp] theorem get?_set_self (d : Dict κ V) (key : κ) (value : V) :
    (d.set key value).get? key = some value := by simp [get?_set]

theorem get?_set_ne (d : Dict κ V) {key k : κ} (value : V) (distinct : k ≠ key) :
    (d.set key value).get? k = d.get? k := by simp [get?_set, distinct]

theorem get?_erase (d : Dict κ V) (key k : κ) :
    (d.erase key).get? k = if k = key then none else d.get? k :=
  lookup_filter key k d.entries

@[simp] theorem get?_erase_self (d : Dict κ V) (key : κ) : (d.erase key).get? key = none := by
  simp [get?_erase]

theorem get?_erase_ne (d : Dict κ V) {key k : κ} (distinct : k ≠ key) :
    (d.erase key).get? k = d.get? k := by simp [get?_erase, distinct]

theorem lookup_eq_none (k : κ) (xs : List (κ × V)) :
    lookup k xs = none ↔ k ∉ xs.map Prod.fst := by
  induction xs with
  | nil => simp [lookup]
  | cons x rest ih =>
    obtain ⟨k', v⟩ := x
    by_cases here : k' = k
    · simp [lookup, here]
    · simp only [lookup, if_neg here, ih, List.map_cons, List.mem_cons, not_or]
      exact ⟨fun h => ⟨Ne.symm here, h⟩, And.right⟩

theorem get?_eq_none_iff (d : Dict κ V) (k : κ) : d.get? k = none ↔ k ∉ d.keys :=
  lookup_eq_none k d.entries

theorem get?_isSome_iff (d : Dict κ V) (k : κ) : (d.get? k).isSome ↔ k ∈ d.keys := by
  rw [← not_iff_not, Bool.not_eq_true, Option.isSome_eq_false_iff, Option.isNone_iff_eq_none]
  exact d.get?_eq_none_iff k

theorem contains_of_get? {d : Dict κ V} {k : κ} {v : V} (found : d.get? k = some v) :
    d.contains k = true := by
  rw [contains, found]; rfl

theorem contains_eq_false {d : Dict κ V} {k : κ} (absent : d.get? k = none) :
    d.contains k = false := by
  rw [contains, absent]; rfl

theorem contains_set (d : Dict κ V) (key k : κ) (value : V) :
    (d.set key value).contains k = true ↔ k = key ∨ d.contains k = true := by
  rw [contains, get?_set]
  by_cases here : k = key
  · simp [here]
  · simp [here, contains]

theorem mem_keys_of_get? {d : Dict κ V} {k : κ} {v : V} (found : d.get? k = some v) :
    k ∈ d.keys := by
  rw [← get?_isSome_iff, found]; rfl

theorem mem_of_lookup {k : κ} {v : V} {xs : List (κ × V)} (found : lookup k xs = some v) :
    (k, v) ∈ xs := by
  induction xs with
  | nil => cases found
  | cons x rest ih =>
    obtain ⟨k', v'⟩ := x
    rw [lookup] at found
    split at found
    next here =>
      subst here
      cases found
      exact List.mem_cons_self
    next => exact List.mem_cons_of_mem _ (ih found)

theorem mem_entries_iff (d : Dict κ V) (k : κ) (v : V) :
    (k, v) ∈ d.entries ↔ d.get? k = some v := by
  obtain ⟨xs, unique⟩ := d
  change (k, v) ∈ xs ↔ lookup k xs = some v
  induction xs with
  | nil => simp [lookup]
  | cons x rest ih =>
    obtain ⟨k', v'⟩ := x
    obtain ⟨fresh, tail⟩ := nodup_head unique
    by_cases here : k' = k
    · subst here
      have absent : (k', v) ∉ rest := fun member =>
        fresh (List.mem_map.mpr ⟨(k', v), member, rfl⟩)
      simp [lookup, absent, eq_comm]
    · simp [lookup, here, Ne.symm here, ih tail]

@[simp] theorem mem_keys_set (d : Dict κ V) (key k : κ) (value : V) :
    k ∈ (d.set key value).keys ↔ k = key ∨ k ∈ d.keys :=
  mem_assign_keys key value d.entries k

private theorem get?_foldl_set (xs : List (κ × V)) (d : Dict κ V) (k : κ) :
    (xs.foldl (fun d e => d.set e.1 e.2) d).get? k =
      ((lookup k xs.reverse).or (d.get? k)) := by
  induction xs generalizing d with
  | nil => simp [lookup]
  | cons x rest ih =>
    obtain ⟨k', v⟩ := x
    have snoc : ∀ ys : List (κ × V), lookup k (ys ++ [(k', v)]) =
        (lookup k ys).or (if k = k' then some v else none) := by
      intro ys
      induction ys with
      | nil => simp [lookup, eq_comm]
      | cons y ys ih =>
        simp only [List.cons_append, lookup, ih]
        split <;> simp
    rw [List.foldl_cons, ih, List.reverse_cons, snoc, get?_set]
    cases lookup k rest.reverse <;> by_cases same : k = k' <;> simp [same]

theorem get?_ofList (xs : List (κ × V)) (k : κ) :
    (ofList xs).get? k = lookup k xs.reverse := by
  rw [ofList, get?_foldl_set]; simp

@[simp] theorem mem_keys_ofList (xs : List (κ × V)) (k : κ) :
    k ∈ (ofList xs).keys ↔ k ∈ xs.map Prod.fst := by
  rw [← not_iff_not, ← get?_eq_none_iff, get?_ofList, lookup_eq_none]
  simp

/-- `d.update(e)`: the entries of `e` assigned over those of `d`. -/
def overlay (d e : Dict κ V) : Dict κ V := e.entries.foldl (fun d x => d.set x.1 x.2) d

theorem get?_overlay (d e : Dict κ V) (k : κ) :
    (d.overlay e).get? k = (e.get? k).or (d.get? k) := by
  have reversed : (e.entries.reverse.map Prod.fst).Nodup := by
    rw [List.map_reverse]; exact List.nodup_reverse.mpr e.nodup
  -- each key occurs once, so the last entry of a key is its only one
  have order : lookup k e.entries.reverse = lookup k e.entries := by
    apply Option.ext
    intro v
    change Dict.get? ⟨_, reversed⟩ k = some v ↔ e.get? k = some v
    rw [← mem_entries_iff, ← mem_entries_iff]
    exact List.mem_reverse
  rw [overlay, get?_foldl_set, order]
  rfl

theorem getD_overlay (d e : Dict κ V) (k : κ) (default : V) :
    (d.overlay e).getD k default = e.getD k (d.getD k default) := by
  simp only [getD, get?_overlay]
  cases e.get? k <;> rfl

/-- Two defaults give the same value unless they differ and the key is missing. -/
theorem getD_eq_getD_iff (d : Dict κ V) (k : κ) (v w : V) :
    d.getD k v = d.getD k w ↔ (v ≠ w → k ∈ d.keys) := by
  rw [← get?_isSome_iff, getD, getD]
  cases d.get? k <;> simp

/-- What every entry satisfies, every value of a key does, if the default does. -/
theorem forall_getD_iff (d : Dict κ V) (default : V) (P : κ → V → Prop)
    (outside : ∀ k, P k default) :
    (∀ k, P k (d.getD k default)) ↔ ∀ e ∈ d.entries, P e.1 e.2 := by
  constructor
  · rintro all ⟨k, v⟩ member
    have value := all k
    rwa [getD, (d.mem_entries_iff k v).mp member] at value
  · intro each k
    rw [getD]
    cases found : d.get? k with
    | none => exact outside k
    | some v => exact each (k, v) ((d.mem_entries_iff k v).mpr found)

/-- With distinct keys the display holds exactly its entries. -/
theorem get?_ofList_eq_some (xs : List (κ × V)) (unique : (xs.map Prod.fst).Nodup)
    (k : κ) (v : V) : (ofList xs).get? k = some v ↔ (k, v) ∈ xs := by
  have reversed : (xs.reverse.map Prod.fst).Nodup := by
    rw [List.map_reverse]; exact List.nodup_reverse.mpr unique
  rw [get?_ofList, ← List.mem_reverse]
  exact (mem_entries_iff ⟨xs.reverse, reversed⟩ k v).symm

/-- A key has one entry or none. -/
theorem filter_key (d : Dict κ V) (k : κ) :
    d.entries.filter (fun entry => entry.1 = k) = ((d.get? k).map fun v => (k, v)).toList := by
  obtain ⟨xs, unique⟩ := d
  change xs.filter (fun entry => entry.1 = k) = ((lookup k xs).map fun v => (k, v)).toList
  induction xs with
  | nil => rfl
  | cons x rest ih =>
    obtain ⟨fresh, others⟩ := nodup_head unique
    by_cases here : x.1 = k
    · -- the other entries are of other keys
      have nothing : rest.filter (fun entry => entry.1 = k) = [] := by
        rw [List.filter_eq_nil_iff]
        intro entry member same
        rw [decide_eq_true_eq] at same
        exact fresh (List.mem_map.mpr ⟨entry, member, same.trans here.symm⟩)
      subst here
      simp [lookup, nothing]
    · simpa [lookup, here] using ih others

end Dict

end Binbot.Data
