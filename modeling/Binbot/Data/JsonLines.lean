import Binbot.Data.JsonTexts
import Binbot.Data.Utf

/-!
# Encoded values as lines

An encoded value has printable ASCII characters only, so it fits on a line.
-/
namespace Binbot.Data.Json

/-- The numbers of the value are literals. Its strings may be any. -/
inductive Literals : Json → Prop where
  | null : Literals .null
  | bool (value : Bool) : Literals (.bool value)
  | number (literal : List Char) (own : scanAtom literal = some (.number literal, [])) :
    Literals (.number literal)
  | string (s : CodePoints) : Literals (.string s)
  | array (items : List Json) (each : ∀ item ∈ items, Literals item) : Literals (.array items)
  | object (members : List (CodePoints × Json)) (each : ∀ entry ∈ members, Literals entry.2) :
    Literals (.object members)

theorem WellFormed.literals {value : Json} (wellFormed : WellFormed value) : Literals value := by
  induction wellFormed with
  | null => exact .null
  | bool value => exact .bool value
  | number literal own => exact .number literal own
  | string s scalar => exact .string s
  | array items each ih => exact .array items ih
  | object members keys each ih => exact .object members ih

/-! ### Printable characters -/

def Printable (c : Char) : Prop := 32 ≤ c.toNat ∧ c.toNat < 127

instance (c : Char) : Decidable (Printable c) :=
  @instDecidableAnd _ _ (Nat.decLe 32 c.toNat) (Nat.decLt c.toNat 127)

/-- All characters of the text are printable. -/
def Legible (text : List Char) : Prop := ∀ c ∈ text, Printable c

instance (text : List Char) : Decidable (Legible text) := List.decidableBAll Printable text

section Legible

variable {c : Char} {first rest text literal : List Char}

@[simp] theorem legible_nil : Legible [] := List.forall_mem_nil _

@[simp] theorem legible_cons : Legible (c :: rest) ↔ Printable c ∧ Legible rest := List.forall_mem_cons

@[simp] theorem legible_append : Legible (first ++ rest) ↔ Legible first ∧ Legible rest :=
  List.forall_mem_append

theorem legible_flatMap {α : Type} {f : α → List Char} (each : ∀ a, Legible (f a)) (items : List α) :
    Legible (items.flatMap f) := by
  induction items with
  | nil => exact legible_nil
  | cons item items ih => exact legible_append.mpr ⟨each item, ih⟩

end Legible

section Numbers

variable {text integer literal rest : List Char}

theorem printable_digit {c : Char} (digit : isDigit c = true) : Printable c := by
  simp only [isDigit, Bool.and_eq_true, decide_eq_true_eq] at digit
  exact ⟨by omega, by omega⟩

theorem legible_digits (text : List Char) : Legible (text.takeWhile isDigit) :=
  fun _ taken => printable_digit (List.mem_takeWhile_imp taken)

theorem legible_scanInteger (scanned : scanInteger text = some (integer, rest)) :
    Legible integer := by
  cases text with
  | nil => cases scanned
  | cons c text =>
    simp only [scanInteger] at scanned
    split at scanned
    next zero =>
      cases scanned
      decide
    next nonzero =>
      split at scanned
      next digit =>
        cases scanned
        exact legible_cons.mpr ⟨printable_digit digit, legible_digits text⟩
      next => cases scanned

theorem legible_scanFraction (text : List Char) : Legible (scanFraction text).1 := by
  fun_cases scanFraction text with
  | case1 => exact legible_nil
  | case2 c rest fraction => exact legible_cons.mpr ⟨by decide, legible_digits rest⟩
  | case3 => exact legible_nil

theorem legible_scanSign (text : List Char) : Legible (scanSign text).1 := by
  fun_cases scanSign text with
  | case1 => exact legible_nil
  | case2 c rest sign => rcases sign with rfl | rfl <;> simp <;> decide
  | case3 => exact legible_nil

theorem legible_scanExponent (text : List Char) : Legible (scanExponent text).1 := by
  cases text with
  | nil => exact legible_nil
  | cons e rest =>
    simp only [scanExponent]
    split
    next exponent =>
      have letter : Printable e := by rcases exponent.1 with rfl | rfl <;> decide
      simp only [legible_append, legible_cons]
      exact ⟨⟨letter, legible_scanSign rest⟩, legible_digits _⟩
    next => exact legible_nil

theorem legible_scanUnsigned (scanned : scanUnsigned text = some (literal, rest)) :
    Legible literal := by
  rw [scanUnsigned] at scanned
  split at scanned
  next => cases scanned
  next integer after first =>
    cases scanned
    simp only [legible_append]
    exact ⟨⟨legible_scanInteger first, legible_scanFraction _⟩, legible_scanExponent _⟩

theorem legible_scanNumber (scanned : scanNumber text = some (literal, rest)) : Legible literal := by
  cases text with
  | nil => cases scanned
  | cons c text =>
    simp only [scanNumber] at scanned
    split at scanned
    next minus =>
      split at scanned
      next unsigned left inner =>
        cases scanned
        exact legible_cons.mpr ⟨by decide, legible_scanUnsigned inner⟩
      next => cases scanned
    next => exact legible_scanUnsigned scanned

theorem legible_literal (own : scanAtom literal = some (.number literal, [])) : Legible literal := by
  rw [scanAtom] at own
  cases constant : scanConstant literal with
  | some found =>
    -- `NaN` and the infinities
    rw [constant] at own
    cases own
    obtain ⟨⟨word, value⟩, member, matched⟩ := List.exists_of_findSome?_eq_some constant
    obtain ⟨left, after, same⟩ := Option.map_eq_some_iff.mp matched
    cases same
    have legible : ∀ entry ∈ constants, Legible entry.1 := by
      simp only [constants, List.forall_mem_cons]
      decide
    rw [afterWord_word after, List.append_nil]
    exact legible _ member
  | none =>
    rw [constant] at own
    obtain ⟨⟨scanned, left⟩, read, same⟩ := Option.map_eq_some_iff.mp own
    cases same
    exact legible_scanNumber read

end Numbers

theorem printable_hexDigit : ∀ n < 16, Printable (hexDigit n) := by decide

theorem legible_unicodeEscape (n : ℕ) : Legible (unicodeEscape n) := by
  have digit (m : ℕ) : Printable (hexDigit (m % 16)) :=
    printable_hexDigit _ (Nat.mod_lt _ (by decide))
  simp only [unicodeEscape, legible_cons, digit, legible_nil]
  decide

theorem legible_escape (n : ℕ) : Legible (escape n) := by
  rw [escape]
  split
  next letter short =>
    rw [shortEscape] at short
    -- one case for each letter
    repeat' split at short
    all_goals cases short
    all_goals decide
  next =>
    split
    next plain =>
      have printable : Printable (Char.ofNat n) := by
        rw [Printable, toNat_ofNat (by omega)]
        omega
      simpa using printable
    next => exact legible_flatMap legible_unicodeEscape _

theorem legible_quoted (s : CodePoints) : Legible (quoted s) := by
  simp only [quoted, legible_append, legible_cons]
  exact ⟨⟨by decide, legible_flatMap legible_escape s⟩, by decide⟩

theorem legible_moreItems {items : List Json} (each : ∀ item ∈ items, Legible (dumps item)) :
    Legible (dumpsMoreItems items) := by
  induction items with
  | nil => decide
  | cons item items ih =>
    obtain ⟨here, later⟩ := List.forall_mem_cons.mp each
    simp only [dumpsMoreItems, legible_append, legible_cons]
    exact ⟨⟨by decide, by decide, here⟩, ih later⟩

theorem legible_member {entry : CodePoints × Json} (value : Legible (dumps entry.2)) :
    Legible (dumpsMember entry) := by
  obtain ⟨key, of⟩ := entry
  simp only [dumpsMember, legible_append, legible_cons]
  exact ⟨legible_quoted key, by decide, by decide, value⟩

theorem legible_moreMembers {members : List (CodePoints × Json)}
    (each : ∀ entry ∈ members, Legible (dumps entry.2)) : Legible (dumpsMoreMembers members) := by
  induction members with
  | nil => decide
  | cons entry members ih =>
    obtain ⟨here, later⟩ := List.forall_mem_cons.mp each
    simp only [dumpsMoreMembers, legible_append, legible_cons]
    exact ⟨⟨by decide, by decide, legible_member here⟩, ih later⟩

theorem legible_dumps {value : Json} (literals : Literals value) : Legible (dumps value) := by
  induction literals with
  | null => decide
  | bool value => cases value <;> decide
  | number literal own => exact legible_literal own
  | string s => exact legible_quoted s
  | array items each ih =>
    refine legible_cons.mpr ⟨by decide, ?_⟩
    cases items with
    | nil => decide
    | cons first rest =>
      obtain ⟨here, later⟩ := List.forall_mem_cons.mp ih
      exact legible_append.mpr ⟨here, legible_moreItems later⟩
  | object members each ih =>
    refine legible_cons.mpr ⟨by decide, ?_⟩
    cases members with
    | nil => decide
    | cons first rest =>
      obtain ⟨here, later⟩ := List.forall_mem_cons.mp ih
      exact legible_append.mpr ⟨legible_member here, legible_moreMembers later⟩

theorem Legible.ascii {text : List Char} (legible : Legible text) : Ascii text :=
  fun c member => Nat.lt_trans (legible c member).2 (by decide)

end Binbot.Data.Json
