import Mathlib.Data.List.DropRight
import Mathlib.Data.List.Basic
import Mathlib.Tactic.Common

/-!
# Lines of a text

What Python's text files make of line ends, and its `str.strip`. A text that ends with a
newline, or is empty, can be continued without touching its lines.
-/
namespace Binbot.Data

/-- A text file's characters as they are read: every line end is a newline. -/
def universalNewlines : List Char → List Char
  | [] => []
  | '\r' :: '\n' :: rest => '\n' :: universalNewlines rest
  | c :: rest => (if c = '\r' then '\n' else c) :: universalNewlines rest

/-- The lines of a text, without their newlines. -/
def lines : List Char → List (List Char)
  | [] => []
  | c :: rest =>
    if c = '\n' then [] :: lines rest
    else
      match lines rest with
      | [] => [[c]]
      | line :: others => (c :: line) :: others

/-- `str.isspace` of one character. -/
def isWhitespace (c : Char) : Bool :=
  let n := c.toNat
  (9 ≤ n && n ≤ 13) || (28 ≤ n && n ≤ 32) || n = 0x85 || n = 0xA0 || n = 0x1680 ||
    (0x2000 ≤ n && n ≤ 0x200A) || n = 0x2028 || n = 0x2029 || n = 0x202F || n = 0x205F ||
    n = 0x3000

/-- `str.strip`. -/
def strip (text : List Char) : List Char := (text.dropWhile isWhitespace).rdropWhile isWhitespace

/-- Nothing is written, or the last line is complete. -/
def LineStart (text : List Char) : Prop := text = [] ∨ text.getLast? = some '\n'

section Newlines

variable {first rest text line : List Char}

theorem universalNewlines_cons {c : Char} (single : c = '\r' → text.head? ≠ some '\n') :
    universalNewlines (c :: text) = (if c = '\r' then '\n' else c) :: universalNewlines text := by
  apply universalNewlines.eq_3
  rintro rest rfl rfl
  exact single rfl rfl

theorem universalNewlines_append (ends : first.getLast? ≠ some '\r') :
    universalNewlines (first ++ rest) = universalNewlines first ++ universalNewlines rest := by
  fun_induction universalNewlines first with
  | case1 => rfl
  | case2 tail ih =>
    -- The return and its newline are both on this side.
    rw [List.cons_append, List.cons_append, universalNewlines, List.cons_append]
    cases tail with
    | nil => rfl
    | cons c tail => rw [ih (by simpa using ends)]
  | case3 c tail single ih =>
    cases tail with
    | nil =>
      have other : c ≠ '\r' := by simpa using ends
      rw [List.singleton_append, universalNewlines_cons fun same => absurd same other]
      rfl
    | cons d tail =>
      -- The next character decides, and it is on this side too.
      have apart : c = '\r' → (d :: (tail ++ rest)).head? ≠ some '\n' := by
        rintro rfl same
        cases same
        exact single tail rfl rfl
      rw [List.cons_append, List.cons_append, universalNewlines_cons apart, ← List.cons_append,
        ih (by simpa using ends), List.cons_append]

theorem universalNewlines_of_not_mem (none_ : '\r' ∉ text) : universalNewlines text = text := by
  induction text with
  | nil => rfl
  | cons c text ih =>
    rw [List.mem_cons, not_or] at none_
    have other : c ≠ '\r' := Ne.symm none_.1
    rw [universalNewlines_cons fun same => absurd same other, if_neg other, ih none_.2]

theorem getLast?_universalNewlines (ends : text.getLast? = some '\n') :
    (universalNewlines text).getLast? = some '\n' := by
  fun_induction universalNewlines text with
  | case1 => cases ends
  | case2 tail ih =>
    cases tail with
    | nil => rfl
    | cons c tail =>
      have last := ih (by simpa using ends)
      simp [List.getLast?_cons, last]
  | case3 c tail single ih =>
    cases tail with
    | nil =>
      cases ends
      rfl
    | cons d tail =>
      have last := ih (by simpa using ends)
      simp [List.getLast?_cons, last]

theorem LineStart.universalNewlines (start : LineStart text) :
    LineStart (universalNewlines text) :=
  start.imp (fun none => by rw [none]; rfl) getLast?_universalNewlines

@[simp] theorem lines_newline_cons : lines ('\n' :: text) = [] :: lines text := rfl

theorem lines_eq_nil : lines text = [] ↔ text = [] := by
  fun_cases lines text <;> simp

/-- What follows a complete line starts a line of its own. -/
theorem lines_append (start : LineStart first) : lines (first ++ rest) = lines first ++ lines rest := by
  induction first with
  | nil => rfl
  | cons c first ih =>
    by_cases newline : c = '\n'
    · subst newline
      have tail : LineStart first := by
        cases first with
        | nil => exact .inl rfl
        | cons d first => simpa [LineStart] using start
      rw [List.cons_append, lines_newline_cons, lines_newline_cons, ih tail, List.cons_append]
    · cases first with
      | nil => simp [LineStart, newline] at start
      | cons d first =>
        have tail : LineStart (d :: first) := by simpa [LineStart] using start
        cases split : lines (d :: first) with
        | nil => cases lines_eq_nil.mp split
        | cons line others =>
          rw [List.cons_append, lines, if_neg newline, ih tail, split, lines, if_neg newline, split]
          rfl

theorem lines_newline (none_ : '\n' ∉ line) : lines (line ++ ['\n']) = [line] := by
  induction line with
  | nil => rfl
  | cons c line ih =>
    rw [List.mem_cons, not_or] at none_
    rw [List.cons_append, lines, if_neg (Ne.symm none_.1), ih none_.2]

theorem lines_single (some_ : line ≠ []) (none_ : '\n' ∉ line) : lines line = [line] := by
  induction line with
  | nil => exact absurd rfl some_
  | cons c line ih =>
    rw [List.mem_cons, not_or] at none_
    rw [lines, if_neg (Ne.symm none_.1)]
    cases line with
    | nil => rfl
    | cons d line => rw [ih (by simp) none_.2]

end Newlines

section Strip

variable {text : List Char}

theorem dropWhile_starts (starts : ∀ c ∈ text.head?, isWhitespace c = false) :
    text.dropWhile isWhitespace = text := by
  cases text with
  | nil => rfl
  | cons c text => exact List.dropWhile_cons_of_neg (by simp [starts c rfl])

/-- What is left of a text is a prefix of it if the text starts with no whitespace. -/
theorem strip_is_start (starts : ∀ c ∈ text.head?, isWhitespace c = false) :
    strip text <+: text := by
  rw [strip, dropWhile_starts starts]
  exact List.rdropWhile_prefix _ _

theorem strip_eq_self (starts : ∀ c ∈ text.head?, isWhitespace c = false)
    (ends : ∀ c ∈ text.getLast?, isWhitespace c = false) : strip text = text := by
  rw [strip, dropWhile_starts starts, List.rdropWhile_eq_self_iff]
  intro some_
  simp [ends _ (List.getLast?_eq_some_getLast some_)]

end Strip

end Binbot.Data
