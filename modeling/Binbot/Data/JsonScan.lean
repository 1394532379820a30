import Binbot.Data.Json
import Mathlib.Data.Nat.Notation

/-!
# Scanning JSON texts

What a scan reads stays the same when the text goes on, as long as the continuation does
not lengthen a number. Escaped strings are read back.
-/
namespace Binbot.Data.Json

/-! ### Strings -/

theorem hexValue_hexDigit : ∀ n < 16, hexValue (hexDigit n) = some n := by decide

theorem hexUnit_hexDigits {n : ℕ} (small : n < 0x10000) :
    hexUnit (hexDigit (n / 4096 % 16)) (hexDigit (n / 256 % 16)) (hexDigit (n / 16 % 16))
      (hexDigit (n % 16)) = some n := by
  rw [hexUnit]
  rw [hexValue_hexDigit _ (by omega), hexValue_hexDigit _ (by omega),
    hexValue_hexDigit _ (by omega), hexValue_hexDigit _ (by omega)]
  have value : n / 4096 % 16 * 4096 + n / 256 % 16 * 256 + n / 16 % 16 * 16 + n % 16 = n := by omega
  exact congrArg some value

/-- The units read first, and those of the rest after them. -/
def prepend (first : List ℕ) : Option (List ℕ × List Char) → Option (List ℕ × List Char) :=
  Option.map fun scanned => (first ++ scanned.1, scanned.2)

theorem scanUnits_unicodeEscape {n : ℕ} (small : n < 0x10000) (rest : List Char) :
    scanUnits (unicodeEscape n ++ rest) = prepend [n] (scanUnits rest) := by
  rw [unicodeEscape]
  simp only [List.cons_append, List.nil_append, scanUnits, hexUnit_hexDigits small]
  cases scanUnits rest <;> rfl

theorem scanUnits_short {n : ℕ} {letter : Char} (short : shortEscape n = some letter)
    (rest : List Char) : scanUnits ('\\' :: letter :: rest) = prepend [n] (scanUnits rest) := by
  rw [shortEscape] at short
  -- one case for each letter
  repeat' split at short
  all_goals cases short
  all_goals
    subst_vars
    rw [scanUnits.eq_def]
    cases read : scanUnits rest <;> simp [unescape, prepend, read]

theorem scanUnits_plain {c : Char} (noQuote : c ≠ '"') (noEscape : c ≠ '\\')
    (printable : 32 ≤ c.toNat) (rest : List Char) :
    scanUnits (c :: rest) = prepend [c.toNat] (scanUnits rest) := by
  rw [scanUnits.eq_def]
  split
  next empty => cases empty
  next closing =>
    cases closing
    exact absurd rfl noQuote
  next escape =>
    cases escape
    exact absurd rfl noEscape
  next escape =>
    cases escape
    exact absurd rfl noEscape
  next escape =>
    cases escape
    exact absurd rfl noEscape
  next plain =>
    cases plain
    rw [if_neg (by omega)]
    cases scanUnits rest <;> rfl

theorem toNat_ofNat {n : ℕ} (ascii : n < 128) : (Char.ofNat n).toNat = n := by
  rw [Char.ofNat, dif_pos (Or.inl (by omega))]
  rfl

theorem scanUnits_escape {n : ℕ} (valid : n < 0x110000) (rest : List Char) :
    scanUnits (escape n ++ rest) = prepend (units n) (scanUnits rest) := by
  rw [escape]
  cases short : shortEscape n with
  | some letter =>
    have small : n < 0x10000 := by
      rw [shortEscape] at short
      repeat' split at short
      all_goals first | omega | cases short
    rw [List.cons_append, List.cons_append, List.nil_append, scanUnits_short short, units,
      if_pos small]
  | none =>
    dsimp only
    split
    next printable =>
      have code := toNat_ofNat (show n < 128 by omega)
      have noQuote : Char.ofNat n ≠ '"' := by
        intro same
        rw [same] at code
        subst code
        cases short
      have noEscape : Char.ofNat n ≠ '\\' := by
        intro same
        rw [same] at code
        subst code
        cases short
      rw [List.singleton_append, scanUnits_plain noQuote noEscape (by omega), code, units,
        if_pos (by omega)]
    next unprintable =>
      rw [units]
      split
      next small =>
        rw [List.flatMap_singleton, scanUnits_unicodeEscape small]
      next large =>
        simp only [List.flatMap_cons, List.flatMap_nil, List.append_nil, List.append_assoc]
        rw [scanUnits_unicodeEscape (by omega), scanUnits_unicodeEscape (by omega)]
        cases scanUnits rest <;> rfl

theorem scanUnits_string (s : CodePoints) (valid : ∀ n ∈ s, n < 0x110000) (rest : List Char) :
    scanUnits (s.flatMap escape ++ '"' :: rest) = some (s.flatMap units, rest) := by
  induction s with
  | nil => simp [scanUnits]
  | cons n s ih =>
    have tail := ih fun m member => valid m (List.mem_cons_of_mem n member)
    rw [List.flatMap_cons, List.append_assoc, scanUnits_escape (valid n List.mem_cons_self), tail]
    simp [prepend]

/-- No surrogate: the code points of a text proper. -/
def Scalar (s : CodePoints) : Prop := ∀ n ∈ s, n < 0xD800 ∨ 0xE000 ≤ n ∧ n < 0x110000

theorem joinSurrogates_unit {n : ℕ} (single : isHigh n = false) (rest : List ℕ) :
    joinSurrogates (n :: rest) = n :: joinSurrogates rest := by
  cases rest with
  | nil => rfl
  | cons next rest => simp [joinSurrogates, single]

theorem joinSurrogates_pair {high low : ℕ} (isHigh : isHigh high = true) (isLow : isLow low = true)
    (rest : List ℕ) : joinSurrogates (high :: low :: rest) =
      (0x10000 + (high - 0xD800) * 1024 + (low - 0xDC00)) :: joinSurrogates rest := by
  simp only [joinSurrogates, isHigh, isLow, Bool.and_self, if_true]

theorem joinSurrogates_units (s : CodePoints) (scalar : Scalar s) :
    joinSurrogates (s.flatMap units) = s := by
  induction s with
  | nil => rfl
  | cons n s ih =>
    have tail := ih fun m member => scalar m (List.mem_cons_of_mem n member)
    have here := scalar n List.mem_cons_self
    rw [List.flatMap_cons, units]
    split
    next small =>
      have single : isHigh n = false := by
        simp only [isHigh, Bool.and_eq_false_iff, decide_eq_false_iff_not]
        omega
      rw [List.singleton_append, joinSurrogates_unit single, tail]
    next large =>
      have high : isHigh (0xD800 + (n - 0x10000) / 1024 % 1024) = true := by
        simp only [isHigh, Bool.and_eq_true, decide_eq_true_eq]
        omega
      have low : isLow (0xDC00 + (n - 0x10000) % 1024) = true := by
        simp only [isLow, Bool.and_eq_true, decide_eq_true_eq]
        omega
      rw [List.cons_append, List.cons_append, List.nil_append, joinSurrogates_pair high low, tail]
      have value : 0x10000 + (0xD800 + (n - 0x10000) / 1024 % 1024 - 0xD800) * 1024 +
          (0xDC00 + (n - 0x10000) % 1024 - 0xDC00) = n := by omega
      rw [value]

/-- An escaped string is read back up to its closing quote. -/
theorem scanString_quoted (s : CodePoints) (scalar : Scalar s) (rest : List Char) :
    scanString (s.flatMap escape ++ '"' :: rest) = some (s, rest) := by
  have valid : ∀ n ∈ s, n < 0x110000 := by
    intro n member
    have := scalar n member
    omega
  rw [scanString, scanUnits_string s valid, Option.map_some, joinSurrogates_units s scalar]

theorem scanUnits_letter {letter : Char} {n : ℕ} (known : unescape letter = some n)
    (rest : List Char) : scanUnits ('\\' :: letter :: rest) = prepend [n] (scanUnits rest) := by
  have notUnicode : letter ≠ 'u' := by
    rintro rfl
    cases known
  rw [scanUnits.eq_def]
  split
  next empty => cases empty
  next closing => cases closing
  next unicode =>
    cases unicode
    exact absurd rfl notUnicode
  next other =>
    cases other
    rw [known]
    cases scanUnits rest <;> rfl
  next alone => cases alone
  next noLetter _ plain =>
    cases plain
    exact (noLetter letter rest rfl rfl).elim

/-- Whatever follows the closing quote is left alone. -/
theorem scanUnits_append (more : List Char) (text : List Char) {read : List ℕ} {rest : List Char}
    (scanned : scanUnits text = some (read, rest)) :
    scanUnits (text ++ more) = some (read, rest ++ more) := by
  fun_induction scanUnits text generalizing read rest with
  | case1 => cases scanned
  | case2 rest' =>
    cases scanned
    simp [scanUnits]
  | case3 a b c d rest' unit tail left inner hex ih =>
    cases scanned
    simp only [List.cons_append, scanUnits, hex, ih inner]
  | case4 => cases scanned
  | case5 letter rest' _ unit tail left inner known ih =>
    cases scanned
    rw [List.cons_append, List.cons_append, scanUnits_letter known, ih inner]
    rfl
  | case6 => cases scanned
  | case7 => cases scanned
  | case8 => cases scanned
  | case9 c rest' noQuote noUnicode noLetter notAlone printable tail left inner ih =>
    cases scanned
    have noEscape : c ≠ '\\' := by
      rintro rfl
      cases rest' with
      | nil => exact notAlone rfl rfl
      | cons letter rest' => exact noLetter letter rest' rfl rfl
    rw [List.cons_append, scanUnits_plain noQuote noEscape (by omega), ih inner]
    rfl
  | case10 => cases scanned

theorem scanString_append (more : List Char) {text rest : List Char} {s : CodePoints}
    (scanned : scanString text = some (s, rest)) :
    scanString (text ++ more) = some (s, rest ++ more) := by
  rw [scanString] at scanned ⊢
  cases inner : scanUnits text with
  | none =>
    rw [inner] at scanned
    cases scanned
  | some read =>
    rw [inner] at scanned
    cases scanned
    rw [scanUnits_append more text inner]
    rfl

/-! ### Numbers -/

/-- What no literal of a number goes on with. -/
def Stops (text : List Char) : Prop :=
  ∀ c ∈ text.head?, isDigit c = false ∧ c ≠ '.' ∧ c ≠ 'e' ∧ c ≠ 'E'

/-- What no run of digits goes on with. -/
def NoDigit (text : List Char) : Prop := ∀ c ∈ text.head?, isDigit c = false

theorem Stops.noDigit {text : List Char} (stops : Stops text) : NoDigit text :=
  fun c member => (stops c member).1

theorem digits_append (text more : List Char) (ends : NoDigit (text.dropWhile isDigit ++ more)) :
    (text ++ more).takeWhile isDigit = text.takeWhile isDigit ∧
      (text ++ more).dropWhile isDigit = text.dropWhile isDigit ++ more := by
  induction text with
  | nil =>
    cases more with
    | nil => exact ⟨rfl, rfl⟩
    | cons c more =>
      have stop : isDigit c = false := ends c rfl
      simp [stop]
  | cons c rest ih =>
    cases digit : isDigit c with
    | true =>
      simp only [List.dropWhile_cons, digit, if_true] at ends
      obtain ⟨taken, dropped⟩ := ih ends
      simp [digit, taken, dropped]
    | false => simp [digit]

theorem scanInteger_append {text integer rest : List Char} (more : List Char)
    (scanned : scanInteger text = some (integer, rest)) (ends : NoDigit (rest ++ more)) :
    scanInteger (text ++ more) = some (integer, rest ++ more) := by
  cases text with
  | nil => cases scanned
  | cons c text =>
    simp only [scanInteger, List.cons_append] at scanned ⊢
    split at scanned
    next zero =>
      cases scanned
      rw [if_pos zero]
    next nonzero =>
      rw [if_neg nonzero]
      split at scanned
      next digit =>
        cases scanned
        obtain ⟨taken, dropped⟩ := digits_append text more ends
        rw [if_pos digit, taken, dropped]
      next => cases scanned

/-- A fraction ends where no digit follows; without one, no point may follow. -/
theorem scanFraction_append {text : List Char} (more : List Char)
    (ends : NoDigit ((scanFraction text).2 ++ more))
    (noPoint : ∀ c ∈ ((scanFraction text).2 ++ more).head?, c ≠ '.') :
    scanFraction (text ++ more) = ((scanFraction text).1, (scanFraction text).2 ++ more) := by
  cases text with
  | nil =>
    cases more with
    | nil => rfl
    | cons c more =>
      have other : c ≠ '.' := noPoint c rfl
      simp [scanFraction, other]
  | cons c text =>
    simp only [scanFraction, List.cons_append] at ends noPoint ⊢
    split at ends
    next fraction =>
      rw [if_pos fraction] at noPoint ⊢
      obtain ⟨taken, dropped⟩ := digits_append text more ends
      rw [taken, if_pos fraction, dropped]
    next none =>
      rw [if_neg none] at noPoint ⊢
      have other : c ≠ '.' := noPoint c rfl
      rw [if_neg (fun point => other point.1)]
      simp

theorem scanSign_append {c : Char} (text more : List Char) :
    scanSign (c :: text ++ more) = ((scanSign (c :: text)).1, (scanSign (c :: text)).2 ++ more) := by
  simp only [scanSign, List.cons_append]
  split <;> simp

theorem scanExponent_append {text : List Char} (more : List Char)
    (ends : NoDigit ((scanExponent text).2 ++ more))
    (noLetter : ∀ c ∈ ((scanExponent text).2 ++ more).head?, c ≠ 'e' ∧ c ≠ 'E') :
    scanExponent (text ++ more) = ((scanExponent text).1, (scanExponent text).2 ++ more) := by
  cases text with
  | nil =>
    cases more with
    | nil => rfl
    | cons c more =>
      have other := noLetter c rfl
      simp [scanExponent, other]
  | cons c text =>
    simp only [scanExponent, List.cons_append] at ends noLetter ⊢
    split at ends
    next exponent =>
      rw [if_pos exponent] at noLetter ⊢
      -- an exponent has a digit, so there is a text for the sign
      cases text with
      | nil => exact absurd rfl exponent.2
      | cons d text =>
        rw [← List.cons_append, scanSign_append]
        obtain ⟨taken, dropped⟩ := digits_append (scanSign (d :: text)).2 more ends
        rw [taken, if_pos exponent, dropped]
        rfl
    next none =>
      rw [if_neg none] at noLetter ⊢
      have other := noLetter c rfl
      have noExponent : ¬ ((c = 'e' ∨ c = 'E') ∧
          (scanSign (text ++ more)).2.takeWhile isDigit ≠ []) := fun exponent =>
        exponent.1.elim other.1 other.2
      rw [if_neg noExponent]
      simp

/-- Between a fraction and the end there is nothing, or an exponent's letter. -/
theorem scanExponent_head (text more : List Char) (stops : Stops ((scanExponent text).2 ++ more)) :
    NoDigit (text ++ more) ∧ ∀ c ∈ (text ++ more).head?, c ≠ '.' := by
  cases text with
  | nil => exact ⟨stops.noDigit, fun c member => (stops c member).2.1⟩
  | cons c text =>
    simp only [scanExponent] at stops
    split at stops
    next exponent =>
      have letter : isDigit c = false ∧ c ≠ '.' := by
        rcases exponent.1 with rfl | rfl <;> decide
      constructor
      · intro d member
        cases member
        exact letter.1
      · intro d member
        cases member
        exact letter.2
    next none => exact ⟨stops.noDigit, fun c member => (stops c member).2.1⟩

/-- After an integer comes a fraction, or what comes after fractions. -/
theorem scanFraction_head (text more : List Char) (ends : NoDigit ((scanFraction text).2 ++ more)) :
    NoDigit (text ++ more) := by
  cases text with
  | nil => exact ends
  | cons c text =>
    simp only [scanFraction] at ends
    split at ends
    next fraction =>
      intro d member
      cases member
      rw [fraction.1]
      decide
    next none => exact ends

theorem scanUnsigned_append {text literal rest : List Char} (more : List Char)
    (scanned : scanUnsigned text = some (literal, rest)) (stops : Stops (rest ++ more)) :
    scanUnsigned (text ++ more) = some (literal, rest ++ more) := by
  rw [scanUnsigned] at scanned ⊢
  cases first : scanInteger text with
  | none =>
    rw [first] at scanned
    cases scanned
  | some read =>
    obtain ⟨integer, after⟩ := read
    rw [first] at scanned
    cases scanned
    have letters : ∀ c ∈ ((scanExponent (scanFraction after).2).2 ++ more).head?,
        c ≠ 'e' ∧ c ≠ 'E' := fun c member => (stops c member).2.2
    obtain ⟨noDigit, noPoint⟩ := scanExponent_head (scanFraction after).2 more stops
    rw [scanInteger_append more first (scanFraction_head after more noDigit)]
    simp only [scanFraction_append more noDigit noPoint,
      scanExponent_append more stops.noDigit letters]

theorem scanNumber_append {text literal rest : List Char} (more : List Char)
    (scanned : scanNumber text = some (literal, rest)) (stops : Stops (rest ++ more)) :
    scanNumber (text ++ more) = some (literal, rest ++ more) := by
  cases text with
  | nil => cases scanned
  | cons c text =>
    simp only [scanNumber, List.cons_append] at scanned ⊢
    split at scanned
    next minus =>
      rw [if_pos minus]
      cases inner : scanUnsigned text with
      | none =>
        rw [inner] at scanned
        cases scanned
      | some read =>
        rw [inner] at scanned
        cases scanned
        rw [scanUnsigned_append more inner stops]
    next plus =>
      rw [if_neg plus]
      exact scanUnsigned_append more scanned stops

/-! ### Constants -/

theorem afterWord_word {word text rest : List Char} (found : afterWord word text = some rest) :
    text = word ++ rest := by
  induction word generalizing text with
  | nil =>
    cases found
    rfl
  | cons w word ih =>
    cases text with
    | nil => cases found
    | cons c text =>
      simp only [afterWord] at found
      split at found
      next same => rw [ih found, same, List.cons_append]
      next => cases found

/-- The constants start differently, so no longer text becomes another one. -/
theorem scanConstant_append {text rest : List Char} {value : Json} (more : List Char)
    (found : scanConstant text = some (value, rest)) :
    scanConstant (text ++ more) = some (value, rest ++ more) := by
  obtain ⟨⟨word, constant⟩, member, matched⟩ := List.exists_of_findSome?_eq_some found
  obtain ⟨left, after, same⟩ := Option.map_eq_some_iff.mp matched
  cases same
  rw [afterWord_word after, List.append_assoc]
  simp only [constants, List.mem_cons, Prod.mk.injEq, List.not_mem_nil, or_false] at member
  rcases member with ⟨rfl, rfl⟩ | ⟨rfl, rfl⟩ | ⟨rfl, rfl⟩ | ⟨rfl, rfl⟩ | ⟨rfl, rfl⟩ | ⟨rfl, rfl⟩ <;>
    simp [scanConstant, constants, afterWord]

/-- A text that a number starts is no constant. -/
theorem scanConstant_digit {c : Char} (digit : isDigit c = true) (rest : List Char) :
    scanConstant (c :: rest) = none ∧ scanConstant ('-' :: c :: rest) = none := by
  have other : 'n' ≠ c ∧ 't' ≠ c ∧ 'f' ≠ c ∧ 'N' ≠ c ∧ 'I' ≠ c ∧ '-' ≠ c := by
    refine ⟨?_, ?_, ?_, ?_, ?_, ?_⟩ <;> rintro rfl <;> cases digit
  simp [scanConstant, constants, afterWord, other]

theorem scanUnsigned_head {text literal rest : List Char}
    (scanned : scanUnsigned text = some (literal, rest)) :
    ∃ c tail, text = c :: tail ∧ isDigit c = true := by
  cases text with
  | nil => cases scanned
  | cons c tail =>
    refine ⟨c, tail, rfl, ?_⟩
    by_contra noDigit
    have nonzero : c ≠ '0' := by
      rintro rfl
      exact noDigit rfl
    simp [scanUnsigned, scanInteger, nonzero, noDigit] at scanned

theorem scanConstant_number {text literal rest : List Char}
    (scanned : scanNumber text = some (literal, rest)) (more : List Char) :
    scanConstant (text ++ more) = none := by
  cases text with
  | nil => cases scanned
  | cons c text =>
    simp only [scanNumber] at scanned
    split at scanned
    next minus =>
      subst minus
      cases inner : scanUnsigned text with
      | none =>
        rw [inner] at scanned
        cases scanned
      | some read =>
        obtain ⟨d, tail, rfl, digit⟩ := scanUnsigned_head inner
        exact (scanConstant_digit digit (tail ++ more)).2
    next plus =>
      obtain ⟨d, tail, same, digit⟩ := scanUnsigned_head scanned
      cases same
      exact (scanConstant_digit digit (text ++ more)).1

/-! ### Values -/

def isNumber : Json → Bool
  | .number _ => true
  | _ => false

theorem scanAtom_append {text rest : List Char} {value : Json} (more : List Char)
    (scanned : scanAtom text = some (value, rest))
    (stops : value.isNumber = true → Stops (rest ++ more)) :
    scanAtom (text ++ more) = some (value, rest ++ more) := by
  rw [scanAtom] at scanned ⊢
  cases constant : scanConstant text with
  | some found =>
    rw [constant] at scanned
    cases scanned
    rw [scanConstant_append more constant]
  | none =>
    rw [constant] at scanned
    obtain ⟨⟨literal, left⟩, read, same⟩ := Option.map_eq_some_iff.mp scanned
    cases same
    rw [scanConstant_number read more, scanNumber_append more read (stops rfl)]
    rfl

theorem skipSpace_append {text rest : List Char} {c : Char} (more : List Char)
    (skipped : skipSpace text = c :: rest) : skipSpace (text ++ more) = c :: (rest ++ more) := by
  induction text with
  | nil => cases skipped
  | cons d text ih =>
    simp only [skipSpace, List.dropWhile_cons, List.cons_append] at skipped ih ⊢
    split at skipped
    next space =>
      rw [if_pos space]
      exact ih skipped
    next other =>
      cases skipped
      rw [if_neg other]

/-- A comma or a closing bracket, with space before it, ends every number. -/
theorem stops_of_skipSpace {text rest : List Char} {c : Char} (more : List Char)
    (skipped : skipSpace text = c :: rest) (delimiter : c = ',' ∨ c = ']' ∨ c = '}') :
    Stops (text ++ more) := by
  cases text with
  | nil => cases skipped
  | cons d text =>
    intro e member
    cases member
    simp only [skipSpace, List.dropWhile_cons] at skipped
    split at skipped
    next space =>
      simp only [isSpace, Bool.or_eq_true, decide_eq_true_eq] at space
      rcases space with ((rfl | rfl) | rfl) | rfl <;> decide
    next other =>
      cases skipped
      rcases delimiter with rfl | rfl | rfl <;> decide

end Binbot.Data.Json
