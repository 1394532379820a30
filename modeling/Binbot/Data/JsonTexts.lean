import Binbot.Data.JsonScan
import Mathlib.Data.List.Nodup
import Mathlib.Data.List.TakeWhile

/-!
# Encoded JSON texts

Decoding inverts encoding, and no proper prefix of an encoded object decodes: a text cut
short is always noticed.
-/
namespace Binbot.Data.Json

/-! ### Longer texts -/

/-- With this fuel, a scan reads the same from a longer text and with more fuel. -/
structure Extends (fuel : ℕ) : Prop where
  value : ∀ more fuel' text value rest, fuel ≤ fuel' → scanOnce fuel text = some (value, rest) →
    (value.isNumber = true → Stops (rest ++ more)) →
    scanOnce fuel' (text ++ more) = some (value, rest ++ more)
  items : ∀ more fuel' text items rest, fuel ≤ fuel' → scanItems fuel text = some (items, rest) →
    scanItems fuel' (text ++ more) = some (items, rest ++ more)
  members : ∀ more fuel' text members rest, fuel ≤ fuel' →
    scanMembers fuel text = some (members, rest) →
    scanMembers fuel' (text ++ more) = some (members, rest ++ more)

theorem skipSpace_append_ne {text : List Char} (more : List Char) (some : skipSpace text ≠ []) :
    skipSpace (text ++ more) = skipSpace text ++ more := by
  cases skipped : skipSpace text with
  | nil => exact absurd skipped some
  | cons c rest => rw [skipSpace_append more skipped, List.cons_append]

theorem scanOnce_nil (fuel : ℕ) : scanOnce fuel [] = none := by
  cases fuel <;> rfl

theorem scanItems_nil (fuel : ℕ) : scanItems fuel [] = none := by
  cases fuel with
  | zero => rfl
  | succ fuel => simp only [scanItems, scanOnce_nil]

variable {fuel : ℕ}

theorem extends_items (shorter : Extends fuel) (more : List Char) {fuel' : ℕ}
    (enough : fuel ≤ fuel') {text rest : List Char} {items : List Json}
    (scanned : scanItems (fuel + 1) text = some (items, rest)) :
    scanItems (fuel' + 1) (text ++ more) = some (items, rest ++ more) := by
  simp only [scanItems] at scanned ⊢
  cases first : scanOnce fuel text with
  | none =>
    rw [first] at scanned
    cases scanned
  | some read =>
    obtain ⟨value, left⟩ := read
    simp only [first] at scanned
    cases skipped : skipSpace left with
    | nil =>
      rw [skipped] at scanned
      cases scanned
    | cons c left' =>
      simp only [skipped] at scanned
      have delimiter : c = ',' ∨ c = ']' ∨ c = '}' := by
        by_contra other
        simp only [not_or] at other
        simp [other.1, other.2.1] at scanned
      have stops := stops_of_skipSpace more skipped delimiter
      rw [shorter.value more fuel' text value left enough first fun _ => stops]
      simp only [skipSpace_append more skipped]
      split at scanned
      next closing =>
        cases scanned
        rw [if_pos closing]
      next open_ =>
        rw [if_neg open_]
        split at scanned
        next comma =>
          rw [if_pos comma]
          obtain ⟨⟨others, last⟩, tail, same⟩ := Option.map_eq_some_iff.mp scanned
          cases same
          have some : skipSpace left' ≠ [] := by
            intro none
            rw [none, scanItems_nil] at tail
            cases tail
          rw [skipSpace_append_ne more some, shorter.items more fuel' _ others last enough tail]
          rfl
        next => cases scanned

theorem extends_members (shorter : Extends fuel) (more : List Char) {fuel' : ℕ}
    (enough : fuel ≤ fuel') {text rest : List Char} {members : List (CodePoints × Json)}
    (scanned : scanMembers (fuel + 1) text = some (members, rest)) :
    scanMembers (fuel' + 1) (text ++ more) = some (members, rest ++ more) := by
  simp only [scanMembers] at scanned ⊢
  cases name : scanString text with
  | none =>
    rw [name] at scanned
    cases scanned
  | some read =>
    obtain ⟨key, afterKey⟩ := read
    simp only [name, scanString_append more name] at scanned ⊢
    cases colon : skipSpace afterKey with
    | nil =>
      rw [colon] at scanned
      cases scanned
    | cons c afterColon =>
      simp only [colon, skipSpace_append more colon] at scanned ⊢
      split at scanned
      next isColon =>
        rw [if_pos isColon]
        cases first : scanOnce fuel (skipSpace afterColon) with
        | none =>
          rw [first] at scanned
          cases scanned
        | some read =>
          obtain ⟨value, afterValue⟩ := read
          simp only [first] at scanned
          have some : skipSpace afterColon ≠ [] := by
            intro none
            rw [none, scanOnce_nil] at first
            cases first
          cases skipped : skipSpace afterValue with
          | nil =>
            rw [skipped] at scanned
            cases scanned
          | cons d afterSeparator =>
            simp only [skipped] at scanned
            have delimiter : d = ',' ∨ d = ']' ∨ d = '}' := by
              by_contra other
              simp only [not_or] at other
              simp [other.1, other.2.2] at scanned
            have stops := stops_of_skipSpace more skipped delimiter
            rw [skipSpace_append_ne more some,
              shorter.value more fuel' _ value afterValue enough first fun _ => stops]
            simp only [skipSpace_append more skipped]
            split at scanned
            next closing =>
              cases scanned
              rw [if_pos closing]
            next open_ =>
              rw [if_neg open_]
              split at scanned
              next comma =>
                rw [if_pos comma]
                cases next : skipSpace afterSeparator with
                | nil =>
                  rw [next] at scanned
                  cases scanned
                | cons quote afterQuote =>
                  simp only [next, skipSpace_append more next] at scanned ⊢
                  split at scanned
                  next isQuote =>
                    rw [if_pos isQuote]
                    obtain ⟨⟨others, last⟩, tail, same⟩ := Option.map_eq_some_iff.mp scanned
                    cases same
                    rw [shorter.members more fuel' _ others last enough tail]
                    rfl
                  next => cases scanned
              next => cases scanned
      next => cases scanned

theorem extends_value (shorter : Extends fuel) (more : List Char) {fuel' : ℕ}
    (enough : fuel ≤ fuel') {text rest : List Char} {value : Json}
    (scanned : scanOnce (fuel + 1) text = some (value, rest))
    (stops : value.isNumber = true → Stops (rest ++ more)) :
    scanOnce (fuel' + 1) (text ++ more) = some (value, rest ++ more) := by
  cases text with
  | nil => cases scanned
  | cons c text =>
    simp only [scanOnce, List.cons_append] at scanned ⊢
    split at scanned
    next quote =>
      rw [if_pos quote]
      obtain ⟨⟨s, left⟩, read, same⟩ := Option.map_eq_some_iff.mp scanned
      cases same
      rw [scanString_append more read]
      rfl
    next noQuote =>
      rw [if_neg noQuote]
      split at scanned
      next brace =>
        rw [if_pos brace]
        cases next : skipSpace text with
        | nil =>
          rw [next] at scanned
          cases scanned
        | cons d text' =>
          simp only [next, skipSpace_append more next] at scanned ⊢
          split at scanned
          next closing =>
            cases scanned
            rw [if_pos closing]
          next some =>
            rw [if_neg some]
            split at scanned
            next key =>
              rw [if_pos key]
              obtain ⟨⟨members, left⟩, read, same⟩ := Option.map_eq_some_iff.mp scanned
              cases same
              rw [shorter.members more fuel' _ members left enough read]
              rfl
            next => cases scanned
      next noBrace =>
        rw [if_neg noBrace]
        split at scanned
        next bracket =>
          rw [if_pos bracket]
          cases next : skipSpace text with
          | nil =>
            rw [next] at scanned
            cases scanned
          | cons d text' =>
            simp only [next, skipSpace_append more next] at scanned ⊢
            split at scanned
            next closing =>
              cases scanned
              rw [if_pos closing]
            next some =>
              rw [if_neg some]
              obtain ⟨⟨items, left⟩, read, same⟩ := Option.map_eq_some_iff.mp scanned
              cases same
              rw [← List.cons_append, shorter.items more fuel' _ items left enough read]
              rfl
        next noBracket =>
          rw [if_neg noBracket]
          exact scanAtom_append more scanned stops

theorem scan_extends (fuel : ℕ) : Extends fuel := by
  induction fuel with
  | zero =>
    constructor
    · intro _ _ _ _ _ _ scanned
      cases scanned
    · intro _ _ _ _ _ _ scanned
      cases scanned
    · intro _ _ _ _ _ _ scanned
      cases scanned
  | succ fuel shorter =>
    constructor
    · intro more fuel' text value rest enough scanned stops
      obtain ⟨fuel', rfl⟩ : ∃ n, fuel' = n + 1 := ⟨fuel' - 1, by omega⟩
      exact extends_value shorter more (by omega) scanned stops
    · intro more fuel' text items rest enough scanned
      obtain ⟨fuel', rfl⟩ : ∃ n, fuel' = n + 1 := ⟨fuel' - 1, by omega⟩
      exact extends_items shorter more (by omega) scanned
    · intro more fuel' text members rest enough scanned
      obtain ⟨fuel', rfl⟩ : ∃ n, fuel' = n + 1 := ⟨fuel' - 1, by omega⟩
      exact extends_members shorter more (by omega) scanned

/-! ### Reading back -/

/-- A value that `dumps` writes so that it can be read back: its numbers are literals of
numbers and its strings are texts proper. -/
inductive WellFormed : Json → Prop where
  | null : WellFormed .null
  | bool (value : Bool) : WellFormed (.bool value)
  | number (literal : List Char) (own : scanAtom literal = some (.number literal, [])) :
    WellFormed (.number literal)
  | string (s : CodePoints) (scalar : Scalar s) : WellFormed (.string s)
  | array (items : List Json) (each : ∀ item ∈ items, WellFormed item) : WellFormed (.array items)
  | object (members : List (CodePoints × Json)) (keys : ∀ entry ∈ members, Scalar entry.1)
    (each : ∀ entry ∈ members, WellFormed entry.2) : WellFormed (.object members)

/-- What no value starts with. -/
def Starts (c : Char) : Prop := isSpace c = false ∧ c ≠ ']'

/-- What a value other than a string, an array or an object starts with. -/
def StartsAtom (c : Char) : Prop := Starts c ∧ c ≠ '"' ∧ c ≠ '{' ∧ c ≠ '['

theorem startsAtom_digit {c : Char} (digit : isDigit c = true) : StartsAtom c := by
  refine ⟨⟨?_, ?_⟩, ?_, ?_, ?_⟩
  · by_contra space
    simp only [isSpace, Bool.not_eq_false, Bool.or_eq_true, decide_eq_true_eq] at space
    rcases space with ((rfl | rfl) | rfl) | rfl <;> cases digit
  all_goals
    rintro rfl
    cases digit

theorem scanAtom_head {text rest : List Char} {value : Json}
    (scanned : scanAtom text = some (value, rest)) :
    ∃ c tail, text = c :: tail ∧ StartsAtom c := by
  rw [scanAtom] at scanned
  cases constant : scanConstant text with
  | some found =>
    obtain ⟨⟨word, value⟩, member, matched⟩ := List.exists_of_findSome?_eq_some constant
    obtain ⟨left, after, _⟩ := Option.map_eq_some_iff.mp matched
    rw [afterWord_word after]
    simp only [constants, List.mem_cons, Prod.mk.injEq, List.not_mem_nil, or_false] at member
    rcases member with ⟨rfl, _⟩ | ⟨rfl, _⟩ | ⟨rfl, _⟩ | ⟨rfl, _⟩ | ⟨rfl, _⟩ | ⟨rfl, _⟩ <;>
      exact ⟨_, _, rfl, ⟨by decide, by decide⟩, by decide, by decide, by decide⟩
  | none =>
    rw [constant] at scanned
    obtain ⟨⟨literal, left⟩, read, _⟩ := Option.map_eq_some_iff.mp scanned
    cases text with
    | nil => cases read
    | cons c tail =>
      refine ⟨c, tail, rfl, ?_⟩
      by_cases minus : c = '-'
      · subst minus
        exact ⟨⟨by decide, by decide⟩, by decide, by decide, by decide⟩
      · simp only [scanNumber, if_neg minus] at read
        obtain ⟨d, _, same, digit⟩ := scanUnsigned_head read
        cases same
        exact startsAtom_digit digit

/-- A value's text is not empty, and does not start with space or a closing bracket. -/
theorem dumps_head {value : Json} (wellFormed : WellFormed value) :
    ∃ c tail, dumps value = c :: tail ∧ Starts c := by
  cases wellFormed with
  | null => exact ⟨_, _, rfl, by decide, by decide⟩
  | bool value => cases value <;> exact ⟨_, _, rfl, by decide, by decide⟩
  | number literal own =>
    obtain ⟨c, tail, same, start⟩ := scanAtom_head own
    exact ⟨c, tail, same, start.1⟩
  | string s scalar => exact ⟨_, _, rfl, by decide, by decide⟩
  | array items each => exact ⟨_, _, rfl, by decide, by decide⟩
  | object members keys each => exact ⟨_, _, rfl, by decide, by decide⟩

theorem skipSpace_dumps {value : Json} (wellFormed : WellFormed value) (more : List Char) :
    skipSpace (dumps value ++ more) = dumps value ++ more := by
  obtain ⟨c, tail, same, noSpace, _⟩ := dumps_head wellFormed
  rw [same, skipSpace, List.cons_append, List.dropWhile_cons_of_neg (by simp [noSpace])]

theorem stops_moreItems (items : List Json) : Stops (dumpsMoreItems items) := by
  cases items with
  | nil =>
    intro c member
    cases member
    decide
  | cons item items =>
    intro c member
    cases member
    decide

theorem stops_moreMembers (members : List (CodePoints × Json)) :
    Stops (dumpsMoreMembers members) := by
  cases members with
  | nil =>
    intro c member
    cases member
    decide
  | cons entry members =>
    intro c member
    cases member
    decide

/-- The text of members after the opening quote of the first key. -/
def afterQuote (first : CodePoints × Json) (rest : List (CodePoints × Json)) : List Char :=
  first.1.flatMap escape ++ '"' :: ':' :: ' ' :: (dumps first.2 ++ dumpsMoreMembers rest)

theorem dumpsMembers_cons (first : CodePoints × Json) (rest : List (CodePoints × Json)) :
    dumpsMembers (first :: rest) = '"' :: afterQuote first rest := by
  obtain ⟨key, value⟩ := first
  simp [dumpsMembers, dumpsMember, quoted, afterQuote]

theorem dumpsMoreMembers_cons (first : CodePoints × Json) (rest : List (CodePoints × Json)) :
    dumpsMoreMembers (first :: rest) = ',' :: ' ' :: '"' :: afterQuote first rest := by
  obtain ⟨key, value⟩ := first
  simp [dumpsMoreMembers, dumpsMember, quoted, afterQuote]

/-- With this fuel, a scan reads back what was written in less than as many characters. -/
structure ReadsBack (fuel : ℕ) : Prop where
  value : ∀ value, WellFormed value → (dumps value).length < fuel →
    scanOnce fuel (dumps value) = some (value, [])
  items : ∀ first rest, (∀ item ∈ first :: rest, WellFormed item) →
    (dumpsItems (first :: rest)).length < fuel →
    scanItems fuel (dumpsItems (first :: rest)) = some (first :: rest, [])
  members : ∀ first rest, (∀ entry ∈ first :: rest, Scalar entry.1) →
    (∀ entry ∈ first :: rest, WellFormed entry.2) → (afterQuote first rest).length < fuel →
    scanMembers fuel (afterQuote first rest) = some (first :: rest, [])

theorem ReadsBack.value_append (shorter : ReadsBack fuel) {value : Json}
    (wellFormed : WellFormed value) (enough : (dumps value).length < fuel) {more : List Char}
    (stops : Stops more) : scanOnce fuel (dumps value ++ more) = some (value, more) :=
  (scan_extends fuel).value more fuel _ value [] (Nat.le_refl _) (shorter.value value wellFormed enough)
    fun _ => stops

theorem readsBack_items (shorter : ReadsBack fuel) (first : Json) (rest : List Json)
    (each : ∀ item ∈ first :: rest, WellFormed item)
    (enough : (dumpsItems (first :: rest)).length < fuel + 1) :
    scanItems (fuel + 1) (dumpsItems (first :: rest)) = some (first :: rest, []) := by
  have here := each first List.mem_cons_self
  rw [dumpsItems, List.length_append] at enough
  cases rest with
  | nil =>
    rw [dumpsMoreItems, List.length_singleton] at enough
    rw [scanItems, dumpsItems, shorter.value_append here (by omega) (stops_moreItems [])]
    rfl
  | cons next rest =>
    have wellFormed := each next (List.mem_cons_of_mem first List.mem_cons_self)
    rw [dumpsMoreItems, List.cons_append, List.length_cons, List.cons_append, List.length_cons] at enough
    have tail := shorter.items next rest (fun item member => each item (List.mem_cons_of_mem _ member))
      (by rw [dumpsItems]; omega)
    have space : skipSpace (' ' :: (dumps next ++ dumpsMoreItems rest)) = dumpsItems (next :: rest) :=
      skipSpace_dumps wellFormed _
    rw [scanItems, dumpsItems, shorter.value_append here (by omega) (stops_moreItems (next :: rest))]
    have comma : skipSpace (dumpsMoreItems (next :: rest)) =
        ',' :: ' ' :: (dumps next ++ dumpsMoreItems rest) := rfl
    simp only [comma, space, tail]
    rfl

theorem readsBack_members (shorter : ReadsBack fuel) (first : CodePoints × Json)
    (rest : List (CodePoints × Json)) (keys : ∀ entry ∈ first :: rest, Scalar entry.1)
    (each : ∀ entry ∈ first :: rest, WellFormed entry.2)
    (enough : (afterQuote first rest).length < fuel + 1) :
    scanMembers (fuel + 1) (afterQuote first rest) = some (first :: rest, []) := by
  have here := each first List.mem_cons_self
  have key : scanString (afterQuote first rest) =
      some (first.1, ':' :: ' ' :: (dumps first.2 ++ dumpsMoreMembers rest)) :=
    scanString_quoted first.1 (keys first List.mem_cons_self) _
  have colon : skipSpace (':' :: ' ' :: (dumps first.2 ++ dumpsMoreMembers rest)) =
      ':' :: ' ' :: (dumps first.2 ++ dumpsMoreMembers rest) := rfl
  have space : skipSpace (' ' :: (dumps first.2 ++ dumpsMoreMembers rest)) =
      dumps first.2 ++ dumpsMoreMembers rest := skipSpace_dumps here _
  simp only [afterQuote, List.length_append, List.length_cons] at enough
  rw [scanMembers]
  simp only [key, colon, space, if_true,
    shorter.value_append here (by omega) (stops_moreMembers rest)]
  cases rest with
  | nil => rfl
  | cons next rest =>
    rw [dumpsMoreMembers_cons, List.length_cons, List.length_cons, List.length_cons] at enough
    have tail := shorter.members next rest
      (fun entry member => keys entry (List.mem_cons_of_mem _ member))
      (fun entry member => each entry (List.mem_cons_of_mem _ member)) (by omega)
    have comma : skipSpace (dumpsMoreMembers (next :: rest)) =
        ',' :: ' ' :: '"' :: afterQuote next rest := by
      rw [dumpsMoreMembers_cons]
      rfl
    have quote : skipSpace (' ' :: '"' :: afterQuote next rest) = '"' :: afterQuote next rest := rfl
    simp only [comma, quote, tail]
    rfl

theorem readsBack_value (shorter : ReadsBack fuel) (value : Json) (wellFormed : WellFormed value)
    (enough : (dumps value).length < fuel + 1) :
    scanOnce (fuel + 1) (dumps value) = some (value, []) := by
  cases wellFormed with
  | null => rfl
  | bool value => cases value <;> rfl
  | number literal own =>
    obtain ⟨c, tail, rfl, _, noQuote, noBrace, noBracket⟩ := scanAtom_head own
    rw [dumps, scanOnce, if_neg noQuote, if_neg noBrace, if_neg noBracket, own]
  | string s scalar =>
    have read := scanString_quoted s scalar []
    rw [dumps, quoted, List.cons_append, scanOnce, if_pos rfl, read]
    rfl
  | array items each =>
    rw [dumps] at enough ⊢
    cases items with
    | nil => rfl
    | cons first rest =>
      obtain ⟨c, tail, same, noSpace, open_⟩ := dumps_head (each first List.mem_cons_self)
      have space : skipSpace (dumpsItems (first :: rest)) = c :: (tail ++ dumpsMoreItems rest) := by
        rw [dumpsItems, skipSpace_dumps (each first List.mem_cons_self), same, List.cons_append]
      have back : c :: (tail ++ dumpsMoreItems rest) = dumpsItems (first :: rest) := by
        rw [dumpsItems, same, List.cons_append]
      have read := shorter.items first rest each (by rw [List.length_cons] at enough; omega)
      rw [← back] at read
      rw [scanOnce, if_neg (by decide), if_neg (by decide), if_pos rfl]
      simp only [space, if_neg open_, read]
      rfl
  | object members keys each =>
    rw [dumps] at enough ⊢
    cases members with
    | nil => rfl
    | cons first rest =>
      rw [dumpsMembers_cons, List.length_cons, List.length_cons] at enough
      have quote : skipSpace ('"' :: afterQuote first rest) = '"' :: afterQuote first rest := rfl
      rw [dumpsMembers_cons, scanOnce]
      simp only [quote, shorter.members first rest keys each (by omega)]
      rfl

theorem reads_back (fuel : ℕ) : ReadsBack fuel := by
  induction fuel with
  | zero =>
    constructor
    · intro _ _ short
      exact absurd short (Nat.not_lt_zero _)
    · intro _ _ _ short
      exact absurd short (Nat.not_lt_zero _)
    · intro _ _ _ _ short
      exact absurd short (Nat.not_lt_zero _)
  | succ fuel shorter =>
    exact ⟨readsBack_value shorter, readsBack_items shorter, readsBack_members shorter⟩

/-- Decoding inverts encoding. -/
theorem loads_dumps {value : Json} (wellFormed : WellFormed value) :
    loads (dumps value) = some value := by
  have space := skipSpace_dumps wellFormed []
  rw [List.append_nil] at space
  rw [loads, space, (reads_back _).value value wellFormed (Nat.lt_succ_self _)]
  rfl

theorem scanOnce_brace {text rest : List Char} {value : Json}
    (scanned : scanOnce fuel ('{' :: text) = some (value, rest)) : value.isNumber ≠ true := by
  cases fuel with
  | zero => cases scanned
  | succ fuel =>
    rw [scanOnce, if_neg (by decide), if_pos rfl] at scanned
    split at scanned
    next => cases scanned
    next =>
      split at scanned
      next =>
        cases scanned
        exact Bool.false_ne_true
      next =>
        split at scanned
        next =>
          obtain ⟨_, _, same⟩ := Option.map_eq_some_iff.mp scanned
          cases same
          exact Bool.false_ne_true
        next => cases scanned

theorem moreMembers_ends (members : List (CodePoints × Json)) :
    (dumpsMoreMembers members).getLast? = some '}' := by
  induction members with
  | nil => rfl
  | cons entry members ih =>
    rw [dumpsMoreMembers, List.getLast?_append, ih]
    rfl

theorem dumps_object_ends (members : List (CodePoints × Json)) :
    (dumps (.object members)).getLast? = some '}' := by
  rw [dumps]
  cases members with
  | nil => rfl
  | cons first rest =>
    rw [dumpsMembers, ← List.cons_append, List.getLast?_append, moreMembers_ends]
    rfl

/-- A text in braces that decodes to anything decodes to nothing once it is cut: the part
would be a value by itself, and the rest of the text would follow it. -/
theorem loads_cut {text : List Char} {value : Json} (decodes : loads text = some value)
    (opens : text.head? = some '{') (ends : text.getLast? = some '}') {k : ℕ}
    (short : k < text.length) : loads (text.take k) = none := by
  cases k with
  | zero => rfl
  | succ k =>
    obtain ⟨tail, rfl⟩ : ∃ tail, text = '{' :: tail := List.head?_eq_some_iff.mp opens
    have space (more : List Char) : skipSpace ('{' :: more) = '{' :: more := rfl
    cases cut : loads (('{' :: tail).take (k + 1)) with
    | none => rfl
    | some part =>
      exfalso
      rw [loads, space] at decodes
      rw [List.take_succ_cons, loads, space] at cut
      split at cut
      next => cases cut
      next value' rest' scanned =>
        have whole := (scan_extends _).value (tail.drop k) (('{' :: tail).length + 1) _ value' rest'
          (by rw [List.length_cons, List.length_take, List.length_cons]; omega) scanned
          fun number => absurd number (scanOnce_brace scanned)
        rw [List.cons_append, List.take_append_drop] at whole
        simp only [whole] at decodes
        -- The whole text would have nothing but space after the part; but it has its last brace.
        split at decodes
        next blank =>
          have spaces := List.dropWhile_eq_nil_iff.mp blank
          have last : '}' ∈ tail.drop k := by
            have final : tail.getLast? = some '}' := by
              cases tail with
              | nil => cases ends
              | cons c tail => rwa [List.getLast?_cons_cons] at ends
            have kept : (tail.drop k).getLast? = some '}' := by
              rw [List.getLast?_drop, if_neg (by rw [List.length_cons] at short; omega), final]
            exact List.mem_of_getLast? kept
          exact absurd (spaces '}' (List.mem_append_right _ last)) (by decide)
        next => cases decodes

/-- An object's text that is cut short decodes to nothing. -/
theorem loads_torn {members : List (CodePoints × Json)} (wellFormed : WellFormed (.object members))
    {k : ℕ} (short : k < (dumps (.object members)).length) :
    loads ((dumps (.object members)).take k) = none :=
  loads_cut (loads_dumps wellFormed) rfl (dumps_object_ends members) short

/-- Where the keys are distinct, every member is found under its key. -/
theorem member?_of_mem {members : List (CodePoints × Json)} {key : CodePoints} {value : Json}
    (distinct : (members.map Prod.fst).Nodup) (member : (key, value) ∈ members) :
    member? members key = some value := by
  rw [member?]
  cases found : members.reverse.find? (fun entry => entry.1 = key) with
  | none =>
    have other := List.find?_eq_none.mp found (key, value) (List.mem_reverse.mpr member)
    simp at other
  | some entry =>
    have own : entry.1 = key := by simpa using List.find?_some found
    have listed := List.mem_reverse.mp (List.mem_of_find?_eq_some found)
    have same := List.inj_on_of_nodup_map distinct listed member own
    rw [same]
    rfl

end Binbot.Data.Json
