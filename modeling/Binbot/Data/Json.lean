import Mathlib.Data.List.Basic
import Mathlib.Tactic.Common

/-!
# JSON texts

The decoder and the encoder of Python's `json` module with its default settings, on
texts of any nesting. A number keeps its literal.
-/
namespace Binbot.Data

/-- A string as its code points; lone surrogates may occur. -/
abbrev CodePoints : Type := List ℕ

inductive Json where
  | null
  | bool (value : Bool)
  /-- A number, or one of `NaN`, `Infinity` and `-Infinity`. -/
  | number (literal : List Char)
  | string (value : CodePoints)
  | array (items : List Json)
  | object (members : List (CodePoints × Json))

namespace Json

/-! ### Encoding -/

def hexDigit (n : ℕ) : Char :=
  if n < 10 then Char.ofNat (48 + n) else Char.ofNat (87 + n)

/-- `\uXXXX`. -/
def unicodeEscape (n : ℕ) : List Char :=
  ['\\', 'u', hexDigit (n / 4096 % 16), hexDigit (n / 256 % 16), hexDigit (n / 16 % 16),
    hexDigit (n % 16)]

/-- The units a code point is escaped as: a pair of surrogates from `0x10000` on. -/
def units (n : ℕ) : List ℕ :=
  if n < 0x10000 then [n]
  else [0xD800 + (n - 0x10000) / 1024 % 1024, 0xDC00 + (n - 0x10000) % 1024]

/-- The escapes with a letter of their own. -/
def shortEscape (n : ℕ) : Option Char :=
  if n = 34 then some '"' else if n = 92 then some '\\' else if n = 8 then some 'b'
  else if n = 12 then some 'f' else if n = 10 then some 'n' else if n = 13 then some 'r'
  else if n = 9 then some 't' else none

def escape (n : ℕ) : List Char :=
  match shortEscape n with
  | some letter => ['\\', letter]
  | none => if 32 ≤ n ∧ n ≤ 126 then [Char.ofNat n] else (units n).flatMap unicodeEscape

/-- A string with its quotes. -/
def quoted (s : CodePoints) : List Char := '"' :: s.flatMap escape ++ ['"']

mutual

/-- `json.dumps`. -/
def dumps : Json → List Char
  | .null => ['n', 'u', 'l', 'l']
  | .bool true => ['t', 'r', 'u', 'e']
  | .bool false => ['f', 'a', 'l', 's', 'e']
  | .number literal => literal
  | .string s => quoted s
  | .array items => '[' :: dumpsItems items
  | .object members => '{' :: dumpsMembers members

/-- The items of an array, with its closing bracket. -/
def dumpsItems : List Json → List Char
  | [] => [']']
  | first :: rest => dumps first ++ dumpsMoreItems rest

def dumpsMoreItems : List Json → List Char
  | [] => [']']
  | next :: rest => ',' :: ' ' :: dumps next ++ dumpsMoreItems rest

/-- The members of an object, with its closing brace. -/
def dumpsMembers : List (CodePoints × Json) → List Char
  | [] => ['}']
  | first :: rest => dumpsMember first ++ dumpsMoreMembers rest

def dumpsMoreMembers : List (CodePoints × Json) → List Char
  | [] => ['}']
  | next :: rest => ',' :: ' ' :: dumpsMember next ++ dumpsMoreMembers rest

def dumpsMember : CodePoints × Json → List Char
  | (key, value) => quoted key ++ ':' :: ' ' :: dumps value

end

/-! ### Decoding -/

def isSpace (c : Char) : Bool := c = ' ' || c = '\t' || c = '\n' || c = '\r'

def skipSpace (text : List Char) : List Char := text.dropWhile isSpace

def hexValue (c : Char) : Option ℕ :=
  let n := c.toNat
  if 48 ≤ n ∧ n ≤ 57 then some (n - 48)
  else if 97 ≤ n ∧ n ≤ 102 then some (n - 87)
  else if 65 ≤ n ∧ n ≤ 70 then some (n - 55)
  else none

/-- Four hexadecimal digits. -/
def hexUnit (a b c d : Char) : Option ℕ :=
  match hexValue a, hexValue b, hexValue c, hexValue d with
  | some a, some b, some c, some d => some (a * 4096 + b * 256 + c * 16 + d)
  | _, _, _, _ => none

def unescape (letter : Char) : Option ℕ :=
  if letter = '"' then some 34 else if letter = '\\' then some 92 else if letter = '/' then some 47
  else if letter = 'b' then some 8 else if letter = 'f' then some 12
  else if letter = 'n' then some 10 else if letter = 'r' then some 13
  else if letter = 't' then some 9 else none

/-- The units of a string after its opening quote, and the text after its closing one. -/
def scanUnits : List Char → Option (List ℕ × List Char)
  | [] => none
  | '"' :: rest => some ([], rest)
  | '\\' :: 'u' :: a :: b :: c :: d :: rest =>
    match hexUnit a b c d, scanUnits rest with
    | some unit, some (more, left) => some (unit :: more, left)
    | _, _ => none
  | '\\' :: letter :: rest =>
    match unescape letter, scanUnits rest with
    | some unit, some (more, left) => some (unit :: more, left)
    | _, _ => none
  | ['\\'] => none
  | c :: rest =>
    -- strict mode: no control characters
    if c.toNat < 32 then none
    else
      match scanUnits rest with
      | some (more, left) => some (c.toNat :: more, left)
      | none => none

def isHigh (n : ℕ) : Bool := 0xD800 ≤ n && n ≤ 0xDBFF

def isLow (n : ℕ) : Bool := 0xDC00 ≤ n && n ≤ 0xDFFF

/-- A high surrogate and the low one after it are one code point. -/
def joinSurrogates : List ℕ → CodePoints
  | [] => []
  | [unit] => [unit]
  | high :: low :: rest =>
    if isHigh high && isLow low then
      (0x10000 + (high - 0xD800) * 1024 + (low - 0xDC00)) :: joinSurrogates rest
    else high :: joinSurrogates (low :: rest)

def scanString (text : List Char) : Option (CodePoints × List Char) :=
  (scanUnits text).map fun scanned => (joinSurrogates scanned.1, scanned.2)

def isDigit (c : Char) : Bool := 48 ≤ c.toNat && c.toNat ≤ 57

/-- `0`, or digits that do not start with it. -/
def scanInteger : List Char → Option (List Char × List Char)
  | [] => none
  | c :: rest =>
    if c = '0' then some (['0'], rest)
    else if isDigit c then some (c :: rest.takeWhile isDigit, rest.dropWhile isDigit)
    else none

/-- `(\.[0-9]+)?` -/
def scanFraction : List Char → List Char × List Char
  | [] => ([], [])
  | c :: rest =>
    if c = '.' ∧ rest.takeWhile isDigit ≠ [] then
      ('.' :: rest.takeWhile isDigit, rest.dropWhile isDigit)
    else ([], c :: rest)

/-- `[-+]?` -/
def scanSign : List Char → List Char × List Char
  | [] => ([], [])
  | c :: rest => if c = '+' ∨ c = '-' then ([c], rest) else ([], c :: rest)

/-- `([eE][-+]?[0-9]+)?` -/
def scanExponent : List Char → List Char × List Char
  | [] => ([], [])
  | c :: rest =>
    let signed := scanSign rest
    if (c = 'e' ∨ c = 'E') ∧ signed.2.takeWhile isDigit ≠ [] then
      (c :: signed.1 ++ signed.2.takeWhile isDigit, signed.2.dropWhile isDigit)
    else ([], c :: rest)

/-- The literal of a number without a sign. -/
def scanUnsigned (text : List Char) : Option (List Char × List Char) :=
  match scanInteger text with
  | none => none
  | some (integer, rest) =>
    let fraction := scanFraction rest
    let exponent := scanExponent fraction.2
    some (integer ++ fraction.1 ++ exponent.1, exponent.2)

def scanNumber : List Char → Option (List Char × List Char)
  | [] => none
  | c :: rest =>
    if c = '-' then
      match scanUnsigned rest with
      | some (literal, left) => some ('-' :: literal, left)
      | none => none
    else scanUnsigned (c :: rest)

/-- The text after a word it starts with. -/
def afterWord : List Char → List Char → Option (List Char)
  | [], text => some text
  | _ :: _, [] => none
  | w :: word, c :: rest => if w = c then afterWord word rest else none

def constants : List (List Char × Json) :=
  [(['n', 'u', 'l', 'l'], .null), (['t', 'r', 'u', 'e'], .bool true),
    (['f', 'a', 'l', 's', 'e'], .bool false), (['N', 'a', 'N'], .number ['N', 'a', 'N']),
    (['I', 'n', 'f', 'i', 'n', 'i', 't', 'y'], .number ['I', 'n', 'f', 'i', 'n', 'i', 't', 'y']),
    (['-', 'I', 'n', 'f', 'i', 'n', 'i', 't', 'y'],
      .number ['-', 'I', 'n', 'f', 'i', 'n', 'i', 't', 'y'])]

def scanConstant (text : List Char) : Option (Json × List Char) :=
  constants.findSome? fun entry => (afterWord entry.1 text).map fun rest => (entry.2, rest)

/-- A value that is no string, array or object. -/
def scanAtom (text : List Char) : Option (Json × List Char) :=
  match scanConstant text with
  | some scanned => some scanned
  | none => (scanNumber text).map fun scanned => (.number scanned.1, scanned.2)

mutual

/-- `scan_once`, with fuel for each value and each separator. -/
def scanOnce : ℕ → List Char → Option (Json × List Char)
  | 0, _ => none
  | _ + 1, [] => none
  | fuel + 1, c :: rest =>
    if c = '"' then (scanString rest).map fun scanned => (.string scanned.1, scanned.2)
    else if c = '{' then
      match skipSpace rest with
      | [] => none
      | d :: rest =>
        if d = '}' then some (.object [], rest)
        else if d = '"' then
          (scanMembers fuel rest).map fun scanned => (.object scanned.1, scanned.2)
        else none
    else if c = '[' then
      match skipSpace rest with
      | [] => none
      | d :: rest =>
        if d = ']' then some (.array [], rest)
        else (scanItems fuel (d :: rest)).map fun scanned => (.array scanned.1, scanned.2)
    else scanAtom (c :: rest)

/-- The items of an array, up to its closing bracket. -/
def scanItems : ℕ → List Char → Option (List Json × List Char)
  | 0, _ => none
  | fuel + 1, text =>
    match scanOnce fuel text with
    | none => none
    | some (value, rest) =>
      match skipSpace rest with
      | [] => none
      | c :: rest =>
        if c = ']' then some ([value], rest)
        else if c = ',' then
          (scanItems fuel (skipSpace rest)).map fun scanned => (value :: scanned.1, scanned.2)
        else none

/-- The members of an object from the first key's opening quote on, up to the closing brace. -/
def scanMembers : ℕ → List Char → Option (List (CodePoints × Json) × List Char)
  | 0, _ => none
  | fuel + 1, text =>
    match scanString text with
    | none => none
    | some (key, rest) =>
      match skipSpace rest with
      | [] => none
      | colon :: rest =>
        if colon = ':' then
          match scanOnce fuel (skipSpace rest) with
          | none => none
          | some (value, rest) =>
            match skipSpace rest with
            | [] => none
            | c :: rest =>
              if c = '}' then some ([(key, value)], rest)
              else if c = ',' then
                match skipSpace rest with
                | [] => none
                | quote :: rest =>
                  if quote = '"' then
                    (scanMembers fuel rest).map fun scanned =>
                      ((key, value) :: scanned.1, scanned.2)
                  else none
              else none
        else none

end

/-- `json.loads`; none for a `JSONDecodeError`. -/
def loads (text : List Char) : Option Json :=
  match scanOnce (text.length + 1) (skipSpace text) with
  | none => none
  | some (value, rest) => if skipSpace rest = [] then some value else none

/-- `members[key]`; of equal keys the last one counts. -/
def member? (members : List (CodePoints × Json)) (key : CodePoints) : Option Json :=
  (members.reverse.find? fun entry => entry.1 = key).map Prod.snd

end Json

end Binbot.Data
