import Binbot.Data.Json

/-!
# Encoded texts

The codecs that a JSON text may come in. A decoder either refuses lone surrogates or lets
them pass, as Python's error handler `surrogatepass` does.
-/
namespace Binbot.Data

def isSurrogate (n : ℕ) : Bool := 0xD800 ≤ n && n ≤ 0xDFFF

namespace Utf8

/-- A code point of which a part has been read: the bytes still to come, the value of the bits
so far, and the least code point that takes as many bytes. -/
structure Opened where
  left : ℕ
  value : ℕ
  least : ℕ

/-- What the first byte of a longer code point opens. -/
def lead (b : ℕ) : Option Opened :=
  if b < 0xC0 then none
  else if b < 0xE0 then some ⟨1, b - 0xC0, 0x80⟩
  else if b < 0xF0 then some ⟨2, b - 0xE0, 0x800⟩
  else if b < 0xF8 then some ⟨3, b - 0xF0, 0x10000⟩
  else none

def Opened.push (opened : Opened) (b : ℕ) : Opened :=
  { opened with left := opened.left - 1, value := opened.value * 64 + (b - 0x80) }

/-- Not overlong, in range, and no surrogate unless these pass. -/
def Opened.legal (surrogates : Bool) (opened : Opened) : Bool :=
  opened.least ≤ opened.value && opened.value < 0x110000 &&
    (surrogates || !isSurrogate opened.value)

def decodeFrom (surrogates : Bool) : Option Opened → List UInt8 → Option CodePoints
  | none, [] => some []
  | some _, [] => none
  | none, b :: rest =>
    if b < 0x80 then (decodeFrom surrogates none rest).map (b.toNat :: ·)
    else
      match lead b.toNat with
      | some opened => decodeFrom surrogates (some opened) rest
      | none => none
  | some opened, b :: rest =>
    if 0x80 ≤ b ∧ b < 0xC0 then
      let pushed := opened.push b.toNat
      if pushed.left ≠ 0 then decodeFrom surrogates (some pushed) rest
      else if pushed.legal surrogates then
        (decodeFrom surrogates none rest).map (pushed.value :: ·)
      else none
    else none

/-- `bytes.decode("utf-8")`; none for a `UnicodeDecodeError`. -/
def decode (surrogates : Bool) (bytes : List UInt8) : Option CodePoints :=
  decodeFrom surrogates none bytes

/-- `str.encode("utf-8")`. -/
def encode (text : List Char) : List UInt8 := text.flatMap String.utf8EncodeChar

end Utf8

/-- The units of two bytes each. -/
def units16 (bigEndian : Bool) : List UInt8 → Option (List ℕ)
  | [] => some []
  | [_] => none
  | a :: b :: rest =>
    let unit := if bigEndian then a.toNat * 256 + b.toNat else b.toNat * 256 + a.toNat
    (units16 bigEndian rest).map (unit :: ·)

def utf16 (bigEndian : Bool) (bytes : List UInt8) : Option CodePoints :=
  (units16 bigEndian bytes).map Json.joinSurrogates

def utf32 (bigEndian : Bool) : List UInt8 → Option CodePoints
  | [] => some []
  | a :: b :: c :: d :: rest =>
    let n := if bigEndian then ((a.toNat * 256 + b.toNat) * 256 + c.toNat) * 256 + d.toNat
      else ((d.toNat * 256 + c.toNat) * 256 + b.toNat) * 256 + a.toNat
    if n < 0x110000 then (utf32 bigEndian rest).map (n :: ·) else none
  | _ => none

inductive Encoding where
  | utf8
  | utf8Sig
  | utf16
  | utf16BE
  | utf16LE
  | utf32
  | utf32BE
  | utf32LE
  deriving DecidableEq, Repr

/-- `bytes.decode(encoding, "surrogatepass")`. -/
def Encoding.decode (bytes : List UInt8) : Encoding → Option CodePoints
  | .utf8 => Utf8.decode true bytes
  | .utf8Sig => Utf8.decode true (bytes.drop 3)
  -- the byte order mark says which end comes first
  | .utf16 => Data.utf16 ([0xFE, 0xFF].isPrefixOf bytes) (bytes.drop 2)
  | .utf16BE => Data.utf16 true bytes
  | .utf16LE => Data.utf16 false bytes
  | .utf32 => Data.utf32 ([0, 0, 0xFE, 0xFF].isPrefixOf bytes) (bytes.drop 4)
  | .utf32BE => Data.utf32 true bytes
  | .utf32LE => Data.utf32 false bytes

/-- `json.detect_encoding`. -/
def detectEncoding (bytes : List UInt8) : Encoding :=
  if [0, 0, 0xFE, 0xFF].isPrefixOf bytes || [0xFF, 0xFE, 0, 0].isPrefixOf bytes then .utf32
  else if [0xFE, 0xFF].isPrefixOf bytes || [0xFF, 0xFE].isPrefixOf bytes then .utf16
  else if [0xEF, 0xBB, 0xBF].isPrefixOf bytes then .utf8Sig
  else
    match bytes with
    | a :: b :: c :: d :: _ =>
      if a = 0 then if b ≠ 0 then .utf16BE else .utf32BE
      else if b = 0 then if c ≠ 0 ∨ d ≠ 0 then .utf16LE else .utf32LE
      else .utf8
    | [a, b] => if a = 0 then .utf16BE else if b = 0 then .utf16LE else .utf8
    | _ => .utf8

/-! ### ASCII texts -/

def Ascii (text : List Char) : Prop := ∀ c ∈ text, c.toNat < 128

namespace Utf8

theorem encode_ascii {text : List Char} (ascii : Ascii text) :
    encode text = text.map fun c => UInt8.ofNat c.toNat := by
  rw [encode, ← List.flatMap_singleton' (text.map fun c => UInt8.ofNat c.toNat), List.flatMap_map]
  apply List.flatMap_congr
  intro c member
  have small : c.toNat ≤ 127 := Nat.le_of_lt_succ (ascii c member)
  exact (String.utf8EncodeChar.eq_1 c).trans (if_pos small)

/-- Of an ASCII text each byte is a code point. -/
theorem decode_encode_ascii (surrogates : Bool) {text : List Char} (ascii : Ascii text) :
    decode surrogates (encode text) = some (text.map Char.toNat) := by
  rw [encode_ascii ascii, decode]
  induction text with
  | nil => rfl
  | cons c text ih =>
    have small : c.toNat < 128 := ascii c List.mem_cons_self
    have tail := ih fun d member => ascii d (List.mem_cons_of_mem c member)
    have byte : (UInt8.ofNat c.toNat).toNat = c.toNat := by
      rw [UInt8.toNat_ofNat', Nat.mod_eq_of_lt (by omega)]
    have single : UInt8.ofNat c.toNat < 0x80 := by
      rw [UInt8.lt_iff_toNat_lt, byte]
      exact small
    rw [List.map_cons, decodeFrom, if_pos single, tail, byte]
    rfl

end Utf8

example : Utf8.decode false [0x41, 0xE2, 0x82, 0xAC] = some [0x41, 0x20AC] := by decide

example : Utf8.decode false [0xED, 0xA0, 0x80] = none ∧
    Utf8.decode true [0xED, 0xA0, 0x80] = some [0xD800] := by decide

end Binbot.Data
