import TapeLang.Text.Utf8

/-!
# Encodings of a byte text

A byte text may be written in UTF-8, or in units of two bytes of either byte order; a mark at its
start tells which. In units, a character outside the basic plane takes a pair, and a unit of a pair
never stands alone.

* `Encoding.detect`: the encoding of a text.
* `Encoding.lead`: the character that a text starts with.
-/

namespace TapeLang.Text

/-- The order of the bytes of a unit. -/
inductive ByteOrder where
  | little
  | big
  deriving DecidableEq, Repr

/-- The ways to write characters as bytes. -/
inductive Encoding where
  | utf8
  | utf16 (order : ByteOrder)
  deriving DecidableEq, Repr

/-- What a byte text starts with. -/
inductive Lead where
  /-- A character, and how many bytes it takes. -/
  | char (c : Char) (width : Nat)
  /-- A part of a character, whose end is missing. -/
  | short
  /-- No character. -/
  | invalid
  deriving DecidableEq, Repr

/-- How many bytes a character takes that starts with a byte; zero if none does. -/
def leadWidth (b : UInt8) : Nat :=
  if b < 0x80 then 1
  else if b < 0xC0 then 0
  else if b < 0xE0 then 2
  else if b < 0xF0 then 3
  else if b < 0xF8 then 4
  else 0

/-- The number that two bytes make. -/
def ByteOrder.unit (order : ByteOrder) (a b : UInt8) : Nat :=
  match order with
  | .little => b.toNat * 256 + a.toNat
  | .big => a.toNat * 256 + b.toNat

/-- Whether a unit is the first of a pair. -/
def isHigh (unit : Nat) : Bool :=
  0xD800 ≤ unit && unit ≤ 0xDBFF

/-- Whether a unit is the second of a pair. -/
def isLow (unit : Nat) : Bool :=
  0xDC00 ≤ unit && unit ≤ 0xDFFF

namespace Encoding

/-- The encoding that the mark at the start of a text names, and how long the mark is. -/
def detect : Bytes → Encoding × Nat
  | 0xFF :: 0xFE :: _ => (.utf16 .little, 2)
  | 0xFE :: 0xFF :: _ => (.utf16 .big, 2)
  | 0xEF :: 0xBB :: 0xBF :: _ => (.utf8, 3)
  | _ => (.utf8, 0)

/-- What a text starts with. A character whose end is missing is not looked at any closer. -/
def lead (e : Encoding) (text : Bytes) : Lead :=
  match e, text with
  | _, [] => .short
  | .utf8, b :: rest =>
    let width := leadWidth b
    if width = 0 then .invalid
    else if rest.length + 1 < width then .short
    else
      match firstRune b rest with
      | (.char c, _) => .char c width
      | (.stray _, _) => .invalid
  | .utf16 _, [_] => .short
  | .utf16 order, a :: b :: rest =>
    let unit := order.unit a b
    if isLow unit then .invalid
    else if isHigh unit then
      match rest with
      | c :: d :: _ =>
        let next := order.unit c d
        if isLow next then
          .char (Char.ofNat (0x10000 + (unit - 0xD800) * 0x400 + (next - 0xDC00))) 4
        else .invalid
      | _ => .short
    else .char (Char.ofNat unit) 2

end Encoding

end TapeLang.Text
