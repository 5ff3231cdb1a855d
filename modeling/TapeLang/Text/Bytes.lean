/-!
# Byte text

A source may hold any bytes, and so may the name of a file, so text is kept as bytes. Strings are
used where the text is known to be valid, and stand for their bytes where bytes are expected.

* `Bytes`: a byte string.
* `encode`, `utf8`: the UTF-8 encoding of characters and of a string.
* `decimal`, `hexadecimal`: numbers as text.
-/

namespace TapeLang

/-- A byte string: any bytes, valid UTF-8 or not. -/
abbrev Bytes := List UInt8

/-- The UTF-8 encoding of characters. -/
def encode (cs : List Char) : Bytes :=
  cs.flatMap String.utf8EncodeChar

/-- The UTF-8 encoding of a string. -/
def utf8 (s : String) : Bytes :=
  encode s.toList

instance : Coe String Bytes := ⟨utf8⟩

namespace Text

/-- The byte of an ASCII character. -/
def ascii (c : Char) : UInt8 :=
  UInt8.ofNat c.toNat

/-- The digits of a number, without a sign. -/
def digits (base n : Nat) : Bytes :=
  (Nat.toDigits base n).map ascii

/-- A number in decimal, with a minus sign if it is negative. -/
def decimal : Int → Bytes
  | .ofNat n => digits 10 n
  | .negSucc n => ascii '-' :: digits 10 (n + 1)

/-- A number in lower-case hexadecimal after `0x`. -/
def hexadecimal (n : Nat) : Bytes :=
  utf8 "0x" ++ digits 16 n

/-- A number in lower-case hexadecimal, filled up with zeros to a width. -/
def paddedHex (width n : Nat) : Bytes :=
  let ds := digits 16 n
  List.replicate (width - ds.length) (ascii '0') ++ ds

/-- Texts with a separator between each two. -/
def joinWith (separator : Bytes) (texts : List Bytes) : Bytes :=
  (texts.intersperse separator).flatten

/-- The pieces of a text between the occurrences of a byte; there is always at least one. -/
def splitAt (separator : UInt8) (text : Bytes) : List Bytes :=
  go text [] []
where
  /-- The pieces found so far and the bytes of the piece being read, both last first. -/
  go : Bytes → Bytes → List Bytes → List Bytes
    | [], piece, pieces => (piece.reverse :: pieces).reverse
    | b :: rest, piece, pieces =>
      if b = separator then go rest [] (piece.reverse :: pieces)
      else go rest (b :: piece) pieces

/-- What follows `start` in a text that begins with it. -/
def dropStart? : (start text : Bytes) → Option Bytes
  | [], text => some text
  | _ :: _, [] => none
  | a :: start, b :: text => if a = b then dropStart? start text else none

end Text

end TapeLang
