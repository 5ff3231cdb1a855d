import TapeLang.Text.Bytes

/-!
# Characters of a byte text

A byte text is read as characters wherever it is valid UTF-8. A byte that starts no valid
character stands alone, so that nothing of the text is lost.

* `Rune`: a character, or a byte that belongs to none.
* `runes`: a byte text as runes.
* `decode?`: the characters of a text that is valid throughout.
* `decodeLossy`: the characters, with U+FFFD for each stray byte.
-/

namespace TapeLang.Text

/-- A character of a byte text, or a byte that belongs to no character. -/
inductive Rune where
  | char (c : Char)
  | stray (b : UInt8)
  deriving DecidableEq, Repr

/-- The character that stands for a byte outside every valid character. -/
def replacement : Char := '\uFFFD'

/-- Whether a byte can continue a character. -/
def isTail (b : UInt8) : Bool :=
  0x80 ≤ b && b ≤ 0xBF

/-- The bounds on the second byte of a character of two or more bytes, and how many bytes follow
the second one. -/
def leadShape (b : UInt8) : Option (UInt8 × UInt8 × Nat) :=
  if 0xC2 ≤ b && b ≤ 0xDF then some (0x80, 0xBF, 0)
  else if b = 0xE0 then some (0xA0, 0xBF, 1)
  else if b = 0xED then some (0x80, 0x9F, 1)
  else if 0xE1 ≤ b && b ≤ 0xEF then some (0x80, 0xBF, 1)
  else if b = 0xF0 then some (0x90, 0xBF, 2)
  else if b = 0xF4 then some (0x80, 0x8F, 2)
  else if 0xF1 ≤ b && b ≤ 0xF3 then some (0x80, 0xBF, 2)
  else none

/-- The payload bits of a continuation byte. -/
def tailBits (b : UInt8) : Nat :=
  b.toNat % 64

/-- The rune that begins with `b`, and how many bytes of what follows belong to it. -/
def firstRune (b : UInt8) (rest : Bytes) : Rune × Nat :=
  if b < 0x80 then (.char (Char.ofNat b.toNat), 0)
  else
    match leadShape b, rest with
    | some (low, high, more), c :: rest =>
      if low ≤ c && c ≤ high then
        match more, rest with
        | 0, _ => (.char (Char.ofNat (b.toNat % 32 * 64 + tailBits c)), 1)
        | 1, d :: _ =>
          if isTail d then
            (.char (Char.ofNat ((b.toNat % 16 * 64 + tailBits c) * 64 + tailBits d)), 2)
          else (.stray b, 0)
        | 2, d :: e :: _ =>
          if isTail d && isTail e then
            (.char (Char.ofNat
              (((b.toNat % 8 * 64 + tailBits c) * 64 + tailBits d) * 64 + tailBits e)), 3)
          else (.stray b, 0)
        | _, _ => (.stray b, 0)
      else (.stray b, 0)
    | _, _ => (.stray b, 0)

/-- A byte text as runes. -/
def runes (text : Bytes) : List Rune :=
  go text []
where
  /-- The runes read so far, last first. -/
  go : Bytes → List Rune → List Rune
    | [], acc => acc.reverse
    | b :: rest, acc =>
      let (rune, width) := firstRune b rest
      go (rest.drop width) (rune :: acc)
  termination_by text => text.length
  decreasing_by simp only [List.length_drop, List.length_cons]; omega

/-- The character, unless the rune is a stray byte. -/
def Rune.char? : Rune → Option Char
  | .char c => some c
  | .stray _ => none

/-- The characters of a text, if it is valid UTF-8. -/
def decode? (text : Bytes) : Option (List Char) :=
  (runes text).mapM Rune.char?

/-- The characters of a text, with U+FFFD for each stray byte. -/
def decodeLossy (text : Bytes) : List Char :=
  (runes text).map fun r => r.char?.getD replacement

/-- A byte text as a string, with U+FFFD for each stray byte. -/
def lossyString (text : Bytes) : String :=
  String.ofList (decodeLossy text)

end TapeLang.Text
