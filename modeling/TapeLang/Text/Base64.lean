import TapeLang.Text.Bytes

/-!
# Bytes in base 64

Four characters stand for three bytes. The last four may end with one or two equals signs, which
leave out as many bytes; what the characters before them say beyond the bytes is not looked at.

* `decodeBase64?`: the bytes of a text.
-/

namespace TapeLang.Text

/-- The value of a character of the alphabet. -/
def base64Value? (c : Char) : Option Nat :=
  if 'A' ≤ c && c ≤ 'Z' then some (c.toNat - 65)
  else if 'a' ≤ c && c ≤ 'z' then some (c.toNat - 97 + 26)
  else if '0' ≤ c && c ≤ '9' then some (c.toNat - 48 + 52)
  else if c = '+' then some 62
  else if c = '/' then some 63
  else none

/-- The bytes of a text without line ends; `acc` holds the bytes so far, last first. -/
def base64From : List Char → (acc : Bytes) → Option Bytes
  | [], acc => some acc.reverse
  | [a, b, '=', '='], acc => do
    let n := (← base64Value? a) * 64 + (← base64Value? b)
    return (UInt8.ofNat (n / 16) :: acc).reverse
  | [a, b, c, '='], acc => do
    let n := ((← base64Value? a) * 64 + (← base64Value? b)) * 64 + (← base64Value? c)
    return (UInt8.ofNat (n / 4) :: UInt8.ofNat (n / 1024) :: acc).reverse
  | a :: b :: c :: d :: rest, acc =>
    match base64Value? a, base64Value? b, base64Value? c, base64Value? d with
    | some a, some b, some c, some d =>
      let n := ((a * 64 + b) * 64 + c) * 64 + d
      base64From rest (UInt8.ofNat n :: UInt8.ofNat (n / 256) :: UInt8.ofNat (n / 65536) :: acc)
    | _, _, _, _ => none
  | _, _ => none

/-- The bytes of a text, in which line ends may stand anywhere. -/
def decodeBase64? (text : List Char) : Option Bytes :=
  base64From (text.filter fun c => c ≠ '\n' && c ≠ '\r') []

end TapeLang.Text
