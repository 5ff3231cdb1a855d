import TapeLang.Text.Bytes

/-!
# Integer literals

Numbers in listings and on the command line may carry a sign, a base prefix and underscores:
`0x`, `0o` and `0b` in either case name the base, a leading `0` alone means octal, and `_` may
stand between digits or after the prefix. The value must fit in 64 bits with a sign.

* `parseInt64`: reads a literal.
-/

namespace TapeLang.Text

/-- Why a text is no number. -/
inductive NumberFault where
  /-- The text is not a literal. -/
  | malformed
  /-- The value does not fit. -/
  | outOfRange
  deriving DecidableEq, Repr

/-- The value of a digit in a base up to 36, if the byte is a digit or a letter. -/
def digitValue? (b : UInt8) : Option Nat :=
  let lower := b ||| 0x20
  if 0x30 ≤ b && b ≤ 0x39 then some (b.toNat - 0x30)
  else if 0x61 ≤ lower && lower ≤ 0x7A then some (lower.toNat - 0x61 + 10)
  else none

/-- Reads digits of a base, skipping underscores. A byte that is no digit of the base counts only
as far as the value before it fits in 64 bits. -/
def magnitude (base : Nat) : Bytes → Nat → Except NumberFault Nat
  | [], n => .ok n
  | b :: rest, n =>
    if b = ascii '_' then magnitude base rest n
    else
      match digitValue? b with
      | none => .error .malformed
      | some d =>
        if base ≤ d then .error .malformed
        else if UInt64.size ≤ n * base + d then .error .outOfRange
        else magnitude base rest (n * base + d)

/-- The base that a literal names, and the digits after the prefix. -/
def literalBase : Bytes → Nat × Bytes
  | zero :: mark :: d :: rest =>
    if zero = ascii '0' then
      if mark ||| 0x20 = ascii 'b' then (2, d :: rest)
      else if mark ||| 0x20 = ascii 'o' then (8, d :: rest)
      else if mark ||| 0x20 = ascii 'x' then (16, d :: rest)
      else (8, mark :: d :: rest)
    else (10, zero :: mark :: d :: rest)
  | zero :: rest => if zero = ascii '0' then (8, rest) else (10, zero :: rest)
  | [] => (10, [])

/-- Whether every underscore follows a digit or the prefix and comes before a digit.
`afterDigit` says that the byte before was a digit or the end of the prefix, `open_` that it was
an underscore. -/
def underscoresPlaced (hex : Bool) : Bytes → (afterDigit open_ : Bool) → Bool
  | [], _, open_ => !open_
  | b :: rest, afterDigit, open_ =>
    let lower := b ||| 0x20
    if (0x30 ≤ b && b ≤ 0x39) || (hex && 0x61 ≤ lower && lower ≤ 0x66) then
      underscoresPlaced hex rest true false
    else if b = ascii '_' then afterDigit && underscoresPlaced hex rest false true
    else !open_ && underscoresPlaced hex rest false false

/-- Whether the underscores of an unsigned literal stand where they may. -/
def underscoresOk : Bytes → Bool
  | zero :: mark :: rest =>
    let lower := mark ||| 0x20
    if zero = ascii '0' && (lower = ascii 'b' || lower = ascii 'o' || lower = ascii 'x') then
      underscoresPlaced (lower = ascii 'x') rest true false
    else underscoresPlaced false (zero :: mark :: rest) false false
  | text => underscoresPlaced false text false false

/-- Reads a literal without a sign. -/
def parseUnsigned (text : Bytes) : Except NumberFault Nat := do
  if text.isEmpty then throw .malformed
  let (base, digits) := literalBase text
  let n ← magnitude base digits 0
  if text.contains (ascii '_') && !underscoresOk text then throw .malformed
  return n

/-- The first number too large for 64 bits with a sign. -/
def signedLimit : Nat := 0x8000000000000000

/-- The value with a sign, if it fits in 64 bits. -/
def withSign (negative : Bool) (n : Nat) : Except NumberFault Int64 :=
  if negative then
    if n ≤ signedLimit then .ok (Int64.ofInt (-n)) else .error .outOfRange
  else if n < signedLimit then .ok (Int64.ofNat n) else .error .outOfRange

/-- Reads a literal with an optional sign. -/
def parseInt64 (text : Bytes) : Except NumberFault Int64 :=
  match text with
  | sign :: rest =>
    if sign = ascii '-' then parseUnsigned rest >>= withSign true
    else if sign = ascii '+' then parseUnsigned rest >>= withSign false
    else parseUnsigned text >>= withSign false
  | [] => .error .malformed

end TapeLang.Text
