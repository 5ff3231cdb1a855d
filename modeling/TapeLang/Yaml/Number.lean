import TapeLang.Text.Integer

/-!
# Numbers in a YAML text

An integer is a literal of 64 bits, with or without a sign. A number with a point or an exponent is
a floating-point number as long as it is not too large for one.

* `integer?`: whether a text is an integer.
* `isFloat`: whether a text is a floating-point number.
-/

namespace TapeLang.Yaml

/-! ## Integers -/

/-- The integers by what it takes to hold them. -/
inductive IntegerWidth where
  /-- The integer fits in 64 bits with a sign. -/
  | signed
  /-- The integer only fits in 64 bits without one. -/
  | unsigned
  deriving DecidableEq, Repr

/-- The width of an integer that was read with a sign, or else without one. -/
def IntegerWidth.of? (signed : Except Text.NumberFault Int64)
    (unsigned : Except Text.NumberFault Nat) : Option IntegerWidth :=
  if signed.isOk then some .signed
  else if unsigned.isOk then some .unsigned
  else none

/-- The value of digits in a base. -/
def digitsValue (base : Nat) (digits : Bytes) : Except Text.NumberFault Nat :=
  if digits.isEmpty then .error .malformed else Text.magnitude base digits 0

/-- The value of digits in a base after a sign, which need not be there. -/
def signedValue (base : Nat) (text : Bytes) : Except Text.NumberFault Int64 :=
  match text with
  | sign :: digits =>
    if sign = Text.ascii '-' then digitsValue base digits >>= Text.withSign true
    else if sign = Text.ascii '+' then digitsValue base digits >>= Text.withSign false
    else digitsValue base text >>= Text.withSign false
  | [] => .error .malformed

/-- Reads an integer that names its base with a letter. The sign may also stand after that. -/
def basedInteger? (base : Nat) (mark : String) (text : Bytes) : Option IntegerWidth :=
  match Text.dropStart? (utf8 mark) text with
  | some rest => IntegerWidth.of? (signedValue base rest) (digitsValue base rest)
  | none =>
    match Text.dropStart? (utf8 ("-" ++ mark)) text with
    | some rest =>
      IntegerWidth.of? (digitsValue base rest >>= Text.withSign true) (.error .malformed)
    | none => none

/-! ## Floating-point numbers -/

/-- The parts of a decimal number: its digits without the point, how many stand after the point,
and its exponent. -/
structure DecimalParts where
  digits : List Char
  fraction : Nat
  exponent : Int
  deriving Repr

/-- The number that decimal digits make. -/
def decimalValue (digits : List Char) : Nat :=
  digits.foldl (fun n c => 10 * n + (c.toNat - 0x30)) 0

/-- The number that the digits of an exponent make; of a very large one not all are looked at. -/
def exponentValue (digits : List Char) : Nat :=
  digits.foldl (fun n c => if n < 10000 then 10 * n + (c.toNat - 0x30) else n) 0

/-- Splits a number without a sign, if it is one. -/
def decimalParts? (text : List Char) : Option DecimalParts :=
  let whole := text.takeWhile Char.isDigit
  let rest := text.dropWhile Char.isDigit
  let (point, rest) := match rest with
    | '.' :: rest => (rest.takeWhile Char.isDigit, rest.dropWhile Char.isDigit)
    | rest => ([], rest)
  if whole.isEmpty && point.isEmpty then none
  else
    let parts := fun e => some { digits := whole ++ point, fraction := point.length, exponent := e }
    match rest with
    | [] => parts 0
    | e :: rest =>
      if e ≠ 'e' && e ≠ 'E' then none
      else
        let (negative, ds) := match rest with
          | '-' :: ds => (true, ds)
          | '+' :: ds => (false, ds)
          | ds => (false, ds)
        if ds.isEmpty || !ds.all Char.isDigit then none
        else
          let n : Int := exponentValue ds
          parts (if negative then -n else n)

/-- Whether a decimal number is small enough for a floating-point number. -/
def DecimalParts.fits (p : DecimalParts) : Bool :=
  let digits := p.digits.dropWhile (· = '0')
  let scale := p.exponent - p.fraction
  if digits.isEmpty || scale + digits.length ≤ 300 then true
  else if 310 < scale + digits.length then false
  else
    let n := decimalValue digits
    let value := if 0 ≤ scale then n * Nat.pow 10 scale.toNat else n / Nat.pow 10 (-scale).toNat
    value < Nat.pow 2 1024 - Nat.pow 2 970

/-- Whether a text is a floating-point number. -/
def isFloat (text : List Char) : Bool :=
  let unsigned := match text with
    | '+' :: rest | '-' :: rest => rest
    | rest => rest
  match decimalParts? unsigned with
  | some p => p.fits
  | none => false

/-! ## Numbers with underscores -/

/-- A text without its underscores. -/
def withoutUnderscores (text : List Char) : List Char :=
  text.filter (· ≠ '_')

/-- Whether a text is an integer. Underscores may stand anywhere. -/
def integer? (text : List Char) : Option IntegerWidth :=
  let plain := encode (withoutUnderscores text)
  (IntegerWidth.of? (Text.parseInt64 plain) (Text.parseUnsigned plain)).or
    ((basedInteger? 2 "0b" plain).or (basedInteger? 8 "0o" plain))

/-- Whether a text is a floating-point number, in which underscores stand between digits only. -/
def isSpacedFloat (text : List Char) : Bool :=
  (!text.contains '_' || Text.underscoresOk (encode text)) && isFloat (withoutUnderscores text)

end TapeLang.Yaml
