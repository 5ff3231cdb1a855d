/-!
# JSON tokens

A JSON text is cut into tokens before its structure is looked at. A text that cannot be cut
further ends in a `bad` token, so that what comes before it is still there to be read.

* `Token.scan`: the tokens of a text.
-/

namespace TapeLang.Json

/-- A token of a JSON text. -/
inductive Token where
  | beginArray
  | endArray
  | beginObject
  | endObject
  | comma
  | colon
  | null
  | bool (b : Bool)
  | number (literal : List Char)
  | string (s : String)
  /-- The text is malformed or cut off here. -/
  | bad
  deriving DecidableEq, Repr

namespace Token

/-- The white space of the format. -/
def isBlank (c : Char) : Bool :=
  c = ' ' || c = '\t' || c = '\n' || c = '\r'

/-- The value of a hexadecimal digit. -/
def hexValue? (c : Char) : Option Nat :=
  if '0' ≤ c && c ≤ '9' then some (c.toNat - 0x30)
  else if 'a' ≤ c && c ≤ 'f' then some (c.toNat - 0x61 + 10)
  else if 'A' ≤ c && c ≤ 'F' then some (c.toNat - 0x41 + 10)
  else none

/-! ## Strings -/

/-- A part of a string literal: a character, or a 16-bit unit given by its number. -/
inductive Unit16 where
  | char (c : Char)
  | code (n : Nat)
  deriving DecidableEq, Repr

/-- The character of a one-letter escape. -/
def unescape? (c : Char) : Option Char :=
  match c with
  | '"' => some '"'
  | '\\' => some '\\'
  | '/' => some '/'
  | 'b' => some '\x08'
  | 'f' => some '\x0c'
  | 'n' => some '\n'
  | 'r' => some '\r'
  | 't' => some '\t'
  | _ => none

/-- Reads up to the closing quote. Gives the parts of the string and the rest of the text. -/
def scanUnits : List Char → List Unit16 → Option (List Unit16 × List Char)
  | [], _ => none
  | '"' :: rest, acc => some (acc.reverse, rest)
  | '\\' :: 'u' :: a :: b :: c :: d :: rest, acc =>
    match hexValue? a, hexValue? b, hexValue? c, hexValue? d with
    | some a, some b, some c, some d =>
      scanUnits rest (.code (((a * 16 + b) * 16 + c) * 16 + d) :: acc)
    | _, _, _, _ => none
  | '\\' :: e :: rest, acc =>
    match unescape? e with
    | some c => scanUnits rest (.char c :: acc)
    | none => none
  | c :: rest, acc =>
    if c.toNat < 0x20 || c = '\\' then none else scanUnits rest (.char c :: acc)

/-- The characters of a string. Two units that form a surrogate pair are one character; a
surrogate alone is U+FFFD. -/
def joinUnits : List Unit16 → List Char → List Char
  | [], acc => acc.reverse
  | .char c :: rest, acc => joinUnits rest (c :: acc)
  | .code h :: .code l :: rest, acc =>
    if 0xD800 ≤ h && h < 0xDC00 then
      if 0xDC00 ≤ l && l < 0xE000 then
        joinUnits rest (Char.ofNat ((h - 0xD800) * 1024 + (l - 0xDC00) + 0x10000) :: acc)
      else joinUnits (.code l :: rest) ('\uFFFD' :: acc)
    else if 0xDC00 ≤ h && h < 0xE000 then joinUnits (.code l :: rest) ('\uFFFD' :: acc)
    else joinUnits (.code l :: rest) (Char.ofNat h :: acc)
  | .code n :: rest, acc =>
    joinUnits rest ((if 0xD800 ≤ n && n < 0xE000 then '\uFFFD' else Char.ofNat n) :: acc)

theorem length_scanUnits {text : List Char} {acc units : List Unit16} {rest : List Char}
    (h : scanUnits text acc = some (units, rest)) : rest.length < text.length := by
  fun_induction scanUnits text acc <;> simp_all <;> grind

/-! ## Numbers -/

/-- Digits, of which there has to be one at least. -/
def scanDigits? (text : List Char) : Option (List Char × List Char) :=
  match text.takeWhile Char.isDigit with
  | [] => none
  | d :: ds => some (d :: ds, text.dropWhile Char.isDigit)

/-- The part of a number before the point: a zero alone, or digits that start with no zero. -/
def scanWhole? : List Char → Option (List Char × List Char)
  | '0' :: rest => some (['0'], rest)
  | text => scanDigits? text

/-- The part after the point, if there is a point. -/
def scanFraction? : List Char → Option (List Char × List Char)
  | '.' :: rest => (scanDigits? rest).map fun (ds, rest) => ('.' :: ds, rest)
  | text => some ([], text)

/-- The exponent, if there is one. -/
def scanExponent? : List Char → Option (List Char × List Char)
  | e :: rest =>
    if e = 'e' || e = 'E' then
      match rest with
      | sign :: rest' =>
        if sign = '+' || sign = '-' then
          (scanDigits? rest').map fun (ds, rest) => (e :: sign :: ds, rest)
        else (scanDigits? rest).map fun (ds, rest) => (e :: ds, rest)
      | [] => none
    else some ([], e :: rest)
  | [] => some ([], [])

/-- A number literal without its sign. -/
def scanUnsigned? (text : List Char) : Option (List Char × List Char) := do
  let (whole, rest) ← scanWhole? text
  let (fraction, rest) ← scanFraction? rest
  let (exponent, rest) ← scanExponent? rest
  return (whole ++ fraction ++ exponent, rest)

/-- A number literal. -/
def scanNumber? : List Char → Option (List Char × List Char)
  | '-' :: rest => (scanUnsigned? rest).map fun (ds, rest) => ('-' :: ds, rest)
  | text => scanUnsigned? text

theorem length_scanDigits? {text digits rest : List Char}
    (h : scanDigits? text = some (digits, rest)) : rest.length < text.length := by
  have ht := congrArg List.length (List.takeWhile_append_dropWhile (p := Char.isDigit) (l := text))
  unfold scanDigits? at h
  split at h
  · cases h
  · rename_i hd
    cases h
    simp only [hd, List.length_append, List.length_cons] at ht
    omega

theorem length_scanWhole? {text digits rest : List Char}
    (h : scanWhole? text = some (digits, rest)) : rest.length < text.length := by
  unfold scanWhole? at h
  split at h
  · cases h; simp
  · exact length_scanDigits? h

theorem length_scanFraction? {text digits rest : List Char}
    (h : scanFraction? text = some (digits, rest)) : rest.length ≤ text.length := by
  unfold scanFraction? at h
  split at h
  · obtain ⟨⟨ds, r⟩, hd, he⟩ := Option.map_eq_some_iff.mp h
    cases he
    have := length_scanDigits? hd
    simp; omega
  · cases h; simp

theorem length_scanExponent? {text digits rest : List Char}
    (h : scanExponent? text = some (digits, rest)) : rest.length ≤ text.length := by
  unfold scanExponent? at h
  split at h
  · split at h
    · split at h
      · split at h
        all_goals
          obtain ⟨⟨ds, r⟩, hd, he⟩ := Option.map_eq_some_iff.mp h
          cases he
          have := length_scanDigits? hd
          simp_all; omega
      · cases h
    · cases h; simp
  · cases h; simp

theorem length_scanUnsigned? {text digits rest : List Char}
    (h : scanUnsigned? text = some (digits, rest)) : rest.length < text.length := by
  simp only [scanUnsigned?, Option.bind_eq_bind, Option.bind_eq_some_iff, Option.pure_def,
    Option.some.injEq, Prod.mk.injEq, Prod.exists] at h
  obtain ⟨_, _, h₁, _, _, h₂, _, _, h₃, _, rfl⟩ := h
  have := length_scanWhole? h₁
  have := length_scanFraction? h₂
  have := length_scanExponent? h₃
  omega

theorem length_scanNumber? {text digits rest : List Char}
    (h : scanNumber? text = some (digits, rest)) : rest.length < text.length := by
  unfold scanNumber? at h
  split at h
  · obtain ⟨⟨ds, r⟩, hd, he⟩ := Option.map_eq_some_iff.mp h
    cases he
    have := length_scanUnsigned? hd
    simp; omega
  · exact length_scanUnsigned? h

/-! ## Tokens -/

/-- The token at the start of a text that does not begin with white space, and the rest. -/
def first (text : List Char) : Token × List Char :=
  match text with
  | '[' :: rest => (.beginArray, rest)
  | ']' :: rest => (.endArray, rest)
  | '\x7b' :: rest => (.beginObject, rest)
  | '\x7d' :: rest => (.endObject, rest)
  | ',' :: rest => (.comma, rest)
  | ':' :: rest => (.colon, rest)
  | 'n' :: 'u' :: 'l' :: 'l' :: rest => (.null, rest)
  | 't' :: 'r' :: 'u' :: 'e' :: rest => (.bool true, rest)
  | 'f' :: 'a' :: 'l' :: 's' :: 'e' :: rest => (.bool false, rest)
  | '"' :: rest =>
    match scanUnits rest [] with
    | some (units, rest) => (.string (String.ofList (joinUnits units [])), rest)
    | none => (.bad, [])
  | text =>
    match scanNumber? text with
    | some (literal, rest) => (.number literal, rest)
    | none => (.bad, [])

theorem length_first (c : Char) (text : List Char) :
    (first (c :: text)).2.length < (c :: text).length := by
  unfold first
  split
  all_goals try (simp_all; done)
  all_goals try (simp_all; omega)
  · split
    · rename_i h
      have := length_scanUnits h
      simp_all
      omega
    · simp
  · split
    · rename_i h
      exact length_scanNumber? h
    · simp

/-- The tokens of a text. -/
def scan (text : List Char) : List Token :=
  go text []
where
  /-- The tokens read so far, last first. -/
  go (text : List Char) (acc : List Token) : List Token :=
    match text with
    | [] => acc.reverse
    | c :: rest =>
      if isBlank c then go rest acc
      else
        let found := first (c :: rest)
        go found.2 (found.1 :: acc)
  termination_by text.length
  decreasing_by
    · simp
    · exact length_first c rest

end Token

end TapeLang.Json
