/-!
# JSON values and their texts

Reports, trees and server responses are JSON. Fields keep the order in which they were given, and
a number keeps its literal, so that nothing is rounded.

* `Json`: a value.
* `Json.compact`: the text without any white space.
* `Json.indented`: the text over several lines, two spaces for each level.
-/

namespace TapeLang

/-- A JSON value. -/
inductive Json where
  | null
  | bool (b : Bool)
  /-- A number, as it is written. -/
  | number (literal : List Char)
  | string (s : String)
  | array (items : List Json)
  | object (fields : List (String × Json))
  deriving Repr

namespace Json

instance : Inhabited Json := ⟨.null⟩

/-- The number `n`. -/
def int (n : Int) : Json :=
  .number (toString n).toList

/-- Four hexadecimal digits of a number below 65536. -/
def hexFour (n : Nat) : List Char :=
  [n / 4096, n / 256 % 16, n / 16 % 16, n % 16].map Nat.digitChar

/-- A character inside a string literal. Besides what the format demands, the characters that
mean something in a web page and the two line separators are escaped. -/
def escape (c : Char) : List Char :=
  match c with
  | '"' => ['\\', '"']
  | '\\' => ['\\', '\\']
  | '\n' => ['\\', 'n']
  | '\r' => ['\\', 'r']
  | '\t' => ['\\', 't']
  | '\x08' => ['\\', 'b']
  | '\x0c' => ['\\', 'f']
  | c =>
    if c.toNat < 0x20 || c = '<' || c = '>' || c = '&' || c = '\u2028' || c = '\u2029' then
      '\\' :: 'u' :: hexFour c.toNat
    else [c]

/-- A string literal. -/
def literal (s : String) : List Char :=
  ['"'] ++ s.toList.flatMap escape ++ ['"']

/-- The text of a boolean. -/
def boolText : Bool → List Char
  | true => "true".toList
  | false => "false".toList

mutual

/-- The text of a value without white space. -/
def compact : Json → List Char
  | .null => "null".toList
  | .bool b => boolText b
  | .number text => text
  | .string s => literal s
  | .array items => ['['] ++ compactItems items ++ [']']
  | .object fields => ['\x7b'] ++ compactFields fields ++ ['\x7d']

/-- The texts of array items, with commas between them. -/
def compactItems : List Json → List Char
  | [] => []
  | [v] => v.compact
  | v :: w :: rest => v.compact ++ [','] ++ compactItems (w :: rest)

/-- The texts of fields, with commas between them. -/
def compactFields : List (String × Json) → List Char
  | [] => []
  | [f] => compactField f
  | f :: g :: rest => compactField f ++ [','] ++ compactFields (g :: rest)

/-- The text of a field. -/
def compactField : String × Json → List Char
  | (key, v) => literal key ++ [':'] ++ v.compact

end

/-- A line end, and the indentation of a level. -/
def lineBreak (level : Nat) : List Char :=
  '\n' :: List.replicate (2 * level) ' '

mutual

/-- The text of a value that stands at an indentation level, over several lines. -/
def indentedAt (level : Nat) : Json → List Char
  | .array [] => ['[', ']']
  | .array (v :: rest) =>
    ['['] ++ lineBreak (level + 1) ++ v.indentedAt (level + 1) ++
      indentedItems (level + 1) rest ++ lineBreak level ++ [']']
  | .object [] => ['\x7b', '\x7d']
  | .object (f :: rest) =>
    ['\x7b'] ++ lineBreak (level + 1) ++ indentedField (level + 1) f ++
      indentedFields (level + 1) rest ++ lineBreak level ++ ['\x7d']
  | .null => "null".toList
  | .bool b => boolText b
  | .number text => text
  | .string s => literal s

/-- The items of an array after the first one. -/
def indentedItems (level : Nat) : List Json → List Char
  | [] => []
  | v :: rest => [','] ++ lineBreak level ++ v.indentedAt level ++ indentedItems level rest

/-- The fields of an object after the first one. -/
def indentedFields (level : Nat) : List (String × Json) → List Char
  | [] => []
  | f :: rest => [','] ++ lineBreak level ++ indentedField level f ++ indentedFields level rest

/-- A field with a space after its colon. -/
def indentedField (level : Nat) : String × Json → List Char
  | (key, v) => literal key ++ [':', ' '] ++ v.indentedAt level

end

/-- The text of a value over several lines. -/
def indented (v : Json) : List Char :=
  v.indentedAt 0

end Json

end TapeLang
