import TapeLang.Text.Bytes

/-!
# White space

The white space of Unicode, recognised by its encoded form. A blank character's encoding starts
with a byte that continues no other character, so it can be looked for at any byte.

* `trim`: a text without the white space at its ends.
* `fields`: the words between white space.
-/

namespace TapeLang.Text

/-- The encodings of the white-space characters. -/
def blanks : List Bytes :=
  [[0x20], [0x09], [0x0A], [0x0B], [0x0C], [0x0D], [0xC2, 0x85], [0xC2, 0xA0], [0xE1, 0x9A, 0x80],
    [0xE2, 0x80, 0x80], [0xE2, 0x80, 0x81], [0xE2, 0x80, 0x82], [0xE2, 0x80, 0x83],
    [0xE2, 0x80, 0x84], [0xE2, 0x80, 0x85], [0xE2, 0x80, 0x86], [0xE2, 0x80, 0x87],
    [0xE2, 0x80, 0x88], [0xE2, 0x80, 0x89], [0xE2, 0x80, 0x8A], [0xE2, 0x80, 0xA8],
    [0xE2, 0x80, 0xA9], [0xE2, 0x80, 0xAF], [0xE2, 0x81, 0x9F], [0xE3, 0x80, 0x80]]

/-- The same encodings read backwards. -/
def blanksBackward : List Bytes :=
  blanks.map List.reverse

/-- How many bytes the first of the `codes` takes that the text begins with, or 0. -/
def codeWidth (codes : List Bytes) (text : Bytes) : Nat :=
  match codes.find? fun code => code.isPrefixOf text with
  | some code => code.length
  | none => 0

/-- The text after all `codes` at its start. -/
def dropCodes (codes : List Bytes) (text : Bytes) : Bytes :=
  match text with
  | [] => []
  | b :: rest =>
    match codeWidth codes text with
    | 0 => b :: rest
    | width + 1 => dropCodes codes (rest.drop width)
termination_by text.length
decreasing_by simp only [List.length_drop, List.length_cons]; omega

/-- A text without the white space at its two ends. -/
def trim (text : Bytes) : Bytes :=
  (dropCodes blanksBackward (dropCodes blanks text).reverse).reverse

/-- The words of a text, that is, its longest parts without white space. -/
def fields (text : Bytes) : List Bytes :=
  go text [] []
where
  /-- The words read so far and the bytes of the current one, both last first. -/
  go (text word : Bytes) (words : List Bytes) : List Bytes :=
    let words' := if word.isEmpty then words else word.reverse :: words
    match text with
    | [] => words'.reverse
    | b :: rest =>
      match codeWidth blanks text with
      | 0 => go rest (b :: word) words
      | width + 1 => go (rest.drop width) [] words'
  termination_by text.length
  decreasing_by all_goals simp only [List.length_drop, List.length_cons]; omega

end TapeLang.Text
