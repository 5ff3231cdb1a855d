/-!
# Characters of a YAML text

A YAML text has no control characters. A line ends at a line feed, a carriage return, both of them
together, or one of three characters of Unicode; a pair of carriage return and line feed is held as
one character.

* `isAllowed`: the characters of a text.
* `unifyBreaks`: pairs at line ends as single characters.
* `isBreak`, `isBlank`: line ends and blanks.
* `blankAhead`, `documentMarkAhead`: what a text may go on with.
-/

namespace TapeLang.Yaml

/-- Whether a character may stand in a text. -/
def isAllowed (c : Char) : Bool :=
  let n := c.toNat
  n = 0x09 || n = 0x0A || n = 0x0D || (0x20 ≤ n && n ≤ 0x7E) || n = 0x85 ||
    (0xA0 ≤ n && n ≤ 0xD7FF) || (0xE000 ≤ n && n ≤ 0xFFFD) || 0x10000 ≤ n

/-- The mark that may stand at the start of a text. -/
def byteOrderMark : Char := '\uFEFF'

/-! ## Line ends -/

/-- Stands for a carriage return and a line feed together. -/
def breakPair : Char := '\r'

/-- Holds a pair at a line end as one character, and a carriage return alone as a line feed. `acc`
holds the characters so far, last first. -/
def unifyBreaks : List Char → (acc : List Char) → List Char
  | [], acc => acc.reverse
  | '\r' :: '\n' :: rest, acc => unifyBreaks rest (breakPair :: acc)
  | c :: rest, acc => unifyBreaks rest ((if c = '\r' then '\n' else c) :: acc)

/-- How many characters of the text a character stands for. -/
def charCount (c : Char) : Nat :=
  if c = breakPair then 2 else 1

/-- Whether a character is a line feed, or a pair with one. -/
def isLineFeed (c : Char) : Bool :=
  c = '\n' || c = breakPair

/-- Whether a character ends a line. -/
def isBreak (c : Char) : Bool :=
  isLineFeed c || c = '\u0085' || c = '\u2028' || c = '\u2029'

/-- A line end as part of a scalar: the two separators of Unicode are kept, all others are line
feeds. -/
def breakText (c : Char) : Char :=
  if c = '\u2028' || c = '\u2029' then c else '\n'

/-! ## Blanks -/

/-- Whether a character is a blank inside a line. -/
def isBlank (c : Char) : Bool :=
  c = ' ' || c = '\t'

/-- Whether what lies ahead is a blank, a line end or the end of the text. -/
def blankAhead : List Char → Bool
  | [] => true
  | c :: _ => isBlank c || isBreak c

/-- Whether a line that starts here is a mark between documents. -/
def documentMarkAhead : List Char → Bool
  | '-' :: '-' :: '-' :: rest => blankAhead rest
  | '.' :: '.' :: '.' :: rest => blankAhead rest
  | _ => false

/-- Whether a character may stand in the name of an anchor. -/
def isNameChar (c : Char) : Bool :=
  c.isAlphanum || c = '_' || c = '-'

end TapeLang.Yaml
