import TapeLang.Text.Encoding
import TapeLang.Yaml.Text

/-!
# Places in a YAML text

A text is read in portions of a fixed number of bytes, and only as far as somebody looks ahead. So
what is wrong with a portion shows when it is looked into, and never if the document ends before.
Whoever looks at characters ahead has to ask for them first.

* `Portions`: the portions of a text.
* `Place`: a position in a text, what lies ahead, and how far the text has been read.
* `Place.need`: makes sure of characters ahead.
* `Place.skip`, `Place.passBreak`, `Place.span`: go on in a text.
-/

namespace TapeLang.Yaml

/-! ## Portions -/

/-- How many bytes are read at once. -/
def portionSize : Nat := 512

/-- A text in portions, up to the first that is invalid. -/
structure Portions where
  /-- The characters of the valid portions. -/
  text : List Char
  /-- The numbers of characters up to the end of each portion. -/
  ends : List Nat
  /-- Whether all of the text is valid. -/
  sound : Bool
  deriving DecidableEq, Repr

namespace Portions

/-- The characters of a portion and the bytes of one that goes on in the next portion, unless the
portion is invalid. `acc` holds the characters so far, last first. -/
def decode? (e : Text.Encoding) :
    (fuel : Nat) → Bytes → (acc : List Char) → Option (List Char × Bytes)
  | 0, bytes, acc => some (acc, bytes)
  | fuel + 1, bytes, acc =>
    match e.lead bytes with
    | .short => some (acc, bytes)
    | .invalid => none
    | .char c width => if isAllowed c then decode? e fuel (bytes.drop width) (c :: acc) else none

/-- The portions of a text of which `portion` is at hand and `rest` is not. `acc` and `ends` hold
the characters and the ends so far, last first, and `count` is the number of characters. -/
def readFrom (e : Text.Encoding) :
    (fuel : Nat) → (portion rest : Bytes) → (acc : List Char) → (ends : List Nat) →
      (count : Nat) → Portions
  | 0, _, _, acc, ends, _ => ⟨acc.reverse, ends.reverse, false⟩
  | fuel + 1, portion, rest, acc, ends, count =>
    match decode? e portionSize portion [] with
    | none => ⟨acc.reverse, ends.reverse, false⟩
    | some (cs, left) =>
      let acc := cs ++ acc
      let count := count + cs.length
      let ends := count :: ends
      if rest.isEmpty then ⟨acc.reverse, ends.reverse, left.isEmpty⟩
      else
        let room := portionSize - left.length
        readFrom e fuel (left ++ rest.take room) (rest.drop room) acc ends count

/-- The portions of a text, without the mark at its start. -/
def ofBytes (text : Bytes) : Portions :=
  let (e, mark) := Text.Encoding.detect text
  readFrom e (text.length + 1) ((text.take portionSize).drop mark) (text.drop portionSize) [] [] 0

end Portions

/-! ## Places -/

/-- A position in a text, counted from zero. -/
structure Mark where
  index : Nat := 0
  line : Nat := 0
  column : Nat := 0
  deriving DecidableEq, Repr

/-- A position in a text together with what lies ahead. -/
structure Place where
  /-- What lies ahead, whether it has been read or not. -/
  rest : List Char
  mark : Mark := {}
  /-- The line ends that were passed since the last character that is no blank. -/
  breaks : Nat := 0
  /-- The number of characters that have been read. -/
  loaded : Nat := 0
  /-- The ends of the portions that have not been read. -/
  ends : List Nat
  /-- Whether these portions are all that is left of the text. -/
  sound : Bool
  /-- Whether a byte order mark stood at the place where the last portion was asked for. -/
  marked : Bool := false
  /-- More than the characters of the text. -/
  size : Nat
  deriving DecidableEq, Repr

namespace Place

/-- The start of a text. -/
def ofBytes (text : Bytes) : Place :=
  let portions := Portions.ofBytes text
  { rest := unifyBreaks portions.text [], ends := portions.ends, sound := portions.sound
    size := portions.text.length + 16 }

/-- Reads portions until `goal` characters have been read. The end of the text counts as one more
character each time it is met. -/
def readTo (goal : Nat) (sound : Bool) : (loaded : Nat) → List Nat → Option (Nat × List Nat)
  | loaded, [] => if sound then some (loaded + 1, []) else none
  | _, e :: ends => if goal ≤ e then some (e, ends) else readTo goal sound e ends

/-- Makes sure of a number of characters ahead; fails if a portion that holds one is invalid. -/
def need (p : Place) (n : Nat) : Option Place :=
  let goal := p.mark.index + n
  if goal ≤ p.loaded then some p
  else
    (readTo goal p.sound p.loaded p.ends).map fun (loaded, ends) =>
      { p with loaded, ends, marked := p.rest.head? = some byteOrderMark }

/-- The character ahead. -/
def next? (p : Place) : Option Char :=
  p.rest.head?

/-- The place after a character, wherever it is in its line. Of a pair only the carriage return is
passed. -/
def skip (p : Place) : Place :=
  let mark := { p.mark with index := p.mark.index + 1, column := p.mark.column + 1 }
  match p.rest with
  | [] => { p with mark, breaks := 0 }
  | c :: rest =>
    if c = breakPair then { p with rest := '\n' :: rest, mark, breaks := 0 }
    else { p with rest, mark, breaks := if isBlank c then p.breaks else 0 }

/-- The place after so many characters of a line. -/
def skipMany (p : Place) (n : Nat) : Place :=
  n.repeat skip p

/-- The place after the line end ahead, if there is one. -/
def passBreak (p : Place) : Place :=
  match p.rest with
  | [] => p
  | c :: rest =>
    if isBreak c then
      { p with
        rest
        mark := { index := p.mark.index + charCount c, line := p.mark.line + 1, column := 0 }
        breaks := p.breaks + 1 }
    else p

/-- The place after so many characters and line ends. -/
def pass (p : Place) (n : Nat) : Place :=
  n.repeat (fun p => if (p.next?.map isBreak).getD false then p.passBreak else p.skip) p

/-- Whether the character ahead passes a test. -/
def ahead (p : Place) (test : Char → Bool) : Bool :=
  (p.next?.map test).getD false

/-- Whether a mark between documents lies ahead. -/
def atDocumentMark (p : Place) : Bool :=
  p.mark.column = 0 && documentMarkAhead p.rest

/-- The characters ahead that a test accepts, none of them a line end, and the place after them. -/
def span (p : Place) (accept : Char → Bool) : Option (List Char × Place) := do
  go accept p.size (← p.need 1) []
where
  /-- The characters so far, last first. -/
  go (accept : Char → Bool) : (fuel : Nat) → Place → List Char → Option (List Char × Place)
    | 0, _, _ => none
    | fuel + 1, p, acc =>
      match p.rest with
      | [] => some (acc.reverse, p)
      | c :: _ =>
        if accept c then do go accept fuel (← p.skip.need 1) (c :: acc)
        else some (acc.reverse, p)

/-- The place after the characters ahead that a test accepts, none of them a line end. -/
def skipWhile (p : Place) (accept : Char → Bool) : Option Place :=
  (p.span accept).map Prod.snd

/-- The end of the line. -/
def toLineEnd (p : Place) : Option Place :=
  p.skipWhile fun c => !isBreak c

/-- The place after the line end ahead, if there is one; what follows a carriage return is asked
for. -/
def nextLine (p : Place) : Option Place := do
  if p.ahead isBreak then return (← p.need 2).passBreak else return p

/-! ## Comments -/

/-- How far ahead comments are looked for. -/
def commentReach : Nat := 512

/-- How many characters ahead a comment is, and how many of them have to be passed to get there if
there is one. Only blanks and line feeds may stand before it. -/
def commentAhead : (offset count : Nat) → List Char → Nat × Option Nat
  | offset, _, [] => (min offset (commentReach - 1), none)
  | offset, count, c :: rest =>
    if commentReach ≤ offset then (commentReach - 1, none)
    else if c = '#' then (offset, some count)
    else if isBlank c || isLineFeed c then commentAhead (offset + charCount c) (count + 1) rest
    else if isBreak c then (min (offset + 1) (commentReach - 1), none)
    else (offset, none)

/-- Passes a comment, and those in the lines after it. Any blanks may stand before these. -/
def passComments : (fuel : Nat) → Place → Option Place
  | 0, _ => none
  | fuel + 1, p => do
    let p ← p.toLineEnd
    let (offset, count) := commentAhead 0 0 p.rest
    let p ← p.need (offset + 1)
    match count with
    | none => return p
    | some n => passComments fuel (p.pass n)

/-- Passes a comment in the line of what was read last. -/
def passLineComment (p : Place) : Option Place := do
  if 0 < p.breaks then return p
  let blanks := (p.rest.takeWhile isBlank).length
  if commentReach ≤ blanks then p.need commentReach
  else
    let p ← p.need (blanks + 1)
    if (p.rest.drop blanks).head? = some '#' then (p.skipMany blanks).toLineEnd else return p

end Place

end TapeLang.Yaml
