import TapeLang.Json.Token
import TapeLang.Yaml.Place

/-!
# Scalars of a YAML text

A scalar may go over several lines. A line end inside it is folded into a space, and empty lines
stand for line ends; only a literal block keeps its lines as they are.

* `scanPlain?`: a scalar without quotes.
* `scanQuoted?`: a scalar in single or double quotes.
* `scanBlock?`: a literal or folded block.
-/

namespace TapeLang.Yaml

/-! ## Folding -/

/-- Blanks and line ends that have been passed since the last character of a scalar. -/
structure Gap where
  /-- Blanks before the first line end, last first. -/
  blanks : List Char := []
  /-- The first line end. -/
  first : List Char := []
  /-- The line ends after the first, last first. -/
  more : List Char := []
  /-- Whether a line end was passed. -/
  broken : Bool := false
  deriving DecidableEq, Repr

namespace Gap

/-- The gap after one more blank or line end. -/
def add (g : Gap) (c : Char) : Gap :=
  if isBreak c then
    if g.broken then { g with more := breakText c :: g.more }
    else { blanks := [], first := [breakText c], broken := true }
  else if g.broken then g
  else { g with blanks := c :: g.blanks }

/-- Whether nothing was passed. -/
def isEmpty (g : Gap) : Bool :=
  g.blanks.isEmpty && !g.broken

/-- The scalar text, last character first, after a gap is folded into it. -/
def foldOnto (g : Gap) (acc : List Char) : List Char :=
  if g.broken then
    if g.first = ['\n'] then
      if g.more.isEmpty then ' ' :: acc else g.more ++ acc
    else g.more ++ g.first ++ acc
  else g.blanks ++ acc

end Gap

/-- The place after the blank or line end ahead. -/
def Place.passGap (p : Place) : Option Place := do
  if p.ahead isBreak then (← p.need 2).passBreak.need 1 else p.skip.need 1

/-! ## Plain scalars -/

/-- Whether a plain scalar ends before a character. -/
def endsPlain (flow : Bool) (c : Char) (rest : List Char) : Bool :=
  (c = ':' && blankAhead rest) ||
    (flow && (c = ',' || c = '?' || c = '[' || c = ']' || c = '\x7b' || c = '\x7d'))

/-- Reads a plain scalar. `gap` is what was passed since its last character, if a gap or the scalar
has just begun. Gives the text, the place after it, and whether a line end was passed at its
end. -/
def plainFrom (flow : Bool) (indent : Nat) :
    (fuel : Nat) → Place → (acc : List Char) → (gap : Option Gap) →
      Option (List Char × Place × Bool)
  | 0, _, _, _ => none
  | fuel + 1, p, acc, gap => do
    let g := gap.getD {}
    let stop := fun (p : Place) => some (acc.reverse, p, g.broken)
    let take := fun (p : Place) =>
      match p.rest with
      | [] => stop p
      | c :: rest =>
        if endsPlain flow c rest then stop p
        else do plainFrom flow indent fuel (← p.skip.need 2) (c :: g.foldOnto acc) none
    if p.ahead fun c => isBlank c || isBreak c then
      if g.broken && p.mark.column < indent && p.ahead (· = '\t') then none
      else plainFrom flow indent fuel (← p.passGap) acc (p.next?.map g.add)
    else if gap.isNone then take p
    else if !g.isEmpty && !flow && p.mark.column < indent then stop p
    else
      let p ← p.need 4
      if p.atDocumentMark || p.ahead (· = '#') then stop p else take p

/-- Reads a plain scalar in a flow collection or at an indentation. -/
def scanPlain? (flow : Bool) (indent : Nat) (p : Place) : Option (List Char × Place × Bool) :=
  plainFrom flow indent p.size p [] (some {})

/-! ## Quoted scalars -/

/-- The character of an escape with one letter. -/
def unescape? (c : Char) : Option Char :=
  match c with
  | '0' => some '\x00'
  | 'a' => some '\x07'
  | 'b' => some '\x08'
  | 't' | '\t' => some '\t'
  | 'n' => some '\n'
  | 'v' => some '\x0b'
  | 'f' => some '\x0c'
  | 'r' => some '\r'
  | 'e' => some '\x1b'
  | ' ' => some ' '
  | '"' => some '"'
  | '\'' => some '\''
  | '\\' => some '\\'
  | 'N' => some '\u0085'
  | '_' => some '\u00a0'
  | 'L' => some '\u2028'
  | 'P' => some '\u2029'
  | _ => none

/-- The number of digits of an escape by number. -/
def escapeDigits? (c : Char) : Option Nat :=
  match c with
  | 'x' => some 2
  | 'u' => some 4
  | 'U' => some 8
  | _ => none

/-- The character with a number in hexadecimal digits. -/
def numberedChar? (digits : List Char) : Option Char := do
  let ds ← digits.mapM Json.Token.hexValue?
  let n := ds.foldl (fun n d => 16 * n + d) 0
  if (0xD800 ≤ n && n ≤ 0xDFFF) || 0x10FFFF < n then none else some (Char.ofNat n)

/-- Reads an escape that stands for a character, after its backslash. -/
def scanEscape? (p : Place) : Option (Char × Place) := do
  let c ← p.next?
  match escapeDigits? c with
  | none => return (← unescape? c, p.skip)
  | some n =>
    let p ← p.skip.need n
    let digits := p.rest.take n
    if digits.length < n then none
    return (← numberedChar? digits, p.skipMany n)

/-- Reads a quoted scalar after its opening quote. `gap` is what was passed since its last
character, if a gap or the scalar has just begun. -/
def quotedFrom (single : Bool) :
    (fuel : Nat) → Place → (acc : List Char) → (gap : Option Gap) → Option (List Char × Place)
  | 0, _, _, _ => none
  | fuel + 1, p, acc, gap => do
    let g := gap.getD {}
    if p.ahead fun c => isBlank c || isBreak c then
      quotedFrom single fuel (← p.passGap) acc (p.next?.map g.add)
    else
      let p ← if gap.isSome then p.need 4 else pure p
      if p.atDocumentMark && gap.isSome then none
      let acc := g.foldOnto acc
      match p.rest with
      | [] => none
      | c :: rest =>
        if c = (if single then '\'' else '"') then
          if single && rest.head? = some '\'' then
            quotedFrom single fuel (← (p.skipMany 2).need 2) ('\'' :: acc) none
          else return (acc.reverse, p.skip)
        else if c = '\\' && !single then
          if p.skip.ahead isBreak then
            let p ← (← p.need 3).skip.passBreak.need 1
            if p.next? = some '"' then return (acc.reverse, p.skip)
            quotedFrom single fuel p acc (some { broken := true })
          else
            let (e, p) ← scanEscape? p.skip
            quotedFrom single fuel (← p.need 2) (e :: acc) none
        else quotedFrom single fuel (← p.skip.need 2) (c :: acc) none

/-- Reads a quoted scalar from its opening quote on. -/
def scanQuoted? (single : Bool) (p : Place) : Option (List Char × Place) :=
  quotedFrom single p.size p.skip [] (some {})

/-! ## Blocks -/

/-- What becomes of the line ends at the end of a block. -/
inductive Chomping where
  | strip
  | clip
  | keep
  deriving DecidableEq, Repr

/-- The chomping of an indicator. -/
def Chomping.ofChar? : Char → Option Chomping
  | '-' => some .strip
  | '+' => some .keep
  | _ => none

/-- The indentation of a digit from 1 to 9. -/
def indentDigit? (c : Char) : Option Nat :=
  if '1' ≤ c && c ≤ '9' then some (c.toNat - 0x30) else none

/-- Reads the indicator ahead, if it is one. -/
def Place.indicator {α : Type} (p : Place) (read? : Char → Option α) : Option (Option α × Place) :=
  do
  let p ← p.need 1
  match p.next?.bind read? with
  | none => return (none, p)
  | some a => return (some a, p.skip)

/-- Reads the indicators of a block: its chomping and its indentation, in either order. -/
def blockIndicators (p : Place) : Option (Chomping × Nat × Place) := do
  let (chomping, p) ← p.indicator Chomping.ofChar?
  match chomping with
  | some chomping =>
    let (indent, p) ← p.indicator indentDigit?
    return (chomping, indent.getD 0, p)
  | none =>
    let (indent, p) ← p.indicator indentDigit?
    match indent with
    | none => return (.clip, 0, p)
    | some n =>
      let (chomping, p) ← p.indicator Chomping.ofChar?
      return (chomping.getD .clip, n, p)

/-- Passes the indentation and the empty lines of a block; an indentation of zero is unknown. Gives
the place after them, the widest indentation, and the line ends, last first. -/
def blockBreaks (indent : Nat) :
    (fuel : Nat) → Place → (widest : Nat) → (breaks : List Char) →
      Option (Place × Nat × List Char)
  | 0, _, _, _ => none
  | fuel + 1, p, widest, breaks => do
    let p ← p.need 1
    let indenting := indent = 0 || p.mark.column < indent
    if indenting && p.ahead (· = ' ') then blockBreaks indent fuel p.skip widest breaks
    else
      let widest := max widest p.mark.column
      if indenting && p.ahead (· = '\t') then none
      else
        match p.next? with
        | none => return (p, widest, breaks)
        | some c =>
          if isBreak c then
            blockBreaks indent fuel (← p.need 2).passBreak widest (breakText c :: breaks)
          else return (p, widest, breaks)

/-- The text of a block as far as it is read. -/
structure BlockDraft where
  literal : Bool
  /-- The text, last character first. -/
  acc : List Char := []
  /-- The line end after the last line. -/
  lineEnd : List Char := []
  /-- The empty lines after it, last first. -/
  empty : List Char
  /-- Whether the last line started with a blank. -/
  afterBlank : Bool := false
  deriving DecidableEq, Repr

namespace BlockDraft

/-- Adds a line of text, which is not empty. -/
def addLine (b : BlockDraft) (line : List Char) : BlockDraft :=
  let startsBlank := (line.head?.map isBlank).getD false
  let folds := !b.literal && !b.afterBlank && !startsBlank && b.lineEnd = ['\n']
  let joined := if folds then (if b.empty.isEmpty then [' '] else []) else b.lineEnd
  { b with acc := line.reverse ++ (b.empty ++ joined ++ b.acc), lineEnd := [], empty := []
           afterBlank := startsBlank }

/-- The text of a block that ends here. -/
def finish (b : BlockDraft) (chomping : Chomping) : List Char :=
  match chomping with
  | .strip => b.acc.reverse
  | .clip => (b.lineEnd ++ b.acc).reverse
  | .keep => (b.empty ++ b.lineEnd ++ b.acc).reverse

end BlockDraft

/-- Reads the lines of a block at an indentation. -/
def blockLines (indent : Nat) : (fuel : Nat) → Place → BlockDraft → Option (BlockDraft × Place)
  | 0, _, _ => none
  | fuel + 1, p, b => do
    if p.mark.column ≠ indent || p.rest.isEmpty then return (b, p)
    let (line, p) ← p.span fun c => !isBreak c
    let p ← p.need 2
    let lineEnd := (p.next?.map breakText).toList
    let (p, _, empty) ← blockBreaks indent p.size p.passBreak 0 []
    blockLines indent fuel p { b.addLine line with lineEnd, empty }

/-- Reads a block after its first indicator. `indent` is the indentation around it, or -1. Without
an indentation of its own the block has that of its first line. -/
def scanBlock? (literal : Bool) (indent : Int) (p : Place) : Option (List Char × Place) := do
  let (chomping, increment, p) ← blockIndicators p
  let p ← p.skipWhile isBlank
  let p ← if p.next? = some '#' then p.toLineEnd else pure p
  if !(p.rest.isEmpty || p.ahead isBreak) then none
  let p ← p.nextLine
  let given := if increment = 0 then 0 else indent.toNat + increment
  let (p, widest, empty) ← blockBreaks given p.size p 0 []
  let p ← p.need 1
  let own := if given = 0 then max widest (max (indent + 1).toNat 1) else given
  let (b, p) ← blockLines own p.size p { literal, empty }
  return (b.finish chomping, p)

end TapeLang.Yaml
