import TapeLang.Yaml.Scalar

/-!
# Tokens of a YAML text

The scanner turns indentation into tokens that open and close block collections. A key is only
recognised by the colon after it, so the scanner remembers where a key could have started and puts
the tokens of the key in there afterwards. It reads no further than it has to for the token that is
looked at next.

* `Token`: a token and the line it starts in.
* `Scanner`: a text that is turned into tokens.
* `Scanner.fetch`: reads the next token or tokens.
* `Scanner.peek`, `Scanner.drop`: the token that comes next.
-/

namespace TapeLang.Yaml

/-- The kinds of tokens. -/
inductive TokenKind where
  | streamStart
  | streamEnd
  | versionDirective (major minor : Nat)
  | tagDirective (handle lead : Bytes)
  | documentStart
  | documentEnd
  | blockSequenceStart
  | blockMappingStart
  | blockEnd
  | flowSequenceStart
  | flowSequenceEnd
  | flowMappingStart
  | flowMappingEnd
  | blockEntry
  | flowEntry
  | key
  | value
  | alias (name : String)
  | anchor (name : String)
  | tag (handle suffix : Bytes)
  | scalar (text : List Char) (plain : Bool)
  deriving DecidableEq, Repr

/-- A token and the line it starts in, counted from zero. -/
structure Token where
  kind : TokenKind
  line : Nat
  deriving DecidableEq, Repr

/-- Where the last key may have started that a colon has not been found for. There is such a slot
for the block and for each open flow collection. -/
structure KeySlot where
  /-- Whether a key may still have started there. -/
  possible : Bool := false
  /-- Whether something is wrong if no colon follows. -/
  required : Bool := false
  /-- The number of tokens before the key. -/
  token : Nat
  mark : Mark := {}
  deriving DecidableEq, Repr

/-- How far a colon may be from the start of its key. -/
def keyReach : Nat := 1024

/-- How deep flow collections may be nested. -/
def flowLimit : Nat := 10000

/-- How deep block collections may be nested. -/
def blockLimit : Nat := 10000

/-- How many tokens are read ahead of the one that is looked at. -/
def lookahead : Nat := 2

/-- A text that is turned into tokens. -/
structure Scanner where
  place : Place
  /-- The tokens that have been read but not dropped. -/
  queue : List Token := []
  /-- The number of tokens that have been dropped. -/
  dropped : Nat := 0
  /-- Whether the first token can be looked at. -/
  ready : Bool := false
  /-- Whether the text has been started. -/
  started : Bool := false
  /-- The current indentation, -1 outside all blocks. -/
  indent : Int := -1
  /-- The indentations around it, innermost first. -/
  outer : List Int := []
  /-- The slots for keys, that of the block first. -/
  slots : Array KeySlot := #[{ token := 0 }]
  /-- The tokens that a key may start with, by number, and the slots of the keys. -/
  waiting : List (Nat × Nat) := []
  /-- Whether a key may start here. -/
  keyAllowed : Bool := true

/-- A scanning step; it fails if the text makes no sense. -/
abbrev ScanM := StateT Scanner Option

namespace Scanner

/-- How many flow collections are open. -/
def flowLevel (s : Scanner) : Nat :=
  s.slots.size - 1

/-- Whether a flow collection is open. -/
def inFlow (s : Scanner) : Bool :=
  0 < s.flowLevel

/-- The current line. -/
def line (s : Scanner) : Nat :=
  s.place.mark.line

/-- The number of the next token. -/
def nextToken (s : Scanner) : Nat :=
  s.dropped + s.queue.length

/-- Goes on to a place. -/
def move (step : Place → Option Place) : ScanM Unit := do
  let s ← get
  set { s with place := ← step s.place }

/-- Reads something and goes on to the place after it. -/
def read {α : Type} (step : Place → Option (α × Place)) : ScanM α := do
  let s ← get
  let (a, place) ← step s.place
  set { s with place }
  return a

/-- Adds a token at the end. -/
def emit (kind : TokenKind) (line : Nat) : ScanM Unit :=
  modify fun s => { s with queue := s.queue ++ [⟨kind, line⟩] }

/-- Inserts a token before the one with a number; at the end if that has been dropped. -/
def insertAt (number : Nat) (kind : TokenKind) (line : Nat) : ScanM Unit :=
  modify fun s =>
    if number < s.dropped then { s with queue := s.queue ++ [⟨kind, line⟩] }
    else { s with queue := s.queue.insertIdx (number - s.dropped) ⟨kind, line⟩ }

/-- Sets whether a key may start here. -/
def allowKey (b : Bool) : ScanM Unit :=
  modify fun s => { s with keyAllowed := b }

/-! ## Keys -/

/-- The slot that is in use. -/
def slot (s : Scanner) : KeySlot :=
  s.slots.back?.getD { token := 0 }

/-- Replaces the slot that is in use. -/
def setSlot (slot : KeySlot) : ScanM Unit :=
  modify fun s => { s with slots := s.slots.pop.push slot }

/-- Forgets that a key may start with a token. -/
def forget (token : Nat) : ScanM Unit :=
  modify fun s => { s with waiting := s.waiting.filter fun w => w.1 ≠ token }

/-- Gives up the key in use; a required one must not be given up. -/
def dropKey : ScanM Unit := do
  let slot := (← get).slot
  if slot.possible then
    if slot.required then failure
    setSlot { slot with possible := false }
    forget slot.token

/-- Notes that a key may start here. -/
def noteKey : ScanM Unit := do
  let s ← get
  if s.keyAllowed then
    dropKey
    setSlot {
      possible := true
      required := !s.inFlow && s.indent = s.place.mark.column
      token := s.nextToken
      mark := s.place.mark }
    modify fun t => { t with
      waiting := (s.nextToken, t.flowLevel) ::
        t.waiting.filter fun w => w.1 ≠ s.nextToken && t.dropped ≤ w.1 }

/-- Whether a key may still have started where a slot says. A colon has to be in the line of its
key, and near it. -/
def isLive (level : Nat) : ScanM Bool := do
  let s ← get
  match s.slots[level]? with
  | none => return false
  | some slot =>
    if !slot.possible then return false
    let here := s.place.mark
    if slot.mark.line < here.line || slot.mark.index + keyReach < here.index then
      if slot.required then failure
      set { s with slots := s.slots.setIfInBounds level { slot with possible := false } }
      return false
    return true

/-! ## Indentation -/

/-- Opens a block collection if the column is further in than the current indentation. The token
that opens it comes before the token with a number, or last. -/
def rollIndent (column : Nat) (number : Option Nat) (kind : TokenKind) (line : Nat) :
    ScanM Unit := do
  let s ← get
  if !s.inFlow && s.indent < column then
    if blockLimit ≤ s.outer.length then failure
    set { s with outer := s.indent :: s.outer, indent := column }
    match number with
    | some n => insertAt n kind line
    | none => emit kind line

/-- Closes the block collections that are further in than a column. -/
def unrollIndent (column : Int) : ScanM Unit :=
  modify fun s =>
    if s.inFlow then s
    else
      let closed := (s.indent :: s.outer).takeWhile fun i => column < i
      let left := (s.indent :: s.outer).dropWhile fun i => column < i
      { s with
        queue := s.queue ++ closed.map fun _ => ⟨.blockEnd, s.line⟩
        indent := left.headD (-1)
        outer := left.tail }

/-! ## Blanks and comments -/

/-- Goes on to the next token, past blanks, comments and line ends. A tab is passed only where no
key may start. -/
def toNextToken : (fuel : Nat) → ScanM Unit
  | 0 => failure
  | fuel + 1 => do
    move fun p => do
      let p ← p.need 1
      return if p.mark.column = 0 && p.marked then p.skip else p
    let s ← get
    move (·.skipWhile fun c => c = ' ' || (c = '\t' && (s.inFlow || !s.keyAllowed)))
    move fun p => if p.next? = some '#' then p.passComments p.size else some p
    if (← get).place.ahead isBreak then
      move Place.nextLine
      if !s.inFlow then allowKey true
      toNextToken fuel

/-! ## Directives, anchors and tags -/

/-- Whether a character may stand in a tag. -/
def isTagChar (c : Char) : Bool :=
  isNameChar c || ";/?:@&=+$,.!~*'()[]".toList.contains c

/-- Reads a byte that is written as a percent sign and two digits. -/
def scanOctet (p : Place) : Option (UInt8 × Place) := do
  let p ← p.need 3
  match p.rest with
  | '%' :: a :: b :: _ =>
    let n := 16 * (← Json.Token.hexValue? a) + (← Json.Token.hexValue? b)
    return (UInt8.ofNat n, p.skipMany 3)
  | _ => none

/-- Reads bytes that continue a character, each written as a percent sign and two digits. -/
def scanOctets : (count : Nat) → Place → Option (Bytes × Place)
  | 0, p => some ([], p)
  | count + 1, p => do
    let (b, p) ← scanOctet p
    if !Text.isTail b then none
    let (rest, p) ← scanOctets count p
    return (b :: rest, p)

/-- Reads the characters of a tag; `acc` holds the bytes so far, last first. -/
def tagTextFrom : (fuel : Nat) → Place → (acc : Bytes) → Option (Bytes × Place)
  | 0, _, _ => none
  | fuel + 1, p, acc => do
    let p ← p.need 1
    match p.next? with
    | none => return (acc.reverse, p)
    | some c =>
      if c = '%' then
        let (b, p) ← scanOctet p
        if Text.leadWidth b = 0 then none
        let (more, p) ← scanOctets (Text.leadWidth b - 1) p
        tagTextFrom fuel p (more.reverse ++ b :: acc)
      else if isTagChar c then tagTextFrom fuel p.skip (Text.ascii c :: acc)
      else return (acc.reverse, p)

/-- Reads the characters of a tag. -/
def scanTagText (p : Place) : Option (Bytes × Place) :=
  tagTextFrom p.size p []

/-- Reads the handle of a tag: an exclamation mark, or a name between two of them. Without the
second mark it is part of the tag itself. -/
def scanHandle (p : Place) : Option (List Char × Place) := do
  let p ← p.need 1
  if p.next? ≠ some '!' then none
  let (name, p) ← p.skip.span isNameChar
  if p.next? = some '!' then return ('!' :: name ++ ['!'], p.skip)
  return ('!' :: name, p)

/-- Reads a tag, as its handle and the rest of it. -/
def scanTag (p : Place) : Option ((Bytes × Bytes) × Place) := do
  let p ← p.need 2
  if (p.rest.drop 1).head? = some '<' then
    let (text, p) ← scanTagText (p.skipMany 2)
    if text.isEmpty || p.next? ≠ some '>' then none
    return (([], text), p.skip)
  else
    let (handle, p) ← scanHandle p
    let (text, p) ← scanTagText p
    if 1 < handle.length && handle.getLast? = some '!' then
      if text.isEmpty then none
      return ((encode handle, text), p)
    else
      let suffix := encode handle.tail ++ text
      if suffix.isEmpty then return (([], utf8 "!"), p)
      return ((utf8 "!", suffix), p)

/-- Reads a tag. -/
def fetchTag : ScanM Unit := do
  noteKey
  allowKey false
  let line := (← get).line
  let (handle, suffix) ← read scanTag
  move (·.need 1)
  if !blankAhead (← get).place.rest then failure
  emit (.tag handle suffix) line

/-- Whether the name of an anchor may end before what lies ahead. -/
def endsName (rest : List Char) : Bool :=
  blankAhead rest ||
    (rest.head?.map fun c => "?:,]%@\x60".toList.contains c || c = '\x7d').getD false

/-- Reads an anchor or an alias. -/
def fetchAnchor (kind : String → TokenKind) : ScanM Unit := do
  noteKey
  allowKey false
  let line := (← get).line
  let name ← read (·.skip.span isNameChar)
  if name.isEmpty || !endsName (← get).place.rest then failure
  emit (kind (String.ofList name)) line

/-- Reads a part of a version, which has one or two digits. -/
def scanVersionPart (p : Place) : Option (Nat × Place) := do
  let (digits, p) ← p.span Char.isDigit
  if digits.isEmpty || 2 < digits.length then none
  return (digits.foldl (fun n c => 10 * n + (c.toNat - 0x30)) 0, p)

/-- Reads a directive without the rest of its line. -/
def scanDirective (p : Place) : Option (TokenKind × Place) := do
  let (name, p) ← p.skip.span isNameChar
  if name.isEmpty || !blankAhead p.rest then none
  let p ← p.skipWhile isBlank
  if name = "YAML".toList then
    let (major, p) ← scanVersionPart p
    if p.next? ≠ some '.' then none
    let (minor, p) ← scanVersionPart p.skip
    return (.versionDirective major minor, p)
  else if name = "TAG".toList then
    let (handle, p) ← scanHandle p
    if handle.getLast? ≠ some '!' then none
    let (blanks, p) ← p.span isBlank
    if blanks.isEmpty then none
    let (text, p) ← scanTagText p
    if text.isEmpty || !blankAhead p.rest then none
    return (.tagDirective (encode handle) text, p)
  else none

/-- Reads a directive and the rest of its line. -/
def fetchDirective : ScanM Unit := do
  unrollIndent (-1)
  dropKey
  allowKey false
  let line := (← get).line
  let kind ← read scanDirective
  move (·.skipWhile isBlank)
  move fun p => if p.next? = some '#' then p.toLineEnd else some p
  let p := (← get).place
  if !(p.rest.isEmpty || p.ahead isBreak) then failure
  move Place.nextLine
  emit kind line

/-! ## Other tokens -/

/-- Reads so many characters as a token. -/
def fetchIndicator (kind : TokenKind) (width : Nat) : ScanM Unit := do
  emit kind (← get).line
  move fun p => some (p.skipMany width)

/-- Reads a mark between documents. -/
def fetchDocumentMark (kind : TokenKind) : ScanM Unit := do
  unrollIndent (-1)
  dropKey
  allowKey false
  fetchIndicator kind 3

/-- Opens a flow collection. -/
def fetchFlowStart (kind : TokenKind) : ScanM Unit := do
  noteKey
  if flowLimit ≤ (← get).flowLevel then failure
  modify fun s => { s with slots := s.slots.push { token := s.nextToken } }
  allowKey true
  fetchIndicator kind 1

/-- Closes a flow collection. -/
def fetchFlowEnd (kind : TokenKind) : ScanM Unit := do
  dropKey
  if (← get).inFlow then
    forget (← get).slot.token
    modify fun s => { s with slots := s.slots.pop }
  allowKey false
  fetchIndicator kind 1

/-- Reads the comma of a flow collection. -/
def fetchFlowEntry : ScanM Unit := do
  dropKey
  allowKey true
  fetchIndicator .flowEntry 1

/-- Reads the dash of a block sequence. -/
def fetchBlockEntry : ScanM Unit := do
  let s ← get
  if !s.inFlow then
    if !s.keyAllowed then failure
    rollIndent s.place.mark.column none .blockSequenceStart s.line
  dropKey
  allowKey true
  fetchIndicator .blockEntry 1

/-- Reads the mark of a key. -/
def fetchKey : ScanM Unit := do
  let s ← get
  if !s.inFlow then
    if !s.keyAllowed then failure
    rollIndent s.place.mark.column none .blockMappingStart s.line
  dropKey
  allowKey !s.inFlow
  fetchIndicator .key 1

/-- Reads a colon. What came before it on the line becomes the key, if it can be one. -/
def fetchValue : ScanM Unit := do
  let s ← get
  if ← isLive s.flowLevel then
    let slot := s.slot
    insertAt slot.token .key slot.mark.line
    rollIndent slot.mark.column (some slot.token) .blockMappingStart slot.mark.line
    setSlot { slot with possible := false }
    forget slot.token
    allowKey false
  else
    if !s.inFlow then
      if !s.keyAllowed then failure
      rollIndent s.place.mark.column none .blockMappingStart s.line
    allowKey !s.inFlow
  fetchIndicator .value 1

/-- Reads a block scalar. -/
def fetchBlock (literal : Bool) : ScanM Unit := do
  dropKey
  allowKey true
  let s ← get
  let text ← read fun p => scanBlock? literal s.indent p.skip
  emit (.scalar text false) s.line

/-- Reads a quoted scalar. -/
def fetchQuoted (single : Bool) : ScanM Unit := do
  noteKey
  allowKey false
  let s ← get
  let text ← read (scanQuoted? single)
  emit (.scalar text false) s.line

/-- Reads a plain scalar. -/
def fetchPlain : ScanM Unit := do
  noteKey
  allowKey false
  let s ← get
  let (text, place, broken) ← scanPlain? s.inFlow (s.indent + 1).toNat s.place
  move fun _ => some place
  if broken then allowKey true
  emit (.scalar text true) s.line

/-- Ends the text. -/
def fetchEnd : ScanM Unit := do
  move fun p =>
    if p.mark.column = 0 then some p
    else some { p with mark := { p.mark with line := p.mark.line + 1, column := 0 } }
  unrollIndent (-1)
  dropKey
  allowKey false
  emit .streamEnd (← get).line

/-- The characters that cannot start a plain scalar by themselves. -/
def isIndicator (c : Char) : Bool :=
  "-?:,[]#&*!|>'\"%@\x60".toList.contains c || c = '\x7b' || c = '\x7d'

/-- Reads a token that a character starts. -/
def fetchContent (c : Char) (rest : List Char) : ScanM Unit := do
  let flow := (← get).inFlow
  if c = '[' then fetchFlowStart .flowSequenceStart
  else if c = '\x7b' then fetchFlowStart .flowMappingStart
  else if c = ']' then fetchFlowEnd .flowSequenceEnd
  else if c = '\x7d' then fetchFlowEnd .flowMappingEnd
  else if c = ',' then fetchFlowEntry
  else if c = '-' && blankAhead rest then fetchBlockEntry
  else if c = '?' && (flow || blankAhead rest) then fetchKey
  else if c = ':' && (flow || blankAhead rest) then fetchValue
  else if c = '*' then fetchAnchor .alias
  else if c = '&' then fetchAnchor .anchor
  else if c = '!' then fetchTag
  else if c = '|' && !flow then fetchBlock true
  else if c = '>' && !flow then fetchBlock false
  else if c = '\'' then fetchQuoted true
  else if c = '"' then fetchQuoted false
  else if !(isBlank c || isBreak c || isIndicator c) || c = '-' ||
      (!flow && (c = '?' || c = ':')) then fetchPlain
  else failure

/-- Reads the next token or tokens. A comment after a token belongs to it, except after a dash. -/
def fetch : ScanM Unit := do
  move (·.need 1)
  if !(← get).started then
    modify fun s => { s with started := true }
    emit .streamStart 0
  else
    toNextToken (← get).place.size
    unrollIndent (← get).place.mark.column
    move (·.need 4)
    let p := (← get).place
    match p.rest with
    | [] => fetchEnd
    | c :: rest =>
      if p.mark.column = 0 && c = '%' then fetchDirective
      else if p.atDocumentMark then
        fetchDocumentMark (if c = '-' then .documentStart else .documentEnd)
      else
        fetchContent c rest
        if ((← get).queue.getLast?.map Token.kind) ≠ some .blockEntry then
          move Place.passLineComment

/-- Whether more tokens have to be read before the first can be looked at. As long as it may start
a key, the colon has to be found. -/
def needsMore : ScanM Bool := do
  let s ← get
  if s.queue.length ≤ lookahead then return true
  match s.waiting.lookup s.dropped with
  | none => return false
  | some level => isLive level

/-- Reads tokens until the first can be looked at. -/
def prepare : (fuel : Nat) → ScanM Unit
  | 0 => failure
  | fuel + 1 => do
    if ← needsMore then
      fetch
      prepare fuel

/-- The token that comes next. -/
def peek : ScanM Token := do
  if !(← get).ready then
    prepare (← get).place.size
    modify fun s => { s with ready := true }
  match (← get).queue with
  | t :: _ => return t
  | [] => failure

/-- Drops the token that comes next. -/
def drop : ScanM Unit :=
  modify fun s => { s with queue := s.queue.tail, dropped := s.dropped + 1, ready := false }

end Scanner

end TapeLang.Yaml
