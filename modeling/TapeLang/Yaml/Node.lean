import TapeLang.Yaml.Tag
import TapeLang.Yaml.Token

/-!
# YAML documents

Tokens are put together to a tree of scalars, sequences and mappings. An alias refers to the node
that had its name as an anchor last; since that node may still be unfinished, the anchored nodes
are kept in a table and aliases hold their numbers.

* `Node`: a node of a document.
* `Document`: the first document of a text, with its anchored nodes.
* `Content.parse`: the document of a text.
-/

namespace TapeLang.Yaml

/-- A node of a document. Lines are counted from one. -/
inductive Node where
  | scalar (tag : Tag) (text : List Char) (line : Nat)
  | sequence (tag : Tag) (items : List Node) (line : Nat)
  | mapping (tag : Tag) (pairs : List (Node × Node)) (line : Nat)
  /-- The anchored node with a number, by its name. -/
  | alias (name : String) (target : Nat) (line : Nat)
  deriving Repr

instance : Inhabited Node := ⟨.scalar .null [] 0⟩

/-- What the parser has to remember. -/
structure ParseState where
  scanner : Scanner
  /-- The handles of tags that directives have given a meaning. -/
  given : List (Bytes × Bytes) := []
  /-- The names of anchors and the numbers of their nodes, latest first. -/
  anchors : List (String × Nat) := []
  /-- The anchored nodes that are finished. -/
  nodes : List (Nat × Node) := []
  /-- The number of the next anchored node. -/
  next : Nat := 0

/-- A parsing step; it fails if the text makes no sense. -/
abbrev ParseM := StateT ParseState Option

namespace Parser

/-- A step of the scanner. -/
def scan {α : Type} (step : ScanM α) : ParseM α := do
  let s ← get
  let (a, scanner) ← step.run s.scanner
  set { s with scanner }
  return a

/-- The token ahead. -/
def peek : ParseM Token :=
  scan Scanner.peek

/-- Passes a token. -/
def skip : ParseM Unit :=
  scan Scanner.drop

/-- Passes a token if it is of a kind, and tells whether it was. -/
def accept (kind : TokenKind) : ParseM Bool := do
  if (← peek).kind = kind then
    skip
    return true
  else return false

/-- Passes a token that has to be of a kind. -/
def require (kind : TokenKind) : ParseM Unit := do
  if !(← accept kind) then failure

/-- A node without any text. -/
def empty (line : Nat) : Node :=
  .scalar .null [] (line + 1)

/-! ## Properties -/

/-- The anchor and the tag of a node, and the line of the first of them. -/
structure Properties where
  anchor : Option String := none
  tag : Option Bytes := none
  line : Option Nat := none
  deriving Repr

/-- The handles that need no directive. -/
def usualHandles : List (Bytes × Bytes) :=
  [(utf8 "!", utf8 "!"), (utf8 "!!", Tag.standardStart)]

/-- The full form of a tag. -/
def fullTag (handle suffix : Bytes) : ParseM Bytes := do
  if handle.isEmpty then return suffix
  match ((← get).given ++ usualHandles).lookup handle with
  | some start => return start ++ suffix
  | none => failure

/-- Reads an anchor, if there is one. -/
def anchorProperty (p : Properties) : ParseM Properties := do
  let t ← peek
  match t.kind with
  | .anchor name =>
    skip
    return { p with anchor := some name, line := p.line.or (some t.line) }
  | _ => return p

/-- Reads a tag, if there is one. -/
def tagProperty (p : Properties) : ParseM Properties := do
  let t ← peek
  match t.kind with
  | .tag handle suffix =>
    skip
    return { p with tag := some (← fullTag handle suffix), line := p.line.or (some t.line) }
  | _ => return p

/-- Reads the properties of a node, in either order. -/
def properties : ParseM Properties := do
  let p ← anchorProperty {}
  let p ← tagProperty p
  if p.anchor.isNone then anchorProperty p else return p

/-- The tag of a node: the given one, or the one for its kind. -/
def Properties.tagOr (p : Properties) (default : Tag) : Tag :=
  match p.tag with
  | none => default
  | some name => if name.isEmpty || name = utf8 "!" then default else Tag.ofName name

/-- The line of a node that starts at a token. -/
def Properties.lineOr (p : Properties) (line : Nat) : Nat :=
  p.line.getD line + 1

/-- Gives a number to an anchor before its node is read. -/
def reserve (p : Properties) : ParseM (Option Nat) := do
  match p.anchor with
  | none => return none
  | some name =>
    let s ← get
    set { s with anchors := (name, s.next) :: s.anchors, next := s.next + 1 }
    return some s.next

/-- Keeps a finished node under its number. -/
def keep (number : Option Nat) (n : Node) : ParseM Node := do
  match number with
  | none => return n
  | some i =>
    modify fun s => { s with nodes := (i, n) :: s.nodes }
    return n

/-! ## Nodes -/

/-- The tag of a scalar without a given one. -/
def scalarTag (text : List Char) (plain : Bool) : Tag :=
  if !plain then .str
  else if text = "<<".toList then .merge
  else Tag.implied text

/-- Whether a token ends the value or the key of a block mapping. -/
def endsBlockEntry (kind : TokenKind) : Bool :=
  kind = .key || kind = .value || kind = .blockEnd

mutual

/-- Reads a node. `block` tells whether it may be a block collection, `indentless` whether it may
be a sequence at the indentation of the mapping around it. -/
def node (block indentless : Bool) : (fuel : Nat) → ParseM Node
  | 0 => failure
  | fuel + 1 => do
    let t ← peek
    match t.kind with
    | .alias name =>
      skip
      match (← get).anchors.lookup name with
      | some target => return .alias name target (t.line + 1)
      | none => failure
    | _ =>
      let p ← properties
      let t ← peek
      let line := p.lineOr t.line
      let number ← reserve p
      match t.kind with
      | .scalar text plain =>
        skip
        keep number (.scalar (p.tagOr (scalarTag text plain)) text line)
      | .flowSequenceStart =>
        skip
        let items ← flowItems true fuel
        keep number (.sequence (p.tagOr .seq) items line)
      | .flowMappingStart =>
        skip
        let pairs ← flowPairs true fuel
        keep number (.mapping (p.tagOr .map) pairs line)
      | kind =>
        if indentless && kind = .blockEntry then
          let items ← indentlessItems fuel
          keep number (.sequence (p.tagOr .seq) items line)
        else if block && kind = .blockSequenceStart then
          skip
          let items ← blockItems fuel
          keep number (.sequence (p.tagOr .seq) items line)
        else if block && kind = .blockMappingStart then
          skip
          let pairs ← blockPairs fuel
          keep number (.mapping (p.tagOr .map) pairs line)
        else if p.anchor.isSome || p.tag.isSome then
          keep number (.scalar (p.tagOr .null) [] line)
        else failure

/-- Reads the entries of a block sequence up to its end. -/
def blockItems : (fuel : Nat) → ParseM (List Node)
  | 0 => failure
  | fuel + 1 => do
    let t ← peek
    if ← accept .blockEntry then
      let kind := (← peek).kind
      let item ← if kind = .blockEntry || kind = .blockEnd then pure (empty t.line)
        else node true false fuel
      let rest ← blockItems fuel
      return item :: rest
    else
      require .blockEnd
      return []

/-- Reads the entries of a sequence that has no indentation of its own. -/
def indentlessItems : (fuel : Nat) → ParseM (List Node)
  | 0 => failure
  | fuel + 1 => do
    let t ← peek
    if ← accept .blockEntry then
      let kind := (← peek).kind
      let item ← if kind = .blockEntry || endsBlockEntry kind then pure (empty t.line)
        else node true false fuel
      let rest ← indentlessItems fuel
      return item :: rest
    else return []

/-- Reads the pairs of a block mapping up to its end. -/
def blockPairs : (fuel : Nat) → ParseM (List (Node × Node))
  | 0 => failure
  | fuel + 1 => do
    let t ← peek
    if ← accept .key then
      let key ← if endsBlockEntry (← peek).kind then pure (empty t.line) else node true true fuel
      let u ← peek
      let value ← if ← accept .value then
          if endsBlockEntry (← peek).kind then pure (empty u.line) else node true true fuel
        else pure (empty u.line)
      let rest ← blockPairs fuel
      return (key, value) :: rest
    else
      require .blockEnd
      return []

/-- Reads the items of a flow sequence up to its end. -/
def flowItems (first : Bool) : (fuel : Nat) → ParseM (List Node)
  | 0 => failure
  | fuel + 1 => do
    if ← accept .flowSequenceEnd then return []
    if !first then require .flowEntry
    let t ← peek
    if t.kind = .key then
      skip
      let pair ← flowPair fuel
      let rest ← flowItems false fuel
      return .mapping .map [pair] (t.line + 1) :: rest
    else if ← accept .flowSequenceEnd then return []
    else
      let item ← node false false fuel
      let rest ← flowItems false fuel
      return item :: rest

/-- Reads a single pair inside a flow sequence, after the mark of its key. Where there is no key,
the token ahead is passed whatever it is. -/
def flowPair : (fuel : Nat) → ParseM (Node × Node)
  | 0 => failure
  | fuel + 1 => do
    let t ← peek
    let key ← if t.kind = .value || t.kind = .flowEntry || t.kind = .flowSequenceEnd then do
        skip
        pure (empty t.line)
      else node false false fuel
    let u ← peek
    if ← accept .value then
      let kind := (← peek).kind
      if kind = .flowEntry || kind = .flowSequenceEnd then return (key, empty u.line)
      else return (key, ← node false false fuel)
    else return (key, empty u.line)

/-- Reads the pairs of a flow mapping up to its end. -/
def flowPairs (first : Bool) : (fuel : Nat) → ParseM (List (Node × Node))
  | 0 => failure
  | fuel + 1 => do
    if ← accept .flowMappingEnd then return []
    if !first then require .flowEntry
    let ends := fun (k : TokenKind) => decide (k = .flowEntry) || decide (k = .flowMappingEnd)
    if ← accept .key then
      let t ← peek
      let key ← if t.kind = .value || ends t.kind then pure (empty t.line)
        else node false false fuel
      let u ← peek
      let value ← if ← accept .value then
          if ends (← peek).kind then pure (empty u.line) else node false false fuel
        else pure (empty u.line)
      let rest ← flowPairs false fuel
      return (key, value) :: rest
    else if ← accept .flowMappingEnd then return []
    else
      let key ← node false false fuel
      let u ← peek
      let rest ← flowPairs false fuel
      return (key, empty u.line) :: rest

end

/-! ## Documents -/

/-- Reads the directives before a document; `version` tells whether a version was given. -/
def directives (version : Bool) : (fuel : Nat) → ParseM Unit
  | 0 => failure
  | fuel + 1 => do
    match (← peek).kind with
    | .versionDirective major minor =>
      if version || major ≠ 1 || minor ≠ 1 then failure
      skip
      directives true fuel
    | .tagDirective handle lead =>
      let s ← get
      if s.given.any (·.1 = handle) then failure
      set { s with given := (handle, lead) :: s.given }
      skip
      directives version fuel
    | _ => return

/-- Whether a token ends a document that has not begun. -/
def endsDocument : TokenKind → Bool
  | .versionDirective _ _ | .tagDirective _ _ | .documentStart | .documentEnd | .streamEnd => true
  | _ => false

/-- Reads the first document, if there is one, and the token after it. -/
def document (fuel : Nat) : ParseM (Option Node) := do
  require .streamStart
  let t ← peek
  let finish (n : Node) : ParseM (Option Node) := do
    let _ ← peek
    return some n
  match t.kind with
  | .streamEnd => return none
  | .versionDirective _ _ | .tagDirective _ _ | .documentStart =>
    directives false fuel
    require .documentStart
    let u ← peek
    if endsDocument u.kind then finish (empty t.line) else finish (← node true false fuel)
  | _ => finish (← node true false fuel)

end Parser

/-- The first document of a text. -/
structure Document where
  root : Node
  /-- The anchored nodes by number. -/
  nodes : List (Nat × Node)
  /-- More than the nodes of the document. -/
  size : Nat
  deriving Repr

/-- What a text holds. -/
inductive Content where
  /-- The text makes no sense. -/
  | malformed
  /-- The text has no document. -/
  | nothing
  | document (d : Document)

/-- The number of steps that suffice for a text of a size. -/
def parseFuel (size : Nat) : Nat :=
  4 * size + 4

/-- The first document of a text. -/
def Content.parse (text : Bytes) : Content :=
  let place := Place.ofBytes text
  match (Parser.document (parseFuel place.size)).run { scanner := { place } } with
  | none => .malformed
  | some (none, _) => .nothing
  | some (some root, s) => .document { root, nodes := s.nodes, size := parseFuel place.size }

end TapeLang.Yaml
