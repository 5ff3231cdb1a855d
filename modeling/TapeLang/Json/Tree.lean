import TapeLang.Bracket
import TapeLang.Json.Read
import TapeLang.Node
import TapeLang.Text.Quoted

/-!
# Trees as JSON

A node is an object with its kind by name, its count unless zero, its children unless there are
none, and its location. Reading fills in a given node field by field: unknown keys are passed over,
a later field overrides an earlier one, and `null` leaves a field as it was. A kind that has no
name ends the reading at once; a value of the wrong type only makes the result worthless.

* `Node.listJson`: a program as JSON.
* `Node.decodeList`: a program from JSON.
-/

namespace TapeLang

/-! ## Writing -/

/-- A location as an object. -/
def Location.toJson (loc : Location) : Json :=
  .object [("file", .string (Text.lossyString loc.file)), ("line", .int loc.line.toInt),
    ("column", .int loc.column.toInt)]

mutual

/-- A node as an object. -/
def Node.toJson : Node → Json
  | ⟨kind, count, children, loc⟩ =>
    .object (
      [("kind", .string kind.name)] ++
      (if count = 0 then [] else [("count", .int count.toInt)]) ++
      (if children.isEmpty then [] else [("children", .array (Node.itemsJson children))]) ++
      [("loc", loc.toJson)])

/-- Nodes as objects. -/
def Node.itemsJson : List Node → List Json
  | [] => []
  | n :: rest => n.toJson :: Node.itemsJson rest

end

/-- A program as an array. -/
def Node.listJson (nodes : List Node) : Json :=
  .array (Node.itemsJson nodes)

/-- A bracket error as an object. -/
def BracketError.toJson (e : BracketError) : Json :=
  .object [("rule", .string e.defect.rule), ("message", .string e.defect.message),
    ("loc", e.loc.toJson)]

/-- Bracket errors as an array. -/
def BracketError.listJson (errors : List BracketError) : Json :=
  .array (errors.map BracketError.toJson)

/-! ## Reading -/

/-- Why a JSON text is not what it should be. -/
inductive DecodeError where
  /-- The text is no JSON, or a value has the wrong type. -/
  | malformed
  /-- A kind has a name that no kind has. -/
  | unknownKind (name : String)
  deriving DecidableEq, Repr

/-- What an error says, as far as its text is fixed. -/
def DecodeError.message : DecodeError → Bytes
  | .malformed => utf8 "malformed JSON"
  | .unknownKind name => utf8 "unknown node kind " ++ Text.quoted (utf8 name)

namespace Decode

/-- Reading into values: the state tells whether a value of the wrong type was passed over. -/
abbrev Decoder := StateT Bool (Except DecodeError)

/-- Passes over a value of the wrong type. -/
def wrongType {α : Type} (kept : α) : Decoder α := do
  set true
  return kept

/-- Reads a string into a field. -/
def string (kept : String) : Json → Decoder String
  | .string s => return s
  | .null => return kept
  | _ => wrongType kept

/-- Reads the bytes of a string into a field. -/
def bytes (kept : Bytes) : Json → Decoder Bytes
  | .string s => return utf8 s
  | .null => return kept
  | _ => wrongType kept

/-- Reads an integer into a field. -/
def int64 (kept : Int64) : Json → Decoder Int64
  | .number literal =>
    match Json.int64? literal with
    | some n => return n
    | none => wrongType kept
  | .null => return kept
  | _ => wrongType kept

/-- Reads the fields of an object into a structure. -/
def fields {α : Type} (field : α → String × Json → Decoder α) (kept : α) : Json → Decoder α
  | .object fs => fs.foldlM field kept
  | .null => return kept
  | _ => wrongType kept

/-- The outcome of a reading: a wrong type anywhere spoils it. -/
def run {α : Type} (d : Decoder α) : Except DecodeError α := do
  let (a, spoilt) ← StateT.run d false
  if spoilt then throw .malformed else return a

/-- Reads a field of a location. -/
def locationField (loc : Location) : String × Json → Decoder Location
  | (key, v) => do
    if Json.sameField "file" key then return { loc with file := ← bytes loc.file v }
    else if Json.sameField "line" key then return { loc with line := ← int64 loc.line v }
    else if Json.sameField "column" key then return { loc with column := ← int64 loc.column v }
    else return loc

/-- Reads a kind by its name. -/
def kind : Json → Except DecodeError Kind
  | .string name =>
    match Kind.ofName? name with
    | some k => .ok k
    | none => .error (.unknownKind name)
  | .null => .error (.unknownKind "")
  | _ => .error .malformed

/-- A node that is being read, and the children that an earlier field has left behind. -/
structure Partial where
  node : Node
  leftover : List Node
  deriving Repr

/-- The node with children that were read over the leftover ones. -/
def Partial.setChildren (p : Partial) (children : List Node) : Partial :=
  { node := { p.node with children }
    leftover := if children.isEmpty then [] else children ++ p.leftover.drop children.length }

mutual

/-- Reads a node into a given one. -/
def node (kept : Node) : Json → Decoder Node
  | .object fs => do
    let p ← nodeFields ⟨kept, kept.children⟩ fs
    return p.node
  | .null => return kept
  | _ => wrongType kept

/-- Reads the fields of a node. -/
def nodeFields (p : Partial) : List (String × Json) → Decoder Partial
  | [] => return p
  | f :: rest => do
    let p ← nodeField p f
    nodeFields p rest

/-- Reads one field of a node. -/
def nodeField (p : Partial) : String × Json → Decoder Partial
  | (key, v) => do
    if Json.sameField "kind" key then return { p with node := { p.node with kind := ← kind v } }
    else if Json.sameField "count" key then
      return { p with node := { p.node with count := ← int64 p.node.count v } }
    else if Json.sameField "loc" key then
      return { p with node := { p.node with loc := ← fields locationField p.node.loc v } }
    else if Json.sameField "children" key then nodeChildren p v
    else return p

/-- Reads the children of a node. -/
def nodeChildren (p : Partial) : Json → Decoder Partial
  | .array items => return p.setChildren (← nodes p.leftover items)
  | .null => return p.setChildren []
  | _ => wrongType p

/-- Reads nodes into given ones, as long as there are any. -/
def nodes : List Node → List Json → Decoder (List Node)
  | _, [] => return []
  | kept, v :: rest => do
    let n ← node (kept.headD {}) v
    let ns ← nodes kept.tail rest
    return n :: ns

end

end Decode

/-- Reads a kind from a JSON text. -/
def Kind.decode (text : Bytes) : Except DecodeError Kind :=
  match Json.read? (Text.decodeLossy text) with
  | some v => Decode.kind v
  | none => .error .malformed

/-- Reads a program from a JSON text; `null` stands for no program. -/
def Node.decodeList (text : Bytes) : Except DecodeError (Option (List Node)) :=
  match Json.read? (Text.decodeLossy text) with
  | none => .error .malformed
  | some .null => .ok none
  | some (.array items) => some <$> Decode.run (Decode.nodes [] items)
  | some _ => .error .malformed

end TapeLang
