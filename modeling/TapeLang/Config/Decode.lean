import TapeLang.Config.Basic
import TapeLang.Yaml.Node

/-!
# Settings from YAML

A document is read into settings that have their defaults already. Values of the wrong type and
unknown fields are collected, so that all of them are reported together; a key that occurs twice
spoils its mapping. A merge key brings in the fields of other mappings that are not set yet. A
document in which nearly everything comes from aliases is refused.

* `Config.parse`: the settings of a text.
-/

namespace TapeLang.Settings

open Yaml (Document Tag Meaning)

/-! ## Reading -/

/-- How far the reading of a document has come. -/
structure Progress where
  errors : Array TypeError := #[]
  /-- The number of nodes that were visited. -/
  visits : Nat := 0
  /-- The number of those that were visited because of an alias. -/
  expansions : Nat := 0

/-- The share of visits that aliases may bring about, as a fraction. It sinks from 99 percent to
10 percent as documents grow. -/
def allowedShare (visits : Nat) : Nat × Nat :=
  if visits ≤ 400000 then (99, 100)
  else if 4000000 ≤ visits then (10, 100)
  else (99 * 3600000 - 89 * (visits - 400000), 360000000)

/-- Whether aliases have brought about too many visits. -/
def Progress.isExcessive (p : Progress) : Bool :=
  let (n, m) := allowedShare p.visits
  100 < p.expansions && 1000 < p.visits && n * p.visits < p.expansions * m

/-- Reading a document collects type errors, and gives up where a value contradicts its tag. What
an alias stands for is read inside it, so the aliases around a node are known by their targets. -/
abbrev Reader := ReaderT (List Nat) (StateT Progress Option)

/-- Adds a type error. -/
def complain (e : TypeError) : Reader Unit :=
  modify fun p => { p with errors := p.errors.push e }

/-- Counts a visit to a node. -/
def visit : Reader Unit := do
  let inAlias := !(← read).isEmpty
  modify fun p =>
    { p with visits := p.visits + 1, expansions := p.expansions + if inAlias then 1 else 0 }
  if (← get).isExcessive then failure

/-- Reads a node, or the node that it is an alias of. A node must not contain itself. -/
def reading {α : Type} (d : Document) (n : Yaml.Node) (f : Yaml.Node → Reader α) : Reader α := do
  visit
  match n with
  | .alias _ i _ =>
    if (← read).contains i then failure
    match d.nodes.lookup i with
    | none => failure
    | some n =>
      withReader (i :: ·) do
        visit
        f n
  | n => f n

/-- Complains that a node is not what is wanted. -/
def mismatch (n : Yaml.Node) (wanted : String) : Reader Unit :=
  match n with
  | .scalar tag text line => complain (.mismatch line tag (encode text) wanted)
  | .sequence tag _ line | .mapping tag _ line => complain (.mismatch line tag [] wanted)
  | .alias _ _ _ => return

/-! ## Keys -/

/-- What a key is compared by: what kind of node it is, and its text. -/
def keyIdentity : Yaml.Node → Nat × List Char
  | .scalar _ text _ => (0, text)
  | .sequence _ _ _ => (1, [])
  | .mapping _ _ _ => (2, [])
  | .alias name _ _ => (3, name.toList)

/-- The line of a node. -/
def lineOf : Yaml.Node → Nat
  | .scalar _ _ line | .sequence _ _ line | .mapping _ _ line | .alias _ _ line => line

/-- The pairs of keys that are the same. -/
def repeatedKeys : List Yaml.Node → List TypeError
  | [] => []
  | k :: rest =>
    (rest.filter fun k' => keyIdentity k' == keyIdentity k).map (fun k' =>
      .keyTwice (lineOf k') (encode (keyIdentity k').2) (lineOf k)) ++ repeatedKeys rest

/-- Complains of keys that occur twice, and tells whether there are none. -/
def uniqueKeys (pairs : List (Yaml.Node × Yaml.Node)) : Reader Bool := do
  let errors := repeatedKeys (pairs.map Prod.fst)
  errors.forM complain
  return errors.isEmpty

/-! ## Texts -/

/-- What a scalar stands for. -/
def meaning (tag : Tag) (text : List Char) : Reader Meaning :=
  match Meaning.of? tag text with
  | some m => return m
  | none => failure

/-- Complains that a node that is no scalar is not what is wanted; of a mapping only if its keys are
unique. -/
def refuse (n : Yaml.Node) (wanted : String) : Reader Unit := do
  match n with
  | .mapping _ pairs _ => if ← uniqueKeys pairs then mismatch n wanted
  | n => mismatch n wanted

/-- Reads a text, if the node is one. -/
def text? (d : Document) (n : Yaml.Node) : Reader (Option Bytes) :=
  reading d n fun n => do
    match n with
    | .scalar tag text _ =>
      match ← meaning tag text with
      | .nothing => return none
      | .text value => return some value
      | .value => return some (encode text)
    | n =>
      refuse n "string"
      return none

/-- Reads a text into a field. -/
def textField (d : Document) (kept : Bytes) (n : Yaml.Node) : Reader Bytes := do
  return (← text? d n).getD kept

/-- Reads a list of texts into a field. Items that stand for nothing are left out. -/
def listField (d : Document) (kept : Option (List Bytes)) (n : Yaml.Node) :
    Reader (Option (List Bytes)) :=
  reading d n fun n => do
    match n with
    | .sequence _ items _ => return some ((← items.mapM (text? d)).filterMap id)
    | .scalar tag text _ =>
      if (← meaning tag text) = .nothing then return none
      mismatch n "[]string"
      return kept
    | n =>
      refuse n "[]string"
      return kept

/-! ## Structures -/

/-- How a structure is read: its name, and what to do with each of its fields. -/
structure Shape (α : Type) where
  name : String
  field? : Bytes → Option (α → Yaml.Node → Reader α)

/-- A structure that is being read: the fields that were set, and, inside a merge, those that other
mappings have set already. -/
structure Filling (α : Type) where
  value : α
  done : List Bytes := []
  merged : Option (List Bytes)

/-- Reads one pair of a mapping. -/
def fillPair {α : Type} (d : Document) (shape : Shape α) (f : Filling α) (key value : Yaml.Node) :
    Reader (Filling α) := do
  match ← text? d key with
  | none => return f
  | some name =>
    if (f.merged.getD []).contains name then return f
    let f := { f with merged := f.merged.map (name :: ·) }
    match shape.field? name with
    | none =>
      complain (.unknownField (lineOf key) name shape.name)
      return f
    | some set =>
      if f.done.contains name then
        complain (.fieldTwice (lineOf key) name shape.name)
        return f
      return { f with value := ← set f.value value, done := name :: f.done }

/-- Whether a key asks for a merge. -/
def isMergeKey : Yaml.Node → Bool
  | .scalar .merge text _ => text = "<<".toList
  | _ => false

/-- The name that a key of a mapping with a merge stands for; only a text is one. A collection
cannot be compared with names. -/
def keyName (d : Document) (key : Yaml.Node) : Reader (Option Bytes) :=
  reading d key fun key => do
    match key with
    | .scalar tag text _ =>
      match ← meaning tag text with
      | .text name => return some name
      | _ => return none
    | .mapping _ pairs _ =>
      if ← uniqueKeys pairs then failure
      return none
    | _ => failure

/-- The mappings that a merge key refers to. -/
def mergeSources : Yaml.Node → List Yaml.Node
  | .sequence _ items _ => items
  | n => [n]

/-- Reads a mapping into a structure. `fuel` bounds how deep mappings are merged into one
another. -/
def fillMapping {α : Type} (d : Document) (shape : Shape α) :
    (fuel : Nat) → α → Option (List Bytes) → List (Yaml.Node × Yaml.Node) →
      Reader (α × Option (List Bytes))
  | 0, _, _, _ => failure
  | fuel + 1, value, merged, pairs => do
    if !(← uniqueKeys pairs) then return (value, merged)
    let mut f : Filling α := { value, merged }
    for (key, v) in pairs do
      if !isMergeKey key then f ← fillPair d shape f key v
    match (pairs.filter fun p => isMergeKey p.1).getLast? with
    | none => return (f.value, f.merged)
    | some (_, source) =>
      let known ← match f.merged with
        | some names => pure names
        | none => pure ((← pairs.mapM fun p => keyName d p.1).filterMap id)
      let mut value := f.value
      let mut names := some known
      for n in mergeSources source do
        let (value', names') ← reading d n fun n => do
          match n with
          | .mapping _ pairs _ => fillMapping d shape fuel value names pairs
          | _ => failure
        value := value'
        names := names'
      return (value, if f.merged.isSome then names else none)

/-- How deep mappings can be merged into one another: no alias is open twice, and between two of
them the mappings are nested. -/
def mergeFuel (d : Document) : Nat :=
  (d.nodes.length + 1) * d.size

/-- Reads a node into a structure. -/
def fill {α : Type} (d : Document) (shape : Shape α) (kept : α) (n : Yaml.Node) : Reader α :=
  reading d n fun n => do
    match n with
    | .mapping _ pairs _ => return (← fillMapping d shape (mergeFuel d) kept none pairs).1
    | .scalar tag text _ =>
      if (← meaning tag text) ≠ .nothing then mismatch n shape.name
      return kept
    | n =>
      mismatch n shape.name
      return kept

/-- The fields of the tools. -/
def toolsField? (d : Document) (name : Bytes) :
    Option (ToolSettings → Yaml.Node → Reader ToolSettings) :=
  if name = utf8 "assembler" then
    some fun t n => return { t with assembler := ← textField d t.assembler n }
  else if name = utf8 "linker" then
    some fun t n => return { t with linker := ← textField d t.linker n }
  else if name = utf8 "assembler_flags" then
    some fun t n => return { t with assemblerFlags := ← listField d t.assemblerFlags n }
  else if name = utf8 "linker_flags" then
    some fun t n => return { t with linkerFlags := ← listField d t.linkerFlags n }
  else none

/-- The settings of the tools. -/
def toolsShape (d : Document) : Shape ToolSettings :=
  { name := "config.Toolchain", field? := toolsField? d }

/-- The fields of a project. -/
def configField? (d : Document) (name : Bytes) : Option (Config → Yaml.Node → Reader Config) :=
  if name = utf8 "arch" then
    some fun c n => return { c with arch := ← textField d c.arch n }
  else if name = utf8 "format" then
    some fun c n => return { c with format := ← textField d c.format n }
  else if name = utf8 "output" then
    some fun c n => return { c with output := ← textField d c.output n }
  else if name = utf8 "toolchain" then
    some fun c n => return { c with tools := ← fill d (toolsShape d) c.tools n }
  else none

/-- The settings of a project. -/
def configShape (d : Document) : Shape Config :=
  { name := "config.Config", field? := configField? d }

/-- The settings of a document, and the type errors in it. The document counts as a node. -/
def ofDocument (d : Document) : Option (Config × Array TypeError) :=
  (((do visit; fill d (configShape d) {} d.root) : Reader Config).run []).run {} |>.map
    fun (c, p) => (c, p.errors)

end TapeLang.Settings

namespace TapeLang.Config

/-- Reads a text on top of the defaults, without looking at what it names. -/
def decode (text : Bytes) : Except ConfigError Config :=
  match Yaml.Content.parse text with
  | .malformed => .error .malformed
  | .nothing => .ok {}
  | .document d =>
    match Settings.ofDocument d with
    | none => .error .malformed
    | some (c, errors) => if errors.isEmpty then .ok c else .error (.types errors.toList)

/-- The settings of a text. -/
def parse (text : Bytes) : Except ConfigError Config := do
  let c ← decode text
  c.validate
  return c

end TapeLang.Config
