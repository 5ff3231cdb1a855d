import TapeLang.Kind
import TapeLang.Location

/-!
# Program trees

A program is a list of nodes. A node has a kind, the length of the run for the kinds that
coalesce, the body for a loop, and the location of its first byte.

* `Node.render`, `Node.renderAll`: the instruction bytes of a tree.
* `Node.outlineAll`: the tree as an indented list.
-/

namespace TapeLang

/-- One operation of a program. -/
structure Node where
  kind : Kind := .unknown 0
  /-- The length of the run, for a kind that coalesces. -/
  count : Int64 := 0
  /-- The body of a loop. -/
  children : List Node := []
  /-- Where the node's first byte stands. -/
  loc : Location := {}
  deriving Repr

namespace Node

instance : Inhabited Node := ⟨{}⟩

/-- How often a count repeats something: not at all if it is negative. -/
def repeats (count : Int64) : Nat :=
  count.toInt.toNat

mutual

/-- The instruction bytes of a node in reverse, in front of `acc`. -/
def renderOnto : Node → Bytes → Bytes
  | ⟨.loop, _, children, _⟩, acc =>
    Text.ascii ']' :: renderAllOnto children (Text.ascii '[' :: acc)
  | ⟨kind, count, _, _⟩, acc =>
    if kind.coalesces then List.replicate (repeats count) kind.byte ++ acc
    else kind.byte :: acc

/-- The instruction bytes of nodes in reverse, in front of `acc`. -/
def renderAllOnto : List Node → Bytes → Bytes
  | [], acc => acc
  | n :: ns, acc => renderAllOnto ns (renderOnto n acc)

end

/-- The instruction bytes of a node. -/
def render (n : Node) : Bytes :=
  (n.renderOnto []).reverse

/-- The instruction bytes of a program. -/
def renderAll (nodes : List Node) : Bytes :=
  (renderAllOnto nodes []).reverse

/-- The line of an outline that shows a node at a depth. -/
def outlineLine (depth : Nat) (kind : Kind) (count : Int64) (loc : Location) : Bytes :=
  let label := utf8 kind.name ++
    (if kind.coalesces then utf8 "(" ++ Text.decimal count.toInt ++ utf8 ")" else [])
  List.replicate (2 * depth) (Text.ascii ' ') ++ label ++ utf8 " " ++
    Text.decimal loc.line.toInt ++ utf8 ":" ++ Text.decimal loc.column.toInt ++ utf8 "\n"

mutual

/-- The outline of a node in reverse, in front of `acc`. Only a loop shows its children. -/
def outlineOnto (depth : Nat) : Node → Bytes → Bytes
  | ⟨.loop, count, children, loc⟩, acc =>
    outlineAllOnto (depth + 1) children ((outlineLine depth .loop count loc).reverse ++ acc)
  | ⟨kind, count, _, loc⟩, acc => (outlineLine depth kind count loc).reverse ++ acc

/-- The outlines of nodes in reverse, in front of `acc`. -/
def outlineAllOnto (depth : Nat) : List Node → Bytes → Bytes
  | [], acc => acc
  | n :: ns, acc => outlineAllOnto depth ns (outlineOnto depth n acc)

end

/-- A program as an indented list with one line for each node. -/
def outlineAll (nodes : List Node) : Bytes :=
  (outlineAllOnto 0 nodes []).reverse

end Node

end TapeLang
