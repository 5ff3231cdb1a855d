import TapeLang.Assembly.Arch
import TapeLang.Node
import TapeLang.Output.Emission

/-!
# Assembly listings

The tape lives on the machine stack. Cells are 16 bits wide, and the tape grows towards lower
addresses: every forward move pushes zeros until the stack covers the new cell. Labels are made
from the location of the node they belong to.

The tree is walked with a stack of the loops that are open, so that its depth does not matter.

* `Line`: a line of a listing.
* `label`: the label of a site.
* `Arch.listing`: the listing of a program as an emission of one line after the other.
-/

namespace TapeLang

namespace Assembly

/-- A line of a listing. -/
inductive Line where
  /-- An instruction or a directive. -/
  | instr (text : Bytes)
  | label (name : Bytes)
  deriving DecidableEq, Repr

/-- The text of a line. -/
def Line.render : Line → Bytes
  | .instr text => utf8 "  " ++ text ++ utf8 "\n"
  | .label name => name ++ utf8 ":\n"

/-- The places of a node that a jump can go to. -/
inductive Site where
  | loopStart
  | loopEnd
  | growStart
  | growEnd
  | readEnd
  deriving DecidableEq, Repr

/-- The end of the labels of a site. -/
def Site.suffix : Site → String
  | .loopStart => "loop_start"
  | .loopEnd => "loop_end"
  | .growStart => "grow_start"
  | .growEnd => "grow_end"
  | .readEnd => "read_end"

/-- A label made from a location. -/
def label (loc : Location) (suffix : String) : Bytes :=
  utf8 "_at_" ++ Text.decimal loc.line.toInt ++ utf8 "_" ++ Text.decimal loc.column.toInt ++
    utf8 "_" ++ utf8 suffix

/-- The label of a site of the node at a location. -/
def siteLabel (loc : Location) (site : Site) : Bytes :=
  label loc site.suffix

/-! ## Instructions -/

/-- An instruction with two operands. -/
def instr2 (mnemonic : String) (source target : Bytes) : Line :=
  .instr (utf8 mnemonic ++ utf8 " " ++ source ++ utf8 ", " ++ target)

/-- A jump to a label. -/
def jump (mnemonic : String) (target : Bytes) : Line :=
  .instr (utf8 mnemonic ++ utf8 " " ++ target)

/-- An immediate operand. -/
def immediate (n : Int) : Bytes :=
  utf8 "$" ++ Text.decimal n

variable (d : Arch.Dialect)

/-- The current cell. -/
def cell : Bytes :=
  utf8 "(" ++ utf8 d.pointer ++ utf8 ")"

/-- A system call with arguments. -/
def systemCall (number : Nat) (arguments : List Bytes) : List Line :=
  [instr2 "mov" (immediate number) (utf8 d.number)] ++
    (arguments.zip d.arguments).map (fun (a, r) => instr2 "mov" a (utf8 r)) ++
    [.instr (utf8 d.trap)]

/-- A count of changes to a cell, as far as a cell of 16 bits tells it. -/
def cellImmediate (count : Int64) : Bytes :=
  immediate (count &&& 0xffff).toInt

/-- The distance in bytes of a move over cells. -/
def moveImmediate (count : Int64) : Bytes :=
  immediate (2 * count).toInt

/-- The lines that come before the program. -/
def prologue : List Line :=
  [.instr (utf8 ".text"), .instr (utf8 ".globl _start"), .label (utf8 "_start"),
    .instr (utf8 d.push ++ utf8 " $0"), instr2 "mov" (utf8 d.stack) (utf8 d.pointer)]

/-- The lines that come after the program. -/
def epilogue : List Line :=
  systemCall d d.exitCall [utf8 "$0"]

/-- A forward move: the pointer moves, and zeros are pushed until the stack reaches it. -/
def moveForward (count : Int64) (loc : Location) : List Line :=
  let start := siteLabel loc .growStart
  let stop := siteLabel loc .growEnd
  [instr2 "sub" (moveImmediate count) (utf8 d.pointer), jump "jmp" stop, .label start,
    .instr (utf8 "pushw $0"), .label stop, instr2 "cmp" (utf8 d.pointer) (utf8 d.stack),
    jump "ja" start]

/-- One byte of input in the current cell, or -1 if there is none. -/
def readCell (loc : Location) : List Line :=
  let stop := siteLabel loc .readEnd
  [instr2 "movw" (utf8 "$0") (cell d)] ++
    systemCall d d.readCall [utf8 "$0", utf8 d.pointer, utf8 "$1"] ++
    [instr2 "cmp" (utf8 "$1") (utf8 d.number), jump "je" stop,
      instr2 "movw" (utf8 "$-1") (cell d), .label stop]

/-- The lines of a node that is no loop. -/
def operation? (kind : Kind) (count : Int64) (loc : Location) : Option (List Line) :=
  match kind with
  | .increment => some [instr2 "addw" (cellImmediate count) (cell d)]
  | .decrement => some [instr2 "subw" (cellImmediate count) (cell d)]
  | .moveBackward => some [instr2 "add" (moveImmediate count) (utf8 d.pointer)]
  | .moveForward => some (moveForward d count loc)
  | .write => some (systemCall d d.writeCall [utf8 "$1", utf8 d.pointer, utf8 "$1"])
  | .read => some (readCell d loc)
  | .loop | .unknown _ => none

/-- The lines before the body of a loop. -/
def loopHead (loc : Location) : List Line :=
  [jump "jmp" (siteLabel loc .loopEnd), .label (siteLabel loc .loopStart)]

/-- The lines after the body of a loop. -/
def loopFoot (loc : Location) : List Line :=
  [.label (siteLabel loc .loopEnd), instr2 "cmpw" (utf8 "$0") (cell d),
    jump "jne" (siteLabel loc .loopStart)]

/-! ## Walking the tree -/

/-- A loop whose body is being written. -/
structure OpenLoop where
  loc : Location
  /-- The nodes that come after the loop. -/
  after : List Node
  deriving Repr

/-- A node that no code can be generated for. -/
structure Unknown where
  loc : Location
  kind : Kind
  deriving DecidableEq, Repr

/-- What is said of such a node. -/
def Unknown.message (u : Unknown) : Bytes :=
  u.loc.text ++ utf8 ": cannot generate code for " ++ utf8 u.kind.name

/-- Walks nodes that stand inside open loops, innermost first. `acc` holds the lines so far, last
first. The walk ends at the first node without code. -/
def walk (nodes : List Node) (loops : List OpenLoop) (acc : List Line) :
    List Line × Option Unknown :=
  match nodes, loops with
  | [], [] => (acc.reverse, none)
  | [], ⟨loc, after⟩ :: loops => walk after loops ((loopFoot d loc).reverse ++ acc)
  | ⟨.loop, _, children, loc⟩ :: rest, loops =>
    walk children (⟨loc, rest⟩ :: loops) ((loopHead loc).reverse ++ acc)
  | ⟨kind, count, _, loc⟩ :: rest, loops =>
    match operation? d kind count loc with
    | some lines => walk rest loops (lines.reverse ++ acc)
    | none => (acc.reverse, some ⟨loc, kind⟩)
termination_by sizeOf nodes + sizeOf loops
decreasing_by
  all_goals simp_wf
  all_goals omega

/-- The lines of a program, up to the first node without code. -/
def lines (nodes : List Node) : List Line × Option Unknown :=
  match walk d nodes [] (prologue d).reverse with
  | (body, none) => (body ++ epilogue d, none)
  | (body, some u) => (body, some u)

end Assembly

/-- The listing of a program, written line by line. -/
def Arch.listing (arch : Arch) (nodes : List Node) : Emission Assembly.Unknown :=
  let (lines, unknown) := Assembly.lines arch.dialect nodes
  { chunks := lines.map Assembly.Line.render, failure := unknown }

end TapeLang
