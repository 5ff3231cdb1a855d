import TapeLang.Text.Bytes

/-!
# Kinds of operations

The tape language has seven kinds of operations. Four of them, the moves and the changes of a
cell, coalesce: a run of one of them is a single counted operation. Trees that come from outside
may hold codes that name no kind.

* `Kind`: the seven kinds, and the codes that name none.
* `Kind.ofByte?`: the kind of an instruction byte.
* `Kind.byte`: the instruction byte of a kind.
-/

namespace TapeLang

/-- What an operation of the tape language does. -/
inductive Kind where
  | increment
  | decrement
  | moveForward
  | moveBackward
  | write
  | read
  | loop
  /-- A code that names no operation. -/
  | unknown (code : UInt8)
  deriving DecidableEq, Repr

namespace Kind

/-- The seven kinds in the order of their codes. -/
def known : List Kind :=
  [.increment, .decrement, .moveForward, .moveBackward, .write, .read, .loop]

/-- The numeric code of a kind. -/
def code : Kind → UInt8
  | .increment => 1
  | .decrement => 2
  | .moveForward => 3
  | .moveBackward => 4
  | .write => 5
  | .read => 6
  | .loop => 7
  | .unknown code => code

/-- The kind of a numeric code. -/
def ofCode (code : UInt8) : Kind :=
  (known.find? fun k => k.code = code).getD (.unknown code)

/-- The name of a kind. -/
def name : Kind → String
  | .increment => "Increment"
  | .decrement => "Decrement"
  | .moveForward => "MoveForward"
  | .moveBackward => "MoveBackward"
  | .write => "Write"
  | .read => "Read"
  | .loop => "Loop"
  | .unknown code => "Kind(" ++ toString code.toNat ++ ")"

/-- The kind with a name. -/
def ofName? (name : String) : Option Kind :=
  known.find? fun k => k.name = name

/-- The instruction byte of a kind; a loop has its opening bracket, an unknown code zero. -/
def byte : Kind → UInt8
  | .increment => Text.ascii '+'
  | .decrement => Text.ascii '-'
  | .moveForward => Text.ascii '>'
  | .moveBackward => Text.ascii '<'
  | .write => Text.ascii '.'
  | .read => Text.ascii ','
  | .loop => Text.ascii '['
  | .unknown _ => 0

/-- Whether a run of the kind is one counted operation. -/
def coalesces : Kind → Bool
  | .increment | .decrement | .moveForward | .moveBackward => true
  | _ => false

/-- The kind of a single-byte operation. Brackets are structure, not operations. -/
def ofByte? (b : UInt8) : Option Kind :=
  [Kind.increment, .decrement, .moveForward, .moveBackward, .write, .read].find?
    fun k => k.byte = b

end Kind

end TapeLang
