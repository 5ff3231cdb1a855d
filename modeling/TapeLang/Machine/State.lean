import TapeLang.Machine.Memory
import TapeLang.Machine.Program
import TapeLang.Output.Writer

/-!
# Machine states

Only the part of the stack between its top and the lowest stack pointer reached so far is mapped.
An access outside it is a fault.

* `Input`: what can still be read.
* `State`: registers, flags, memory, counters and streams.
* `RunError`: the ways for a run to fail.
* `State.check`: whether an access is allowed.
-/

namespace TapeLang.Machine

/-- An input stream: the chunks that reads will see, and whether it ends in a failure. -/
structure Input where
  chunks : List Bytes := []
  failing : Bool := false
  deriving DecidableEq, Repr

/-- The first bytes of the input, at most `count` and from one chunk only, and the chunks after
them. Empty chunks are passed over. -/
def Input.readChunks (count : Nat) : List Bytes → Option (Bytes × List Bytes)
  | [] => none
  | [] :: rest => readChunks count rest
  | chunk :: rest =>
    let left := chunk.drop count
    some (chunk.take count, if left.isEmpty then rest else left :: rest)

/-- The state of a machine. -/
structure State where
  registers : Registers := { sp := stackTop }
  /-- The zero flag. -/
  zero : Bool := false
  /-- The carry flag. -/
  carry : Bool := false
  memory : Memory := {}
  /-- The lowest mapped address. -/
  low : UInt64 := stackTop
  /-- How many words were pushed. -/
  pushes : Nat := 0
  input : Option Input := none
  output : Option Sink := none
  errors : Option Sink := none

/-- An access to memory that is not mapped. -/
structure Fault where
  line : Nat
  instr : Bytes
  address : UInt64
  size : Int64
  deriving DecidableEq, Repr

/-- The ways for a run to fail. -/
inductive RunError where
  | fault (f : Fault)
  | stepLimit
  | cancelled
  /-- There is no instruction at this position. -/
  | pastEnd
  | unreadable (line : Nat) (instr : Bytes)
  | unwritable (line : Nat) (instr : Bytes)
  /-- A 64-bit system call in 32-bit mode. -/
  | wrongMode (line : Nat)
  | unsupportedInterrupt (line : Nat) (instr : Bytes)
  | unsupportedCall (line : Nat) (number : Int64)
  deriving DecidableEq, Repr

/-- A message about a line. -/
def atLine (line : Nat) (text : Bytes) : Bytes :=
  utf8 "line " ++ Text.decimal line ++ utf8 ": " ++ text

/-- The text of an error. -/
def RunError.message : RunError → Bytes
  | .fault f =>
    atLine f.line (utf8 "segmentation fault accessing " ++ Text.decimal f.size.toInt ++
      utf8 " byte(s) at " ++ Text.hexadecimal f.address.toNat ++ utf8 " (" ++ f.instr ++ utf8 ")")
  | .stepLimit => utf8 "step limit exceeded"
  | .cancelled => utf8 "context canceled"
  | .pastEnd => utf8 "execution ran past the last instruction"
  | .unreadable line instr => atLine line (utf8 "operand cannot be read (" ++ instr ++ utf8 ")")
  | .unwritable line instr =>
    atLine line (utf8 "operand cannot be written (" ++ instr ++ utf8 ")")
  | .wrongMode line => atLine line (utf8 "syscall used in 32-bit mode")
  | .unsupportedInterrupt line instr => atLine line (utf8 "unsupported interrupt " ++ instr)
  | .unsupportedCall line number =>
    atLine line (utf8 "unsupported system call " ++ Text.decimal number.toInt)

namespace State

/-- Whether the bytes from an address on are mapped. -/
@[inline]
def mapped (s : State) (address size : UInt64) : Bool :=
  !(address < s.low || stackTop < address + size || address + size < address)

/-- Fails unless the bytes from an address on are mapped. -/
@[inline]
def check (s : State) (i : Instr Nat) (address : UInt64) (size : Int64) : Except RunError Unit :=
  if s.mapped address size.toUInt64 then .ok ()
  else .error (.fault { line := i.line, instr := i.text, address, size })

/-- The address in a register. -/
@[inline]
def address (s : State) (arch : Arch) (base : Reg) : UInt64 :=
  (wordWidth arch).mask (s.registers.get base)

/-- The value of an operand at a width. -/
@[inline]
def read (s : State) (arch : Arch) (i : Instr Nat) (w : Width) :
    Operand Nat → Except RunError UInt64
  | .immediate n => .ok (w.mask n.toUInt64)
  | .register r _ => .ok (w.mask (s.registers.get r))
  | .memory base => do
    let a := s.address arch base
    s.check i a (Int64.ofNat w.bytes)
    return s.memory.load a w.bytes
  | .label _ => .error (.unreadable i.line i.text)

/-- Fails unless a number can be written to an operand at a width. -/
@[inline]
def checkWrite (s : State) (arch : Arch) (i : Instr Nat) (w : Width) :
    Operand Nat → Except RunError Unit
  | .register _ _ => .ok ()
  | .memory base => s.check i (s.address arch base) (Int64.ofNat w.bytes)
  | .immediate _ | .label _ => .error (.unwritable i.line i.text)

/-- Writes a number to an operand that can be written to. -/
@[inline]
def write (s : State) (arch : Arch) (w : Width) (target : Operand Nat) (v : UInt64) : State :=
  match target with
  | .register r _ => { s with registers := s.registers.set r w v }
  | .memory base =>
    let a := s.address arch base
    { s with memory := s.memory.store a w.bytes v }
  | .immediate _ | .label _ => s

end State

end TapeLang.Machine
