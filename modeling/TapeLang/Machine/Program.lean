import TapeLang.Machine.Register

/-!
# Programs

A program is a list of instructions of the subset that the machine understands. Jumps name labels
while a listing is being read, and positions in the program once it is loaded.

* `Operand`, `Op`, `Instr`: instructions over a type of jump targets.
* `Program`: a loaded program.
-/

namespace TapeLang.Machine

/-- An operand. -/
inductive Operand (τ : Type) where
  | immediate (n : Int64)
  | register (r : Reg) (width : Width)
  /-- Memory at the address in a register. -/
  | memory (base : Reg)
  | label (target : τ)
  deriving DecidableEq, Repr

/-- The position that a jump to an operand goes to; only a label names one. -/
def Operand.target : Operand Nat → Nat
  | .label t => t
  | _ => 0

/-- The operations that compute with two operands and set the flags. -/
inductive Arith where
  | add
  | sub
  /-- Subtracts for the flags only. -/
  | cmp
  deriving DecidableEq, Repr

/-- When a jump is taken. -/
inductive Condition where
  | always
  | equal
  | notEqual
  | above
  | aboveOrEqual
  | below
  | belowOrEqual
  deriving DecidableEq, Repr

/-- An operation. The width is the one that the mnemonic gives, if it gives any. -/
inductive Op (τ : Type) where
  | push (width : Option Width) (source : Operand τ)
  | mov (width : Option Width) (source target : Operand τ)
  | arith (f : Arith) (width : Option Width) (source target : Operand τ)
  | jump (condition : Condition) (target : Operand τ)
  /-- Enters the kernel in 64-bit mode. -/
  | syscall
  /-- Enters the kernel in 32-bit mode, if the vector is the right one. -/
  | interrupt (vector : Operand τ)
  deriving DecidableEq, Repr

/-- An operation with the line and the text it stands in. -/
structure Instr (τ : Type) where
  op : Op τ
  line : Nat
  text : Bytes
  deriving DecidableEq, Repr

/-- A loaded program. -/
structure Program where
  arch : Arch
  code : Array (Instr Nat)
  /-- Where the program starts. -/
  entry : Nat
  deriving Repr

/-! ## Resolving labels -/

/-- Replaces the labels of an operand, or gives the first that cannot be replaced. -/
def Operand.resolve {τ ρ : Type} (f : τ → Option ρ) : Operand τ → Except τ (Operand ρ)
  | .immediate n => .ok (.immediate n)
  | .register r w => .ok (.register r w)
  | .memory r => .ok (.memory r)
  | .label t =>
    match f t with
    | some t => .ok (.label t)
    | none => .error t

/-- Replaces the labels of an operation, or gives the first that cannot be replaced. -/
def Op.resolve {τ ρ : Type} (f : τ → Option ρ) : Op τ → Except τ (Op ρ)
  | .push w source => return .push w (← source.resolve f)
  | .mov w source target => return .mov w (← source.resolve f) (← target.resolve f)
  | .arith a w source target => return .arith a w (← source.resolve f) (← target.resolve f)
  | .jump c target => return .jump c (← target.resolve f)
  | .syscall => return .syscall
  | .interrupt vector => return .interrupt (← vector.resolve f)

end TapeLang.Machine
