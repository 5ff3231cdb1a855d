import TapeLang.Machine.State

/-!
# Execution

One instruction is executed at a time. A failing instruction keeps the effects it had before it
failed. A run counts the instructions it has completed and gives up at its limit.

* `step`: executes one instruction.
* `run`: executes from the start of a program.
-/

namespace TapeLang.Machine

/-- What comes after an instruction. -/
inductive Next where
  /-- The instruction at a position. -/
  | goto (position : Nat)
  | exit (code : Nat)
  | fail (e : RunError)
  deriving DecidableEq, Repr

/-! ## Jumps -/

/-- Whether a jump is taken. -/
@[inline]
def Condition.holds (zero carry : Bool) : Condition → Bool
  | .always => true
  | .equal => zero
  | .notEqual => !zero
  | .above => !carry && !zero
  | .aboveOrEqual => !carry
  | .below => carry
  | .belowOrEqual => carry || zero

/-! ## System calls -/

/-- The system calls of an architecture: their numbers and the registers of the arguments. -/
structure CallTable where
  exit : UInt64
  read : UInt64
  write : UInt64
  arguments : Reg × Reg × Reg
  deriving Repr

/-- The system calls of an architecture. -/
def callTable : Arch → CallTable
  | .amd64 => { exit := 60, read := 0, write := 1, arguments := (.di, .si, .dx) }
  | .x86 => { exit := 1, read := 3, write := 4, arguments := (.bx, .cx, .dx) }

/-- The result of a call on a stream that is not there. -/
def badFile : Int64 := -9

/-- The result of a call on a stream that fails. -/
def ioFailure : Int64 := -5

/-- Reads from the input into memory that is mapped. -/
def readInput (s : State) (a : UInt64) (count : Nat) : Int64 × State :=
  match s.input with
  | none => (0, s)
  | some input =>
    if count = 0 then (0, s)
    else
      match Input.readChunks count input.chunks with
      | some (data, chunks) =>
        (Int64.ofNat data.length,
          { s with memory := s.memory.write a data, input := some { input with chunks } })
      | none =>
        (if input.failing then ioFailure else 0,
          { s with input := some { input with chunks := [] } })

/-- The call that reads. -/
def callRead (s : State) (i : Instr Nat) (file a : UInt64) (count : Int64) :
    Except RunError Int64 × State :=
  if file ≠ 0 ∨ count < 0 then (.ok badFile, s)
  else
    match s.check i a count with
    | .error e => (.error e, s)
    | .ok _ =>
      let (result, s) := readInput s a count.toInt.toNat
      (.ok result, s)

/-- Offers bytes to a stream; without one they are lost. -/
def offer (sink : Option Sink) (data : Bytes) (count : Int64) : Int64 × Option Sink :=
  match sink with
  | none => (count, none)
  | some sink =>
    match sink.write data with
    | .complete sink => (count, some sink)
    | .failed _ _ sink => (ioFailure, some sink)

/-- Writes to the output. -/
def writeOutput (s : State) (data : Bytes) (count : Int64) : Int64 × State :=
  let (result, output) := offer s.output data count
  (result, { s with output })

/-- Writes to the error output. -/
def writeErrors (s : State) (data : Bytes) (count : Int64) : Int64 × State :=
  let (result, errors) := offer s.errors data count
  (result, { s with errors })

/-- The call that writes. -/
def callWrite (s : State) (i : Instr Nat) (file a : UInt64) (count : Int64) :
    Except RunError Int64 × State :=
  if file ≠ 1 ∧ file ≠ 2 then (.ok badFile, s)
  else
    match s.check i a count with
    | .error e => (.error e, s)
    | .ok _ =>
      let data := s.memory.slice a count.toInt.toNat
      let (result, s) := if file = 1 then writeOutput s data count else writeErrors s data count
      (.ok result, s)

/-- Puts the result of a call into the accumulator and goes on. -/
def afterCall (arch : Arch) (position : Nat) : Except RunError Int64 × State → State × Next
  | (.error e, s) => (s, .fail e)
  | (.ok result, s) =>
    ({ s with registers := s.registers.set .ax (wordWidth arch) result.toUInt64 },
      .goto (position + 1))

/-- A system call. -/
def systemCall (s : State) (arch : Arch) (i : Instr Nat) (position : Nat) : State × Next :=
  let table := callTable arch
  let word := (wordWidth arch).mask
  let number := word s.registers.ax
  let argument := fun r => word (s.registers.get r)
  let (r₀, r₁, r₂) := table.arguments
  if number = table.exit then (s, .exit (argument r₀ &&& 0xff).toNat)
  else if number = table.read then
    afterCall arch position (callRead s i (argument r₀) (argument r₁) (argument r₂).toInt64)
  else if number = table.write then
    afterCall arch position (callWrite s i (argument r₀) (argument r₁) (argument r₂).toInt64)
  else (s, .fail (.unsupportedCall i.line number.toInt64))

/-! ## Instructions -/

/-- The width of an instruction with two operands: its own, or that of its first register, or a
word. -/
@[inline]
def operandWidth (arch : Arch) (width : Option Width) (source target : Operand Nat) : Width :=
  match width, source, target with
  | some w, _, _ => w
  | none, .register _ w, _ => w
  | none, _, .register _ w => w
  | none, _, _ => wordWidth arch

/-- The result of an operation and its carry. -/
@[inline]
def Arith.apply (f : Arith) (w : Width) (target source : UInt64) : UInt64 × Bool :=
  match f with
  | .add =>
    let result := w.mask (target + source)
    (result, result < target)
  | .sub | .cmp => (w.mask (target - source), target < source)

/-- Executes a push. -/
@[inline]
def stepPush (s : State) (arch : Arch) (i : Instr Nat) (w : Width) (source : Operand Nat)
    (position : Nat) : State × Next :=
  match s.read arch i w source with
  | .error e => (s, .fail e)
  | .ok v =>
    let sp := (wordWidth arch).mask (s.registers.sp - UInt64.ofNat w.bytes)
    let s := { s with
      registers := { s.registers with sp }
      low := if sp < s.low then sp else s.low
      pushes := s.pushes + 1 }
    match s.check i sp (Int64.ofNat w.bytes) with
    | .error e => (s, .fail e)
    | .ok _ => ({ s with memory := s.memory.store sp w.bytes v }, .goto (position + 1))

/-- Executes a move. -/
@[inline]
def stepMov (s : State) (arch : Arch) (i : Instr Nat) (w : Width) (source target : Operand Nat)
    (position : Nat) : State × Next :=
  match s.read arch i w source with
  | .error e => (s, .fail e)
  | .ok v =>
    match s.checkWrite arch i w target with
    | .error e => (s, .fail e)
    | .ok _ => (s.write arch w target v, .goto (position + 1))

/-- Executes an operation that sets the flags. -/
@[inline]
def stepArith (s : State) (arch : Arch) (i : Instr Nat) (f : Arith) (w : Width)
    (source target : Operand Nat) (position : Nat) : State × Next :=
  match s.read arch i w source with
  | .error e => (s, .fail e)
  | .ok v =>
    match s.read arch i w target with
    | .error e => (s, .fail e)
    | .ok u =>
      let (result, carry) := f.apply w u v
      let s := { s with carry, zero := result = 0 }
      if f = .cmp then (s, .goto (position + 1))
      else
        match s.checkWrite arch i w target with
        | .error e => (s, .fail e)
        | .ok _ => (s.write arch w target result, .goto (position + 1))

/-- Executes the instruction at a position. -/
@[inline]
def step (arch : Arch) (s : State) (i : Instr Nat) (position : Nat) : State × Next :=
  match i.op with
  | .push width source => stepPush s arch i (width.getD (wordWidth arch)) source position
  | .mov width source target =>
    stepMov s arch i (operandWidth arch width source target) source target position
  | .arith f width source target =>
    stepArith s arch i f (operandWidth arch width source target) source target position
  | .jump condition target =>
    (s, .goto (if condition.holds s.zero s.carry then target.target else position + 1))
  | .syscall =>
    match arch with
    | .amd64 => systemCall s arch i position
    | .x86 => (s, .fail (.wrongMode i.line))
  | .interrupt vector =>
    if vector = .immediate 0x80 ∧ arch = .x86 then systemCall s arch i position
    else (s, .fail (.unsupportedInterrupt i.line i.text))

/-! ## Runs -/

/-- What came of a run. -/
structure Result where
  /-- The exit code, or the error that ended the run. -/
  outcome : Except RunError Nat
  /-- How many instructions were completed. -/
  steps : Nat

/-- The steps after which a run ends when no limit is given. -/
def defaultLimit : Nat := 50000000

/-- How often a run looks whether it has been cancelled. -/
def pollInterval : Nat := 0x10000

/-- Runs on from a position until the budget is used up. `cancelled` tells whether the run finds
itself cancelled when it looks after so many steps. -/
def runFrom (p : Program) (cancelled : Nat → Bool) :
    (budget steps position : Nat) → State → Result × State
  | 0, steps, _, s => (⟨.error .stepLimit, steps⟩, s)
  | budget + 1, steps, position, s =>
    if steps % pollInterval = 0 && cancelled steps then (⟨.error .cancelled, steps⟩, s)
    else if h : position < p.code.size then
      match step p.arch s p.code[position] position with
      | (s, .goto position) => runFrom p cancelled budget (steps + 1) position s
      | (s, .exit code) => (⟨.ok code, steps + 1⟩, s)
      | (s, .fail e) => (⟨.error e, steps⟩, s)
    else (⟨.error .pastEnd, steps⟩, s)

/-- The number of steps a limit allows; without a positive limit it is the usual one. -/
def stepBudget (limit : Int64) : Nat :=
  if limit ≤ 0 then defaultLimit else limit.toInt.toNat

/-- Runs a program from its start. -/
def run (p : Program) (cancelled : Nat → Bool) (limit : Int64) (s : State) : Result × State :=
  runFrom p cancelled (stepBudget limit) 0 p.entry s

/-- How far the stack has grown below its top. -/
def State.stackBytes (s : State) : UInt64 :=
  stackTop - s.low

end TapeLang.Machine
