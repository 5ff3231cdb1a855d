import Std.Data.HashMap
import TapeLang.Machine.Program
import TapeLang.Text.Blank
import TapeLang.Text.Integer

/-!
# Loading listings

A listing is read line by line: comments are cut off, and what is left is empty, a label, a
directive or an instruction. The first line that makes no sense ends the reading. At the end there
has to be a `_start` label, and every label that an operand names has to exist.

* `LoadError`: what can be wrong with a listing.
* `load`: the program of a listing.
-/

namespace TapeLang.Machine

/-- What can be wrong with a line. -/
inductive LineError where
  | invalidLabel (name : Bytes)
  | duplicateLabel (name : Bytes)
  /-- A directive that takes one symbol has another number of them. -/
  | directiveArity (directive : Bytes)
  | unsupportedDirective (directive : Bytes)
  | unsupportedInstr (mnemonic : Bytes)
  /-- An instruction on 64 bits in 32-bit mode. -/
  | unavailableInstr (mnemonic : Bytes)
  | arity (mnemonic : Bytes) (wanted got : Nat)
  | invalidImmediate (operand : Bytes)
  | unknownRegister (name : Bytes)
  | unavailableRegister (name : Bytes) (arch : Arch)
  | invalidMemory (operand : Bytes)
  /-- An address register that is not as wide as a word. -/
  | addressWidth (name : Bytes) (arch : Arch)
  | invalidOperand (operand : Bytes)
  deriving DecidableEq, Repr

/-- What can be wrong with a listing. -/
inductive LoadError where
  | unsupportedWidth (bits : Int64)
  | badLine (number : Nat) (error : LineError)
  /-- A line is too long to be read. -/
  | lineTooLong
  | noStart
  | undefinedLabel (line : Nat) (name : Bytes)
  deriving DecidableEq, Repr

/-- The text of an error in a line. -/
def LineError.message : LineError → Bytes
  | .invalidLabel name => utf8 "invalid label " ++ Text.quoted name
  | .duplicateLabel name => utf8 "duplicate label " ++ Text.quoted name
  | .directiveArity directive => directive ++ utf8 " takes one symbol"
  | .unsupportedDirective directive => utf8 "unsupported directive " ++ directive
  | .unsupportedInstr mnemonic => utf8 "unsupported instruction " ++ Text.quoted mnemonic
  | .unavailableInstr mnemonic => mnemonic ++ utf8 " is not available in 32-bit mode"
  | .arity mnemonic wanted got =>
    mnemonic ++ utf8 " takes " ++ Text.decimal wanted ++ utf8 " operand(s), got " ++
      Text.decimal got
  | .invalidImmediate operand => utf8 "invalid immediate " ++ Text.quoted operand
  | .unknownRegister name => utf8 "unknown register %" ++ name
  | .unavailableRegister name arch =>
    utf8 "register %" ++ name ++ utf8 " is not available in " ++ Text.decimal arch.bits ++
      utf8 "-bit mode"
  | .invalidMemory operand => utf8 "invalid memory operand " ++ Text.quoted operand
  | .addressWidth name arch =>
    utf8 "address register %" ++ name ++ utf8 " must be " ++ Text.decimal arch.bits ++
      utf8 "-bit"
  | .invalidOperand operand => utf8 "invalid operand " ++ Text.quoted operand

/-- The text of an error. -/
def LoadError.message : LoadError → Bytes
  | .unsupportedWidth bits => utf8 "unsupported word width " ++ Text.decimal bits.toInt
  | .badLine number error => utf8 "line " ++ Text.decimal number ++ utf8 ": " ++ error.message
  | .lineTooLong => utf8 "reading listing: bufio.Scanner: token too long"
  | .noStart => utf8 "no _start label"
  | .undefinedLabel line name =>
    utf8 "line " ++ Text.decimal line ++ utf8 ": undefined label " ++ Text.quoted name

/-! ## Operands -/

/-- Whether a byte may start a symbol. -/
def isSymbolStart (b : UInt8) : Bool :=
  b = Text.ascii '_' || b = Text.ascii '.' || (Text.ascii 'a' ≤ b && b ≤ Text.ascii 'z') ||
    (Text.ascii 'A' ≤ b && b ≤ Text.ascii 'Z')

/-- Whether a text is a symbol: letters, digits, `_` and `.`, no digit first. -/
def isSymbol : Bytes → Bool
  | [] => false
  | b :: rest =>
    isSymbolStart b &&
      rest.all fun b => isSymbolStart b || (Text.ascii '0' ≤ b && b ≤ Text.ascii '9')

/-- The register of a name that exists in a mode. -/
def register (arch : Arch) (name : Bytes) : Except LineError (Reg × Width) :=
  match Reg.ofName? name with
  | none => .error (.unknownRegister name)
  | some (r, w) =>
    if w = .quad ∧ arch = .x86 then .error (.unavailableRegister name arch) else .ok (r, w)

/-- The memory operand between two parentheses; `text` is the operand as a whole. -/
def memoryOperand (arch : Arch) (text inner : Bytes) : Except LineError (Operand Bytes) := do
  match inner with
  | [] => throw (.invalidMemory text)
  | mark :: name =>
    if mark ≠ Text.ascii '%' then throw (.invalidMemory text)
    let (r, w) ← register arch name
    if w ≠ wordWidth arch then throw (.addressWidth name arch)
    return .memory r

/-- Reads an operand. -/
def operand (arch : Arch) (text : Bytes) : Except LineError (Operand Bytes) :=
  let other := if isSymbol text then .ok (.label text) else .error (.invalidOperand text)
  match text with
  | [] => other
  | mark :: rest =>
    if mark = Text.ascii '$' then
      match Text.parseInt64 rest with
      | .ok n => .ok (.immediate n)
      | .error _ => .error (.invalidImmediate text)
    else if mark = Text.ascii '%' then
      (register arch rest).map fun (r, w) => .register r w
    else if mark = Text.ascii '(' ∧ rest.getLast? = some (Text.ascii ')') then
      memoryOperand arch text rest.dropLast
    else other

/-- Reads operands with commas between them. -/
def operands (arch : Arch) (text : Bytes) : Except LineError (List (Operand Bytes)) :=
  let text := Text.trim text
  if text.isEmpty then .ok []
  else (Text.splitAt (Text.ascii ',') text).mapM fun field => operand arch (Text.trim field)

/-! ## Instructions -/

/-- The jumps. -/
def jumps : List (String × Condition) :=
  [("jmp", .always), ("je", .equal), ("jne", .notEqual), ("ja", .above), ("jae", .aboveOrEqual),
    ("jb", .below), ("jbe", .belowOrEqual)]

/-- The operations that may carry a width. -/
inductive Sized where
  | push
  | mov
  | arith (f : Arith)
  deriving DecidableEq, Repr

/-- The operations that may carry a width, by name. -/
def sizedOps : List (String × Sized) :=
  [("push", .push), ("add", .arith .add), ("sub", .arith .sub), ("mov", .mov),
    ("cmp", .arith .cmp)]

/-- Finds a name in a table. -/
def lookupName {α : Type} (table : List (String × α)) (name : Bytes) : Option α :=
  (table.find? fun entry => utf8 entry.1 == name).map Prod.snd

/-- The operation of a mnemonic that may end in a width. -/
def sizedOp? (mnemonic : Bytes) : Option (Sized × Option Width) :=
  match lookupName sizedOps mnemonic with
  | some op => some (op, none)
  | none => do
    let width ← mnemonic.getLast?.bind Width.ofSuffix?
    let op ← lookupName sizedOps mnemonic.dropLast
    return (op, some width)

/-- Reads an operation from a mnemonic and the text after it. -/
def operation (arch : Arch) (mnemonic rest : Bytes) : Except LineError (Op Bytes) :=
  match lookupName jumps mnemonic with
  | some condition => do
    match ← operands arch rest with
    | [target] => return .jump condition target
    | args => throw (.arity mnemonic 1 args.length)
  | none =>
    if mnemonic = utf8 "syscall" then do
      match ← operands arch rest with
      | [] => return .syscall
      | args => throw (.arity mnemonic 0 args.length)
    else if mnemonic = utf8 "int" then do
      match ← operands arch rest with
      | [vector] => return .interrupt vector
      | args => throw (.arity mnemonic 1 args.length)
    else
      match sizedOp? mnemonic with
      | none => .error (.unsupportedInstr mnemonic)
      | some (op, width) => do
        if width = some .quad ∧ arch = .x86 then throw (.unavailableInstr mnemonic)
        let args ← operands arch rest
        match op, args with
        | .push, [source] => return .push width source
        | .push, args => throw (.arity mnemonic 1 args.length)
        | .mov, [source, target] => return .mov width source target
        | .arith f, [source, target] => return .arith f width source target
        | _, args => throw (.arity mnemonic 2 args.length)

/-- Accepts a directive that has no effect on the program. -/
def directive (line : Bytes) : Except LineError Unit :=
  match Text.fields line with
  | [] => .ok ()
  | name :: arguments =>
    if name = utf8 ".text" then .ok ()
    else if name = utf8 ".globl" ∨ name = utf8 ".global" then
      if arguments.length = 1 then .ok () else .error (.directiveArity name)
    else .error (.unsupportedDirective name)

/-! ## Listings -/

/-- The program as far as it is read. -/
structure Draft where
  code : Array (Instr Bytes) := #[]
  labels : Std.HashMap Bytes Nat := {}

/-- Adds a line, without its comment and the white space around it. -/
def Draft.addLine (d : Draft) (arch : Arch) (number : Nat) (line : Bytes) :
    Except LineError Draft :=
  match line with
  | [] => .ok d
  | mark :: _ =>
    if line.getLast? = some (Text.ascii ':') then
      let name := line.dropLast
      if !isSymbol name then .error (.invalidLabel name)
      else if d.labels.contains name then .error (.duplicateLabel name)
      else .ok { d with labels := d.labels.insert name d.code.size }
    else if mark = Text.ascii '.' then (directive line).map fun _ => d
    else
      let mnemonic := line.takeWhile (· ≠ Text.ascii ' ')
      (operation arch mnemonic (line.drop (mnemonic.length + 1))).map fun op =>
        { d with code := d.code.push { op, line := number, text := line } }

/-- The length that no line may reach. -/
def lineLimit : Nat := 1048576

/-- A line without its comment and without white space around it. -/
def bareLine (line : Bytes) : Bytes :=
  Text.trim (line.takeWhile (· ≠ Text.ascii '#'))

/-- Adds lines, numbered on from `number`. -/
def Draft.addLines (arch : Arch) : List Bytes → (number : Nat) → Draft → Except LoadError Draft
  | [], _, d => .ok d
  | line :: rest, number, d =>
    if lineLimit ≤ line.length then .error .lineTooLong
    else
      match d.addLine arch number (bareLine line) with
      | .ok d => addLines arch rest (number + 1) d
      | .error e => .error (.badLine number e)

/-- The lines of a listing; an empty one after the last newline does not count. -/
def listingLines (text : Bytes) : List Bytes :=
  let lines := Text.splitAt (Text.ascii '\n') text
  if lines.getLast? = some [] then lines.dropLast else lines

/-- Replaces the labels of the instructions by positions. -/
def resolveAll (labels : Std.HashMap Bytes Nat) (code : Array (Instr Bytes)) :
    Except LoadError (Array (Instr Nat)) :=
  code.mapM fun i =>
    match i.op.resolve labels.get? with
    | .ok op => .ok { op, line := i.line, text := i.text }
    | .error name => .error (.undefinedLabel i.line name)

/-- Loads a listing for an architecture. -/
def loadFor (arch : Arch) (text : Bytes) : Except LoadError Program := do
  let d ← Draft.addLines arch (listingLines text) 1 {}
  match d.labels.get? (utf8 "_start") with
  | none => throw .noStart
  | some entry => return { arch, code := ← resolveAll d.labels d.code, entry }

/-- The architecture with a word width. -/
def archOfBits? (bits : Int64) : Option Arch :=
  if bits = 32 then some .x86 else if bits = 64 then some .amd64 else none

/-- Loads a listing for a word width. -/
def load (text : Bytes) (bits : Int64) : Except LoadError Program :=
  match archOfBits? bits with
  | some arch => loadFor arch text
  | none => .error (.unsupportedWidth bits)

end TapeLang.Machine
