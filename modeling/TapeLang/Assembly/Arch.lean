import TapeLang.Text.Quoted

/-!
# Architectures

Code can be generated for two architectures. They differ in their registers, in the instruction
that enters the kernel, in the numbers of the system calls and in the flags of the tools.

* `Arch`: the two architectures.
* `Arch.ofName?`: an architecture by one of its names.
* `Arch.dialect`: all that differs in the generated text.
* `ArchChoice`: an architecture chosen by number, which need not exist.
-/

namespace TapeLang

/-- The architectures that code can be generated for. -/
inductive Arch where
  /-- 64-bit words, entered by `syscall`. -/
  | amd64
  /-- 32-bit words, entered by an interrupt. -/
  | x86
  deriving DecidableEq, Repr

/-- A character with its case forgotten, as far as names of architectures and formats go. -/
def Text.lowerChar (c : Char) : Char :=
  if c = '\u0130' then 'i'
  else if c = '\u212a' then 'k'
  else c.toLower

/-- Whether a text is one of some lower-case names, in any case. -/
def Text.namedBy (names : List String) (text : Bytes) : Bool :=
  names.contains (String.ofList ((decodeLossy text).map lowerChar))

namespace Arch

/-- The name of an architecture. -/
def name : Arch → String
  | .amd64 => "amd64"
  | .x86 => "x86"

/-- The width of a machine word. -/
def bits : Arch → Nat
  | .amd64 => 64
  | .x86 => 32

/-- The names an architecture is known by, in lower case. -/
def names : Arch → List String
  | .amd64 => ["amd64", "x86_64", "x86-64", "x64"]
  | .x86 => ["x86", "i386", "386"]

/-- What is said of a name that no architecture has. -/
def unknownName (text : Bytes) : Bytes :=
  utf8 "unsupported architecture " ++ Text.quoted text ++ utf8 " (want x86 or amd64)"

/-- The architecture with a name. -/
def ofName? (text : Bytes) : Option Arch :=
  if Text.namedBy x86.names text then some .x86
  else if Text.namedBy amd64.names text then some .amd64
  else none

/-- The parts of the generated text that depend on the architecture. -/
structure Dialect where
  /-- The register that holds the tape pointer. -/
  pointer : String
  /-- The machine's stack pointer. -/
  stack : String
  /-- The instruction that pushes a whole word. -/
  push : String
  /-- The instruction that enters the kernel. -/
  trap : String
  /-- The register with the number of a system call and then its result. -/
  number : String
  /-- The registers with the arguments of a system call. -/
  arguments : List String
  readCall : Nat
  writeCall : Nat
  exitCall : Nat
  /-- The flag that tells the assembler the width. -/
  assemblerFlag : String
  /-- The name of the format for the linker. -/
  linkerFormat : String
  deriving Repr

/-- The dialect of an architecture. -/
def dialect : Arch → Dialect
  | .amd64 =>
    { pointer := "%rbx", stack := "%rsp", push := "pushq", trap := "syscall", number := "%rax"
      arguments := ["%rdi", "%rsi", "%rdx"], readCall := 0, writeCall := 1, exitCall := 60
      assemblerFlag := "--64", linkerFormat := "elf_x86_64" }
  | .x86 =>
    { pointer := "%esi", stack := "%esp", push := "pushl", trap := "int $0x80", number := "%eax"
      arguments := ["%ebx", "%ecx", "%edx"], readCall := 3, writeCall := 4, exitCall := 1
      assemblerFlag := "--32", linkerFormat := "elf_i386" }

end Arch

/-- An architecture chosen by number. -/
inductive ArchChoice where
  | known (arch : Arch)
  /-- A number that no architecture has. -/
  | unknown (id : Int64)
  deriving DecidableEq, Repr

namespace ArchChoice

/-- The architecture with a number. -/
def ofId (id : Int64) : ArchChoice :=
  if id = 0 then .known .amd64 else if id = 1 then .known .x86 else .unknown id

/-- The number of a choice. -/
def id : ArchChoice → Int64
  | .known .amd64 => 0
  | .known .x86 => 1
  | .unknown id => id

/-- The name of a choice. -/
def name : ArchChoice → String
  | .known arch => arch.name
  | .unknown id => "Mode(" ++ toString id.toInt ++ ")"

/-- The word width of a choice; it is 64 unless the architecture says otherwise. -/
def bits : ArchChoice → Nat
  | .known arch => arch.bits
  | .unknown _ => 64

/-- What is said of a choice that cannot be generated for. -/
def unsupported (choice : ArchChoice) : Bytes :=
  utf8 "unsupported architecture " ++ utf8 choice.name

end ArchChoice

end TapeLang
