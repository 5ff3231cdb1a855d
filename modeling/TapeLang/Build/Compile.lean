import TapeLang.Assembly.Listing
import TapeLang.Build.Format
import TapeLang.Build.Toolchain
import TapeLang.Parse

/-!
# Compilation

A source is parsed and written as a listing or as an executable.

* `Target`: what is to be made.
* `Target.generate`: writes a program.
* `Target.compile`, `Target.compileFile`: compile a source.
-/

namespace TapeLang

/-- What a compilation is to make. -/
structure Target where
  arch : ArchChoice := .known .amd64
  format : FormatChoice := .known .elf
  output : Bytes := utf8 "a.out"
  tools : Toolchain := {}
  deriving DecidableEq, Repr

/-- The ways for a compilation to fail. -/
inductive CompileError where
  | unreadable (path : String) (error : FileError)
  | brackets (errors : List BracketError)
  | unknownArch (choice : ArchChoice)
  | unknownFormat (choice : FormatChoice)
  | build (error : BuildError Assembly.Unknown)
  deriving Repr

/-- What is said of a source that cannot be read. -/
def unreadableSource (path : String) (error : FileError) : Bytes :=
  utf8 ("reading source " ++ path ++ ": ") ++ error.message

/-- The text of a compile error. -/
def CompileError.message : CompileError → Bytes
  | .unreadable path error => unreadableSource path error
  | .brackets errors => BracketError.textAll errors
  | .unknownArch choice => choice.unsupported
  | .unknownFormat choice => choice.unsupported
  | .build error => error.message Assembly.Unknown.message

/-- A compilation in a session. -/
abbrev Compilation (α : Type) := ExceptT CompileError (StateM Session) α

/-- A step of a build as part of a compilation. -/
def Compilation.ofBuild {α : Type} (b : Build Assembly.Unknown α) : Compilation α :=
  b.adapt CompileError.build

namespace Target

/-- Writes a program, and counts the bytes of its listing. -/
def generate (t : Target) (nodes : List Node) : Compilation Nat :=
  match t.arch with
  | .unknown _ => throw (.unknownArch t.arch)
  | .known arch =>
    let listing := arch.listing nodes
    match t.format with
    | .known .asm => .ofBuild (writeListing t.output listing)
    | .known .elf =>
      .ofBuild (t.tools.build t.output [utf8 arch.dialect.assemblerFlag]
        [utf8 "-m", utf8 arch.dialect.linkerFormat] listing)
    | .unknown _ => throw (.unknownFormat t.format)

/-- Compiles a source. -/
def compile (t : Target) (file source : Bytes) : Compilation Nat :=
  match parse file source with
  | .ok nodes => t.generate nodes
  | .error errors => throw (.brackets errors)

/-- Compiles a file. -/
def compileFile (t : Target) (path : String) : Compilation Nat := do
  match (← get).workspace.read (utf8 path) with
  | .ok source => t.compile (utf8 path) source
  | .error e => throw (.unreadable path e)

end Target

end TapeLang
