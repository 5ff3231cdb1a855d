import TapeLang.Build.Tool
import TapeLang.Output.Emission

/-!
# The toolchain

A listing is written to a file, or handed to an assembler whose object file is then linked. The
listing goes through a buffer, so a listing that breaks off may arrive in part.

* `Toolchain.assemble`, `Toolchain.link`, `Toolchain.build`: the steps to an executable.
* `writeListing`: a listing as a file.
-/

namespace TapeLang

/-- The parts of a toolchain. -/
inductive ToolRole where
  | assembler
  | linker
  deriving DecidableEq, Repr

namespace ToolRole

/-- The name of a part in messages. -/
def name : ToolRole → String
  | .assembler => "assembler"
  | .linker => "linker"

/-- The program that plays a part if no other is named. -/
def defaultProgram : ToolRole → Bytes
  | .assembler => utf8 "as"
  | .linker => utf8 "ld"

end ToolRole

/-- The tools of a build and the flags they always get. An empty name means the usual program. -/
structure Toolchain where
  assembler : Bytes := []
  linker : Bytes := []
  assemblerFlags : List Bytes := []
  linkerFlags : List Bytes := []
  deriving DecidableEq, Repr

/-- The program of a toolchain that plays a part. -/
def Toolchain.program (t : Toolchain) (role : ToolRole) : Bytes :=
  let name := match role with
    | .assembler => t.assembler
    | .linker => t.linker
  if name.isEmpty then role.defaultProgram else name

/-- A tool that did not succeed, with its status; a negative one means that it had none. -/
structure ToolFailure where
  tool : String
  code : Int
  deriving DecidableEq, Repr

/-- The text of a tool's failure. -/
def ToolFailure.message (f : ToolFailure) : Bytes :=
  if f.code < 0 then utf8 f.tool ++ utf8 " exited abnormally"
  else utf8 f.tool ++ utf8 " returned status " ++ Text.decimal f.code

/-- The ways for a build to fail. -/
inductive BuildError (ε : Type) where
  | start (role : ToolRole) (error : StartError)
  | tool (failure : ToolFailure)
  /-- The listing broke off, but the assembler was content. -/
  | feeding (fault : EmitFault ε)
  | creating (error : FileError)
  | writing (path : Bytes) (fault : EmitFault ε)
  deriving DecidableEq, Repr

/-- The text of a build error. -/
def BuildError.message {ε : Type} (describe : ε → Bytes) : BuildError ε → Bytes
  | .start role error => utf8 ("starting " ++ role.name ++ ": ") ++ error.message
  | .tool failure => failure.message
  | .feeding fault => utf8 "feeding assembler: " ++ fault.message describe
  | .creating error => utf8 "creating output: " ++ error.message
  | .writing path fault => utf8 "writing " ++ path ++ utf8 ": " ++ fault.message describe

/-- A step of a build. What it has done stays done if it fails. -/
abbrev Build (ε α : Type) := ExceptT (BuildError ε) (StateM Session) α

/-- The file with the object that an executable is linked from. -/
def objectPath (output : Bytes) : Bytes :=
  output ++ utf8 ".o"

namespace Toolchain

variable {ε : Type}

/-- Starts the tool of a part and notes its command line. -/
def launch (t : Toolchain) (role : ToolRole) (arguments : List Bytes) : Build ε Tool := do
  let name := t.program role
  let line := Text.joinWith (utf8 " ") (name :: arguments)
  modify fun s => s.write .trace (utf8 "+ " ++ line ++ utf8 "\n")
  match (← get).start name with
  | .ok tool => return tool
  | .error e => throw (.start role e)

/-- Runs the tool of a part, which must succeed. -/
def run (role : ToolRole) (tool : Tool) (arguments : List Bytes) (input : Bytes) :
    Build ε Unit := do
  match ← modifyGet fun s => s.runTool tool arguments input with
  | .exited 0 => return
  | .exited status => throw (.tool ⟨role.name, status⟩)
  | .killed => throw (.tool ⟨role.name, -1⟩)

/-- Assembles a listing into an object file. A failure of the assembler says more than one of the
listing. -/
def assemble (t : Toolchain) (object : Bytes) (flags : List Bytes) (listing : Emission ε) :
    Build ε Nat := do
  let arguments := flags ++ t.assemblerFlags ++ [utf8 "-o", object]
  let tool ← t.launch .assembler arguments
  let sent := listing.sendBuffered Sink.writer {}
  run .assembler tool arguments sent.state.contents
  match sent.fault with
  | some fault => throw (.feeding fault)
  | none => return sent.count

/-- Links an object file into an executable. -/
def link (t : Toolchain) (object output : Bytes) (flags : List Bytes) : Build ε Unit := do
  let arguments := flags ++ t.linkerFlags ++ [utf8 "-o", output, object]
  let tool ← t.launch .linker arguments
  run .linker tool arguments []

/-- Assembles and links a listing. The object file stays. -/
def build (t : Toolchain) (output : Bytes) (assemblerFlags linkerFlags : List Bytes)
    (listing : Emission ε) : Build ε Nat := do
  let count ← t.assemble (objectPath output) assemblerFlags listing
  t.link (objectPath output) output linkerFlags
  return count

end Toolchain

/-- Writes a listing to a file, whose old content is lost even if the listing breaks off. -/
def writeListing {ε : Type} (path : Bytes) (listing : Emission ε) : Build ε Nat := do
  let sent := listing.sendBuffered Sink.writer {}
  match (← get).workspace.write path sent.state.contents with
  | .error e => throw (.creating e)
  | .ok workspace =>
    modify fun s => { s with workspace }
    match sent.fault with
    | some fault => throw (.writing path fault)
    | none => return sent.count

end TapeLang
