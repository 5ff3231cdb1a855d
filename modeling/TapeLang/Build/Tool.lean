import TapeLang.Shell.Script
import TapeLang.Text.Quoted

/-!
# Tools

The assembler and the linker are programs of their own. A name without a slash is looked for along
the search path, any other name is a path. A tool is a script of the workspace; it reads an input,
writes to two streams and ends with a status.

* `Session`: the workspace of a build and what was written during it.
* `Session.start`: finds a tool and makes sure that it can be run.
* `Session.runTool`: runs a tool.
-/

namespace TapeLang

/-- What is written during a build. -/
inductive Stream where
  /-- The output of the tools. -/
  | output
  /-- The error output of the tools. -/
  | errors
  /-- The command lines of the tools. -/
  | trace
  deriving DecidableEq, Repr

/-- The state of a build. -/
structure Session where
  workspace : Workspace
  /-- The directories where tools are looked for. -/
  searchPath : List Bytes := []
  /-- Whether the build has been cancelled, so that no tool is started any more. -/
  cancelled : Bool := false
  /-- What was written so far, last first. -/
  written : List (Stream × Bytes) := []
  deriving Repr

namespace Session

/-- Writes to a stream. -/
def write (s : Session) (stream : Stream) (data : Bytes) : Session :=
  { s with written := (stream, data) :: s.written }

/-- What was written to some streams. -/
def text (s : Session) (streams : List Stream) : Bytes :=
  (s.written.reverse.filter fun w => streams.contains w.1).flatMap Prod.snd

end Session

/-- Why a tool cannot be started. -/
inductive StartError where
  /-- No directory of the search path has an executable file of that name. -/
  | missing (name : Bytes)
  /-- The name itself can be no tool. -/
  | unusable (name : Bytes) (cause : FileCause)
  | refused (path : Bytes) (cause : FileCause)
  | cancelled
  deriving DecidableEq, Repr

/-- The text of a start error. -/
def StartError.message : StartError → Bytes
  | .missing name =>
    utf8 "exec: " ++ Text.quoted name ++ utf8 ": executable file not found in $PATH"
  | .unusable name cause => utf8 "exec: " ++ Text.quoted name ++ utf8 (": " ++ cause.message)
  | .refused path cause => utf8 "fork/exec " ++ path ++ utf8 (": " ++ cause.message)
  | .cancelled => utf8 "context canceled"

/-- A tool that can be run. -/
structure Tool where
  path : Bytes
  script : Bytes
  deriving DecidableEq, Repr

namespace Tool

/-- The interpreter that a script names in its first line. -/
def interpreter? (script : Bytes) : Option Bytes := do
  let rest ← Text.dropStart? (utf8 "#!") script
  let line := rest.takeWhile fun b => b ≠ Text.ascii '\n'
  let name := (line.dropWhile Shell.isBlank).takeWhile fun b => !Shell.isBlank b
  if name.isEmpty then none else some name

/-- The interpreters that there are. -/
def interpreters : List Bytes :=
  [utf8 "/bin/sh", utf8 "/usr/bin/sh"]

/-- The tool at a path, if it can be run. -/
def open? (w : Workspace) (path : Bytes) : Except FileCause Tool := do
  match ← w.find path with
  | .file script true =>
    match interpreter? script with
    | none => throw .badFormat
    | some name => if interpreters.contains name then return { path, script } else throw .notFound
  | _ => throw .denied

end Tool

namespace Session

/-- The path of the tool with a name. -/
def toolPath (s : Session) (name : Bytes) : Except StartError Bytes :=
  if Path.base name ≠ name then .ok name
  else if name.contains Path.separator then .error (.unusable name .isDirectory)
  else
    let paths := s.searchPath.map fun directory => Path.join directory name
    match paths.find? fun path => s.workspace.find path matches .ok (.file _ true) with
    | some path => .ok path
    | none => .error (.missing name)

/-- Finds a tool and makes sure that it can be run. -/
def start (s : Session) (name : Bytes) : Except StartError Tool := do
  let path ← s.toolPath name
  if s.cancelled then throw .cancelled
  match Tool.open? s.workspace path with
  | .ok tool => return tool
  | .error cause => throw (.refused path cause)

/-- Runs a tool on arguments and an input. -/
def runTool (s : Session) (tool : Tool) (arguments : List Bytes) (input : Bytes) :
    Shell.Ending × Session :=
  let searchPath := Text.joinWith (utf8 ":") s.searchPath
  let r := Shell.Script.run tool.script s.workspace tool.path arguments searchPath input
  (r.ending, ({ s with workspace := r.workspace }.write .output r.output).write .errors r.errors)

end Session

end TapeLang
