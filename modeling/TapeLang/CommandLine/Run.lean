import TapeLang.Build.Compile
import TapeLang.CommandLine.Verb
import TapeLang.Config.File
import TapeLang.Machine.Load
import TapeLang.Machine.Step
import TapeLang.Report.Diagnostics
import TapeLang.Server.Pipeline

/-!
# Running a command line

A command line is read, its colour mode is looked at, and then its command is carried out in a
session. A command that fails keeps what it has done and written so far.

* `Invocation`: a command line with its surroundings.
* `Invocation.run`: carries out a command line.
* `Outcome.report`: what a failed command says last.
-/

namespace TapeLang.CommandLine

/-- The ways for a command to fail. -/
inductive CommandError where
  | usage (error : UsageError)
  | unknownColor (mode : String)
  | configFile (error : ConfigFileError)
  | settings (error : ConfigError)
  | unknownDiagnostics (format : String)
  | unknownTreeFormat (format : String)
  | source (path : String) (error : FileError)
  /-- The source has bracket errors, which have been shown. -/
  | brackets (path : String) (count : Nat)
  | compile (error : CompileError)
  | listing (unknown : Assembly.Unknown)
  | load (error : Machine.LoadError)
  | run (error : Machine.RunError)
  /-- The program itself has failed. -/
  | status (code : Nat)

/-- The text of a command error. -/
def CommandError.message : CommandError → Bytes
  | .usage error => error.message
  | .unknownColor mode => utf8 ("unknown color mode: " ++ mode)
  | .configFile error => error.message
  | .settings error => error.message
  | .unknownDiagnostics format => DiagnosticFormat.unknownName format
  | .unknownTreeFormat format => utf8 ("unknown output format: " ++ format)
  | .source path error => unreadableSource path error
  | .brackets path count =>
    utf8 path ++ utf8 ": " ++ Text.decimal count ++ utf8 " syntax error(s)"
  | .compile error => error.message
  | .listing unknown => utf8 "generating assembly: " ++ unknown.message
  | .load error => utf8 "loading generated assembly: " ++ error.message
  | .run error => error.message
  | .status code => utf8 "program exited with status " ++ Text.decimal code

/-- A command at work. -/
abbrev Action (α : Type) := ExceptT CommandError (StateM Session) α

/-- What a command is given. -/
structure Context where
  options : Options
  /-- Whether texts are coloured. -/
  color : Bool
  input : Bytes

namespace Action

/-- Writes to the output. -/
def print (text : Bytes) : Action Unit :=
  modify fun s => s.write .output text

/-- Writes to the error output. -/
def printError (text : Bytes) : Action Unit :=
  modify fun s => s.write .errors text

/-- A result as part of a command. -/
def lift {ε α : Type} (wrap : ε → CommandError) (r : Except ε α) : Action α :=
  match r with
  | .ok a => return a
  | .error e => throw (wrap e)

/-! ## Shared steps -/

/-- The settings that a command starts from: those of the named file, or those of the working
directory. -/
def loadConfig (c : Context) : Action Config := do
  let w := (← get).workspace
  if c.options.config.isEmpty then
    lift .configFile (Config.loadDefault w w.homePath)
  else lift .configFile (Config.load w (utf8 c.options.config))

/-- The format of diagnostics with a name. -/
def diagnosticFormat (name : String) : Action DiagnosticFormat :=
  match DiagnosticFormat.ofName? name with
  | some format => return format
  | none => throw (.unknownDiagnostics name)

/-- Reads and parses a source. Bracket errors are shown, those for people on the error output. -/
def loadTree (c : Context) (format : DiagnosticFormat) (path : String) :
    Action (Bytes × List Node) := do
  let source ← lift (.source path) ((← get).workspace.read (utf8 path))
  match parse (utf8 path) source with
  | .ok nodes => return (source, nodes)
  | .error errors =>
    let text := diagnostics format c.color errors source
    if format = .human then printError text else print text
    throw (.brackets path errors.length)

/-- A name as the head of a line that reports success. -/
def headed (c : Context) (name : Bytes) : Bytes :=
  Style.success.paint c.color (name ++ utf8 ":")

/-! ## The commands -/

/-- Compiles a file. -/
def compile (c : Context) (path : String) : Action Unit := do
  let settings ← loadConfig c
  let settings := { settings with
    arch := (c.options.arch.map utf8).getD settings.arch
    format := (c.options.format.map utf8).getD settings.format
    output := (c.options.output.map utf8).getD settings.output }
  lift .settings settings.validate
  let arch ← lift .settings settings.archOf
  let format ← lift .settings settings.formatOf
  let (_, nodes) ← loadTree c (← diagnosticFormat c.options.diagnostics) path
  let tools : Toolchain :=
    { assembler := settings.tools.assembler
      linker := settings.tools.linker
      assemblerFlags := settings.tools.assemblerFlags.getD []
      linkerFlags := settings.tools.linkerFlags.getD [] }
  let target : Target :=
    { arch := .known arch, format := .known format, output := settings.output, tools }
  let count ← (target.generate nodes).adapt CommandError.compile
  unless c.options.quiet do
    print (headed c settings.output ++ utf8 " wrote " ++ Text.decimal count ++
      utf8 " bytes of assembly\n")

/-- Looks for bracket errors. A report is written even if there are none. -/
def check (c : Context) (path : String) : Action Unit := do
  let format ← diagnosticFormat c.options.diagnostics
  let (source, _) ← loadTree c format path
  if format ≠ .human then print (diagnostics format c.color [] source)
  else unless c.options.quiet do print (headed c (utf8 path) ++ utf8 " ok\n")

/-- Shows the tree of a file. -/
def tree (c : Context) (path : String) : Action Unit := do
  let show_ : List Node → Bytes ← match c.options.format.getD "text" with
    | "text" => pure Node.outlineAll
    | "json" => pure fun nodes => encode (Node.listJson nodes).indented ++ utf8 "\n"
    | "source" => pure fun nodes => Node.renderAll nodes ++ utf8 "\n"
    | other => throw (.unknownTreeFormat other)
  let (_, nodes) ← loadTree c .human path
  print (show_ nodes)

/-- The counters of a run as a line. -/
def counters (r : Machine.Result) (s : Machine.State) : Bytes :=
  utf8 "steps: " ++ Text.decimal r.steps ++ utf8 ", pushes: " ++ Text.decimal s.pushes ++
    utf8 ", stack: " ++ Text.decimal s.stackBytes.toNat ++ utf8 " bytes\n"

/-- Runs a file on the built-in machine. -/
def run (c : Context) (path : String) : Action Unit := do
  let settings ← loadConfig c
  let settings := { settings with arch := (c.options.arch.map utf8).getD settings.arch }
  let arch ← lift .settings settings.archOf
  let (_, nodes) ← loadTree c .human path
  let listing := arch.listing nodes
  if let some unknown := listing.failure then throw (.listing unknown)
  let program ← lift .load (Machine.load listing.text (Int64.ofNat arch.bits))
  let (result, state) := Machine.run program (fun _ => false) c.options.maxSteps
    { input := some { chunks := [c.input] }, output := some {}, errors := some {} }
  print ((state.output.map Sink.contents).getD [])
  printError ((state.errors.map Sink.contents).getD [])
  if c.options.verbose then printError (counters result state)
  match result.outcome with
  | .error e => throw (.run e)
  | .ok 0 => return
  | .ok code => throw (.status code)

/-- Shows the version. -/
def version : Action Unit :=
  print (utf8 "bfc vdev\nCommit: unknown\n")

/-- Answers requests from the input. -/
def serve (c : Context) : Action Unit :=
  print ((Server.serve c.input).flatMap fun r => r.line ++ utf8 "\n")

/-- What the commands are. -/
def usageText : String :=
  "bfc - compiler for the eight-instruction tape language\n\n" ++
  "Usage:\n  bfc [command]\n\nCommands:\n" ++
  "  check    Check a program for syntax errors\n" ++
  "  compile  Compile a program\n" ++
  "  run      Compile a program and execute it on the built-in emulator\n" ++
  "  serve    Run as streaming server for editor integration\n" ++
  "  tree     Print the parsed instruction tree\n" ++
  "  version  Show version information\n"

end Action

/-- Carries out a command on its arguments. -/
def Verb.action (v : Verb) (c : Context) (arguments : List Bytes) : Action Unit :=
  let path := Text.lossyString (arguments.headD [])
  match v with
  | .compile => Action.compile c path
  | .check => Action.check c path
  | .tree => Action.tree c path
  | .run => Action.run c path
  | .version => Action.version
  | .serve => Action.serve c

/-! ## Command lines -/

/-- A command line with its surroundings. -/
structure Invocation where
  words : List Bytes
  input : Bytes := []
  workspace : Workspace
  searchPath : List Bytes := []
  /-- Whether the environment asks for no colour. -/
  plain : Bool := false

/-- What came of a command line. -/
structure Outcome where
  error : Option CommandError
  output : Bytes
  errors : Bytes
  workspace : Workspace
  /-- Whether texts are coloured. -/
  color : Bool

namespace Outcome

/-- The exit status. -/
def status (o : Outcome) : Nat :=
  if o.error.isSome then 1 else 0

/-- What a failed command says last. -/
def report (o : Outcome) : Bytes :=
  match o.error with
  | none => []
  | some e => Style.severity.paint o.color (utf8 "bfc:") ++ utf8 " " ++ e.message ++ utf8 "\n"

end Outcome

/-- Whether a colour mode switches colour on. The output is never a terminal. -/
def colorMode (mode : String) : Except CommandError Bool :=
  match mode with
  | "always" => .ok true
  | "never" | "auto" => .ok false
  | other => .error (.unknownColor other)

namespace Invocation

/-- The outcome of a command line that does not get to its command. -/
def refuse (i : Invocation) (error : CommandError) : Outcome :=
  { error := some error, output := [], errors := [], workspace := i.workspace, color := false }

/-- The outcome of a request for help. -/
def help (i : Invocation) : Outcome :=
  { error := none, output := utf8 Action.usageText, errors := [], workspace := i.workspace
    color := false }

/-- Carries out a command with its options and arguments. -/
def perform (i : Invocation) (v : Verb) (options : Options) (color : Bool)
    (arguments : List Bytes) : Outcome :=
  let color := color && !i.plain
  let c : Context := { options, color, input := i.input }
  let session : Session := { workspace := i.workspace, searchPath := i.searchPath }
  let (result, s) := Id.run (StateT.run (ExceptT.run (v.action c arguments)) session)
  { error := match result with
      | .ok _ => none
      | .error e => some e
    output := s.text [.output]
    errors := s.text (if options.verbose then [.errors, .trace] else [.errors])
    workspace := s.workspace
    color }

/-- Whether the command reads its input. -/
def readsInput (i : Invocation) : Bool :=
  match Selection.ofWords i.words with
  | .verb .run _ | .verb .serve _ => true
  | _ => false

/-- The paths that a command line may mean: its words, and the values attached to flags. -/
def mentioned (i : Invocation) : List Bytes :=
  utf8 Config.fileName :: i.words.flatMap fun word =>
    [word, word.drop 2, (word.dropWhile (· ≠ Text.ascii '=')).drop 1].filter fun p => !p.isEmpty

/-- The paths that a settings file may mean. -/
def mentionedIn (settings : Config) : List Bytes :=
  [settings.output, settings.tools.assembler, settings.tools.linker]

/-- Carries out a command line. Flags are looked at first, then the number of arguments, then the
colour mode. -/
def run (i : Invocation) : Outcome :=
  match Selection.ofWords i.words with
  | .unknown name => i.refuse (.usage (.unknownCommand name "bfc" (suggestions name)))
  | .help words =>
    match Options.parse (commonFlags ++ [helpFlag]) words with
    | .error e => i.refuse (.usage (.flag e))
    | .ok _ => i.help
  | .verb v words =>
    match Options.parse v.flags words with
    | .error e => i.refuse (.usage (.flag e))
    | .ok (options, arguments) =>
      if options.help then i.help
      else
        match v.checkArguments arguments with
        | .error e => i.refuse (.usage e)
        | .ok _ =>
          match colorMode options.color with
          | .error e => i.refuse e
          | .ok color => i.perform v options color arguments

end Invocation

end TapeLang.CommandLine
