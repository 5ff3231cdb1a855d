import TapeLang.Shell.Command
import TapeLang.Workspace.Tree

/-!
# Processes

A process is a script at work: its parameters, the files it sees, what is left of its input, and
what it has written. Redirections say where the channels of one command go.

* `Process`: the state of a script.
* `Process.redirectAll`: the streams of a command.
-/

namespace TapeLang.Shell

/-- How a process ends. -/
inductive Ending where
  | exited (status : Nat)
  /-- A signal has ended it. -/
  | killed
  deriving DecidableEq, Repr

/-- The state of a script. -/
structure Process where
  env : Env
  workspace : Workspace
  input : Bytes
  output : Array UInt8 := #[]
  errors : Array UInt8 := #[]
  ending : Option Ending := none
  deriving Repr

/-- Where the output of a command goes. -/
inductive Target where
  | output
  | errors
  | file (place : Place)
  deriving DecidableEq, Repr

/-- The streams of a command. -/
structure Streams where
  /-- The input, if it is not the script's own. -/
  input : Option Bytes := none
  output : Target := .output
  errors : Target := .errors
  deriving Repr

/-- The text of a cause, as the system's library words it. -/
def causeText : FileCause → String
  | .notFound => "No such file or directory"
  | .notDirectory => "Not a directory"
  | .isDirectory => "Is a directory"
  | .denied => "Permission denied"
  | .nameTooLong => "File name too long"
  | .invalid => "Invalid argument"
  | .badFormat => "Exec format error"

namespace Process

/-- Sets the status. -/
def withStatus (p : Process) (status : Nat) : Process :=
  { p with env := { p.env with status } }

/-- Writes to a target. -/
def send (p : Process) (target : Target) (data : Bytes) : Process :=
  match target with
  | .output => { p with output := p.output ++ data }
  | .errors => { p with errors := p.errors ++ data }
  | .file place =>
    { p with workspace := p.workspace.put place (p.workspace.contentAt place ++ data) }

/-- A complaint of the script in a line, with the status that comes with it. -/
def complain (p : Process) (line : Nat) (text : Bytes) (status : Nat) : Process :=
  let head := p.env.name ++ utf8 ": " ++ Text.decimal line ++ utf8 ": "
  (p.send .errors (head ++ text ++ utf8 "\n")).withStatus status

/-- Why a file cannot be created or opened. -/
def refusal (action missing : String) (path : Bytes) (cause : FileCause) : Bytes :=
  let reason := match cause with
    | .notFound | .notDirectory => missing
    | cause => causeText cause
  utf8 "cannot " ++ utf8 action ++ utf8 " " ++ path ++ utf8 ": " ++ utf8 reason

/-- Sends a channel to a target. -/
def aim (s : Streams) (channel : Nat) (target : Target) : Streams :=
  match channel with
  | 1 => { s with output := target }
  | 2 => { s with errors := target }
  | _ => s

/-- Carries out a redirection, or says why that is not possible. -/
def redirect (p : Process) (s : Streams) (r : Redirect) : Except Bytes (Streams × Process) :=
  let text := r.target.value p.env
  match r.kind with
  | .read =>
    match p.workspace.read text with
    | .ok content => .ok ({ s with input := some content }, p)
    | .error e => .error (refusal "open" "No such file" text e.cause)
  | .write =>
    match p.workspace.writable text with
    | .ok place =>
      .ok (aim s r.channel (.file place), { p with workspace := p.workspace.put place [] })
    | .error cause => .error (refusal "create" "Directory nonexistent" text cause)
  | .append =>
    match p.workspace.writable text with
    | .ok place =>
      let content := p.workspace.contentAt place
      .ok (aim s r.channel (.file place), { p with workspace := p.workspace.put place content })
    | .error cause => .error (refusal "create" "Directory nonexistent" text cause)
  | .duplicate =>
    if text = utf8 "1" then .ok (aim s r.channel s.output, p)
    else if text = utf8 "2" then .ok (aim s r.channel s.errors, p)
    else .error (text ++ utf8 ": Bad file descriptor")

/-- Carries out redirections from left to right. -/
def redirectAll (p : Process) (s : Streams) : List Redirect → Except Bytes (Streams × Process)
  | [] => .ok (s, p)
  | r :: rest => do
    let (s, p) ← p.redirect s r
    p.redirectAll s rest

/-- The input of a command. -/
def inputOf (p : Process) (s : Streams) : Bytes :=
  s.input.getD p.input

/-- Leaves a rest of the script's input, unless the command has an input of its own. -/
def leaveInput (p : Process) (s : Streams) (rest : Bytes) : Process :=
  if s.input.isSome then p else { p with input := rest }

end Process

end TapeLang.Shell
