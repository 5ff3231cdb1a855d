import TapeLang.Assembly.Listing
import TapeLang.Machine.Load
import TapeLang.Machine.Step
import TapeLang.Parse

/-!
# Playground

The playground parses, compiles and runs sources that are typed into a page. A program that runs
too long is stopped.

* `Reply`: what the page shows.
* `parseReply`, `compileReply`, `runReply`: the three actions, with their arguments as given.
-/

namespace TapeLang.Playground

/-- What the page shows. -/
inductive Reply where
  | tree (nodes : List Node)
  | errors (errors : List BracketError)
  | assembly (text : Bytes)
  /-- The action is not possible. -/
  | failure (message : Bytes)
  /-- A run that failed after some output. -/
  | stopped (message output : Bytes)
  /-- A run that ended by itself. -/
  | finished (output : Bytes) (exitCode steps : Nat)
  deriving Repr

/-- The name of the source in diagnostics. -/
def sourceName : String := "playground.bf"

/-- The number of steps after which a program is stopped. -/
def maxSteps : Int64 := 5000000

/-- The reply when there is no source. -/
def sourceRequired : Reply :=
  .failure (utf8 "source argument required")

/-- Parses a source or replies with its errors. -/
def parseSource (source : String) : Except Reply (List Node) :=
  (parse (utf8 sourceName) (utf8 source)).mapError .errors

/-- The architecture that is asked for. -/
def archOf (arguments : List String) : Except Reply Arch :=
  match arguments with
  | [] => .ok .amd64
  | name :: _ =>
    match Arch.ofName? (utf8 name) with
    | some arch => .ok arch
    | none => .error (.failure (Arch.unknownName (utf8 name)))

/-- The listing of a source. -/
def assemble (source : String) (options : List String) : Except Reply (Arch × Bytes) := do
  let arch ← archOf options
  let nodes ← parseSource source
  let listing := arch.listing nodes
  match listing.failure with
  | some u => throw (.failure (utf8 "generating assembly: " ++ u.message))
  | none => return (arch, listing.text)

/-- The reply of either side. -/
def merge : Except Reply Reply → Reply
  | .ok r | .error r => r

/-- Shows the tree of a source. -/
def parseReply : List String → Reply
  | [] => sourceRequired
  | source :: _ => merge ((parseSource source).map .tree)

/-- Shows the listing of a source for an architecture. -/
def compileReply : List String → Reply
  | [] => sourceRequired
  | source :: options => merge ((assemble source options).map fun (_, text) => .assembly text)

/-- What is said of a run that failed. -/
def runMessage : Machine.RunError → Bytes
  | .stepLimit => utf8 "step limit exceeded; the program may not terminate"
  | e => e.message

/-- Runs a listing on some input. -/
def execute (arch : Arch) (text input : Bytes) : Except Reply Reply := do
  match Machine.loadFor arch text with
  | .error e => throw (.failure (utf8 "loading assembly: " ++ e.message))
  | .ok program =>
    let (result, state) := Machine.run program (fun _ => false) maxSteps
      { input := some { chunks := [input] }, output := some {} }
    let output := (state.output.map Sink.contents).getD []
    match result.outcome with
    | .ok code => return .finished output code result.steps
    | .error e => throw (.stopped (runMessage e) output)

/-- Runs a source for an architecture on some input. -/
def runReply : List String → Reply
  | [] => sourceRequired
  | source :: options => merge do
    let (arch, text) ← assemble source options
    execute arch text (utf8 (options.getD 1 ""))

end TapeLang.Playground
