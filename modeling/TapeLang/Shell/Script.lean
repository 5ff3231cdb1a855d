import TapeLang.Shell.Utility

/-!
# Scripts at work

A script runs command by command until its end, or until it exits or is killed. Only loops can
run long, so their rounds are bounded.

* `Command.run`: runs a command.
* `Script.run`: runs a script on arguments and an input.
-/

namespace TapeLang.Shell

namespace Process

/-- Sets variables from left to right. -/
def assignAll (p : Process) (assignments : List (Bytes × Word)) : Process :=
  { p with env := assignments.foldl (fun e (name, w) => e.assign name (w.value e)) p.env }

/-- Runs a simple command. -/
def simple (p : Process) (c : Simple) : Process :=
  let words := c.words.flatMap fun w => w.expand p.env
  match p.redirectAll {} c.redirects with
  | .error text => p.complain c.line text 2
  | .ok (s, p) =>
    let p := p.assignAll c.assignments
    match words with
    | [] => p.withStatus 0
    | name :: arguments => p.call s c.line name arguments

/-- Whether the script goes on and its last command has succeeded. -/
def succeeded (p : Process) : Bool :=
  p.ending.isNone && p.env.status = 0

/-- Whether the script goes on and its last command has failed. -/
def failed (p : Process) : Bool :=
  p.ending.isNone && p.env.status ≠ 0

/-- Repeats a body as long as a test has the wanted result, for so many rounds at most. `status`
is that of the last round. -/
def rounds (test body : Process → Process) (positive : Bool) :
    (budget status : Nat) → Process → Process
  | 0, status, p => p.withStatus status
  | budget + 1, status, p =>
    let p := test p
    if (if positive then p.succeeded else p.failed) then
      let p := body p
      let status := p.env.status
      if p.ending.isSome then p else rounds test body positive budget status p
    else if p.ending.isSome then p
    else p.withStatus status

end Process

/-- The most rounds of a loop. -/
def roundLimit : Nat := 100000000

/-- Runs a command; after the end of the script nothing is run. -/
def Command.run : Command → Process → Process
  | .skip, p => p
  | .simple c, p => if p.ending.isSome then p else p.simple c
  | .sequence first second, p =>
    let p := first.run p
    if p.ending.isSome then p else second.run p
  | .both first second, p =>
    let p := first.run p
    if p.succeeded then second.run p else p
  | .either first second, p =>
    let p := first.run p
    if p.failed then second.run p else p
  | .negated c, p =>
    let p := c.run p
    if p.ending.isSome then p else p.withStatus (if p.env.status = 0 then 1 else 0)
  | .choice test yes no, p =>
    let p := test.run p
    if p.succeeded then yes.run (p.withStatus 0)
    else if p.failed then no.run (p.withStatus 0)
    else p
  | .loop positive test body, p =>
    Process.rounds test.run body.run positive roundLimit 0 p
  | .arm subject patterns body otherwise, p =>
    if patterns.any fun w => w.fits p.env (subject.value p.env) then body.run (p.withStatus 0)
    else otherwise.run (p.withStatus 0)

/-- What a script leaves behind. -/
structure Outcome where
  workspace : Workspace
  output : Bytes
  errors : Bytes
  ending : Ending
  deriving Repr

/-- Runs a script under a name, with arguments, an input and a search path. -/
def Script.run (script : Bytes) (workspace : Workspace) (name : Bytes) (arguments : List Bytes)
    (searchPath input : Bytes) : Outcome :=
  let env : Env := { name, arguments, vars := [(utf8 "PATH", searchPath)] }
  let p : Process := { env, workspace, input }
  let p := match Command.parse script with
    | some c => c.run p
    | none => p.complain 1 (utf8 "Syntax error") 2
  { workspace := p.workspace
    output := p.output.toList
    errors := p.errors.toList
    ending := p.ending.getD (.exited p.env.status) }

end TapeLang.Shell
