import TapeLang.Assembly.Arch
import TapeLang.CommandLine.Flag

/-!
# Commands

The first word of a command line that is no flag and no value of a flag names the command. Before
the command is known, a flag that is not known either is taken to have a value.

* `Verb`: the commands with their flags.
* `Selection.ofWords`: the command that a command line names.
* `suggestions`: the commands that a mistyped name may mean.
-/

namespace TapeLang.CommandLine

/-- The commands. -/
inductive Verb where
  | compile
  | check
  | tree
  | run
  | version
  | serve
  deriving DecidableEq, Repr

/-- The flags of every command. -/
def commonFlags : List FlagSpec :=
  [{ flag := .config }, { flag := .color }, { flag := .verbose, letter := some 'v' },
    { flag := .quiet, letter := some 'q' }]

/-- The flag that asks for help. -/
def helpFlag : FlagSpec :=
  { flag := .help, letter := some 'h' }

namespace Verb

/-- All commands. -/
def all : List Verb :=
  [.compile, .check, .tree, .run, .version, .serve]

/-- The name of a command. -/
def name : Verb → String
  | .compile => "compile"
  | .check => "check"
  | .tree => "tree"
  | .run => "run"
  | .version => "version"
  | .serve => "serve"

/-- The flags of a command. -/
def flags (v : Verb) : List FlagSpec :=
  let own : List FlagSpec := match v with
    | .compile =>
      [{ flag := .arch, letter := some 'a' }, { flag := .format, letter := some 'f' },
        { flag := .output, letter := some 'o' }, { flag := .diagnostics }]
    | .check => [{ flag := .diagnostics }]
    | .tree => [{ flag := .format }]
    | .run => [{ flag := .arch, letter := some 'a' }, { flag := .maxSteps }]
    | .version | .serve => []
  own ++ commonFlags ++ [helpFlag]

end Verb

/-- What is wrong with a command line. -/
inductive UsageError where
  | flag (error : FlagError)
  | unknownCommand (name : Bytes) (program : String) (similar : List String)
  | argumentCount (wanted received : Nat)
  deriving DecidableEq, Repr

/-- The text of a usage error. -/
def UsageError.message : UsageError → Bytes
  | .flag error => error.message
  | .unknownCommand name program similar =>
    let hint := if similar.isEmpty then []
      else utf8 "\n\nDid you mean this?\n" ++
        similar.flatMap fun s => utf8 "\t" ++ utf8 s ++ utf8 "\n"
    utf8 "unknown command " ++ Text.quoted name ++ utf8 " for " ++ Text.quoted (utf8 program) ++
      hint
  | .argumentCount wanted received =>
    utf8 "accepts " ++ Text.decimal wanted ++ utf8 " arg(s), received " ++ Text.decimal received

/-- The arguments of a command, if their number is right. -/
def Verb.checkArguments (v : Verb) (arguments : List Bytes) : Except UsageError Unit :=
  match v, arguments with
  | .version, _ | .serve, [] | .compile, [_] | .check, [_] | .tree, [_] | .run, [_] => .ok ()
  | .serve, name :: _ => .error (.unknownCommand name "bfc serve" [])
  | _, arguments => .error (.argumentCount 1 arguments.length)

/-! ## Similar names -/

/-- The next row of the table of distances: `left` is the entry before, `diagonal` the one above
that. -/
def distanceRow (b : UInt8) : Bytes → (above : List Nat) → (left diagonal : Nat) → List Nat
  | c :: cs, up :: above, left, diagonal =>
    let here := if b = c then diagonal else 1 + min (min left up) diagonal
    here :: distanceRow b cs above here up
  | _, _, _, _ => []

/-- How many bytes have to be inserted, deleted or replaced to turn one text into another. -/
def distance (s t : Bytes) : Nat :=
  let step := fun (row : List Nat) (b : UInt8) =>
    match row with
    | [] => []
    | first :: above => (first + 1) :: distanceRow b t above (first + 1) first
  (s.foldl step (List.range (t.length + 1))).getLastD 0

/-- The commands that a name may mean: those that it begins, and those almost like it. -/
def suggestions (name : Bytes) : List String :=
  let lower := encode ((Text.decodeLossy name).map Text.lowerChar)
  (Verb.all.map Verb.name ++ ["completion"]).filter fun s =>
    distance lower (utf8 s) ≤ 2 || lower.isPrefixOf (utf8 s)

/-! ## Finding the command -/

/-- Whether a word is a flag that takes the next word as its value. A flag that is not known
does. -/
def takesNext (flags : List FlagSpec) (word : Bytes) : Bool :=
  let needsValue := fun (spec : Option FlagSpec) => match spec with
    | some spec => spec.flag.kind ≠ .switch
    | none => true
  !word.contains (Text.ascii '=') &&
    match Text.dropStart? (utf8 "--") word, word with
    | some name, _ => needsValue (Options.named? flags name)
    | none, [dash, letter] =>
      dash = Text.ascii '-' && needsValue (Options.lettered? flags letter)
    | none, _ => false

/-- Whether a word is no flag. -/
def isPlain (word : Bytes) : Bool :=
  word.head? ≠ some (Text.ascii '-')

/-- The words that are neither flags nor values of flags. A value at the very end is not looked
for. -/
def plainWords (flags : List FlagSpec) : List Bytes → List Bytes
  | [] => []
  | word :: rest =>
    if word = utf8 "--" then []
    else if takesNext flags word then
      match rest with
      | _ :: next :: rest => plainWords flags (next :: rest)
      | _ => []
    else if !word.isEmpty && isPlain word then word :: plainWords flags rest
    else plainWords flags rest

/-- The words without the first plain one that is `name`. -/
def dropName (flags : List FlagSpec) (name : Bytes) : List Bytes → List Bytes
  | [] => []
  | word :: rest =>
    if word = utf8 "--" then word :: rest
    else if takesNext flags word then
      match rest with
      | value :: rest => word :: value :: dropName flags name rest
      | [] => [word]
    else if word = name then rest
    else word :: dropName flags name rest

/-- What a command line asks for. -/
inductive Selection where
  | verb (verb : Verb) (words : List Bytes)
  /-- No command, or one that only shows help. -/
  | help (words : List Bytes)
  | unknown (name : Bytes)
  deriving DecidableEq, Repr

/-- The command that a command line names. -/
def Selection.ofWords (words : List Bytes) : Selection :=
  match plainWords commonFlags words with
  | [] => .help words
  | name :: _ =>
    match Verb.all.find? fun v => utf8 v.name = name with
    | some v => .verb v (dropName commonFlags name words)
    | none => if name = utf8 "help" || name = utf8 "completion" then .help [] else .unknown name

end TapeLang.CommandLine
