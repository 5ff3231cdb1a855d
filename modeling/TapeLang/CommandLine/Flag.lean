import TapeLang.Text.Integer
import TapeLang.Text.Quoted

/-!
# Flags

A flag has a long name, and some have a letter too. A switch needs no value. Flags may stand
before, between and after the arguments; two dashes alone end them. The last occurrence of a flag
wins.

* `Flag`: the flags of all commands.
* `Options`: the values that flags give.
* `Options.parse`: reads the words of a command line.
-/

namespace TapeLang.CommandLine

/-- The flags. -/
inductive Flag where
  | config
  | color
  | verbose
  | quiet
  | help
  | arch
  | format
  | output
  | diagnostics
  | maxSteps
  deriving DecidableEq, Repr

/-- What the value of a flag has to be. -/
inductive FlagKind where
  | text
  /-- Yes or no; without a value it is yes. -/
  | switch
  | number
  deriving DecidableEq, Repr

namespace Flag

/-- The long name of a flag. -/
def name : Flag → String
  | .config => "config"
  | .color => "color"
  | .verbose => "verbose"
  | .quiet => "quiet"
  | .help => "help"
  | .arch => "arch"
  | .format => "format"
  | .output => "output"
  | .diagnostics => "diagnostics"
  | .maxSteps => "max-steps"

/-- What the value of a flag has to be. -/
def kind : Flag → FlagKind
  | .verbose | .quiet | .help => .switch
  | .maxSteps => .number
  | _ => .text

end Flag

/-- A flag of a command, with the letter it has there. -/
structure FlagSpec where
  flag : Flag
  letter : Option Char := none
  deriving DecidableEq, Repr

/-- A flag as messages name it. -/
def FlagSpec.shown (s : FlagSpec) : String :=
  match s.letter with
  | some c => "-" ++ String.singleton c ++ ", --" ++ s.flag.name
  | none => "--" ++ s.flag.name

/-- Why a value does not suit a flag. -/
inductive ValueFault where
  /-- It is neither yes nor no. -/
  | noSwitch
  | noNumber (fault : Text.NumberFault)
  deriving DecidableEq, Repr

/-- The text of a fault with the value that has it. -/
def ValueFault.message (value : Bytes) : ValueFault → Bytes
  | .noSwitch => utf8 "strconv.ParseBool: parsing " ++ Text.quoted value ++ utf8 ": invalid syntax"
  | .noNumber fault =>
    utf8 "strconv.ParseInt: parsing " ++ Text.quoted value ++ match fault with
      | .malformed => utf8 ": invalid syntax"
      | .outOfRange => utf8 ": value out of range"

/-- What is wrong with the flags of a command line. -/
inductive FlagError where
  | malformed (word : Bytes)
  | unknown (name : Bytes)
  /-- An unknown letter at the start of a group of letters. -/
  | unknownLetter (letter : UInt8) (group : Bytes)
  | valueMissing (name : String)
  | letterValueMissing (letter : UInt8) (group : Bytes)
  | invalid (value : Bytes) (spec : FlagSpec) (fault : ValueFault)
  deriving DecidableEq, Repr

/-- The text of a flag error. -/
def FlagError.message : FlagError → Bytes
  | .malformed word => utf8 "bad flag syntax: " ++ word
  | .unknown name => utf8 "unknown flag: --" ++ name
  | .unknownLetter letter group =>
    utf8 "unknown shorthand flag: " ++ Text.quotedChar (Char.ofNat letter.toNat) ++
      utf8 " in -" ++ group
  | .valueMissing name => utf8 ("flag needs an argument: --" ++ name)
  | .letterValueMissing letter group =>
    utf8 "flag needs an argument: " ++ Text.quotedChar (Char.ofNat letter.toNat) ++
      utf8 " in -" ++ group
  | .invalid value spec fault =>
    utf8 "invalid argument " ++ Text.quoted value ++ utf8 " for " ++
      Text.quoted (utf8 spec.shown) ++ utf8 " flag: " ++ fault.message value

/-! ## Values -/

/-- The values that flags give; those without a common default are there only if given. -/
structure Options where
  config : String := ""
  color : String := "auto"
  verbose : Bool := false
  quiet : Bool := false
  help : Bool := false
  arch : Option String := none
  format : Option String := none
  output : Option String := none
  diagnostics : String := "human"
  maxSteps : Int64 := 0
  deriving DecidableEq, Repr

/-- The value of a switch. -/
def switchValue? (text : Bytes) : Option Bool :=
  if (["1", "t", "T", "true", "TRUE", "True"].map utf8).contains text then some true
  else if (["0", "f", "F", "false", "FALSE", "False"].map utf8).contains text then some false
  else none

namespace Options

/-- Gives a flag a value. -/
def set (o : Options) (flag : Flag) (value : Bytes) : Except ValueFault Options :=
  let text := Text.lossyString value
  let switch := match switchValue? value with
    | some b => Except.ok b
    | none => .error ValueFault.noSwitch
  match flag with
  | .config => .ok { o with config := text }
  | .color => .ok { o with color := text }
  | .verbose => switch.map fun b => { o with verbose := b }
  | .quiet => switch.map fun b => { o with quiet := b }
  | .help => switch.map fun b => { o with help := b }
  | .arch => .ok { o with arch := some text }
  | .format => .ok { o with format := some text }
  | .output => .ok { o with output := some text }
  | .diagnostics => .ok { o with diagnostics := text }
  | .maxSteps =>
    match Text.parseInt64 value with
    | .ok n => .ok { o with maxSteps := n }
    | .error fault => .error (.noNumber fault)

/-- Gives a flag of a command a value. -/
def give (o : Options) (spec : FlagSpec) (value : Bytes) : Except FlagError Options :=
  (o.set spec.flag value).mapError (.invalid value spec)

/-- The value of a switch that stands alone. -/
def yes : Bytes := utf8 "true"

/-! ## Words -/

/-- The flag with a long name. -/
def named? (flags : List FlagSpec) (name : Bytes) : Option FlagSpec :=
  flags.find? fun s => utf8 s.flag.name = name

/-- The flag with a letter. -/
def lettered? (flags : List FlagSpec) (letter : UInt8) : Option FlagSpec :=
  flags.find? fun s => s.letter.map Text.ascii = some letter

/-- Reads a long flag, given without its dashes, and takes a value from the words after it if need
be. -/
def readLong (flags : List FlagSpec) (o : Options) (body : Bytes) (rest : List Bytes) :
    Except FlagError (Options × List Bytes) := do
  let equals := Text.ascii '='
  let head := body.takeWhile (· ≠ equals)
  if head.isEmpty || head.head? = some (Text.ascii '-') then
    throw (.malformed (utf8 "--" ++ body))
  match named? flags head with
  | none => throw (.unknown head)
  | some spec =>
    if body.contains equals then
      return (← o.give spec (body.drop (head.length + 1)), rest)
    else if spec.flag.kind = .switch then return (← o.give spec yes, rest)
    else
      match rest with
      | value :: rest => return (← o.give spec value, rest)
      | [] => throw (.valueMissing spec.flag.name)

/-- The value that an equals sign after a letter introduces. -/
def attached? : Bytes → Option Bytes
  | mark :: b :: value => if mark = Text.ascii '=' then some (b :: value) else none
  | _ => none

/-- A group that starts like this belongs to a test run and is passed over. -/
def testGroup : Bytes := utf8 "test."

/-- Reads a group of letters. A letter that needs a value takes what is left of the group, or the
next word. -/
def readLetters (flags : List FlagSpec) (o : Options) (group : Bytes) (rest : List Bytes) :
    Except FlagError (Options × List Bytes) :=
  match group with
  | [] => .ok (o, rest)
  | letter :: more =>
    if testGroup.isPrefixOf (letter :: more) then .ok (o, rest)
    else
      match lettered? flags letter with
      | none => .error (.unknownLetter letter (letter :: more))
      | some spec =>
        match attached? more, spec.flag.kind, more, rest with
        | some value, _, _, _ => (o.give spec value).map (·, rest)
        | none, .switch, _, _ => do readLetters flags (← o.give spec yes) more rest
        | none, _, _ :: _, _ => (o.give spec more).map (·, rest)
        | none, _, [], value :: rest => (o.give spec value).map (·, rest)
        | none, _, [], [] => .error (.letterValueMissing letter [letter])

/-- Reads words one by one. `arguments` holds the arguments so far, last first. -/
def readWords (flags : List FlagSpec) : (fuel : Nat) → Options → (arguments : List Bytes) →
    List Bytes → Except FlagError (Options × List Bytes)
  | 0, o, arguments, words => .ok (o, arguments.reverse ++ words)
  | _, o, arguments, [] => .ok (o, arguments.reverse)
  | fuel + 1, o, arguments, word :: rest =>
    let dash := Text.ascii '-'
    match word with
    | first :: second :: body =>
      if first ≠ dash then readWords flags fuel o (word :: arguments) rest
      else if second = dash then
        if body.isEmpty then .ok (o, arguments.reverse ++ rest)
        else do
          let (o, rest) ← readLong flags o body rest
          readWords flags fuel o arguments rest
      else do
        let (o, rest) ← readLetters flags o (second :: body) rest
        readWords flags fuel o arguments rest
    | _ => readWords flags fuel o (word :: arguments) rest

/-- The options and arguments of a command line. -/
def parse (flags : List FlagSpec) (words : List Bytes) :
    Except FlagError (Options × List Bytes) :=
  readWords flags words.length {} [] words

end Options

end TapeLang.CommandLine
