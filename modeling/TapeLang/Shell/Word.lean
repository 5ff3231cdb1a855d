import TapeLang.Text.Bytes

/-!
# Words of a script

A word of a shell script is made of bytes, quoted or not, and of parameters whose values are put
in when the word is used. The value of a parameter outside of quotes is cut into words at blanks.

* `Word.expand`: the words that a word becomes.
* `Word.value`: the text of a word that is not cut.
* `Word.fits`: whether a text has the form that a pattern describes.
-/

namespace TapeLang.Shell

/-- The parameters of a script. -/
inductive Param where
  | var (name : Bytes)
  /-- The script's name for 0, and its arguments from 1 on. -/
  | argument (index : Nat)
  /-- All arguments, each a word of its own inside of quotes. -/
  | each
  /-- All arguments as one text. -/
  | all
  | count
  | status
  /-- The number of the process. -/
  | process
  deriving DecidableEq, Repr

/-- The parts of a word. -/
inductive Piece where
  | byte (b : UInt8) (quoted : Bool)
  /-- A pair of quotes with nothing between them. -/
  | nothing
  | value (param : Param) (quoted : Bool)
  deriving DecidableEq, Repr

/-- A word of a script. -/
abbrev Word := List Piece

/-- What parameters stand for. -/
structure Env where
  name : Bytes
  arguments : List Bytes
  vars : List (Bytes × Bytes) := []
  status : Nat := 0
  deriving Repr

/-- The number that a script's process has. -/
def processId : Nat := 100

namespace Env

/-- The value of a variable; one that is not set is empty. -/
def valueOf (e : Env) (name : Bytes) : Bytes :=
  (e.vars.lookup name).getD []

/-- Sets a variable. -/
def assign (e : Env) (name value : Bytes) : Env :=
  { e with vars := (name, value) :: e.vars.filter fun v => v.1 ≠ name }

/-- The text of a parameter. -/
def text (e : Env) : Param → Bytes
  | .var name => e.valueOf name
  | .argument 0 => e.name
  | .argument (n + 1) => e.arguments.getD n []
  | .each | .all => Text.joinWith (utf8 " ") e.arguments
  | .count => Text.decimal e.arguments.length
  | .status => Text.decimal e.status
  | .process => Text.decimal processId

end Env

/-- Whether a byte separates words. -/
def isBlank (b : UInt8) : Bool :=
  b = Text.ascii ' ' || b = Text.ascii '\t' || b = Text.ascii '\n'

/-- Words under construction, last first, and the bytes of the one being built, if any, last
first. -/
structure Fields where
  finished : List Bytes := []
  current : Option Bytes := none

namespace Fields

/-- Ends the word being built. -/
def close (f : Fields) : Fields :=
  match f.current with
  | some word => { finished := word.reverse :: f.finished }
  | none => f

/-- Adds text to the word being built. -/
def add (f : Fields) (text : Bytes) : Fields :=
  { f with current := some (text.reverseAux (f.current.getD [])) }

/-- Adds text that is cut at blanks. -/
def addCut (f : Fields) (text : Bytes) : Fields :=
  text.foldl (fun f b => if isBlank b then f.close else f.add [b]) f

/-- Adds texts that stay words of their own. -/
def addEach (f : Fields) : List Bytes → Fields
  | [] => f
  | [text] => f.add text
  | text :: rest => (f.add text).close.addEach rest

/-- The finished words. -/
def words (f : Fields) : List Bytes :=
  f.close.finished.reverse

end Fields

namespace Word

/-- The words that a word becomes. -/
def expand (e : Env) (w : Word) : List Bytes :=
  let fields := w.foldl (fun (f : Fields) piece =>
    match piece with
    | .byte b _ => f.add [b]
    | .nothing => f.add []
    | .value .each true => f.addEach e.arguments
    | .value param true => f.add (e.text param)
    | .value param false => f.addCut (e.text param)) {}
  fields.words

/-- The text of a word that stays one. -/
def value (e : Env) (w : Word) : Bytes :=
  w.flatMap fun
    | .byte b _ => [b]
    | .nothing => []
    | .value param _ => e.text param

/-- The text of a word without quotes and parameters. -/
def literal? (w : Word) : Option Bytes :=
  w.mapM fun
    | .byte b false => some b
    | _ => none

/-! ## Patterns -/

/-- The parts of a pattern. -/
inductive Glob where
  | byte (b : UInt8)
  | anyByte
  | anyText
  deriving DecidableEq, Repr

/-- The pattern of a word: stars and question marks outside of quotes stand for other bytes. -/
def pattern (e : Env) (w : Word) : List Glob :=
  w.flatMap fun
    | .byte b false =>
      if b = Text.ascii '*' then [.anyText]
      else if b = Text.ascii '?' then [.anyByte] else [.byte b]
    | .byte b true => [.byte b]
    | .nothing => []
    | .value param _ => (e.text param).map Glob.byte

/-- Whether a text has the form of a pattern. -/
def matchGlob : List Glob → Bytes → Bool
  | [], text => text.isEmpty
  | .byte _ :: _, [] => false
  | .byte a :: rest, b :: text => a = b && matchGlob rest text
  | .anyByte :: _, [] => false
  | .anyByte :: rest, _ :: text => matchGlob rest text
  | .anyText :: rest, [] => matchGlob rest []
  | .anyText :: rest, b :: text => matchGlob rest (b :: text) || matchGlob (.anyText :: rest) text
termination_by p text => p.length + text.length

/-- Whether a text has the form that a word describes. -/
def fits (e : Env) (w : Word) (text : Bytes) : Bool :=
  matchGlob (w.pattern e) text

end Word

end TapeLang.Shell
