import TapeLang.Location

/-!
# Bracket errors

The only way for a source to be wrong is in its brackets. Each error has a stable rule name for
machine-readable reports.

* `BracketError.text`: an error as one line of a message.
-/

namespace TapeLang

/-- What can be wrong with a bracket. -/
inductive Defect where
  /-- An opening bracket that is never closed. -/
  | unterminatedLoop
  /-- A closing bracket without an open loop. -/
  | unmatchedTerminator
  /-- Anything else that a report may be given. -/
  | unclassified
  deriving DecidableEq, Repr

/-- The text that describes a defect. -/
def Defect.message : Defect → String
  | .unterminatedLoop => "unterminated loop"
  | .unmatchedTerminator => "no loop to terminate"
  | .unclassified => "syntax error"

/-- The stable name of a defect in reports. -/
def Defect.rule : Defect → String
  | .unterminatedLoop => "bfc.unterminated-loop"
  | .unmatchedTerminator => "bfc.unmatched-terminator"
  | .unclassified => "bfc.syntax"

/-- A defect at a location. -/
structure BracketError where
  defect : Defect
  loc : Location
  deriving DecidableEq, Repr

namespace BracketError

/-- The error as `file:line:column: text`. -/
def text (e : BracketError) : Bytes :=
  e.loc.text ++ utf8 ": " ++ utf8 e.defect.message

/-- All errors, one to a line. -/
def textAll (errors : List BracketError) : Bytes :=
  Text.joinWith (utf8 "\n") (errors.map text)

end BracketError

end TapeLang
