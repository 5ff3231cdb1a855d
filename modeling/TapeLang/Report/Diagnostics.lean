import TapeLang.Report.Sarif

/-!
# Diagnostics

Bracket errors are shown to people, with the source line and a caret under the bracket, or written
as JSON or as a report for other tools.

* `caretIndent`: what stands before the caret.
* `diagnostics`: the errors of a source in one of the formats.
-/

namespace TapeLang

/-- The kinds of text that can be coloured. -/
inductive Style where
  | location
  | severity
  | message
  | caret
  | success
  deriving DecidableEq, Repr

/-- The terminal codes that switch a style on and off. -/
def Style.codes : Style → String × String
  | .location => ("1", "22")
  | .severity => ("1;91", "22;0")
  | .message => ("1;97", "22;0")
  | .caret => ("1;92", "22;0")
  | .success => ("92", "0")

/-- A text in a style, if colour is on. -/
def Style.paint (style : Style) (color : Bool) (text : Bytes) : Bytes :=
  if color then
    let (on, off) := style.codes
    utf8 ("\x1b[" ++ on ++ "m") ++ text ++ utf8 ("\x1b[" ++ off ++ "m")
  else text

/-- The blanks before a caret under a column. A tab of the line stays a tab, so that it takes the
same room. -/
def caretIndent (line : Bytes) (column : Int64) : Bytes :=
  let width := (column.toInt - 1).toNat
  let covered := (line.take width).map fun b =>
    if b = Text.ascii '\t' then b else Text.ascii ' '
  covered ++ List.replicate (width - covered.length) (Text.ascii ' ')

/-- An error as it is shown to people. -/
def BracketError.shown (e : BracketError) (color : Bool) (source : Bytes) : Bytes :=
  let head := Style.location.paint color (e.loc.text ++ utf8 ":") ++ utf8 " " ++
    Style.severity.paint color (utf8 "error:") ++ utf8 " " ++
    Style.message.paint color (utf8 e.defect.message) ++ utf8 "\n"
  match lineText? source e.loc.line with
  | none => head
  | some line =>
    head ++ line ++ utf8 "\n" ++ caretIndent line e.loc.column ++
      Style.caret.paint color (utf8 "^") ++ utf8 "\n"

/-- The formats of diagnostics. -/
inductive DiagnosticFormat where
  | human
  | json
  | sarif
  deriving DecidableEq, Repr

namespace DiagnosticFormat

/-- The format with a name. -/
def ofName? : String → Option DiagnosticFormat
  | "human" => some .human
  | "json" => some .json
  | "sarif" => some .sarif
  | _ => none

/-- What is said of a name that no format has. -/
def unknownName (name : String) : Bytes :=
  utf8 "unknown diagnostics format: " ++ utf8 name

end DiagnosticFormat

/-- The errors of a source in a format. -/
def diagnostics (format : DiagnosticFormat) (color : Bool) (errors : List BracketError)
    (source : Bytes) : Bytes :=
  match format with
  | .human => errors.flatMap fun e => e.shown color source
  | .json => encode (BracketError.listJson errors).indented ++ utf8 "\n"
  | .sarif => (Report.ofErrors errors source).text ++ utf8 "\n"

end TapeLang
