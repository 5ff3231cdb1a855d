import TapeLang.Json.Tree
import TapeLang.Line

/-!
# Reports for other tools

Bracket errors can be reported in the SARIF 2.1.0 format. A report declares the rules it knows and
has one result for each error, with the source line as a snippet.

* `Report.ofErrors`: the report on the errors of a source.
* `Report.toJson`: a report as JSON.
-/

namespace TapeLang

/-- An error of a report with the line it stands in. -/
structure Finding where
  error : BracketError
  /-- The source line, or nothing. -/
  snippet : Bytes := []
  deriving DecidableEq, Repr

/-- A report. -/
structure Report where
  rules : List Defect := []
  results : List Finding := []
  deriving DecidableEq, Repr

namespace Report

/-- Declares a rule. -/
def addRule (r : Report) (d : Defect) : Report :=
  { r with rules := r.rules ++ [d] }

/-- Adds a result for an error in a source. -/
def addResult (r : Report) (source : Bytes) (e : BracketError) : Report :=
  { r with results := r.results ++ [⟨e, (lineText? source e.loc.line).getD []⟩] }

/-- The report on the errors of a source. -/
def ofErrors (errors : List BracketError) (source : Bytes) : Report :=
  errors.foldl (fun r e => r.addResult source e)
    ((({} : Report).addRule .unterminatedLoop).addRule .unmatchedTerminator)

/-- The address of a file: an absolute path gets a scheme. -/
def fileUri (path : Bytes) : Bytes :=
  if path.head? = some (Text.ascii '/') then utf8 "file://" ++ path else path

/-- An object with the address of a file only. -/
def uriJson (path : Bytes) : Json :=
  .object [("uri", .string (Text.lossyString (fileUri path)))]

/-- An object with a text only. -/
def textJson (text : String) : Json :=
  .object [("text", .string text)]

/-- A rule as JSON. -/
def ruleJson (d : Defect) : Json :=
  .object [("id", .string d.rule), ("name", .string d.message),
    ("shortDescription", textJson d.message)]

/-- The place of a finding as JSON; it is one column wide. -/
def regionJson (f : Finding) : Json :=
  let loc := f.error.loc
  .object [("startLine", .int loc.line.toInt), ("startColumn", .int loc.column.toInt),
    ("endLine", .int loc.line.toInt), ("endColumn", .int (loc.column + 1).toInt),
    ("snippet", textJson (Text.lossyString f.snippet))]

/-- A finding as JSON. -/
def resultJson (f : Finding) : Json :=
  .object [("ruleId", .string f.error.defect.rule), ("level", .string "error"),
    ("message", textJson f.error.defect.message),
    ("locations", .array [.object [("physicalLocation", .object [
      ("artifactLocation", uriJson f.error.loc.file), ("region", regionJson f)])]])]

/-- The address of the format's schema. -/
def schema : String :=
  "https://raw.githubusercontent.com/oasis-tcs/sarif-spec/master/Schemata/sarif-schema-2.1.0.json"

/-- A report as JSON. -/
def toJson (r : Report) : Json :=
  let rules := if r.rules.isEmpty then [] else [("rules", .array (r.rules.map ruleJson))]
  .object [("$schema", .string schema), ("version", .string "2.1.0"),
    ("runs", .array [.object [
      ("tool", .object [("driver", .object
        ([("name", .string "bfc"), ("version", .string "0.1.0")] ++ rules))]),
      ("results", .array (r.results.map resultJson))]])]

/-- A report as text. -/
def text (r : Report) : Bytes :=
  encode r.toJson.indented

end Report

end TapeLang
