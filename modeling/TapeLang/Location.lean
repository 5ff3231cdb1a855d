import TapeLang.Text.Bytes

/-!
# Source locations

A location is a line and a column of a named source, both counted from one; columns count bytes.

* `Location.text`: the form `file:line:column` of messages.
-/

namespace TapeLang

/-- A position in a named source. -/
structure Location where
  file : Bytes := []
  line : Int64 := 0
  column : Int64 := 0
  deriving DecidableEq, Repr

/-- The location as `file:line:column`. -/
def Location.text (loc : Location) : Bytes :=
  loc.file ++ [Text.ascii ':'] ++ Text.decimal loc.line.toInt ++ [Text.ascii ':'] ++
    Text.decimal loc.column.toInt

end TapeLang
