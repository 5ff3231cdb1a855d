import TapeLang.Cursor

/-!
# Lines of a source

Diagnostics show the line an error stands in. Lines are counted from one and end at a newline; a
carriage return before it is not shown.

* `lineText?`: the text of a line.
-/

namespace TapeLang

/-- A line without the carriage return at its end. -/
def dropCarriageReturn (line : Bytes) : Bytes :=
  if line.getLast? = some (Text.ascii '\r') then line.dropLast else line

/-- The line that `n` newlines come before. -/
def lineAfter? : (n : Nat) → Bytes → Option Bytes
  | 0, text => some (dropCarriageReturn (text.takeWhile (· ≠ Cursor.newline)))
  | n + 1, text =>
    match text.dropWhile (· ≠ Cursor.newline) with
    | [] => none
    | _ :: rest => lineAfter? n rest

/-- The text of a line, if the source has that line. -/
def lineText? (source : Bytes) (line : Int64) : Option Bytes :=
  if line < 1 then none else lineAfter? (line.toInt.toNat - 1) source

end TapeLang
