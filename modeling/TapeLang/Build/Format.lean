import TapeLang.Assembly.Arch

/-!
# Output formats

A program is written as an executable or as an assembly listing.

* `Format.ofName?`: a format by its name.
* `FormatChoice`: a format chosen by number, which need not exist.
-/

namespace TapeLang

/-- What a program is written as. -/
inductive Format where
  /-- An assembled and linked executable. -/
  | elf
  /-- An assembly listing. -/
  | asm
  deriving DecidableEq, Repr

namespace Format

/-- The name of a format. -/
def name : Format → String
  | .elf => "elf"
  | .asm => "asm"

/-- The format with a name, in any case. -/
def ofName? (text : Bytes) : Option Format :=
  [Format.elf, .asm].find? fun f => Text.namedBy [f.name] text

/-- What is said of a name that no format has. -/
def unknownName (text : Bytes) : Bytes :=
  utf8 "unsupported format " ++ Text.quoted text ++ utf8 " (want asm or elf)"

end Format

/-- A format chosen by number. -/
inductive FormatChoice where
  | known (format : Format)
  /-- A number that no format has. -/
  | unknown (id : Int64)
  deriving DecidableEq, Repr

namespace FormatChoice

/-- The format with a number. -/
def ofId (id : Int64) : FormatChoice :=
  if id = 0 then .known .elf else if id = 1 then .known .asm else .unknown id

/-- The number of a choice. -/
def id : FormatChoice → Int64
  | .known .elf => 0
  | .known .asm => 1
  | .unknown id => id

/-- The name of a choice. -/
def name : FormatChoice → String
  | .known format => format.name
  | .unknown id => "Format(" ++ toString id.toInt ++ ")"

/-- What is said of a choice that cannot be written. -/
def unsupported (choice : FormatChoice) : Bytes :=
  utf8 "unsupported format " ++ utf8 choice.name

end FormatChoice

end TapeLang
