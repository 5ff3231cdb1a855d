import TapeLang.Build.Format
import TapeLang.Yaml.Tag

/-!
# Settings

A project may have a file with the settings that a compilation starts from. What it does not set
has a default.

* `Config`: the settings.
* `Config.validate`: whether they name things that exist.
* `ConfigError`: the ways for settings to be wrong.
-/

namespace TapeLang

/-- The names and flags of the tools. -/
structure ToolSettings where
  assembler : Bytes := utf8 "as"
  linker : Bytes := utf8 "ld"
  assemblerFlags : Option (List Bytes) := none
  linkerFlags : Option (List Bytes) := none
  deriving DecidableEq, Repr

/-- The settings of a compilation. -/
structure Config where
  arch : Bytes := utf8 "amd64"
  format : Bytes := utf8 "elf"
  output : Bytes := utf8 "a.out"
  tools : ToolSettings := {}
  deriving DecidableEq, Repr

/-- Something of the wrong type in a settings file. -/
inductive TypeError where
  /-- A value cannot be what is wanted. -/
  | mismatch (line : Nat) (tag : Yaml.Tag) (value : Bytes) (wanted : String)
  | unknownField (line : Nat) (name : Bytes) (type : String)
  | fieldTwice (line : Nat) (name : Bytes) (type : String)
  | keyTwice (line : Nat) (key : Bytes) (earlier : Nat)
  deriving DecidableEq, Repr

/-- A value as a type error shows it: a long one is cut. -/
def TypeError.excerpt (value : Bytes) : Bytes :=
  if 10 < value.length then value.take 7 ++ utf8 "..." else value

/-- How a type error shows a value after its tag. With the tag of a collection it stands there as
it is. -/
def TypeError.shown (tag : Yaml.Tag) (value : Bytes) : Bytes :=
  if tag = .seq || tag = .map then value else utf8 " \x60" ++ excerpt value ++ utf8 "\x60"

/-- The text of a type error. -/
def TypeError.message : TypeError → Bytes
  | .mismatch line tag value wanted =>
    utf8 "line " ++ Text.decimal line ++ utf8 ": cannot unmarshal " ++ tag.name ++
      shown tag value ++ utf8 " into " ++ utf8 wanted
  | .unknownField line name type =>
    utf8 "line " ++ Text.decimal line ++ utf8 ": field " ++ name ++
      utf8 " not found in type " ++ utf8 type
  | .fieldTwice line name type =>
    utf8 "line " ++ Text.decimal line ++ utf8 ": field " ++ name ++
      utf8 " already set in type " ++ utf8 type
  | .keyTwice line key earlier =>
    utf8 "line " ++ Text.decimal line ++ utf8 ": mapping key " ++ Text.quoted key ++
      utf8 " already defined at line " ++ Text.decimal earlier

/-- The ways for settings to be wrong. -/
inductive ConfigError where
  /-- The text makes no sense. -/
  | malformed
  | types (errors : List TypeError)
  | unknownArch (name : Bytes)
  | unknownFormat (name : Bytes)
  | emptyOutput
  deriving DecidableEq, Repr

/-- The text of a configuration error. -/
def ConfigError.message : ConfigError → Bytes
  | .malformed => utf8 "failed to parse YAML"
  | .types errors =>
    utf8 "failed to parse YAML: yaml: unmarshal errors:\n  " ++
      Text.joinWith (utf8 "\n  ") (errors.map TypeError.message)
  | .unknownArch name => Arch.unknownName name
  | .unknownFormat name => Format.unknownName name
  | .emptyOutput => utf8 "output path is empty"

namespace Config

/-- The architecture that the settings name. -/
def archOf (c : Config) : Except ConfigError Arch :=
  match Arch.ofName? c.arch with
  | some arch => .ok arch
  | none => .error (.unknownArch c.arch)

/-- The format that the settings name. -/
def formatOf (c : Config) : Except ConfigError Format :=
  match Format.ofName? c.format with
  | some format => .ok format
  | none => .error (.unknownFormat c.format)

/-- Fails unless the settings name things that exist. -/
def validate (c : Config) : Except ConfigError Unit := do
  let _ ← c.archOf
  let _ ← c.formatOf
  if c.output.isEmpty then throw .emptyOutput

end Config

end TapeLang
