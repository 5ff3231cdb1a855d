import TapeLang.Text.Base64
import TapeLang.Yaml.Number
import TapeLang.Yaml.Timestamp

/-!
# What scalars mean

A plain scalar is taken for a number, a truth value, a date or nothing, if it looks like one. A
scalar with one of the tags for these has to be what the tag says, and with any other tag it is a
text.

* `Tag`: the tags of nodes.
* `Tag.implied`: the tag of a plain scalar without one.
* `Meaning.of?`: what a scalar with a tag stands for.
-/

namespace TapeLang.Yaml

/-- The tags of nodes: the standard ones, and any others by their short names. -/
inductive Tag where
  | null
  | bool
  | str
  | int
  | float
  | timestamp
  | seq
  | map
  | binary
  | merge
  | other (name : Bytes)
  deriving DecidableEq, Repr

namespace Tag

/-- The short name of a tag. -/
def name : Tag → Bytes
  | .null => utf8 "!!null"
  | .bool => utf8 "!!bool"
  | .str => utf8 "!!str"
  | .int => utf8 "!!int"
  | .float => utf8 "!!float"
  | .timestamp => utf8 "!!timestamp"
  | .seq => utf8 "!!seq"
  | .map => utf8 "!!map"
  | .binary => utf8 "!!binary"
  | .merge => utf8 "!!merge"
  | .other name => name

/-- The standard tags. -/
def standard : List Tag :=
  [.null, .bool, .str, .int, .float, .timestamp, .seq, .map, .binary, .merge]

/-- Where the standard tags start in full. -/
def standardStart : Bytes := utf8 "tag:yaml.org,2002:"

/-- The tag with a name, in full or short. -/
def ofName (name : Bytes) : Tag :=
  let short := match Text.dropStart? standardStart name with
    | some rest => utf8 "!!" ++ rest
    | none => name
  (standard.find? fun t => t.name = short).getD (.other short)

end Tag

/-! ## Looks -/

/-- What a scalar may look like. -/
inductive Look where
  | null
  | bool
  | int (width : IntegerWidth)
  | float
  | timestamp
  | text
  deriving DecidableEq, Repr

/-- The scalars with a meaning of their own. -/
def Look.words : List (String × Look) :=
  [("", .null), ("~", .null), ("null", .null), ("Null", .null), ("NULL", .null),
    ("true", .bool), ("True", .bool), ("TRUE", .bool),
    ("false", .bool), ("False", .bool), ("FALSE", .bool),
    (".nan", .float), (".NaN", .float), (".NAN", .float),
    (".inf", .float), (".Inf", .float), (".INF", .float),
    ("+.inf", .float), ("+.Inf", .float), ("+.INF", .float),
    ("-.inf", .float), ("-.Inf", .float), ("-.INF", .float)]

/-- What a scalar looks like; a date is only looked for if `dates` says so. -/
def Look.of (dates : Bool) (text : List Char) : Look :=
  match words.lookup (String.ofList text), text with
  | some look, _ => look
  | none, [] => .null
  | none, c :: _ =>
    if c = '.' then if isSpacedFloat text then .float else .text
    else if c.isDigit || c = '+' || c = '-' then
      if dates && isTimestamp text then .timestamp
      else
        match integer? text with
        | some width => .int width
        | none => if isFloat (withoutUnderscores text) then .float else .text
    else .text

/-- The tag for a look. -/
def Look.tag : Look → Tag
  | .null => .null
  | .bool => .bool
  | .int _ => .int
  | .float => .float
  | .timestamp => .timestamp
  | .text => .str

/-- The tag of a plain scalar without one. -/
def Tag.implied (text : List Char) : Tag :=
  (Look.of true text).tag

/-! ## Meanings -/

/-- What a scalar stands for. -/
inductive Meaning where
  | nothing
  | text (value : Bytes)
  /-- A number, a truth value or a date. -/
  | value
  deriving DecidableEq, Repr

/-- What a scalar with a tag stands for, if the two go together. -/
def Meaning.of? (tag : Tag) (text : List Char) : Option Meaning :=
  match tag with
  | .binary => (Text.decodeBase64? text).map .text
  | .str | .seq | .map | .merge | .other _ => some (.text (encode text))
  | .null => if Look.of false text = .null then some .nothing else none
  | .bool => if Look.of false text = .bool then some .value else none
  | .timestamp => if Look.of true text = .timestamp then some .value else none
  | .int => if (Look.of false text).tag = .int then some .value else none
  | .float =>
    match Look.of false text with
    | .float | .int .signed => some .value
    | _ => none

end TapeLang.Yaml
