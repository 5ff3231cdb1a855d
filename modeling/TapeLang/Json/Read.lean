import TapeLang.Json.Token
import TapeLang.Json.Value

/-!
# Reading JSON

Tokens are put together to values with a stack of the containers that are still open. Each token
takes one step, so reading ends with the text; containers may be nested 10000 deep.

* `Json.readNext?`: the next value of a stream of tokens.
* `Json.read?`: the value of a text that holds nothing else.
* `Json.sameField`: whether a key names a field.
-/

namespace TapeLang.Json

/-- A container that is open. -/
inductive Frame where
  /-- The items read so far, last first. -/
  | array (items : List Json)
  /-- The fields read so far, last first, and the key whose value comes next. -/
  | object (fields : List (String × Json)) (key : String)
  deriving Repr

/-- The frame after one more value. -/
def Frame.add : Frame → Json → Frame
  | .array items, v => .array (v :: items)
  | .object fields key, v => .object ((key, v) :: fields) key

/-- The value of a frame that ends here. -/
def Frame.close : Frame → Json
  | .array items => .array items.reverse
  | .object fields _ => .object fields.reverse

/-- What may come next, and the containers around it, innermost first. -/
inductive Reading where
  | value (stack : List Frame)
  | firstItem (stack : List Frame)
  | firstKey (stack : List Frame)
  | key (fields : List (String × Json)) (stack : List Frame)
  | colon (fields : List (String × Json)) (key : String) (stack : List Frame)
  | after (frame : Frame) (stack : List Frame)
  deriving Repr

/-- How a token moves the reading on. -/
inductive Progress where
  | more (r : Reading)
  | done (v : Json)
  | malformed
  deriving Repr

/-- How deep containers may be nested. -/
def maxDepth : Nat := 10000

/-- A value is complete inside the given containers. -/
def finish (v : Json) : List Frame → Progress
  | [] => .done v
  | frame :: stack => .more (.after (frame.add v) stack)

/-- A container is opened inside the given ones. -/
def enter (stack : List Frame) (r : Reading) : Progress :=
  if stack.length < maxDepth then .more r else .malformed

/-- A token where a value is due. -/
def stepValue (stack : List Frame) : Token → Progress
  | .null => finish .null stack
  | .bool b => finish (.bool b) stack
  | .number literal => finish (.number literal) stack
  | .string s => finish (.string s) stack
  | .beginArray => enter stack (.firstItem stack)
  | .beginObject => enter stack (.firstKey stack)
  | _ => .malformed

/-- Moves the reading on by a token. -/
def step : Reading → Token → Progress
  | .value stack, t => stepValue stack t
  | .firstItem stack, .endArray => finish (.array []) stack
  | .firstItem stack, t => stepValue (.array [] :: stack) t
  | .firstKey stack, .endObject => finish (.object []) stack
  | .firstKey stack, .string key => .more (.colon [] key stack)
  | .key fields stack, .string key => .more (.colon fields key stack)
  | .colon fields key stack, .colon => .more (.value (.object fields key :: stack))
  | .after (.array items) stack, .comma => .more (.value (.array items :: stack))
  | .after (.array items) stack, .endArray => finish (Frame.array items).close stack
  | .after (.object fields _) stack, .comma => .more (.key fields stack)
  | .after (.object fields key) stack, .endObject => finish (Frame.object fields key).close stack
  | _, _ => .malformed

/-- Reads one value, and gives the tokens after it. -/
def readFrom : Reading → List Token → Option (Json × List Token)
  | _, [] => none
  | r, t :: rest =>
    match step r t with
    | .more r => readFrom r rest
    | .done v => some (v, rest)
    | .malformed => none

/-- The next value of a stream of tokens, and the tokens after it. -/
def readNext? (tokens : List Token) : Option (Json × List Token) :=
  readFrom (.value []) tokens

/-- The value of a text that holds one value and nothing else. -/
def read? (text : List Char) : Option Json :=
  match readNext? (Token.scan text) with
  | some (v, []) => some v
  | _ => none

theorem length_readFrom {r : Reading} {tokens rest : List Token} {v : Json}
    (h : readFrom r tokens = some (v, rest)) : rest.length < tokens.length := by
  fun_induction readFrom r tokens <;> grind

/-! ## Fields -/

/-- A character with its case forgotten, as far as keys go. -/
def foldCase (c : Char) : Char :=
  if c = '\u212a' then 'k'
  else if c = '\u017f' then 's'
  else c.toLower

/-- Whether a key names a field: upper and lower case count as the same. -/
def sameField (name key : String) : Bool :=
  name.toList.map foldCase == key.toList.map foldCase

/-- The integer of a literal with neither point nor exponent, if it fits in 64 bits. -/
def int64? (literal : List Char) : Option Int64 :=
  let (negative, digits) := match literal with
    | '-' :: digits => (true, digits)
    | digits => (false, digits)
  if digits.all Char.isDigit && !digits.isEmpty then
    let n : Nat := digits.foldl (fun n c => 10 * n + (c.toNat - 0x30)) 0
    let i : Int := if negative then -n else n
    if -0x8000000000000000 ≤ i ∧ i < 0x8000000000000000 then some (Int64.ofInt i) else none
  else none

end TapeLang.Json
