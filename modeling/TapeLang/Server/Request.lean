import TapeLang.Assembly.Listing
import TapeLang.Json.Tree
import TapeLang.Parse

/-!
# Requests and responses

The server answers requests that are JSON objects with a type and a payload. Sources with bracket
errors are not failures: their errors are the result.

* `Request.decode`: a request from a JSON value.
* `Request.respond`: the response to a request; a request to close has none.
-/

namespace TapeLang.Server

/-- A request. -/
structure Request where
  type : String := ""
  /-- What the request is about, if it says so. -/
  payload : Option Json := none
  deriving Repr

/-- Reads a field of a request. -/
def Request.field (r : Request) : String × Json → Decode.Decoder Request
  | (key, v) => do
    if Json.sameField "type" key then return { r with type := ← Decode.string r.type v }
    else if Json.sameField "payload" key then return { r with payload := some v }
    else return r

/-- Reads a request from a JSON value. -/
def Request.decode (v : Json) : Except DecodeError Request :=
  Decode.run (Decode.fields Request.field {} v)

/-- A response. -/
inductive Response where
  | success (type : String) (data : Json)
  | failure (type : String) (error : String)
  deriving Repr

/-- A response as JSON. -/
def Response.toJson : Response → Json
  | .success type data =>
    .object [("success", .bool true), ("type", .string type), ("data", data)]
  | .failure type error =>
    .object ([("success", .bool false), ("type", .string type)] ++
      if error.isEmpty then [] else [("error", .string error)])

/-- What is said of JSON that makes no sense. -/
def malformedText : String := "JSON"

/-- The response that greets a client. -/
def ready : Response :=
  .success "ready" (.object [("version", .string "1.0.0"),
    ("arches", .array [.string Arch.amd64.name, .string Arch.x86.name])])

/-! ## Payloads -/

/-- What a request is about. -/
structure Payload where
  file : String := ""
  source : String := ""
  arch : String := ""
  deriving DecidableEq, Repr

/-- Reads a field of a payload; only a request to compile has an architecture. -/
def Payload.field (withArch : Bool) (p : Payload) : String × Json → Decode.Decoder Payload
  | (key, v) => do
    if Json.sameField "file" key then return { p with file := ← Decode.string p.file v }
    else if Json.sameField "source" key then return { p with source := ← Decode.string p.source v }
    else if withArch && Json.sameField "arch" key then
      return { p with arch := ← Decode.string p.arch v }
    else return p

/-- Reads a payload. A missing one is malformed. -/
def Payload.decode (withArch : Bool) : Option Json → Except DecodeError Payload
  | none => .error .malformed
  | some v => Decode.run (Decode.fields (Payload.field withArch) {} v)

/-- The name of the source; it has one even if none was given. -/
def Payload.fileName (p : Payload) : String :=
  if p.file.isEmpty then "<stdin>" else p.file

/-- Parses the source of a payload. -/
def Payload.parse (p : Payload) : Except (List BracketError) (List Node) :=
  TapeLang.parse (utf8 p.fileName) (utf8 p.source)

/-! ## Answers -/

/-- The field with the bracket errors of a source. -/
def diagnosticsField (errors : List BracketError) : String × Json :=
  ("diagnostics", BracketError.listJson errors)

/-- Answers whether a source is well formed. -/
def check (p : Payload) : Response :=
  let errors := match p.parse with
    | .ok _ => []
    | .error errors => errors
  .success "check" (.object [("file", .string p.fileName), diagnosticsField errors])

/-- Answers with the tree of a source. -/
def tree (p : Payload) : Response :=
  let (nodes, errors) := match p.parse with
    | .ok nodes => (nodes, [])
    | .error errors => ([], errors)
  let treeField := if nodes.isEmpty then [] else [("tree", Node.listJson nodes)]
  .success "tree"
    (.object ([("file", .string p.fileName)] ++ treeField ++ [diagnosticsField errors]))

/-- A result of compiling. -/
def compiled (p : Payload) (arch : Arch) (text : Bytes) (errors : List BracketError) : Response :=
  let assembly := if text.isEmpty then [] else [("assembly", .string (Text.lossyString text))]
  .success "compile" (.object (
    [("file", .string p.fileName), ("arch", .string arch.name)] ++ assembly ++
      [("bytes", .int text.length), diagnosticsField errors]))

/-- Answers with the listing of a source. -/
def compile (p : Payload) : Response :=
  let arch := if p.arch.isEmpty then some .amd64 else Arch.ofName? (utf8 p.arch)
  match arch with
  | none => .failure "compile" (Text.lossyString (Arch.unknownName (utf8 p.arch)))
  | some arch =>
    match p.parse with
    | .error errors => compiled p arch [] errors
    | .ok nodes =>
      let listing := arch.listing nodes
      match listing.failure with
      | some u => .failure "compile" (Text.lossyString u.message)
      | none => compiled p arch listing.text []

/-- Answers a request whose payload is needed. -/
def answer (type : String) (withArch : Bool) (handle : Payload → Response)
    (payload : Option Json) : Response :=
  match Payload.decode withArch payload with
  | .ok p => handle p
  | .error _ => .failure type malformedText

/-- The response to a request, or nothing if the request is to close. -/
def Request.respond (r : Request) : Option Response :=
  match r.type with
  | "check" => some (answer "check" false check r.payload)
  | "tree" => some (answer "tree" false tree r.payload)
  | "compile" => some (answer "compile" true compile r.payload)
  | "close" => none
  | type => some (.failure "unknown" ("unknown request type: " ++ type))

end TapeLang.Server
