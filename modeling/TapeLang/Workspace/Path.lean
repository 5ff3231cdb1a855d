import TapeLang.Text.Bytes

/-!
# Paths

A path is a list of names with slashes between them. These functions look at the text of a path
only and at no file.

* `Path.clean`: the shortest path that means the same.
* `Path.join`: a path below another.
* `Path.base`: the last name of a path.
-/

namespace TapeLang.Path

/-- The byte between two names. -/
def separator : UInt8 := Text.ascii '/'

/-- The name of a directory itself. -/
def self : Bytes := utf8 "."

/-- The name of the directory around a directory. -/
def parent : Bytes := utf8 ".."

/-- Whether a path starts at the root. -/
def isAbsolute (path : Bytes) : Bool :=
  path.head? = some separator

/-- Whether a path ends with a slash, so that it can only mean a directory. -/
def endsWithSlash (path : Bytes) : Bool :=
  path.getLast? = some separator

/-- The names of a path. -/
def names (path : Bytes) : List Bytes :=
  (Text.splitAt separator path).filter fun name => !name.isEmpty

/-- The text of names with slashes between them. -/
def ofNames (names : List Bytes) : Bytes :=
  Text.joinWith [separator] names

/-- Adds a name to a cleaned list of names, last first. The root has no parent but itself. -/
def cleanStep (rooted : Bool) (acc : List Bytes) (name : Bytes) : List Bytes :=
  if name = self then acc
  else if name = parent then
    match acc with
    | last :: before => if last = parent then name :: acc else before
    | [] => if rooted then [] else [name]
  else name :: acc

/-- The shortest path that means the same; the empty path means the directory itself. -/
def clean (path : Bytes) : Bytes :=
  let rooted := isAbsolute path
  let text := ofNames ((names path).foldl (cleanStep rooted) []).reverse
  if rooted then separator :: text else if text.isEmpty then self else text

/-- A path below a directory. -/
def join (directory path : Bytes) : Bytes :=
  if directory.isEmpty then clean path else clean (directory ++ [separator] ++ path)

/-- The last name of a path. -/
def base (path : Bytes) : Bytes :=
  match (names path).getLast? with
  | some name => name
  | none => if path.isEmpty then self else [separator]

end TapeLang.Path
