import TapeLang.Workspace.Path

/-!
# Workspaces

A workspace is the part of a file system that a compilation can see: files, directories, and the
directory that paths without a leading slash start from. Reading and writing fail the way the
operating system fails, and an error names the action, the path and the cause.

* `Workspace.read`, `Workspace.write`: the content of a file.
* `Workspace.changes`: the files that one workspace has and another has not.
-/

namespace TapeLang

/-- Why the operating system refuses an action. -/
inductive FileCause where
  | notFound
  | notDirectory
  | isDirectory
  | denied
  | nameTooLong
  | invalid
  /-- A file that cannot be run. -/
  | badFormat
  deriving DecidableEq, Repr

/-- The text of a cause. -/
def FileCause.message : FileCause → String
  | .notFound => "no such file or directory"
  | .notDirectory => "not a directory"
  | .isDirectory => "is a directory"
  | .denied => "permission denied"
  | .nameTooLong => "file name too long"
  | .invalid => "invalid argument"
  | .badFormat => "exec format error"

/-- An action on a path that was refused. -/
structure FileError where
  action : String
  path : Bytes
  cause : FileCause
  deriving DecidableEq, Repr

/-- The text of a file error. -/
def FileError.message (e : FileError) : Bytes :=
  utf8 e.action ++ utf8 " " ++ e.path ++ utf8 ": " ++ utf8 e.cause.message

/-- What stands under a name. -/
inductive Entry where
  | file (content : Bytes) (executable : Bool)
  | directory
  /-- Reads as empty and swallows what is written. -/
  | null
  deriving DecidableEq, Repr

/-- A place in a file system: its names from the root. -/
abbrev Place := List Bytes

/-- Files and directories, and where paths start. -/
structure Workspace where
  /-- The working directory. -/
  home : Place
  entries : List (Place × Entry) := []
  deriving Repr

namespace Workspace

/-- The entry at a place. The root, the working directory and those around it always exist. -/
def entry? (w : Workspace) (place : Place) : Option Entry :=
  match w.entries.lookup place with
  | some entry => some entry
  | none =>
    if place.isPrefixOf w.home then some .directory
    else if place = [utf8 "dev", utf8 "null"] then some .null
    else if place = [utf8 "dev"] then some .directory
    else none

/-- Puts an entry at a place. -/
def set (w : Workspace) (place : Place) (entry : Entry) : Workspace :=
  { w with entries := (place, entry) :: w.entries.filter fun e => e.1 ≠ place }

/-- The text of the working directory. -/
def homePath (w : Workspace) : Bytes :=
  Path.separator :: Path.ofNames w.home

/-- The place that the text of a path means, whether there is anything or not. -/
def placeOf (w : Workspace) (path : Bytes) : Place :=
  Path.names (if Path.isAbsolute path then Path.clean path else Path.join w.homePath path)

/-- Makes the directories along some names, starting at a place. -/
def makeDirectories (w : Workspace) (place : Place) : List Bytes → Workspace
  | [] => w
  | name :: rest => (w.set (place ++ [name]) .directory).makeDirectories (place ++ [name]) rest

/-- Adds a directory and those around it. -/
def addDirectory (w : Workspace) (path : Bytes) : Workspace :=
  w.makeDirectories [] (w.placeOf path)

/-- Adds a file and the directories around it. -/
def addFile (w : Workspace) (path content : Bytes) (executable : Bool) : Workspace :=
  let place := w.placeOf path
  (w.makeDirectories [] place.dropLast).set place (.file content executable)

/-! ## Following a path -/

/-- The longest name. -/
def nameLimit : Nat := 255

/-- The length from which a path is too long. -/
def pathLimit : Nat := 4096

/-- Follows names from a directory. What the last name means need not exist. -/
def follow (w : Workspace) (place : Place) : List Bytes → Except FileCause Place
  | [] => .ok place
  | name :: rest =>
    if name = Path.self then w.follow place rest
    else if name = Path.parent then w.follow place.dropLast rest
    else if nameLimit < name.length then .error .nameTooLong
    else
      let next := place ++ [name]
      if rest.isEmpty then .ok next
      else
        match w.entry? next with
        | some .directory => w.follow next rest
        | some _ => .error .notDirectory
        | none => .error .notFound

/-- The place that a path means. -/
def locate (w : Workspace) (path : Bytes) : Except FileCause Place :=
  if path.isEmpty then .error .notFound
  else if path.contains 0 then .error .invalid
  else if pathLimit ≤ path.length then .error .nameTooLong
  else w.follow (if Path.isAbsolute path then [] else w.home) (Path.names path)

/-- The entry that a path means. A path that ends with a slash means a directory only. -/
def find (w : Workspace) (path : Bytes) : Except FileCause Entry := do
  match w.entry? (← w.locate path) with
  | none => throw .notFound
  | some .directory => return .directory
  | some entry => if Path.endsWithSlash path then throw .notDirectory else return entry

/-- Whether a path means a directory. -/
def isDirectory (w : Workspace) (path : Bytes) : Bool :=
  match w.find path with
  | .ok .directory => true
  | _ => false

/-- The content of a file. A directory can be opened but not read. -/
def read (w : Workspace) (path : Bytes) : Except FileError Bytes :=
  match w.find path with
  | .error cause => .error ⟨"open", path, cause⟩
  | .ok .directory => .error ⟨"read", path, .isDirectory⟩
  | .ok .null => .ok []
  | .ok (.file content _) => .ok content

/-- The place of a file that can be written, whether it exists or not. -/
def writable (w : Workspace) (path : Bytes) : Except FileCause Place := do
  let place ← w.locate path
  if Path.endsWithSlash path then throw .isDirectory
  if w.entry? place = some .directory then throw .isDirectory
  return place

/-- Gives the file at a place a content; a new file is not executable. -/
def put (w : Workspace) (place : Place) (content : Bytes) : Workspace :=
  match w.entry? place with
  | some (.file _ executable) => w.set place (.file content executable)
  | some _ => w
  | none => w.set place (.file content false)

/-- The content of the file at a place. -/
def contentAt (w : Workspace) (place : Place) : Bytes :=
  match w.entry? place with
  | some (.file content _) => content
  | _ => []

/-- Creates a file, or replaces its content. -/
def write (w : Workspace) (path content : Bytes) : Except FileError Workspace :=
  match w.writable path with
  | .ok place => .ok (w.put place content)
  | .error cause => .error ⟨"open", path, cause⟩

/-! ## Comparison -/

/-- The path of a place below the working directory. -/
def relative? (w : Workspace) (place : Place) : Option Bytes :=
  if w.home.isPrefixOf place then some (Path.ofNames (place.drop w.home.length)) else none

/-- The files that `before` does not have with the same content. -/
def changes (before after : Workspace) : List (Place × Bytes) :=
  after.entries.filterMap fun (place, entry) =>
    match entry with
    | .file content _ =>
      match before.entry? place with
      | some (.file old _) => if content = old then none else some (place, content)
      | _ => some (place, content)
    | _ => none

end Workspace

end TapeLang
