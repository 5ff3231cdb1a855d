import TapeLang.Config.Decode
import TapeLang.Workspace.Tree

/-!
# Settings files

Settings are read from a named file, or from the file with the usual name in a directory, which
need not exist.

* `Config.load`: the settings of a file.
* `Config.loadDefault`: the settings of a directory.
-/

namespace TapeLang

/-- The ways for a settings file to be wrong. -/
inductive ConfigFileError where
  | unreadable (path : Bytes) (error : FileError)
  | invalid (path : Bytes) (error : ConfigError)
  deriving DecidableEq, Repr

/-- The text of an error with a settings file. -/
def ConfigFileError.message : ConfigFileError → Bytes
  | .unreadable path error =>
    utf8 "failed to read config " ++ path ++ utf8 ": " ++ error.message
  | .invalid path error => path ++ utf8 ": " ++ error.message

namespace Config

/-- The usual name of a settings file. -/
def fileName : String := ".bfc.yaml"

/-- The settings of a file. -/
def load (w : Workspace) (path : Bytes) : Except ConfigFileError Config :=
  match w.read path with
  | .error e => .error (.unreadable path e)
  | .ok text => (parse text).mapError (.invalid path)

/-- The settings of a directory; the defaults if it has no settings file. -/
def loadDefault (w : Workspace) (directory : Bytes) : Except ConfigFileError Config :=
  match load w (Path.join directory (utf8 fileName)) with
  | .error (.unreadable path e) =>
    if e.cause = .notFound then .ok {} else .error (.unreadable path e)
  | result => result

end Config

end TapeLang
