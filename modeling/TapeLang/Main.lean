import TapeLang.CommandLine.Run

/-!
# The program

The command line is carried out on a copy of the files that it mentions; what has changed in the
copy is then written back. Tools are scripts, and the built-in shell runs them.
-/

namespace TapeLang.Main

/-- The bytes of a text that was read. -/
def toBytes (data : ByteArray) : Bytes :=
  data.toList

/-- Reads a stream to its end. -/
partial def readAll (stream : IO.FS.Stream) (acc : ByteArray) : IO ByteArray := do
  let data ← stream.read 65536
  if data.isEmpty then return acc else readAll stream (acc ++ data)

/-- Whether there is a directory at a path. -/
def isDirectory (path : String) : IO Bool := do
  try (← IO.FS.realPath path).isDir
  catch _ => return false

/-- Copies what stands at a path into a workspace; of a file that does not exist, the directory
around it. -/
def copyIn (w : Workspace) (path : Bytes) : IO Workspace := do
  let name := Text.lossyString path
  if ← isDirectory name then return w.addDirectory path
  try
    let content := toBytes (← IO.FS.readBinFile name)
    return w.addFile path content ((utf8 "#!").isPrefixOf content)
  catch _ =>
    let around := Path.separator :: Path.ofNames (w.placeOf path).dropLast
    if ← isDirectory (Text.lossyString around) then return w.addDirectory around
    return w

/-- Writes the files of a workspace that have changed. -/
def copyOut (before after : Workspace) : IO Unit := do
  for (place, content) in before.changes after do
    let path := Path.separator :: Path.ofNames place
    IO.FS.writeBinFile (Text.lossyString path) (ByteArray.mk content.toArray)

/-- Writes bytes to a stream. -/
def put (stream : IO.FS.Stream) (text : Bytes) : IO Unit := do
  stream.write (ByteArray.mk text.toArray)
  stream.flush

end TapeLang.Main

open TapeLang in
/-- Carries out a command line, and returns its exit status. -/
def main (args : List String) : IO UInt32 := do
  let home := (← IO.currentDir).toString
  let plain := !((← IO.getEnv "NO_COLOR").getD "").isEmpty
  let empty : Workspace := { home := Path.names (utf8 home) }
  let bare : CommandLine.Invocation := { words := args.map utf8, workspace := empty, plain }
  let mut workspace ← bare.mentioned.foldlM Main.copyIn empty
  for path in bare.mentioned do
    if let .ok settings := Config.load workspace path then
      workspace ← (CommandLine.Invocation.mentionedIn settings).foldlM Main.copyIn workspace
  let input ← if bare.readsInput then Main.readAll (← IO.getStdin) .empty else pure .empty
  let outcome := { bare with workspace, input := Main.toBytes input : CommandLine.Invocation }.run
  Main.copyOut workspace outcome.workspace
  Main.put (← IO.getStdout) outcome.output
  Main.put (← IO.getStderr) (outcome.errors ++ outcome.report)
  return UInt32.ofNat outcome.status
