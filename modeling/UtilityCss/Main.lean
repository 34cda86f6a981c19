import UtilityCss.Command.Run

/-!
# The command line

The files that a run may look at are read into memory, the run is computed, and what it writes is
written.  Everything else is decided by `Command.run`.

Read are the tree below the working directory, the tree below the directory of the settings, and
the input and output files that the arguments name.  Links to directories are not followed.
-/

namespace UtilityCss.Command

/-- The rest of a stream. -/
partial def readAll (stream : IO.FS.Stream) (bytes : ByteArray) : IO ByteArray := do
  let more ← stream.read 65536
  if more.isEmpty then return bytes else readAll stream (bytes ++ more)

def placeOfPath (path : String) : Files.Place :=
  (Path.parts path).drop 1

/-- Adds what stands at an absolute path, and all below it. -/
partial def loadTree (ws : Workspace) (path : String) : IO Workspace := do
  let found ← IO.FS.realPath path
  if ← found.isDir then
    if found.toString != path then return ws
    let mut ws := ws.makeDirectory (placeOfPath path)
    for entry in ← found.readDir do
      ws ← loadTree ws (Path.join path entry.fileName)
    return ws
  else if ← found.pathExists then
    return ws.putFile (placeOfPath path) (← IO.FS.readBinFile path)
  else return ws

/-- Adds the file at a path, or the directory that leads to it, if there is one. -/
def loadFile (ws : Workspace) (path : String) : IO Workspace := do
  try
    let found ← IO.FS.realPath path
    if ← found.isDir then return ws.makeDirectory (placeOfPath found.toString)
    else return ws.putFile (placeOfPath found.toString) (← IO.FS.readBinFile found)
  catch _ =>
    let parent := (Path.parent? path).getD "."
    try
      let found ← IO.FS.realPath (if parent.isEmpty then "." else parent)
      return ws.makeDirectory (placeOfPath found.toString)
    catch _ => return ws

/-- The directory of the nearest settings file at or above a directory. -/
def nearestSettings (here : Files.Place) : IO (Option String) := do
  for path in settingsPaths here do
    let found ← try pure (some (← IO.FS.realPath path)) catch _ => pure none
    if let some file := found then
      if (← file.pathExists) && !(← file.isDir) then return Path.parent? path
  return none

/-- The files that a run with these arguments may look at. -/
def loadWorkspace (args : List String) : IO Workspace := do
  let cwd := (← IO.currentDir).toString
  let here := placeOfPath cwd
  let mut ws ← loadTree { Workspace.empty with here } cwd
  if let some dir ← nearestSettings here then
    if dir != cwd then ws ← loadTree ws dir
  match Arguments.read args with
  | .ok args =>
    if let some config := args.config then
      ws ← loadFile ws config
      let dir := if ws.isDirectory config then config else (Path.parent? config).getD "."
      try
        let found ← IO.FS.realPath (if dir.isEmpty then "." else dir)
        if found.toString != cwd then ws ← loadTree ws found.toString
      catch _ => pure ()
    for path in [args.input, args.output].filterMap id do
      ws ← loadFile ws path
    return ws
  | .error _ => return ws

def readsStdin (args : List String) : Bool :=
  match Arguments.read args with
  | .ok args => args.verb == .build && args.input.isNone
  | .error _ => false

/-- Writes what a run comes to and answers the exit code. -/
def settle (r : Outcome) : IO UInt32 := do
  if let some (path, bytes) := r.written then
    IO.FS.writeBinFile path bytes
  (← IO.getStdout).write r.printed
  (← IO.getStderr).putStr r.stderr
  return r.code.toUInt32

end UtilityCss.Command

open UtilityCss.Command in
def main (args : List String) : IO UInt32 := do
  try
    let ws ← loadWorkspace args
    let stdin ← if readsStdin args then readAll (← IO.getStdin) .empty else pure .empty
    let terminal ← (← IO.getStderr).isTty
    settle (run args ws stdin terminal)
  catch e =>
    IO.eprintln ("error: " ++ toString e)
    return 1
