import ScriptHost.Disk.Difference
import ScriptHost.Disk.Fresh
import ScriptHost.Tool

/-! The program: it takes a picture of the file system, runs the tool on it, and writes back what
the tool has added or changed. The picture holds all below the current directory, and what the
arguments name from the root. -/

namespace ScriptHost.Shell

/-- A file that cannot be read, as one whose bytes are no text. -/
def unreadable : Node := .file ⟨#[0xff]⟩

/-- A link that leads to a name that nothing can have. -/
def dangling : Node := .link "\x00"

/-- The node that a path names. A directory that cannot be listed is taken for an empty one. -/
partial def picture (path : String) : IO Node := do
  let file := (← IO.currentDir) / path
  match (← file.symlinkMetadata).type with
  | .dir =>
    let mut entries := []
    for entry in ← try file.readDir catch _ => pure #[] do
      entries := insertByName entry.fileName (← picture entry.path.toString) entries
    return .directory entries
  | .symlink =>
    try return .link (← IO.FS.realPath file).toString
    catch _ => return dangling
  | _ =>
    try return .file (← IO.FS.readBinFile file)
    catch _ => return unreadable

/-- A disk with the node that a rooted path names, if there is one. -/
def mount (disk : Disk) (path : String) : IO Disk := do
  if ← ((← IO.currentDir) / path).pathExists then
    let node ← picture path
    return { disk with root := node.put (path.splitOn "/" |>.filter (· != "")) disk.root }
  else return disk

/-- The picture that the tool works on. -/
def disk (arguments : List String) : IO Disk := do
  let here := (← IO.currentDir).toString
  let mut disk := Disk.fresh
  for path in arguments.filter FileName.isRooted ++ [here] do
    disk ← mount disk path
  return (disk.enter? here).getD disk

def restore (path : String) : Entry → IO Unit
  | .directory => IO.FS.createDir path
  | .file bytes => IO.FS.writeBinFile path bytes
  | .link _ => return

/-- Runs the tool on a picture of the file system, and carries out what came of it. -/
def run (arguments : List String) : IO UInt32 := do
  let before ← disk arguments
  let stdin ←
    if arguments.contains "--stdin" then (← IO.getStdin).readBinToEnd else pure .empty
  let exit := Tool.run arguments stdin before
  for (path, entry) in exit.disk.since before do
    restore path entry
  IO.print exit.output
  IO.eprint exit.errors
  return exit.status.toUInt32

end ScriptHost.Shell

/-- Runs the tool on the arguments of the process. -/
def main (arguments : List String) : IO UInt32 := ScriptHost.Shell.run arguments
