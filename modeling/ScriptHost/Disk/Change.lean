import ScriptHost.Disk
import ScriptHost.FileName

/-! Changes of a disk from outside: new entries, removals, and another current directory. -/

namespace ScriptHost

/-- An entry to be made on a disk. -/
inductive Entry where
  | file (bytes : ByteArray)
  | link (target : String)
  | directory

/-- Where a place is once the node at a path is gone. -/
def Place.without (path : List String) (place : Place) : Place :=
  if path.isPrefixOf place.path then
    ⟨path.reverse.tail, place.removed + (place.trail.length + 1 - path.length)⟩
  else place

namespace Disk

/-- Makes the directories of a path, given as itself and those around it, innermost first. -/
def createMissing (disk : Disk) : List String → Disk
  | [] => disk
  | path :: outer =>
    match disk.createDirectory path with
    | .ok disk => disk
    | .error .notFound =>
      let disk := disk.createMissing outer
      (disk.createDirectory path).toOption.getD disk
    | .error _ => disk

def createDirectories (disk : Disk) (path : String) : Disk :=
  disk.createMissing (path :: FileName.enclosing path)

/-- The disk with an entry made at a path, as far as it can be. -/
def plant (disk : Disk) (path : String) (entry : Entry) : Disk :=
  let disk := disk.createMissing (FileName.enclosing path)
  match entry with
  | .directory => disk.createDirectories path
  | .file bytes => (disk.writeBytes path bytes).toOption.getD disk
  | .link target =>
    if target.isEmpty then disk
    else match disk.resolve .lookAtLink path with
    | .ok (.missing path) => disk.put path (.link target)
    | _ => disk

/-- The disk with entries made one after another. -/
def plantAll (disk : Disk) (entries : List (String × Entry)) : Disk :=
  entries.foldl (fun disk entry => disk.plant entry.1 entry.2) disk

def removeAt (disk : Disk) (path : List String) : Disk :=
  { root := disk.root.erase path, current := Place.without path disk.current }

/-- The disk without what lies in the directory at a place. -/
def emptied (disk : Disk) (place : Place) : Disk :=
  (disk.entriesAt place).foldl (fun disk entry => disk.removeAt (place.path ++ [entry.1])) disk

/-- Removes the empty directory that a path names as an entry of another, without a look at slashes
behind the name. Dot names and links name no such entry. Nothing is left to do where the path leads
nowhere. -/
def removeEmptied (disk : Disk) (path : String) : Bool × Disk :=
  let names := (steps path).filter (· != "")
  match disk.walk .lookAtLink maxLinks names (origin path disk.current) with
  | .ok (.missing _) => (true, disk)
  | .error .notFound => (true, disk)
  | .ok (.directory place) =>
    if names.getLast?.any (fun name => name != "." && name != "..") then
      (true, disk.removeAt place.path)
    else (false, disk)
  | _ => (false, disk)

/-- Removes what a path names, a link as itself and a directory after all below it, and tells
whether that went well. The path is followed once more when the directory is empty, and leads
nowhere by then if it goes through what was in there. -/
def remove (disk : Disk) (path : String) : Bool × Disk :=
  match disk.resolve .lookAtLink path with
  | .ok (.file path _) => (true, disk.removeAt path)
  | .ok (.link path _) => (true, disk.removeAt path)
  | .ok (.directory place) => (disk.emptied place).removeEmptied path
  | _ => (false, disk)

def removeCurrent (disk : Disk) : Disk :=
  if disk.current.removed = 0 then disk.removeAt disk.current.path else disk

/-- The disk with another current directory, where a path leads to one. -/
def enter? (disk : Disk) (path : String) : Option Disk :=
  match disk.resolve .look path with
  | .ok (.directory place) => some { disk with current := place }
  | _ => none

end Disk

mutual

/-- Everything below a node that has a name, each with its own name after that. -/
def Node.listing (name : String) : Node → List (String × Entry)
  | .file bytes => [(name, .file bytes)]
  | .link target => [(name, .link target)]
  | .directory entries => (name, .directory) :: listingBelow (name ++ "/") entries

/-- Everything in the entries of a directory, with a text before each name. -/
def listingBelow (before : String) : List (String × Node) → List (String × Entry)
  | [] => []
  | (name, node) :: entries => node.listing (before ++ name) ++ listingBelow before entries

end

/-- Everything below the current directory, in increasing order of the names. -/
def Disk.listing (disk : Disk) : List (String × Entry) :=
  (listingBelow "" (disk.entriesAt disk.current)).mergeSort (fun a b => a.1 ≤ b.1)

end ScriptHost
