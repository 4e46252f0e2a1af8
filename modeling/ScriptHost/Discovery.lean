import ScriptHost.Descriptor
import ScriptHost.Disk
import ScriptHost.FileName

/-! The sources below a directory: a walk through all that is there, and what a search picks from
it. A walk does not follow links, except that it may start at one. -/

namespace ScriptHost

inductive FileType where
  | file
  | link
  | directory
  deriving DecidableEq, Repr

/-- What a walk meets. -/
structure WalkEntry where
  path : String
  fileType : FileType
  deriving DecidableEq, Repr

mutual

/-- All steps of a walk through a node of the given path. The step into a directory whose path is
too long fails. -/
def Node.walkDir (path : String) : Node → List (Except WalkError WalkEntry)
  | .file _ => [.ok ⟨path, .file⟩]
  | .link _ => [.ok ⟨path, .link⟩]
  | .directory entries =>
    .ok ⟨path, .directory⟩ ::
      if Disk.maxPath < path.utf8ByteSize then [.error ⟨path, .nameTooLong⟩]
      else walkEntries path entries

def walkEntries (directory : String) : List (String × Node) → List (Except WalkError WalkEntry)
  | [] => []
  | (name, node) :: entries =>
    node.walkDir (FileName.child directory name) ++ walkEntries directory entries

end

/-- Whether an entry is a source, which only a file is, whatever its name. -/
def WalkEntry.isSource (entry : WalkEntry) : Bool :=
  entry.fileType == .file && FileName.isSource entry.path

namespace Disk

/-- All steps of a walk that starts at a root. A link there is met as one, and what it leads to is
walked through if that is a directory. -/
def walkDir (disk : Disk) (root : String) : List (Except WalkError WalkEntry) :=
  match disk.resolve .lookAtLink root with
  | .error failure => [.error ⟨root, failure⟩]
  | .ok (.missing _) => [.error ⟨root, .notFound⟩]
  | .ok (.file _ _) => [.ok ⟨root, .file⟩]
  | .ok (.directory place) => (Node.directory (disk.entriesAt place)).walkDir root
  | .ok (.link _ _) =>
    match disk.resolve .look root with
    | .error failure => [.error ⟨root, failure⟩]
    | .ok (.missing _) => [.error ⟨root, .notFound⟩]
    | .ok (.directory place) => .ok ⟨root, .link⟩ :: walkEntries root (disk.entriesAt place)
    | .ok _ => [.ok ⟨root, .link⟩]

/-- Descriptors of all sources that a walk meets, unless one of its steps fails. -/
def discover (disk : Disk) (root : String) : Except DiscoveryError (List Descriptor) := do
  let entries ← (disk.walkDir root).mapM fun step => step.mapError (⟨root, ·⟩)
  return (entries.filter WalkEntry.isSource).map (.file ·.path)

end Disk

end ScriptHost
