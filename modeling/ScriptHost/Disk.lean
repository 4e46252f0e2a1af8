import ScriptHost.Disk.Node
import ScriptHost.Failure

/-! Disks, and how a path finds its way through directories and links. -/

namespace ScriptHost

/-- A directory that a process can be in: its name and those of the directories around it,
innermost first, and below it the number of directories that have been removed since. -/
structure Place where
  trail : List String
  removed : Nat := 0
  deriving DecidableEq, Repr

namespace Place

def root : Place := ⟨[], 0⟩

/-- The directory around a place; the root is its own. -/
def parent : Place → Place
  | ⟨trail, 0⟩ => ⟨trail.tail, 0⟩
  | ⟨trail, removed + 1⟩ => ⟨trail, removed⟩

def path (place : Place) : List String := place.trail.reverse

def child (place : Place) (name : String) : Place := ⟨name :: place.trail, 0⟩

end Place

/-- A file system and the directory that relative paths start from. -/
structure Disk where
  root : Node
  current : Place

inductive Spot where
  | directory (place : Place)
  | file (path : List String) (bytes : ByteArray)
  | link (path : List String) (target : String)
  /-- A name that its directory does not hold. -/
  | missing (path : List String)

/-- What a path is followed for. -/
inductive Purpose where
  /-- To look at what it leads to. -/
  | look
  /-- To look at the link itself when the last name is one. -/
  | lookAtLink
  /-- To open the file that it leads to, and create it when there is none. -/
  | create
  deriving DecidableEq

namespace Disk

def maxLinks : Nat := 40

/-- The number of bytes that a name may have. -/
def maxName : Nat := 255

/-- The number of bytes that a path may have. -/
def maxPath : Nat := 4095

/-- The names of a path, with an empty one at the end for a slash there. -/
def steps (path : String) : List String :=
  let segments := path.toList.splitOn '/'
  let names := (segments.filter (!·.isEmpty)).map String.ofList
  if path.toList.getLast? == some '/' && !names.isEmpty then names ++ [""] else names

/-- Where a path starts. -/
def origin (path : String) (place : Place) : Place :=
  if path.toList.head? == some '/' then .root else place

def entriesAt (disk : Disk) (place : Place) : List (String × Node) :=
  if place.removed = 0 then ((disk.root.find? place.path).map Node.entries).getD [] else []

/-- Follows names from a place with its entries to the first link, which is handed on with the
names behind it. -/
def follow (disk : Disk) (purpose : Purpose)
    (onLink : List String → Place → Except DiskFailure Spot) :
    List String → Place → List (String × Node) → Except DiskFailure Spot
  | [], place, _ => .ok (.directory place)
  | name :: rest, place, entries =>
    if name = "" ∨ name = "." then disk.follow purpose onLink rest place entries
    else if name = ".." then
      disk.follow purpose onLink rest place.parent (disk.entriesAt place.parent)
    else if purpose = .create ∧ rest = [""] then .error .isDirectory
    else if place.removed ≠ 0 then .error .notFound
    else if maxName < name.utf8ByteSize then .error .nameTooLong
    else
      match entries.lookup name with
      | none =>
        if rest = [] ∨ rest = [""] then .ok (.missing (place.child name).path)
        else .error .notFound
      | some (.directory below) => disk.follow purpose onLink rest (place.child name) below
      | some (.file bytes) =>
        if rest = [] then .ok (.file (place.child name).path bytes) else .error .notDirectory
      | some (.link target) =>
        if rest = [] ∧ purpose = .lookAtLink then .ok (.link (place.child name).path target)
        else onLink (steps target ++ rest) (origin target place)

/-- Follows names from a place through at most so many links. -/
def walk (disk : Disk) (purpose : Purpose) : (links : Nat) → List String → Place →
    Except DiskFailure Spot
  | 0, names, place =>
    disk.follow purpose (fun _ _ => .error .tooManyLinks) names place (disk.entriesAt place)
  | links + 1, names, place =>
    disk.follow purpose (disk.walk purpose links) names place (disk.entriesAt place)

def resolve (disk : Disk) (purpose : Purpose) (path : String) : Except DiskFailure Spot :=
  if '\x00' ∈ path.toList then .error .nulInName
  else if path = "" then .error .notFound
  else if maxPath < path.utf8ByteSize then .error .nameTooLong
  else disk.walk purpose maxLinks (steps path) (origin path disk.current)

def readBytes (disk : Disk) (path : String) : Except DiskFailure ByteArray :=
  match disk.resolve .look path with
  | .ok (.file _ bytes) => .ok bytes
  | .ok (.directory _) => .error .isDirectory
  | .ok _ => .error .notFound
  | .error failure => .error failure

def readText (disk : Disk) (path : String) : Except DiskFailure String :=
  match disk.readBytes path with
  | .ok bytes =>
    match String.fromUTF8? bytes with
    | some text => .ok text
    | none => .error .invalidText
  | .error failure => .error failure

def isDirectory (disk : Disk) (path : String) : Bool :=
  match disk.resolve .look path with
  | .ok (.directory _) => true
  | _ => false

def put (disk : Disk) (path : List String) (node : Node) : Disk :=
  { disk with root := node.put path disk.root }

def createDirectory (disk : Disk) (path : String) : Except DiskFailure Disk :=
  match disk.resolve .lookAtLink path with
  | .ok (.missing path) => .ok (disk.put path (.directory []))
  | .ok _ => .error .exists
  | .error failure => .error failure

/-- The disk with bytes written to the file at a path, in place of all that it held. -/
def writeBytes (disk : Disk) (path : String) (bytes : ByteArray) : Except DiskFailure Disk :=
  match disk.resolve .create path with
  | .ok (.missing path) => .ok (disk.put path (.file bytes))
  | .ok (.file path _) => .ok (disk.put path (.file bytes))
  | .ok _ => .error .isDirectory
  | .error failure => .error failure

def currentDirectory (disk : Disk) : Except DiskFailure String :=
  if disk.current.removed = 0 then .ok ("/" ++ "/".intercalate disk.current.path)
  else .error .notFound

/-- What response files hold: a file that cannot be read as text has no answer. -/
def responseFiles (disk : Disk) (name : String) : Option String :=
  (disk.readText name).toOption

end Disk

end ScriptHost
