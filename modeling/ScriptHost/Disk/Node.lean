import ScriptHost.NameMap

/-! Trees of directories, files and symbolic links. -/

namespace ScriptHost

/-- What a name in a directory stands for. -/
inductive Node where
  | file (bytes : ByteArray)
  | link (target : String)
  | directory (entries : List (String × Node))

namespace Node

def entries : Node → List (String × Node)
  | directory entries => entries
  | _ => []

/-- The node at a path below a node, without a look through links. -/
def find? : (path : List String) → Node → Option Node
  | [], node => some node
  | name :: path, directory entries =>
    match entries.lookup name with
    | some node => node.find? path
    | none => none
  | _ :: _, _ => none

/-- The tree with a node put at a path. Directories that the path lacks are made. -/
def put (new : Node) : (path : List String) → Node → Node
  | [], _ => new
  | name :: path, directory entries =>
    directory (insertByName name (put new path ((entries.lookup name).getD (directory []))) entries)
  | _ :: _, node => node

/-- The tree without the node at a path. -/
def erase : (path : List String) → Node → Node
  | [], node => node
  | [name], directory entries => directory (entries.filter (·.1 != name))
  | name :: path, directory entries =>
    match entries.lookup name with
    | some node => directory (insertByName name (node.erase path) entries)
    | none => directory entries
  | _ :: _, node => node

end Node

end ScriptHost
