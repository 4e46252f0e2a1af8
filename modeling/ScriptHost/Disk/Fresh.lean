import ScriptHost.Disk.Change
import ScriptHost.Library

/-! A disk as a run may find it: the usual top-level directories, the bundled library in its place,
and an empty work directory. -/

namespace ScriptHost.Disk

def workDirectory : String := "/tmp/script-host/w"

def topLevel : List String :=
  ["bin", "boot", "dev", "etc", "home", "lib", "media", "mnt", "opt", "proc", "root", "run", "sbin",
    "srv", "sys", "tmp", "usr", "var"]

/-- A disk on which nothing has been done yet. -/
def fresh : Disk :=
  let bare : Disk := ⟨.directory (topLevel.map fun name => (name, .directory [])), .root⟩
  let disk := bare.createDirectories workDirectory
  let disk := disk.plant Library.bundledName (.file Library.bundledText.toUTF8)
  (disk.enter? workDirectory).getD disk

end ScriptHost.Disk
