import ScriptHost.Disk.Change

/-! What has been added to a disk or changed on it. -/

namespace ScriptHost

def Entry.isLike : Entry → Entry → Bool
  | .file bytes, .file other => bytes.data == other.data
  | .link target, .link other => target == other
  | .directory, .directory => true
  | _, _ => false

namespace Disk

/-- Everything on a disk, each thing with its path from the root. A directory comes before what is
in it. -/
def everything (disk : Disk) : List (String × Entry) := listingBelow "/" disk.root.entries

/-- What a disk has and another one had not, or had otherwise. -/
def since (disk before : Disk) : List (String × Entry) :=
  let old := before.everything
  disk.everything.filter fun item => !(old.lookup item.1).any item.2.isLike

end Disk

end ScriptHost
