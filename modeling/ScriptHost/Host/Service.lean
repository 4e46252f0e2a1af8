import ScriptHost.Disk
import ScriptHost.Host
import ScriptHost.Task
import ScriptHost.Text.Utf8

/-! How a host serves requests: reads by its strategy, writes to its outputs, its redirect or the
disk, and whole tasks request by request. -/

namespace ScriptHost.Host

/-- The answer to a read from disk. A byte order mark is not part of the text. -/
def readDisk (disk : Disk) (name : String) : ReadAnswer :=
  match disk.readText (FileName.normalize name) with
  | .ok text => .ok (some (Text.dropByteOrderMark text))
  | .error .notFound => .ok none
  | .error failure => .error (.read name failure)

/-- Whether a name is that of the default library, however it is spelled. -/
def isDefaultLibrary (host : Host) (name : String) : Bool :=
  FileName.normalize name == FileName.normalize host.defaultLibrary

/-- The answer to a read. The default library always comes from disk. -/
def readSource (host : Host) (disk : Disk) (name : String) : ReadAnswer :=
  match host.read with
  | .files => readDisk disk name
  | .strings fallback =>
    if host.isDefaultLibrary name then readDisk disk name
    else
      match host.sources.get? name with
      | some text => .ok (some text)
      | none => if fallback then readDisk disk name else .ok none

/-- Whether a directory is taken to exist, however it is spelled. -/
def knows (host : Host) (directory : String) : Prop :=
  FileName.condensed directory ∈ host.known

instance (host : Host) (directory : String) : Decidable (host.knows directory) :=
  inferInstanceAs (Decidable (FileName.condensed directory ∈ host.known))

def know (host : Host) (directory : String) : Host :=
  { host with known := host.known ++ [FileName.condensed directory] }

/-- What a host leaves behind when it serves a request. -/
structure Served (α : Type) where
  answer : α
  host : Host
  disk : Disk

/-- Makes directories that do not exist yet, given innermost first. A known directory is not
looked at again. -/
def ensureDirectories (host : Host) (disk : Disk) : List String → Served WriteAnswer
  | [] => ⟨.ok (), host, disk⟩
  | directory :: outer =>
    if host.knows directory then ⟨.ok (), host, disk⟩
    else if disk.isDirectory directory then ⟨.ok (), host.know directory, disk⟩
    else
      match host.ensureDirectories disk outer with
      | ⟨.error error, host, disk⟩ => ⟨.error error, host, disk⟩
      | ⟨.ok _, host, disk⟩ =>
        match disk.createDirectory directory with
        | .ok disk => ⟨.ok (), host.know directory, disk⟩
        | .error failure =>
          if failure = .exists ∧ disk.isDirectory directory then
            ⟨.ok (), host.know directory, disk⟩
          else ⟨.error (.createDirectory directory failure), host, disk⟩

/-- Writes a file to disk, and makes the directories that it lies in before that. -/
def writeDisk (host : Host) (disk : Disk) (name data : String) (mark : Bool) :
    Served WriteAnswer :=
  let normal := FileName.normalize name
  match host.ensureDirectories disk (FileName.enclosing normal) with
  | ⟨.error error, host, disk⟩ => ⟨.error error, host, disk⟩
  | ⟨.ok _, host, disk⟩ =>
    match disk.writeBytes normal (Text.withByteOrderMark mark data).toUTF8 with
    | .ok disk => ⟨.ok (), host, disk⟩
    | .error failure => ⟨.error (.write name failure), host, disk⟩

/-- Writes an output. A redirect sees every write, and takes the place of the disk. The output is
recorded once nothing has failed, with its byte order mark if it is a file. -/
def writeFile (host : Host) (disk : Disk) (name data : String) (mark : Bool) :
    Served WriteAnswer :=
  match host.write with
  | .string => ⟨.ok (), (host.record name data).forward name data mark, disk⟩
  | .file =>
    let written :=
      if host.redirect.isSome then ⟨.ok (), host.forward name data mark, disk⟩
      else host.writeDisk disk name data mark
    match written with
    | ⟨.ok _, host, disk⟩ => ⟨.ok (), host.record name (Text.withByteOrderMark mark data), disk⟩
    | ⟨.error error, host, disk⟩ => ⟨.error error, host, disk⟩

/-- The current directory, which is asked for once. String sources have none. -/
def currentDirectory (host : Host) (disk : Disk) : Except HostError String × Host :=
  match host.readsFrom with
  | .string => (.ok "", host)
  | .file =>
    match host.directory with
    | some directory => (.ok directory, host)
    | none =>
      match disk.currentDirectory with
      | .ok directory => (.ok directory, { host with directory := some directory })
      | .error failure => (.error (.currentDirectory failure), host)

def answer (host : Host) : (question : Query) → question.Answer
  | .defaultLibrary => host.defaultLibrary
  | .canonicalName name => host.canonicalName name
  | .caseSensitive => host.caseSensitive
  | .newLine => host.newLine

def serve {α : Type} : Task α → Host → Disk → Served α
  | .done value, host, disk => ⟨value, host, disk⟩
  | .read name next, host, disk => serve (next (host.readSource disk name)) host disk
  | .write name data mark next, host, disk =>
    let written := host.writeFile disk name data mark
    serve (next written.answer) written.host written.disk
  | .currentDirectory next, host, disk =>
    let (answer, host) := host.currentDirectory disk
    serve (next answer) host disk
  | .query question next, host, disk => serve (next (host.answer question)) host disk

theorem serve_bind {α β : Type} (task : Task α) (next : α → Task β) (host : Host) (disk : Disk) :
    serve (task.bind next) host disk =
      serve (next (serve task host disk).answer) (serve task host disk).host
        (serve task host disk).disk := by
  induction task generalizing host disk with
  | done value => rfl
  | read name k ih => exact ih _ host disk
  | write name data mark k ih => exact ih _ _ _
  | currentDirectory k ih => exact ih _ _ disk
  | query question k ih => exact ih _ host disk

/-- A bound on the number of names under which a disk has text: there are no more texts that are
short enough for a path, and a normal form is at most three bytes longer than its own normal form.
-/
def diskNames : Nat := Nat.pow 256 (Disk.maxPath + 4)

/-- A bound on the number of names in normal form under which the host has text. The library may be
known by three of them, such as `c:`, `c:.` and `c:..`. -/
def served (host : Host) : Nat :=
  match host.read with
  | .strings false => host.sources.size + 3
  | _ => host.sources.size + diskNames

end ScriptHost.Host
