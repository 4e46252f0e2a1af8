import ScriptHost.Configuration
import ScriptHost.Descriptor
import ScriptHost.FileName
import ScriptHost.NameMap

/-! Hosts: where reads are answered from, where writes go, and what has been registered and
recorded so far. -/

namespace ScriptHost

/-- Where the text of a source is looked up. -/
inductive ReadStrategy where
  | files
  | strings (fallback : Bool)
  deriving DecidableEq, Repr

/-- A write as a redirect receives it. -/
structure Forwarded where
  redirect : String
  name : String
  data : String
  mark : Bool
  deriving DecidableEq, Repr

/-- What a host knows of the platform that it runs on. By default that is one with a `Disk`, on
which names that differ in case are different. -/
structure Platform where
  /-- What stands for a name and for all that differ from it in case alone, where those are names of
  one file. -/
  folded : Option (String → String) := none
  newLine : String := "\n"

/-- What stands for a name and for all that are the same on a platform. -/
def Platform.canonicalName (platform : Platform) (name : String) : String :=
  match platform.folded with
  | none => name
  | some fold => fold name

structure Host where
  configuration : Configuration
  platform : Platform := {}
  read : ReadStrategy := .files
  write : Medium := .file
  sources : NameMap String := .empty
  /-- The names of the sources in the order of their registration. -/
  sourceNames : List String := []
  outputs : NameMap String := .empty
  /-- The redirect that receives every write, if one is installed. -/
  redirect : Option String := none
  /-- All that redirects have received so far. -/
  forwarded : List Forwarded := []
  /-- The current directory, once it has been asked for. -/
  directory : Option String := none
  /-- Directories that are taken to exist, without idle segments. -/
  known : List String := []

namespace Host

/-- The host with a source registered. A name that has a text already keeps its place. -/
def addSource (host : Host) (name contents : String) : Host :=
  { host with
    sources := host.sources.insert name contents
    sourceNames :=
      if (host.sources.get? name).isNone then host.sourceNames ++ [name] else host.sourceNames }

/-- The host with a text registered under a made-up name. -/
def addText (host : Host) (contents : String) (counter : NameCounter) : Host × NameCounter :=
  let (name, counter) := counter.next
  (host.addSource name contents, counter)

def readsFrom (host : Host) : Medium :=
  match host.read with
  | .files => .file
  | .strings _ => .string

/-- Whether names that are not registered are looked up on disk. -/
def fallsBack (host : Host) : Bool := host.read == .strings true

def defaultLibrary (host : Host) : String := host.configuration.defaultLibrary

def newLine (host : Host) : String := host.platform.newLine

/-- Whether names that differ in case are different. -/
def caseSensitive (host : Host) : Bool := host.platform.folded.isNone

def canonicalName (host : Host) (name : String) : String := host.platform.canonicalName name

def forgetDirectories (host : Host) : Host := { host with known := [] }

def record (host : Host) (name text : String) : Host :=
  { host with outputs := host.outputs.insert name text }

/-- The host once a write has been passed to its redirect, if there is one. -/
def forward (host : Host) (name data : String) (mark : Bool) : Host :=
  match host.redirect with
  | some redirect =>
    { host with forwarded := host.forwarded ++ [⟨redirect, name, data, mark⟩] }
  | none => host

end Host

end ScriptHost
