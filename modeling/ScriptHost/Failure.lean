/-! What can go wrong on a disk, in a host and in a run, and the texts that say so. -/

namespace ScriptHost

/-- Why a disk refuses a request. -/
inductive DiskFailure where
  | notFound
  | exists
  | notDirectory
  | isDirectory
  | nameTooLong
  | tooManyLinks
  | invalidText
  | nulInName
  deriving DecidableEq, Repr

/-- The text of a system error with its number. -/
def DiskFailure.system (text : String) (number : Nat) : String :=
  text ++ " (os error " ++ toString number ++ ")"

def DiskFailure.reason : DiskFailure → String
  | notFound => system "No such file or directory" 2
  | «exists» => system "File exists" 17
  | notDirectory => system "Not a directory" 20
  | isDirectory => system "Is a directory" 21
  | nameTooLong => system "File name too long" 36
  | tooManyLinks => system "Too many levels of symbolic links" 40
  | invalidText => "stream did not contain valid UTF-8"
  | nulInName => "file name contained an unexpected NUL byte"

/-- A request that a host could not serve. -/
inductive HostError where
  | read (name : String) (cause : DiskFailure)
  | write (name : String) (cause : DiskFailure)
  | createDirectory (name : String) (cause : DiskFailure)
  | currentDirectory (cause : DiskFailure)
  deriving DecidableEq, Repr

namespace HostError

def cause : HostError → DiskFailure
  | read _ cause => cause
  | write _ cause => cause
  | createDirectory _ cause => cause
  | currentDirectory cause => cause

/-- The reason behind an error, without the name it is about. -/
def reason (error : HostError) : String := error.cause.reason

def message (error : HostError) : String :=
  match error with
  | read name _ => "failed to read source " ++ name ++ ": " ++ error.reason
  | write name _ => "failed to write output " ++ name ++ ": " ++ error.reason
  | createDirectory name _ => "failed to create directory " ++ name ++ ": " ++ error.reason
  | currentDirectory _ => "failed to resolve the current directory: " ++ error.reason

end HostError

/-- Input that no run accepts. -/
inductive InputError where
  | noFiles
  | duplicateName (name : String)
  | stringForFileHost (name : String)
  | fileForString (name : String)
  deriving DecidableEq, Repr

def InputError.message : InputError → String
  | noFiles => "no input files"
  | duplicateName name => "duplicate source name " ++ name
  | stringForFileHost name => "string source " ++ name ++ " given to a host that reads from files"
  | fileForString name => "expected a string source, got file " ++ name

/-- A path that a walk could not look at or into. -/
structure WalkError where
  path : String
  cause : DiskFailure
  deriving DecidableEq, Repr

def WalkError.message (error : WalkError) : String :=
  "IO error for operation on " ++ error.path ++ ": " ++ error.cause.reason

/-- A search for sources that a failed step of its walk ended. -/
structure DiscoveryError where
  root : String
  source : WalkError
  deriving DecidableEq, Repr

def DiscoveryError.message (error : DiscoveryError) : String :=
  "failed to discover sources under " ++ error.root ++ ": " ++ error.source.message

/-- Why a run has no result. -/
inductive CompileError where
  | invalidInput (error : InputError)
  | host (error : HostError)
  | discover (error : DiscoveryError)
  deriving DecidableEq, Repr

namespace CompileError

def message : CompileError → String
  | invalidInput error => "invalid input: " ++ error.message
  | host error => error.message
  | discover error => error.message

/-- The texts of the causes behind an error, the nearest first. -/
def causes : CompileError → List String
  | invalidInput _ => []
  | host error => [error.reason]
  | discover error => [error.source.message, error.source.cause.reason]

end CompileError

end ScriptHost
