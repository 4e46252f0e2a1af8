import ScriptHost.Engine
import ScriptHost.Host.Service
import ScriptHost.Report

/-! Compilation: one run drives an engine through its phases on a host. Early diagnostics end a run
with a full check; without one, only meaning is left unchecked. -/

namespace ScriptHost

/-- What a run is asked to compile, and how. -/
structure Request where
  sources : List Descriptor
  arguments : Arguments := .empty
  configuration : Configuration := {}
  callback : Option Callback := none

/-- What a run produced: all outputs that its host has recorded, the source maps that it wrote, and
its diagnostics. -/
structure Compilation where
  outputs : NameMap String
  sourceMaps : List SourceMap
  diagnostics : List String

namespace Compilation

def isEmpty (compilation : Compilation) : Bool :=
  compilation.outputs.isEmpty && compilation.sourceMaps.isEmpty && compilation.diagnostics.isEmpty

def hasDiagnostics (compilation : Compilation) : Bool := !compilation.diagnostics.isEmpty

end Compilation

/-- What an engine is asked for in a run. -/
inductive Phase where
  | program
  | semantic
  | emission
  deriving DecidableEq, Repr

/-- The end of a run: its result or why there is none, the reports, the phases that the engine went
through, and the host and the disk as the run leaves them. -/
structure Outcome (α : Type) where
  result : Except CompileError α
  reports : Reports := {}
  phases : List Phase := []
  host : Host
  disk : Disk

namespace Outcome

/-- The number of programs that the engine was asked to build. -/
def programs {α : Type} (outcome : Outcome α) : Nat := outcome.phases.count .program

def map {α β : Type} (change : α → β) (outcome : Outcome α) : Outcome β :=
  { outcome with result := outcome.result.map change }

end Outcome

/-- The first name in a list that stands in it or among earlier ones before. -/
def firstRepeated? (earlier : List String) : List String → Option String
  | [] => none
  | name :: names =>
    if name ∈ earlier then some name else firstRepeated? (earlier ++ [name]) names

/-- Names with those of a second list added that are not there yet. -/
def addNames (names more : List String) : List String :=
  more.foldl (fun names name => if name ∈ names then names else names ++ [name]) names

namespace Request

/-- What is wrong with the sources of a request on a host. -/
def fault? (request : Request) (host : Host) : Option InputError :=
  match firstRepeated? [] (request.sources.map Descriptor.name) with
  | some name => some (.duplicateName name)
  | none =>
    match host.readsFrom, request.sources.find? (·.medium == .string) with
    | .file, some source => some (.stringForFileHost source.name)
    | _, _ => none

/-- The command line of a request, with the host's library unless there is to be none. -/
def commandLine (request : Request) (engine : Engine) (host : Host) (disk : Disk) : CommandLine :=
  let line :=
    match request.arguments with
    | .tokens tokens => engine.parse disk.responseFiles tokens
    | .parsed line => line
  if line.options.noLib then line
  else { line with options := { line.options with defaultLibrary := some host.defaultLibrary } }

/-- The host with the string sources of a request registered, if it reads strings. -/
def register (request : Request) (host : Host) : Host :=
  match host.readsFrom with
  | .file => host
  | .string =>
    request.sources.foldl
      (fun host source =>
        match source with
        | .string name contents => host.addSource name contents
        | .file _ => host)
      host

/-- The root files of a run on a host with its sources registered: all registered sources and the
files of the request, or the request alone, and then what the arguments name besides. -/
def roots (request : Request) (host : Host) (line : CommandLine) : List String :=
  let given :=
    match host.readsFrom with
    | .file => request.sources.map Descriptor.name
    | .string =>
      host.sourceNames ++ (request.sources.filter (·.medium == .file)).map Descriptor.name
  addNames given line.fileNames

end Request

namespace Engine

variable (engine : Engine)

/-- The phases after a program has been built. -/
def finish (request : Request) (errors : List Diagnostic) (program : Program) (host : Host)
    (disk : Disk) : Outcome Compilation :=
  let full := request.configuration.fullTypeCheck
  let early := errors ++ program.early
  let reports := Reports.forward request.callback {} early
  if full && !early.isEmpty then
    { result := .ok ⟨host.outputs, [], reports.lines⟩
      reports := reports, phases := [.program], host := host, disk := disk }
  else
    let checker := program.checker full
    let reports :=
      if full then reports.forward request.callback checker.semantic else reports
    let emitted := host.serve checker.emit disk
    let reports := reports.forward request.callback emitted.answer.diagnostics
    { result := .ok ⟨emitted.host.outputs, emitted.answer.sourceMaps, reports.lines⟩
      reports := reports
      phases := .program :: (if full then [.semantic] else []) ++ [.emission]
      host := emitted.host, disk := emitted.disk }

def run (request : Request) (host : Host) (disk : Disk) : Outcome Compilation :=
  match request.fault? host with
  | some error => { result := .error (.invalidInput error), host := host, disk := disk }
  | none =>
    let line := request.commandLine engine host disk
    match host.forgetDirectories.currentDirectory disk with
    | (.error error, host) => { result := .error (.host error), host := host, disk := disk }
    | (.ok _, host) =>
      let host := request.register host
      let task := engine.build host.served (request.roots host line) line.options
      let built := host.serve task disk
      finish request line.errors built.answer built.host built.disk

end Engine

end ScriptHost
