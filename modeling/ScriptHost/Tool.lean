import ScriptHost.Compilation.Entry
import ScriptHost.Discovery
import ScriptHost.Engine.Verbatim
import ScriptHost.Tool.Invocation

/-! The command-line tool: it compiles files, directories or standard input, shows diagnostics on
standard error, and ends with a status that says whether there were any. -/

namespace ScriptHost.Tool

/-- How the tool ends, and what it has written to its streams and to disk. -/
structure Exit where
  status : Nat
  output : String := ""
  errors : String := ""
  disk : Disk

/-- An error that ends the tool: what it was doing if it says so, and its causes. -/
structure Failure where
  message : String
  causes : List String

namespace Failure

def ofError (error : CompileError) : Failure := ⟨error.message, error.causes⟩

def during (step : String) (error : CompileError) : Failure :=
  ⟨step, error.message :: error.causes⟩

/-- Text with every line but the first set in. -/
def indented (width : Nat) (text : String) : String :=
  ("\n" ++ String.ofList (List.replicate width ' ')).intercalate
    ((text.toList.splitOn '\n').map String.ofList)

def numbered (cause : String × Nat) : String :=
  let number := toString cause.2
  "\n" ++ String.ofList (List.replicate (5 - number.length) ' ') ++ number ++ ": " ++
    indented 7 cause.1

/-- The causes of a failure as they are shown: a lone one is not numbered. -/
def renderCauses : List String → String
  | [] => ""
  | [cause] => "\n\nCaused by:\n    " ++ indented 4 cause
  | causes => "\n\nCaused by:" ++ String.join (causes.zipIdx.map numbered)

def render (failure : Failure) : String :=
  "Error: " ++ failure.message ++ renderCauses failure.causes ++ "\n"

end Failure

/-- The sources of inputs: those below each directory, and each other input itself. -/
def collect (disk : Disk) : List String → Except Failure (List Descriptor)
  | [] => .ok []
  | input :: inputs => do
    let found ←
      if disk.isDirectory input then
        match disk.discover input with
        | .ok found => .ok found
        | .error error => .error (.during ("failed to search " ++ input) (.discover error))
      else .ok [.file input]
    let rest ← collect disk inputs
    return found ++ rest

/-- The tool shows every diagnostic itself. -/
def silent : Callback := fun _ _ _ => .suppress

/-- How the tool's runs go. -/
def settings (invocation : Invocation) : Settings where
  arguments := .tokens invocation.engineArguments
  configuration := ⟨!invocation.noTypeCheck, invocation.library⟩
  callback := some silent

/-- The end of the tool after a run, of which `show` gives what is printed. -/
def finish {α : Type} (outcome : Outcome α) (print : α → String) : Exit :=
  let shown := String.join (outcome.reports.seen.map fun notice => notice.line ++ "\n")
  match outcome.result with
  | .ok value => {
      status := if outcome.reports.seen.isEmpty then 0 else 1
      output := print value
      errors := shown
      disk := outcome.disk
    }
  | .error error => {
      status := 1
      errors := shown ++ (Failure.ofError error).render
      disk := outcome.disk
    }

/-- The end of the tool by a failure before any run. -/
def fail (disk : Disk) (failure : Failure) : Exit :=
  { status := 1, errors := failure.render, disk := disk }

/-- Compiles standard input, and prints what comes of it. -/
def compileStdin (invocation : Invocation) (stdin : ByteArray) (disk : Disk) : Exit :=
  match String.fromUTF8? stdin with
  | none =>
    fail disk ⟨"failed to read standard input", [DiskFailure.invalidText.reason]⟩
  | some text =>
    finish (Engine.verbatim.compileString (settings invocation) (.text text) disk) id

/-- Compiles sources, to disk or to standard output. -/
def compileSources (invocation : Invocation) (sources : List Descriptor) (disk : Disk) : Exit :=
  let settings := settings invocation
  if invocation.print then
    let host : Host := { configuration := settings.configuration, write := .string }
    finish (Engine.verbatim.run (settings.request sources) host disk)
      fun compilation => String.join compilation.outputs.values
  else
    finish (Engine.verbatim.compile settings (sources.map Descriptor.name) disk) fun _ => ""

/-- Does what the tool is asked to do. -/
def execute (invocation : Invocation) (stdin : ByteArray) (disk : Disk) : Exit :=
  if invocation.stdin then compileStdin invocation stdin disk
  else
    match collect disk invocation.inputs with
    | .error failure => fail disk failure
    | .ok [] => fail disk ⟨InputError.noFiles.message, []⟩
    | .ok sources => compileSources invocation sources disk

def usage : String :=
  "Compile TypeScript sources through the hosted engine\n\n" ++
    "Usage: script-host [OPTIONS] [INPUTS]... [-- <ENGINE_ARGS>...]\n"

/-- The tool on arguments, standard input and a disk. -/
def run (arguments : List String) (stdin : ByteArray) (disk : Disk) : Exit :=
  match Invocation.parse arguments with
  | .run invocation => execute invocation stdin disk
  | .help => { status := 0, output := usage, disk := disk }
  | .rejected => { status := 2, errors := usage, disk := disk }

end ScriptHost.Tool
