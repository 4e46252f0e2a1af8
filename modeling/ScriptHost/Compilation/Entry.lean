import ScriptHost.Compilation

/-! Ways into a run: files on disk, one text, or several texts in memory. -/

namespace ScriptHost

/-- One source in memory: raw text, or a descriptor. -/
inductive StringInput where
  | text (text : String)
  | descriptor (descriptor : Descriptor)

/-- Several sources in memory. -/
inductive StringInputs where
  | named (sources : List (String × String))
  | descriptors (descriptors : List Descriptor)
  | texts (texts : List String)

/-- Sources from a map: of two texts under one name the later one counts, and the sources are in
the order of their names. -/
def StringInputs.ofMap (sources : List (String × String)) : StringInputs :=
  .named (NameMap.ofList sources).entries

/-- The first file among descriptors that should all be strings. -/
def misplacedFile? (descriptors : List Descriptor) : Option InputError :=
  (descriptors.find? (·.medium == .file)).map fun source => .fileForString source.name

namespace StringInput

def rawName : String := "string.ts"

/-- The source of an input; empty raw text is none. -/
def source? : StringInput → Except InputError (Option Descriptor)
  | .text raw => .ok (if raw.isEmpty then none else some (.string rawName raw))
  | .descriptor source =>
    match misplacedFile? [source] with
    | some error => .error error
    | none => .ok (some source)

end StringInput

/-- The sources of inputs, and the counter after names were made up for texts. -/
def StringInputs.sources (counter : NameCounter) :
    StringInputs → Except InputError (List Descriptor) × NameCounter
  | .named sources => (.ok (sources.map fun (name, text) => .string name text), counter)
  | .descriptors sources =>
    match misplacedFile? sources with
    | some error => (.error error, counter)
    | none => (.ok sources, counter)
  | .texts unnamed =>
    let (sources, counter) := counter.describeAll unnamed
    (.ok sources, counter)

/-- How the sources of a run are to be compiled. -/
structure Settings where
  arguments : Arguments := .empty
  configuration : Configuration := {}
  callback : Option Callback := none

def Settings.request (settings : Settings) (sources : List Descriptor) : Request :=
  ⟨sources, settings.arguments, settings.configuration, settings.callback⟩

namespace Engine

variable (engine : Engine)

/-- Compiles files on disk to files on disk. -/
def compile (settings : Settings) (files : List String) (disk : Disk) : Outcome Compilation :=
  let host : Host := { configuration := settings.configuration }
  if files.isEmpty then
    { result := .error (.invalidInput .noFiles), host := host, disk := disk }
  else engine.run (settings.request (files.map .file)) host disk

/-- A host that reads strings and writes strings. -/
def memoryHost (configuration : Configuration) : Host :=
  { configuration := configuration, read := .strings false, write := .string }

/-- Compiles texts that may refer to each other by name. -/
def compileStrings (settings : Settings) (sources : List Descriptor) (disk : Disk) :
    Outcome Compilation :=
  engine.run (settings.request sources) (memoryHost settings.configuration) disk

/-- Compiles texts in whatever form they are given. -/
def compileInputs (settings : Settings) (inputs : StringInputs) (counter : NameCounter)
    (disk : Disk) : Outcome Compilation × NameCounter :=
  match inputs.sources counter with
  | (.error error, counter) =>
    ({ result := .error (.invalidInput error), host := memoryHost settings.configuration,
       disk := disk }, counter)
  | (.ok sources, counter) => (engine.compileStrings settings sources disk, counter)

/-- Compiles one text. The result is every output in the order of the writes. -/
def compileString (settings : Settings) (input : StringInput) (disk : Disk) : Outcome String :=
  let host := { memoryHost settings.configuration with redirect := some "" }
  match input.source? with
  | .error error => { result := .error (.invalidInput error), host := host, disk := disk }
  | .ok none => { result := .ok "", host := host, disk := disk }
  | .ok (some source) =>
    let outcome := engine.run (settings.request [source]) host disk
    outcome.map fun _ => String.join (outcome.host.forwarded.map Forwarded.data)

end Engine

end ScriptHost
