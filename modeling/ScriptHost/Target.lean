import ScriptHost.Engine

/-! Emission of sources unchanged: one output for each, or one for all of them. -/

namespace ScriptHost

/-- An output and the sources that it holds. -/
structure Target where
  name : String
  sources : List SourceText
  deriving DecidableEq, Repr

namespace Target

/-- The name of the output of a source, below the output directory when there is one. -/
def nameFor (source : String) (outDir : Option String) : String :=
  let output := FileName.scriptName source
  match outDir with
  | none => output
  | some directory =>
    if FileName.isRooted output then FileName.combine directory (FileName.base output)
    else FileName.combine directory output

/-- The outputs of a program. Declaration files have none. -/
def ofProgram (options : Options) (sources : List SourceText) : List Target :=
  let emitted := sources.filter (!·.isDeclaration)
  match options.out with
  | some out => if emitted.isEmpty then [] else [⟨out, emitted⟩]
  | none => emitted.map fun source => ⟨nameFor source.name options.outDir, [source]⟩

/-- A text with the end of a line behind it, unless it is empty or ends with a line feed. -/
def terminated (newLine text : String) : String :=
  if text.toList.isEmpty || text.toList.getLast? == some '\n' then text else text ++ newLine

/-- The sources of an output one after another. -/
def body (target : Target) (newLine : String) : String :=
  String.join (target.sources.map (terminated newLine ·.text))

def mapName (target : Target) : String := target.name ++ ".map"

/-- The line that names the source map at the end of an output. -/
def trailer (target : Target) (newLine : String) : String :=
  "//# sourceMappingURL=" ++ FileName.base target.mapName ++ newLine

def text (target : Target) (newLine : String) (sourceMap : Bool) : String :=
  if sourceMap then target.body newLine ++ target.trailer newLine else target.body newLine

def sourceMap (target : Target) : SourceMap :=
  ⟨target.name, target.mapName, SourceMap.render target.name target.sources⟩

def unwritten (name : String) (error : HostError) : Diagnostic :=
  .error 5033 ("Could not write file '" ++ name ++ "': " ++ error.reason ++ ".")

/-- The diagnostics after an output was written or not. -/
def faults (name : String) : WriteAnswer → List Diagnostic
  | .ok _ => []
  | .error error => [unwritten name error]

/-- Writes an output, and then its source map if there is to be one. A map counts once it is
written, whatever became of the output. -/
def emit (target : Target) (sourceMap : Bool) : Task Emission :=
  .query .newLine fun newLine =>
    .write target.name (target.text newLine sourceMap) false fun answer =>
      let first : Emission := ⟨faults target.name answer, []⟩
      if sourceMap then
        .write target.mapName target.sourceMap.json false fun answer =>
          .done (first.append
            ⟨faults target.mapName answer, if answer.isOk then [target.sourceMap] else []⟩)
      else .done first

def emitAll (sourceMap : Bool) : List Target → Task Emission
  | [] => .done {}
  | target :: targets =>
    (target.emit sourceMap).bind fun first =>
      (emitAll sourceMap targets).bind fun rest => .done (first.append rest)

end Target

def emitProgram (options : Options) (sources : List SourceText) : Task Emission :=
  Target.emitAll options.sourceMap (Target.ofProgram options sources)

end ScriptHost
