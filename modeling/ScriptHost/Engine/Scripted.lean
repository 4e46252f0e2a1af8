import ScriptHost.Engine.Verbatim

/-! An engine that reports and writes what a script says, besides passing its sources through. -/

namespace ScriptHost

/-- A diagnostic that asks for a place in the source of a name. -/
structure Cue where
  diagnostic : Diagnostic
  source : Option String
  start : Nat
  length : Nat

/-- The diagnostic of a cue, at its place when the program has a source of that name. -/
def Cue.resolve (cue : Cue) (sources : List SourceText) : Diagnostic :=
  match sources.find? fun source => some source.name == cue.source with
  | some source => cue.diagnostic.locate source cue.start cue.length
  | none => cue.diagnostic

/-- A write that a script asks for. -/
structure ScriptedWrite where
  name : String
  data : String
  mark : Bool

/-- What an engine adds in each phase. -/
structure Script where
  early : List Cue := []
  semantic : List Cue := []
  emit : List Cue := []
  writes : List ScriptedWrite := []

namespace Script

/-- The diagnostics for writes that failed, in their order. -/
def performWrites : List ScriptedWrite → Task (List Diagnostic)
  | [] => .done []
  | item :: items =>
    .write item.name item.data item.mark fun answer =>
      (performWrites items).bind fun rest =>
        match answer with
        | .ok _ => .done rest
        | .error error => .done (Diagnostic.general .warning 1 error.message :: rest)

/-- The program with all that a script adds. -/
def extend (script : Script) (program : Program) : Program where
  sources := program.sources
  early := program.early ++ script.early.map (·.resolve program.sources)
  checker full := {
    semantic := script.semantic.map (·.resolve program.sources)
    emit :=
      (program.checker full).emit.bind fun emission =>
        (performWrites script.writes).bind fun failed =>
          .done (emission.append
            ⟨failed ++ script.emit.map (·.resolve program.sources), []⟩)
  }

end Script

def Engine.scripted (script : Script) : Engine := verbatim.refine script.extend

end ScriptHost
