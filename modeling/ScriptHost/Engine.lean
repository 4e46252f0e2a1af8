import ScriptHost.CommandLine
import ScriptHost.SourceMap
import ScriptHost.Task

/-! The contract between a host and an engine, which owns parsing, checking and emission. -/

namespace ScriptHost

/-- What an emission leaves behind besides its outputs. -/
structure Emission where
  diagnostics : List Diagnostic := []
  sourceMaps : List SourceMap := []
  deriving DecidableEq, Repr

def Emission.append (first second : Emission) : Emission :=
  ⟨first.diagnostics ++ second.diagnostics, first.sourceMaps ++ second.sourceMaps⟩

/-- What an engine knows of a program in one mode: what is wrong with its meaning, and how its
outputs are written. -/
structure Checker where
  semantic : List Diagnostic
  emit : Task Emission

/-- A program: its sources in order, what was wrong when it was built, and its checker with and
without a full check. -/
structure Program where
  sources : List SourceText
  early : List Diagnostic
  checker : (full : Bool) → Checker

/-- An engine. It builds a program from the names of its root files; the host that serves it has
text under at most `served` names. -/
structure Engine where
  parse : ResponseFiles → List String → CommandLine := CommandLine.parse
  build : (served : Nat) → (roots : List String) → Options → Task Program

end ScriptHost
