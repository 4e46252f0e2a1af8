import ScriptHost.SourceText

/-! Diagnostics and the one line that shows each. -/

namespace ScriptHost

/-- How grave a diagnostic is. -/
inductive Category where
  | warning
  | error
  | message
  deriving DecidableEq, Repr

def Category.word : Category → String
  | warning => "warning"
  | error => "error"
  | message => "message"

/-- One record of an engine: what is wrong and, in `source`, from which byte on and how far. -/
structure Diagnostic where
  source : Option SourceText
  start : Nat
  length : Nat
  category : Category
  code : Nat
  message : String
  deriving DecidableEq, Repr

namespace Diagnostic

/-- A diagnostic without a place. -/
def general (category : Category) (code : Nat) (message : String) : Diagnostic :=
  ⟨none, 0, 0, category, code, message⟩

def error (code : Nat) (message : String) : Diagnostic := general .error code message

def locate (diagnostic : Diagnostic) (source : SourceText) (start length : Nat) : Diagnostic :=
  { diagnostic with source := some source, start := start, length := length }

def place (diagnostic : Diagnostic) : String :=
  match diagnostic.source with
  | none => ""
  | some source =>
    let (line, column) := source.lineAndColumn diagnostic.start
    source.name ++ "(" ++ toString line ++ "," ++ toString column ++ "): "

def render (diagnostic : Diagnostic) : String :=
  diagnostic.place ++ diagnostic.category.word ++ " TS" ++ toString diagnostic.code ++ ": " ++
    diagnostic.message

end Diagnostic

end ScriptHost
